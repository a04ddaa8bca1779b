import JabSimul.ContactsOrder
import JabSimul.ExpectedKills
import JabSimul.PrivRoundTrip
import JabSimul.RosterRuns

/-!
The references between the roster of a user and its private contacts. The contacts
are freed as a whole, and items of the roster point at them. So they must not be read
twice on one connection, and the roster has to go before them.
-/
namespace JabSimul

open Simulation Relation

/-- What an item of a roster may point at. -/
def RosterItem.Refers (list : List PrivRosterItem) (item : RosterItem) : Prop :=
  ∀ p, item.priv = some p → p ∈ list.map PrivRosterItem.ptr

/-- Nothing points out of the private contacts, and nothing is there before they are read. -/
structure PrivRost.Closed (p : PrivRost) : Prop where
  empty : p.loaded = false → p.privRostList = []
  groups : ∀ item ∈ p.privRostList, ∀ g ∈ item.groups, g ∈ p.groups.map GroupItem.ptr
  gall : p.loaded = true → p.gall.isSome

/-- No reference of a user dangles. The roster is looked at by jids. -/
structure World.References (w : World) (u : UserPtr) : Prop where
  closed : (w.users u).privRost.Closed
  items : ∀ jid item, w.rosterContents u jid = some item →
    item.Refers (w.users u).privRost.privRostList

section Loading

variable {w w' : World} {u v : UserPtr}

theorem privLoadGroups_gall (u : UserPtr) (gxml : Option XmlNode) (w : World) :
    ∃ w', privLoadGroups u gxml w = .ok ⟨⟩ w' ∧ (w'.users u).privRost.gall.isSome ∧
      (w'.users u).privRost.privRostList = (w.users u).privRost.privRostList := by
  have items := mapM_alloc privLoadGroup_apply (tagIter gxml (cstr "group")) w
  simp only [privLoadGroups, bind_apply, items]
  split
  · cases xmlnodeGetTag gxml (cstr "groupall") with
    | none => exact ⟨_, rfl, by simp [updPrivRost_self]⟩
    | some groupAll => exact ⟨_, rfl, by simp [updPrivRost_self]⟩
  · cases xmlnodeGetTag gxml (cstr "groupall") with
    | none => exact ⟨_, rfl, by simp [updPrivRost_self]⟩
    | some groupAll => exact ⟨_, rfl, by simp [updPrivRost_self]⟩

theorem contactAt_groups (groups : List GroupItem) (cur : XmlNode) (p : Nat) :
    ∀ g ∈ (contactAt groups cur p).groups, g ∈ groups.map GroupItem.ptr := by
  intro g member
  obtain ⟨item, found, rfl⟩ := List.mem_map.mp member
  obtain ⟨name, _, hit⟩ := List.mem_filterMap.mp found
  exact List.mem_map_of_mem (List.mem_of_find?_eq_some hit)

/-- The contacts are read for the first time. -/
theorem privRosterFromXml_closed {xml : Option XmlNode}
    (first : (w.users u).privRost.loaded = false) (empty : (w.users u).privRost.privRostList = [])
    (ran : privRosterFromXml u xml w = .ok ⟨⟩ w') : (w'.users u).privRost.Closed := by
  let wpmsg := xmlnodeGetTag (xmlnodeGetTag xml (cstr "query")) (cstr "wpmsg")
  obtain ⟨w₁, grouped, gall, list⟩ := privLoadGroups_gall u (xmlnodeGetTag wpmsg (cstr "groups")) w
  obtain ⟨w₂, loaded, priv⟩ := privLoadContacts_apply u (xmlnodeGetTag wpmsg (cstr "contacts"))
    (list.trans empty)
  have read : privRosterFromXml u xml w =
      .ok ⟨⟩ (w₂.updPrivRost u fun p => { p with loaded := true }) := by
    simp only [privRosterFromXml, bind_apply, getUser_apply, first]
    change (privLoadGroups u (xmlnodeGetTag wpmsg (cstr "groups")) >>= fun _ => _) w = _
    rw [bind_apply, grouped]
    change (privLoadContacts u (xmlnodeGetTag wpmsg (cstr "contacts")) >>= fun _ => _) w₁ = _
    rw [bind_apply, loaded]
    rfl
  obtain rfl : w₂.updPrivRost u (fun p => { p with loaded := true }) = w' := by
    rw [read] at ran
    injection ran
  constructor
  · rw [updPrivRost_self]
    intro unread
    cases unread
  · rw [updPrivRost_self, priv]
    intro item member
    obtain ⟨place, _, rfl⟩ := List.mem_map.mp member
    exact contactAt_groups _ _ _
  · rw [updPrivRost_self, priv]
    exact fun _ => gall

end Loading

section Updates

variable {k : Concern} {w w' : World} {u v : UserPtr}

theorem World.References.congr (refs : w.References u)
    (contacts : (w'.users u).contacts = (w.users u).contacts)
    (items : w'.rosterContents = w.rosterContents) : w'.References u := by
  have list := congrArg Contacts.privRostList contacts
  have groups := congrArg Contacts.groups contacts
  have gall := congrArg Contacts.gall contacts
  have loaded := congrArg Contacts.loaded contacts
  change (w'.users u).privRost.privRostList = (w.users u).privRost.privRostList at list
  change (w'.users u).privRost.groups = (w.users u).privRost.groups at groups
  change (w'.users u).privRost.gall = (w.users u).privRost.gall at gall
  change (w'.users u).privRost.loaded = (w.users u).privRost.loaded at loaded
  constructor
  · constructor
    · rw [loaded, list]
      exact refs.closed.empty
    · rw [list, groups]
      exact refs.closed.groups
    · rw [loaded, gall]
      exact refs.closed.gall
  · rw [list, items]
    exact refs.items

theorem findPrivByJid_refers (list : List PrivRosterItem) (jid : CString) :
    ∀ p, findPrivByJid list jid = some p → p ∈ list.map PrivRosterItem.ptr := by
  intro p found
  obtain ⟨item, hit, rfl⟩ := Option.map_eq_some_iff.mp found
  exact List.mem_map_of_mem (List.mem_of_find?_eq_some hit)

/-- New items refer to the contacts that are there when they are made. -/
theorem rosterApply_refers {list : List PrivRosterItem} (items : List XmlNode)
    {contents : CString → Option RosterItem}
    (before : ∀ jid item, contents jid = some item → item.Refers list) :
    ∀ jid item, items.foldl (rosterApply list) contents jid = some item → item.Refers list := by
  induction items generalizing contents with
  | nil => exact before
  | cons cur items ih =>
    apply ih
    intro jid item found
    rw [rosterApply, Function.update_apply] at found
    split at found
    · split at found
      · cases found
      · cases found
        exact findPrivByJid_refers list _
    · exact before jid item found

theorem references_fromXml (tables : w.Tables) (refs : ∀ v, w.References v) (xml : Option XmlNode)
    (delete : Bool) : (rosterHashFromXml u xml delete w).References v := by
  obtain ⟨_, contents⟩ := rosterHashFromXml_tables (u := u) xml tables delete
  have priv := fromXml_privRost w u xml delete v
  constructor
  · rw [priv]
    exact (refs v).closed
  · rw [priv, contents, Function.update_apply]
    split
    · subst v
      apply rosterApply_refers
      split
      · nofun
      · exact (refs u).items
    · exact (refs v).items

theorem contacts_updUser {f : UserProperities → UserProperities}
    (same : (f (w.users u)).contacts = (w.users u).contacts) (v : UserPtr) :
    ((w.updUser u f).users v).contacts = (w.users v).contacts := by
  by_cases own : v = u
  · subst own
    rw [updUser_users_self, same]
  · rw [updUser_users_of_ne _ own]

theorem references_updUser {f : UserProperities → UserProperities} (tables : w.Tables)
    (same : (f (w.users u)).contacts = (w.users u).contacts) (refs : w.References v) :
    (w.updUser u f).References v := by
  have kept : SameTables w (w.updUser u f) :=
    .updUser (congrArg Contacts.rosterHash same) (congrArg Contacts.rosterCount same)
  exact refs.congr (contacts_updUser same v) (kept.spec tables).2

theorem hashDelete_privRost (w : World) (u v : UserPtr) :
    ((rosterHashDelete u w).users v).privRost = (w.users v).privRost := by
  have frame := rosterHashDelete_frame w u
  by_cases own : v = u
  · subst own
    obtain ⟨hash, count, last, user⟩ := frame.user
    rw [user]
  · rw [frame.others v own]

theorem references_hashDelete (tables : w.Tables) (refs : ∀ v, w.References v) :
    (rosterHashDelete u w).References v := by
  have priv := hashDelete_privRost w u v
  constructor
  · rw [priv]
    exact (refs v).closed
  · rw [priv, (rosterHashDelete_spec tables).2, Function.update_apply]
    split
    · nofun
    · exact (refs v).items

/-- A user that has no roster may lose its private contacts. -/
theorem references_privDelete (tables : w.Tables) (gone : (w.users u).rosterHash = none)
    (refs : ∀ v, w.References v) : (w.updPrivRost u fun p =>
      { p with privRostList := [], groups := [], gall := none, loaded := false }).References v := by
  have contents := ((SameTables.updUser (w := w) (u := u) (f := fun user =>
    { user with privRost :=
      { user.privRost with privRostList := [], groups := [], gall := none, loaded := false } })
    rfl rfl).spec tables).2
  by_cases own : v = u
  · subst own
    constructor
    · rw [updPrivRost_self]
      exact ⟨fun _ => rfl, fun _ member => absurd member List.not_mem_nil,
        fun loaded => absurd loaded Bool.false_ne_true⟩
    · intro jid item found
      change (w.updUser v _).rosterContents v jid = _ at found
      rw [contents, World.rosterContents, gone] at found
      cases found
  · refine (refs v).congr ?_ contents
    exact congrArg UserProperities.contacts (updUser_users_of_ne _ own _)

/-- What the moves are made of, while nothing is heard. -/
theorem Update.references (update : Update k w w') (deaf : k ≠ .hear) (tables : w.Tables)
    (refs : ∀ v, w.References v) : w'.References v := by
  cases update with
  | aside users items next _ =>
    have kept := SameTables.of_same users items (Nat.le_of_eq next.symm)
    exact (refs v).congr (by rw [users]) (kept.spec tables).2
  | user u f _ contacts _ => exact references_updUser tables contacts (refs v)
  | mark _ u b => exact references_updUser tables rfl (refs v)
  | available p b => exact (refs v).congr rfl ((SameTables.available p b).spec tables).2
  | roster u xml delete => exact references_fromXml tables refs xml delete
  | privRoster heard _ _ _ => exact absurd heard deaf
  | rosterDelete u => exact references_hashDelete tables refs
  | privDelete u gone => exact references_privDelete tables gone refs

theorem World.Updated.references (done : w.Updated k w') (deaf : k ≠ .hear) (tables : w.Tables)
    (refs : ∀ v, w.References v) : w'.Tables ∧ ∀ v, w'.References v := by
  induction done with
  | refl => exact ⟨tables, refs⟩
  | tail _ update ih => exact ⟨update.tables ih.1, fun v => update.references deaf ih.1 ih.2⟩

theorem users_of_unpriv (other : v ≠ u) (same : w'.unpriv u = w.unpriv u) :
    w'.users v = w.users v := by
  have hidden : ∀ w : World, (w.unpriv u).users v = w.users v := fun w => by
    simp [World.unpriv, World.updPrivRost, World.updUser, other]
  rw [← hidden w', same, hidden]

/-- The contacts of a user are read when it has none. -/
theorem references_privRoster {xml : Option XmlNode} (tables : w.Tables)
    (refs : ∀ v, w.References v) (first : (w.users u).privRost.loaded = false)
    (ran : privRosterFromXml u xml w = .ok ⟨⟩ w') : w'.References v := by
  have contents := ((SameTables.privRoster ran).spec tables).2
  have empty := (refs u).closed.empty first
  by_cases own : v = u
  · subst own
    constructor
    · exact privRosterFromXml_closed first empty ran
    · rw [contents]
      intro jid item found p priv
      have nowhere := (refs v).items jid item found p priv
      rw [empty] at nowhere
      cases nowhere
  · have same := users_of_unpriv own (privRosterFromXml_unpriv ran)
    exact (refs v).congr (by rw [same]) contents

theorem Update.loaded (update : Update k w w') (deaf : k ≠ .hear)
    (loaded : (w'.users v).privRost.loaded = true) : (w.users v).privRost.loaded = true := by
  have same : (w'.users v).contacts = (w.users v).contacts →
      (w.users v).privRost.loaded = true := fun contacts =>
    (congrArg Contacts.loaded contacts).symm.trans loaded
  cases update with
  | aside users _ _ _ => rwa [users] at loaded
  | user u f _ contacts _ => exact same (contacts_updUser contacts v)
  | mark _ u b => exact same (contacts_updUser rfl v)
  | available p b => exact loaded
  | roster u xml delete => rwa [fromXml_privRost] at loaded
  | privRoster heard _ _ _ => exact absurd heard deaf
  | rosterDelete u => rwa [hashDelete_privRost] at loaded
  | privDelete u gone =>
    by_cases own : v = u
    · subst own
      rw [updPrivRost_self] at loaded
      cases loaded
    · exact (congrArg (fun user => user.privRost.loaded) (updUser_users_of_ne w own _)).symm.trans loaded

theorem World.Updated.loaded (done : w.Updated k w') (deaf : k ≠ .hear)
    (loaded : (w'.users v).privRost.loaded = true) : (w.users v).privRost.loaded = true := by
  induction done with
  | refl => exact loaded
  | tail _ update ih => exact ih (update.loaded deaf loaded)

end Updates

section Moves

variable {k : Concern} {w w' : World} {u : UserPtr}

theorem conn_killConn_or_none (w : World) (c : ConnPtr) (site : KillSite) (u : UserPtr) :
    ((w.killConn c site).users u).conn = (w.users u).conn ∨
      ((w.killConn c site).users u).conn = none := by
  by_cases mine : (w.heap c).conn.user = some u
  · have reset : ((w.session.kill c site).users u).conn = none := by
      rw [Session.users_kill, conn_session, if_pos mine]
      rfl
    rcases session_killConn w c site with same | ⟨r, same⟩
    · exact .inr ((congrArg (fun s : Session => (s.users u).conn) same).trans reset)
    · exact .inr ((congrArg (fun s : Session => (s.users u).conn) same).trans reset)
  · exact .inl (conn_killConn mine)

/-- A user with a connection keeps it or has none afterwards. -/
theorem Move.conn_or_none (move : Move k w w') (sound : w.session.Sound)
    (there : (w.users u).conn ≠ none) :
    (w'.users u).conn = (w.users u).conn ∨ (w'.users u).conn = none := by
  by_cases calm : k ≠ .life
  · exact .inl (move.conn sound calm u)
  cases move with
  | @drained _ c text _ _ _ =>
    have popped : (((w.popPacket c text []).expectKillOf (w.heap c).conn.user).users u).conn =
        (w.users u).conn := by
      have session : ((w.popPacket c text []).expectKillOf (w.heap c).conn.user).session =
          w.session.pop c text [] := by rw [session_expectKillOf, session_popPacket]
      have users := congrArg (fun s : Session => (s.users u).conn) session
      exact users.trans (congrArg Party.conn (congrFun (Session.users_pop ..) u))
    rw [← popped]
    exact conn_killConn_or_none _ c _ u
  | refill empty =>
    have same := congrArg (fun s : Session => (s.users u).conn) (session_refillSlots (w := w))
    rw [if_pos empty] at same
    exact .inl same
  | @connect _ v loc next sstate fd time ssl idle _ _ =>
    have other : u ≠ v := by
      rintro rfl
      exact there idle
    have same : (w.session.connect v loc next sstate fd time ssl).users u = w.session.users u := by
      simp [Session.connect, other]
    rw [← session_connectUser] at same
    exact .inl (congrArg Party.conn same)
  | @kill _ c site _ _ => exact conn_killConn_or_none w c site u
  | @userKill _ v site _ =>
    by_cases here : u = v
    · subst here
      exact .inr (congrArg Party.conn (resetUser_frame (w.detachUser u site) u).party)
    · rw [(resetUser_frame _ v).others u here]
      exact .inl (conn_detachUser here)
  | stale c =>
    rw [users_touch]
    exact .inl rfl
  | _ => exact absurd (by simp) calm

/-- The references of all users, with what tells that they stay sound: the contacts of a
user with a connection are there only after they were told on it. -/
structure World.Referring (w : World) : Prop where
  arises : w.Arises
  tables : w.Tables
  order : ∀ c, w.contactSteps c <:+ ContactStep.order
  told : ∀ u c, (w.users u).conn = some c → (w.users u).privRost.loaded = true →
    .contactsTold ∈ w.contactSteps c
  refs : ∀ u, w.References u

/-- While the answer with the contacts is awaited, there are none. -/
theorem World.Referring.unloaded (all : w.Referring) {c : ConnPtr} (owner : (w.users u).conn = some c)
    {e : XmlNeedResponse} (pending : e ∈ w.pending c) (callback : e.callback = some .handleExtcontacts) :
    (w.users u).privRost.loaded = false := by
  have live := all.arises.sound.live_of_conn owner
  have fewer := all.arises.told_lt_asked live pending callback talks_contacts
  rw [Bool.eq_false_iff]
  intro loaded
  have told := all.told u c owner loaded
  rcases contactSteps_cases (all.order c) with same | same | same | same | same | same <;>
    rw [same] at told fewer
  case inr.inr.inr.inr.inr => exact absurd fewer (by decide)
  all_goals exact absurd told (by decide)

theorem World.Referring.init (fresh : w.Initial) : w.Referring := by
  constructor
  · exact (Reachable.init fresh).arises
  · exact fresh.rosters.1.toTables
  · exact (Reachable.init fresh).contactOrder
  · intro u c owner
    rw [(fresh.users u).conn] at owner
    cases owner
  · intro u
    have unloaded := (fresh.users u).privLoaded
    have empty := (fresh.users u).privRostList
    constructor
    · constructor
      · exact fun _ => empty
      · rw [empty]
        exact fun _ member => absurd member List.not_mem_nil
      · rw [unloaded]
        exact fun loaded => absurd loaded Bool.false_ne_true
    · rw [fresh.rosters.2]
      nofun

/-- What is heard is read by the handlers of private contacts only. -/
theorem Move.references (move : Move k w w') (all : w.Referring) (u : UserPtr) : w'.References u := by
  by_cases deaf : k ≠ .hear
  · by_cases other : k ≠ .timers
    · exact ((move.updated other).references deaf all.tables all.refs).2 u
    · cases move with
      | sooner v f tm => exact references_updUser all.tables rfl (all.refs u)
      | queue v queue => exact references_updUser all.tables rfl (all.refs u)
      | _ => exact absurd (by simp) other
  have taken : ∀ c e queue, (w.dispatchEntry c e queue).Tables ∧
      ∀ v, (w.dispatchEntry c e queue).References v := by
    intro c e queue
    have done := World.Updated.refl .books w
    exact (((done.touch c).updConn _ _).emit _).references (by simp) all.tables all.refs
  cases move with
  | stanza x _ => exact (all.refs u).congr rfl rfl
  | dispatch _ _ _ _ => exact (taken _ _ _).2 u
  | @privRoster _ _ v c x id e queue rest xml owner _ _ found callback ran =>
    have unloaded := all.unloaded owner (mem_pending found) callback
    rw [← users_dispatchEntry w c e queue] at unloaded
    exact references_privRoster (taken c e queue).1 (taken c e queue).2 unloaded ran
  | _ => exact absurd (by simp) deaf

/-- Contacts are there after the move only if they were before, or the move reads them. -/
theorem Move.loaded (move : Move k w w')
    (loaded : (w'.users u).privRost.loaded = true) : (w.users u).privRost.loaded = true ∨
      ∃ c, (w.users u).conn = some c ∧ .contactsTold ∈ w'.contactSteps c := by
  by_cases deaf : k ≠ .hear
  · by_cases other : k ≠ .timers
    · exact .inl ((move.updated other).loaded deaf loaded)
    · cases move with
      | sooner v f tm => exact .inl ((congrArg Contacts.loaded (contacts_updUser rfl u)).symm.trans loaded)
      | queue v queue => exact .inl ((congrArg Contacts.loaded (contacts_updUser rfl u)).symm.trans loaded)
      | _ => exact absurd (by simp) other
  cases move with
  | stanza x _ => exact .inl loaded
  | dispatch _ _ _ _ =>
    rw [users_dispatchEntry] at loaded
    exact .inl loaded
  | @privRoster _ _ v c x id e queue rest xml owner _ _ found callback ran =>
    by_cases own : u = v
    · subst own
      refine .inr ⟨c, owner, ?_⟩
      have read : (World.unpriv u w').trace = (World.unpriv u (w.dispatchEntry c e queue)).trace := by
        rw [privRosterFromXml_unpriv ran]
      have same : w'.contactSteps c = (w.dispatchEntry c e queue).contactSteps c :=
        congrArg (List.filterMap (Ev.contactStep c)) read
      rw [same, contactSteps_dispatchEntry]
      simp [Ev.contactStep, callback, Callback.tells]
    · rw [users_of_unpriv own (privRosterFromXml_unpriv ran), users_dispatchEntry] at loaded
      exact .inl loaded
  | _ => exact absurd (by simp) deaf

theorem Move.referring (move : Move k w w') (all : w.Referring) : w'.Referring := by
  have arises := all.arises.move move
  have sound := all.arises.sound
  refine ⟨arises, move.tables all.tables, fun c => move.contactOrder all.arises (all.order c),
    fun u c owner loaded => ?_, move.references all⟩
  have kept : (w.users u).conn ≠ none → (w.users u).conn = some c := by
    intro there
    rcases move.conn_or_none sound there with same | none
    · exact same.symm.trans owner
    · rw [none] at owner
      cases owner
  rcases move.loaded loaded with before | ⟨d, owner', told⟩
  · have there : (w.users u).conn ≠ none := by
      intro idle
      obtain ⟨_, _, _, _, unloaded⟩ := (sound.party u).idle idle
      exact absurd before (Bool.eq_false_iff.mp unloaded)
    obtain ⟨steps, _, grown⟩ := move.contactSteps sound c
    rw [grown]
    exact List.mem_append_right _ (all.told u c (kept there) before)
  · have same := (kept (by simp [owner'])).symm.trans owner'
    cases same
    exact told

/-- The items of a roster, with what presences say about them. -/
theorem World.Tables.content (tables : w.Tables) {e : RosterPtr × RosterPtr}
    (member : e ∈ w.rosterEntries u) : w.rosterContents u (w.rosterText e.1) =
      some { (w.rosterItems e.2).item with available := false } := by
  cases hash : (w.users u).rosterHash with
  | none =>
    rw [World.rosterEntries, hash] at member
    cases member
  | some h =>
    rw [rosterEntries_of_hash hash] at member
    rw [rosterContents_of_hash hash, (tables.sound u h hash).get_iff.mpr ⟨e.1, member, rfl⟩]
    rfl

theorem World.Referring.withEnv (all : w.Referring) (env : Env) : (w.withEnv env).Referring := by
  have same : SameTables w (w.withEnv env) := .of_same rfl rfl (Nat.le_refl _)
  obtain ⟨tables, contents⟩ := same.spec all.tables
  exact ⟨all.arises, tables, all.order, all.told, fun u => (all.refs u).congr rfl contents⟩

/-- In every state of a run the items of a roster refer to private contacts that are there, the
private contacts to groups that are there, and contacts that were read have a group for all. -/
theorem no_dangling_references (reach : Reachable w) (u : UserPtr) :
    (∀ e ∈ w.rosterEntries u, ∀ p, (w.rosterItems e.2).item.priv = some p →
      ∃ item ∈ (w.users u).privRost.privRostList, item.ptr = p) ∧
    (∀ item ∈ (w.users u).privRost.privRostList, ∀ g ∈ item.groups,
      ∃ group ∈ (w.users u).privRost.groups, group.ptr = g) ∧
    ((w.users u).privRost.loaded = true → (w.users u).privRost.gall.isSome) := by
  have all : w.Referring := reach.invariant .init (fun env all => all.withEnv env)
    fun _ move all => move.referring all
  have refs := all.refs u
  refine ⟨fun e member p priv => ?_, fun item member g group => ?_, refs.closed.gall⟩
  · exact List.mem_map.mp (refs.items _ _ (all.tables.content member) p priv)
  · exact List.mem_map.mp (refs.closed.groups item member g group)

end Moves

section Examples

/-- A contact of one group, and the roster with the same contact. -/
def contactsScript : List (Input × Env) :=
  loginScript ++ [hears [.node (resultFor (cstr "JCOM_0") []),
    .node (resultFor (cstr "wpmsg:numextcontacts") []),
    .node (resultFor (cstr "wpmsg:extcontacts") [.tag (cstr "query") [] [.tag (cstr "wpmsg") []
      [.tag (cstr "groups") [] [.tag (cstr "group") [] [textTag "name" (some (cstr "friends"))]],
        .tag (cstr "contacts") [] [.tag (cstr "item") [] [textTag "jid" (some (cstr "ola@host")),
          .tag (cstr "groups") [] [textTag "groupitem" (some (cstr "friends"))]]]]]]),
    .node (resultFor (cstr "doroster_0") [.tag (cstr "query") [(cstr "xmlns", cstr "jabber:iq:roster")]
      [.tag (cstr "item") [(cstr "jid", cstr "ola@host")] []]])]]

def contactsWorld : World := (plainWorld [connectEvent]).played contactsScript

theorem no_dangling_references_ola :
    (∃ e ∈ contactsWorld.rosterEntries 0, ∃ p, (contactsWorld.rosterItems e.2).item.priv = some p ∧
      ∃ item ∈ (contactsWorld.users 0).privRost.privRostList, item.ptr = p) ∧
    (∃ item ∈ (contactsWorld.users 0).privRost.privRostList, ∃ g ∈ item.groups,
      ∃ group ∈ (contactsWorld.users 0).privRost.groups, group.ptr = g) ∧
    (contactsWorld.users 0).privRost.gall.isSome := by
  have reach : Reachable contactsWorld := reachable_played (.init (plainWorld_initial _)) _
  have points : (contactsWorld.rosterEntries 0).any
      (fun e => (contactsWorld.rosterItems e.2).item.priv.isSome) = true := by decide +kernel
  have grouped : (contactsWorld.users 0).privRost.privRostList.any (fun item => item.groups ≠ []) =
      true := by decide +kernel
  obtain ⟨items, groups, gall⟩ := no_dangling_references reach 0
  refine ⟨?_, ?_, gall (by decide +kernel)⟩
  · obtain ⟨e, member, some'⟩ := List.any_eq_true.mp points
    obtain ⟨p, priv⟩ := Option.isSome_iff_exists.mp some'
    exact ⟨e, member, p, priv, items e member p priv⟩
  · obtain ⟨item, member, some'⟩ := List.any_eq_true.mp grouped
    obtain ⟨g, inside⟩ := List.exists_mem_of_ne_nil _ (of_decide_eq_true some')
    exact ⟨item, member, g, inside, groups item member g inside⟩

end Examples

end JabSimul
