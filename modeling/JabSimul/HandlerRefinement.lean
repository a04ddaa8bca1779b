import JabSimul.Refinement
import JabSimul.RequestSpec

/-!
The handlers refine the session machine without a kill: whatever the server
sends, a user keeps its connection while a stanza is handled.
-/
namespace JabSimul

open Simulation Relation

section Roster

variable (w : World) (u : UserPtr)

theorem RosterFrame.alloc (ri : RosterItem) : RosterFrame u w (w.allocRosterItem ri) :=
  ⟨rfl, rfl, rfl, rfl, rfl, rfl, rfl, rfl, rfl, fun _ _ => rfl, _, _, _, rfl⟩

theorem RosterFrame.itemDelete (p : RosterPtr) : RosterFrame u w (rosterItemDelete w p) :=
  ⟨rfl, rfl, rfl, rfl, rfl, rfl, rfl, rfl, rfl, fun _ _ => rfl, _, _, _, rfl⟩

theorem RosterFrame.setHash (hash : Option RosterHash) :
    RosterFrame u w (w.setRosterHash u hash) :=
  ⟨rfl, rfl, rfl, rfl, rfl, rfl, rfl, rfl, rfl, fun _ other => updUser_users_of_ne w other _,
    hash, _, _, updUser_users_self w u _⟩

theorem RosterFrame.addCount (d : Int) : RosterFrame u w (w.addRosterCount u d) :=
  let add : UserProperities → UserProperities := fun user =>
    { user with rosterCount := user.rosterCount + d }
  ⟨rfl, rfl, rfl, rfl, rfl, rfl, rfl, rfl, rfl, fun _ other => updUser_users_of_ne w other add,
    _, _, _, updUser_users_self w u add⟩

theorem rosterDropOld_frame (h : RosterHash) (ri : RosterPtr) :
    RosterFrame u w (rosterDropOld u h ri w) := by
  unfold rosterDropOld
  split
  · exact .refl w u
  · exact ((RosterFrame.setHash w u _).trans (.itemDelete _ u _)).trans (.addCount _ u _)

theorem rosterStoreItem_frame (cur : XmlNode) : RosterFrame u w (rosterStoreItem u w cur) := by
  unfold rosterStoreItem
  split
  · exact .refl w u
  · rename_i h _
    have dropped := (RosterFrame.alloc w u (rosterItemFromXml (w.users u).privRost.privRostList
      cur)).trans (rosterDropOld_frame _ u h w.nextPtr)
    dsimp only
    split
    · exact dropped.trans (.itemDelete _ u _)
    · split
      · exact dropped
      · exact (dropped.trans (.setHash _ u _)).trans (.addCount _ u _)

theorem rosterStoreItems_frame (items : List XmlNode) :
    RosterFrame u w (items.foldl (rosterStoreItem u) w) := by
  induction items generalizing w with
  | nil => exact .refl w u
  | cons cur items ih => exact (rosterStoreItem_frame w u cur).trans (ih _)

theorem setRosterHash_hash (hash : Option RosterHash) :
    ((w.setRosterHash u hash).users u).rosterHash = hash := by
  rw [World.setRosterHash, updUser_users_self]

theorem addRosterCount_hash (d : Int) :
    ((w.addRosterCount u d).users u).rosterHash = (w.users u).rosterHash := by
  change ((w.updUser u fun user => { user with rosterCount := user.rosterCount + d }).users
    u).rosterHash = _
  rw [updUser_users_self]

/-- A user that has a roster hash keeps one. -/
theorem rosterDropOld_isSome {w : World} (some' : (w.users u).rosterHash.isSome) (h : RosterHash)
    (ri : RosterPtr) : ((rosterDropOld u h ri w).users u).rosterHash.isSome := by
  unfold rosterDropOld
  split
  · exact some'
  · rw [addRosterCount_hash]
    change ((w.setRosterHash u _).users u).rosterHash.isSome = true
    rw [setRosterHash_hash]
    rfl

theorem rosterStoreItem_isSome {w : World} (some' : (w.users u).rosterHash.isSome)
    (cur : XmlNode) : ((rosterStoreItem u w cur).users u).rosterHash.isSome := by
  unfold rosterStoreItem
  split
  · exact some'
  · rename_i h _
    have dropped := rosterDropOld_isSome (w := w.allocRosterItem
      (rosterItemFromXml (w.users u).privRost.privRostList cur)) u some' h w.nextPtr
    dsimp only
    split
    · exact dropped
    · split
      · exact dropped
      · rw [addRosterCount_hash, setRosterHash_hash]
        rfl

theorem rosterStoreItems_isSome {w : World} (some' : (w.users u).rosterHash.isSome)
    (items : List XmlNode) :
    ((items.foldl (rosterStoreItem u) w).users u).rosterHash.isSome := by
  induction items generalizing w with
  | nil => exact some'
  | cons cur items ih => exact ih (rosterStoreItem_isSome u some' cur)

theorem rosterHashOpen_frame (xml : Option XmlNode) (delete : Bool) :
    RosterFrame u w (rosterHashOpen u xml delete w) := by
  have deleted : RosterFrame u w (if delete then rosterHashDelete u w else w) := by
    split
    · exact rosterHashDelete_frame w u
    · exact .refl w u
  unfold rosterHashOpen
  dsimp only
  split
  · exact deleted.trans (.setHash _ u _)
  · exact deleted

theorem rosterHashOpen_isSome (xml : Option XmlNode) (delete : Bool) :
    ((rosterHashOpen u xml delete w).users u).rosterHash.isSome := by
  unfold rosterHashOpen
  dsimp only
  split
  · rw [setRosterHash_hash]
    rfl
  · simp [*]

theorem rosterHashFromXml_eq (xml : Option XmlNode) (delete : Bool) :
    rosterHashFromXml u xml delete w = rosterHashStore u xml delete w ∨
      rosterHashFromXml u xml delete w =
        (rosterHashStore u xml delete w).userDebug u .rosterCountMismatch := by
  unfold rosterHashFromXml
  dsimp only
  split
  · exact .inr rfl
  · exact .inl rfl

theorem rosterHashStore_frame (xml : Option XmlNode) (delete : Bool) :
    RosterFrame u w (rosterHashStore u xml delete w) :=
  (rosterHashOpen_frame w u xml delete).trans (rosterStoreItems_frame _ u _)

theorem rosterHashFromXml_users (xml : Option XmlNode) (delete : Bool) :
    (rosterHashFromXml u xml delete w).users = (rosterHashStore u xml delete w).users := by
  rcases rosterHashFromXml_eq w u xml delete with silent | report
  · rw [silent]
  · rw [report]
    unfold World.userDebug
    split <;> rfl

theorem fromXml_others (xml : Option XmlNode) (delete : Bool) {v : UserPtr} (other : v ≠ u) :
    (rosterHashFromXml u xml delete w).users v = w.users v := by
  rw [rosterHashFromXml_users]
  exact (rosterHashStore_frame w u xml delete).others v other

theorem fromXml_privRost (xml : Option XmlNode) (delete : Bool) (v : UserPtr) :
    ((rosterHashFromXml u xml delete w).users v).privRost = (w.users v).privRost := by
  by_cases own : v = u
  · subst own
    obtain ⟨hash, count, last, user⟩ := (rosterHashStore_frame w v xml delete).user
    rw [rosterHashFromXml_users, user]
  · rw [fromXml_others w u xml delete own]

theorem session_of_rosterFrame {w w' : World} {u : UserPtr} (frame : RosterFrame u w w')
    (some' : (w'.users u).rosterHash.isSome) :
    w'.session = w.session.updParty u fun p =>
      { p with hasRoster := true, rosterCount := (w'.users u).rosterCount } := by
  obtain ⟨hash, count, last, user⟩ := frame.user
  have party : (w'.users u).party = { (w.users u).party with
      hasRoster := true, rosterCount := (w'.users u).rosterCount } := by
    rw [user] at some' ⊢
    simp only [UserProperities.party, some']
  have users : w'.session.users = (w.session.updParty u fun p =>
      { p with hasRoster := true, rosterCount := (w'.users u).rosterCount }).users := by
    funext v
    rw [Session.users_updParty]
    split
    · subst v
      exact party
    · exact congrArg UserProperities.party (frame.others v ‹_›)
  simp only [World.session, Session.updParty, frame.thread, frame.heap, frame.nextConn,
    frame.created, frame.killed, frame.trace, Session.mk.injEq, true_and, and_true]
  exact users

theorem session_userDebug (r : Report) :
    (w.userDebug u r).session = w.session ∨ (w.userDebug u r).session = w.session.emit (.report u r) := by
  unfold World.userDebug
  split
  · exact .inl rfl
  · exact .inr rfl

theorem steps_rosterHashFromXml {w : World} {u : UserPtr} {c : ConnPtr}
    (owner : (w.users u).conn = some c) (xml : Option XmlNode) (delete : Bool) :
    ReflTransGen Session.Calm w.session (rosterHashFromXml u xml delete w).session := by
  have stored : ReflTransGen Session.Calm w.session (rosterHashStore u xml delete w).session := by
    rw [session_of_rosterFrame (rosterHashStore_frame w u xml delete)
      (rosterStoreItems_isSome u (rosterHashOpen_isSome w u xml delete) _)]
    exact .single (.roster _ owner)
  rcases rosterHashFromXml_eq w u xml delete with same | report
  · rw [same]
    exact stored
  · rw [report]
    rcases session_userDebug (rosterHashStore u xml delete w) u .rosterCountMismatch with
      quiet | noted
    · rw [quiet]
      exact stored
    · rw [noted]
      exact stored.tail (.note _ trivial)

end Roster

section Packets

variable (u : UserPtr)

theorem safe_userDoPresence (type jidTo status showText : Option CString) :
    calmMachine.Safe (userDoPresence u type jidTo status showText) := by
  unfold userDoPresence
  refine (sim_getUser u).bind fun user => ?_
  refine ((sim_jpolldConnWrite user.conn _ false).pre fun _ _ pre => pre.2).bind_safe fun ret => ?_
  refine Abstraction.safe_ite (fun _ => ?_) fun _ => ?_
  · exact (silent_modUser u (by exact fun _ => rfl)).safe.bind fun _ => Abstraction.safe_pure
  · exact Abstraction.safe_pure

theorem safe_makeJcomId : calmMachine.Safe (makeJcomId u idBufSize) := by
  intro w _ _
  rw [makeJcomId_apply]
  refine ⟨.single ?_, trivial⟩
  change Session.Calm w.session (w.drawId u).session
  rw [session_drawId]
  exact .draw u

theorem safe_userDoSendMessage (jidFull : CString) (msg : Option CString) :
    calmMachine.Safe (userDoSendMessage u jidFull msg) := by
  cases msg with
  | none => exact Abstraction.safe_pure
  | some msg =>
    refine (safe_makeJcomId u).bind fun _ => ?_
    exact (sim_getUser u).bind fun user =>
      (sim_jpolldConnEnqueue user.conn _ false).pre fun _ _ pre => pre.2

theorem safe_userDoSendRawBytes (bytes : Option CString) :
    calmMachine.Safe (userDoSendRawBytes u bytes) :=
  (sim_getUser u).bind fun user =>
    (sim_jpolldConnEnqueue user.conn _ false).pre fun _ _ pre => pre.2

end Packets

/-- The user `u` has the connection `c`. -/
def Session.Owns (u : UserPtr) (c : ConnPtr) (s : Session) : Prop := (s.users u).conn = some c

theorem Session.owns_calm {u : UserPtr} {c : ConnPtr} {s t : Session} (_ : s.Sound)
    (step : Calm s t) (owns : s.Owns u c) : t.Owns u c := by
  rcases step.linked with linked | ⟨_, rfl⟩
  · exact (linked.owner u).trans owns
  · exact owns

/-- The connection `conn`, if there is one, is alive. -/
def Session.Lives (conn : Option ConnPtr) (s : Session) : Prop := ∀ c, conn = some c → s.live c

theorem Session.lives_calm {conn : Option ConnPtr} {s t : Session} (_ : s.Sound) (step : Calm s t)
    (lives : s.Lives conn) : t.Lives conn := by
  intro c same
  rcases step.linked with linked | ⟨_, rfl⟩
  · exact (linked.live c).mpr (lives c same)
  · exact lives c same

section Requests

variable {u : UserPtr} {c : ConnPtr} (curtime : Int)

theorem calm_askFor {w : World} {text : CString} {es : List XmlNeedResponse}
    (live : w.session.live c) (expects : Expects text es) :
    Session.Calm w.session (w.askFor c text es).session := by
  rw [session_askFor]
  exact .ask live expects.asks expects.plain expects.distinct

theorem sim_userDoFetchExtcontacts :
    calmMachine.Sim (fun w => w.session.Owns u c) (userDoFetchExtcontacts u curtime)
      (fun _ _ => True) := by
  intro w inv owns
  rw [userDoFetchExtcontacts_apply curtime owns]
  exact ⟨.single (calm_askFor (inv.live_of_conn owns) (expects_extcontacts curtime)), trivial⟩

theorem live_askFor {w : World} (text : CString) (es : List XmlNeedResponse) (d : ConnPtr) :
    (w.askFor c text es).session.live d ↔ w.session.live d := by
  rw [session_askFor]
  exact (((Session.Linked.refl w.session).accept c (some text)).registers c es).live d

theorem sim_userDoFetchProperities {x : XmlNode} :
    calmMachine.Sim (fun w => w.session.Owns u c ∧ ∃ rest, w.trace = .loggedIn c x :: rest)
      (userDoFetchProperities u curtime) (fun _ _ => True) := by
  intro w inv ⟨owns, rest, last⟩
  have live : w.session.live c := inv.live_of_conn owns
  have fetched : Session.Calm w.session (w.emit (.fetchIssued c)).session := .fetch last
  rw [userDoFetchProperities_apply curtime owns]
  refine ⟨.head fetched (.head (calm_askFor (w := w.emit (.fetchIssued c)) live
    (expects_ignored curtime)) (.single (calm_askFor ?_ (expects_initial curtime)))), trivial⟩
  exact (live_askFor _ _ c).mpr live

/-- A login on an open stream. -/
theorem sim_userDoLogin {text : World → CString → UserProperities → CString}
    (asks : ∀ w n user, Asks (text w (jcomId idBufSize n) user) (jcomId idBufSize n)) :
    calmMachine.Sim (fun w => w.session.Owns u c ∧ (w.users u).state = .canLogin ∧
      (w.users u).streamOpened = true) (userDoLogin text u curtime) (fun _ _ => True) := by
  intro w inv ⟨owns, state, opened⟩
  rw [userDoLogin_apply curtime text owns]
  refine ⟨.single ?_, trivial⟩
  change Session.Calm w.session (w.queueLogin u c _ curtime).session
  rw [session_queueLogin]
  exact .login owns state opened (asks _ _ _)

theorem sim_userDoAdddelRosterItem (jidFull : CString) (name : Option CString) (del : Bool) :
    calmMachine.Sim (fun w => w.session.Owns u c)
      (userDoAdddelRosterItem u curtime jidFull name del) (fun _ _ => True) := by
  intro w inv owns
  have plain : some (if del then Callback.handleDelRosterItemResponse
      else .handleAddRosterItemResponse) ≠ some .handleLoginResponse := by cases del <;> simp
  have writer := rosterRegistered_writer (w := w) (u := u) (c := c) curtime del
  rw [userDoAdddelRosterItem_apply curtime owns]
  by_cases full : ((w.rosterRegistered u c curtime del).heap c).conn.full
  · rw [jpolldConnEnqueue_full full]
    refine ⟨.single ?_, trivial⟩
    change Session.Calm w.session (World.rejectPacket _ c _).session
    rw [session_rejectPacket, session_rosterRegistered]
    refine .rosterCancel owns plain ?_
    rwa [JpolldConn.full, writer] at full
  · rw [jpolldConnEnqueue_room (.inl full)]
    refine ⟨.single ?_, trivial⟩
    change Session.Calm w.session (World.acceptPacket _ c _).session
    rw [session_acceptPacket, session_rosterRegistered]
    refine .rosterAsk owns plain ?_ (asks_iq _ _ _)
    rwa [JpolldConn.full, writer] at full

end Requests

section Rosters

variable (u : UserPtr) {c : ConnPtr}

theorem silent_groupItemCreate (name : Option CString) (exp : Bool) :
    calmMachine.Silent (groupItemCreate name exp) := fun _ => rfl

theorem silent_privRosterItemCreate (jid displayname nick firstname lastname sms cyfra speak :
    Option CString) (flash speakPres : Bool) (presText : Option CString) :
    calmMachine.Silent (privRosterItemCreate jid displayname nick firstname lastname sms cyfra speak
      flash speakPres presText) := fun _ => rfl

theorem silent_updPrivRost {f : PrivRost → PrivRost}
    (soft : ∀ p, (f p).loaded = p.loaded) :
    calmMachine.Silent (modify fun w => w.updPrivRost u f) := fun w => by
  change (w.updPrivRost u f).session = w.session
  refine session_updUser_soft w u ?_
  simp only [UserProperities.party, soft]

theorem silent_privLoadContact (groups : List GroupItem) (cur : XmlNode) :
    calmMachine.Silent (privLoadContact groups cur) :=
  (silent_privRosterItemCreate _ _ _ _ _ _ _ _ _ _ _).bind fun _ => Abstraction.silent_pure

theorem silent_privLoadContacts (cxml : Option XmlNode) :
    calmMachine.Silent (privLoadContacts u cxml) := by
  unfold privLoadContacts
  refine (silent_getUser u).bind fun user => ?_
  refine (Abstraction.silent_mapM (silent_privLoadContact _) _).bind fun items => ?_
  exact Abstraction.silent_ite (silent_updPrivRost u (by exact fun _ => rfl)) Abstraction.silent_pure

theorem silent_privLoadGroups (gxml : Option XmlNode) :
    calmMachine.Silent (privLoadGroups u gxml) := by
  unfold privLoadGroups
  refine (Abstraction.silent_mapM (fun cur => silent_groupItemCreate _ _) _).bind fun items => ?_
  refine Abstraction.silent_joined (silent_updPrivRost u (by exact fun _ => rfl)) fun _ => ?_
  dsimp only
  split
  · exact (silent_groupItemCreate _ _).bind fun _ => silent_updPrivRost u (by exact fun _ => rfl)
  · exact (silent_groupItemCreate _ _).bind fun _ => silent_updPrivRost u (by exact fun _ => rfl)

theorem safe_privRosterDelete : calmMachine.Safe (privRosterDelete u) := by
  intro w _ _
  refine ⟨.single ?_, trivial⟩
  change Session.Calm w.session (w.updPrivRost u _).session
  rw [World.updPrivRost, session_updUser w u (g := fun p => { p with privLoaded := false }) rfl]
  exact .privDeleted u

theorem sim_privRosterFromXml (x : Option XmlNode) :
    calmMachine.Sim (fun w => w.session.Owns u c) (privRosterFromXml u x) (fun _ _ => True) := by
  unfold privRosterFromXml
  refine ((silent_getUser u).sim (Session.Owns u c)).bind fun user => ?_
  refine Abstraction.sim_joined (fun _ => (safe_privRosterDelete u).keep Session.owns_calm) fun _ => ?_
  refine ((silent_privLoadGroups u _).sim (Session.Owns u c)).bind fun _ => ?_
  refine ((silent_privLoadContacts u _).sim (Session.Owns u c)).bind fun _ => ?_
  refine Abstraction.sim_modify (fun w _ owner => ?_) fun _ _ => trivial
  change Session.Calm w.session (w.updPrivRost u _).session
  rw [World.updPrivRost, session_updUser w u (g := fun p => { p with privLoaded := true }) rfl]
  exact .privLoaded owner

end Rosters

section Handlers

variable {u : UserPtr} {c : ConnPtr} (x : XmlNode) (curtime : Int)

/-- The last thing noted is that the answer `e` was found for `x`. -/
def Session.Dispatched (c : ConnPtr) (x : XmlNode) (s : Session) : Prop :=
  ∃ e rest, s.trace = .dispatched c e :: .stanza c x :: rest ∧
    e.callback = some .handleLoginResponse

/-- The user is logged in, which is the last thing noted. -/
def Session.JustLoggedIn (u : UserPtr) (c : ConnPtr) (x : XmlNode) (s : Session) : Prop :=
  s.Owns u c ∧ ∃ rest, s.trace = .loggedIn c x :: rest

theorem sim_derefConn {K : Session → Prop} (owns : ∀ s, K s → s.Owns u c) :
    calmMachine.Sim (fun w => K w.session) (derefConn u)
      (fun d w => d = c ∧ K w.session) := by
  intro w _ holds
  rw [derefConn_apply (owns _ holds)]
  exact ⟨.refl, rfl, holds⟩

theorem sim_afterLogin :
    calmMachine.Sim (fun w => w.session.JustLoggedIn u c x) (afterLogin u curtime)
      (fun _ _ => True) := by
  have fetched : calmMachine.Sim (fun w => w.session.JustLoggedIn u c x)
      (do let _ ← userDoFetchProperities u curtime) (fun _ _ => True) :=
    (sim_userDoFetchProperities curtime).bind_safe fun _ => Abstraction.safe_pure
  unfold afterLogin
  refine ((silent_getUser u).sim (Session.JustLoggedIn u c x)).bind fun user => ?_
  refine Abstraction.sim_ite (fun _ => ?_) fun _ => fetched
  refine (sim_derefConn fun _ holds => holds.1).bind fun d => ?_
  refine Abstraction.Sim.pre ?_ fun _ _ pre => pre.2
  refine ((silent_readConn d).sim (Session.JustLoggedIn u c x)).bind fun _ => ?_
  exact ((silent_exitIfFlagged u 1).sim (Session.JustLoggedIn u c x)).bind fun _ => fetched

theorem sim_handleLoginResponse :
    calmMachine.Sim (fun w => w.session.Owns u c ∧ w.session.Dispatched c x)
      (handleLoginResponse x u curtime) (fun _ _ => True) := by
  unfold handleLoginResponse
  refine Abstraction.sim_ite (fun _ => ?_) fun noError => ?_
  · refine Abstraction.Safe.sim ?_
    refine (silent_expectKill u).safe.bind fun _ => ?_
    exact (safe_userFinishConn _).bind fun _ => (silent_exitIfFlagged u 0).safe
  · intro w inv ⟨owns, e, rest, last, callback⟩
    have owns' : ((w.updUser u fun user => { user with state := .loggedIn }).users u).conn =
        some c := by
      rw [updUser_users_self]
      exact owns
    have step : Session.Calm w.session ((w.updUser u fun user =>
        { user with state := .loggedIn }).emit (.loggedIn c x)).session := by
      rw [session_emit, session_updUser w u (g := fun p => { p with state := .loggedIn }) rfl]
      exact .loggedIn owns last callback (by simpa using noError)
    rw [bind_apply, modUser_apply]
    dsimp only
    rw [bind_apply, emitOnConn_apply owns']
    exact (sim_afterLogin x curtime _ (inv.calm step) ⟨owns', _, rfl⟩).after (.single step)

theorem sim_handleRosterResponse :
    calmMachine.Sim (fun w => w.session.Owns u c) (handleRosterResponse x u) (fun _ _ => True) := by
  unfold handleRosterResponse
  refine Abstraction.sim_ite (fun _ => ?_) fun _ => Abstraction.safe_pure.sim
  refine Abstraction.Sim.bind_safe (Q := fun _ _ => True) (fun w _ owns => ?_) fun _ => ?_
  · exact ⟨steps_rosterHashFromXml owns _ _, trivial⟩
  · refine (silent_getUser u).safe.bind fun user => ?_
    exact (safe_userDoPresence u _ _ _ _).bind fun _ => (safe_modGlobals (by exact fun _ => ⟨rfl, rfl⟩))

theorem sim_handleRosterSetResponse :
    calmMachine.Sim (fun w => w.session.Owns u c) (handleRosterSetResponse x u)
      (fun _ _ => True) := by
  unfold handleRosterSetResponse
  refine Abstraction.sim_ite (fun _ w _ owns => ?_) fun _ => Abstraction.safe_pure.sim
  exact ⟨steps_rosterHashFromXml owns _ _, trivial⟩

theorem sim_handleNumextcontactsResponse :
    calmMachine.Sim (fun w => w.session.Owns u c) (handleNumextcontactsResponse x u curtime)
      (fun _ _ => True) := by
  unfold handleNumextcontactsResponse
  refine Abstraction.sim_ite (fun _ => ?_) fun _ => Abstraction.safe_pure.sim
  refine ((silent_updPrivRost u (by exact fun _ => rfl)).sim (Session.Owns u c)).bind fun _ => ?_
  exact (sim_userDoFetchExtcontacts curtime).bind_safe fun _ => Abstraction.safe_pure

theorem silent_addStatNo (no : StatNo) (time : Int) : calmMachine.Silent (addStatNo no time) :=
  silent_modGlobals (by exact fun _ => ⟨rfl, rfl⟩)

theorem safe_handleRosterItemResponse (no : StatNo) (querytime : Int) :
    calmMachine.Safe (handleRosterItemResponse no x querytime curtime) := by
  unfold handleRosterItemResponse
  exact Abstraction.safe_ite (fun _ => (silent_addStatNo no _).safe) fun _ => Abstraction.safe_pure

theorem safe_handlePresence : calmMachine.Safe (handlePresence x u) := by
  unfold handlePresence
  refine Abstraction.Safe.bind (safe_modGlobals (by exact fun _ => ⟨rfl, rfl⟩)) fun _ => ?_
  refine Abstraction.Safe.bind (silent_modUser u (by exact fun _ => rfl)).safe fun _ => ?_
  refine Abstraction.safe_ite (fun _ => ?_) fun _ => ?_
  · exact (safe_userDoPresence u _ _ _ _).bind fun _ => (safe_modGlobals (by exact fun _ => ⟨rfl, rfl⟩))
  · refine Abstraction.Silent.safe fun w => ?_
    simp only [bind_apply, get_apply]
    generalize (w.users u).rosterHash.bind _ = ri
    cases ri <;> rfl

theorem safe_userDebug (r : Report) : calmMachine.Safe (modify fun w => w.userDebug u r) := by
  intro w _ _
  refine ⟨?_, trivial⟩
  change ReflTransGen Session.Calm w.session (w.userDebug u r).session
  rcases session_userDebug w u r with quiet | noted
  · rw [quiet]
  · rw [noted]
    exact .single (.note _ trivial)

theorem safe_handleDebMessage (isOffline forwardedMsg : Bool) (tm one two : CString) :
    calmMachine.Safe (handleDebMessage x u curtime isOffline forwardedMsg tm one two) := by
  unfold handleDebMessage
  refine (sim_getUser u).bind fun user => ?_
  refine Abstraction.Sim.pre (P := fun w => w.session.Lives user.conn) ?_ fun _ _ pre => pre.2
  have noted : ∀ r, calmMachine.Sim (fun w => w.session.Lives user.conn) (emit (.report u r))
      (fun _ w => w.session.Lives user.conn) := fun r =>
    (safe_emit (e := .report u r) trivial).keep Session.lives_calm
  split
  refine Abstraction.sim_joined (fun _ => noted _) fun _ => ?_
  refine Abstraction.sim_joined (fun _ => noted _) fun _ => ?_
  refine Abstraction.sim_ite (fun _ => ?_) fun _ => Abstraction.safe_pure.sim
  refine Abstraction.sim_ite (fun _ => ?_) fun _ => Abstraction.Safe.sim ?_
  · exact (sim_jpolldConnWrite user.conn _ false).bind_safe fun _ => (safe_modGlobals (by exact fun _ => ⟨rfl, rfl⟩))
  · exact (silent_modUser u (by exact fun _ => rfl)).safe.bind fun _ => (silent_addStatNo _ _).safe

theorem safe_handleMessage : calmMachine.Safe (handleMessage x u curtime) := by
  unfold handleMessage
  refine Abstraction.Safe.bind (safe_modGlobals (by exact fun _ => ⟨rfl, rfl⟩)) fun _ => ?_
  refine Abstraction.safe_joined (safe_modGlobals (by exact fun _ => ⟨rfl, rfl⟩)) fun _ => ?_
  split
  · split
    · exact safe_handleDebMessage x curtime _ _ _ _ _
    · exact safe_userDebug _
  · exact Abstraction.safe_pure
  · exact (safe_modGlobals (by exact fun _ => ⟨rfl, rfl⟩))

/-- Every handler of an answer, called as `handle_user_node` calls it. -/
theorem sim_runCallback (callback : Callback) (querytime : Int) :
    calmMachine.Sim (fun w => w.session.Owns u c ∧
      (callback = .handleLoginResponse → w.session.Dispatched c x))
      (runCallback callback x u querytime curtime) (fun _ _ => True) := by
  cases callback with
  | handleLoginResponse =>
    exact (sim_handleLoginResponse x curtime).pre fun _ _ pre => ⟨pre.1, pre.2 rfl⟩
  | handleRosterResponse => exact (sim_handleRosterResponse x).pre fun _ _ pre => pre.1
  | handleNumextcontactsResponse =>
    exact (sim_handleNumextcontactsResponse x curtime).pre fun _ _ pre => pre.1
  | handleExtcontacts => exact (sim_privRosterFromXml u _).pre fun _ _ pre => pre.1
  | handleAddRosterItemResponse => exact (safe_handleRosterItemResponse x curtime _ _).sim
  | handleDelRosterItemResponse => exact (safe_handleRosterItemResponse x curtime _ _).sim

/-- The last thing noted is the stanza `x` on `c`. -/
def Session.Received (u : UserPtr) (c : ConnPtr) (x : XmlNode) (s : Session) : Prop :=
  s.Owns u c ∧ ∃ rest, s.trace = .stanza c x :: rest

theorem sim_handleResponse {id : CString} (known : stanzaId x = some id) :
    calmMachine.Sim (fun w => w.session.Received u c x) (handleResponse id x u curtime)
      (fun _ _ => True) := by
  intro w inv ⟨owns, rest, last⟩
  have alive : (w.heap c).live = true := inv.live_of_conn owns
  simp only [handleResponse, bind_apply, derefConn_apply owns, readConn_apply, touch_of_live alive]
  rcases found : xmlNeedResponseNodeGet id (w.heap c).conn.xmlNeedResponsesQueue with ⟨node, queue⟩
  cases node with
  | none => exact ⟨.refl, trivial⟩
  | some node =>
    have session : (((w.touch c).updConn c fun conn =>
        { conn with xmlNeedResponsesQueue := queue }).emit (.dispatched c node)).session =
        w.session.dispatch c node queue := by
      rw [session_emit, session_updConn, session_touch]
      rfl
    have step : Session.Calm w.session (w.session.dispatch c node queue) :=
      .dispatch owns last known found
    simp only [bind_apply, modConn_apply, emit_apply]
    cases named : node.callback with
    | none =>
      refine ⟨.single ?_, trivial⟩
      change Session.Calm w.session (World.session _)
      rw [session]
      exact step
    | some callback =>
      have ran := sim_runCallback x curtime callback node.sendTime (u := u) (c := c)
        (((w.touch c).updConn c fun conn =>
          { conn with xmlNeedResponsesQueue := queue }).emit (.dispatched c node))
      change calmMachine.Inv (World.session _) → _ → calmMachine.Outcome (World.session _) _ _
        at ran
      rw [session] at ran
      refine (ran (inv.calm step) ⟨?_, ?_⟩).after (.single step)
      · rw [session]
        exact owns
      rintro rfl
      refine ⟨node, rest, ?_, named⟩
      change Ev.dispatched c node :: (w.touch c).trace = _
      rw [touch_of_live alive, show w.trace = _ from last]

theorem sim_handleUserNode :
    calmMachine.Sim (fun w => w.session.Received u c x) (handleUserNode x u curtime)
      (fun _ _ => True) := by
  unfold handleUserNode
  split
  · exact sim_handleResponse x curtime ‹_›
  · refine Abstraction.sim_ite (fun _ => (safe_handlePresence x).sim) fun _ => ?_
    refine Abstraction.sim_ite (fun _ => (safe_handleMessage x curtime).sim) fun _ => ?_
    refine Abstraction.sim_ite (fun _ => ?_) fun _ => Abstraction.safe_pure.sim
    split
    · exact Abstraction.safe_pure.sim
    · refine Abstraction.sim_ite (fun _ => ?_) fun _ => Abstraction.safe_pure.sim
      exact (sim_handleRosterSetResponse x).pre fun _ _ pre => pre.1

end Handlers

end JabSimul
