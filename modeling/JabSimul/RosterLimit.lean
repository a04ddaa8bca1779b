import JabSimul.ForeignIds
import JabSimul.PendingRequests

/-!
Additions to the roster of a user that has a limit, with the answers to come.
-/
namespace JabSimul

open Simulation

/-- The part of `ev_add_roster` that finds whom to add. -/
def addRosterJid (arg : Option XmlNode) (u : UserPtr) : M (Option CString) := do
  match (← getUser u).rosterHash with
  | none => return none
  | some hash =>
      let maxRosterCount := jAtoi (xmlnodeGetTagData arg (cstr "max_roster_count")) 1000000
      if (← getUser u).rosterCount ≥ maxRosterCount then return none
      match xmlnodeGetTag arg (cstr "user") with
      | none => return none
      | some userNode =>
          match ← makeUserNameDefinedInXml 2000 (some userNode) u with
          | none => return none
          | some jidFull =>
              if (xhashGet (← get).rosterText hash jidFull).isNone then return some jidFull
              else return none

/-- The rest of it. -/
def askToAdd (u : UserPtr) (curtime : Int) (jidFull : CString) : M Unit := do
  let ret ← userDoAdddelRosterItem u curtime jidFull (some jidFull) false
  if ret = 0 then
    modGlobals fun g => { g with evAddRosterCount := g.evAddRosterCount + 1 }
    let user ← getUser u
    let _ ← userDoPresence u (some (cstr "subscribe")) (some jidFull) user.status user.showText

/-- The contact that an event asks the server to add, while there is room for the request. -/
def World.asksToAdd (w : World) (arg : Option XmlNode) (u : UserPtr) : Option CString :=
  match addRosterJid arg u w with
  | .ok (some jidFull) _ => if w.Takes u then some jidFull else none
  | _ => none

section Event

variable {w w' : World} {u : UserPtr} {arg : Option XmlNode} {curtime : Int}

theorem evAddRoster_eq : evAddRoster arg u curtime w = (do
    match ← addRosterJid arg u with
    | none => return ()
    | some jidFull => askToAdd u curtime jidFull) w := by
  unfold evAddRoster addRosterJid
  simp only [bind_apply, getUser_apply]
  cases (w.users u).rosterHash with
  | none => rfl
  | some hash =>
    simp only [bind_apply, getUser_apply]
    split
    · rfl
    · cases xmlnodeGetTag arg (cstr "user") with
      | none => rfl
      | some userNode =>
        simp only [bind_apply]
        cases makeUserNameDefinedInXml 2000 (some userNode) u w with
        | error e w₁ => rfl
        | ok jid w₁ =>
          cases jid with
          | none => rfl
          | some jidFull =>
            simp only [bind_apply, get_apply]
            split
            · rfl
            · rfl

/-- Whoever is asked for is new, and the roster is below the limit. -/
theorem addRosterJid_spec {jid : Option CString} (found : addRosterJid arg u w = .ok jid w') :
    (∃ env, env.files = w.env.files ∧ w' = w.withEnv env) ∧ ∀ jidFull, jid = some jidFull →
      (w.users u).rosterCount < jAtoi (xmlnodeGetTagData arg (cstr "max_roster_count")) 1000000 ∧
        ∃ h, (w.users u).rosterHash = some h ∧ xhashGet w.rosterText h jidFull = none := by
  unfold addRosterJid at found
  simp only [bind_apply, getUser_apply] at found
  cases hash : (w.users u).rosterHash with
  | none =>
    rw [hash] at found
    cases found
    exact ⟨⟨w.env, rfl, rfl⟩, nofun⟩
  | some h =>
    rw [hash] at found
    simp only [bind_apply, getUser_apply] at found
    split at found
    · cases found
      exact ⟨⟨w.env, rfl, rfl⟩, nofun⟩
    · rename_i below
      cases node : xmlnodeGetTag arg (cstr "user") with
      | none =>
        rw [node] at found
        cases found
        exact ⟨⟨w.env, rfl, rfl⟩, nofun⟩
      | some userNode =>
        rw [node] at found
        obtain ⟨named, w₁, first, found⟩ := ok_of_bind found
        obtain ⟨env, files, rfl⟩ := Draws.makeUserName _ _ _ _ _ _ first
        cases named with
        | none =>
          cases found
          exact ⟨⟨env, files, rfl⟩, nofun⟩
        | some jidFull =>
          simp only [bind_apply, get_apply] at found
          split at found
          · rename_i absent
            cases found
            refine ⟨⟨env, files, rfl⟩, ?_⟩
            rintro _ ⟨⟩
            exact ⟨Int.not_le.mp below, h, rfl, Option.isNone_iff_eq_none.mp absent⟩
          · cases found
            exact ⟨⟨env, files, rfl⟩, nofun⟩

/-- What rosters are made of. -/
def World.rosterView (w : World) :
    (UserPtr → Option RosterHash × Int) × (RosterPtr → RosterCell) × Nat :=
  (fun v => ((w.users v).rosterHash, (w.users v).rosterCount), w.rosterItems, w.nextPtr)

theorem SameTables.of_view (same : w'.rosterView = w.rosterView) : SameTables w w' := by
  have users := congrFun (congrArg Prod.fst same)
  have items : w'.rosterItems = w.rosterItems := congrArg (fun v => v.2.1) same
  have next : w'.nextPtr = w.nextPtr := congrArg (fun v => v.2.2) same
  refine ⟨fun v => congrArg Prod.fst (users v), fun v => congrArg Prod.snd (users v),
    Nat.le_of_eq next.symm, fun p _ => ?_, fun p _ => ?_⟩
  · rw [items]
  · rw [items]

theorem view_updUser {f : UserProperities → UserProperities}
    (hash : (f (w.users u)).rosterHash = (w.users u).rosterHash)
    (count : (f (w.users u)).rosterCount = (w.users u).rosterCount) :
    (w.updUser u f).rosterView = w.rosterView := by
  have users : ∀ v, (((w.updUser u f).users v).rosterHash, ((w.updUser u f).users v).rosterCount) =
      ((w.users v).rosterHash, (w.users v).rosterCount) := by
    intro v
    by_cases own : v = u
    · subst own
      rw [updUser_users_self, hash, count]
    · rw [updUser_users_of_ne _ own]
  exact Prod.ext (funext users) rfl

theorem view_touch (w : World) (c : ConnPtr) : (w.touch c).rosterView = w.rosterView := by
  unfold World.touch
  split <;> rfl

theorem view_rosterRegistered (w : World) (c : ConnPtr) (del : Bool) :
    (w.rosterRegistered u c curtime del).rosterView = w.rosterView := by
  have drawn : (w.drawId u).rosterView = w.rosterView :=
    view_updUser (f := fun user => { user with tmpid := user.tmpid + 1 }) rfl rfl
  rw [← drawn]
  exact view_touch ((w.drawId u).requestNoted c (w.users u).tmpid false) c

theorem texts_rosterRegistered (w : World) (c : ConnPtr) (del : Bool) :
    (w.rosterRegistered u c curtime del).texts = w.texts := by
  have touched := texts_touch ((w.drawId u).requestNoted c (w.users u).tmpid false) c
  rw [World.rosterRegistered, World.storeXmlInfo, texts_emit]
  refine touched.trans ?_
  rw [World.requestNoted, texts_emit, World.drawId, texts_emit]
  rfl

/-- A packet changes no roster, whether it is taken or not. -/
theorem jpolldConnEnqueue_view {text : CString} {ret : Int}
    (ran : jpolldConnEnqueue (w.users u).conn (some text) false w = .ok ret w') :
    w'.rosterView = w.rosterView := by
  cases owner : (w.users u).conn with
  | none =>
    rw [owner] at ran
    cases ran
    rfl
  | some c =>
    rw [owner] at ran
    by_cases full : (w.heap c).conn.full
    · rw [jpolldConnEnqueue_full full] at ran
      cases ran
      exact view_touch (w.updGlobals _) c
    · rw [jpolldConnEnqueue_room (.inl full)] at ran
      cases ran
      exact (view_touch _ c).trans (view_touch (w.updGlobals _) c)

theorem jpolldConnWrite_enqueue (conn : Option ConnPtr) (x : XmlNode) (force : Bool) :
    jpolldConnWrite conn (some x) force = jpolldConnEnqueue conn (some (xmlnode2str x)) force := by
  cases conn with
  | none => rfl
  | some c => rfl

theorem userDoPresence_aside {type jidTo status showText : Option CString} {ret : Int}
    (ran : userDoPresence u type jidTo status showText w = .ok ret w') :
    w'.rosterView = w.rosterView ∧ ∃ later, w'.texts = later ++ w.texts := by
  obtain ⟨user, w₁, got, ran⟩ := ok_of_bind ran
  cases got
  obtain ⟨ret', w₂, wrote, ran⟩ := ok_of_bind ran
  rw [jpolldConnWrite_enqueue] at wrote
  have view := jpolldConnEnqueue_view wrote
  obtain ⟨_, _, again, _, written⟩ := jpolldConnEnqueue_written w u _
  rw [again] at wrote
  cases wrote
  split at ran
  · obtain ⟨_, w₃, counted, ran⟩ := ok_of_bind ran
    cases counted
    cases ran
    exact ⟨(view_updUser rfl rfl).trans view, _, written.texts⟩
  · cases ran
    exact ⟨view, _, written.texts⟩

/-- The request goes out exactly if there is room for it, and no roster changes. -/
theorem askToAdd_spec {jidFull : CString} (ran : askToAdd u curtime jidFull w = .ok ⟨⟩ w') :
    w'.rosterView = w.rosterView ∧ ∃ n, if w.Takes u then ∃ later, w'.texts = later ++
      xmlnode2str (rosterRequest n jidFull (some jidFull) false) :: w.texts
      else w'.texts = w.texts := by
  obtain ⟨ret, w₁, asked, ran⟩ := ok_of_bind ran
  cases owner : (w.users u).conn with
  | none =>
    have drawn : ((w.drawId u).users u).conn = none := (drawId_conn w u).trans owner
    simp [userDoAdddelRosterItem, queryHeader, bind_apply, getUser_apply, makeJcomId_apply,
      noteRequest, emitOnConn, userStoreXmlInfo, derefConn, drawn, modify_apply, throw_apply]
      at asked
  | some c =>
    rw [userDoAdddelRosterItem_apply curtime owner] at asked
    have same : ((w.rosterRegistered u c curtime false).users u).conn = some c := by
      rw [World.rosterRegistered, storeXmlInfo_users, requestNoted_users, drawId_conn, owner]
    have takes : (w.rosterRegistered u c curtime false).Takes u ↔ w.Takes u := by
      have writer := rosterRegistered_writer (w := w) (u := u) (c := c) curtime false
      simp [World.Takes, same, owner, JpolldConn.full, writer]
    rw [← same] at asked
    have view := jpolldConnEnqueue_view asked
    obtain ⟨_, _, again, zero, written⟩ := jpolldConnEnqueue_written
      (w.rosterRegistered u c curtime false) u
      (xmlnode2str (rosterRequest (w.users u).tmpid jidFull (some jidFull) false))
    rw [again] at asked
    cases asked
    have texts := written.texts
    rw [texts_rosterRegistered] at texts
    simp only [takes] at texts zero
    rw [view_rosterRegistered] at view
    refine (fun both => ⟨both.1, (w.users u).tmpid, both.2⟩ : _ ∧ _ → _) ?_
    by_cases done : ret = 0
    · have room := zero.mp done
      rw [if_pos room] at texts ⊢
      rw [if_pos done] at ran
      obtain ⟨_, w₂, counted, ran⟩ := ok_of_bind ran
      cases counted
      obtain ⟨user, w₃, got, ran⟩ := ok_of_bind ran
      cases got
      obtain ⟨ret', w₄, sent, ran⟩ := ok_of_bind ran
      cases ran
      obtain ⟨aside, later, after⟩ := userDoPresence_aside sent
      refine ⟨aside.trans view, later, after.trans ?_⟩
      change later ++ w₁.texts = _
      rw [texts]
      rfl
    · have none : ¬w.Takes u := fun room => done (zero.mpr room)
      rw [if_neg none] at texts ⊢
      rw [if_neg done] at ran
      cases ran
      exact ⟨view, texts⟩

theorem asksToAdd_below {jidFull : CString} (asks : w.asksToAdd arg u = some jidFull) :
    (w.users u).rosterCount < jAtoi (xmlnodeGetTagData arg (cstr "max_roster_count")) 1000000 := by
  unfold World.asksToAdd at asks
  split at asks
  · rename_i jid w₁ found
    exact ((addRosterJid_spec found).2 jid rfl).1
  · cases asks

/-- The event asks for the contact that `asksToAdd` tells, or for nobody. -/
theorem evAddRoster_spec (ran : evAddRoster arg u curtime w = .ok ⟨⟩ w') :
    SameTables w w' ∧ match w.asksToAdd arg u with
      | none => w'.texts = w.texts
      | some jidFull => ∃ n later, w'.texts = later ++
          xmlnode2str (rosterRequest n jidFull (some jidFull) false) :: w.texts := by
  rw [evAddRoster_eq] at ran
  obtain ⟨jid, w₁, found, ran⟩ := ok_of_bind ran
  obtain ⟨⟨env, _, rfl⟩, _⟩ := addRosterJid_spec found
  cases jid with
  | none =>
    cases ran
    have nobody : w.asksToAdd arg u = none := by rw [World.asksToAdd, found]
    rw [nobody]
    exact ⟨.of_view rfl, rfl⟩
  | some jidFull =>
    obtain ⟨view, n, texts⟩ := askToAdd_spec ran
    have asks : w.asksToAdd arg u = if w.Takes u then some jidFull else none := by
      rw [World.asksToAdd, found]
    have takes : (w.withEnv env).Takes u ↔ w.Takes u := Iff.rfl
    refine ⟨.of_view view, ?_⟩
    rw [asks]
    by_cases room : w.Takes u
    · rw [if_pos (takes.mpr room)] at texts
      rw [if_pos room]
      exact ⟨n, texts⟩
    · rw [if_neg fun held => room (takes.mp held)] at texts
      rw [if_neg room]
      exact texts

end Event

/-- Events that add contacts up to the limit `m`, and pushes that confirm the requests which wait for
one, in any order. In a spare run an event below the limit finds that the contacts and those asked
for are together below it, too. -/
inductive AddRun (spare : Prop) (m : Int) (u : UserPtr) : World → List CString → Prop
  | start {w} (tables : w.Tables) (within : (w.users u).rosterCount ≤ m) : AddRun spare m u w []
  | fire {w w' pending} (before : AddRun spare m u w pending) (arg : Option XmlNode)
      (limit : jAtoi (xmlnodeGetTagData arg (cstr "max_roster_count")) 1000000 = m) (curtime : Int)
      (below : spare → (w.users u).rosterCount < m →
        ((w.rosterJids u ++ pending).toFinset.card : Int) < m)
      (ran : evAddRoster arg u curtime w = .ok ⟨⟩ w') :
      AddRun spare m u w' ((w.asksToAdd arg u).toList ++ pending)
  | confirm {w w' pending jid x cur} (before : AddRun spare m u w pending) (awaited : jid ∈ pending)
      (noError : isError x = false)
      (items : tagIter (xmlnodeGetTag (some x) (cstr "query")) (cstr "item") = [cur])
      (named : xmlnodeGetAttrib (some cur) (cstr "jid") = some jid) (adds : isRemoval cur = false)
      (ran : handleRosterSetResponse x u w = .ok ⟨⟩ w') : AddRun spare m u w' (pending.erase jid)
  | other {w w' pending} (before : AddRun spare m u w pending) (same : SameTables w w') :
      AddRun spare m u w' pending

section Limit

variable {spare : Prop} {m : Int} {u : UserPtr} {w w' : World} {pending : List CString}

theorem rosterJids_same (tables : w.Tables) (same : SameTables w w') (jid : CString) :
    jid ∈ w'.rosterJids u ↔ jid ∈ w.rosterJids u := by
  obtain ⟨tables', contents⟩ := same.spec tables
  rw [tables'.mem_jids, tables.mem_jids, ← isSome_rosterContents, ← isSome_rosterContents, contents]

/-- A confirmation adds the contact that it names. -/
theorem rosterJids_confirmed (tables : w.Tables) {xml : Option XmlNode} {cur : XmlNode} {jid : CString}
    (items : tagIter xml (cstr "item") = [cur])
    (named : xmlnodeGetAttrib (some cur) (cstr "jid") = some jid) (adds : isRemoval cur = false)
    (other : CString) : other ∈ (rosterHashFromXml u xml false w).rosterJids u ↔
      other = jid ∨ other ∈ w.rosterJids u := by
  obtain ⟨tables', contents⟩ := rosterHashFromXml_items (u := u) xml tables false
  have item : (rosterItemFromXml (w.users u).privRost.privRostList cur).jid = jid := by
    simp [rosterItemFromXml, rosterItemCreate, named]
  rw [tables'.mem_jids, tables.mem_jids, contents, Function.update_self, items]
  simp only [List.foldl_cons, List.foldl_nil, rosterApply, adds, Bool.false_eq_true, if_false, item]
  by_cases own : other = jid
  · subst own
    simp
  · simp [own]

/-- The contacts and those asked for stay within the limit. -/
structure WithinLimit (m : Int) (u : UserPtr) (w : World) (pending : List CString) : Prop where
  tables : w.Tables
  within : ((w.rosterJids u ++ pending).toFinset.card : Int) ≤ m

theorem WithinLimit.of_subset (before : WithinLimit m u w pending) {pending' : List CString}
    (tables : w'.Tables) (subset : ∀ jid, jid ∈ w'.rosterJids u ∨ jid ∈ pending' →
      jid ∈ w.rosterJids u ∨ jid ∈ pending) : WithinLimit m u w' pending' := by
  refine ⟨tables, Int.le_trans (Int.ofNat_le.mpr (Finset.card_le_card ?_)) before.within⟩
  intro jid mem
  simp only [List.mem_toFinset, List.mem_append] at mem ⊢
  exact subset jid mem

theorem AddRun.withinLimit (run : AddRun True m u w pending) : WithinLimit m u w pending := by
  induction run with
  | @start w tables within =>
    refine ⟨tables, ?_⟩
    rw [List.append_nil, List.toFinset_card_of_nodup (tables.jids_nodup u), World.rosterJids,
      List.length_map, ← tables.counted u]
    exact within
  | @fire w w' pending _ arg limit curtime below ran ih =>
    have same := (evAddRoster_spec ran).1
    have tables := (same.spec ih.tables).1
    cases asks : w.asksToAdd arg u with
    | none =>
      refine ih.of_subset tables fun jid mem => ?_
      rw [rosterJids_same ih.tables same] at mem
      exact mem
    | some jidFull =>
      have under := asksToAdd_below asks
      rw [limit] at under
      have room := below trivial under
      have jids : (w'.rosterJids u ++ ([jidFull] ++ pending)).toFinset =
          insert jidFull (w.rosterJids u ++ pending).toFinset := by
        ext jid
        simp [rosterJids_same ih.tables same]
      refine ⟨tables, ?_⟩
      have grown := Finset.card_insert_le jidFull (w.rosterJids u ++ pending).toFinset
      change (((w'.rosterJids u ++ ([jidFull] ++ pending)).toFinset.card : Nat) : Int) ≤ m
      rw [jids]
      omega
  | @confirm w w' pending jid x cur _ awaited noError items named adds ran ih =>
    have stored : w' = rosterHashFromXml u (xmlnodeGetTag (some x) (cstr "query")) false w := by
      rw [handleRosterSetResponse, noError] at ran
      cases ran
      rfl
    subst stored
    refine ih.of_subset (rosterHashFromXml_tables _ ih.tables false).1 fun other mem => ?_
    rw [rosterJids_confirmed ih.tables items named adds] at mem
    rcases mem with (rfl | there) | waits
    · exact .inr awaited
    · exact .inl there
    · exact .inr (List.mem_of_mem_erase waits)
  | other _ same ih =>
    refine ih.of_subset (same.spec ih.tables).1 fun jid mem => ?_
    rw [rosterJids_same ih.tables same] at mem
    exact mem

/-- In a spare run the number of contacts never exceeds the limit. -/
theorem roster_within_limit (run : AddRun True m u w pending) : (w.users u).rosterCount ≤ m := by
  have within := run.withinLimit
  have part : (w.rosterJids u).toFinset ⊆ (w.rosterJids u ++ pending).toFinset := by
    intro jid mem
    simp only [List.mem_toFinset, List.mem_append] at mem ⊢
    exact .inl mem
  have fewer := Finset.card_le_card part
  have length : (w.rosterJids u).length = (w.rosterEntries u).length := List.length_map _
  rw [List.toFinset_card_of_nodup (within.tables.jids_nodup u), length] at fewer
  have most := within.within
  rw [within.tables.counted u]
  omega

end Limit

section Examples

/-- One contact is the limit. -/
def addOne (jid : String) : Option XmlNode :=
  some (.tag (cstr "event") [] [textNode "max_roster_count" (cstr "1"),
    .tag (cstr "user") [] [textNode "jid" (cstr jid)]])

def rosterPush (jid : String) : XmlNode :=
  .tag (cstr "iq") [(cstr "type", cstr "set")] [.tag (cstr "query") [(cstr "xmlns", cstr "jabber:iq:roster")]
    [.tag (cstr "item") [(cstr "jid", cstr jid), (cstr "subscription", cstr "none")] []]]

/-- The user is logged in and has an empty roster. -/
def emptyRoster : World := (plainWorld [connectEvent]).played rosterScript

theorem emptyRoster_tables : emptyRoster.Tables :=
  (reachable_played (.init (plainWorld_initial _)) _).tables

def onceAsked : World := after (evAddRoster (addOne "ola@host") 0 7) emptyRoster

def twiceAsked : World := after (evAddRoster (addOne "ela@host") 0 8) onceAsked

theorem AddRun.confirm_push {spare : Prop} {m : Int} {u : UserPtr} {w : World}
    {pending : List CString} (before : AddRun spare m u w pending) (jid : String)
    (awaited : cstr jid ∈ pending) :
    AddRun spare m u (after (handleRosterSetResponse (rosterPush jid) u) w)
      (pending.erase (cstr jid)) := by
  have noError : isError (rosterPush jid) = false := rfl
  refine .confirm before awaited noError rfl rfl rfl ?_
  rw [handleRosterSetResponse, noError]
  rfl

def onceConfirmed : World := after (handleRosterSetResponse (rosterPush "ola@host") 0) twiceAsked

def twiceConfirmed : World := after (handleRosterSetResponse (rosterPush "ela@host") 0) onceConfirmed

theorem roster_above_limit : ¬∀ m u w pending, AddRun False m u w pending →
    (w.users u).rosterCount ≤ m := by
  intro claim
  have start : AddRun False 1 0 emptyRoster [] := .start emptyRoster_tables (by decide +kernel)
  have once : AddRun False 1 0 onceAsked ([cstr "ola@host"] ++ []) := by
    have asks : emptyRoster.asksToAdd (addOne "ola@host") 0 = some (cstr "ola@host") := by
      decide +kernel
    have fired := start.fire (addOne "ola@host") (by decide +kernel) 7 False.elim
      (run_of_returned (a := ()) (by decide +kernel))
    rw [asks] at fired
    exact fired
  have twice : AddRun False 1 0 twiceAsked ([cstr "ela@host"] ++ [cstr "ola@host"]) := by
    have asks : onceAsked.asksToAdd (addOne "ela@host") 0 = some (cstr "ela@host") := by
      decide +kernel
    have fired := once.fire (addOne "ela@host") (by decide +kernel) 8 False.elim
      (run_of_returned (a := ()) (by decide +kernel))
    rw [asks] at fired
    exact fired
  have first := twice.confirm_push "ola@host" (by decide)
  have second : AddRun False 1 0 twiceConfirmed [] := first.confirm_push "ela@host" (by decide)
  have most := claim 1 0 twiceConfirmed [] second
  have two : (twiceConfirmed.users 0).rosterCount = 2 := by decide +kernel
  rw [two] at most
  cases most

/-- The first contact is confirmed before the event fires again. -/
def onceFilled : World := after (handleRosterSetResponse (rosterPush "ola@host") 0) onceAsked

def firedAgain : World := after (evAddRoster (addOne "ela@host") 0 8) onceFilled

theorem roster_within_limit_again :
    (firedAgain.users 0).rosterCount ≤ 1 ∧ (onceFilled.users 0).rosterCount = 1 := by
  have start : AddRun True 1 0 emptyRoster [] := .start emptyRoster_tables (by decide +kernel)
  have once : AddRun True 1 0 onceAsked ([cstr "ola@host"] ++ []) := by
    have asks : emptyRoster.asksToAdd (addOne "ola@host") 0 = some (cstr "ola@host") := by
      decide +kernel
    have fired := start.fire (addOne "ola@host") (by decide +kernel) 7
      (fun _ _ => by decide +kernel) (run_of_returned (a := ()) (by decide +kernel))
    rw [asks] at fired
    exact fired
  have filled : AddRun True 1 0 onceFilled _ := once.confirm_push "ola@host" (by decide)
  have full : (onceFilled.users 0).rosterCount = 1 := by decide +kernel
  have again := filled.fire (addOne "ela@host") (by decide +kernel) 8
    (fun _ less => absurd less (by rw [full]; decide)) (run_of_returned (a := ()) (by decide +kernel))
  exact ⟨roster_within_limit again, full⟩

end Examples

end JabSimul
