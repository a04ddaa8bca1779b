import JabSimul.RosterRuns
import JabSimul.PendingRequests

/-!
The `available` flag of the contacts of a user, and the presence stanzas that change it.
-/
namespace JabSimul

def presenceType (x : XmlNode) : Option CString := xmlnodeGetAttrib (some x) (cstr "type")

def presenceStatus (x : XmlNode) : Option CString := xmlnodeGetTagData (some x) (cstr "status")

/-- The stanza is no subscription, and comes from a contact with the item `ri`. -/
structure ContactPresence (w : World) (h : RosterHash) (x : XmlNode) (jid : CString)
    (ri : RosterPtr) : Prop where
  other : presenceType x ≠ some (cstr "subscribe")
  sender : xmlnodeGetAttrib (some x) (cstr "from") = some jid
  contact : xhashGet w.rosterText h jid = some ri

/-- The stanzas are handled one after another. -/
def handlePresences (u : UserPtr) : List XmlNode → M Unit
  | [] => pure ⟨⟩
  | x :: xs => do
      handlePresence x u
      handlePresences u xs

/-- The last stanza from a contact. -/
def lastPresence (jid : CString) (xs : List XmlNode) : Option XmlNode :=
  (xs.filter fun x => xmlnodeGetAttrib (some x) (cstr "from") = some jid).getLast?

/-- The flag says what a stanza says. -/
structure FollowsPresence (available : Bool) (x : XmlNode) : Prop where
  departed : presenceType x = some (cstr "unavailable") ∨
    presenceStatus x = some (cstr "Disconnected") → available = false
  arrived : presenceType x = none → presenceStatus x ≠ some (cstr "Disconnected") → available = true

section Handling

variable {w : World} {u : UserPtr} {h : RosterHash} {x : XmlNode} {jid : CString} {ri : RosterPtr}

/-- What no presence stanza of a contact changes. -/
structure SameRoster (u : UserPtr) (h : RosterHash) (w w' : World) : Prop where
  hash : (w'.users u).rosterHash = some h
  text : w'.rosterText = w.rosterText

/-- Only the status decides. -/
theorem handlePresence_contact (loaded : (w.users u).rosterHash = some h)
    (presence : ContactPresence w h x jid ri) : ∃ w', handlePresence x u w = .ok ⟨⟩ w' ∧
      SameRoster u h w w' ∧ ∀ p, (w'.rosterItems p).item.available =
        if p = ri then !decide (presenceStatus x = some (cstr "Disconnected"))
        else (w.rosterItems p).item.available := by
  have type : ¬jStrcmp (presenceType x) (some (cstr "subscribe")) = 0 := by
    rw [jStrcmp_eq_zero_iff]
    rintro ⟨s, same, subscribe⟩
    exact presence.other (same.trans subscribe.symm)
  have status : jStrcmp (presenceStatus x) (some (cstr "Disconnected")) = 0 ↔
      presenceStatus x = some (cstr "Disconnected") := by
    rw [jStrcmp_eq_zero_iff]
    constructor
    · rintro ⟨s, same, disconnected⟩
      exact same.trans disconnected.symm
    · intro same
      exact ⟨_, same, rfl⟩
  let w₁ := (w.updGlobals fun g =>
    { g with receivedPresencesCount := g.receivedPresencesCount + 1 }).updUser u fun user =>
      { user with receivedPresencesCount := user.receivedPresencesCount + 1 }
  have hash : (w₁.users u).rosterHash = some h := by
    rw [← loaded]
    simp [w₁, World.updUser, World.updGlobals]
  have found : ((w₁.users u).rosterHash.bind fun h =>
      (xmlnodeGetAttrib (some x) (cstr "from")).bind fun jid => xhashGet w₁.rosterText h jid) =
      some ri := by
    rw [hash, presence.sender]
    exact presence.contact
  have ran : handlePresence x u w = .ok ⟨⟩ (w₁.updRosterItem ri fun item => { item with
      available := !decide (jStrcmp (presenceType x) (some (cstr "subscribe")) = 0 ∨
        jStrcmp (presenceStatus x) (some (cstr "Disconnected")) = 0) }) := by
    change (if jStrcmp (presenceType x) (some (cstr "subscribe")) = 0 then _ else _ : M Unit) w₁ = _
    rw [if_neg type]
    simp only [Simulation.bind_apply, Simulation.get_apply, found]
    rfl
  refine ⟨_, ran, ⟨hash, ?_⟩, ?_⟩
  · funext p
    by_cases same : p = ri
    · subst same
      simp [World.rosterText, World.updRosterItem, w₁, World.updUser, World.updGlobals]
    · simp [World.rosterText, World.updRosterItem, w₁, World.updUser, World.updGlobals, same]
  · intro p
    by_cases same : p = ri
    · subst same
      simp [World.updRosterItem, type, status]
    · simp [World.updRosterItem, same, w₁, World.updUser, World.updGlobals]

/-- An item is found by one jid only. -/
theorem World.Tables.jid_unique (tables : w.Tables) (loaded : (w.users u).rosterHash = some h)
    {jid' : CString} (found : xhashGet w.rosterText h jid = some ri)
    (again : xhashGet w.rosterText h jid' = some ri) : jid = jid' := by
  have sound := tables.sound u h loaded
  have text : ∀ {key : CString}, xhashGet w.rosterText h key = some ri → w.rosterText ri = key := by
    intro key got
    obtain ⟨k, mem, text⟩ := sound.get_iff.mp got
    rw [← rosterEntries_of_hash loaded] at mem
    have same : k = ri := tables.keyed u _ mem
    rw [← same]
    exact text
  rw [← text found, ← text again]

theorem lastPresence_cons (sender : xmlnodeGetAttrib (some x) (cstr "from") = some jid)
    (other : CString) (xs : List XmlNode) : lastPresence other (x :: xs) =
      if jid = other then some ((lastPresence other xs).getD x) else lastPresence other xs := by
  by_cases own : jid = other
  · subst own
    simp [lastPresence, sender, List.getLast?_cons]
  · simp [lastPresence, sender, own]

theorem lastPresence_mem {xs : List XmlNode} (last : lastPresence jid xs = some x) :
    x ∈ xs ∧ xmlnodeGetAttrib (some x) (cstr "from") = some jid := by
  have mem := List.mem_filter.mp (List.mem_of_getLast? last)
  exact ⟨mem.1, of_decide_eq_true mem.2⟩

/-- After a run the last stanza of a contact has decided. -/
theorem handlePresences_contacts {xs : List XmlNode} (loaded : (w.users u).rosterHash = some h)
    (apart : ∀ jid jid' p, xhashGet w.rosterText h jid = some p →
      xhashGet w.rosterText h jid' = some p → jid = jid')
    (contacts : ∀ x ∈ xs, ∃ jid ri, ContactPresence w h x jid ri) :
    ∃ w', handlePresences u xs w = .ok ⟨⟩ w' ∧ SameRoster u h w w' ∧
      ∀ jid p, xhashGet w.rosterText h jid = some p → (w'.rosterItems p).item.available =
        (lastPresence jid xs).elim (w.rosterItems p).item.available
          fun x => !decide (presenceStatus x = some (cstr "Disconnected")) := by
  induction xs generalizing w with
  | nil => exact ⟨w, rfl, ⟨loaded, rfl⟩, fun _ _ _ => rfl⟩
  | cons x xs ih =>
    obtain ⟨jid, ri, presence⟩ := contacts x List.mem_cons_self
    obtain ⟨w₁, handled, same, flags⟩ := handlePresence_contact loaded presence
    have later : ∀ x ∈ xs, ∃ jid ri, ContactPresence w₁ h x jid ri := by
      intro y mem
      obtain ⟨jid', ri', other, sender, contact⟩ := contacts y (List.mem_cons_of_mem _ mem)
      exact ⟨jid', ri', other, sender, by rw [same.text]; exact contact⟩
    obtain ⟨w', rest, same', ends⟩ := ih same.hash (by rw [same.text]; exact apart) later
    refine ⟨w', ?_, ⟨same'.hash, same'.text.trans same.text⟩, fun jid' p found => ?_⟩
    · change (handlePresence x u >>= fun _ => handlePresences u xs) w = _
      simp only [bind, EStateM.bind, handled]
      exact rest
    · have last := ends jid' p (by rw [same.text]; exact found)
      rw [last, lastPresence_cons presence.sender]
      by_cases own : jid = jid'
      · subst own
        have item : p = ri := Option.some_inj.mp (found.symm.trans presence.contact)
        rw [if_pos rfl, flags, if_pos item]
        cases lastPresence jid xs with
        | none => rfl
        | some y => rfl
      · have item : p ≠ ri := by
          rintro rfl
          exact own (apart jid jid' p presence.contact found)
        rw [if_neg own, flags, if_neg item]

/-- The flags follow the last stanzas exactly if every contact that left by a stanza of the type
`unavailable` also had the status `Disconnected`. -/
theorem availability {xs : List XmlNode} (reach : Reachable w)
    (loaded : (w.users u).rosterHash = some h)
    (contacts : ∀ x ∈ xs, ∃ jid ri, ContactPresence w h x jid ri) :
    ∃ w', handlePresences u xs w = .ok ⟨⟩ w' ∧
      ((∀ jid ri, xhashGet w.rosterText h jid = some ri → ∀ x, lastPresence jid xs = some x →
        FollowsPresence (w'.rosterItems ri).item.available x) ↔
      ∀ jid x, lastPresence jid xs = some x → presenceType x = some (cstr "unavailable") →
        presenceStatus x = some (cstr "Disconnected")) := by
  have apart : ∀ jid jid' p, xhashGet w.rosterText h jid = some p →
      xhashGet w.rosterText h jid' = some p → jid = jid' :=
    fun _ _ _ found again => reach.tables.jid_unique loaded found again
  obtain ⟨w', ran, _, ends⟩ := handlePresences_contacts loaded apart contacts
  refine ⟨w', ran, fun follows jid x last unavailable => ?_, fun told jid ri found x last => ?_⟩
  · obtain ⟨mem, sender⟩ := lastPresence_mem last
    obtain ⟨jid', ri, presence⟩ := contacts x mem
    have same : jid' = jid := Option.some_inj.mp (presence.sender.symm.trans sender)
    subst same
    have departed := (follows jid' ri presence.contact x last).departed (.inl unavailable)
    rw [ends jid' ri presence.contact, last] at departed
    simpa using departed
  · have flag := ends jid ri found
    rw [last] at flag
    constructor
    · intro gone
      have status : presenceStatus x = some (cstr "Disconnected") := gone.elim (told jid x last) id
      rw [flag]
      simp [status]
    · intro _ other
      rw [flag]
      simp [other]

end Handling

/-- The server knows of one contact. -/
def contactWorld : World :=
  (plainWorld [connectEvent]).played (loginScript ++
    [hears [.node (resultFor (cstr "JCOM_0") []), .node (resultFor (cstr "doroster_0")
      [.tag (cstr "query") [(cstr "xmlns", cstr "jabber:iq:roster")]
        [.tag (cstr "item") [(cstr "jid", cstr "ola@host")] []]])]])

theorem reachable_contactWorld : Reachable contactWorld :=
  reachable_played (.init (plainWorld_initial _)) _

theorem contactWorld_loaded : ∃ h ri, (contactWorld.users 0).rosterHash = some h ∧
    xhashGet contactWorld.rosterText h (cstr "ola@host") = some ri := by
  have found : (((contactWorld.users 0).rosterHash.bind fun h =>
      xhashGet contactWorld.rosterText h (cstr "ola@host"))).isSome = true := by decide +kernel
  obtain ⟨ri, found⟩ := Option.isSome_iff_exists.mp found
  obtain ⟨h, loaded, found⟩ := Option.bind_eq_some_iff.mp found
  exact ⟨h, ri, loaded, found⟩

/-- The contact leaves with a status. -/
def leaves (status : CString) : XmlNode :=
  .tag (cstr "presence") [(cstr "from", cstr "ola@host"), (cstr "type", cstr "unavailable")]
    [textNode "status" status]

theorem leaves_presence {w : World} {h : RosterHash} {ri : RosterPtr} (status : CString)
    (found : xhashGet w.rosterText h (cstr "ola@host") = some ri) :
    ContactPresence w h (leaves status) (cstr "ola@host") ri := by
  constructor
  · change some (cstr "unavailable") ≠ some (cstr "subscribe")
    decide
  · rfl
  · exact found

theorem availability_lost : ¬∀ w, Reachable w → ∀ u h, (w.users u).rosterHash = some h →
    ∀ xs : List XmlNode, (∀ x ∈ xs, ∃ jid ri, ContactPresence w h x jid ri) →
    ∃ w', handlePresences u xs w = .ok ⟨⟩ w' ∧
      ∀ jid ri, xhashGet w.rosterText h jid = some ri → ∀ x, lastPresence jid xs = some x →
        FollowsPresence (w'.rosterItems ri).item.available x := by
  intro claim
  obtain ⟨h, ri, loaded, found⟩ := contactWorld_loaded
  have presence := leaves_presence (cstr "Logged out") found
  obtain ⟨w', ran, follows⟩ := claim _ reachable_contactWorld 0 h loaded [leaves (cstr "Logged out")]
    (by simpa using ⟨_, _, presence⟩)
  obtain ⟨w₁, handled, _, flags⟩ := handlePresence_contact loaded presence
  have same : handlePresences 0 [leaves (cstr "Logged out")] contactWorld = .ok ⟨⟩ w₁ := by
    simp only [handlePresences, bind, EStateM.bind, handled]
    rfl
  rw [same] at ran
  cases ran
  have departed := (follows _ ri found _ rfl).departed (.inl rfl)
  rw [flags, if_pos rfl] at departed
  have status : presenceStatus (leaves (cstr "Logged out")) = some (cstr "Logged out") := by decide
  rw [status] at departed
  revert departed
  decide

theorem availability_disconnected : ∃ h ri w', (contactWorld.users 0).rosterHash = some h ∧
    xhashGet contactWorld.rosterText h (cstr "ola@host") = some ri ∧
    handlePresences 0 [leaves (cstr "Logged out"), leaves (cstr "Disconnected")] contactWorld =
      .ok ⟨⟩ w' ∧ (w'.rosterItems ri).item.available = false := by
  obtain ⟨h, ri, loaded, found⟩ := contactWorld_loaded
  have first := leaves_presence (cstr "Logged out") found
  have second := leaves_presence (cstr "Disconnected") found
  have contacts : ∀ x ∈ [leaves (cstr "Logged out"), leaves (cstr "Disconnected")], ∃ jid ri,
      ContactPresence contactWorld h x jid ri := by
    simpa using ⟨⟨_, _, first⟩, ⟨_, _, second⟩⟩
  obtain ⟨w', ran, follows⟩ := availability reachable_contactWorld loaded contacts
  have status : presenceStatus (leaves (cstr "Disconnected")) = some (cstr "Disconnected") := by
    decide
  have flags := follows.mpr fun jid x last _ => by
    rw [lastPresence_cons first.sender, lastPresence_cons second.sender] at last
    by_cases own : cstr "ola@host" = jid
    · rw [if_pos own, if_pos own] at last
      cases last
      exact status
    · rw [if_neg own, if_neg own] at last
      cases last
  exact ⟨h, ri, w', loaded, found, ran, (flags _ ri found _ rfl).departed (.inl rfl)⟩

end JabSimul
