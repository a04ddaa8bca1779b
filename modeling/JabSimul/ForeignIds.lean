import JabSimul.PendingTable
import JabSimul.RosterRuns
import JabSimul.MessageSpec

/-!
Stanzas that nobody asked for. An identifier in such a stanza makes it pass for an
answer, so the stanza has no effect unless somebody waits for that identifier.
-/
namespace JabSimul

open Simulation Relation KeyedStack

/-- The stanza without its identifier. -/
def withoutId : XmlNode → XmlNode
  | .tag name attribs children => .tag name (attribs.filter fun a => a.1 ≠ cstr "id") children
  | .cdata data => .cdata data

structure IsRosterPush (x : XmlNode) : Prop where
  name : x.name = some (cstr "iq")
  type : xmlnodeGetAttrib (some x) (cstr "type") = some (cstr "set")
  query : ∃ query, xmlnodeGetTag (some x) (cstr "query") = some query ∧
    xmlnodeGetAttrib (some query) (cstr "xmlns") = some (cstr "jabber:iq:roster")

/-- The stanzas that a server sends of its own accord. -/
inductive Unasked (x : XmlNode) : Prop
  | message (name : x.name = some (cstr "message"))
  | presence (name : x.name = some (cstr "presence"))
  | push (push : IsRosterPush x)

/-- The user, its roster with what presences say about the contacts, the counters and
the answered requests are the same in two states. -/
structure SameFor (u : UserPtr) (c : ConnPtr) (v v' : World) : Prop where
  user : { v.users u with rosterHash := none } = { v'.users u with rosterHash := none }
  hashed : (v.users u).rosterHash.isSome = (v'.users u).rosterHash.isSome
  items : v.rosterItemOf u = v'.rosterItemOf u
  counters : v.globals = v'.globals
  answered : v.dispatchedOn c = v'.dispatchedOn c

/-- Two runs come back with the same effect. -/
def SameEffect (u : UserPtr) (c : ConnPtr) (r r' : EStateM.Result Stop World Unit) : Prop :=
  ∃ v v', r = .ok ⟨⟩ v ∧ r' = .ok ⟨⟩ v' ∧ SameFor u c v v'

/-- For every jid the last item of a push is what the roster holds already. An item of a
push is not available, so nothing is said again about a contact that is. -/
def SaysNothingNew (privList : List PrivRosterItem) (contents : CString → Option RosterItem)
    (items : List XmlNode) : Prop :=
  ∀ before cur later, items = before ++ cur :: later →
    (∀ next ∈ later, (rosterItemFromXml privList next).jid ≠ (rosterItemFromXml privList cur).jid) →
    contents (rosterItemFromXml privList cur).jid =
      if isRemoval cur then none else some (rosterItemFromXml privList cur)

section Without

variable {x : XmlNode}

theorem withoutId_name (x : XmlNode) : (withoutId x).name = x.name := by
  cases x with
  | tag name attribs children => rfl
  | cdata data => rfl

theorem withoutId_getTag (x : XmlNode) (name : CString) :
    xmlnodeGetTag (some (withoutId x)) name = xmlnodeGetTag (some x) name := by
  cases x with
  | tag name attribs children => rfl
  | cdata data => rfl

theorem withoutId_attrib {name : CString} (other : name ≠ cstr "id") :
    xmlnodeGetAttrib (some (withoutId x)) name = xmlnodeGetAttrib (some x) name := by
  cases x with
  | tag tag attribs children =>
    change ((attribs.filter _).find? _).map _ = (attribs.find? _).map _
    rw [List.find?_filter]
    congr 2
    funext a
    by_cases same : a.1 = name
    · simp [same, other]
    · simp [same]
  | cdata data => rfl

theorem withoutId_id (x : XmlNode) : xmlnodeGetAttrib (some (withoutId x)) (cstr "id") = none := by
  cases x with
  | tag tag attribs children =>
    change ((attribs.filter _).find? _).map _ = none
    rw [List.find?_filter, Option.map_eq_none_iff, List.find?_eq_none]
    intro a _
    simp
  | cdata data => rfl

end Without

section Contents

variable {privList : List PrivRosterItem} {contents : CString → Option RosterItem}
  {items : List XmlNode}

theorem rosterApply_items_other {jid : CString}
    (others : ∀ cur ∈ items, (rosterItemFromXml privList cur).jid ≠ jid) :
    items.foldl (rosterApply privList) contents jid = contents jid := by
  induction items generalizing contents with
  | nil => rfl
  | cons cur items ih =>
    obtain ⟨other, others⟩ := List.forall_mem_cons.mp others
    rw [List.foldl_cons, ih others, rosterApply]
    exact Function.update_of_ne other.symm _ _

/-- The last item with a jid decides. -/
theorem rosterApply_items_last {cur : XmlNode} {before later : List XmlNode}
    (last : ∀ next ∈ later,
      (rosterItemFromXml privList next).jid ≠ (rosterItemFromXml privList cur).jid) :
    (before ++ cur :: later).foldl (rosterApply privList) contents
        (rosterItemFromXml privList cur).jid =
      if isRemoval cur then none else some (rosterItemFromXml privList cur) := by
  rw [List.foldl_append, List.foldl_cons, rosterApply_items_other last, rosterApply]
  exact Function.update_self _ _ _

theorem last_item {p : XmlNode → Prop} [DecidablePred p] (found : ∃ cur ∈ items, p cur) :
    ∃ before cur later, items = before ++ cur :: later ∧ p cur ∧ ∀ next ∈ later, ¬p next := by
  induction items with
  | nil => simp at found
  | cons first items ih =>
    by_cases more : ∃ cur ∈ items, p cur
    · obtain ⟨before, cur, later, split, here, last⟩ := ih more
      exact ⟨first :: before, cur, later, by rw [split]; rfl, here, last⟩
    · obtain ⟨cur, mem, here⟩ := found
      rcases List.mem_cons.mp mem with rfl | mem
      · exact ⟨[], cur, items, rfl, here, fun next mem hit => more ⟨next, mem, hit⟩⟩
      · exact absurd ⟨cur, mem, here⟩ more

theorem saysNothingNew_iff : SaysNothingNew privList contents items ↔
    items.foldl (rosterApply privList) contents = contents := by
  constructor
  · intro nothing
    funext jid
    by_cases named : ∃ cur ∈ items, (rosterItemFromXml privList cur).jid = jid
    · obtain ⟨before, cur, later, rfl, rfl, last⟩ := last_item named
      rw [rosterApply_items_last last, nothing before cur later rfl last]
    · apply rosterApply_items_other
      intro cur mem same
      exact named ⟨cur, mem, same⟩
  · rintro same before cur later rfl last
    rw [← rosterApply_items_last last, same]

end Contents

section Roster

variable {w w' : World} {u : UserPtr}

/-- The jids in a roster. -/
def World.rosterJids (w : World) (u : UserPtr) : List CString :=
  (w.rosterEntries u).map fun e => w.rosterText e.1

theorem World.Tables.jids_nodup (tables : w.Tables) (u : UserPtr) : (w.rosterJids u).Nodup := by
  cases hash : (w.users u).rosterHash with
  | none =>
    rw [World.rosterJids, World.rosterEntries, hash]
    exact List.nodup_nil
  | some h =>
    rw [World.rosterJids, rosterEntries_of_hash hash]
    exact (tables.sound u h hash).texts_nodup

theorem World.Tables.mem_jids (tables : w.Tables) (jid : CString) :
    jid ∈ w.rosterJids u ↔ (w.rosterItemOf u jid).isSome := by
  cases hash : (w.users u).rosterHash with
  | none => simp [World.rosterJids, World.rosterEntries, World.rosterItemOf, hash]
  | some h =>
    have sound := tables.sound u h hash
    rw [World.rosterJids, rosterEntries_of_hash hash, rosterItemOf_eq_get hash, Option.isSome_map]
    constructor
    · intro mem
      obtain ⟨⟨k, v⟩, there, rfl⟩ := List.mem_map.mp mem
      rw [sound.get_iff.mpr ⟨k, there, rfl⟩]
      rfl
    · intro found
      obtain ⟨v, got⟩ := Option.isSome_iff_exists.mp found
      obtain ⟨k, there, text⟩ := sound.get_iff.mp got
      exact List.mem_map.mpr ⟨(k, v), there, text⟩

/-- Rosters with the same items are of the same size. -/
theorem World.Tables.count_eq (tables : w.Tables) (tables' : w'.Tables)
    (same : w'.rosterItemOf u = w.rosterItemOf u) :
    (w'.users u).rosterCount = (w.users u).rosterCount := by
  have jids : (w'.rosterJids u).Perm (w.rosterJids u) := by
    rw [List.perm_ext_iff_of_nodup (tables'.jids_nodup u) (tables.jids_nodup u)]
    intro jid
    rw [tables'.mem_jids, tables.mem_jids, same]
  have lengths := jids.length_eq
  rw [World.rosterJids, World.rosterJids, List.length_map, List.length_map] at lengths
  rw [tables.counted, tables'.counted, lengths]

theorem lastRosterCount_storeItem (w : World) (cur : XmlNode) :
    ((rosterStoreItem u w cur).users u).lastRosterCount = (w.users u).lastRosterCount := by
  have dropped : ∀ (h : RosterHash) (ri : RosterPtr) (w : World),
      ((rosterDropOld u h ri w).users u).lastRosterCount = (w.users u).lastRosterCount := by
    intro h ri w
    unfold rosterDropOld
    split
    · rfl
    · simp [World.addRosterCount, World.setRosterHash, World.updUser, World.updGlobals,
        rosterItemDelete]
  unfold rosterStoreItem
  split
  · rfl
  · dsimp only
    split
    · exact dropped _ _ _
    · split
      · exact dropped _ _ _
      · simp only [World.addRosterCount, World.setRosterHash, World.updUser, World.updGlobals,
          Function.update_self]
        exact dropped _ _ _

/-- What is stored does not change what is remembered. -/
theorem lastRosterCount_store (xml : Option XmlNode) (delete : Bool) (w : World) :
    ((rosterHashStore u xml delete w).users u).lastRosterCount =
      ((if delete then rosterHashDelete u w else w).users u).lastRosterCount := by
  have items : ∀ (items : List XmlNode) (w : World),
      ((items.foldl (rosterStoreItem u) w).users u).lastRosterCount =
        (w.users u).lastRosterCount := by
    intro items
    induction items with
    | nil => exact fun w => rfl
    | cons cur items ih => exact fun w => (ih _).trans (lastRosterCount_storeItem w cur)
  refine (items _ _).trans ?_
  unfold rosterHashOpen
  dsimp only
  split
  · simp [World.setRosterHash, World.updUser]
  · rfl

theorem lastRosterCount_push (xml : Option XmlNode) (w : World) :
    ((rosterHashFromXml u xml false w).users u).lastRosterCount =
      (w.users u).lastRosterCount := by
  have stored := lastRosterCount_store (u := u) xml false w
  simpa [rosterHashFromXml] using stored

/-- A push has no effect exactly when it says nothing new to a user with a roster. -/
theorem push_same_iff (tables : w.Tables) (c : ConnPtr) (xml : Option XmlNode) :
    SameFor u c w (rosterHashFromXml u xml false w) ↔ (w.users u).rosterHash.isSome ∧
      SaysNothingNew (w.users u).privRost.privRostList (w.rosterItemOf u)
        (tagIter xml (cstr "item")) := by
  obtain ⟨tables', items⟩ := rosterHashFromXml_items xml tables false (u := u)
  have mine := congrFun items u
  simp only [Bool.false_eq_true, if_false, Function.update_self] at mine
  have hashed : ((rosterHashFromXml u xml false w).users u).rosterHash.isSome = true := by
    have stored := rosterStoreItems_isSome u (rosterHashOpen_isSome w u xml false)
      (tagIter xml (cstr "item"))
    simpa [rosterHashFromXml, rosterHashStore] using stored
  rw [saysNothingNew_iff]
  constructor
  · intro same
    exact ⟨same.hashed.trans hashed, by rw [← mine, same.items]⟩
  · rintro ⟨before, nothing⟩
    have items : (rosterHashFromXml u xml false w).rosterItemOf u = w.rosterItemOf u :=
      mine.trans nothing
    have count := tables.count_eq tables' items
    obtain ⟨d, globals, grown⟩ := (Tallied.hashFromXml (w := w) (u := u) xml false).grown
    have last := lastRosterCount_push (u := u) xml w
    have store : rosterHashFromXml u xml false w = rosterHashStore u xml false w := by
      simp [rosterHashFromXml]
    have frame := rosterHashStore_frame w u xml false
    rw [← store] at frame
    obtain ⟨hash', count', last', user⟩ := frame.user
    have zero : d = 0 := by omega
    constructor
    · rw [user] at count last ⊢
      dsimp only at count last
      rw [count, last]
    · rw [before, hashed]
    · exact items.symm
    · rw [globals, zero, Int.add_zero]
    · rw [World.dispatchedOn, World.dispatchedOn, frame.trace]

end Roster

section Presence

variable {w w' : World} {u : UserPtr} {x : XmlNode}

theorem userDoPresence_received {type jidTo status showText : Option CString} {ret : Int}
    (ran : userDoPresence u type jidTo status showText w = .ok ret w') (v : UserPtr) :
    (w'.users v).receivedPresencesCount = (w.users v).receivedPresencesCount := by
  obtain ⟨user, w₁, got, ran⟩ := ok_of_bind ran
  cases got
  obtain ⟨ret', w₂, wrote, ran⟩ := ok_of_bind ran
  have written : ∃ text, jpolldConnWrite (w.users u).conn (some text) false w = .ok ret' w₂ :=
    ⟨_, wrote⟩
  obtain ⟨text, wrote⟩ := written
  have users : w₂.users = w.users := by
    obtain ⟨_, w₃, enqueued, _, written⟩ := jpolldConnEnqueue_written w u (xmlnode2str text)
    have same : jpolldConnWrite (w.users u).conn (some text) false w =
        jpolldConnEnqueue (w.users u).conn (some (xmlnode2str text)) false w := by
      unfold jpolldConnWrite
      cases (w.users u).conn with
      | none => rfl
      | some c => rfl
    rw [same, enqueued] at wrote
    cases wrote
    exact written.users
  split at ran
  · obtain ⟨_, w₃, counted, ran⟩ := ok_of_bind ran
    cases counted
    cases ran
    by_cases own : v = u
    · subst own
      simp [World.updUser, users]
    · simp [World.updUser, own, users]
  · cases ran
    rw [users]

theorem handlePresence_received (ran : handlePresence x u w = .ok ⟨⟩ w') :
    (w'.users u).receivedPresencesCount = (w.users u).receivedPresencesCount + 1 := by
  obtain ⟨_, w₁, counted, ran⟩ := ok_of_bind ran
  cases counted
  obtain ⟨_, w₂, mine, ran⟩ := ok_of_bind ran
  cases mine
  dsimp only at ran
  split at ran
  · obtain ⟨ret, w₃, sent, ran⟩ := ok_of_bind ran
    cases ran
    change (w₃.users u).receivedPresencesCount = _
    rw [userDoPresence_received sent]
    simp [World.updUser, World.updGlobals]
  · obtain ⟨v, w₃, got, ran⟩ := ok_of_bind ran
    generalize ((v.users u).rosterHash.bind fun h => (xmlnodeGetAttrib (some x) (cstr "from")).bind
      fun jid => xhashGet v.rosterText h jid) = ri at ran
    cases got
    cases ri with
    | none =>
      cases ran
      simp [World.updUser, World.updGlobals]
    | some ri =>
      cases ran
      simp [World.updUser, World.updGlobals, World.updRosterItem]

end Presence

/-- The stanza without its identifier has no effect either: it passes for another answer
that is not awaited, or it is a push that says nothing new. -/
def Idle (w : World) (u : UserPtr) (c : ConnPtr) (x : XmlNode) : Prop :=
  (∃ id, stanzaId (withoutId x) = some id ∧ ∀ e ∈ w.pending c, e.id ≠ id) ∨
    (∃ query, xmlnodeGetTag (some x) (cstr "query") = some query ∧ IsRosterPush x ∧
      (w.users u).rosterHash.isSome ∧ SaysNothingNew (w.users u).privRost.privRostList
        (w.rosterItemOf u) (tagIter (some query) (cstr "item")))

section Foreign

variable {w w' : World} {u : UserPtr} {c : ConnPtr} {x : XmlNode} {id : CString} {now : Int}

theorem SameFor.refl (u : UserPtr) (c : ConnPtr) (w : World) : SameFor u c w w := ⟨rfl, rfl, rfl, rfl, rfl⟩

theorem sameEffect_ok (ran : handleUserNode x u now w = .ok ⟨⟩ w')
    {r : EStateM.Result Stop World Unit} {v : World} (stays : r = .ok ⟨⟩ v) :
    SameEffect u c r (handleUserNode x u now w) ↔ SameFor u c v w' := by
  constructor
  · rintro ⟨v₁, v₂, first, second, same⟩
    rw [stays] at first
    rw [ran] at second
    cases first
    cases second
    exact same
  · exact fun same => ⟨v, w', stays, ran, same⟩

/-- An answer that is awaited does not go unnoticed. -/
theorem awaited_noticed (sound : w.session.Sound) (owner : (w.users u).conn = some c)
    (known : stanzaId x = some id) (awaited : ¬∀ e ∈ w.pending c, e.id ≠ id)
    (ran : handleUserNode x u now (w.emit (.stanza c x)) = .ok ⟨⟩ w') :
    w'.dispatchedOn c ≠ w.dispatchedOn c := by
  have live := sound.live_of_conn owner
  have heard : (w.emit (.stanza c x)).session.Sound :=
    (show w.session.Sound from sound).calm (.stanza x live)
  rcases found : take XmlNeedResponse.id id (w.pending c) with ⟨taken, rest⟩
  cases taken with
  | none => exact absurd (absent_of_take (congrArg Prod.fst found)) awaited
  | some e =>
    obtain ⟨es, ops, _⟩ := handleUserNode_takes heard ⟨owner, w.trace, rfl⟩ known ran
    have ops : w'.session.tableOps c =
        es.map .push ++ (.take e :: (w.emit (.stanza c x)).session.tableOps c) := by
      rw [ops, show (w.emit (.stanza c x)).pending c = w.pending c from rfl, found]
      rfl
    have pushes : (es.map Op.push).filterMap Op.taken = [] := by
      rw [List.filterMap_map]
      exact List.filterMap_eq_nil_iff.mpr fun _ _ => rfl
    have grown : w'.dispatchedOn c = e :: w.dispatchedOn c := by
      rw [dispatchedOn_eq, dispatchedOn_eq, ops, List.filterMap_append, pushes]
      rfl
    rw [grown]
    exact List.cons_ne_self e _

/-- What a push does that does not pass for an answer. -/
theorem handleUserNode_push (now : Int) (push : IsRosterPush x) {query : XmlNode}
    (found : xmlnodeGetTag (some x) (cstr "query") = some query) :
    stanzaId (withoutId x) = none ∧ handleUserNode (withoutId x) u now w =
      .ok ⟨⟩ (rosterHashFromXml u (some query) false w) := by
  obtain ⟨_, found', roster⟩ := push.query
  obtain rfl := Option.some.inj (found.symm.trans found')
  have tag : xmlnodeGetTag (some (withoutId x)) (cstr "query") = some query :=
    (withoutId_getTag x _).trans found
  have type : xmlnodeGetAttrib (some (withoutId x)) (cstr "type") = some (cstr "set") :=
    (withoutId_attrib (by decide)).trans push.type
  have noId : stanzaId (withoutId x) = none := by
    rw [stanzaId, withoutId_id, tag]
    dsimp only
    rw [roster, if_neg (by decide)]
  have name : xmlnodeGetName (some (withoutId x)) = some (cstr "iq") :=
    (withoutId_name x).trans push.name
  refine ⟨noId, ?_⟩
  have proper : isError (withoutId x) = false := by
    unfold isError
    rw [type]
    decide
  rw [handleUserNode, noId, name, tag]
  dsimp only
  rw [if_neg (by decide), if_neg (by decide), if_pos (by decide), type, roster,
    if_pos (by decide), handleRosterSetResponse, proper, tag]
  rfl

theorem handleUserNode_message (name : x.name = some (cstr "message"))
    (noId : stanzaId (withoutId x) = none) :
    handleUserNode (withoutId x) u now w = handleMessage (withoutId x) u now w := by
  have name : xmlnodeGetName (some (withoutId x)) = some (cstr "message") :=
    (withoutId_name x).trans name
  rw [handleUserNode, noId, name]
  dsimp only
  rw [if_neg (by decide), if_pos (by decide)]

theorem handleUserNode_presence (name : x.name = some (cstr "presence"))
    (noId : stanzaId (withoutId x) = none) :
    handleUserNode (withoutId x) u now w = handlePresence (withoutId x) u w := by
  have name : xmlnodeGetName (some (withoutId x)) = some (cstr "presence") :=
    (withoutId_name x).trans name
  rw [handleUserNode, noId, name]
  dsimp only
  rw [if_pos (by decide)]

/-- A message that does not pass for an answer is counted. -/
theorem message_noticed {r : EStateM.Result Stop World Unit} (stays : r = .ok ⟨⟩ (w.emit (.stanza c x)))
    (name : x.name = some (cstr "message")) (noId : stanzaId (withoutId x) = none) :
    ¬SameEffect u c r (handleUserNode (withoutId x) u now (w.emit (.stanza c (withoutId x)))) := by
  rintro ⟨v, v', first, second, same⟩
  rw [stays] at first
  cases first
  rw [handleUserNode_message name noId] at second
  obtain ⟨_, handled, spec⟩ := handleMessage_spec (w.emit (.stanza c (withoutId x)))
    (withoutId x) u now
  rw [handled] at second
  cases second
  have counts := spec.messages
  rw [← same.counters] at counts
  simp only [Globals.messages, Prod.mk.injEq] at counts
  have grown : w.globals.receivedMessagesCount = w.globals.receivedMessagesCount + 1 :=
    counts.2.2.1
  bv_omega

theorem presence_noticed {r : EStateM.Result Stop World Unit}
    (stays : r = .ok ⟨⟩ (w.emit (.stanza c x))) (name : x.name = some (cstr "presence"))
    (noId : stanzaId (withoutId x) = none) :
    ¬SameEffect u c r (handleUserNode (withoutId x) u now (w.emit (.stanza c (withoutId x)))) := by
  rintro ⟨v, v', first, second, same⟩
  rw [stays] at first
  cases first
  rw [handleUserNode_presence name noId] at second
  have grown := handlePresence_received second
  have kept := congrArg UserProperities.receivedPresencesCount same.user
  have kept : (w.users u).receivedPresencesCount = (v'.users u).receivedPresencesCount := kept
  rw [← kept] at grown
  have grown : (w.users u).receivedPresencesCount = (w.users u).receivedPresencesCount + 1 :=
    grown
  bv_omega

/-- A stanza that no entry waits for has the same effect as without its identifier
exactly when that has none. -/
theorem foreign_stanza_iff (reach : Reachable w) (owner : (w.users u).conn = some c)
    (unasked : Unasked x) (named : xmlnodeGetAttrib (some x) (cstr "id") = some id)
    (foreign : ∀ e ∈ w.pending c, e.id ≠ id) :
    SameEffect u c (handleUserNode x u now (w.emit (.stanza c x)))
        (handleUserNode (withoutId x) u now (w.emit (.stanza c (withoutId x)))) ↔
      Idle w u c x := by
  have sound := reach.sound
  have live := sound.live_of_conn owner
  have known : stanzaId x = some id := by rw [stanzaId, named]
  have stays : handleUserNode x u now (w.emit (.stanza c x)) = .ok ⟨⟩ (w.emit (.stanza c x)) :=
    handleUserNode_foreign (w := w.emit (.stanza c x)) owner live known foreign now
  rw [stays]
  cases other : stanzaId (withoutId x) with
  | some id' =>
    have noPush : ∀ query, xmlnodeGetTag (some x) (cstr "query") = some query →
        ¬IsRosterPush x := by
      intro query found push
      have noId := (handleUserNode_push (u := u) (w := w) now push found).1
      rw [other] at noId
      cases noId
    by_cases idle : ∀ e ∈ w.pending c, e.id ≠ id'
    · have stays' := handleUserNode_foreign (w := w.emit (.stanza c (withoutId x))) owner live other
        idle now
      exact iff_of_true ⟨_, _, rfl, stays', ⟨rfl, rfl, rfl, rfl, rfl⟩⟩ (.inl ⟨id', other, idle⟩)
    · apply iff_of_false
      · rintro ⟨v, v', first, second, same⟩
        cases first
        exact awaited_noticed sound owner other idle second same.answered.symm
      · rintro (⟨id'', other', idle'⟩ | ⟨query, found, push, _⟩)
        · rw [other] at other'
          cases other'
          exact idle idle'
        · exact noPush query found push
  | none =>
    have noAnswer : ¬∃ id', stanzaId (withoutId x) = some id' ∧ ∀ e ∈ w.pending c, e.id ≠ id' := by
      rintro ⟨id', other', _⟩
      rw [other] at other'
      cases other'
    unfold Idle
    rw [or_iff_right noAnswer]
    cases unasked with
    | message name =>
      have noPush : ¬IsRosterPush x := by
        intro push
        rw [push.name] at name
        exact absurd name (by decide)
      apply iff_of_false (message_noticed rfl name other)
      rintro ⟨query, _, push, _⟩
      exact noPush push
    | presence name =>
      have noPush : ¬IsRosterPush x := by
        intro push
        rw [push.name] at name
        exact absurd name (by decide)
      apply iff_of_false (presence_noticed rfl name other)
      rintro ⟨query, _, push, _⟩
      exact noPush push
    | push push =>
      obtain ⟨query, found, _⟩ := push.query
      have pushed := (handleUserNode_push (u := u) (w := w.emit (.stanza c (withoutId x)))
        now push found).2
      have noted : SameTables w (w.emit (.stanza c (withoutId x))) :=
        .of_same rfl rfl (Nat.le_refl _)
      have tables := (noted.spec reach.tables).1
      rw [sameEffect_ok pushed rfl]
      have same := push_same_iff tables c (some query) (u := u)
      have noted : SameFor u c (w.emit (.stanza c x)) (rosterHashFromXml u (some query) false
            (w.emit (.stanza c (withoutId x)))) ↔
          SameFor u c (w.emit (.stanza c (withoutId x))) (rosterHashFromXml u (some query) false
            (w.emit (.stanza c (withoutId x)))) := by
        constructor
        · exact fun same => ⟨same.user, same.hashed, same.items, same.counters, same.answered⟩
        · exact fun same => ⟨same.user, same.hashed, same.items, same.counters, same.answered⟩
      rw [noted, same]
      constructor
      · exact fun nothing => ⟨query, found, push, nothing⟩
      · rintro ⟨query', found', _, nothing⟩
        obtain rfl := Option.some.inj (found.symm.trans found')
        exact nothing

end Foreign

/-- A push that takes nobody off the roster. -/
def foreignPush : XmlNode :=
  .tag (cstr "iq") [(cstr "type", cstr "set"), (cstr "id", cstr "push1")]
    [.tag (cstr "query") [(cstr "xmlns", cstr "jabber:iq:roster")] []]

theorem foreign_stanza_push :
    SameEffect 0 0 (handleUserNode foreignPush 0 8 (roomyWorld.emit (.stanza 0 foreignPush)))
      (handleUserNode (withoutId foreignPush) 0 8
        (roomyWorld.emit (.stanza 0 (withoutId foreignPush)))) := by
  have reach : Reachable roomyWorld := reachable_played (.init (plainWorld_initial _)) _
  have owner : (roomyWorld.users 0).conn = some 0 := by decide +kernel
  have foreign : (roomyWorld.pending 0).all (fun e => e.id ≠ cstr "push1") = true := by
    decide +kernel
  have hashed : (roomyWorld.users 0).rosterHash.isSome = true := by decide +kernel
  have push : IsRosterPush foreignPush := ⟨rfl, by decide, _, rfl, by decide⟩
  generalize roomyWorld = w at *
  have named : xmlnodeGetAttrib (some foreignPush) (cstr "id") = some (cstr "push1") := by decide
  refine (foreign_stanza_iff reach owner (.push push) named fun e mem => ?_).mpr
    (.inr ⟨_, rfl, push, hashed, ?_⟩)
  · simpa using List.all_eq_true.mp foreign e mem
  · intro before cur later split
    have lengths := congrArg List.length split
    rw [List.length_append, List.length_cons] at lengths
    have none : (tagIter (some (.tag (cstr "query") [(cstr "xmlns", cstr "jabber:iq:roster")] []))
      (cstr "item")).length = 0 := by decide
    omega

/-- A message that a server has given an identifier. -/
def foreignMessage : XmlNode :=
  .tag (cstr "message") [(cstr "from", cstr "ola@host"), (cstr "id", cstr "m1")]
    [textNode "body" (cstr "hi")]

theorem foreign_message_lost : ¬∀ w, Reachable w → ∀ u c x id now, (w.users u).conn = some c →
    Unasked x → xmlnodeGetAttrib (some x) (cstr "id") = some id →
    (∀ e ∈ w.pending c, e.id ≠ id) →
    SameEffect u c (handleUserNode x u now (w.emit (.stanza c x)))
      (handleUserNode (withoutId x) u now (w.emit (.stanza c (withoutId x)))) := by
  intro claim
  have reach : Reachable roomyWorld := reachable_played (.init (plainWorld_initial _)) _
  have owner : (roomyWorld.users 0).conn = some 0 := by decide +kernel
  have all : (roomyWorld.pending 0).all (fun e => e.id ≠ cstr "m1") = true := by decide +kernel
  have foreign : ∀ e ∈ roomyWorld.pending 0, e.id ≠ cstr "m1" := by
    intro e mem
    simpa using List.all_eq_true.mp all e mem
  clear all
  generalize roomyWorld = w at *
  have stays := handleUserNode_foreign (w := w.emit (.stanza 0 foreignMessage)) owner
    (reach.sound.live_of_conn owner) (show stanzaId foreignMessage = some (cstr "m1") by decide)
    foreign 8
  exact message_noticed stays rfl (by decide)
    (claim w reach 0 0 foreignMessage (cstr "m1") 8 owner (.message rfl) (by decide) foreign)

end JabSimul
