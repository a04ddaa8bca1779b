import JabSimul.MessageSpec
import JabSimul.ThreadRefinement

/-!
The two checks that `handle_message` makes with the names in the debug information of
a message. Both compare a name with the beginning of another one.
-/
namespace JabSimul

open Simulation

/-- The report was made between the two states. -/
def World.Reported (w w' : World) (u : UserPtr) (r : Report) : Prop :=
  ∃ new, w'.trace = new ++ w.trace ∧ .report u r ∈ new

/-- The part of a jid before its server. -/
def jidUser (jid : CString) : CString := jid.takeWhile (· ≠ '@')

theorem jStrncmp_eq_zero_iff (a : Option CString) (s : CString) :
    jStrncmp a (some s) s.length = 0 ↔ ∃ t, a = some t ∧ s <+: t := by
  cases a with
  | none => simp [jStrncmp]
  | some t =>
    have taken : t.take s.length = s.take s.length ↔ s <+: t := by
      rw [List.take_length, List.prefix_iff_eq_take, eq_comm]
    simp only [jStrncmp, Option.some.injEq, exists_eq_left', ← taken]
    split <;> simp_all

/-- A name is the user of a jid that begins with it exactly if the server follows. -/
theorem jidUser_append {s rest : CString} :
    jidUser (s ++ rest) = s ↔ '@' ∉ s ∧ (rest = [] ∨ rest.head? = some '@') := by
  induction s with
  | nil =>
    cases rest with
    | nil => simp [jidUser]
    | cons c rest =>
      by_cases at_ : c = '@'
      · simp [jidUser, at_]
      · simp [jidUser, at_]
  | cons c s ih =>
    by_cases at_ : c = '@'
    · simp [jidUser, at_]
    · have rest_ : jidUser (c :: s ++ rest) = c :: jidUser (s ++ rest) := by
        simp [jidUser, at_]
      rw [rest_, List.cons.injEq, ih]
      simp [Ne.symm at_]

theorem jidUser_prefix (jid : CString) : jidUser jid <+: jid := List.takeWhile_prefix _

section Reports

variable {w w' : World} {new : List Ev} {x : XmlNode} {u : UserPtr} {curtime : Int}

theorem reported_iff {r : Report} (trace : w'.trace = new ++ w.trace) :
    w.Reported w' u r ↔ .report u r ∈ new := by
  constructor
  · rintro ⟨other, trace', mem⟩
    rw [trace'] at trace
    rwa [List.append_cancel_right trace] at mem
  · exact fun mem => ⟨new, trace, mem⟩

/-- What was noted while a message was answered or timed. -/
def Mute (new : List Ev) : Prop := ∀ u r, .report u r ∉ new

theorem jpolldConnEnqueue_mute (w : World) (c : Option ConnPtr) (text : Option CString) :
    ∃ ret w' new, jpolldConnEnqueue c text false w = .ok ret w' ∧ w'.trace = new ++ w.trace ∧
      Mute new := by
  cases c with
  | none => exact ⟨-1, w, [], rfl, rfl, by simp [Mute]⟩
  | some c =>
    by_cases full : (w.heap c).conn.full
    · refine ⟨-1, _, [.rejected c text], jpolldConnEnqueue_full full _, ?_, by simp [Mute]⟩
      change (w.rejectPacket c text).session.trace = _
      rw [session_rejectPacket]
      rfl
    · refine ⟨0, _, [.accepted c text], jpolldConnEnqueue_room (.inl full) _, ?_, by simp [Mute]⟩
      change (w.acceptPacket c text).session.trace = _
      rw [session_acceptPacket]
      rfl

/-- The names that the debug information should agree with: the sender and the receiver. -/
def expectedNames (x : XmlNode) (one two : CString) : CString × CString :=
  if isError x ^^ isForwarded x then (two, one) else (one, two)

/-- The reports that the names lead to, the last one first. -/
def nameReports (x : XmlNode) (u : UserPtr) (name sender receiver : CString) : List Ev :=
  (if receiver <+: name then [] else [.report u .badReceiver]) ++
    if ∃ jid ∈ xmlnodeGetAttrib (some x) (cstr "from"), sender <+: jid then []
    else [.report u .badSender]

/-- What `handle_message` does after the two checks. -/
def answerOrTime (x : XmlNode) (u : UserPtr) (conn : Option ConnPtr) (curtime : Int)
    (off fwd : Bool) (tm : CString) : M Unit := do
  if !off then
    if !fwd then
      let _ ← jpolldConnWrite conn (some (forwardedCopy x)) false
      modGlobals fun g => { g with forwardedMessagesCount := g.forwardedMessagesCount + 1 }
    else
      modUser u fun user =>
        { user with
          receivedMsgsCount := user.receivedMsgsCount + 1
          receivedMsgsTimeSum := user.receivedMsgsTimeSum + (curtime - scanLi tm) }
      addStatNo .mesg (curtime - scanLi tm)

theorem answerOrTime_mute (w : World) (conn : Option ConnPtr) (off fwd : Bool) (tm : CString) :
    ∃ w' new, answerOrTime x u conn curtime off fwd tm w = .ok ⟨⟩ w' ∧ w'.trace = new ++ w.trace ∧
      Mute new := by
  cases off with
  | true => exact ⟨w, [], rfl, rfl, by simp [Mute]⟩
  | false =>
    cases fwd with
    | true => exact ⟨_, [], rfl, rfl, by simp [Mute]⟩
    | false =>
      have plain : jpolldConnWrite conn (some (forwardedCopy x)) false =
          jpolldConnEnqueue conn (some (xmlnode2str (forwardedCopy x))) false := by
        cases conn with
        | none => rfl
        | some c => rfl
      obtain ⟨ret, w₂, new, ran, trace, mute⟩ :=
        jpolldConnEnqueue_mute w conn (some (xmlnode2str (forwardedCopy x)))
      refine ⟨w₂.updGlobals fun g =>
        { g with forwardedMessagesCount := g.forwardedMessagesCount + 1 }, new, ?_, trace, mute⟩
      change (jpolldConnWrite conn (some (forwardedCopy x)) false >>= fun _ =>
        modGlobals fun g => { g with forwardedMessagesCount := g.forwardedMessagesCount + 1 }) w = _
      rw [bind_apply, plain, ran]
      rfl

/-- The checks are made first, whatever follows. -/
theorem handleDebMessage_reports (w : World) (off : Bool) (tm one two : CString) :
    ∃ w' new, handleDebMessage x u curtime off (isForwarded x) tm one two w = .ok ⟨⟩ w' ∧
      w'.trace = new ++ nameReports x u (w.users u).idUser (expectedNames x one two).1
        (expectedNames x one two).2 ++ w.trace ∧ Mute new := by
  have sender : ∀ s : CString, jStrncmp (xmlnodeGetAttrib (some x) (cstr "from")) (some s) s.length = 0 ↔
      ∃ jid ∈ xmlnodeGetAttrib (some x) (cstr "from"), s <+: jid := fun s => jStrncmp_eq_zero_iff _ s
  have receiver : ∀ s : CString, jStrncmp (some (w.users u).idUser) (some s) s.length = 0 ↔
      s <+: (w.users u).idUser := by
    intro s
    rw [jStrncmp_eq_zero_iff]
    simp
  have reported : ∀ w₁ : World, ∀ reports : List Ev, w₁.trace = reports ++ w.trace → ∃ w' new,
      answerOrTime x u (w.users u).conn curtime off (isForwarded x) tm w₁ = .ok ⟨⟩ w' ∧
        w'.trace = new ++ reports ++ w.trace ∧ Mute new := by
    intro w₁ reports trace
    obtain ⟨w', new, ran, grown, mute⟩ :=
      answerOrTime_mute w₁ (w.users u).conn off (isForwarded x) tm
    rw [trace, ← List.append_assoc] at grown
    exact ⟨w', new, ran, grown, mute⟩
  unfold handleDebMessage
  rw [bind_apply, getUser_apply]
  dsimp only
  rw [show (if isError x ^^ isForwarded x then (two, one) else (one, two)) = expectedNames x one two from rfl]
  generalize expectedNames x one two = names
  obtain ⟨s, r⟩ := names
  dsimp only
  unfold nameReports
  split
  · rename_i differs
    rw [if_neg fun here => differs ((sender s).mpr here), bind_apply, emit_apply]
    dsimp only
    split
    · rename_i differs'
      rw [if_neg fun here => differs' ((receiver r).mpr here), bind_apply, emit_apply]
      exact reported _ [_, _] rfl
    · rename_i agrees
      rw [if_pos ((receiver r).mp (not_not.mp agrees))]
      exact reported _ [_] rfl
  · rename_i agrees
    rw [if_pos ((sender s).mp (not_not.mp agrees))]
    split
    · rename_i differs'
      rw [if_neg fun here => differs' ((receiver r).mpr here), bind_apply, emit_apply]
      exact reported _ [_] rfl
    · rename_i agrees'
      rw [if_pos ((receiver r).mp (not_not.mp agrees'))]
      exact reported _ [] rfl

theorem handleMessage_reports {body tm one two : CString} (w : World) (curtime : Int)
    (found : xmlnodeGetTagData (some x) (cstr "body") = some body)
    (header : msgDebMatches body = some (tm, one, two)) :
    ∃ w' new, handleMessage x u curtime w = .ok ⟨⟩ w' ∧
      w'.trace = new ++ (if isAdmin x then [] else nameReports x u (w.users u).idUser
        (expectedNames x one two).1 (expectedNames x one two).2) ++ w.trace ∧ Mute new := by
  obtain ⟨w₁, offline, rfl, ran⟩ := handleMessage_counted w x u curtime
  rw [ran, found]
  cases isAdmin x with
  | true => exact ⟨_, [], rfl, rfl, by simp [Mute]⟩
  | false =>
    dsimp only
    rw [header]
    exact handleDebMessage_reports _ _ _ _ _

end Reports

/-- No name is taken for another one that begins with it. A message from the administrator
is not looked at, so both names have to be right. -/
def NamesTell (x : XmlNode) (name sender receiver : CString) : Prop :=
  if isAdmin x then name = receiver ∧ sender = cstr "Administrator"
  else (∀ rest, name = receiver ++ rest → rest = []) ∧
    ∀ jid rest, xmlnodeGetAttrib (some x) (cstr "from") = some jid → jid = sender ++ rest →
      '@' ∉ sender ∧ (rest = [] ∨ rest.head? = some '@')

section Exactness

variable {x : XmlNode} {u : UserPtr} {curtime : Int} {name s r : CString}

theorem receiver_exact : (¬r <+: name ↔ name ≠ r) ↔ ∀ rest, name = r ++ rest → rest = [] := by
  constructor
  · rintro same rest rfl
    by_contra more
    exact same.mpr (by simpa using more) (List.prefix_append _ _)
  · intro whole
    constructor
    · rintro differs rfl
      exact differs (List.prefix_refl _)
    · rintro differs ⟨rest, rfl⟩
      rw [whole rest rfl, List.append_nil] at differs
      exact differs rfl

theorem sender_exact {attr : Option CString} :
    ((¬∃ jid ∈ attr, s <+: jid) ↔ attr.map jidUser ≠ some s) ↔
      ∀ jid rest, attr = some jid → jid = s ++ rest → '@' ∉ s ∧ (rest = [] ∨ rest.head? = some '@') := by
  cases attr with
  | none => simp
  | some jid =>
    constructor
    · intro same jid' rest here split
      cases here
      rw [← jidUser_append, ← split]
      by_contra differs
      refine same.mpr ?_ ⟨jid, rfl, split ▸ List.prefix_append _ _⟩
      rwa [Option.map_some, ne_eq, Option.some.injEq]
    · intro whole
      constructor
      · intro differs same
        rw [Option.map_some, Option.some.injEq] at same
        apply differs
        refine ⟨jid, rfl, ?_⟩
        rw [← same]
        exact jidUser_prefix jid
      · intro differs begins
        obtain ⟨jid', here, rest, split⟩ := begins
        cases here
        apply differs
        rw [Option.map_some, Option.some.injEq, ← split]
        exact jidUser_append.mpr (whole _ rest rfl split.symm)

/-- The reports are exactly those that the names deserve if and only if no name is a
beginning of another. -/
theorem misdelivery_reported_iff {body tm one two : CString} (w : World) (x : XmlNode) (u : UserPtr)
    (curtime : Int) (found : xmlnodeGetTagData (some x) (cstr "body") = some body)
    (header : msgDebMatches body = some (tm, one, two)) {s r : CString}
    (names : (s, r) = if isError x ^^ isForwarded x then (two, one) else (one, two)) :
    ∃ w', handleMessage x u curtime w = .ok ⟨⟩ w' ∧
      (((w.Reported w' u .badReceiver ↔ (w.users u).idUser ≠ r) ∧
        (w.Reported w' u .badSender ↔
          (xmlnodeGetAttrib (some x) (cstr "from")).map jidUser ≠ some s)) ↔
        NamesTell x (w.users u).idUser s r) := by
  obtain ⟨w', new, ran, trace, mute⟩ :=
    handleMessage_reports (x := x) (u := u) w curtime found header
  refine ⟨w', ran, ?_⟩
  have expected : expectedNames x one two = (s, r) := names.symm
  rw [expected] at trace
  rw [reported_iff trace, reported_iff trace]
  have silent : ∀ r, .report u r ∉ new := mute u
  simp only [List.mem_append, silent, false_or]
  unfold NamesTell
  by_cases admin : isAdmin x = true
  · have from_ : xmlnodeGetAttrib (some x) (cstr "from") = some (cstr "Administrator") := by
      have same := of_decide_eq_true admin
      obtain ⟨t, from_, admin⟩ := (jStrcmp_eq_zero_iff _ _).mp same
      rw [from_, admin]
    have user : jidUser (cstr "Administrator") = cstr "Administrator" := by decide
    rw [if_pos admin, if_pos admin, from_, Option.map_some, user]
    simp [eq_comm]
  · have receiver : .report u .badReceiver ∈ nameReports x u (w.users u).idUser s r ↔
        ¬r <+: (w.users u).idUser := by
      unfold nameReports
      split_ifs <;> simp_all
    have sender : .report u .badSender ∈ nameReports x u (w.users u).idUser s r ↔
        ¬∃ jid ∈ xmlnodeGetAttrib (some x) (cstr "from"), s <+: jid := by
      unfold nameReports
      split_ifs <;> simp_all
    rw [if_neg admin, if_neg admin, ← receiver_exact, ← sender_exact, receiver, sender]

end Exactness

/-- A message from ola that was meant for `test_1`. -/
def strayMessage : XmlNode :=
  .tag (cstr "message") [(cstr "from", cstr "ola@host")]
    [.tag (cstr "body") [] [.cdata (cstr "[5 ola test_1] hej")]]

/-- User 0 has the name `name`. -/
def namedWorld (name : CString) : World :=
  (plainWorld []).updUser 0 fun user => { user with idUser := name }

theorem misdelivery_reported_iff_basia : ∃ w',
    handleMessage strayMessage 0 8 (namedWorld (cstr "basia")) = .ok ⟨⟩ w' ∧
      (namedWorld (cstr "basia")).Reported w' 0 .badReceiver ∧
      ¬(namedWorld (cstr "basia")).Reported w' 0 .badSender := by
  have header : msgDebMatches (cstr "[5 ola test_1] hej") = some (cstr "5", cstr "ola", cstr "test_1") := by
    decide
  obtain ⟨w', ran, told⟩ := misdelivery_reported_iff (namedWorld (cstr "basia")) strayMessage 0 8
    (s := cstr "ola") (r := cstr "test_1") (by decide) header (by decide)
  have tell : NamesTell strayMessage ((namedWorld (cstr "basia")).users 0).idUser (cstr "ola")
      (cstr "test_1") := by
    rw [NamesTell, if_neg (by decide)]
    constructor
    · intro rest same
      have heads := congrArg List.head? same
      simp [namedWorld, World.updUser, cstr] at heads
    · intro jid rest here split
      have here : jid = cstr "ola@host" := by
        rw [← Option.some.injEq, ← here]
        decide
      rw [here] at split
      have after_ : cstr "@host" = rest :=
        List.append_cancel_left (show cstr "ola" ++ cstr "@host" = cstr "ola" ++ rest from split)
      exact ⟨by decide, .inr (by rw [← after_]; rfl)⟩
  obtain ⟨receiver, sender⟩ := told.mpr tell
  refine ⟨w', ran, receiver.mpr (by decide), fun bad => sender.mp bad (by decide)⟩

/-- `test_12` does not notice that it gets a message for `test_1`. -/
theorem misdelivery_missed : ¬∀ w x u curtime body tm one two s r w',
    xmlnodeGetTagData (some x) (cstr "body") = some body →
    msgDebMatches body = some (tm, one, two) →
    (s, r) = (if isError x ^^ isForwarded x then (two, one) else (one, two)) →
    handleMessage x u curtime w = .ok ⟨⟩ w' →
    (w.Reported w' u .badReceiver ↔ (w.users u).idUser ≠ r) := by
  intro claim
  have found : xmlnodeGetTagData (some strayMessage) (cstr "body") = some (cstr "[5 ola test_1] hej") := by
    decide
  have header : msgDebMatches (cstr "[5 ola test_1] hej") = some (cstr "5", cstr "ola", cstr "test_1") := by
    decide
  obtain ⟨w', new, ran, trace, mute⟩ := handleMessage_reports (x := strayMessage) (u := 0)
    (namedWorld (cstr "test_12")) 8 found header
  have missed := claim _ _ _ _ _ _ _ _ (cstr "ola") (cstr "test_1") w' found header (by decide) ran
  have other : ((namedWorld (cstr "test_12")).users 0).idUser ≠ cstr "test_1" := by decide
  have reported := (reported_iff trace).mp (missed.mpr other)
  have none : (if isAdmin strayMessage then [] else nameReports strayMessage 0
      ((namedWorld (cstr "test_12")).users 0).idUser
      (expectedNames strayMessage (cstr "ola") (cstr "test_1")).1
      (expectedNames strayMessage (cstr "ola") (cstr "test_1")).2) = [] := by
    rfl
  rw [none, List.append_nil] at reported
  exact mute 0 _ reported

end JabSimul
