import JabSimul.Repeater
import JabSimul.RequestSpec

/-!
What sending and handling a message does to the counters and to the queues, as
functions of the stanza and of the state before.
-/
namespace JabSimul

open Simulation

/-- The text of a packet that was put into a queue. -/
def Ev.acceptedText : Ev → Option CString
  | .accepted _ text => text
  | _ => none

namespace World

/-- The texts that were put into queues, the last one first. -/
def texts (w : World) : List CString := w.trace.filterMap Ev.acceptedText

/-- The user has a connection whose queue has room. -/
def Takes (w : World) (u : UserPtr) : Prop :=
  ∃ c ∈ (w.users u).conn, ¬(w.heap c).conn.full

instance (conn : JpolldConn) : Decidable conn.full := inferInstanceAs (Decidable (_ > _))

instance (w : World) (u : UserPtr) : Decidable (w.Takes u) := by
  unfold Takes
  cases (w.users u).conn with
  | none => exact isFalse (by simp)
  | some c => exact decidable_of_iff (¬(w.heap c).conn.full) (by simp)

end World

section Stanza

variable (x : XmlNode)

def isAdmin : Bool :=
  jStrcmp (xmlnodeGetAttrib (some x) (cstr "from")) (some (cstr "Administrator")) = 0

def isOffline : Bool :=
  jStrcmp (xmlnodeGetTagData (some x) (cstr "x")) (some (cstr "Offline Storage")) = 0

def isForwarded : Bool :=
  jStrcmp (xmlnodeGetAttrib (some x) (cstr "forwarded")) (some (cstr "yes")) = 0

/-- A message of a user with debug information, that was not stored. -/
def IsTimed : Prop :=
  isAdmin x = false ∧ isOffline x = false ∧
    ((xmlnodeGetTagData (some x) (cstr "body")).bind msgDebMatches).isSome

instance : Decidable (IsTimed x) := inferInstanceAs (Decidable (_ ∧ _ ∧ _))

/-- What `handle_message` writes back for `x`. -/
def forwardedCopy : XmlNode :=
  xmlnodePutAttrib (jutilTofrom x) (cstr "forwarded") (some (cstr "yes"))

end Stanza

/-- The counters that messages are counted in. -/
def Globals.messages (g : Globals) : CInt × CInt × CInt × CInt :=
  (g.evSendMessageCount, g.forwardedMessagesCount, g.receivedMessagesCount,
    g.receivedMessagesAdminCount)

/-- A message was handled by the user `u`. -/
structure HandledMessage (x : XmlNode) (u : UserPtr) (w w' : World) : Prop where
  texts : w'.texts = (if (IsTimed x ∧ isForwarded x = false) ∧ w.Takes u then
    [xmlnode2str (forwardedCopy x)] else []) ++ w.texts
  messages : w'.globals.messages = (w.globals.evSendMessageCount,
    w.globals.forwardedMessagesCount + (if IsTimed x ∧ isForwarded x = false then 1 else 0),
    w.globals.receivedMessagesCount + 1,
    w.globals.receivedMessagesAdminCount + (if isAdmin x then 1 else 0))
  samples : ∀ v, (w'.users v).receivedMsgsCount = (w.users v).receivedMsgsCount +
    if (IsTimed x ∧ isForwarded x = true) ∧ v = u then 1 else 0

section Writing

variable {w : World} {u : UserPtr}

/-- What a packet changes besides the queues. -/
structure Written (u : UserPtr) (text : CString) (w w' : World) : Prop where
  texts : w'.texts = (if w.Takes u then [text] else []) ++ w.texts
  messages : w'.globals.messages = w.globals.messages
  users : w'.users = w.users

theorem texts_emit (w : World) (e : Ev) : (w.emit e).texts = e.acceptedText.toList ++ w.texts := by
  unfold World.texts World.emit
  rw [List.filterMap_cons]
  cases e.acceptedText with
  | none => rfl
  | some text => rfl

theorem texts_touch (w : World) (c : ConnPtr) : (w.touch c).texts = w.texts := by
  unfold World.texts
  rw [trace_touch]

theorem texts_acceptPacket (w : World) (c : ConnPtr) (text : CString) :
    (w.acceptPacket c (some text)).texts = text :: w.texts := by
  rw [World.acceptPacket, texts_emit]
  change text :: (World.texts _) = _
  change text :: (((w.updGlobals _).touch c).touch c).texts = _
  rw [texts_touch, texts_touch]
  rfl

theorem texts_rejectPacket (w : World) (c : ConnPtr) (text : Option CString) :
    (w.rejectPacket c text).texts = w.texts := by
  rw [World.rejectPacket, texts_emit]
  change ((w.updGlobals _).touch c).texts = _
  rw [texts_touch]
  rfl

theorem messages_acceptPacket (w : World) (c : ConnPtr) (text : Option CString) :
    (w.acceptPacket c text).globals.messages = w.globals.messages := by
  change ((((w.updGlobals _).touch c).touch c).globals).messages = _
  rw [globals_touch, globals_touch]
  rfl

theorem messages_rejectPacket (w : World) (c : ConnPtr) (text : Option CString) :
    (w.rejectPacket c text).globals.messages = w.globals.messages := by
  change ({ ((w.updGlobals _).touch c).globals with
    packetsCanceled := ((w.updGlobals _).touch c).globals.packetsCanceled + 1 } : Globals).messages = _
  rw [globals_touch]
  rfl

theorem jpolldConnEnqueue_written (w : World) (u : UserPtr) (text : CString) : ∃ ret w',
    jpolldConnEnqueue (w.users u).conn (some text) false w = .ok ret w' ∧
      (ret = 0 ↔ w.Takes u) ∧ Written u text w w' := by
  cases owner : (w.users u).conn with
  | none =>
    have closed : ¬w.Takes u := by simp [World.Takes, owner]
    refine ⟨-1, w, rfl, iff_of_false (by decide) closed, ?_, rfl, rfl⟩
    rw [if_neg closed, List.nil_append]
  | some c =>
    by_cases full : (w.heap c).conn.full
    · have closed : ¬w.Takes u := by simp [World.Takes, owner, full]
      refine ⟨-1, _, jpolldConnEnqueue_full full _, iff_of_false (by decide) closed, ?_,
        messages_rejectPacket _ _ _, ?_⟩
      · rw [if_neg closed, List.nil_append, texts_rejectPacket]
      · change ((w.updGlobals _).touch c).users = w.users
        rw [users_touch]
        rfl
    · have opened : w.Takes u := ⟨c, owner, full⟩
      refine ⟨0, _, jpolldConnEnqueue_room (.inl full) _, iff_of_true rfl opened, ?_,
        messages_acceptPacket _ _ _, ?_⟩
      · rw [if_pos opened, texts_acceptPacket]
        rfl
      · change (((w.updGlobals _).touch c).touch c).users = w.users
        rw [users_touch, users_touch]
        rfl

end Writing

section Handling

variable {x : XmlNode} {u : UserPtr} {curtime : Int}

/-- Nothing but reports was noted. -/
structure Noted (w w' : World) : Prop where
  texts : w'.texts = w.texts
  globals : w'.globals = w.globals
  users : w'.users = w.users
  heap : w'.heap = w.heap

theorem Noted.refl (w : World) : Noted w w := ⟨rfl, rfl, rfl, rfl⟩

theorem Noted.trans {w w₁ w₂ : World} (first : Noted w w₁) (second : Noted w₁ w₂) : Noted w w₂ :=
  ⟨second.texts.trans first.texts, second.globals.trans first.globals,
    second.users.trans first.users, second.heap.trans first.heap⟩

theorem Noted.takes {w w' : World} (noted : Noted w w') : w'.Takes u ↔ w.Takes u := by
  unfold World.Takes
  rw [noted.users, noted.heap]

theorem noted_report (w : World) (u : UserPtr) (r : Report) : Noted w (w.emit (.report u r)) :=
  ⟨texts_emit w _, rfl, rfl, rfl⟩

theorem noted_userDebug (w : World) (u : UserPtr) (r : Report) : Noted w (w.userDebug u r) := by
  unfold World.userDebug
  split
  · exact .refl w
  · exact noted_report w u r

/-- What a message with debug information does to the state. -/
structure TimedMessage (x : XmlNode) (u : UserPtr) (off fwd : Bool) (w w' : World) : Prop where
  texts : w'.texts = (if (off = false ∧ fwd = false) ∧ w.Takes u then
    [xmlnode2str (forwardedCopy x)] else []) ++ w.texts
  messages : w'.globals.messages = (w.globals.evSendMessageCount,
    w.globals.forwardedMessagesCount + (if off = false ∧ fwd = false then 1 else 0),
    w.globals.receivedMessagesCount, w.globals.receivedMessagesAdminCount)
  samples : ∀ v, (w'.users v).receivedMsgsCount = (w.users v).receivedMsgsCount +
    if (off = false ∧ fwd = true) ∧ v = u then 1 else 0

theorem Noted.timed {off : Bool} {w w' : World} (noted : Noted w w') (stored : off = true)
    (fwd : Bool) : TimedMessage x u off fwd w w' := by
  subst stored
  refine ⟨?_, ?_, fun v => ?_⟩
  · simpa using noted.texts
  · simp [noted.globals, Globals.messages]
  · simp [noted.users]

theorem messages_eq_iff (g g' : Globals) : g.messages = g'.messages ↔
    g.evSendMessageCount = g'.evSendMessageCount ∧
      g.forwardedMessagesCount = g'.forwardedMessagesCount ∧
      g.receivedMessagesCount = g'.receivedMessagesCount ∧
      g.receivedMessagesAdminCount = g'.receivedMessagesAdminCount := by
  simp [Globals.messages]

/-- The answer to a message, written back to its sender. -/
theorem answer_spec {w w₁ : World} (noted : Noted w w₁) : ∃ w',
    ((do
      let _ ← jpolldConnWrite (w.users u).conn (some (forwardedCopy x)) false
      modGlobals fun g => { g with forwardedMessagesCount := g.forwardedMessagesCount + 1 } :
        M Unit) w₁ = .ok ⟨⟩ w') ∧ TimedMessage x u false false w w' := by
  have plain : jpolldConnWrite (w.users u).conn (some (forwardedCopy x)) false =
      jpolldConnEnqueue (w₁.users u).conn (some (xmlnode2str (forwardedCopy x))) false := by
    rw [noted.users]
    cases (w.users u).conn with
    | none => rfl
    | some c => rfl
  obtain ⟨ret, w₂, ran, _, written⟩ :=
    jpolldConnEnqueue_written w₁ u (xmlnode2str (forwardedCopy x))
  refine ⟨w₂.updGlobals fun g => { g with forwardedMessagesCount := g.forwardedMessagesCount + 1 },
    ?_, ?_, ?_, fun v => ?_⟩
  · rw [bind_apply, plain, ran]
    rfl
  · change w₂.texts = _
    rw [written.texts, noted.texts]
    simp [noted.takes]
  · have same := (messages_eq_iff _ _).mp written.messages
    rw [noted.globals] at same
    simp [Globals.messages, World.updGlobals, same]
  · change (w₂.users v).receivedMsgsCount = _
    rw [written.users, noted.users]
    simp

/-- The time that the answer took. -/
theorem sample_spec {w w₁ : World} (noted : Noted w w₁) (debTm : Int) : ∃ w',
    ((do
      modUser u fun user =>
        { user with
          receivedMsgsCount := user.receivedMsgsCount + 1
          receivedMsgsTimeSum := user.receivedMsgsTimeSum + debTm }
      addStatNo .mesg debTm : M Unit) w₁ = .ok ⟨⟩ w') ∧ TimedMessage x u false true w w' := by
  refine ⟨_, rfl, ?_, ?_, fun v => ?_⟩
  · change w₁.texts = _
    simpa using noted.texts
  · change w₁.globals.messages = _
    rw [noted.globals]
    simp [Globals.messages]
  · have users : w.users = w₁.users := noted.users.symm
    rw [users]
    by_cases here : v = u
    · subst v
      simp [World.updUser, World.updGlobals]
    · simp [World.updUser, World.updGlobals, here]

theorem handleDebMessage_spec (w : World) (off fwd : Bool) (tm one two : CString) : ∃ w',
    handleDebMessage x u curtime off fwd tm one two w = .ok ⟨⟩ w' ∧
      TimedMessage x u off fwd w w' := by
  have answered : ∀ w₁, Noted w w₁ → ∃ w', (do
      if !off then
        if !fwd then
          let _ ← jpolldConnWrite (w.users u).conn (some (forwardedCopy x)) false
          modGlobals fun g => { g with forwardedMessagesCount := g.forwardedMessagesCount + 1 }
        else
          modUser u fun user =>
            { user with
              receivedMsgsCount := user.receivedMsgsCount + 1
              receivedMsgsTimeSum := user.receivedMsgsTimeSum + (curtime - scanLi tm) }
          addStatNo .mesg (curtime - scanLi tm) : M Unit) w₁ = .ok ⟨⟩ w' ∧
      TimedMessage x u off fwd w w' := by
    intro w₁ noted
    cases off with
    | true => exact ⟨w₁, rfl, noted.timed rfl fwd⟩
    | false =>
      cases fwd with
      | false => exact answer_spec noted
      | true => exact sample_spec noted _
  unfold handleDebMessage
  rw [bind_apply, getUser_apply]
  dsimp only
  generalize (if isError x ^^ fwd then (two, one) else (one, two)) = names
  split
  · rw [bind_apply, emit_apply]
    dsimp only
    split
    · rw [bind_apply, emit_apply]
      exact answered _ ((noted_report w u _).trans (noted_report _ u _))
    · exact answered _ (noted_report w u _)
  · split
    · rw [bind_apply, emit_apply]
      exact answered _ (noted_report w u _)
    · exact answered _ (.refl w)

theorem timed_iff (x : XmlNode) (body : CString) (admin : isAdmin x = false)
    (found : xmlnodeGetTagData (some x) (cstr "body") = some body) :
    IsTimed x ↔ isOffline x = false ∧ (msgDebMatches body).isSome := by
  simp [IsTimed, admin, found]

/-- What `handle_message` does with a message once it is counted. -/
theorem handleMessage_counted (w : World) (x : XmlNode) (u : UserPtr) (curtime : Int) :
    ∃ w₁ offline, w₁ = (w.updGlobals fun g => { g with
      receivedMessagesCount := g.receivedMessagesCount + 1
      receivedMessagesOfflineCount := offline }) ∧
      handleMessage x u curtime w = (match isAdmin x, xmlnodeGetTagData (some x) (cstr "body") with
        | false, some body =>
            match msgDebMatches body with
            | some (tm, one, two) =>
                handleDebMessage x u curtime (isOffline x) (isForwarded x) tm one two
            | none => modify fun w => w.userDebug u .noDebugInfo
        | false, none => pure ()
        | true, _ => modGlobals fun g =>
            { g with receivedMessagesAdminCount := g.receivedMessagesAdminCount + 1 } : M Unit) w₁ := by
  unfold handleMessage
  rw [bind_apply, modGlobals_apply]
  dsimp only
  split
  · rw [bind_apply, modGlobals_apply]
    exact ⟨_, _, rfl, rfl⟩
  · exact ⟨_, w.globals.receivedMessagesOfflineCount, rfl, rfl⟩

/-- `handle_message` always comes back. -/
theorem handleMessage_spec (w : World) (x : XmlNode) (u : UserPtr) (curtime : Int) : ∃ w',
    handleMessage x u curtime w = .ok ⟨⟩ w' ∧ HandledMessage x u w w' := by
  obtain ⟨w₁, offline, rfl, ran⟩ := handleMessage_counted w x u curtime
  rw [ran]
  generalize start : (w.updGlobals fun g => { g with
    receivedMessagesCount := g.receivedMessagesCount + 1
    receivedMessagesOfflineCount := offline }) = w₁
  have texts : w₁.texts = w.texts := by rw [← start]; rfl
  have users : w₁.users = w.users := by rw [← start]; rfl
  have takes : w₁.Takes u ↔ w.Takes u := by rw [← start]; exact Iff.rfl
  have messages : w₁.globals.messages = (w.globals.evSendMessageCount,
      w.globals.forwardedMessagesCount, w.globals.receivedMessagesCount + 1,
      w.globals.receivedMessagesAdminCount) := by rw [← start]; rfl
  clear start
  -- a message that is not timed is only counted
  have untimed : ∀ w', w'.texts = w₁.texts → w'.users = w₁.users → ¬IsTimed x →
      w'.globals.messages = (w.globals.evSendMessageCount, w.globals.forwardedMessagesCount,
        w.globals.receivedMessagesCount + 1,
        w.globals.receivedMessagesAdminCount + (if isAdmin x then 1 else 0)) →
      HandledMessage x u w w' := by
    intro w' same sameUsers plain counts
    refine ⟨?_, ?_, fun v => ?_⟩
    · simp [same, texts, plain]
    · simp [counts, plain]
    · simp [sameUsers, users, plain]
  have parts := messages
  simp only [Globals.messages, Prod.mk.injEq] at parts
  obtain ⟨sent, forwarded, received, admins⟩ := parts
  cases admin : isAdmin x with
  | true =>
    refine ⟨_, modGlobals_apply _ _, untimed _ rfl rfl (fun timed => ?_) ?_⟩
    · cases admin.symm.trans timed.1
    · simp [Globals.messages, World.updGlobals, sent, forwarded, received, admins, admin]
  | false =>
    cases found : xmlnodeGetTagData (some x) (cstr "body") with
    | none =>
      refine ⟨w₁, rfl, untimed _ rfl rfl (fun timed => ?_) ?_⟩
      · simpa [found] using timed.2.2
      · simpa [admin] using messages
    | some body =>
      have timed := timed_iff x body admin found
      dsimp only
      cases info : msgDebMatches body with
      | none =>
        refine ⟨_, rfl, untimed _ (noted_userDebug w₁ u _).texts (noted_userDebug w₁ u _).users
          (fun holds => ?_) ?_⟩
        · simpa [info] using (timed.mp holds).2
        · rw [(noted_userDebug w₁ u _).globals]
          simpa [admin] using messages
      | some groups =>
        obtain ⟨tm, one, two⟩ := groups
        obtain ⟨w', handled, effect⟩ := handleDebMessage_spec (x := x) (u := u)
          w₁ (isOffline x) (isForwarded x) tm one two
        have stored : IsTimed x ↔ isOffline x = false := by simp [timed, info]
        refine ⟨w', handled, ?_, ?_, fun v => ?_⟩
        · rw [effect.texts, texts]
          simp only [stored, takes]
        · rw [effect.messages, sent, forwarded, received, admins]
          simp [stored, admin]
        · rw [effect.samples, users]
          simp only [stored]

end Handling

section Sending

/-- A run that only draws from the environment. -/
def Draws {α : Type} (m : M α) : Prop :=
  ∀ w a w', m w = .ok a w' → ∃ env, env.files = w.env.files ∧ w' = w.withEnv env

namespace Draws

variable {α β : Type}

theorem pure (a : α) : Draws (Pure.pure a : M α) := by
  rintro w _ _ ⟨⟩
  exact ⟨w.env, rfl, rfl⟩

theorem throw (e : Stop) : Draws (throw e : M α) := by
  rintro w _ _ ⟨⟩

theorem bind {m : M α} {f : α → M β} (first : Draws m) (next : ∀ a, Draws (f a)) :
    Draws (m >>= f) := by
  intro w b w' ran
  rw [bind_apply] at ran
  cases step : m w with
  | error e w₁ =>
    rw [step] at ran
    cases ran
  | ok a w₁ =>
    rw [step] at ran
    obtain ⟨env, files, rfl⟩ := first w a w₁ step
    obtain ⟨env', files', rfl⟩ := next a _ b w' ran
    exact ⟨env', files'.trans files, rfl⟩

theorem get : Draws (get : M World) := by
  rintro w _ _ ⟨⟩
  exact ⟨w.env, rfl, rfl⟩

theorem getUser (u : UserPtr) : Draws (getUser u) := by
  rintro w _ _ ⟨⟩
  exact ⟨w.env, rfl, rfl⟩

theorem random : Draws random := by
  rintro w _ _ ⟨⟩
  exact ⟨{ w.env with random := fun n => w.env.random (n + 1) }, rfl, rfl⟩

theorem gettimeofday : Draws gettimeofday := by
  rintro w _ _ ⟨⟩
  exact ⟨{ w.env with clock := fun n => w.env.clock (n + 1) }, rfl, rfl⟩

theorem readUserName (num : Int) : Draws (readUserName num) := by
  unfold JabSimul.readUserName
  split
  · exact get.bind fun _ => pure _
  · exact throw _

theorem rosterNthJid (u : UserPtr) (num : Int) : Draws (rosterNthJid u num) := by
  unfold JabSimul.rosterNthJid
  apply get.bind
  intro w
  split
  · exact throw _
  · exact pure _

theorem makeUserName (maxsize : Nat) (x : Option XmlNode) (u : UserPtr) :
    Draws (makeUserNameDefinedInXml maxsize x u) := by
  unfold makeUserNameDefinedInXml
  apply (getUser u).bind
  intro user
  split
  · apply random.bind
    intro num
    apply (rosterNthJid u _).bind
    intro jid
    split
    · exact throw _
    · exact pure _
  · split
    · dsimp only
      split
      · split
        · exact (throw _).bind fun _ => by
            apply random.bind
            intro num
            apply (readUserName _).bind
            intro name
            split <;> exact pure _
        · apply random.bind
          intro num
          apply (readUserName _).bind
          intro name
          split <;> exact pure _
      · exact pure _
    · exact pure _

theorem debugPrefix (u : UserPtr) (x : Option XmlNode) (jidTo : Option CString) :
    Draws (debugPrefix u x jidTo) := by
  unfold JabSimul.debugPrefix
  split
  · exact pure _
  · apply gettimeofday.bind
    intro curtime
    split
    · exact throw _
    · apply (getUser u).bind
      intro user
      dsimp only
      split
      · exact pure _
      · exact throw _

theorem randomBytes (n : Nat) : Draws (randomBytes n) := by
  induction n with
  | zero => exact pure _
  | succ n ih =>
    unfold JabSimul.randomBytes
    exact random.bind fun _ => ih.bind fun _ => pure _

end Draws

/-- Bytes that a random stream may give. -/
def Streamed (n : Nat) (bytes : CString) : Prop := bytes.length = n ∧ ∀ c ∈ bytes, c.toNat ≠ 0

theorem toNat_ofNat_byte {n : Nat} (byte : n < 256) : (Char.ofNat n).toNat = n := by
  have valid : n.isValidChar := .inl (by omega)
  rw [Char.ofNat, dif_pos valid]
  rfl

theorem randomBytes_streamed (n : Nat) (w : World) :
    ∃ bytes w', randomBytes n w = .ok bytes w' ∧ Streamed n bytes := by
  induction n generalizing w with
  | zero => exact ⟨[], w, rfl, rfl, by simp⟩
  | succ n ih =>
    obtain ⟨bytes, w', ran, long, nonzero⟩ :=
      ih (w.withEnv { w.env with random := fun n => w.env.random (n + 1) })
    refine ⟨Char.ofNat (w.env.random 0 % 255 + 1) :: bytes, w', ?_, ?_, ?_⟩
    · have drawn : random w = .ok (w.env.random 0)
          (w.withEnv { w.env with random := fun n => w.env.random (n + 1) }) := rfl
      simp only [randomBytes, bind_apply, drawn, ran]
      rfl
    · rw [List.length_cons, long]
    · intro c here
      rcases List.mem_cons.mp here with rfl | later
      · rw [toNat_ofNat_byte (by omega)]
        omega
      · exact nonzero c later

/-- What `makeBytes_defined_in_xml` makes of a source behind the header `h`. -/
inductive Made (files : CString → Option CString) (x : Option XmlNode) (h : CString) :
    Option CString → Prop
  | text (text : (xmlnodeGetTag x (cstr "text")).isSome) :
      Made files x h (some (h ++ (xmlnodeGetTagData x (cstr "text")).getD []))
  | file (text : xmlnodeGetTag x (cstr "text") = none)
      (file : (xmlnodeGetTag x (cstr "file")).isSome) :
      Made files x h (((xmlnodeGetTagData x (cstr "file")).bind files).map fun content =>
        h ++ content.takeWhile (·.toNat ≠ 0))
  | stream {len : Int} {bytes : CString} (text : xmlnodeGetTag x (cstr "text") = none)
      (file : xmlnodeGetTag x (cstr "file") = none)
      (stream : (xmlnodeGetTag x (cstr "random_stream")).isSome)
      (read : len = jAtoi (xmlnodeGetAttrib x (cstr "len")) 1)
      (streamed : Streamed ((h.length + len).toNat - 1 -
        (apSnprintf (h.length + len).toNat h).length) bytes) :
      Made files x h (some (apSnprintf (h.length + len).toNat h ++ bytes))

theorem makeBytes_made {u : UserPtr} {x : Option XmlNode} {jidTo r : Option CString}
    {w w' : World} (ran : makeBytesDefinedInXml u x jidTo w = .ok r w') :
    ∃ h w₁, debugPrefix u x jidTo w = .ok h w₁ ∧ Made w.env.files x h r := by
  rw [makeBytesDefinedInXml, bind_apply] at ran
  cases prefixed : debugPrefix u x jidTo w with
  | error e w₁ =>
    rw [prefixed] at ran
    cases ran
  | ok h w₁ =>
    have files : w₁.env.files = w.env.files := by
      obtain ⟨env, files, same⟩ := Draws.debugPrefix u x jidTo w h w₁ prefixed
      rw [same]
      exact files
    refine ⟨h, w₁, rfl, ?_⟩
    rw [prefixed] at ran
    dsimp only at ran
    split at ran
    · rename_i text
      cases ran
      rw [apSnprintf_of_le (by simp)]
      exact .text text
    rename_i text
    have text := Option.not_isSome_iff_eq_none.mp text
    split at ran
    · rename_i file
      cases ran
      rw [← files]
      exact .file text file
    rename_i file
    have file := Option.not_isSome_iff_eq_none.mp file
    split at ran
    · rename_i stream
      split at ran
      · cases ran
      · obtain ⟨bytes, w₂, drawn, streamed⟩ := randomBytes_streamed _ w₁
        rw [bind_apply, drawn] at ran
        cases ran
        exact .stream text file stream rfl streamed
    · cases ran

theorem Draws.makeBytes (u : UserPtr) (x : Option XmlNode) (jidTo : Option CString) :
    Draws (makeBytesDefinedInXml u x jidTo) := by
  unfold makeBytesDefinedInXml
  apply (Draws.debugPrefix u x jidTo).bind
  intro h
  split
  · exact .pure _
  · split
    · exact Draws.get.bind fun _ => .pure _
    · split
      · dsimp only
        split
        · exact (Draws.throw _).bind fun _ => (Draws.randomBytes _).bind fun _ => .pure _
        · exact (Draws.randomBytes _).bind fun _ => .pure _
      · exact .throw _

/-- The text that `user_do_send_message` writes. -/
def messageText (jidFull msg : CString) : CString :=
  cstr "<message to=\"" ++ jidFull ++ cstr "\"><body>" ++ msg ++ cstr "</body></message>"

/-- The source of a message is there. -/
def Sourced (files : CString → Option CString) (x : Option XmlNode) : Prop :=
  (xmlnodeGetTag x (cstr "text")).isSome ∨
    if (xmlnodeGetTag x (cstr "file")).isSome then
      ((xmlnodeGetTagData x (cstr "file")).bind files).isSome
    else (xmlnodeGetTag x (cstr "random_stream")).isSome

theorem Made.isSome_iff {files : CString → Option CString} {x : Option XmlNode} {h : CString}
    {r : Option CString} (made : Made files x h r) : r.isSome ↔ Sourced files x := by
  unfold Sourced
  cases made with
  | text text => simp [text]
  | file text file =>
    rw [Option.isSome_map]
    simp [text, file]
  | stream text file stream => simp [text, file, stream]

/-- What sending a message to `jidFull` does. -/
structure SentMessage (u : UserPtr) (jidFull : CString) (r : Option CString) (w w' : World) :
    Prop where
  texts : w'.texts = (match r with
    | some msg => if w.Takes u then [messageText jidFull msg] else []
    | none => []) ++ w.texts
  messages : w'.globals.messages = (w.globals.evSendMessageCount +
      (if r.isSome → w.Takes u then 1 else 0),
    w.globals.forwardedMessagesCount, w.globals.receivedMessagesCount,
    w.globals.receivedMessagesAdminCount)

theorem userDoSendMessage_spec (u : UserPtr) (jidFull : CString) (r : Option CString) (w : World) :
    ∃ ret w', userDoSendMessage u jidFull r w = .ok ret w' ∧ (ret = 0 ↔ (r.isSome → w.Takes u)) ∧
      w'.texts = (match r with
        | some msg => if w.Takes u then [messageText jidFull msg] else []
        | none => []) ++ w.texts ∧ w'.globals.messages = w.globals.messages := by
  cases r with
  | none => exact ⟨0, w, rfl, by simp, by simp, rfl⟩
  | some msg =>
    have same : ((w.drawId u).users u).conn = (w.users u).conn := by
      simp [World.drawId, World.updUser, World.emit]
    have takes : (w.drawId u).Takes u ↔ w.Takes u := by
      unfold World.Takes
      rw [same]
      exact Iff.rfl
    have texts : (w.drawId u).texts = w.texts := texts_emit _ _
    obtain ⟨ret, w', ran, zero, written⟩ :=
      jpolldConnEnqueue_written (w.drawId u) u (messageText jidFull msg)
    refine ⟨ret, w', ?_, ?_, ?_, written.messages⟩
    · simp only [userDoSendMessage, bind_apply, makeJcomId_apply, getUser_apply]
      exact ran
    · simp [zero, takes]
    · rw [written.texts, texts]
      simp only [takes]

/-- Nobody to send to, or a message to somebody. -/
theorem evSendMessage_spec {arg : Option XmlNode} {u : UserPtr} {w w' : World}
    (ran : evSendMessage arg u w = .ok ⟨⟩ w') :
    (w'.texts = w.texts ∧ w'.globals.messages = w.globals.messages) ∨
      ∃ userNode jidFull w₁ h r, xmlnodeGetTag arg (cstr "user") = some userNode ∧
        makeUserNameDefinedInXml 2000 (some userNode) u w = .ok (some jidFull) w₁ ∧
          Made w.env.files arg h r ∧ SentMessage u jidFull r w w' := by
  unfold evSendMessage at ran
  cases node : xmlnodeGetTag arg (cstr "user") with
  | none =>
    rw [node] at ran
    cases ran
    exact .inl ⟨rfl, rfl⟩
  | some userNode =>
    rw [node] at ran
    obtain ⟨named, w₁, first, ran⟩ := ok_of_bind ran
    obtain ⟨env, files, rfl⟩ := Draws.makeUserName _ _ _ _ _ _ first
    cases named with
    | none =>
      cases ran
      exact .inl ⟨rfl, rfl⟩
    | some jidFull =>
      obtain ⟨r, w₂, second, ran⟩ := ok_of_bind ran
      obtain ⟨env', files', rfl⟩ := Draws.makeBytes _ _ _ _ _ _ second
      obtain ⟨h, _, _, made⟩ := makeBytes_made second
      refine .inr ⟨userNode, jidFull, _, h, r, rfl, first, ?_, ?_⟩
      · rw [← files]
        exact made
      · obtain ⟨ret, w₃, sent, zero, texts, messages⟩ := userDoSendMessage_spec u jidFull r
          ((w.withEnv env).withEnv env')
        rw [bind_apply, sent] at ran
        have takes : ((w.withEnv env).withEnv env').Takes u ↔ w.Takes u := Iff.rfl
        simp only [takes] at zero texts
        have same := (messages_eq_iff _ _).mp messages
        dsimp only at ran
        by_cases done : ret = 0
        · rw [if_pos done] at ran
          cases ran
          refine ⟨texts, ?_⟩
          rw [if_pos (zero.mp done)]
          simp [Globals.messages, World.updGlobals, same, World.withEnv]
        · rw [if_neg done] at ran
          cases ran
          refine ⟨texts, ?_⟩
          rw [if_neg fun takes => done (zero.mpr takes)]
          simp [Globals.messages, same, World.withEnv]

end Sending

end JabSimul
