import JabSimul.QueueMoves

/-!
The buffers that wait in the write queues. A partial write leaves a rest of its
buffer, so a buffer without bytes can only be queued by an event that sends raw
bytes and has a source that yields none.
-/
namespace JabSimul

open Simulation

/-- A text with at least one byte. -/
def HasByte (text : Option CString) : Prop := ∃ ch rest, text = some (ch :: rest)

namespace Session

variable {s t : Session} {c d : ConnPtr} {b : JpolldWriteBuf}

/-- Where a buffer of the queue of `d` comes from. -/
inductive BufferFrom (s t : Session) (d : ConnPtr) (b : JpolldWriteBuf) : Prop
  | old (live : s.live d) (waited : b ∈ (s.conn d).writer)
  | fresh (heard : .accepted d b.cbuffer ∈ t.trace)
  | rest {text k} (live : s.live d) (waited : ⟨some text⟩ ∈ (s.conn d).writer)
      (short : k < text.length) (left : b = ⟨some (text.drop k)⟩)

theorem BufferFrom.of_accept (text : Option CString) (live : s.live d)
    (writer : (t.conn d).writer = if d = c then (s.conn d).writer ++ [⟨text⟩] else (s.conn d).writer)
    (heard : .accepted c text ∈ t.trace) (waits : b ∈ (t.conn d).writer) : BufferFrom s t d b := by
  rw [writer] at waits
  split at waits
  · rename_i here
    subst d
    rcases List.mem_append.mp waits with waited | new
    · exact .old live waited
    · rw [List.mem_singleton] at new
      subst b
      exact .fresh heard
  · exact .old live waits

theorem Calm.buffers (step : Calm s t) (live : s.live d) (waits : b ∈ (t.conn d).writer) :
    BufferFrom s t d b := by
  have kept : (t.conn d).writer = (s.conn d).writer → BufferFrom s t d b := fun same =>
    .old live (same ▸ waits)
  cases step with
  | note e _ => exact kept rfl
  | draw u => exact kept rfl
  | refill _ => exact kept rfl
  | @write c text _ =>
    refine .of_accept (c := c) text live ?_ List.mem_cons_self waits
    rw [conn_accept]
    split <;> rfl
  | @ask c text es _ _ _ _ =>
    refine .of_accept (c := c) (some text) live ?_ (by rw [trace_ask]; simp) waits
    rw [conn_ask]
    split <;> rfl
  | @advance c text next k _ queue short =>
    rw [conn_advance] at waits
    split at waits
    · rename_i here
      subst d
      rcases List.mem_cons.mp waits with first | later
      · exact .rest live (by rw [queue]; exact List.mem_cons_self) short first
      · exact .old live (by rw [queue]; exact List.mem_cons_of_mem _ later)
    · exact .old live waits
  | @pop c text next _ queue _ =>
    rw [conn_pop_of] at waits
    split at waits
    · rename_i here
      subst d
      exact .old live (by rw [queue]; exact List.mem_cons_of_mem _ waits)
    · exact .old live waits
  | connected c =>
    apply kept
    rw [conn_updConn]
    split <;> rfl
  | finish _ =>
    apply kept
    rw [conn_finish]
    split <;> rfl
  | root _ => exact kept rfl
  | stanza x _ => exact kept rfl
  | dispatch _ _ _ _ =>
    apply kept
    rw [conn_dispatch]
    split <;> rfl
  | @login u c text time _ _ _ _ =>
    refine .of_accept (c := c) (some text) live ?_ (by rw [trace_login]; simp) waits
    rw [conn_login]
    split <;> rfl
  | loggedIn _ _ _ _ => exact kept rfl
  | fetch _ => exact kept rfl
  | @rosterAsk u c text time callback _ _ _ _ =>
    refine .of_accept (c := c) (some text) live ?_ List.mem_cons_self waits
    rw [conn_accept, conn_rosterRegister]
    split <;> rfl
  | rosterCancel _ _ _ =>
    apply kept
    rw [conn_emit, conn_rosterRegister]
    split <;> rfl
  | roster _ _ => exact kept rfl
  | privLoaded _ => exact kept rfl
  | privDeleted u => exact kept rfl

theorem Act.buffers (step : Act s t) (alive : t.live d) (waits : b ∈ (t.conn d).writer) :
    BufferFrom s t d b := by
  cases step with
  | calm step =>
    have live : s.live d := by
      rcases step.linked with linked | ⟨_, rfl⟩
      · exact (linked.live d).mp alive
      · exact alive
    exact step.buffers live waits
  | connect sstate fd time ssl _ _ =>
    rw [conn_connect] at waits
    split at waits
    · simp at waits
    · rename_i other
      exact .old (((live_connect ..).mp alive).resolve_left other) waits
  | @kill c site _ _ =>
    rw [conn_kill] at waits
    exact .old ((live_kill s c site d).mp alive).2 waits
  | @drained c text _ _ _ =>
    obtain ⟨other, popped⟩ := (live_kill (s.pop c text []) c .writeDrained d).mp alive
    rw [conn_kill, conn_pop_of, if_neg other] at waits
    exact .old ((live_pop s c d text []).mp popped) waits
  | @userKill u c site _ _ =>
    obtain ⟨other, live⟩ := (live_userKill s c d u site).mp alive
    rw [conn_userKill, if_neg other] at waits
    exact .old live waits
  | userReset _ => exact .old alive waits

/-- Every buffer of every write queue has a byte left. -/
def Sendable (s : Session) : Prop :=
  ∀ c, s.live c → ∀ b ∈ (s.conn c).writer, HasByte b.cbuffer

theorem Sendable.step (sendable : s.Sendable) (step : Act s t)
    (texts : ∀ c text, .accepted c text ∈ t.trace → HasByte text) : t.Sendable := by
  intro d alive b waits
  cases step.buffers alive waits with
  | old live waited => exact sendable d live b waited
  | fresh heard => exact texts d _ heard
  | @rest text k live waited short left =>
    subst b
    cases rest : text.drop k with
    | nil => exact absurd (List.drop_eq_nil_iff.mp rest) (by omega)
    | cons ch more => exact ⟨ch, more, rfl⟩

end Session

/-- Every text that was accepted had a byte. -/
def TextsHaveBytes (trace : List Ev) : Prop := ∀ c text, .accepted c text ∈ trace → HasByte text

theorem Reachable.sendable {w : World} (reach : Reachable w) (texts : TextsHaveBytes w.trace) :
    w.session.Sendable := by
  refine reach.induct (K := fun s => TextsHaveBytes s.trace → s.Sendable) ?_ ?_ texts
  · exact fun s initial _ c alive => absurd alive (initial.dead c)
  · intro s t _ step sendable texts
    exact (sendable fun c text heard => texts c text (step.trace_suffix.subset heard)).step step texts

section Sources

/-- The source of a raw bytes event yields a byte, or the program does not come
back from asking it. -/
def YieldsBytes (files : CString → Option CString) (arg : Option XmlNode) : Prop :=
  if (xmlnodeGetTag arg (cstr "prepend_with_debug_info")).isSome then True
  else if (xmlnodeGetTag arg (cstr "text")).isSome then
    HasByte (xmlnodeGetTagData arg (cstr "text"))
  else if (xmlnodeGetTag arg (cstr "file")).isSome then
    HasByte (((xmlnodeGetTagData arg (cstr "file")).bind files).map
      fun content => content.takeWhile (·.toNat ≠ 0))
  else if (xmlnodeGetTag arg (cstr "random_stream")).isSome then
    2 ≤ jAtoi (xmlnodeGetAttrib arg (cstr "len")) 1
  else True

theorem randomBytes_length (n : Nat) {w w' : World} {bytes : CString}
    (ran : randomBytes n w = .ok bytes w') : bytes.length = n := by
  induction n generalizing w bytes with
  | zero =>
    cases ran
    rfl
  | succ n ih =>
    obtain ⟨env, drawn⟩ : ∃ env, random w = .ok (w.env.random 0) (w.withEnv env) := ⟨_, rfl⟩
    rw [randomBytes, bind_apply, drawn] at ran
    dsimp only at ran
    rw [bind_apply] at ran
    cases rest : randomBytes n (w.withEnv env) with
    | ok more v =>
      rw [rest] at ran
      cases ran
      rw [List.length_cons, ih rest]
    | error e v =>
      rw [rest] at ran
      cases ran

theorem hasByte_iff {text : CString} : HasByte (some text) ↔ 0 < text.length := by
  cases text with
  | nil => simp [HasByte]
  | cons ch rest => simp [HasByte]

theorem apSnprintf_own (text : CString) : apSnprintf (text.length + 1) text = text :=
  apSnprintf_of_le (by omega)

theorem randomStream_iff {len : Int} {w w' : World} {bytes : Option CString}
    (ran : (do
      if len + pfreeSize < 0 then throw .diverged
      let text := apSnprintf len.toNat []
      return some (text ++ (← randomBytes (len.toNat - 1 - text.length))) : M (Option CString)) w =
        .ok bytes w') : HasByte bytes ↔ 2 ≤ len := by
  have empty : apSnprintf len.toNat [] = [] := by simp [apSnprintf]
  simp only [empty, List.length_nil, Nat.sub_zero, List.nil_append] at ran
  split at ran
  · cases ran
  · rw [bind_apply] at ran
    cases drawn : randomBytes (len.toNat - 1) w with
    | ok text v =>
      rw [drawn] at ran
      cases ran
      rw [hasByte_iff, randomBytes_length _ drawn]
      omega
    | error e v =>
      rw [drawn] at ran
      cases ran

/-- The source alone decides whether an event sends an empty packet. -/
theorem rawBytes_iff {files : CString → Option CString} {u : UserPtr} {arg : Option XmlNode}
    {bytes : Option CString} (made : RawBytes files u arg bytes) :
    HasByte bytes ↔ YieldsBytes files arg := by
  obtain ⟨w, w', rfl, ran⟩ := made
  unfold YieldsBytes
  rw [makeBytesDefinedInXml, bind_apply, debugPrefix] at ran
  cases debug : xmlnodeGetTag arg (cstr "prepend_with_debug_info") with
  | some _ =>
    simp only [debug, bind_apply, gettimeofday] at ran
    cases ran
  | none =>
    simp only [debug, pure_apply, List.length_nil, List.nil_append, Nat.zero_add] at ran
    simp only [Option.isSome_none, Bool.false_eq_true, if_false]
    split at ran
    · rename_i text
      rw [if_pos text]
      cases ran
      rw [apSnprintf_own]
      cases xmlnodeGetTagData arg (cstr "text") with
      | none => simp [HasByte]
      | some text => rfl
    · rename_i text
      rw [if_neg text]
      split at ran
      · rename_i file
        rw [if_pos file]
        cases ran
        rfl
      · rename_i file
        rw [if_neg file]
        split at ran
        · rename_i random
          rw [if_pos random]
          rw [Nat.cast_zero, Int.zero_add] at ran
          exact randomStream_iff ran
        · cases ran

end Sources

section Rounds

variable (c : ConnPtr) (w : World)

/-- The states in which `_jpolld_conn_write` takes the next packet of `c`, with the
number of packets that are gone. -/
inductive WriteRound : Nat → World → Prop
  | first : WriteRound 0 w
  | next {n v text next} (before : WriteRound n v)
      (queue : (v.heap c).conn.writer = ⟨some text⟩ :: next) (more : next ≠ [])
      (whole : 0 < (v.env.writes 0).len ∧ (text.length : Int) ≤ (v.env.writes 0).len) :
      WriteRound (n + 1) (v.popPacket c text next)

variable {c w}

theorem WriteRound.loop {n : Nat} {v : World} (round : WriteRound c w n v) (fuel : Nat) :
    writeLoop (fuel + n) c w = writeLoop fuel c v := by
  induction round generalizing fuel with
  | first => rfl
  | next _ queue more whole ih =>
    rw [Nat.add_comm _ 1, ← Nat.add_assoc, ih]
    exact writeLoop_more fuel queue whole.1 whole.2 (.inl more)

theorem WriteRound.sendable {n : Nat} {v : World} (round : WriteRound c w n v)
    (waiting : ∀ b ∈ (w.heap c).conn.writer, HasByte b.cbuffer) :
    ∀ b ∈ (v.heap c).conn.writer, HasByte b.cbuffer := by
  induction round with
  | first => exact waiting
  | @next n v text next _ queue _ _ ih =>
    intro b waits
    have popped : ((v.popPacket c text next).heap c).conn.writer = next := by
      change ((v.popPacket c text next).session.conn c).writer = next
      rw [session_popPacket, Session.conn_pop]
    rw [popped] at waits
    exact ih b (by rw [queue]; exact List.mem_cons_of_mem _ waits)

end Rounds

/-- The raw bytes events that a step makes due have a source that yields a byte. -/
def RawBytesYield (w : World) (i : Input) : Prop :=
  ∀ u arg, w.SendsRaw i u arg → YieldsBytes w.env.files arg

theorem ReachableWhile.textsHaveBytes {w : World} (reach : ReachableWhile RawBytesYield w) :
    TextsHaveBytes w.trace := by
  refine reach.invariant (K := fun w => TextsHaveBytes w.trace) ?_ ?_ ?_
  · intro w initial c text heard
    rw [initial.trace] at heard
    cases heard
  · exact fun _ holds => holds
  · intro w i yields k v v' _ files mine move holds d text heard
    rcases move.admits heard with before | admits
    · exact holds d text before
    · cases admits with
      | opens opens =>
        obtain ⟨ch, rest, rfl, _⟩ := opens
        exact ⟨'<', _, rfl⟩
      | logout _ _ => exact ⟨'<', _, rfl⟩
      | raw made =>
        rw [files] at made
        exact (rawBytes_iff made).mpr (yields _ _ (mine.1 _ _ rfl))

/-- While every raw bytes event that comes due yields a byte, every waiting buffer
has one, also in the middle of the loop that writes them. -/
theorem queued_packets_sendable {w : World} (reach : ReachableWhile RawBytesYield w)
    (c : ConnPtr) (live : (w.heap c).live = true) :
    (∀ b ∈ (w.heap c).conn.writer, HasByte b.cbuffer) ∧
      ∀ env n v, WriteRound c (w.withEnv env) n v →
        (∀ fuel, writeLoop (fuel + n) c (w.withEnv env) = writeLoop fuel c v) ∧
        ∀ b ∈ (v.heap c).conn.writer.head?, HasByte b.cbuffer := by
  have sendable := reach.reachable.sendable reach.textsHaveBytes c live
  refine ⟨sendable, fun env n v round => ⟨round.loop, fun b first => ?_⟩⟩
  exact round.sendable sendable b (List.mem_of_mem_head? first)

/-- An event that sends the bytes of the source `arg`. -/
def rawBytesEvent (arg : XmlNode) : EventRepeater :=
  promptEvent .evSendRawBytes (-1) none (some arg)

def textSource : XmlNode :=
  .tag (cstr "event") [] [.tag (cstr "text") [] [.cdata (cstr "abc")]]

def fileSource : XmlNode :=
  .tag (cstr "event") [] [.tag (cstr "file") [] [.cdata (cstr "missing")]]

/-- A user connects and sends the bytes of `arg`. -/
def rawBytesWorld (arg : XmlNode) : World :=
  (plainWorld [connectEvent, rawBytesEvent arg]).played [(.job 0 5, plainEnv)]

theorem queued_packets_sendable_text : ((rawBytesWorld textSource).heap 0).live = true ∧
    ∀ b ∈ ((rawBytesWorld textSource).heap 0).conn.writer, HasByte b.cbuffer := by
  have yields : RawBytesYield ((plainWorld [connectEvent, rawBytesEvent textSource]).withEnv
      plainEnv) (.job 0 5) := by
    rintro u arg ⟨now, _, er, mine, ⟨handler, _⟩, rfl⟩
    have mine : er = connectEvent ∨ er = rawBytesEvent textSource := by
      simpa [plainWorld, plainUser, World.withEnv] using mine
    rcases mine with rfl | rfl
    · cases handler
    · exact ⟨'a', cstr "bc", rfl⟩
  have reach := reachableWhile_played (.init (plainWorld_initial _)) [(.job 0 5, plainEnv)]
    ⟨yields, by split <;> trivial⟩
  have live : ((rawBytesWorld textSource).heap 0).live = true := by decide +kernel
  exact ⟨live, (queued_packets_sendable reach 0 live).1⟩

/-- A file that cannot be read queues a buffer that is NULL. -/
theorem queued_packets_unsendable : ¬∀ w, Reachable w → ∀ c, (w.heap c).live = true →
    ∀ b ∈ (w.heap c).conn.writer, HasByte b.cbuffer := by
  intro claim
  have reach : Reachable (rawBytesWorld fileSource) :=
    reachable_played (.init (plainWorld_initial _)) _
  have last : ((rawBytesWorld fileSource).heap 0).conn.writer.getLast? = some ⟨none⟩ := by
    decide +kernel
  obtain ⟨_, _, none⟩ := claim _ reach 0 (by decide +kernel) _ (List.mem_of_getLast? last)
  cases none

end JabSimul
