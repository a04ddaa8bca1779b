import JabSimul.ThreadRefinement

/-!
The loop of `_jpolld_conn_write` over the packets of a connection. It pops what
was written whole, and tears the connection down when the queue of a closing one
is drained; only then does it look at the queue of a connection that is gone.
-/
namespace JabSimul

open Simulation

section Pop

variable {w : World} {c : ConnPtr} {text : CString} {next : List JpolldWriteBuf}

theorem popPacket_conn : ((w.popPacket c text next).heap c).conn =
    { (w.heap c).conn with writer := next } := by
  change (w.popPacket c text next).session.conn c = _
  rw [session_popPacket, Session.conn_pop]
  rfl

theorem popPacket_live :
    ((w.popPacket c text next).heap c).live = true ↔ (w.heap c).live = true := by
  change (w.popPacket c text next).session.live c ↔ _
  rw [session_popPacket, Session.live_pop]
  rfl

/-- A packet that goes out takes one result of the write primitive. -/
theorem popPacket_frame (text : CString) (next : List JpolldWriteBuf)
    (live : (w.heap c).live = true) :
    (w.popPacket c text next).env.writes = (fun n => w.env.writes (n + 1)) ∧
      (w.popPacket c text next).users = w.users ∧
      (w.popPacket c text next).staleReads = w.staleReads ∧
      (w.popPacket c text next).trace = .sent c text :: w.trace := by
  have live' : ((((w.wrote c).emit (.sent c text)).updGlobals fun g =>
      { g with packetsSent := g.packetsSent + 1 }).heap c).live = true := by
    rw [wrote_of_live live]
    exact live
  simp only [World.popPacket, touch_of_live live']
  rw [wrote_of_live live]
  split <;> exact ⟨rfl, rfl, rfl, rfl⟩

theorem popPacket_exits (text : CString) (next : List JpolldWriteBuf)
    (live : (w.heap c).live = true) :
    (w.popPacket c text next).exits = w.exits := by
  funext owner
  cases owner with
  | none => rfl
  | some u => simp only [World.exits, (popPacket_frame _ _ live).2.1]

/-- The world in which a drained queue has its connection killed. -/
def World.drained (w : World) (c : ConnPtr) (text : CString) : World :=
  (w.popPacket c text []).expectKillOf (w.heap c).conn.user

theorem drained_frame (text : CString) (live : (w.heap c).live = true) :
    (w.drained c text).heap = (w.popPacket c text []).heap ∧
      (w.drained c text).staleReads = w.staleReads ∧
      (w.drained c text).trace = .sent c text :: w.trace ∧
      (w.drained c text).exits ((w.drained c text).heap c).conn.user =
        w.exits (w.heap c).conn.user := by
  obtain ⟨_, _, stale, trace⟩ := popPacket_frame text [] live
  have owner : ((w.popPacket c text []).heap c).conn.user = (w.heap c).conn.user := by
    rw [popPacket_conn]
  have exits := popPacket_exits text [] live
  unfold World.drained
  cases user : (w.heap c).conn.user with
  | none =>
    refine ⟨rfl, stale, trace, ?_⟩
    change World.exits _ ((w.popPacket c text []).heap c).conn.user = _
    rw [owner, user]
    rfl
  | some u =>
    refine ⟨rfl, stale, trace, ?_⟩
    change World.exits _ ((w.popPacket c text []).heap c).conn.user = _
    rw [owner, user, ← exits]
    simp only [World.expectKillOf, World.exits, updUser_users_self]

end Pop

section Reads

/-- Every packet in the queue of `c` is written whole by the results to come. -/
def World.Drains (w : World) (c : ConnPtr) : Prop :=
  ∀ (i : Nat) (buf : JpolldWriteBuf), (w.heap c).conn.writer[i]? = some buf →
    ∃ text, buf.cbuffer = some text ∧ 0 < (w.env.writes i).len ∧
      (text.length : Int) ≤ (w.env.writes i).len

/-- Nothing more was read of connections that are gone, and no loop ran on. -/
def Harmless (stale : List ConnPtr) : EStateM.Result Stop World Unit → Prop
  | .ok _ w' => w'.staleReads = stale
  | .error e w' => w'.staleReads = stale ∧ e ≠ .diverged

/-- The write of the queue of `c` comes to an end and reads nothing of a
connection that is gone. -/
def World.KeepsOff (w : World) (c : ConnPtr) : Prop :=
  Harmless w.staleReads (jpolldConnWrite_ (some c) w)

/-- The whole queue of a closing connection goes out, and its death lets the
program go on. -/
structure World.TearsDown (w : World) (c : ConnPtr) : Prop where
  closing : (w.heap c).conn.state = .closing
  queued : (w.heap c).conn.writer ≠ []
  drains : w.Drains c
  stays : w.exits (w.heap c).conn.user = false

variable {w : World} {c : ConnPtr} {text : CString} {next : List JpolldWriteBuf}

theorem drains_cons (queue : (w.heap c).conn.writer = ⟨some text⟩ :: next)
    (live : (w.heap c).live = true) :
    w.Drains c ↔ (0 < (w.env.writes 0).len ∧ (text.length : Int) ≤ (w.env.writes 0).len) ∧
      (w.popPacket c text next).Drains c := by
  unfold World.Drains
  rw [(popPacket_frame _ _ live).1, popPacket_conn, queue]
  constructor
  · intro drains
    refine ⟨?_, fun i buf member => drains (i + 1) buf (by simpa using member)⟩
    obtain ⟨text', same, results⟩ := drains 0 ⟨some text⟩ rfl
    cases same
    exact results
  · rintro ⟨first, rest⟩ i buf member
    cases i with
    | zero =>
      cases Option.some.inj member
      exact ⟨text, rfl, first⟩
    | succ i => exact rest i buf (by simpa using member)

/-- Packets behind the first do not change what the loop is heading for. -/
theorem tearsDown_pop (queue : (w.heap c).conn.writer = ⟨some text⟩ :: next) (more : next ≠ [])
    (live : (w.heap c).live = true)
    (results : 0 < (w.env.writes 0).len ∧ (text.length : Int) ≤ (w.env.writes 0).len) :
    w.TearsDown c ↔ (w.popPacket c text next).TearsDown c := by
  have exits := popPacket_exits text next live
  have drains := drains_cons queue live
  constructor
  · intro down
    refine ⟨?_, ?_, (drains.mp down.drains).2, ?_⟩
    · rw [popPacket_conn]
      exact down.closing
    · rw [popPacket_conn]
      exact more
    · rw [popPacket_conn, exits]
      exact down.stays
  · rintro ⟨closing, _, rest, stays⟩
    rw [popPacket_conn] at closing stays
    rw [exits] at stays
    exact ⟨closing, by simp [queue], drains.mpr ⟨results, rest⟩, stays⟩

/-- After the tear-down the loop reads the queue once more. The induction is on
the queue. -/
theorem writeLoop_reads_killed (queue : List JpolldWriteBuf) (fuel : Nat) (w : World)
    (same : (w.heap c).conn.writer = queue) (enough : queue.length < fuel)
    (live : (w.heap c).live = true) (down : w.TearsDown c) :
    ∃ w', writeLoop fuel c w = .ok ⟨⟩ w' ∧ w'.staleReads = c :: w.staleReads := by
  induction queue generalizing fuel w with
  | nil => exact absurd same down.queued
  | cons buf next ih =>
    obtain ⟨fuel, rfl⟩ : ∃ n, fuel = n + 1 := ⟨fuel - 1, by simp at enough; omega⟩
    obtain ⟨text, shape, some', whole⟩ := down.drains 0 buf (by rw [same]; rfl)
    obtain ⟨cbuffer⟩ := buf
    cases shape
    by_cases last : next = []
    · subst last
      obtain ⟨fuel, rfl⟩ : ∃ n, fuel = n + 1 := ⟨fuel - 1, by simp at enough; omega⟩
      obtain ⟨heap, stale, _, exits⟩ := drained_frame text live
      have live' : ((w.drained c text).heap c).live = true := by
        rw [heap]
        exact popPacket_live.mpr live
      rw [writeLoop_drained _ same some' whole down.closing, bind_apply, ← World.drained]
      rcases jpolldConnKill_apply (w.drained c text) c .writeDrained with ⟨_, run⟩ | ⟨exit, _⟩
      · obtain ⟨dead, stale', _⟩ := killConn_frame .writeDrained live'
        have empty : (((w.drained c text).killConn c .writeDrained).heap c).conn.writer = [] := by
          rw [killConn_conn, heap, popPacket_conn]
        rw [run]
        refine ⟨_, writeLoop_empty fuel empty, ?_⟩
        rw [staleReads_touch_of_dead dead, stale', stale]
      · rw [exits, down.stays] at exit
        cases exit
    · have down' := (tearsDown_pop same last live ⟨some', whole⟩).mp down
      obtain ⟨w', run, read⟩ := ih fuel (w.popPacket c text next) (by rw [popPacket_conn])
        (by simpa using enough) (popPacket_live.mpr live) down'
      rw [writeLoop_more fuel same some' whole (.inl last), run]
      exact ⟨w', rfl, by rw [read, (popPacket_frame _ _ live).2.2.1]⟩

theorem jpolldConnKill_harmless (live : (w.heap c).live = true) (site : KillSite) :
    Harmless w.staleReads (jpolldConnKill c site w) := by
  rcases jpolldConnKill_apply w c site with ⟨_, run⟩ | ⟨_, u, _, run⟩
  · rw [run]
    exact (killConn_frame site live).2.1
  · rw [run]
    exact ⟨(stripConn_frame site live).2.2.1, by simp⟩

/-- Otherwise the loop ends, and no step of it reads a dead connection. -/
theorem writeLoop_reads_live (queue : List JpolldWriteBuf) (fuel : Nat) (w : World)
    (same : (w.heap c).conn.writer = queue) (enough : queue.length < fuel)
    (live : (w.heap c).live = true) (up : ¬w.TearsDown c) :
    Harmless w.staleReads (writeLoop fuel c w) := by
  induction queue generalizing fuel w with
  | nil =>
    obtain ⟨fuel, rfl⟩ : ∃ n, fuel = n + 1 := ⟨fuel - 1, by simp at enough; omega⟩
    rw [writeLoop_empty fuel same, touch_of_live live]
    rfl
  | cons buf next ih =>
    obtain ⟨fuel, rfl⟩ : ∃ n, fuel = n + 1 := ⟨fuel - 1, by simp at enough; omega⟩
    obtain ⟨_ | text⟩ := buf
    · rw [writeLoop_null fuel same, touch_of_live live]
      exact ⟨rfl, by simp⟩
    have wrote : (w.wrote c).staleReads = w.staleReads := by rw [wrote_of_live live]
    by_cases failed : (w.env.writes 0).len ≤ 0
    · cases blocked : w.blocked c with
      | true =>
        rw [writeLoop_blocked fuel same failed blocked]
        exact wrote
      | false =>
        rw [writeLoop_failed fuel same failed blocked, ← wrote]
        exact jpolldConnKill_harmless (by rw [heap_wrote, live]) .writeFailed
    have some' : 0 < (w.env.writes 0).len := by omega
    by_cases short : (w.env.writes 0).len < text.length
    · rw [writeLoop_short fuel same some' short]
      change ((World.emit _ _).touch c).staleReads = _
      rw [touch_of_live (by rw [wrote_of_live live]; exact live)]
      exact wrote
    have whole : (text.length : Int) ≤ (w.env.writes 0).len := by omega
    have stale := (popPacket_frame text next live).2.2.1
    by_cases stays : next ≠ [] ∨ (w.heap c).conn.state ≠ .closing
    · have up' : ¬(w.popPacket c text next).TearsDown c := by
        intro down
        rcases stays with more | open'
        · exact up ((tearsDown_pop same more live ⟨some', whole⟩).mpr down)
        · have closing := down.closing
          rw [popPacket_conn] at closing
          exact open' closing
      rw [writeLoop_more fuel same some' whole stays, ← stale]
      exact ih fuel _ (by rw [popPacket_conn]) (by simpa using enough) (popPacket_live.mpr live) up'
    obtain ⟨rfl, closing⟩ : next = [] ∧ (w.heap c).conn.state = .closing := by simpa using stays
    obtain ⟨heap, stale, _, exits⟩ := drained_frame text live
    have live' : ((w.drained c text).heap c).live = true := by
      rw [heap]
      exact popPacket_live.mpr live
    rw [writeLoop_drained fuel same some' whole closing, bind_apply, ← World.drained]
    rcases jpolldConnKill_apply (w.drained c text) c .writeDrained with
      ⟨stays, _⟩ | ⟨_, u, _, run⟩
    · refine absurd ⟨closing, by simp [same], ?_, by rw [← exits, stays]⟩ up
      refine (drains_cons same live).mpr ⟨⟨some', whole⟩, fun i buf member => ?_⟩
      rw [popPacket_conn] at member
      simp at member
    · rw [run, ← stale]
      exact ⟨(stripConn_frame .writeDrained live').2.2.1, by simp⟩

theorem jpolldConnWrite_started (live : (w.heap c).live = true) : jpolldConnWrite_ (some c) w =
    writeLoop ((w.heap c).conn.writer.length + 1) c w := by
  simp only [jpolldConnWrite_, bind_apply, readConn_apply, touch_of_live live]

/-- The write of a queue reads a dead connection exactly when it tears the
connection down itself. -/
theorem jpolldConnWrite_keepsOff_iff (live : (w.heap c).live = true) :
    w.KeepsOff c ↔ ¬w.TearsDown c := by
  unfold World.KeepsOff
  rw [jpolldConnWrite_started live]
  constructor
  · intro harmless down
    obtain ⟨w', run, read⟩ := writeLoop_reads_killed _ _ w rfl (Nat.lt_succ_self _) live down
    rw [run] at harmless
    change w'.staleReads = w.staleReads at harmless
    rw [read] at harmless
    simp at harmless
  · exact writeLoop_reads_live _ _ w rfl (Nat.lt_succ_self _) live

/-- A greeting is queued when the server closes the stream. -/
def closingWorld : World :=
  (plainWorld [connectEvent]).played
    [(.job 0 5, plainEnv), (.slot 2 (.pollin ⟨0, false, []⟩), plainEnv)]

theorem keepsOff_closingWorld_iff : closingWorld.KeepsOff 0 ↔ ¬closingWorld.TearsDown 0 :=
  jpolldConnWrite_keepsOff_iff (by decide +kernel)

theorem closingWorld_reads_killed :
    Reachable closingWorld ∧ (closingWorld.heap 0).live = true ∧ ¬closingWorld.KeepsOff 0 := by
  refine ⟨reachable_played (.init (plainWorld_initial _)) _, by decide +kernel, fun harmless => ?_⟩
  unfold World.KeepsOff at harmless
  rw [run_of_returned (m := jpolldConnWrite_ (some 0)) (w := closingWorld) (a := ())
    (by decide +kernel)] at harmless
  change (after _ closingWorld).staleReads = closingWorld.staleReads at harmless
  exact absurd harmless (by decide +kernel)

end Reads

section Stream

/-- The bytes that an event puts on the socket of `c`. -/
def Ev.bytesOn (c : ConnPtr) : Ev → CString
  | .sent d bytes => if d = c then bytes else []
  | _ => []

/-- The bytes that reached the socket of `c`. The trace has its last event first. -/
def sentOn (c : ConnPtr) : List Ev → CString
  | [] => []
  | e :: trace => sentOn c trace ++ e.bytesOn c

/-- The unsent bytes of a queue. -/
def queuedBytes (writer : List JpolldWriteBuf) : CString :=
  writer.flatMap fun buf => buf.cbuffer.getD []

/-- Any calls of the write functions on `c` while it is alive, with the texts that
were accepted. The rest of the program may do in between what leaves the queue
and its bytes alone. -/
inductive QueueRun (c : ConnPtr) : CString → World → Prop
  | start {w : World} (live : (w.heap c).live = true) (empty : (w.heap c).conn.writer = [])
      (unsent : sentOn c w.trace = []) (up : .killed c .writeDrained ∉ w.trace) : QueueRun c [] w
  | writeStr {w w' : World} {acc : CString} {ret : Int} (before : QueueRun c acc w) (env : Env)
      (live : (w.heap c).live = true) (buf : Option CString) (force : Bool)
      (ran : jpolldConnWriteStr (some c) buf force (w.withEnv env) = .ok ret w') :
      QueueRun c (if ret = 0 then acc ++ buf.getD [] else acc) w'
  | write {w w' : World} {acc : CString} {ret : Int} (before : QueueRun c acc w) (env : Env)
      (live : (w.heap c).live = true) (x : XmlNode) (force : Bool)
      (ran : jpolldConnWrite (some c) (some x) force (w.withEnv env) = .ok ret w') :
      QueueRun c (if ret = 0 then acc ++ xmlnode2str x else acc) w'
  | flush {w w' : World} {acc : CString} (before : QueueRun c acc w) (env : Env)
      (live : (w.heap c).live = true)
      (ran : jpolldConnWrite_ (some c) (w.withEnv env) = .ok ⟨⟩ w') : QueueRun c acc w'
  | other {w w' : World} {acc : CString} (before : QueueRun c acc w)
      (live : (w'.heap c).live = true → (w.heap c).live = true)
      (queue : (w'.heap c).conn.writer = (w.heap c).conn.writer)
      (sent : sentOn c w'.trace = sentOn c w.trace)
      (kills : .killed c .writeDrained ∈ w'.trace → .killed c .writeDrained ∈ w.trace) :
      QueueRun c acc w'

/-- What was accepted is what was sent and what is queued, and nothing is queued
on a connection that was torn down. -/
structure Ledger (c : ConnPtr) (acc : CString) (w : World) : Prop where
  balance : acc = sentOn c w.trace ++ queuedBytes (w.heap c).conn.writer
  drained : .killed c .writeDrained ∈ w.trace → (w.heap c).conn.writer = []

/-- A live connection was not torn down. -/
def World.Up (w : World) (c : ConnPtr) : Prop :=
  (w.heap c).live = true → .killed c .writeDrained ∉ w.trace

/-- A function that does not come back has kept the ledger, too. -/
def Ledgered (c : ConnPtr) (acc : CString) : EStateM.Result Stop World Unit → Prop
  | .ok _ w' => Ledger c acc w' ∧ w'.Up c
  | .error _ w' => Ledger c acc w'

variable {c : ConnPtr} {acc : CString} {w : World}

theorem acceptPacket_conn (text : Option CString) : ((w.acceptPacket c text).heap c).conn =
    { (w.heap c).conn with writer := (w.heap c).conn.writer ++ [⟨text⟩] } := by
  change (w.acceptPacket c text).session.conn c = _
  rw [session_acceptPacket, Session.accept, Session.conn_emit, Session.conn_updPfd,
    Session.conn_updConn_self]
  rfl

theorem acceptPacket_trace (text : Option CString) :
    (w.acceptPacket c text).trace = .accepted c text :: w.trace := by
  change (w.acceptPacket c text).session.trace = _
  rw [session_acceptPacket]
  rfl

theorem Ledger.accept (ledger : Ledger c acc w) (up : .killed c .writeDrained ∉ w.trace)
    (text : Option CString) :
    Ledger c (acc ++ text.getD []) (w.acceptPacket c text) ∧ (w.acceptPacket c text).Up c := by
  have kept : .killed c .writeDrained ∉ (w.acceptPacket c text).trace := by
    rw [acceptPacket_trace]
    simpa using up
  refine ⟨⟨?_, fun torn => absurd torn kept⟩, fun _ => kept⟩
  rw [acceptPacket_trace, acceptPacket_conn, ledger.balance]
  simp [sentOn, Ev.bytesOn, queuedBytes]

theorem Ledger.reject (ledger : Ledger c acc w) (up : .killed c .writeDrained ∉ w.trace)
    (text : Option CString) :
    Ledger c acc (w.rejectPacket c text) ∧ (w.rejectPacket c text).Up c := by
  have session := session_rejectPacket w c text
  have trace : (w.rejectPacket c text).trace = .rejected c text :: w.trace :=
    congrArg Session.trace session
  have conn : ((w.rejectPacket c text).heap c).conn = (w.heap c).conn :=
    congrArg (fun s => Session.conn s c) session
  have kept : .killed c .writeDrained ∉ (w.rejectPacket c text).trace := by
    rw [trace]
    simpa using up
  refine ⟨⟨?_, fun torn => absurd torn kept⟩, fun _ => kept⟩
  rw [trace, conn, ledger.balance]
  simp [sentOn, Ev.bytesOn]

theorem Ledger.enqueue (ledger : Ledger c acc w) (live : (w.heap c).live = true) (up : w.Up c)
    (text : Option CString) (force : Bool) {ret : Int} {w' : World}
    (ran : jpolldConnEnqueue (some c) text force w = .ok ret w') :
    Ledger c (if ret = 0 then acc ++ text.getD [] else acc) w' ∧ w'.Up c := by
  by_cases room : ¬(w.heap c).conn.full ∨ force = true
  · rw [jpolldConnEnqueue_room room] at ran
    cases ran
    exact ledger.accept (up live) text
  · obtain ⟨full, unforced⟩ : (w.heap c).conn.full ∧ force = false := by simpa using room
    rw [unforced, jpolldConnEnqueue_full full] at ran
    cases ran
    exact ledger.reject (up live) text

theorem Ledger.withEnv (ledger : Ledger c acc w) (env : Env) : Ledger c acc (w.withEnv env) :=
  ⟨ledger.balance, ledger.drained⟩

/-- A change that sends nothing and tears nothing down keeps the ledger. -/
theorem Ledger.same {w' : World} (ledger : Ledger c acc w)
    (conn : (w'.heap c).conn = (w.heap c).conn) (sent : sentOn c w'.trace = sentOn c w.trace)
    (kills : .killed c .writeDrained ∈ w'.trace →
      (w.heap c).conn.writer = [] ∨ .killed c .writeDrained ∈ w.trace) : Ledger c acc w' := by
  refine ⟨?_, fun torn => ?_⟩
  · rw [sent, conn]
    exact ledger.balance
  · rw [conn]
    rcases kills torn with empty | before
    · exact empty
    · exact ledger.drained before

/-- What a kill leaves in the trace. -/
theorem sentOn_killed {site : KillSite} {t t' : List Ev}
    (trace : t' = .killed c site :: t ∨ ∃ u, t' = .report u .unexpectedDeath :: .killed c site :: t) :
    sentOn c t' = sentOn c t ∧ (.killed c .writeDrained ∈ t' →
      site = .writeDrained ∨ .killed c .writeDrained ∈ t) := by
  rcases trace with rfl | ⟨u, rfl⟩
  · refine ⟨by simp [sentOn, Ev.bytesOn], fun torn => ?_⟩
    rcases List.mem_cons.mp torn with first | later
    · cases first
      exact .inl rfl
    · exact .inr later
  · refine ⟨by simp [sentOn, Ev.bytesOn], fun torn => ?_⟩
    rcases List.mem_cons.mp torn with first | torn
    · cases first
    rcases List.mem_cons.mp torn with first | later
    · cases first
      exact .inl rfl
    · exact .inr later

theorem Ledger.kill (ledger : Ledger c acc w) (live : (w.heap c).live = true) (site : KillSite)
    (empty : site = .writeDrained → (w.heap c).conn.writer = []) :
    Ledgered c acc (jpolldConnKill c site w) := by
  rcases jpolldConnKill_apply w c site with ⟨_, run⟩ | ⟨_, u, _, run⟩
  · obtain ⟨dead, _, trace⟩ := killConn_frame site live
    obtain ⟨sent, kills⟩ := sentOn_killed trace
    rw [run]
    refine ⟨ledger.same (killConn_conn w c site c) sent fun torn => ?_, fun alive => ?_⟩
    · exact (kills torn).imp_left empty
    · rw [dead] at alive
      cases alive
  · obtain ⟨heap, _, _, trace⟩ := stripConn_frame site live
    obtain ⟨sent, kills⟩ := sentOn_killed trace
    rw [run]
    refine ledger.same ?_ sent fun torn => (kills torn).imp_left empty
    change ((w.stripConn c site).heap c).conn = _
    rw [heap]

theorem Ledger.advance (ledger : Ledger c acc w) (up : w.Up c) (live : (w.heap c).live = true)
    {text : CString} {next : List JpolldWriteBuf} (queue : (w.heap c).conn.writer = ⟨some text⟩ :: next)
    (k : Nat) :
    Ledger c acc (w.advancePacket c text next k) ∧ (w.advancePacket c text next k).Up c := by
  have session := session_advancePacket w c text next k
  have trace : (w.advancePacket c text next k).trace = .sent c (text.take k) :: w.trace :=
    congrArg Session.trace session
  have conn : ((w.advancePacket c text next k).heap c).conn =
      { (w.heap c).conn with writer := ⟨some (text.drop k)⟩ :: next } := by
    change (w.advancePacket c text next k).session.conn c = _
    rw [session, Session.advance, Session.conn_updConn_self]
    rfl
  have kept : .killed c .writeDrained ∉ (w.advancePacket c text next k).trace := by
    rw [trace]
    simpa using up live
  refine ⟨⟨?_, fun torn => absurd torn kept⟩, fun _ => kept⟩
  rw [trace, conn, ledger.balance, queue]
  simp only [sentOn, Ev.bytesOn, queuedBytes, List.flatMap_cons, Option.getD_some, if_true,
    List.append_assoc]
  rw [← List.append_assoc (text.take k), List.take_append_drop]

theorem Ledger.pop (ledger : Ledger c acc w) (up : w.Up c) (live : (w.heap c).live = true)
    {text : CString} {next : List JpolldWriteBuf} (queue : (w.heap c).conn.writer = ⟨some text⟩ :: next) :
    Ledger c acc (w.popPacket c text next) ∧ (w.popPacket c text next).Up c := by
  have trace := (popPacket_frame text next live).2.2.2
  have kept : .killed c .writeDrained ∉ (w.popPacket c text next).trace := by
    rw [trace]
    simpa using up live
  refine ⟨⟨?_, fun torn => absurd torn kept⟩, fun _ => kept⟩
  rw [trace, popPacket_conn, ledger.balance, queue]
  simp [sentOn, Ev.bytesOn, queuedBytes]

/-- The induction is on the rounds of the loop. -/
theorem Ledger.writeLoop (fuel : Nat) (w : World) (ledger : Ledger c acc w) (up : w.Up c)
    (live : (w.heap c).conn.writer ≠ [] → (w.heap c).live = true) :
    Ledgered c acc (writeLoop fuel c w) := by
  induction fuel generalizing w with
  | zero => exact ledger
  | succ fuel ih =>
    have touched : Ledger c acc (w.touch c) := ledger.same (by rw [heap_touch]) (by rw [trace_touch])
      fun torn => .inr (by rwa [trace_touch] at torn)
    match queue : (w.heap c).conn.writer with
    | [] =>
      rw [writeLoop_empty fuel queue]
      refine ⟨touched, ?_⟩
      unfold World.Up
      rw [heap_touch, trace_touch]
      exact up
    | ⟨none⟩ :: _ =>
      rw [writeLoop_null fuel queue]
      exact touched
    | ⟨some text⟩ :: next =>
      have live : (w.heap c).live = true := live (by simp [queue])
      have wrote : Ledger c acc (w.wrote c) ∧ (w.wrote c).Up c := by
        rw [wrote_of_live live]
        exact ⟨⟨ledger.balance, ledger.drained⟩, up⟩
      by_cases failed : (w.env.writes 0).len ≤ 0
      · cases blocked : w.blocked c with
        | true =>
          rw [writeLoop_blocked fuel queue failed blocked]
          exact wrote
        | false =>
          rw [writeLoop_failed fuel queue failed blocked]
          exact wrote.1.kill (by rw [heap_wrote, live]) _ (by simp)
      have some' : 0 < (w.env.writes 0).len := by omega
      by_cases short : (w.env.writes 0).len < text.length
      · rw [writeLoop_short fuel queue some' short]
        exact ledger.advance up live queue _
      have whole : (text.length : Int) ≤ (w.env.writes 0).len := by omega
      obtain ⟨popped, up'⟩ := ledger.pop up live queue
      by_cases stays : next ≠ [] ∨ (w.heap c).conn.state ≠ .closing
      · rw [writeLoop_more fuel queue some' whole stays]
        exact ih _ popped up' fun _ => popPacket_live.mpr live
      obtain ⟨rfl, closing⟩ : next = [] ∧ (w.heap c).conn.state = .closing := by simpa using stays
      obtain ⟨heap, _, trace, _⟩ := drained_frame text live
      have empty : ((w.drained c text).heap c).conn.writer = [] := by
        rw [heap, popPacket_conn]
      have drained : Ledger c acc (w.drained c text) := popped.same (by rw [heap])
        (by rw [trace, (popPacket_frame _ _ live).2.2.2]) fun _ => .inl (by rw [popPacket_conn])
      have killed := drained.kill (by rw [heap]; exact popPacket_live.mpr live) .writeDrained
        fun _ => empty
      rw [writeLoop_drained fuel queue some' whole closing, bind_apply, ← World.drained]
      rcases jpolldConnKill_apply (w.drained c text) c .writeDrained with ⟨_, run⟩ | ⟨_, u, _, run⟩
      · rw [run] at killed ⊢
        refine ih _ killed.1 killed.2 fun queued => absurd ?_ queued
        rw [killConn_conn, empty]
      · rw [run] at killed ⊢
        exact killed

theorem QueueRun.ledger (run : QueueRun c acc w) : Ledger c acc w ∧ w.Up c := by
  induction run with
  | start live empty unsent up =>
    refine ⟨⟨?_, fun _ => empty⟩, fun _ => up⟩
    rw [unsent, empty]
    rfl
  | writeStr before env live buf force ran ih =>
    exact (ih.1.withEnv env).enqueue live ih.2 buf force ran
  | write before env live x force ran ih =>
    exact (ih.1.withEnv env).enqueue live ih.2 (some (xmlnode2str x)) force ran
  | @flush w w' acc before env live ran ih =>
    have flushed := Ledger.writeLoop (((w.withEnv env).heap c).conn.writer.length + 1)
      (w.withEnv env) (ih.1.withEnv env) ih.2 fun _ => live
    rw [← jpolldConnWrite_started (w := w.withEnv env) live, ran] at flushed
    exact flushed
  | other before live queue sent kills ih =>
    refine ⟨⟨?_, fun torn => ?_⟩, fun alive torn => ih.2 (live alive) (kills torn)⟩
    · rw [sent, queue]
      exact ih.1.balance
    · rw [queue]
      exact ih.1.drained (kills torn)

theorem Ledger.stream (ledger : Ledger c acc w) : sentOn c w.trace <+: acc ∧
    acc = sentOn c w.trace ++ queuedBytes (w.heap c).conn.writer ∧
    (.killed c .writeDrained ∈ w.trace → sentOn c w.trace = acc) := by
  refine ⟨⟨_, ledger.balance.symm⟩, ledger.balance, fun torn => ?_⟩
  rw [ledger.balance, ledger.drained torn]
  simp [queuedBytes]

/-- The socket sees the accepted texts in the order of their acceptance, each
byte once, and a tear-down waits for the last of them. That is so in a state in
which a flush ends the program, too. -/
theorem stream_in_order {c : ConnPtr} {acc : CString} {w : World} (run : QueueRun c acc w) :
    (sentOn c w.trace <+: acc ∧ acc = sentOn c w.trace ++ queuedBytes (w.heap c).conn.writer ∧
      (.killed c .writeDrained ∈ w.trace → sentOn c w.trace = acc)) ∧
    ∀ env e w', (w.heap c).live = true →
      jpolldConnWrite_ (some c) (w.withEnv env) = .error e w' →
      sentOn c w'.trace <+: acc ∧ acc = sentOn c w'.trace ++ queuedBytes (w'.heap c).conn.writer ∧
        (.killed c .writeDrained ∈ w'.trace → sentOn c w'.trace = acc) := by
  obtain ⟨ledger, up⟩ := run.ledger
  refine ⟨ledger.stream, fun env e w' live stopped => ?_⟩
  have flushed := Ledger.writeLoop (((w.withEnv env).heap c).conn.writer.length + 1)
    (w.withEnv env) (ledger.withEnv env) up fun _ => live
  rw [← jpolldConnWrite_started (w := w.withEnv env) live, stopped] at flushed
  exact Ledger.stream flushed

/-- A system that takes two bytes. -/
def twoBytesEnv : Env := { plainEnv with writes := fun _ => ⟨2, false, false⟩ }

theorem stream_in_order_of_two : ∃ w : World, sentOn 0 w.trace = cstr "ab" ∧
    sentOn 0 w.trace <+: cstr "abc" ∧ queuedBytes (w.heap 0).conn.writer = cstr "c" := by
  have first : QueueRun 0 [] (after (jpolldConnCreate 2 0 .connected 0) (plainWorld [])) :=
    .start (by decide +kernel) (by decide +kernel) rfl fun torn => List.not_mem_nil torn
  have second := first.writeStr plainEnv (by decide +kernel)
    (some (cstr "abc")) false (run_of_returned (a := 0) (by decide +kernel))
  rw [if_pos rfl, List.nil_append, Option.getD_some] at second
  have third := second.flush twoBytesEnv (by decide +kernel)
    (run_of_returned (a := ()) (by decide +kernel))
  exact ⟨_, by decide +kernel, (stream_in_order third).1.1, by decide +kernel⟩

end Stream

end JabSimul
