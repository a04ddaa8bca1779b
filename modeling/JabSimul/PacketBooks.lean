import JabSimul.WriteQueue
import Mathlib.Algebra.BigOperators.Intervals

/-!
Packets under any order of connects, writes, drains and kills. A packet that was
created is in a queue until it is sent or written off, so the counters and the
queues balance at all times.
-/
namespace JabSimul

open Simulation

namespace World

/-- The packets that wait on a connection, if it is alive. -/
def waiting (w : World) (c : ConnPtr) : Nat :=
  if (w.heap c).live then (w.heap c).conn.writer.length else 0

/-- The packets that wait on all connections. -/
def inQueues (w : World) : Nat := ∑ c ∈ Finset.range w.nextConn, w.waiting c

/-- The counters of packets. -/
def packets (w : World) : CInt × CInt × CInt :=
  (w.globals.packetsCreated, w.globals.packetsSent, w.globals.packetsCanceled)

structure Books (w : World) : Prop where
  fresh : ∀ c, (w.heap c).live = true → c < w.nextConn
  balance : w.globals.packetsCreated =
    w.globals.packetsSent + w.globals.packetsCanceled + BitVec.ofNat 32 w.inQueues

end World

/-- A step of the rest of the program: queues and counters stay as they are. -/
structure SamePackets (w w' : World) : Prop where
  live : ∀ c, (w'.heap c).live = (w.heap c).live
  writer : ∀ c, (w'.heap c).conn.writer = (w.heap c).conn.writer
  nextConn : w'.nextConn = w.nextConn
  packets : w'.packets = w.packets

/-- The states that connects, writes, drains and kills reach in any order. A write
names no connection or one that is alive. -/
inductive PacketRun : World → Prop
  | init {w} (dead : ∀ c, (w.heap c).live = false) (none : w.packets = (0, 0, 0)) : PacketRun w
  | connect {w w' ret} (before : PacketRun w) (u : UserPtr) (env : Env)
      (ran : userConnect u (w.withEnv env) = .ok ret w') : PacketRun w'
  | writeStr {w w' ret} (before : PacketRun w) (c : Option ConnPtr)
      (there : ∀ d, c = some d → (w.heap d).live = true) (buf : Option CString) (force : Bool)
      (ran : jpolldConnWriteStr c buf force w = .ok ret w') : PacketRun w'
  | write {w w' ret} (before : PacketRun w) (c : Option ConnPtr)
      (there : ∀ d, c = some d → (w.heap d).live = true) (x : Option XmlNode) (force : Bool)
      (ran : jpolldConnWrite c x force w = .ok ret w') : PacketRun w'
  | drain {w w'} (before : PacketRun w) (c : Option ConnPtr)
      (there : ∀ d, c = some d → (w.heap d).live = true) (env : Env)
      (ran : jpolldConnWrite_ c (w.withEnv env) = .ok ⟨⟩ w') : PacketRun w'
  | kill {w w'} (before : PacketRun w) (c : ConnPtr) (there : (w.heap c).live = true)
      (site : KillSite) (ran : jpolldConnKill c site w = .ok ⟨⟩ w') : PacketRun w'
  | killUser {w w'} (before : PacketRun w) (u : UserPtr)
      (there : ∀ c, (w.users u).conn = some c → (w.heap c).live = true)
      (site : KillSite) (ran : userConnKill u site w = .ok ⟨⟩ w') : PacketRun w'
  | other {w w'} (before : PacketRun w) (same : SamePackets w w') : PacketRun w'

/-- An entry that changes one queue by as much as the counters keeps the balance. -/
theorem entry_balances {created created' sent sent' canceled canceled' queued queued' old new : CInt}
    (balance : created = sent + canceled + queued) (total : queued' + old = queued + new)
    (entry : created' + sent + canceled + old = created + sent' + canceled' + new) :
    created' = sent' + canceled' + queued' := by
  grind

namespace World

section Update

variable {w w' : World} {c : ConnPtr}

/-- Only the packets of one connection change. -/
theorem inQueues_change (inside : c < w.nextConn) (nextConn : w'.nextConn = w.nextConn)
    (others : ∀ d ≠ c, w'.waiting d = w.waiting d) :
    w'.inQueues + w.waiting c = w.inQueues + w'.waiting c := by
  have mem : c ∈ Finset.range w.nextConn := Finset.mem_range.mpr inside
  have rest : ∑ d ∈ (Finset.range w.nextConn).erase c, w'.waiting d =
      ∑ d ∈ (Finset.range w.nextConn).erase c, w.waiting d :=
    Finset.sum_congr rfl fun d away => others d (Finset.ne_of_mem_erase away)
  have after : w'.waiting c + ∑ d ∈ (Finset.range w.nextConn).erase c, w'.waiting d =
      ∑ d ∈ Finset.range w.nextConn, w'.waiting d := Finset.add_sum_erase _ _ mem
  have before : w.waiting c + ∑ d ∈ (Finset.range w.nextConn).erase c, w.waiting d =
      ∑ d ∈ Finset.range w.nextConn, w.waiting d := Finset.add_sum_erase _ _ mem
  rw [rest] at after
  rw [inQueues, inQueues, nextConn]
  omega

theorem Books.change (books : w.Books) (inside : c < w.nextConn)
    (nextConn : w'.nextConn = w.nextConn)
    (live : ∀ d, (w'.heap d).live = true → (w.heap d).live = true)
    (others : ∀ d ≠ c, w'.waiting d = w.waiting d)
    (entry : w'.globals.packetsCreated + w.globals.packetsSent + w.globals.packetsCanceled +
        BitVec.ofNat 32 (w.waiting c) =
      w.globals.packetsCreated + w'.globals.packetsSent + w'.globals.packetsCanceled +
        BitVec.ofNat 32 (w'.waiting c)) : w'.Books := by
  refine ⟨fun d alive => nextConn ▸ books.fresh d (live d alive), ?_⟩
  have total := congrArg (BitVec.ofNat 32) (inQueues_change inside nextConn others)
  rw [BitVec.ofNat_add, BitVec.ofNat_add] at total
  exact entry_balances books.balance total entry

theorem Books.same (books : w.Books) (same : SamePackets w w') : w'.Books := by
  have waiting : w'.waiting = w.waiting := by
    funext c
    rw [waiting, waiting, same.live, same.writer]
  obtain ⟨created, sent, canceled⟩ : w'.globals.packetsCreated = w.globals.packetsCreated ∧
      w'.globals.packetsSent = w.globals.packetsSent ∧
      w'.globals.packetsCanceled = w.globals.packetsCanceled := by
    simpa [packets] using same.packets
  refine ⟨fun c alive => ?_, ?_⟩
  · rw [same.nextConn]
    exact books.fresh c (by rwa [← same.live])
  · rw [created, sent, canceled, inQueues, waiting, same.nextConn]
    exact books.balance

end Update

end World

section Operations

variable {w : World} {c : ConnPtr}

theorem World.waiting_of_live (live : (w.heap c).live = true) :
    w.waiting c = (w.heap c).conn.writer.length :=
  if_pos live

theorem nextConn_touch (w : World) (c : ConnPtr) : (w.touch c).nextConn = w.nextConn := by
  unfold World.touch
  split <;> rfl

theorem packets_touch (w : World) (c : ConnPtr) : (w.touch c).packets = w.packets := by
  unfold World.touch
  split <;> rfl

theorem World.Books.touch (books : w.Books) (c : ConnPtr) : (w.touch c).Books :=
  books.same ⟨fun d => by rw [heap_touch], fun d => by rw [heap_touch], nextConn_touch w c,
    packets_touch w c⟩

theorem World.Books.enqueue (books : w.Books) (live : (w.heap c).live = true)
    {text : Option CString} {force : Bool} {ret : Int} {w' : World}
    (ran : jpolldConnEnqueue (some c) text force w = .ok ret w') : w'.Books := by
  by_cases room : ¬(w.heap c).conn.full ∨ force = true
  · rw [jpolldConnEnqueue_room room, acceptPacket_of_live live] at ran
    cases ran
    have waiting := World.waiting_of_live live
    refine books.change (c := c) (books.fresh c live) rfl (fun d alive => ?_) (fun d away => ?_) ?_
    · by_cases here : d = c
      · exact here ▸ live
      · simpa [here] using alive
    · simp [World.waiting, away]
    · rw [waiting]
      simp only [World.waiting, Function.update_self, if_true, List.length_append,
        List.length_singleton, BitVec.ofNat_add]
      grind
  · obtain ⟨full, unforced⟩ : (w.heap c).conn.full ∧ force = false := by simpa using room
    subst unforced
    rw [jpolldConnEnqueue_full full] at ran
    cases ran
    rw [World.rejectPacket, touch_of_live (w := w.updGlobals _) live]
    refine books.change (c := c) (books.fresh c live) rfl (fun d alive => alive) (fun d away => rfl) ?_
    simp [World.waiting, World.emit, World.updGlobals]
    grind

theorem packets_rosterHashDelete (w : World) (u : UserPtr) :
    (rosterHashDelete u w).packets = w.packets := by
  unfold rosterHashDelete
  split
  · rfl
  · obtain ⟨items, deleted⟩ := deleteItems_eq w (xhashWalk ‹_›)
    rw [deleted]
    rfl

theorem packets_resetUser (w : World) (u : UserPtr) : (w.resetUser u).packets = w.packets := by
  have dropped : (w.dropSession u).packets = w.packets := packets_rosterHashDelete _ u
  unfold World.resetUser World.userDebug
  dsimp only
  split_ifs <;> exact dropped

theorem packets_resetOwner (w : World) (owner : Option UserPtr) :
    (w.resetOwner owner).packets = w.packets := by
  cases owner with
  | none => rfl
  | some u => exact packets_resetUser _ u

/-- A kill writes off the packets of the connection. -/
theorem packets_killConn (live : (w.heap c).live = true) (site : KillSite) :
    (w.killConn c site).packets = (w.globals.packetsCreated, w.globals.packetsSent,
      w.globals.packetsCanceled + BitVec.ofNat 32 (w.heap c).conn.writer.length) := by
  have same : ((w.emit (.killed c site)).touch c) = w.emit (.killed c site) := touch_of_live live
  change ((((w.emit (.killed c site)).releaseConn c).touch c).resetOwner _).packets = _
  rw [packets_resetOwner, packets_touch, World.releaseConn, same]
  rfl

theorem World.Books.kill (books : w.Books) (live : (w.heap c).live = true) (site : KillSite) :
    (w.killConn c site).Books := by
  have conn := killConn_conn w c site
  have alive : ∀ d, ((w.killConn c site).heap d).live = true ↔ d ≠ c ∧ (w.heap d).live = true := by
    intro d
    change (w.killConn c site).session.live d ↔ _
    rcases session_killConn w c site with same | ⟨u, report⟩
    · rw [same, Session.live_kill]
      rfl
    · rw [report, Session.live_emit, Session.live_kill]
      rfl
  have nextConn : (w.killConn c site).nextConn = w.nextConn := by
    change (w.killConn c site).session.nextConn = _
    rcases session_killConn w c site with same | ⟨u, report⟩
    · rw [same, Session.nextConn_kill]
      rfl
    · rw [report]
      exact Session.nextConn_kill _ c site
  have packets := packets_killConn live site
  simp only [World.packets, Prod.mk.injEq] at packets
  have gone : (w.killConn c site).waiting c = 0 := if_neg fun still => ((alive c).mp still).1 rfl
  refine books.change (c := c) (books.fresh c live) nextConn (fun d up => ((alive d).mp up).2)
    (fun d away => ?_) ?_
  · have same : ((w.killConn c site).heap d).live = (w.heap d).live := by
      rw [Bool.eq_iff_iff, alive]
      simp [away]
    rw [World.waiting, World.waiting, same, conn]
  · rw [packets.1, packets.2.1, packets.2.2, gone, World.waiting_of_live live]
    grind

theorem World.Books.connKill (books : w.Books) (live : (w.heap c).live = true)
    {site : KillSite} {w' : World} (ran : jpolldConnKill c site w = .ok ⟨⟩ w') : w'.Books := by
  rcases jpolldConnKill_apply w c site with ⟨_, killed⟩ | ⟨_, u, _, stopped⟩
  · rw [ran] at killed
    cases killed
    exact books.kill live site
  · rw [ran] at stopped
    cases stopped

theorem World.Books.resetUser (books : w.Books) (u : UserPtr) : (w.resetUser u).Books := by
  have frame := resetUser_frame w u
  exact books.same ⟨fun c => by rw [frame.heap], fun c => by rw [frame.heap], frame.nextConn,
    packets_resetUser w u⟩

theorem World.Books.userKill (books : w.Books) {u : UserPtr}
    (there : ∀ c, (w.users u).conn = some c → (w.heap c).live = true) {site : KillSite} {w' : World}
    (ran : userConnKill u site w = .ok ⟨⟩ w') : w'.Books := by
  rw [userConnKill_apply, userConnReset_apply] at ran
  split at ran
  · cases ran
  cases ran
  refine World.Books.resetUser ?_ u
  unfold World.detachUser
  split
  · exact books
  · rename_i c owner
    have live := there c owner
    rw [touch_of_live live]
    have detached : (w.updConn c fun conn => { conn with user := none }).Books := by
      refine books.same ⟨fun d => ?_, fun d => ?_, rfl, rfl⟩
      · by_cases here : d = c
        · simp [World.updConn, here]
        · simp [World.updConn, here]
      · by_cases here : d = c
        · simp [World.updConn, here]
        · simp [World.updConn, here]
    exact detached.kill (by simp [World.updConn, live]) site

section Drain

variable {text : CString} {next : List JpolldWriteBuf}

theorem popPacket_books (text : CString) (next : List JpolldWriteBuf) (live : (w.heap c).live = true) :
    (∀ d, ((w.popPacket c text next).heap d) = if d = c then
      ⟨{ (w.heap c).conn with writer := next }, true⟩ else w.heap d) ∧
    (w.popPacket c text next).nextConn = w.nextConn ∧
    (w.popPacket c text next).packets = (w.globals.packetsCreated, w.globals.packetsSent + 1,
      w.globals.packetsCanceled) := by
  have touched : ∀ v : World, v.heap = w.heap → v.touch c = v := fun v same =>
    touch_of_live (by rw [same, live])
  have heap : ((((w.wrote c).emit (.sent c text)).updGlobals fun g =>
    { g with packetsSent := g.packetsSent + 1 }).heap) = w.heap := heap_wrote
  rw [World.popPacket, touched _ heap, wrote_of_live live]
  dsimp only
  split
  · refine ⟨fun d => ?_, rfl, rfl⟩
    by_cases here : d = c
    · simp [here, World.updPfd, World.updConn, World.updGlobals, World.emit, live]
    · simp [here, World.updPfd, World.updConn, World.updGlobals, World.emit]
  · refine ⟨fun d => ?_, rfl, rfl⟩
    by_cases here : d = c
    · simp [here, World.updConn, World.updGlobals, World.emit, live]
    · simp [here, World.updConn, World.updGlobals, World.emit]

theorem World.Books.pop (books : w.Books) (live : (w.heap c).live = true)
    (queue : (w.heap c).conn.writer = ⟨some text⟩ :: next) : (w.popPacket c text next).Books := by
  obtain ⟨heap, nextConn, packets⟩ := popPacket_books text next live
  simp only [World.packets, Prod.mk.injEq] at packets
  have rest : (w.popPacket c text next).waiting c = next.length := by
    rw [World.waiting, heap, if_pos rfl]
    rfl
  refine books.change (c := c) (books.fresh c live) nextConn (fun d up => ?_) (fun d away => ?_) ?_
  · rw [heap] at up
    split at up
    · subst d
      exact live
    · exact up
  · rw [World.waiting, World.waiting, heap, if_neg away]
  · rw [packets.1, packets.2.1, packets.2.2, rest, World.waiting_of_live live, queue,
      List.length_cons, BitVec.ofNat_add]
    grind

/-- The packet that is cut is still one packet. -/
theorem World.Books.advance (books : w.Books) (live : (w.heap c).live = true)
    (queue : (w.heap c).conn.writer = ⟨some text⟩ :: next) (k : Nat) :
    (w.advancePacket c text next k).Books := by
  have touched : ((w.wrote c).emit (.sent c (text.take k))).touch c =
      (w.wrote c).emit (.sent c (text.take k)) := touch_of_live (by
    change ((w.wrote c).heap c).live = true
    rw [heap_wrote, live])
  rw [World.advancePacket, touched, wrote_of_live live]
  refine books.change (c := c) (books.fresh c live) rfl (fun d up => ?_) (fun d away => ?_) ?_
  · by_cases here : d = c
    · exact here ▸ live
    · simpa [World.updConn, World.emit, here] using up
  · simp [World.waiting, World.updConn, World.emit, away]
  · simp [World.waiting, World.updConn, World.emit, live, queue]

/-- The books balance when the result leaves a state. -/
def Balanced : EStateM.Result Stop World Unit → Prop
  | .ok _ w' => w'.Books
  | .error _ _ => True

theorem balanced_jpolldConnKill (books : w.Books) (live : (w.heap c).live = true) (site : KillSite) :
    Balanced (jpolldConnKill c site w) := by
  cases ran : jpolldConnKill c site w with
  | ok _ w' => exact books.connKill live ran
  | error e w' => exact trivial

theorem SamePackets.wrote (live : (w.heap c).live = true) : SamePackets w (w.wrote c) := by
  rw [wrote_of_live live]
  exact ⟨fun _ => rfl, fun _ => rfl, rfl, rfl⟩

theorem SamePackets.expectKillOf (w : World) (owner : Option UserPtr) :
    SamePackets w (w.expectKillOf owner) := by
  cases owner with
  | none => exact ⟨fun _ => rfl, fun _ => rfl, rfl, rfl⟩
  | some u => exact ⟨fun _ => rfl, fun _ => rfl, rfl, rfl⟩

/-- A round of the loop begins with a live connection or with an empty queue. -/
theorem World.Books.drain (books : w.Books) (live : (w.heap c).live = true) {w' : World}
    (ran : jpolldConnWrite_ (some c) w = .ok ⟨⟩ w') : w'.Books := by
  have whole : Balanced (writeLoop ((w.heap c).conn.writer.length + 1) c (w.touch c)) := by
    refine writeLoop_rule (K := fun w => w.Books ∧ ((w.heap c).conn.writer ≠ [] →
      (w.heap c).live = true)) ?_ ?_ ?_ ?_ ?_ ?_ ?_ _ _ ⟨books.touch c, fun _ => ?_⟩ ?_
    · exact fun w ⟨books, _⟩ _ => books.touch c
    · exact fun _ _ _ _ => trivial
    · exact fun w ⟨books, live⟩ waits => books.same (.wrote (live waits))
    · exact fun w ⟨books, live⟩ waits => balanced_jpolldConnKill (books.same (.wrote (live waits)))
        (by rw [heap_wrote, live waits]) .writeFailed
    · exact fun w text next k ⟨books, live⟩ queue _ =>
        books.advance (live (by simp [queue])) queue k
    · exact fun w text next ⟨books, live⟩ queue => ⟨books.pop (live (by simp [queue])) queue,
        fun _ => popPacket_live.mpr (live (by simp [queue]))⟩
    · intro w text ⟨books, live⟩ queue
      have up := live (by simp [queue])
      have popped := (books.pop up queue).same (.expectKillOf _ (w.heap c).conn.user)
      have up' : (((w.popPacket c text []).expectKillOf (w.heap c).conn.user).heap c).live =
          true := by
        rw [(SamePackets.expectKillOf _ _).live]
        exact popPacket_live.mpr up
      cases ran : jpolldConnKill c .writeDrained
        ((w.popPacket c text []).expectKillOf (w.heap c).conn.user) with
      | error e w' => exact trivial
      | ok _ w' =>
        refine ⟨popped.connKill up' ran, fun waits => absurd ?_ waits⟩
        rcases jpolldConnKill_apply ((w.popPacket c text []).expectKillOf (w.heap c).conn.user) c
          .writeDrained with ⟨_, killed⟩ | ⟨_, u, _, stopped⟩
        · rw [ran] at killed
          cases killed
          rw [killConn_conn, (SamePackets.expectKillOf _ _).writer, popPacket_conn]
        · rw [ran] at stopped
          cases stopped
    · rw [heap_touch, live]
    · rw [heap_touch]
      exact Nat.lt_succ_self _
  rw [← jpolldConnWrite_apply, ran] at whole
  exact whole

end Drain

/-- A connection is born without packets. -/
theorem World.Books.connectUser (books : w.Books) (u : UserPtr) (loc : Nat) (next : List Nat)
    (sstate : SockState) (fd time : Int) (ssl : Bool) :
    (w.connectUser u loc next sstate fd time ssl).Books := by
  have heap : ∀ d, (w.connectUser u loc next sstate fd time ssl).heap d = if d = w.nextConn then
      ⟨⟨loc, .unknown, sstate, [], time, some u, [], ssl⟩, true⟩ else w.heap d := by
    intro d
    by_cases new : d = w.nextConn
    · simp [World.connectUser, World.createConn, World.updUser, World.updPfd, World.emit, new]
    · simp [World.connectUser, World.createConn, World.updUser, World.updPfd, World.emit, new]
  refine ⟨fun d alive => ?_, ?_⟩
  · by_cases new : d = w.nextConn
    · exact new ▸ Nat.lt_succ_self _
    · rw [heap, if_neg new] at alive
      exact Nat.lt_succ_of_lt (books.fresh d alive)
  · have born : (w.connectUser u loc next sstate fd time ssl).waiting w.nextConn = 0 := by
      rw [World.waiting, heap, if_pos rfl]
      rfl
    have older : ∑ d ∈ Finset.range w.nextConn,
        (w.connectUser u loc next sstate fd time ssl).waiting d = w.inQueues := by
      refine Finset.sum_congr rfl fun d old => ?_
      rw [World.waiting, World.waiting, heap, if_neg (Finset.mem_range.mp old).ne]
    have total : (w.connectUser u loc next sstate fd time ssl).inQueues = w.inQueues := by
      rw [← older, ← Nat.add_zero (∑ d ∈ _, _), ← born]
      exact Finset.sum_range_succ _ _
    rw [total]
    exact books.balance

/-- The greeting is the first packet of a connection. -/
theorem World.Books.connect (books : w.Books) {u : UserPtr} {ret : Int} {w' : World}
    (ran : userConnect u w = .ok ret w') : w'.Books := by
  rcases userConnect_apply w u with ⟨env, _, same⟩ | ⟨e, t, _, stopped⟩ |
    ⟨loc, next, sstate, fd, ssl, env, _, slot, taken⟩
  · rw [ran] at same
    cases same
    exact books.same ⟨fun _ => rfl, fun _ => rfl, rfl, rfl⟩
  · rw [ran] at stopped
    cases stopped
  · rw [ran] at taken
    cases taken
    obtain ⟨npfd, trace, refilled⟩ := refillSlots_kept w
    have ready : w.refillSlots.Books := by
      rw [refilled]
      exact books.same ⟨fun _ => rfl, fun _ => rfl, rfl, rfl⟩
    have born : ((w.refillSlots.connectUser u loc next sstate fd (w.env.clock 0) ssl).withEnv env).Books :=
      (ready.connectUser u loc next sstate fd (w.env.clock 0) ssl).same
        ⟨fun _ => rfl, fun _ => rfl, rfl, rfl⟩
    have live : (((w.refillSlots.connectUser u loc next sstate fd (w.env.clock 0) ssl).withEnv env).heap
        w.nextConn).live = true := by
      rw [refilled]
      simp [World.connectUser, World.createConn, World.withEnv, World.updUser, World.updPfd,
        World.emit]
    generalize (w.refillSlots.connectUser u loc next sstate fd (w.env.clock 0) ssl).withEnv env = v at *
    generalize some (apSnprintf 300 (streamOpen (w.users u).idServer)) = text
    have accepted : jpolldConnEnqueue (some w.nextConn) text true v =
        .ok 0 (v.acceptPacket w.nextConn text) := jpolldConnEnqueue_room (.inr rfl) text
    exact born.enqueue live accepted

end Operations

theorem PacketRun.books {w : World} (run : PacketRun w) : w.Books := by
  induction run with
  | init dead none =>
    obtain ⟨created, sent, canceled⟩ : _ ∧ _ ∧ _ := by simpa [World.packets] using none
    refine ⟨fun c alive => ?_, ?_⟩
    · rw [dead] at alive
      cases alive
    · simp [created, sent, canceled, World.inQueues, World.waiting, dead]
  | connect _ u env ran ih =>
    exact (ih.same ⟨fun _ => rfl, fun _ => rfl, rfl, rfl⟩ : (World.withEnv _ env).Books).connect ran
  | @writeStr w w' ret _ c there buf force ran ih =>
    cases c with
    | none =>
      cases ran
      exact ih
    | some c => exact ih.enqueue (there c rfl) ran
  | @write w w' ret _ c there x force ran ih =>
    cases c with
    | none =>
      cases x with
      | none =>
        cases ran
        exact ih
      | some x =>
        cases ran
        exact ih
    | some c =>
      cases x with
      | none => cases ran
      | some x => exact ih.enqueue (there c rfl) ran
  | @drain w w' _ c there env ran ih =>
    have started : (w.withEnv env).Books := ih.same ⟨fun _ => rfl, fun _ => rfl, rfl, rfl⟩
    cases c with
    | none =>
      cases ran
      exact started
    | some c => exact started.drain (there c rfl) ran
  | kill _ c there site ran ih => exact ih.connKill there ran
  | killUser _ u there site ran ih => exact ih.userKill there ran
  | other _ same ih => exact ih.same same

/-- The figure that `stat_printf` prints for the packets in queues. -/
def World.inQueuesFigure (w : World) : CInt :=
  w.globals.packetsCreated - (w.globals.packetsSent + w.globals.packetsCanceled)

/-- A packet that was created was sent, was written off or waits on exactly one live
connection, so the figure is right as long as an `int` can hold it. -/
theorem packets_conserved {w : World} (run : PacketRun w) :
    ∃ conns : Finset ConnPtr, (∀ c, c ∈ conns ↔ (w.heap c).live = true) ∧
      w.globals.packetsCreated = w.globals.packetsSent + w.globals.packetsCanceled +
        BitVec.ofNat 32 (∑ c ∈ conns, (w.heap c).conn.writer.length) ∧
      (∑ c ∈ conns, (w.heap c).conn.writer.length < 2 ^ 31 →
        w.inQueuesFigure.toInt = ∑ c ∈ conns, (w.heap c).conn.writer.length) := by
  have books := run.books
  refine ⟨(Finset.range w.nextConn).filter fun c => (w.heap c).live = true, fun c => ?_, ?_⟩
  · rw [Finset.mem_filter, Finset.mem_range]
    exact ⟨fun both => both.2, fun live => ⟨books.fresh c live, live⟩⟩
  have total : ∑ c ∈ (Finset.range w.nextConn).filter (fun c => (w.heap c).live = true),
      (w.heap c).conn.writer.length = w.inQueues := by
    rw [Finset.sum_filter]
    rfl
  rw [total]
  have balance := books.balance
  refine ⟨balance, fun small => ?_⟩
  have figure : w.inQueuesFigure = BitVec.ofNat 32 w.inQueues := by
    rw [World.inQueuesFigure, balance]
    grind
  rw [figure, BitVec.toInt_eq_toNat_cond, BitVec.toNat_ofNat]
  omega

/-- Writes that are forced find room however many packets wait. -/
theorem packets_pile_up (n : Nat) : ∃ w : World, PacketRun w ∧ (w.heap 0).live = true ∧
    w.inQueuesFigure = BitVec.ofNat 32 (n + 1) := by
  induction n with
  | zero =>
    have first : PacketRun (plainWorld []) := .init (fun _ => rfl) rfl
    exact ⟨_, first.connect 0 plainEnv (run_of_returned (a := 0) (by decide +kernel)),
      by decide +kernel, by decide +kernel⟩
  | succ n ih =>
    obtain ⟨w, run, live, figure⟩ := ih
    let text : Option CString := some (cstr "ping")
    have ran : jpolldConnWriteStr (some 0) text true w = .ok 0 (w.acceptPacket 0 text) :=
      jpolldConnEnqueue_room (.inr rfl) text
    refine ⟨_, run.writeStr (some 0) (fun d same => ?_) text true ran, ?_, ?_⟩
    · cases same
      exact live
    · rw [acceptPacket_of_live live]
      simp
    · have more : (w.acceptPacket 0 text).inQueuesFigure = w.inQueuesFigure + 1 := by
        rw [acceptPacket_of_live live]
        simp only [World.inQueuesFigure]
        grind
      rw [more, figure]
      exact (BitVec.ofNat_add (n + 1) 1).symm

/-- With 2^31 packets in a queue the figure is negative. -/
theorem packets_pile_up_negative : ¬∀ w, PacketRun w → 0 ≤ w.inQueuesFigure.toInt := by
  intro claim
  obtain ⟨w, run, _, figure⟩ := packets_pile_up (2 ^ 31 - 1)
  have positive := claim w run
  rw [figure] at positive
  exact absurd positive (by decide)

/-- The greeting is sent, one packet waits, and one that is for nobody is not counted. -/
theorem packets_conserved_greeted : ∃ (w : World) (conns : Finset ConnPtr),
    w.globals.packetsCreated = 2 ∧ w.globals.packetsSent = 1 ∧
      (∀ c, c ∈ conns ↔ (w.heap c).live = true) ∧
      w.globals.packetsCreated = w.globals.packetsSent + w.globals.packetsCanceled +
        BitVec.ofNat 32 (∑ c ∈ conns, (w.heap c).conn.writer.length) := by
  have first : PacketRun (plainWorld []) := .init (fun _ => rfl) rfl
  have second := first.connect 0 plainEnv (run_of_returned (a := 0) (by decide +kernel))
  have third := second.drain (some 0) (fun d same => by cases same; decide +kernel) plainEnv
    (run_of_returned (a := ()) (by decide +kernel))
  have fourth := third.writeStr (some 0) (fun d same => by cases same; decide +kernel)
    (some (cstr "abc")) false (run_of_returned (a := 0) (by decide +kernel))
  have fifth := fourth.writeStr none (fun d same => by cases same) (some (cstr "abc")) false
    (run_of_returned (a := -1) (by decide +kernel))
  obtain ⟨conns, live, balance, _⟩ := packets_conserved fifth
  exact ⟨_, conns, by decide +kernel, by decide +kernel, live, balance⟩

end JabSimul
