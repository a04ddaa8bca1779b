import JabSimul.ThreadRefinement
import Mathlib.Data.Finset.Card
import Mathlib.Order.Interval.Finset.Nat

/-!
The table of poll slots under any order of connects and kills. Positions are
made in batches from the high-water mark on, which a kill may lower; a position
that was made once is afterwards either free or that of one live connection.
-/
namespace JabSimul

open Simulation SlotPool

/-- The states that calls of `user_connect` and `jpolld_conn_kill` reach from
`thread_init`, whoever the users are. -/
inductive SlotRun : World → Prop
  | init {w : World} (thread : w.thread = threadInit) (dead : ∀ c, (w.heap c).live = false)
      (created : w.globals.jpolldConnCreateCount = 0) (killed : w.globals.jpolldConnKillCount = 0)
      (trace : w.trace = []) : SlotRun w
  | connect {w w' : World} {ret : Int} (before : SlotRun w) (u : UserPtr) (env : Env)
      (room : w.thread.npfd ≠ [] ∨ w.thread.mpfd < maxPfds)
      (ran : userConnect u (w.withEnv env) = .ok ret w') : SlotRun w'
  | kill {w w' : World} (before : SlotRun w) (c : ConnPtr) (site : KillSite) (env : Env)
      (live : (w.heap c).live = true) (ran : jpolldConnKill c site (w.withEnv env) = .ok ⟨⟩ w') :
      SlotRun w'

/-- The positions that one event hands to the free list. -/
def Ev.positions : Ev → List Nat
  | .slotsAdded positions => positions
  | _ => []

/-- All positions that were ever handed to the free list. -/
def handed (trace : List Ev) : List Nat := threadInit.npfd ++ trace.flatMap Ev.positions

namespace Session

/-- What is known of the slots after any calls. -/
structure Slots (s : Session) (issued : Nat) : Prop where
  inv : SlotInv issued s
  handed : ∀ p, p ∈ handed s.trace ↔ 2 ≤ p ∧ p ≤ issued
  counts : ∃ conns : Finset ConnPtr, (∀ c, c ∈ conns ↔ s.live c) ∧
    s.created - s.killed = BitVec.ofNat 32 conns.card

variable {s : Session} {issued : Nat}

theorem slots_initial (thread : s.thread = threadInit) (dead : ∀ c, ¬s.live c)
    (created : s.created = 0) (killed : s.killed = 0) (trace : s.trace = []) : s.Slots 11 := by
  refine ⟨slotInv_initial thread dead, fun p => ?_, ∅, fun c => ?_, ?_⟩
  · rw [JabSimul.handed, trace, npfd_threadInit]
    simp only [List.flatMap_nil, List.append_nil, List.mem_range'_1]
    omega
  · simp [dead c]
  · rw [created, killed]
    rfl

theorem Slots.of_linked {t : Session} (slots : s.Slots issued) (linked : Linked s t)
    (same : JabSimul.handed t.trace = JabSimul.handed s.trace) : t.Slots issued := by
  obtain ⟨conns, live, count⟩ := slots.counts
  refine ⟨slots.inv.of_linked linked, fun p => same ▸ slots.handed p, conns, fun c => ?_, ?_⟩
  · rw [linked.live, live]
  · rw [linked.counts.1, linked.counts.2, count]

theorem Slots.emit (slots : s.Slots issued) {e : Ev} (none : e.positions = []) :
    (s.emit e).Slots issued :=
  slots.of_linked ((Linked.refl s).emit e) (by simp [JabSimul.handed, Session.emit, none])

theorem Slots.accept (slots : s.Slots issued) (c : ConnPtr) (text : Option CString) :
    (s.accept c text).Slots issued :=
  slots.of_linked ((Linked.refl s).accept c text) (by
    simp [JabSimul.handed, Session.accept, Session.emit, Session.updPfd, Session.updConn,
      Ev.positions])

/-- A batch is made when the free list is empty, and follows what was made before. -/
theorem Slots.refill (slots : s.Slots issued) (empty : s.thread.npfd = []) :
    ∃ more, s.refill.Slots (issued + more) := by
  have high : s.thread.mpfd = issued := slots.inv.valid.high_eq empty
  have start := slots.inv.valid.nonempty
  have bound := slots.inv.bound
  refine ⟨if maxPfds - s.thread.mpfd > 10 then 10 else maxPfds - s.thread.mpfd, ?_, fun p => ?_,
    slots.counts⟩
  · exact slots.inv.refill empty
  · have batch : p ∈ JabSimul.handed s.refill.trace ↔
        p ∈ (addConns s.thread).npfd ∨ p ∈ JabSimul.handed s.trace := by
      simp only [JabSimul.handed, Session.refill, Session.emit, List.flatMap_cons, Ev.positions,
        List.mem_append]
      tauto
    rw [batch, slots.handed p, addConns, empty, List.append_nil, List.mem_range'_1, high]
    omega

theorem Slots.connect (slots : s.Slots issued) {u : UserPtr} {loc : Nat} {next : List Nat}
    (sstate : SockState) (fd time : Int) (ssl : Bool) (slot : s.thread.npfd = loc :: next) :
    (s.connect u loc next sstate fd time ssl).Slots issued := by
  obtain ⟨conns, live, count⟩ := slots.counts
  have fresh : s.nextConn ∉ conns := fun member =>
    Nat.lt_irrefl _ (slots.inv.fresh _ ((live _).mp member))
  refine ⟨slots.inv.connect sstate fd time ssl slot, fun p => ?_, insert s.nextConn conns,
    fun c => ?_, ?_⟩
  · rw [← slots.handed p]
    simp [JabSimul.handed, Session.connect, Ev.positions]
  · by_cases new : c = s.nextConn
    · simp [new, Session.connect, Session.live]
    · rw [Finset.mem_insert, live]
      simp [new, Session.connect, Session.live]
  · rw [Finset.card_insert_of_notMem fresh]
    change s.created + 1 - s.killed = _
    bv_omega

theorem Slots.kill (slots : s.Slots issued) {c : ConnPtr} (alive : s.live c) (site : KillSite) :
    (s.kill c site).Slots issued := by
  obtain ⟨conns, live, count⟩ := slots.counts
  have member : c ∈ conns := (live c).mpr alive
  refine ⟨slots.inv.kill alive site, fun p => ?_, conns.erase c, fun d => ?_, ?_⟩
  · rw [← slots.handed p]
    simp [JabSimul.handed, Ev.positions]
  · rw [Finset.mem_erase, live, live_kill]
  · have some' : 0 < conns.card := Finset.card_pos.mpr ⟨c, member⟩
    rw [Finset.card_erase_of_mem member, created_kill, killed_kill]
    bv_omega

/-- A slot is the home of at most one live connection. -/
theorem Slots.unique (slots : s.Slots issued) {c d : ConnPtr} (alive : s.live c) (alive' : s.live d)
    (same : (s.conn c).loc = (s.conn d).loc) : c = d := by
  have home := (slots.inv.home (s.conn c).loc c).mpr ⟨alive, rfl⟩
  rw [(slots.inv.home (s.conn c).loc d).mpr ⟨alive', same.symm⟩] at home
  exact (Option.some.inj home).symm

/-- The live connections are fewer than the slots. -/
theorem Slots.card_lt (slots : s.Slots issued) {conns : Finset ConnPtr}
    (live : ∀ c, c ∈ conns ↔ s.live c) : conns.card ≤ maxPfds := by
  have locs : ∀ c ∈ conns, (s.conn c).loc ∈ Finset.Icc 2 maxPfds := by
    intro c member
    have home := (slots.inv.home (s.conn c).loc c).mpr ⟨(live c).mp member, rfl⟩
    have bounds := slots.inv.valid.bounds_of_owned (i := (s.conn c).loc)
      (by simp [JpolldThread.pool, home])
    have bound := slots.inv.bound
    rw [Finset.mem_Icc]
    omega
  have injective : Set.InjOn (fun c => (s.conn c).loc) conns := fun c member d member' same =>
    slots.unique ((live c).mp member) ((live d).mp member') same
  have small := Finset.card_le_card_of_injOn _ locs injective
  rw [Nat.card_Icc] at small
  omega

end Session

theorem SlotRun.slots {w : World} (run : SlotRun w) : ∃ issued, w.session.Slots issued := by
  induction run with
  | init thread dead created killed trace =>
    refine ⟨11, Session.slots_initial thread (fun c => ?_) created killed trace⟩
    rw [live_session, dead c]
    simp
  | @connect w w' ret before u env room ran ih =>
    obtain ⟨issued, slots⟩ := ih
    rcases userConnect_apply (w.withEnv env) u with ⟨env', _, same⟩ | ⟨e, t, _, stopped⟩ |
      ⟨loc, next, sstate, fd, ssl, env', _, slot, taken⟩
    · rw [ran] at same
      cases same
      exact ⟨issued, slots⟩
    · rw [ran] at stopped
      cases stopped
    · have ready : ∃ issued, (w.withEnv env).refillSlots.session.Slots issued := by
        rw [session_refillSlots]
        split
        · obtain ⟨more, slots⟩ := slots.refill ‹_›
          exact ⟨issued + more, slots⟩
        · exact ⟨issued, slots⟩
      obtain ⟨issued, slots⟩ := ready
      rw [ran] at taken
      cases taken
      refine ⟨issued, ?_⟩
      rw [session_acceptPacket, session_withEnv, session_connectUser]
      exact (slots.connect sstate fd _ ssl slot).accept _ _
  | @kill w w' before c site env live ran ih =>
    obtain ⟨issued, slots⟩ := ih
    rcases jpolldConnKill_apply (w.withEnv env) c site with ⟨_, killed⟩ | ⟨_, u, _, stopped⟩
    · rw [ran] at killed
      cases killed
      have dead := slots.kill (c := c) live site
      rcases session_killConn (w.withEnv env) c site with same | ⟨u, report⟩
      · exact ⟨issued, same ▸ dead⟩
      · exact ⟨issued, report ▸ dead.emit rfl⟩
    · rw [ran] at stopped
      cases stopped

/-- Connects and kills in any order neither leak a slot nor give it out twice,
and `poll` watches exactly the slots of live connections. -/
theorem slots_accounted {w : World} (run : SlotRun w) :
    w.thread.npfd.Nodup ∧
    (∀ p ∈ w.thread.npfd, w.thread.conns p = none ∧
      (p ≤ w.thread.mpfd → (w.thread.pfds p).fd = -1)) ∧
    (∀ c d, (w.heap c).live = true → (w.heap d).live = true →
      (w.heap c).conn.loc = (w.heap d).conn.loc → c = d) ∧
    (∀ c, (w.heap c).live = true → w.thread.conns (w.heap c).conn.loc = some c) ∧
    (∀ p ∈ handed w.trace,
      w.thread.npfd.count p = 1 ∧ (∀ c, (w.heap c).live = true → (w.heap c).conn.loc ≠ p) ∨
      w.thread.npfd.count p = 0 ∧ ∃! c, (w.heap c).live = true ∧ (w.heap c).conn.loc = p) ∧
    (∀ c, (w.heap c).live = true → 2 ≤ (w.heap c).conn.loc ∧ (w.heap c).conn.loc ≤ w.thread.mpfd) ∧
    w.thread.mpfd ≤ maxPfds ∧
    ∃ conns : Finset ConnPtr, (∀ c, c ∈ conns ↔ (w.heap c).live = true) ∧
      (w.globals.jpolldConnCreateCount - w.globals.jpolldConnKillCount).toInt = conns.card := by
  obtain ⟨issued, slots⟩ := run.slots
  have valid := slots.inv.valid
  have home : ∀ c, (w.heap c).live = true → w.thread.conns (w.heap c).conn.loc = some c :=
    fun c live => (slots.inv.home _ c).mpr ⟨live, rfl⟩
  refine ⟨valid.nodup, fun p free => ?_, fun c d live live' => slots.unique live live', home,
    fun p member => ?_, fun c live => ?_, ?_, ?_⟩
  · have unowned : w.thread.conns p = none := valid.apart p free
    exact ⟨unowned, fun low => slots.inv.idle p (valid.bounds_of_free free).1 unowned (.inr low)⟩
  · have bounds := (slots.handed p).mp member
    have counted := valid.count_eq_one bounds
    change w.thread.npfd.count p + (if (w.thread.conns p).isSome then 1 else 0) = 1 at counted
    cases owner : w.thread.conns p with
    | none =>
      rw [owner] at counted
      refine .inl ⟨counted, fun c live same => ?_⟩
      have taken := home c live
      rw [same, owner] at taken
      cases taken
    | some c =>
      rw [owner] at counted
      have here := (slots.inv.home p c).mp owner
      refine .inr ⟨by simpa using counted, c, here, fun d there => ?_⟩
      exact slots.unique there.1 here.1 (there.2.trans here.2.symm)
  · have owned : (w.thread.pool.owner (w.heap c).conn.loc).isSome = true := by
      simp [JpolldThread.pool, home c live]
    exact ⟨(valid.bounds_of_owned owned).1, valid.below _ owned⟩
  · exact Nat.le_trans valid.high_le slots.inv.bound
  · obtain ⟨conns, live, count⟩ := slots.counts
    refine ⟨conns, live, ?_⟩
    change (w.session.created - w.session.killed).toInt = _
    have small := slots.card_lt live
    unfold maxPfds at small
    rw [count, BitVec.toInt_eq_toNat_cond, BitVec.toNat_ofNat]
    omega

/-- A connect and a kill leave the ten first slots free. -/
theorem slots_accounted_after_kill :
    ∃ w : World, w.thread.npfd = List.range' 2 10 ∧ w.thread.npfd.Nodup ∧
      w.thread.mpfd ≤ maxPfds := by
  have first : SlotRun (plainWorld []) := .init rfl (fun _ => rfl) rfl rfl rfl
  have second := first.connect 0 plainEnv (.inl (by decide))
    (run_of_returned (a := 0) (by decide +kernel))
  have third := second.kill 0 .outside plainEnv (by decide +kernel)
    (run_of_returned (a := ()) (by decide +kernel))
  have accounted := slots_accounted third
  exact ⟨_, by decide +kernel, accounted.1, accounted.2.2.2.2.2.2.1⟩

end JabSimul
