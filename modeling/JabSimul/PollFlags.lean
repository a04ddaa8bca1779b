import JabSimul.Zombies
import JabSimul.WriteQueue

/-!
What `poll` is asked for. Room is asked for exactly while packets wait, and nothing
is asked for a slot that is free, so the exclusive or that ends a drained queue
always finds the bit set.
-/
namespace JabSimul

open Simulation Relation

/-- The states that the program reaches when connects, writes, drains and kills may
happen at any time besides. -/
inductive ConnRun : World → Prop
  | init {w} (fresh : w.Initial) : ConnRun w
  | step {w w'} (before : ConnRun w) (i : Input) (env : Env)
      (ran : step i (w.withEnv env) = .ok () w') : ConnRun w'
  | connect {w w' ret} (before : ConnRun w) (u : UserPtr) (idle : (w.users u).conn = none)
      (env : Env) (ran : userConnect u (w.withEnv env) = .ok ret w') : ConnRun w'
  | writeStr {w w' ret} (before : ConnRun w) (c : Option ConnPtr)
      (there : ∀ d, c = some d → (w.heap d).live = true) (buf : Option CString) (force : Bool)
      (ran : jpolldConnWriteStr c buf force w = .ok ret w') : ConnRun w'
  | write {w w' ret} (before : ConnRun w) (c : Option ConnPtr)
      (there : ∀ d, c = some d → (w.heap d).live = true) (x : Option XmlNode) (force : Bool)
      (ran : jpolldConnWrite c x force w = .ok ret w') : ConnRun w'
  | drain {w w'} (before : ConnRun w) (c : ConnPtr) (there : (w.heap c).live = true) (env : Env)
      (ran : jpolldConnWrite_ (some c) (w.withEnv env) = .ok ⟨⟩ w') : ConnRun w'
  | kill {w w'} (before : ConnRun w) (c : ConnPtr) (there : (w.heap c).live = true)
      (ran : jpolldConnKill c .outside w = .ok ⟨⟩ w') : ConnRun w'
  | killUser {w w'} (before : ConnRun w) (u : UserPtr)
      (ran : userConnKill u .outside w = .ok ⟨⟩ w') : ConnRun w'

theorem Reachable.connRun {w : World} (reach : Reachable w) : ConnRun w := by
  induction reach with
  | init fresh => exact .init fresh
  | step _ i env ran ih => exact ih.step i env ran

/-- A simulated operation takes the machine further. -/
theorem steps_of_sim {α : Type} {P : World → Prop} {m : M α} {Q : α → World → Prop}
    (sim : machine.Sim P m Q) {w w' : World} {a : α} (sound : w.session.Sound) (pre : P w)
    (ran : m w = .ok a w') : ReflTransGen Session.Act w.session w'.session := by
  have outcome := sim w sound pre
  rw [ran] at outcome
  exact outcome.1

/-- What holds at first and is kept by every step of the machine. -/
theorem ConnRun.induct {w : World} (run : ConnRun w) {K : Session → Prop}
    (first : ∀ s : Session, s.Initial → K s)
    (keeps : ∀ {s t : Session}, s.Sound → Session.Act s t → K s → K t) :
    w.session.Sound ∧ K w.session := by
  have onward : ∀ {w w' : World}, w.session.Sound ∧ K w.session →
      (w.session.Sound → ReflTransGen Session.Act w.session w'.session) →
      w'.session.Sound ∧ K w'.session := fun ⟨sound, holds⟩ steps =>
    ⟨Abstraction.inv_steps (A := machine) sound (steps sound),
      Abstraction.steps_keep (A := machine) keeps sound (steps sound) holds⟩
  induction run with
  | init fresh => exact ⟨fresh.session.sound, first _ fresh.session⟩
  | step _ i env ran ih =>
    exact onward ih fun sound => steps_of_sim (w := World.withEnv _ env) (safe_step i) sound trivial
      ran
  | connect _ u idle env ran ih =>
    exact onward ih fun sound => steps_of_sim (w := World.withEnv _ env) (sim_userConnect u) sound
      idle ran
  | writeStr _ c there buf force ran ih =>
    exact onward ih fun sound => steps_of_sim (sim_of_calm (sim_jpolldConnEnqueue c buf force))
      sound there ran
  | write _ c there x force ran ih =>
    exact onward ih fun sound => steps_of_sim (sim_of_calm (sim_jpolldConnWrite c x force))
      sound there ran
  | drain _ c there env ran ih =>
    exact onward ih fun sound => steps_of_sim (w := World.withEnv _ env) (sim_jpolldConnWrite_ c)
      sound there ran
  | kill _ c there ran ih =>
    exact onward ih fun sound => steps_of_sim (sim_jpolldConnKill c (by simp)) sound there ran
  | killUser _ u ran ih =>
    exact onward ih fun sound => steps_of_sim (safe_userConnKill u (by simp)) sound trivial ran

namespace Session

variable {s t : Session} {c d : ConnPtr}

/-- Nothing is asked of `poll` for a slot without a connection. -/
def Quiet (s : Session) : Prop :=
  ∀ p, s.thread.conns p = none → (s.thread.pfds p).pollin = false ∧ (s.thread.pfds p).pollout = false

theorem Calm.conns (step : Calm s t) : t.thread.conns = s.thread.conns := by
  rcases step.linked with linked | ⟨_, rfl⟩
  · exact congrArg SlotPool.Pool.owner linked.pool
  · rfl

/-- The slot of a live connection is not free. -/
theorem Sound.taken (sound : s.Sound) (live : s.live c) {p : Nat} (free : s.thread.conns p = none) :
    p ≠ (s.conn c).loc := by
  rintro rfl
  obtain ⟨issued, slots⟩ := sound.slots
  rw [(slots.home _ c).mpr ⟨live, rfl⟩] at free
  cases free

theorem pfds_accept (live : s.live c) (sound : s.Sound) (text : Option CString) {p : Nat}
    (free : s.thread.conns p = none) : (s.accept c text).thread.pfds p = s.thread.pfds p :=
  Function.update_of_ne (sound.taken live free) _ _

theorem pfds_pop (live : s.live c) (sound : s.Sound) (text : CString) (next : List JpolldWriteBuf)
    {p : Nat} (free : s.thread.conns p = none) :
    (s.pop c text next).thread.pfds p = s.thread.pfds p := by
  unfold pop
  dsimp only
  split
  · exact Function.update_of_ne (sound.taken live free) _ _
  · rfl

/-- A step that kills nobody and connects nobody leaves the flags of free slots. -/
theorem Calm.pfds (sound : s.Sound) (step : Calm s t) {p : Nat} (free : s.thread.conns p = none) :
    t.thread.pfds p = s.thread.pfds p := by
  cases step with
  | write text live => exact pfds_accept live sound text free
  | @ask c text es live _ _ _ =>
    rw [Session.ask, thread_registers]
    exact pfds_accept live sound (some text) free
  | pop live _ _ => exact pfds_pop live sound _ _ free
  | @login u c text time owner _ _ _ =>
    exact pfds_accept (sound.live_of_conn owner) sound (some text) free
  | @rosterAsk u c text time callback owner _ _ _ =>
    have loc := ((Linked.refl s).rosterRegister u c ⟨jcomId idBufSize (s.users u).tmpid, time,
      callback⟩).loc c
    refine Function.update_of_ne ?_ _ _
    rw [loc]
    exact sound.taken (sound.live_of_conn owner) free
  | _ => rfl

theorem Quiet.of_release (quiet : Quiet s) (c : ConnPtr) (thread : t.thread = (s.release c).thread) :
    Quiet t := by
  intro p free
  rw [thread] at free ⊢
  by_cases here : p = (s.conn c).loc
  · simp [release, here]
  · simp only [release, Function.update_of_ne here] at free ⊢
    exact quiet p free

theorem Quiet.calm (sound : s.Sound) (step : Calm s t) (quiet : Quiet s) : Quiet t := by
  intro p free
  rw [step.conns] at free
  rw [step.pfds sound free]
  exact quiet p free

theorem Quiet.step (sound : s.Sound) (step : Act s t) (quiet : Quiet s) : Quiet t := by
  cases step with
  | calm step => exact quiet.calm sound step
  | @connect u loc next sstate fd time ssl idle slot =>
    intro p free
    by_cases here : p = loc
    · simp [Session.connect, here] at free
    · simp only [Session.connect, Function.update_of_ne here] at free ⊢
      exact quiet p free
  | @kill c site live _ => exact quiet.of_release c (thread_kill s c site)
  | @drained c text live queue closing =>
    have popped : Quiet (s.pop c text []) := by
      have conns : (s.pop c text []).thread.conns = s.thread.conns :=
        congrArg SlotPool.Pool.owner ((Linked.refl s).pop c text []).pool
      intro p free
      rw [conns] at free
      rw [pfds_pop live sound _ _ free]
      exact quiet p free
    exact popped.of_release c (thread_kill _ c .writeDrained)
  | @userKill u c site owner _ =>
    have detached : Quiet (s.updConn c fun conn => { conn with user := none }) := quiet
    exact detached.of_release c (thread_kill _ c site)
  | userReset idle => exact quiet

theorem Initial.quiet (initial : s.Initial) : Quiet s := by
  intro p _
  rw [initial.thread, threadInit]
  dsimp only
  split <;> exact ⟨rfl, rfl⟩

end Session

section Drain

variable {w : World} {c : ConnPtr}

/-- Whether `poll` is asked for room at a position. -/
def World.asks (w : World) (p : Nat) : Bool := (w.thread.pfds p).pollout

/-- The bits that are set in the state of a result were set in `w`. -/
def Clears (w : World) (r : EStateM.Result Stop World Unit) : Prop :=
  ∀ p, World.asks (match r with | .ok _ w' => w' | .error _ w' => w') p = true → w.asks p = true

theorem thread_stripConn (site : KillSite) :
    (w.stripConn c site).thread = (w.releaseConn c).thread := by
  have released : ((w.emit (.killed c site)).releaseConn c).thread = (w.releaseConn c).thread := rfl
  rw [← released, World.stripConn]
  cases (w.heap c).conn.user with
  | none => exact thread_touch _ c
  | some u => exact (resetUser_frame _ u).thread.trans (thread_touch _ c)

theorem asks_releaseConn (p : Nat) :
    (w.releaseConn c).asks p = true → w.asks p = true := by
  intro asked
  unfold World.asks World.releaseConn at *
  by_cases here : p = (w.heap c).conn.loc
  · simp [here] at asked
  · simpa [here] using asked

theorem clears_jpolldConnKill (site : KillSite) : Clears w (jpolldConnKill c site w) := by
  intro p
  rcases jpolldConnKill_apply w c site with ⟨_, run⟩ | ⟨_, u, _, run⟩
  · rw [run]
    change World.asks (w.stripConn c site) p = true → _
    rw [World.asks, thread_stripConn]
    exact asks_releaseConn p
  · rw [run]
    change World.asks (w.stripConn c site) p = true → _
    rw [World.asks, thread_stripConn]
    exact asks_releaseConn p

theorem thread_wrote : (w.wrote c).thread = w.thread :=
  (thread_touch _ c).trans (thread_touch _ c)

/-- A packet that is not the last one leaves the bits, the last one clears its own. -/
theorem asks_popPacket (armed : w.asks (w.heap c).conn.loc = true) (text : CString)
    (next : List JpolldWriteBuf) (p : Nat) : (w.popPacket c text next).asks p =
      if next = [] ∧ p = (w.heap c).conn.loc then false else w.asks p := by
  unfold World.asks World.popPacket at *
  by_cases last : next = []
  · by_cases here : p = (w.heap c).conn.loc
    · simp [last, here, World.updPfd, World.updConn, World.updGlobals, World.emit, thread_wrote,
        armed]
    · simp [last, here, World.updPfd, World.updConn, World.updGlobals, World.emit, thread_wrote]
  · simp [last, World.updConn, World.updGlobals, World.emit, thread_wrote]

/-- A drain that begins with the bit set for a queue that is not empty clears bits
and sets none. -/
theorem clears_jpolldConnWrite_ (armed : (w.heap c).conn.writer ≠ [] →
    w.asks (w.heap c).conn.loc = true) : Clears w (jpolldConnWrite_ (some c) w) := by
  rw [jpolldConnWrite_apply]
  refine writeLoop_rule (K := fun v => (∀ p, v.asks p = true → w.asks p = true) ∧
    ((v.heap c).conn.writer ≠ [] → v.asks (v.heap c).conn.loc = true)) ?_ ?_ ?_ ?_ ?_ ?_ ?_ _ _
    ⟨fun p asked => ?_, fun waits => ?_⟩ ?_
  · intro v ⟨fewer, _⟩ _ p asked
    exact fewer p (by simpa [World.asks] using asked)
  · intro v next ⟨fewer, _⟩ _ p asked
    exact fewer p (by simpa [World.asks] using asked)
  · intro v ⟨fewer, _⟩ _ p asked
    exact fewer p (by simpa [World.asks, thread_wrote] using asked)
  · intro v ⟨fewer, _⟩ _ p asked
    refine fewer p ?_
    have still := clears_jpolldConnKill .writeFailed p asked
    rwa [World.asks, thread_wrote] at still
  · intro v text next k ⟨fewer, _⟩ _ _ p asked
    refine fewer p ?_
    simpa [World.asks, World.advancePacket, World.updConn, World.emit, thread_wrote] using asked
  · intro v text next ⟨fewer, armed⟩ queue
    have asks := asks_popPacket (armed (by simp [queue])) text next
    refine ⟨fun p asked => ?_, fun waits => ?_⟩
    · rw [asks] at asked
      split at asked
      · cases asked
      · exact fewer p asked
    · rw [popPacket_conn] at waits ⊢
      rw [asks, if_neg (by simp [show next ≠ [] from waits])]
      exact armed (by simp [queue])
  · intro v text ⟨fewer, armed⟩ queue
    have asks := asks_popPacket (armed (by simp [queue])) text []
    generalize owned : (v.heap c).conn.user = owner
    have thread : ((v.popPacket c text []).expectKillOf owner).thread =
        (v.popPacket c text []).thread := by cases owner <;> rfl
    have conn : (((v.popPacket c text []).expectKillOf owner).heap c).conn.writer = [] := by
      have heap : ((v.popPacket c text []).expectKillOf owner).heap =
          (v.popPacket c text []).heap := by cases owner <;> rfl
      rw [heap, popPacket_conn]
    have kept : ∀ p, ((v.popPacket c text []).expectKillOf owner).asks p = true →
        w.asks p = true := by
      intro p asked
      rw [World.asks, thread] at asked
      change (v.popPacket c text []).asks p = true at asked
      rw [asks] at asked
      split at asked
      · cases asked
      · exact fewer p asked
    have killed := clears_jpolldConnKill (c := c)
      (w := (v.popPacket c text []).expectKillOf owner) .writeDrained
    rcases jpolldConnKill_apply ((v.popPacket c text []).expectKillOf owner) c
      .writeDrained with ⟨_, run⟩ | ⟨_, u, _, run⟩
    · rw [run] at killed ⊢
      refine ⟨fun p asked => kept p (killed p asked), fun waits => absurd ?_ waits⟩
      rw [killConn_conn, conn]
    · rw [run] at killed ⊢
      exact fun p asked => kept p (killed p asked)
  · simpa [World.asks] using asked
  · rw [heap_touch] at waits ⊢
    simpa [World.asks] using armed waits
  · rw [heap_touch]
    exact Nat.lt_succ_self _

end Drain

/-- Room is asked for exactly while packets wait, nothing is asked for a free slot,
and a drain never sets the bit that it is to clear. -/
theorem pollout_tracks_queue {w : World} (run : ConnRun w) :
    (∀ c, (w.heap c).live = true →
      ((w.thread.pfds (w.heap c).conn.loc).pollout = true ↔ (w.heap c).conn.writer ≠ [])) ∧
    (∀ p, w.thread.conns p = none →
      (w.thread.pfds p).pollin = false ∧ (w.thread.pfds p).pollout = false) ∧
    ∀ c env, (w.heap c).live = true → ∀ p,
      ((after (jpolldConnWrite_ (some c)) (w.withEnv env)).thread.pfds p).pollout = true →
        (w.thread.pfds p).pollout = true := by
  obtain ⟨_, armed⟩ := run.induct (K := Session.Armed) (fun _ initial => initial.armed)
    fun sound step armed => armed.step sound step
  obtain ⟨_, quiet⟩ := run.induct (K := Session.Quiet) (fun _ initial => initial.quiet)
    fun sound step quiet => quiet.step sound step
  refine ⟨armed, quiet, fun c env live p => ?_⟩
  have clears := clears_jpolldConnWrite_ (w := w.withEnv env) (armed c live).mpr p
  unfold after
  cases ran : jpolldConnWrite_ (some c) (w.withEnv env) with
  | ok _ w' =>
    rw [ran] at clears
    exact clears
  | error e w' =>
    rw [ran] at clears
    exact clears

/-- Room is asked for the greeting of the first connection. -/
theorem pollout_tracks_queue_greeting : ∃ w : World, (w.heap 0).live = true ∧
    ((w.thread.pfds (w.heap 0).conn.loc).pollout = true ↔ (w.heap 0).conn.writer ≠ []) ∧
    (w.thread.pfds 3).pollin = false := by
  have run := (ConnRun.init (plainWorld_initial [])).connect 0 rfl plainEnv
    (run_of_returned (a := 0) (by decide +kernel))
  obtain ⟨armed, quiet, _⟩ := pollout_tracks_queue run
  exact ⟨_, by decide +kernel, armed 0 (by decide +kernel), (quiet 3 (by decide +kernel)).1⟩

end JabSimul
