import JabSimul.ThreadMoves

/-!
The scheduler of one user, event by event. A pass over the queue gives every event
one beat, and a beat changes an event by a function of the time, of a random number
and of whether the user is in the right state. Whatever the handlers do, they leave
the queue and the cached activation alone.
-/
namespace JabSimul

open Simulation Relation

/-- What a pass brings to one event: the time of the call, whether handler, state
and gate allow a call of the handler, and the number that `random` returns next. -/
structure Beat where
  now : Int
  ready : Bool
  draw : Nat

namespace EventRepeater

def Due (er : EventRepeater) (now : Int) : Prop := er.activationTm ≠ 0 ∧ er.activationTm ≤ now

instance (er : EventRepeater) (now : Int) : Decidable (er.Due now) :=
  inferInstanceAs (Decidable (_ ∧ _))

/-- The random part of the next period. -/
def jitter (er : EventRepeater) (draw : Nat) : Int :=
  er.frequency.tdiv 10000 * ((draw % 3000 : Nat) - 1500)

def rearmed (er : EventRepeater) (now : Int) (draw : Nat) : EventRepeater :=
  if er.frequency ≥ 0 then { er with activationTm := now + er.frequency + er.jitter draw } else er

def spent (er : EventRepeater) : EventRepeater :=
  { er with counter := if er.counter > 0 then er.counter - 1 else er.counter }

/-- The handler may be called: there is one, and state and gate match. -/
def Ready (er : EventRepeater) (w : World) (u : UserPtr) : Prop :=
  er.eventHandler.isSome ∧ (er.userState = none ∨ er.userState = some (w.users u).state) ∧
    (w.globals.doEvents ∨ er.userState = none ∨ er.userState = some .canLogin)

instance (er : EventRepeater) (w : World) (u : UserPtr) : Decidable (er.Ready w u) :=
  inferInstanceAs (Decidable (_ ∧ _ ∧ _))

/-- The beat invokes the handler of the event. -/
def Invoked (er : EventRepeater) (b : Beat) : Prop := er.Due b.now ∧ b.ready ∧ er.counter ≠ 0

instance (er : EventRepeater) (b : Beat) : Decidable (er.Invoked b) :=
  inferInstanceAs (Decidable (_ ∧ _ ∧ _))

def beat (er : EventRepeater) (b : Beat) : EventRepeater :=
  if er.Due b.now then
    if er.Invoked b then (er.rearmed b.now b.draw).spent else er.rearmed b.now b.draw
  else er

variable (er : EventRepeater)

@[simp] theorem rearmed_eventHandler (now : Int) (draw : Nat) :
    (er.rearmed now draw).eventHandler = er.eventHandler := by
  unfold rearmed
  split <;> rfl

@[simp] theorem rearmed_counter (now : Int) (draw : Nat) :
    (er.rearmed now draw).counter = er.counter := by
  unfold rearmed
  split <;> rfl

@[simp] theorem rearmed_userState (now : Int) (draw : Nat) :
    (er.rearmed now draw).userState = er.userState := by
  unfold rearmed
  split <;> rfl

@[simp] theorem rearmed_frequency (now : Int) (draw : Nat) :
    (er.rearmed now draw).frequency = er.frequency := by
  unfold rearmed
  split <;> rfl

@[simp] theorem rearmed_arg (now : Int) (draw : Nat) : (er.rearmed now draw).arg = er.arg := by
  unfold rearmed
  split <;> rfl

end EventRepeater

/-- The beat that the state `w` gives an event. -/
def EventRepeater.beatIn (er : EventRepeater) (w : World) (u : UserPtr) (now : Int) : Beat :=
  ⟨now, er.Ready w u, w.env.random 0⟩

/-- The beats of a pass, as far as it comes. -/
def scanBeats (u : UserPtr) (now : Int) : List EventRepeater → World → List Beat
  | [], _ => []
  | er :: rest, w => er.beatIn w u now ::
      match repeaterRound u now er w with
      | .ok _ w' => scanBeats u now rest w'
      | .error _ _ => []

section Rounds

variable {u : UserPtr} {now : Int} {er er' : EventRepeater} {w w' : World}

/-- What programs without timers leave of the users and the files. -/
theorem sameSetup_of_sim {α : Type} {P : World → Prop} {m : M α} {Q : α → World → Prop} {a : α}
    (sim : (moves untimed).Sim P m Q) (sound : w.session.Sound) (pre : P w)
    (ran : m w = .ok a w') : w.SameSetup w' ∧ w'.session.Sound := by
  have outcome := sim w sound pre
  rw [ran] at outcome
  have kept := Abstraction.steps_keep (A := moves untimed) (K := fun v => w.SameSetup v)
    (fun _ ⟨_, other, move⟩ same => same.trans (move.sameSetup other)) sound outcome.1
    (World.SameSetup.refl w)
  exact ⟨kept, Abstraction.inv_steps (A := moves untimed) sound outcome.1⟩

/-- The handler is called exactly when it is ready and the counter is not used up. -/
theorem fireRepeater_eq : fireRepeater u now er w =
    if er.Ready w u ∧ er.counter ≠ 0 then
      (match er.eventHandler with
      | none => return er
      | some h => do
          emit (.handlerRun u h)
          runEvent h er.arg u now
          return er.spent : M EventRepeater) w
    else .ok er w := by
  unfold fireRepeater
  obtain ⟨tm, frequency, eventHandler, counter, userState, arg⟩ := er
  cases eventHandler with
  | none =>
    have unready : ¬(EventRepeater.Ready ⟨tm, frequency, none, counter, userState, arg⟩ w u ∧
        counter ≠ 0) := fun both => by cases both.1.1
    rw [if_neg unready]
    rfl
  | some h =>
    by_cases ready : EventRepeater.Ready ⟨tm, frequency, some h, counter, userState, arg⟩ w u ∧
        counter ≠ 0
    · rw [if_pos ready]
      obtain ⟨⟨_, state, gate⟩, left⟩ := ready
      simp only [bind_apply, getUser_apply, get_apply]
      rw [if_pos ⟨state, left, gate⟩]
      rfl
    · rw [if_neg ready]
      simp only [bind_apply, getUser_apply, get_apply]
      rw [if_neg]
      · rfl
      · rintro ⟨state, left, gate⟩
        exact ready ⟨⟨rfl, state, gate⟩, left⟩

theorem fireRepeater_spec (sound : w.session.Sound) (ran : fireRepeater u now er w = .ok er' w') :
    w.SameSetup w' ∧ w'.session.Sound ∧
      er' = if er.Ready w u ∧ er.counter ≠ 0 then er.spent else er := by
  have safe : (moves untimed).Safe (fireRepeater u now er) :=
    safe_fireRepeater_moves u now (by simp [untimed]) (by simp [untimed]) (by simp [untimed])
      (by simp [untimed]) (by simp [untimed]) er fun _ _ => by simp [untimed]
  obtain ⟨same, sound'⟩ := sameSetup_of_sim safe sound trivial ran
  refine ⟨same, sound', ?_⟩
  rw [fireRepeater_eq] at ran
  by_cases ready : er.Ready w u ∧ er.counter ≠ 0
  · rw [if_pos ready] at ran ⊢
    obtain ⟨h, handler⟩ := Option.isSome_iff_exists.mp ready.1.1
    simp only [handler, bind_apply, emit_apply] at ran
    cases called : runEvent h er.arg u now (w.emit (.handlerRun u h)) with
    | ok r v =>
      rw [called] at ran
      cases ran
      rfl
    | error e v =>
      rw [called] at ran
      cases ran
  · rw [if_neg ready] at ran ⊢
    cases ran
    rfl

theorem rescheduled_apply (now : Int) (er : EventRepeater) (w : World) :
    ∃ env, w.env.Later env ∧
      rescheduled now er w = .ok (er.rearmed now (w.env.random 0)) (w.withEnv env) := by
  unfold rescheduled EventRepeater.rearmed
  by_cases periodic : er.frequency ≥ 0
  · rw [if_pos periodic, if_pos periodic]
    exact ⟨{ w.env with random := fun n => w.env.random (n + 1) }, ⟨rfl, fun n => ⟨n, rfl⟩⟩, rfl⟩
  · rw [if_neg periodic, if_neg periodic]
    exact ⟨w.env, .refl _, rfl⟩

/-- What a round leaves as it is. -/
structure RoundFrame (u : UserPtr) (w w' : World) : Prop where
  sound : w'.session.Sound
  queue : (w'.users u).eventsQueue = (w.users u).eventsQueue
  others : ∀ v, v ≠ u → (w'.users v).setup = (w.users v).setup

/-- One round gives the event its beat, and notes its next activation. -/
theorem repeaterRound_spec (sound : w.session.Sound)
    (ran : repeaterRound u now er w = .ok er' w') :
    er' = er.beat (er.beatIn w u now) ∧ RoundFrame u w w' ∧
      (w'.users u).soonerActivationTm = min (w.users u).soonerActivationTm er'.activationTm := by
  -- the end of the round, whatever came before
  have noted : ∀ {v : World} {er₁ : EventRepeater}, w.SameSetup v → v.session.Sound →
      (do
        modUser u fun user =>
          if user.soonerActivationTm > er₁.activationTm then
            { user with soonerActivationTm := er₁.activationTm }
          else user
        return er₁ : M EventRepeater) v = .ok er' w' →
      er' = er₁ ∧ RoundFrame u w w' ∧ (w'.users u).soonerActivationTm =
        min (w.users u).soonerActivationTm er'.activationTm := by
    intro v er₁ same sound done
    simp only [bind_apply, modUser_apply, pure_apply] at done
    cases done
    have queue : (v.users u).eventsQueue = (w.users u).eventsQueue :=
      congrArg Setup.eventsQueue (same.setup u)
    have sooner : (v.users u).soonerActivationTm = (w.users u).soonerActivationTm :=
      congrArg Setup.soonerActivationTm (same.setup u)
    refine ⟨rfl, ⟨?_, ?_, fun v other => ?_⟩, ?_⟩
    · rw [session_updUser_soft v u (by split <;> rfl)]
      exact sound
    · rw [updUser_users_self, ← queue]
      split <;> rfl
    · rw [updUser_users_of_ne _ other, same.setup v]
    · rw [updUser_users_self, ← sooner]
      split
      · rw [min_eq_right (by omega)]
      · rw [min_eq_left (by omega)]
  unfold repeaterRound at ran
  by_cases due : er.Due now
  · have reached : er.activationTm ≠ 0 ∧ er.activationTm ≤ now := due
    rw [if_pos reached] at ran
    obtain ⟨env, later, drawn⟩ := rescheduled_apply now er w
    have armed : w.SameSetup (w.withEnv env) := (World.SameSetup.refl w).withEnv later
    simp only [bind_apply, drawn] at ran
    cases fired : fireRepeater u now (er.rearmed now (w.env.random 0)) (w.withEnv env) with
    | error e v =>
      rw [fired] at ran
      cases ran
    | ok er₁ v =>
      rw [fired] at ran
      obtain ⟨same, sound', value⟩ := fireRepeater_spec (w := w.withEnv env) sound fired
      obtain ⟨rfl, rest⟩ := noted (armed.trans same) sound' ran
      refine ⟨?_, rest⟩
      have ready : (er.rearmed now (w.env.random 0)).Ready (w.withEnv env) u ↔ er.Ready w u := by
        simp [EventRepeater.Ready, World.withEnv]
      have beaten : er.beat (er.beatIn w u now) = if er.Invoked (er.beatIn w u now) then
          (er.rearmed now (w.env.random 0)).spent else er.rearmed now (w.env.random 0) :=
        if_pos due
      have called : er.Invoked (er.beatIn w u now) ↔ er.Ready w u ∧ er.counter ≠ 0 := by
        simp [EventRepeater.Invoked, EventRepeater.beatIn, due]
      rw [value, beaten]
      simp only [ready, called, EventRepeater.rearmed_counter]
  · have early : ¬(er.activationTm ≠ 0 ∧ er.activationTm ≤ now) := due
    rw [if_neg early] at ran
    have still : er.beat (er.beatIn w u now) = er := if_neg due
    rw [still]
    exact noted (World.SameSetup.refl w) sound ran

/-- The least of `tm` and the activations of the queue. -/
def soonest (tm : Int) (queue : List EventRepeater) : Int :=
  queue.foldl (fun tm er => min tm er.activationTm) tm

theorem soonest_le_iff {tm t : Int} {queue : List EventRepeater} :
    soonest tm queue ≤ t ↔ tm ≤ t ∨ ∃ er ∈ queue, er.activationTm ≤ t := by
  induction queue generalizing tm with
  | nil => simp [soonest]
  | cons er rest ih =>
    rw [soonest, List.foldl_cons]
    change soonest (min tm er.activationTm) rest ≤ t ↔ _
    rw [ih, min_le_iff, List.exists_mem_cons_iff, or_assoc]

theorem soonest_le_of_mem {tm : Int} {queue : List EventRepeater} (member : er ∈ queue) :
    soonest tm queue ≤ er.activationTm :=
  soonest_le_iff.mpr (.inr ⟨er, member, Int.le_refl _⟩)

/-- A pass over the queue beats every event once. The induction is on the events
that are left. -/
theorem repeaterScan_spec {queue queue' : List EventRepeater} (sound : w.session.Sound)
    (ran : repeaterScan u now queue w = .ok queue' w') :
    queue' = List.zipWith EventRepeater.beat queue (scanBeats u now queue w) ∧
      (scanBeats u now queue w).length = queue.length ∧ RoundFrame u w w' ∧
      (w'.users u).soonerActivationTm = soonest (w.users u).soonerActivationTm queue' := by
  induction queue generalizing w queue' with
  | nil =>
    cases ran
    exact ⟨rfl, rfl, ⟨sound, rfl, fun _ _ => rfl⟩, rfl⟩
  | cons er rest ih =>
    rw [repeaterScan, bind_apply] at ran
    cases round : repeaterRound u now er w with
    | error e v =>
      rw [round] at ran
      cases ran
    | ok er₁ v =>
      obtain ⟨value, frame₁, sooner₁⟩ := repeaterRound_spec sound round
      rw [round] at ran
      dsimp only at ran
      rw [bind_apply] at ran
      cases scanned : repeaterScan u now rest v with
      | error e v' =>
        rw [scanned] at ran
        cases ran
      | ok rest' v' =>
        rw [scanned] at ran
        cases ran
        obtain ⟨rest₁, length₁, frame₂, sooner₂⟩ := ih frame₁.sound scanned
        have frame : RoundFrame u w w' := ⟨frame₂.sound, frame₂.queue.trans frame₁.queue,
          fun v other => (frame₂.others v other).trans (frame₁.others v other)⟩
        simp only [scanBeats, round]
        refine ⟨?_, ?_, frame, ?_⟩
        · rw [List.zipWith_cons_cons, ← value, ← rest₁]
        · rw [List.length_cons, length₁, List.length_cons]
        · rw [sooner₂, sooner₁]
          rfl

/-- The beats of a call, none of them if the call does not look at the queue. -/
def callBeats (u : UserPtr) (now : Int) (w : World) : List Beat :=
  if (w.users u).soonerActivationTm ≤ now then
    scanBeats u now (w.users u).eventsQueue
      (w.updUser u fun user => { user with soonerActivationTm := never })
  else []

theorem userHandleRepeaterQueue_skip (early : now < (w.users u).soonerActivationTm) :
    userHandleRepeaterQueue u now w = .ok ⟨⟩ w := by
  rw [userHandleRepeaterQueue, bind_apply, getUser_apply]
  dsimp only
  rw [if_neg (by omega)]
  rfl

/-- What a call that looks at the queue leaves. -/
theorem userHandleRepeaterQueue_scan (sound : w.session.Sound)
    (reached : (w.users u).soonerActivationTm ≤ now)
    (ran : userHandleRepeaterQueue u now w = .ok ⟨⟩ w') :
    (w'.users u).eventsQueue =
        List.zipWith EventRepeater.beat (w.users u).eventsQueue (callBeats u now w) ∧
      (callBeats u now w).length = (w.users u).eventsQueue.length ∧ w'.session.Sound ∧
      (∀ v, v ≠ u → (w'.users v).setup = (w.users v).setup) ∧
      (w'.users u).soonerActivationTm = soonest never (w'.users u).eventsQueue := by
  rw [userHandleRepeaterQueue, bind_apply, getUser_apply] at ran
  dsimp only at ran
  rw [if_pos reached] at ran
  rw [callBeats, if_pos reached]
  simp only [bind_apply, modUser_apply] at ran
  cases scanned : repeaterScan u now (w.users u).eventsQueue
    (w.updUser u fun user => { user with soonerActivationTm := never }) with
  | error e v =>
    rw [scanned] at ran
    cases ran
  | ok queue v =>
    rw [scanned] at ran
    cases ran
    have sound₀ : (w.updUser u fun user =>
        { user with soonerActivationTm := never }).session.Sound := by
      rw [session_updUser_soft w u (by rfl)]
      exact sound
    obtain ⟨value, length, frame, sooner⟩ := repeaterScan_spec sound₀ scanned
    rw [updUser_users_self] at sooner ⊢
    refine ⟨value, length, ?_, fun v' other => ?_, sooner⟩
    · rw [session_updUser_soft v u (by rfl)]
      exact frame.sound
    · rw [updUser_users_of_ne _ other, frame.others v' other, updUser_users_of_ne _ other]

end Rounds

end JabSimul
