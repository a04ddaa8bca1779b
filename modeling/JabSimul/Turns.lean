import JabSimul.QueueMoves
import JabSimul.Schedule

/-!
A call of the scheduler turn by turn. The pass comes to every event in a state that
the events before it left, and runs the handler of the event in this turn or no
handler at all, as the trace tells.
-/
namespace JabSimul

open Simulation

/-- An event of the queue, and the state in which the pass comes to it. -/
structure Turn where
  event : EventRepeater
  state : World

/-- The turns of a pass, as far as it comes. -/
def scanTurns (u : UserPtr) (now : Int) : List EventRepeater → World → List Turn
  | [], _ => []
  | er :: rest, w => ⟨er, w⟩ ::
      match repeaterRound u now er w with
      | .ok _ w' => scanTurns u now rest w'
      | .error _ _ => []

/-- The turns of a call, none of them if the call does not look at the queue. -/
def callTurns (u : UserPtr) (now : Int) (w : World) : List Turn :=
  if (w.users u).soonerActivationTm ≤ now then
    scanTurns u now (w.users u).eventsQueue
      (w.updUser u fun user => { user with soonerActivationTm := never })
  else []

namespace Turn

/-- How many handlers of events of `u` the turn runs. -/
def runs (t : Turn) (u : UserPtr) (now : Int) : Nat :=
  (after (repeaterRound u now t.event) t.state).handlerRuns u - t.state.handlerRuns u

def beat (t : Turn) (u : UserPtr) (now : Int) : Beat := t.event.beatIn t.state u now

/-- The turn begins in a sound state and comes to its end. -/
structure Done (t : Turn) (u : UserPtr) (now : Int) : Prop where
  sound : t.state.session.Sound
  ran : ∃ er w, repeaterRound u now t.event t.state = .ok er w

end Turn

section Rounds

variable {u : UserPtr} {now : Int} {er er' : EventRepeater} {w w' : World}

theorem handlerRuns_emit (w : World) (u : UserPtr) (h : EventHandler) :
    (w.emit (.handlerRun u h)).handlerRuns u = w.handlerRuns u + 1 := by
  unfold World.handlerRuns
  rw [show (w.emit (.handlerRun u h)).trace = .handlerRun u h :: w.trace from rfl,
    List.countP_cons_of_pos (by simp)]

/-- A handler runs no other handler. -/
theorem runEvent_handlerRuns {h : EventHandler} {arg : Option XmlNode} {w : World}
    (sound : w.session.Sound)
    (ran : runEvent h arg u now (w.emit (.handlerRun u h)) = .ok ⟨⟩ w') :
    w'.handlerRuns u = w.handlerRuns u + 1 := by
  have sim := sim_runEvent_moves (S := fun k => k ≠ .fire) u now (by simp) (by simp) (by simp)
    (by simp) h arg (by simp)
  have told : (w.emit (.handlerRun u h)).session.Sound :=
    (moves fun _ => True).inv_step sound ⟨.fire, trivial, .fire u h⟩
  have outcome := sim (w.emit (.handlerRun u h)) told (fun _ _ => ⟨w.trace, by subst h; rfl⟩)
  rw [ran] at outcome
  have kept := Abstraction.steps_keep (A := moves fun k => k ≠ .fire)
    (K := fun v => v.handlerRuns u = (w.emit (.handlerRun u h)).handlerRuns u)
    (fun _ ⟨_, other, move⟩ same => (move.handlerRuns other u).trans same) told outcome.1 rfl
  exact kept.trans (handlerRuns_emit w u h)

theorem fireRepeater_handlerRuns (sound : w.session.Sound)
    (ran : fireRepeater u now er w = .ok er' w') :
    w'.handlerRuns u = w.handlerRuns u + if er.Ready w u ∧ er.counter ≠ 0 then 1 else 0 := by
  rw [fireRepeater_eq] at ran
  by_cases ready : er.Ready w u ∧ er.counter ≠ 0
  · rw [if_pos ready] at ran ⊢
    obtain ⟨h, handler⟩ := Option.isSome_iff_exists.mp ready.1.1
    simp only [handler, bind_apply, emit_apply] at ran
    cases called : runEvent h er.arg u now (w.emit (.handlerRun u h)) with
    | ok r v =>
      rw [called] at ran
      cases ran
      exact runEvent_handlerRuns sound called
    | error e v =>
      rw [called] at ran
      cases ran
  · rw [if_neg ready] at ran ⊢
    cases ran
    rfl

/-- The handler runs in the turns whose beat invokes it, and there once. -/
theorem repeaterRound_handlerRuns (sound : w.session.Sound)
    (ran : repeaterRound u now er w = .ok er' w') :
    w'.handlerRuns u = w.handlerRuns u + if er.Invoked (er.beatIn w u now) then 1 else 0 := by
  unfold repeaterRound at ran
  by_cases due : er.Due now
  · have reached : er.activationTm ≠ 0 ∧ er.activationTm ≤ now := due
    rw [if_pos reached] at ran
    obtain ⟨env, _, drawn⟩ := rescheduled_apply now er w
    simp only [bind_apply, drawn] at ran
    cases fired : fireRepeater u now (er.rearmed now (w.env.random 0)) (w.withEnv env) with
    | error e v =>
      rw [fired] at ran
      cases ran
    | ok er₁ v =>
      rw [fired] at ran
      have count := fireRepeater_handlerRuns (w := w.withEnv env) sound fired
      have ready : (er.rearmed now (w.env.random 0)).Ready (w.withEnv env) u ↔ er.Ready w u := by
        simp [EventRepeater.Ready, World.withEnv]
      have called : er.Invoked (er.beatIn w u now) ↔ er.Ready w u ∧ er.counter ≠ 0 := by
        simp [EventRepeater.Invoked, EventRepeater.beatIn, due]
      simp only [ready, EventRepeater.rearmed_counter, ← called] at count
      cases ran
      exact count
  · have early : ¬(er.activationTm ≠ 0 ∧ er.activationTm ≤ now) := due
    rw [if_neg early] at ran
    rw [if_neg fun invoked => due invoked.1]
    cases ran
    rfl

theorem Turn.Done.runs_eq {t : Turn} (done : t.Done u now) :
    t.runs u now = if t.event.Invoked (t.beat u now) then 1 else 0 := by
  obtain ⟨sound, er', w', ran⟩ := done
  have count := repeaterRound_handlerRuns sound ran
  have left : after (repeaterRound u now t.event) t.state = w' := by rw [after, ran]
  rw [runs, left, count, Nat.add_sub_cancel_left]
  rfl

end Rounds

section Scans

variable {u : UserPtr} {now : Int} {w w' : World}

theorem scanBeats_eq_turns (queue : List EventRepeater) (w : World) :
    scanBeats u now queue w = (scanTurns u now queue w).map fun t => t.beat u now := by
  induction queue generalizing w with
  | nil => rfl
  | cons er rest ih =>
    rw [scanBeats, scanTurns]
    cases repeaterRound u now er w with
    | ok er' w' => exact congrArg _ (ih w')
    | error e w' => rfl

theorem callBeats_eq_turns (w : World) :
    callBeats u now w = (callTurns u now w).map fun t => t.beat u now := by
  unfold callBeats callTurns
  split
  · exact scanBeats_eq_turns _ _
  · rfl

/-- A pass takes the events in their order, and what it runs are the handlers of its
turns. The induction is on the events that are left. -/
theorem repeaterScan_turns {queue queue' : List EventRepeater} (sound : w.session.Sound)
    (ran : repeaterScan u now queue w = .ok queue' w') :
    (scanTurns u now queue w).map Turn.event = queue ∧
      (∀ t ∈ scanTurns u now queue w, t.Done u now) ∧
      w'.handlerRuns u =
        w.handlerRuns u + ((scanTurns u now queue w).map fun t => t.runs u now).sum := by
  induction queue generalizing w queue' with
  | nil =>
    cases ran
    simp [scanTurns]
  | cons er rest ih =>
    rw [repeaterScan, bind_apply] at ran
    cases round : repeaterRound u now er w with
    | error e v =>
      rw [round] at ran
      cases ran
    | ok er₁ v =>
      have here : Turn.Done ⟨er, w⟩ u now := ⟨sound, er₁, v, round⟩
      have count := repeaterRound_handlerRuns sound round
      have runs := here.runs_eq
      rw [round] at ran
      dsimp only at ran
      rw [bind_apply] at ran
      cases scanned : repeaterScan u now rest v with
      | error e v' =>
        rw [scanned] at ran
        cases ran
      | ok rest' v' =>
        rw [scanned] at ran
        cases ran
        obtain ⟨events, done, total⟩ := ih (repeaterRound_spec sound round).2.1.sound scanned
        simp only [scanTurns, round]
        refine ⟨by rw [List.map_cons, events], List.forall_mem_cons.mpr ⟨here, done⟩, ?_⟩
        rw [List.map_cons, List.sum_cons, runs, total, count, Nat.add_assoc]
        rfl

/-- The turns of a call that comes back are those of the events, if it looks at the
queue, and no handler runs outside of them. -/
theorem userHandleRepeaterQueue_turns (sound : w.session.Sound)
    (ran : userHandleRepeaterQueue u now w = .ok ⟨⟩ w') :
    ((w.users u).soonerActivationTm ≤ now →
        (callTurns u now w).map Turn.event = (w.users u).eventsQueue) ∧
      (∀ t ∈ callTurns u now w, t.Done u now) ∧
      w'.handlerRuns u =
        w.handlerRuns u + ((callTurns u now w).map fun t => t.runs u now).sum := by
  by_cases reached : (w.users u).soonerActivationTm ≤ now
  · rw [userHandleRepeaterQueue, bind_apply, getUser_apply] at ran
    dsimp only at ran
    rw [if_pos reached] at ran
    rw [callTurns, if_pos reached]
    simp only [bind_apply, modUser_apply] at ran
    cases scanned : repeaterScan u now (w.users u).eventsQueue
      (w.updUser u fun user => { user with soonerActivationTm := never }) with
    | error e v =>
      rw [scanned] at ran
      cases ran
    | ok queue v =>
      rw [scanned] at ran
      cases ran
      have sound₀ : (w.updUser u fun user =>
          { user with soonerActivationTm := never }).session.Sound := by
        rw [session_updUser_soft w u (by rfl)]
        exact sound
      obtain ⟨events, done, total⟩ := repeaterScan_turns sound₀ scanned
      exact ⟨fun _ => events, done, total⟩
  · rw [userHandleRepeaterQueue_skip (by omega)] at ran
    cases ran
    rw [callTurns, if_neg reached]
    exact ⟨fun here => absurd here reached, by simp, rfl⟩

end Scans

end JabSimul
