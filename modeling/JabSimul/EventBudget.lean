import JabSimul.EarlyExit
import JabSimul.NextActivation
import JabSimul.Turns

/-!
Runs of the scheduler of one user, with anything in between that leaves the events
alone, such as the runs of the simulator. The calls of a run are kept newest first.
An event is known by its place in the queue, and in each call that looks at the
queue it has one turn. How often its handler runs is read off the traces of its
turns, and then counted by the beats that the turns give the event.
-/
namespace JabSimul

open Simulation

/-- A call of the scheduler of `user` at the time `now`, begun in the state `state`. -/
structure RepeaterCall where
  user : UserPtr
  now : Int
  state : World

namespace RepeaterCall

variable (c : RepeaterCall) (i : Nat)

def turns : List Turn := callTurns c.user c.now c.state

def beats : List Beat := callBeats c.user c.now c.state

/-- How often a handler runs in the turn of the event at the place `i`. -/
def runs : Nat := c.turns[i]?.elim 0 fun t => t.runs c.user c.now

/-- The call comes to the event at the place `i` when it can fire: it is due, it has
a handler, and the user's state and the gate are as it asks. -/
def Finds (er : EventRepeater) : Prop :=
  er.Due c.now ∧ ∃ t, c.turns[i]? = some t ∧ er.Ready t.state c.user

end RepeaterCall

/-- How often the handler of the event at the place `i` ran in some calls. -/
def handlerRuns (i : Nat) (calls : List RepeaterCall) : Nat :=
  (calls.map fun c => c.runs i).sum

inductive RepeaterRun (u : UserPtr) (start : World) : World → List RepeaterCall → Prop
  | start : RepeaterRun u start start []
  | elsewhere {w w' calls} (before : RepeaterRun u start w calls) (sound : w'.session.Sound)
      (queue : (w'.users u).eventsQueue = (w.users u).eventsQueue)
      (sooner : (w'.users u).soonerActivationTm = (w.users u).soonerActivationTm) :
      RepeaterRun u start w' calls
  | call {w w' calls now} (before : RepeaterRun u start w calls)
      (ran : userHandleRepeaterQueue u now w = .ok ⟨⟩ w') :
      RepeaterRun u start w' (⟨u, now, w⟩ :: calls)

/-- The event at the place `i` after some calls. -/
def EventRepeater.after (er : EventRepeater) (i : Nat) : List RepeaterCall → EventRepeater
  | [] => er
  | c :: calls =>
      match c.beats[i]? with
      | none => er.after i calls
      | some b => (er.after i calls).beat b

namespace RepeaterCall

/-- The call activates the event at the place `i`. -/
def activates (c : RepeaterCall) (i : Nat) (er : EventRepeater) : Bool :=
  c.beats[i]?.any fun b => er.Due b.now

/-- The call invokes its handler. -/
def invokes (c : RepeaterCall) (i : Nat) (er : EventRepeater) : Bool :=
  c.beats[i]?.any fun b => er.Invoked b

/-- The call gives it a beat when it is due and ready. -/
def finds (c : RepeaterCall) (i : Nat) (er : EventRepeater) : Bool :=
  c.beats[i]?.any fun b => decide (er.Due b.now) && b.ready

end RepeaterCall

/-- How many beats invoke the handler of the event. -/
def EventRepeater.invocations (er : EventRepeater) (i : Nat) : List RepeaterCall → Nat
  | [] => 0
  | c :: calls => er.invocations i calls + if c.invokes i (er.after i calls) then 1 else 0

/-- How many calls find it. -/
def EventRepeater.chances (er : EventRepeater) (i : Nat) (calls : List RepeaterCall) : Nat :=
  calls.countP fun c => c.finds i er

section Single

variable {er : EventRepeater} {i : Nat} {c : RepeaterCall} {calls : List RepeaterCall}

@[simp] theorem EventRepeater.beat_frequency (er : EventRepeater) (b : Beat) :
    (er.beat b).frequency = er.frequency := by
  have spent : ∀ er : EventRepeater, er.spent.frequency = er.frequency := fun _ => rfl
  unfold EventRepeater.beat
  split
  · split
    · rw [spent, rearmed_frequency]
    · exact rearmed_frequency ..
  · rfl

theorem EventRepeater.after_frequency : (er.after i calls).frequency = er.frequency := by
  induction calls with
  | nil => rfl
  | cons c calls ih =>
    unfold EventRepeater.after
    split
    · exact ih
    · rw [beat_frequency, ih]

theorem EventRepeater.beat_counter (er : EventRepeater) (b : Beat) :
    (er.beat b).counter = if er.Invoked b ∧ er.counter > 0 then er.counter - 1 else er.counter := by
  unfold EventRepeater.beat
  by_cases due : er.Due b.now
  · rw [if_pos due]
    by_cases invoked : er.Invoked b
    · rw [if_pos invoked]
      simp only [spent, rearmed_counter, invoked, true_and]
    · rw [if_neg invoked, if_neg (fun both => invoked both.1), rearmed_counter]
  · rw [if_neg due, if_neg (fun both => due both.1.1)]

/-- A counter that is not negative goes down with every invocation. -/
theorem EventRepeater.after_counter (i : Nat) (calls : List RepeaterCall) (budget : 0 ≤ er.counter) :
    (er.after i calls).counter = er.counter - er.invocations i calls ∧
      (er.invocations i calls : Int) ≤ er.counter := by
  induction calls with
  | nil => simpa [EventRepeater.after, invocations] using budget
  | cons c calls ih =>
    obtain ⟨value, bound⟩ := ih
    unfold EventRepeater.after invocations RepeaterCall.invokes
    cases c.beats[i]? with
    | none => simpa using ⟨value, bound⟩
    | some b =>
      rw [Option.any_some]
      dsimp only
      rw [beat_counter]
      by_cases invoked : (er.after i calls).Invoked b
      · have left : (er.after i calls).counter ≠ 0 := invoked.2.2
        rw [if_pos ⟨invoked, by omega⟩, if_pos (decide_eq_true invoked)]
        omega
      · rw [if_neg fun both => invoked both.1, if_neg (by simpa using invoked)]
        omega

/-- Nothing rearms an event without a frequency. -/
theorem EventRepeater.after_activationTm (aperiodic : er.frequency < 0) :
    (er.after i calls).activationTm = er.activationTm := by
  induction calls with
  | nil => rfl
  | cons c calls ih =>
    have still : (er.after i calls).frequency < 0 := by rw [after_frequency]; exact aperiodic
    unfold EventRepeater.after
    split
    · exact ih
    · rw [beat_activationTm, nextActivation, if_neg (fun both => by omega), ih]

theorem EventRepeater.after_due (aperiodic : er.frequency < 0) (now : Int) :
    (er.after i calls).Due now ↔ er.Due now := by
  unfold Due
  rw [after_activationTm aperiodic]

/-- A negative counter stays, so every chance is taken. -/
theorem EventRepeater.after_counter_neg (aperiodic : er.frequency < 0) (free : er.counter < 0) :
    (er.after i calls).counter = er.counter ∧ er.invocations i calls = er.chances i calls := by
  induction calls with
  | nil => exact ⟨rfl, rfl⟩
  | cons c calls ih =>
    obtain ⟨value, same⟩ := ih
    unfold EventRepeater.after invocations RepeaterCall.invokes
    rw [chances, List.countP_cons]
    unfold RepeaterCall.finds
    cases c.beats[i]? with
    | none => simpa using ⟨value, same⟩
    | some b =>
      have spends : (er.after i calls).Invoked b ↔ er.Due b.now ∧ b.ready := by
        unfold Invoked
        rw [value, after_due aperiodic]
        constructor
        · exact fun all => ⟨all.1, all.2.1⟩
        · exact fun both => ⟨both.1, both.2, by omega⟩
      constructor
      · dsimp only
        rw [beat_counter, if_neg (by omega), value]
      · rw [same]
        simp only [Option.any_some, spends, Bool.decide_and, Bool.decide_eq_true]
        rfl

/-- With a budget there are as many invocations as chances, until it is used up. -/
theorem EventRepeater.invocations_eq (aperiodic : er.frequency < 0) (budget : 0 ≤ er.counter) :
    er.invocations i calls = min er.counter.toNat (er.chances i calls) := by
  induction calls with
  | nil => simp [invocations, chances]
  | cons c calls ih =>
    obtain ⟨value, bound⟩ := after_counter i calls budget
    have step : er.chances i (c :: calls) =
        er.chances i calls + if c.finds i er then 1 else 0 := List.countP_cons
    rw [step]
    unfold invocations RepeaterCall.invokes RepeaterCall.finds
    cases c.beats[i]? with
    | none => simpa using ih
    | some b =>
      simp only [Option.any_some, Invoked, value, after_due aperiodic]
      by_cases chance : er.Due b.now ∧ b.ready
      · simp only [chance.1, chance.2, decide_true, Bool.true_and, true_and]
        by_cases left : er.counter - er.invocations i calls ≠ 0
        · rw [if_pos (by simpa using left)]
          simp only [if_true]
          omega
        · rw [if_neg (by simpa using left)]
          simp only [if_true]
          omega
      · have out : ¬(decide (er.Due b.now) && b.ready) = true := by
          simpa using chance
        rw [if_neg out, if_neg ?_]
        · exact ih
        · intro all
          have all := of_decide_eq_true all
          exact chance ⟨all.1, all.2.1⟩

@[simp] theorem EventRepeater.beat_ready_iff (er : EventRepeater) (b : Beat) (w : World) (u : UserPtr) :
    (er.beat b).Ready w u ↔ er.Ready w u := by
  have spent : ∀ er : EventRepeater, er.spent.Ready w u ↔ er.Ready w u := fun _ => Iff.rfl
  have rearmed : (er.rearmed b.now b.draw).Ready w u ↔ er.Ready w u := by simp [Ready]
  unfold EventRepeater.beat
  split
  · split
    · rw [spent, rearmed]
    · exact rearmed
  · exact Iff.rfl

theorem EventRepeater.after_ready_iff (w : World) (u : UserPtr) :
    (er.after i calls).Ready w u ↔ er.Ready w u := by
  induction calls with
  | nil => exact Iff.rfl
  | cons c calls ih =>
    unfold EventRepeater.after
    split
    · exact ih
    · rw [beat_ready_iff, ih]

theorem countP_le_one_iff {α : Type} {p : α → Bool} {l : List α} :
    l.countP p ≤ 1 ↔ l.Pairwise fun a b => ¬(p a ∧ p b) := by
  induction l with
  | nil => simp
  | cons a l ih =>
    rw [List.countP_cons, List.pairwise_cons, ← ih]
    by_cases head : p a
    · have none : l.countP p = 0 ↔ ∀ b ∈ l, ¬(p a ∧ p b) := by simp [List.countP_eq_zero, head]
      rw [if_pos head, ← none]
      omega
    · simp [head]

/-- A call that does not activate an event leaves it alone. -/
theorem EventRepeater.after_idle (idle : ¬c.activates i (er.after i calls)) :
    er.after i (c :: calls) = er.after i calls := by
  unfold RepeaterCall.activates at idle
  rw [EventRepeater.after]
  cases found : c.beats[i]? with
  | none => rfl
  | some b =>
    rw [found, Option.any_some] at idle
    dsimp only
    rw [beat, if_neg (by simpa using idle)]

end Single

section Runs

variable {u : UserPtr} {start w : World} {calls : List RepeaterCall} {now : Int}

theorem scanBeats_now {queue : List EventRepeater} {b : Beat}
    (member : b ∈ scanBeats u now queue w) : b.now = now := by
  induction queue generalizing w with
  | nil => cases member
  | cons er rest ih =>
    rw [scanBeats, List.mem_cons] at member
    rcases member with rfl | later
    · rfl
    · cases round : repeaterRound u now er w with
      | ok er' w' =>
        rw [round] at later
        exact ih later
      | error e w' =>
        rw [round] at later
        cases later

theorem callBeats_now {b : Beat} (member : b ∈ callBeats u now w) : b.now = now := by
  unfold callBeats at member
  split at member
  · exact scanBeats_now member
  · cases member

/-- The queue of a run is the first one with every event as its beats leave it. -/
theorem RepeaterRun.events (sound : start.session.Sound) (run : RepeaterRun u start w calls) :
    w.session.Sound ∧ ∀ i : Nat, (w.users u).eventsQueue[i]? =
      (start.users u).eventsQueue[i]?.map fun er : EventRepeater => er.after i calls := by
  induction run with
  | start =>
    refine ⟨sound, fun i => ?_⟩
    simp [EventRepeater.after]
  | elsewhere _ sound' queue _ ih => exact ⟨sound', fun i => by rw [queue, ih.2]⟩
  | @call w w' calls now _ ran ih =>
    obtain ⟨sound₁, events⟩ := ih
    by_cases reached : (w.users u).soonerActivationTm ≤ now
    · obtain ⟨queue, length, sound', _⟩ := userHandleRepeaterQueue_scan sound₁ reached ran
      refine ⟨sound', fun i => ?_⟩
      have beat : ∀ er, (w.users u).eventsQueue[i]? = some er →
          ∃ b, (callBeats u now w)[i]? = some b := by
        intro er here
        have small := (List.getElem?_eq_some_iff.mp here).1
        exact ⟨_, List.getElem?_eq_getElem (by omega)⟩
      rw [queue, List.getElem?_zipWith]
      rw [events] at beat ⊢
      cases first : (start.users u).eventsQueue[i]? with
      | none => simp
      | some er =>
        rw [first] at beat
        obtain ⟨b, found⟩ := beat _ rfl
        simp [EventRepeater.after, RepeaterCall.beats, found]
    · have skipped : userHandleRepeaterQueue u now w = .ok ⟨⟩ w :=
        userHandleRepeaterQueue_skip (by omega)
      rw [skipped] at ran
      cases ran
      refine ⟨sound₁, fun i => ?_⟩
      rw [events]
      simp [EventRepeater.after, RepeaterCall.beats, callBeats, reached]

/-- A turn of the next call is about the event that stands at its place. -/
theorem RepeaterRun.turn {w' : World} (sound : start.session.Sound)
    (run : RepeaterRun u start w calls) (ran : userHandleRepeaterQueue u now w = .ok ⟨⟩ w')
    {i : Nat} {er : EventRepeater} (here : (start.users u).eventsQueue[i]? = some er) {t : Turn}
    (mine : (callTurns u now w)[i]? = some t) : t.event = er.after i calls ∧ t.Done u now := by
  obtain ⟨sound₁, queue⟩ := run.events sound
  obtain ⟨events, done, -⟩ := userHandleRepeaterQueue_turns sound₁ ran
  refine ⟨?_, done t (List.mem_of_getElem? mine)⟩
  have reached : (w.users u).soonerActivationTm ≤ now := by
    by_contra early
    rw [callTurns, if_neg early] at mine
    cases mine
  have same : ((callTurns u now w).map Turn.event)[i]? = (w.users u).eventsQueue[i]? := by
    rw [events reached]
  rw [List.getElem?_map, mine, queue, here] at same
  exact Option.some.inj same

/-- The traces of the turns show as many runs of the handler as beats invoke it. -/
theorem RepeaterRun.handlerRuns_eq (sound : start.session.Sound)
    (run : RepeaterRun u start w calls) {i : Nat} {er : EventRepeater}
    (here : (start.users u).eventsQueue[i]? = some er) :
    handlerRuns i calls = er.invocations i calls := by
  induction run with
  | start => rfl
  | elsewhere _ _ _ _ ih => exact ih
  | @call w w' calls now before ran ih =>
    have calls' : er.invocations i (⟨u, now, w⟩ :: calls) = er.invocations i calls +
        if RepeaterCall.invokes ⟨u, now, w⟩ i (er.after i calls) then 1 else 0 := rfl
    rw [handlerRuns, List.map_cons, List.sum_cons, ← handlerRuns, ih, calls', Nat.add_comm]
    unfold RepeaterCall.invokes RepeaterCall.runs RepeaterCall.turns RepeaterCall.beats
    rw [callBeats_eq_turns, List.getElem?_map]
    cases mine : (callTurns u now w)[i]? with
    | none => rfl
    | some t =>
      obtain ⟨event, done⟩ := before.turn sound ran here mine
      simp only [Option.elim_some, Option.map_some, Option.any_some, done.runs_eq, event,
        decide_eq_true_eq]

theorem RepeaterRun.finds_iff (sound : start.session.Sound) (run : RepeaterRun u start w calls)
    {i : Nat} {er : EventRepeater} (here : (start.users u).eventsQueue[i]? = some er)
    {c : RepeaterCall} (member : c ∈ calls) : c.finds i er ↔ c.Finds i er := by
  induction run with
  | start => cases member
  | elsewhere _ _ _ _ ih => exact ih member
  | @call w w' calls now before ran ih =>
    rcases List.mem_cons.mp member with rfl | earlier
    · unfold RepeaterCall.finds RepeaterCall.Finds RepeaterCall.turns RepeaterCall.beats
      rw [callBeats_eq_turns, List.getElem?_map]
      cases mine : (callTurns u now w)[i]? with
      | none => simp
      | some t =>
        obtain ⟨event, _⟩ := before.turn sound ran here mine
        simp [Turn.beat, EventRepeater.beatIn, event, EventRepeater.after_ready_iff]
    · exact ih earlier

/-- No handler of the user runs in a call but in its turns. -/
theorem RepeaterRun.accounted (sound : start.session.Sound) (run : RepeaterRun u start w calls)
    {c : RepeaterCall} (member : c ∈ calls) :
    (after (userHandleRepeaterQueue u c.now) c.state).handlerRuns u =
      c.state.handlerRuns u + (c.turns.map fun t => t.runs u c.now).sum := by
  induction run with
  | start => cases member
  | elsewhere _ _ _ _ ih => exact ih member
  | @call w w' calls now before ran ih =>
    rcases List.mem_cons.mp member with rfl | earlier
    · obtain ⟨_, _, total⟩ := userHandleRepeaterQueue_turns (before.events sound).1 ran
      have left : after (userHandleRepeaterQueue u now) w = w' := by rw [after, ran]
      rw [left]
      exact total
    · exact ih earlier

theorem RepeaterRun.beat_now (run : RepeaterRun u start w calls) {c : RepeaterCall}
    (member : c ∈ calls) {b : Beat} (given : b ∈ c.beats) : b.now = c.now := by
  induction run with
  | start => cases member
  | elsewhere _ _ _ _ ih => exact ih member
  | call _ _ ih =>
    rcases List.mem_cons.mp member with rfl | before
    · exact callBeats_now given
    · exact ih before

/-- Once a call has looked at the queue, the cache is no later than any event. -/
theorem RepeaterRun.cached (sound : start.session.Sound) (run : RepeaterRun u start w calls)
    {c : RepeaterCall} (member : c ∈ calls) (looked : c.beats ≠ []) :
    ∀ er ∈ (w.users u).eventsQueue, (w.users u).soonerActivationTm ≤ er.activationTm := by
  induction run with
  | start => cases member
  | elsewhere _ _ queue sooner ih =>
    rw [queue, sooner]
    exact ih member
  | @call w w' calls now before ran ih =>
    obtain ⟨sound₁, -⟩ := before.events sound
    by_cases reached : (w.users u).soonerActivationTm ≤ now
    · obtain ⟨_, _, _, _, sooner⟩ := userHandleRepeaterQueue_scan sound₁ reached ran
      intro er mine
      rw [sooner]
      exact soonest_le_of_mem mine
    · have skipped : userHandleRepeaterQueue u now w = .ok ⟨⟩ w :=
        userHandleRepeaterQueue_skip (by omega)
      rw [skipped] at ran
      cases ran
      rcases List.mem_cons.mp member with rfl | earlier
      · rw [RepeaterCall.beats, callBeats, if_neg reached] at looked
        exact absurd rfl looked
      · exact ih earlier

/-- A later call that gives an event no beat comes before the time of the event. -/
theorem RepeaterRun.early (sound : start.session.Sound) (run : RepeaterRun u start w calls)
    {i : Nat} {er : EventRepeater} (here : (start.users u).eventsQueue[i]? = some er)
    {newer older : List RepeaterCall} {c d : RepeaterCall} (split : calls = newer ++ c :: older)
    (passed : c.beats[i]? = none) (member : d ∈ older) (looked : d.beats ≠ []) :
    c.now < (er.after i older).activationTm := by
  induction run generalizing newer with
  | start => simp at split
  | elsewhere _ _ _ _ ih => exact ih split
  | @call w w' calls now before ran ih =>
    cases newer with
    | cons _ newer =>
      rw [List.cons_append] at split
      exact ih (List.cons.inj split).2
    | nil =>
      obtain ⟨rfl, rfl⟩ := List.cons.inj split
      obtain ⟨sound₁, events⟩ := before.events sound
      have mine : (w.users u).eventsQueue[i]? = some (er.after i calls) := by
        rw [events, here, Option.map_some]
      by_cases reached : (w.users u).soonerActivationTm ≤ now
      · obtain ⟨_, length, _⟩ := userHandleRepeaterQueue_scan sound₁ reached ran
        have small := (List.getElem?_eq_some_iff.mp mine).1
        have past : (callBeats u now w).length ≤ i := List.getElem?_eq_none_iff.mp passed
        omega
      · have cached := before.cached sound member looked _ (List.mem_of_getElem? mine)
        dsimp only
        omega

/-- Every step of the simulator goes on with the runs of all schedulers. -/
theorem RepeaterRun.step {i : Input} {w' : World} (sound : w.session.Sound)
    (run : RepeaterRun u start w calls) (ran : JabSimul.step i w = .ok ⟨⟩ w') :
    ∃ newer, RepeaterRun u start w' (newer ++ calls) := by
  have rests : ∀ {w w' : World}, RepeaterRun u start w calls → w'.session.Sound →
      (w'.users u).setup = (w.users u).setup → RepeaterRun u start w' calls :=
    fun run sound' same => run.elsewhere sound' (congrArg Setup.eventsQueue same)
      (congrArg Setup.soonerActivationTm same)
  rcases step_schedule sound ran with ⟨same, sound'⟩ | ⟨v, now, b, same, sound', called⟩
  · exact ⟨[], rests run sound' (same.setup u)⟩
  · have run := rests run sound' (same.setup u)
    by_cases here : v = u
    · subst v
      exact ⟨[_], run.call called⟩
    · by_cases reached : (b.users v).soonerActivationTm ≤ now
      · obtain ⟨_, _, sound₂, others, _⟩ := userHandleRepeaterQueue_scan sound' reached called
        exact ⟨[], rests run sound₂ (others u fun same => here same.symm)⟩
      · rw [userHandleRepeaterQueue_skip (by omega)] at called
        cases called
        exact ⟨[], run⟩

end Runs

section Rate

variable {u : UserPtr} {start w : World} {calls : List RepeaterCall} {i : Nat}
  {er : EventRepeater} {older mid newer : List RepeaterCall} {first second : RepeaterCall}

theorem RepeaterCall.activates_iff {c : RepeaterCall} :
    c.activates i er ↔ ∃ b, c.beats[i]? = some b ∧ er.Due b.now := by
  unfold RepeaterCall.activates
  cases c.beats[i]? with
  | none => simp
  | some b => simp

/-- Two successive activations of an event, the calls newest first. -/
structure Successive (er : EventRepeater) (i : Nat) (first second : RepeaterCall)
    (mid older : List RepeaterCall) : Prop where
  starts : first.activates i (er.after i older)
  quiet : ∀ m₁ c m₂, mid = m₁ ++ c :: m₂ → ¬c.activates i (er.after i (m₂ ++ first :: older))
  ends : second.activates i (er.after i (mid ++ first :: older))

theorem Successive.idle (both : Successive er i first second mid older)
    (newer' mid' : List RepeaterCall) (split : mid = newer' ++ mid') : er.after i (mid' ++ first :: older) = er.after i (first :: older) := by
  induction mid' generalizing newer' with
  | nil => rfl
  | cons c rest ih =>
    rw [List.cons_append, EventRepeater.after_idle (both.quiet _ c rest split)]
    exact ih (newer' ++ [c]) (by rw [split]; simp)

theorem Successive.armed (both : Successive er i first second mid older)
    (run : RepeaterRun u start w calls) (split : calls = newer ++ second :: (mid ++ first :: older))
    (periodic : 0 < er.frequency) : ∃ draw, (er.after i (first :: older)).activationTm =
      first.now + er.frequency + (er.after i older).jitter draw := by
  obtain ⟨b, found, due⟩ := RepeaterCall.activates_iff.mp both.starts
  have same : b.now = first.now :=
    run.beat_now (by rw [split]; simp) (List.mem_of_getElem? found)
  have frequency : (er.after i older).frequency = er.frequency := EventRepeater.after_frequency
  refine ⟨b.draw, ?_⟩
  simp only [EventRepeater.after, found]
  rw [EventRepeater.beat_activationTm, EventRepeater.nextActivation,
    if_pos ⟨due, by rw [frequency]; omega⟩, frequency, same]

/-- The calls in between come before the event is due. -/
theorem Successive.before (both : Successive er i first second mid older)
    (sound : start.session.Sound) (run : RepeaterRun u start w calls)
    (here : (start.users u).eventsQueue[i]? = some er)
    (split : calls = newer ++ second :: (mid ++ first :: older))
    (running : (er.after i (first :: older)).activationTm ≠ 0) :
    ∀ c ∈ mid, c.now < (er.after i (first :: older)).activationTm := by
  intro c member
  obtain ⟨m₁, m₂, cut⟩ := List.append_of_mem member
  have state := both.idle (m₁ ++ [c]) m₂ (by rw [cut]; simp)
  have idle := both.quiet m₁ c m₂ cut
  rw [state, RepeaterCall.activates_iff] at idle
  cases found : c.beats[i]? with
  | none =>
    have looked : first.beats ≠ [] := by
      obtain ⟨b, given, _⟩ := RepeaterCall.activates_iff.mp both.starts
      exact List.ne_nil_of_mem (List.mem_of_getElem? given)
    have place : calls = (newer ++ second :: m₁) ++ c :: (m₂ ++ first :: older) := by
      rw [split, cut]
      simp
    have early := run.early sound here place found (by simp) looked
    rwa [state] at early
  | some b =>
    have same : b.now = c.now :=
      run.beat_now (by rw [split]; simp [member]) (List.mem_of_getElem? found)
    have undue : ¬(er.after i (first :: older)).Due b.now := fun due => idle ⟨b, found, due⟩
    rw [same] at undue
    by_contra late
    exact undue ⟨running, by omega⟩

end Rate

section Overflow

end Overflow

section TwoCalls

/-- The first user after its scheduler was called at the time 1000. -/
def calledOnce (er : EventRepeater) : World :=
  after (userHandleRepeaterQueue 0 1000) (plainWorld [er])

def calledTwice (er : EventRepeater) : World :=
  after (userHandleRepeaterQueue 0 900000) (calledOnce er)

def twoCalls (er : EventRepeater) : List RepeaterCall :=
  [⟨0, 900000, calledOnce er⟩, ⟨0, 1000, plainWorld [er]⟩]

theorem twoCalls_run {er : EventRepeater}
    (first : returned (userHandleRepeaterQueue 0 1000) (plainWorld [er]) = some ())
    (second : returned (userHandleRepeaterQueue 0 900000) (calledOnce er) = some ()) :
    RepeaterRun 0 (plainWorld [er]) (calledTwice er) (twoCalls er) := by
  apply RepeaterRun.call
  · apply RepeaterRun.call
    · exact .start
    · exact run_of_returned first
  · exact run_of_returned second

/-- A `kill_connection` that the configuration gives a frequency and a counter, or none. -/
def killEvent (children : List XmlNode) : EventRepeater :=
  createRepeaterFromXml
    (.tag (cstr "event") [] (.tag (cstr "name") [] [.cdata (cstr "kill_connection")] :: children)) 1

end TwoCalls

/-- An event without a frequency keeps its time. Its handler runs at most once if the
counter allows no more, or if no two of the calls come to the event when it can fire,
and in no other run. -/
theorem unrepeated_event_iff {u : UserPtr} {start w : World} {calls : List RepeaterCall}
    (sound : start.session.Sound) (run : RepeaterRun u start w calls) {i : Nat}
    {er : EventRepeater} (here : (start.users u).eventsQueue[i]? = some er)
    (aperiodic : er.frequency < 0) :
    (∃ er', (w.users u).eventsQueue[i]? = some er' ∧ er'.activationTm = er.activationTm) ∧
      (handlerRuns i calls ≤ 1 ↔ er.counter = 0 ∨ er.counter = 1 ∨
        calls.Pairwise fun c d => ¬(c.Finds i er ∧ d.Finds i er)) := by
  constructor
  · refine ⟨er.after i calls, ?_, EventRepeater.after_activationTm aperiodic⟩
    rw [(run.events sound).2, here, Option.map_some]
  · have chances : er.chances i calls ≤ 1 ↔
        calls.Pairwise fun c d => ¬(c.Finds i er ∧ d.Finds i er) := by
      rw [EventRepeater.chances, countP_le_one_iff]
      refine List.Pairwise.iff_of_mem fun member member' => ?_
      rw [run.finds_iff sound here member, run.finds_iff sound here member']
    rw [run.handlerRuns_eq sound here, ← chances]
    rcases lt_or_ge er.counter 0 with free | budget
    · rw [(EventRepeater.after_counter_neg aperiodic free).2]
      omega
    · rw [EventRepeater.invocations_eq aperiodic budget]
      omega

theorem unrepeated_event_iff_once :
    handlerRuns 0 (twoCalls (killEvent [.tag (cstr "counter") [] [.cdata (cstr "1")]])) ≤ 1 := by
  have run : RepeaterRun 0 (plainWorld [killEvent [.tag (cstr "counter") [] [.cdata (cstr "1")]]])
      _ _ := twoCalls_run (by decide +kernel) (by decide +kernel)
  apply (unrepeated_event_iff (Reachable.sound (.init (plainWorld_initial _))) run (i := 0) rfl
    (by decide)).2.mpr
  exact .inr (.inl (by decide))

/-- With neither frequency nor counter every call runs the handler. -/
theorem unrepeated_event_repeats : ¬∀ start, Reachable start → ∀ u w calls,
    RepeaterRun u start w calls → ∀ (i : Nat) (er : EventRepeater),
      (start.users u).eventsQueue[i]? = some er → er.frequency < 0 → handlerRuns i calls ≤ 1 := by
  intro claim
  have run : RepeaterRun 0 (plainWorld [killEvent []]) _ _ :=
    twoCalls_run (by decide +kernel) (by decide +kernel)
  have once := claim _ (.init (plainWorld_initial _)) _ _ _ run 0 (killEvent []) rfl (by decide)
  have twice : handlerRuns 0 (twoCalls (killEvent [])) = 2 := by decide +kernel
  omega

end JabSimul
