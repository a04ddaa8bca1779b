import JabSimul.Schedule

/-!
The cached time of the next activation. A pass takes the least of the events' next
times and of the constant that stands for "never", so the cache is exact when that
least time is not beyond the constant.
-/
namespace JabSimul

open Simulation

namespace EventRepeater

/-- When the event is to be active after a call at `now`. -/
def nextActivation (er : EventRepeater) (now : Int) (draw : Nat) : Int :=
  if er.Due now ∧ er.frequency ≥ 0 then now + er.frequency + er.jitter draw else er.activationTm

theorem beat_activationTm (er : EventRepeater) (b : Beat) :
    (er.beat b).activationTm = er.nextActivation b.now b.draw := by
  have spent : ∀ er : EventRepeater, er.spent.activationTm = er.activationTm := fun _ => rfl
  unfold beat nextActivation
  by_cases due : er.Due b.now
  · rw [if_pos due]
    have armed : (er.rearmed b.now b.draw).activationTm =
        if er.Due b.now ∧ er.frequency ≥ 0 then b.now + er.frequency + er.jitter b.draw
        else er.activationTm := by
      unfold rearmed
      by_cases periodic : er.frequency ≥ 0
      · rw [if_pos periodic, if_pos ⟨due, periodic⟩]
      · rw [if_neg periodic, if_neg fun both => periodic both.2]
    split
    · rw [spent, armed]
    · exact armed
  · rw [if_neg due, if_neg fun both => due both.1]

end EventRepeater

/-- The next activations of the events of `u`, with the random numbers as the pass
at `now` finds them. -/
def nextActivations (u : UserPtr) (now : Int) (w : World) : List Int :=
  List.zipWith (fun er b => er.nextActivation b.now b.draw) (w.users u).eventsQueue
    (callBeats u now w)

/-- The cached time is the least activation, and is reached only when an event is due. -/
structure ExactNext (user : UserProperities) : Prop where
  least : ∀ er ∈ user.eventsQueue, user.soonerActivationTm ≤ er.activationTm
  attained : ∃ er ∈ user.eventsQueue, er.activationTm = user.soonerActivationTm
  prompt : ∀ now, user.soonerActivationTm ≤ now → ∃ er ∈ user.eventsQueue, er.Due now

/-- The least of some times, if it is a time that the constant can stand behind. -/
def SoonEnough (times : List Int) : Prop :=
  ∃ tm ∈ times, tm ≤ never ∧ tm ≠ 0 ∧ ∀ tm' ∈ times, tm ≤ tm'

theorem exactNext_iff {user : UserProperities}
    (cached : user.soonerActivationTm = soonest never user.eventsQueue) :
    ExactNext user ↔ SoonEnough (user.eventsQueue.map EventRepeater.activationTm) := by
  constructor
  · intro exact'
    obtain ⟨er, member, attained⟩ := exact'.attained
    obtain ⟨first, member', armed, reached⟩ := exact'.prompt _ (Int.le_refl _)
    have bound : user.soonerActivationTm ≤ never := by
      rw [cached]
      exact soonest_le_iff.mpr (.inl (Int.le_refl _))
    refine ⟨er.activationTm, List.mem_map_of_mem member, ?_, ?_, ?_⟩
    · rwa [attained]
    · have same := Int.le_antisymm reached (exact'.least first member')
      rwa [attained, ← same]
    · simp only [List.forall_mem_map, attained]
      exact exact'.least
  · rintro ⟨tm, listed, bound, armed, least⟩
    obtain ⟨er, member, rfl⟩ := List.mem_map.mp listed
    simp only [List.forall_mem_map] at least
    have same : user.soonerActivationTm = er.activationTm := by
      rw [cached]
      apply Int.le_antisymm (soonest_le_of_mem member)
      by_contra low
      rcases soonest_le_iff.mp (Int.le_refl (soonest never user.eventsQueue)) with far | ⟨er', mine, near⟩
      · omega
      · have := least er' mine
        omega
    refine ⟨?_, ⟨er, member, same.symm⟩, fun now reached => ⟨er, member, armed, ?_⟩⟩
    · rwa [same]
    · rwa [← same]

/-- After a call that looked at the queue the cache is exact if and only if the
least next activation is not beyond the constant, and not the time 0 of an event
that is never due. -/
theorem next_activation_exact {u : UserPtr} {now : Int} {w w' : World} (sound : w.session.Sound)
    (reached : (w.users u).soonerActivationTm ≤ now)
    (ran : userHandleRepeaterQueue u now w = .ok ⟨⟩ w') :
    ExactNext (w'.users u) ↔ SoonEnough (nextActivations u now w) := by
  obtain ⟨queue, _, _, _, sooner⟩ := userHandleRepeaterQueue_scan sound reached ran
  have times : (w'.users u).eventsQueue.map EventRepeater.activationTm =
      nextActivations u now w := by
    rw [queue, List.map_zipWith]
    simp only [EventRepeater.beat_activationTm]
    rfl
  rw [exactNext_iff sooner, times]

/-- A message every hour, from the time `start` on. -/
def hourlyMessage (start : Int) : EventRepeater :=
  ⟨start, 3600000000, some .evSendMessage, -1, some .loggedIn, none⟩

/-- A call in the first second after the epoch. -/
theorem next_activation_exact_epoch : ExactNext
    ((after (userHandleRepeaterQueue 0 1000) (plainWorld [hourlyMessage 1])).users 0) := by
  have ran := run_of_returned (m := userHandleRepeaterQueue 0 1000)
    (w := plainWorld [hourlyMessage 1]) (a := ()) (by decide +kernel)
  have sound : (plainWorld [hourlyMessage 1]).session.Sound :=
    Reachable.sound (.init (plainWorld_initial _))
  refine (next_activation_exact sound (by decide) ran).mpr ?_
  have times : nextActivations 0 1000 (plainWorld [hourlyMessage 1]) = [3060001000] := by
    decide +kernel
  rw [times]
  exact ⟨3060001000, by simp, by decide, by decide, by simp⟩

/-- With the times of our days the constant stands before every event. -/
theorem next_activation_inexact : ¬∀ w, Reachable w → ∀ u now w', (w.users u).eventsQueue ≠ [] →
    (w.users u).soonerActivationTm ≤ now → userHandleRepeaterQueue u now w = .ok ⟨⟩ w' →
      ExactNext (w'.users u) := by
  intro claim
  let w := plainWorld [hourlyMessage 1700000000000000]
  have exact' := claim w (.init (plainWorld_initial _)) 0 1700000000000000 _ (by simp [w, plainWorld, plainUser])
    (by decide) (run_of_returned (a := ()) (by decide +kernel))
  obtain ⟨er, member, attained⟩ := exact'.attained
  have all : ∀ er ∈ ((after (userHandleRepeaterQueue 0 1700000000000000) w).users 0).eventsQueue,
      er.activationTm ≠ ((after (userHandleRepeaterQueue 0 1700000000000000) w).users
        0).soonerActivationTm := by
    decide +kernel
  exact all er member attained

end JabSimul
