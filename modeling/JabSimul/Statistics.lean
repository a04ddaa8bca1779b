import JabSimul.ThreadRefinement
import JabSimul.Lib.MovingWindow

/-!
A moving statistic: a circular table of the last samples, the number of them, and their
sum, which is brought up to date with every sample.
-/
namespace JabSimul

open MovingWindow Simulation

/-- `init_stat`. -/
def initStatNo (no : StatNo) (size : Nat) : M Unit :=
  modGlobals fun g => { g with statT := Function.update g.statT no (initStat size) }

/-- What `s` keeps after the samples `l`. -/
structure SStat.Keeps (s : SStat) (size : Nat) (l : List Int) : Prop where
  sized : s.statSize = size
  filled : s.statIntable = min l.length size
  ring : MovingWindow.Ring 0 size l s.statPos s.statTimes
  sum : s.statSumTimes = (window 0 size l).sum

theorem keeps_initStat {size : Nat} (some : 0 < size) : (initStat size).Keeps size [] := by
  have ring : MovingWindow.Ring (0 : Int) size [] 0 (List.replicate size 0) := .new 0 some
  refine ⟨rfl, (Nat.zero_min size).symm, ring, ?_⟩
  rw [sum_window, List.rtake_nil]
  rfl

theorem SStat.Keeps.add {s : SStat} {size : Nat} {l : List Int} (keeps : s.Keeps size l) (time : Int) :
    (addStat s time).Keeps size (l ++ [time]) := by
  obtain ⟨sized, filled, ring, sum⟩ := keeps
  obtain ⟨old, here, _⟩ := ring.oldest
  refine ⟨sized, ?_, ?_, ?_⟩
  · change (if s.statIntable < s.statSize then s.statIntable + 1 else s.statIntable) = _
    rw [filled, sized, List.length_append, List.length_singleton]
    split <;> omega
  · have pushed := ring.push time
    rw [← sized] at pushed ⊢
    exact pushed
  · change s.statSumTimes - (s.statTimes[s.statPos]?).getD 0 + time = _
    rw [ring.sum_push here, here, sum]
    rfl

/-- What is told of the samples. -/
theorem SStat.Keeps.told {s : SStat} {size : Nat} {l : List Int} (keeps : s.Keeps size l) (some : 0 < size) :
    getStat s = (l.rtake size).sum ∧
      getDivStat s = (l.rtake size).sum.tdiv (if l.length = 0 then 1 else min l.length size) := by
  obtain ⟨sized, filled, ring, sum⟩ := keeps
  rw [sum_window] at sum
  refine ⟨sum, ?_⟩
  rw [getDivStat, sum, filled]
  by_cases none : l.length = 0
  · rw [if_pos none, none, Nat.zero_min, if_pos rfl]
  · have count : ((min l.length size : Nat) : Int) = min (l.length : Int) size := by omega
    rw [if_neg none, if_neg (by omega), count]

section Table

variable {w : World} {no : StatNo}

/-- The samples of one statistic. -/
def samplesOf (no : StatNo) (calls : List (StatNo × Int)) : List Int :=
  (calls.filter (·.1 = no)).map Prod.snd

/-- Samples are added one after another. -/
def addStats : List (StatNo × Int) → M Unit
  | [] => pure ⟨⟩
  | call :: calls => do
      addStatNo call.1 call.2
      addStats calls

/-- Nothing but the table changes. -/
def World.withStats (w : World) (statT : StatNo → SStat) : World :=
  { w with globals := { w.globals with statT := statT } }

theorem statT_withStats (w : World) (statT : StatNo → SStat) :
    (w.withStats statT).globals.statT = statT := rfl

/-- The induction is on the samples; the first one belongs to the statistic or to another. -/
theorem addStats_keeps {size : Nat} {l : List Int} (keeps : (w.globals.statT no).Keeps size l)
    (calls : List (StatNo × Int)) : ∃ statT, addStats calls w = .ok ⟨⟩ (w.withStats statT) ∧
      (statT no).Keeps size (l ++ samplesOf no calls) ∧
      ∀ other, (∀ call ∈ calls, call.1 ≠ other) → statT other = w.globals.statT other := by
  induction calls generalizing w l with
  | nil =>
    refine ⟨w.globals.statT, rfl, ?_, fun _ _ => rfl⟩
    rw [samplesOf, List.filter_nil, List.map_nil, List.append_nil]
    exact keeps
  | cons call calls ih =>
    obtain ⟨first, time⟩ := call
    have added : addStatNo first time w = .ok ⟨⟩ (w.withStats (Function.update w.globals.statT first
      (addStat (w.globals.statT first) time))) := rfl
    simp only [addStats, bind_apply, added]
    by_cases same : first = no
    · subst same
      have more : ((w.withStats (Function.update w.globals.statT first
          (addStat (w.globals.statT first) time))).globals.statT first).Keeps size (l ++ [time]) := by
        rw [statT_withStats, Function.update_self]
        exact keeps.add time
      obtain ⟨statT, ran, keeps', others⟩ := ih more
      refine ⟨statT, ran, ?_, fun other apart => ?_⟩
      · rw [samplesOf, List.filter_cons_of_pos (by simp), List.map_cons]
        rw [List.append_assoc] at keeps'
        exact keeps'
      · rw [others other fun call later => apart call (List.mem_cons_of_mem _ later)]
        exact Function.update_of_ne (apart _ List.mem_cons_self).symm _ _
    · have kept : ((w.withStats (Function.update w.globals.statT first
          (addStat (w.globals.statT first) time))).globals.statT no).Keeps size l := by
        rw [statT_withStats, Function.update_of_ne (Ne.symm same)]
        exact keeps
      obtain ⟨statT, ran, keeps', others⟩ := ih kept
      refine ⟨statT, ran, ?_, fun other apart => ?_⟩
      · rw [samplesOf, List.filter_cons_of_neg (by simpa using same)]
        exact keeps'
      · rw [others other fun call later => apart call (List.mem_cons_of_mem _ later)]
        exact Function.update_of_ne (apart _ List.mem_cons_self).symm _ _

/-- A statistic tells the sum and the mean of its last samples, whatever is added to the
other ones in between, and leaves those as they are. -/
theorem moving_statistic (w : World) (no : StatNo) {size : Nat} (some : 0 < size)
    (calls : List (StatNo × Int)) : ∃ statT,
      (initStatNo no size >>= fun _ => addStats calls) w = .ok ⟨⟩ (w.withStats statT) ∧
      getStat (statT no) = ((samplesOf no calls).rtake size).sum ∧
      getDivStat (statT no) = ((samplesOf no calls).rtake size).sum.tdiv
        (if (samplesOf no calls).length = 0 then 1 else min (samplesOf no calls).length size) ∧
      (statT no).statPos < size ∧
      ∀ other, other ≠ no → (∀ call ∈ calls, call.1 ≠ other) → statT other = w.globals.statT other := by
  have begun : initStatNo no size w = .ok ⟨⟩ (w.withStats (Function.update w.globals.statT no
    (initStat size))) := rfl
  have keeps : ((w.withStats (Function.update w.globals.statT no (initStat size))).globals.statT no).Keeps
      size [] := by
    rw [statT_withStats, Function.update_self]
    exact keeps_initStat some
  obtain ⟨statT, ran, keeps', others⟩ := addStats_keeps keeps calls
  rw [List.nil_append] at keeps'
  obtain ⟨sum, mean⟩ := keeps'.told some
  refine ⟨statT, ?_, sum, mean, keeps'.ring.inside, fun other apart alone => ?_⟩
  · rw [bind_apply, begun]
    exact ran
  · rw [others other alone]
    exact Function.update_of_ne apart _ _

theorem moving_statistic_three : ∃ statT : StatNo → SStat,
    getStat (statT .mesg) = 16 ∧ getDivStat (statT .mesg) = 8 ∧
      statT .radd = (plainWorld []).globals.statT .radd := by
  obtain ⟨statT, _, sum, mean, _, others⟩ := moving_statistic (plainWorld []) .mesg (show 0 < 2 by decide)
    [(.mesg, 5), (.diff, 3), (.mesg, 7), (.mesg, 9)]
  exact ⟨statT, sum.trans (by decide), mean.trans (by decide), others .radd (by decide) (by decide)⟩

end Table

end JabSimul
