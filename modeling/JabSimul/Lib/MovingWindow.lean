import Mathlib.Data.List.Rotate
import Mathlib.Data.List.DropRight
import Mathlib.Algebra.BigOperators.Group.List.Basic

/-!
The last `s` of the values that came so far, and an array that keeps them: the place that
is written next holds the oldest of them.
-/
namespace MovingWindow

variable {α : Type} {d a : α} {s pos : Nat} {l cells : List α}

/-- The last `s` values, behind as many `d` as are missing. -/
def window (d : α) (s : Nat) (l : List α) : List α := List.replicate (s - l.length) d ++ l.rtake s

/-- The oldest value leaves. -/
theorem window_append (some : 0 < s) : window d s (l ++ [a]) = (window d s l).tail ++ [a] := by
  by_cases full : s ≤ l.length
  · have none : s - l.length = 0 := Nat.sub_eq_zero_of_le full
    have none' : s - (l ++ [a]).length = 0 := by
      rw [List.length_append]
      omega
    have next : (l ++ [a]).length - s = (l.length - s) + 1 := by
      rw [List.length_append, List.length_singleton]
      omega
    rw [window, window, none, none', List.replicate_zero, List.nil_append, List.nil_append, List.rtake, next,
      List.rtake, List.tail_drop, List.drop_append_of_le_length (by omega)]
  · have all : l.rtake s = l := by
      rw [List.rtake, Nat.sub_eq_zero_of_le (by omega), List.drop_zero]
    have all' : (l ++ [a]).rtake s = l ++ [a] := by
      rw [List.rtake, Nat.sub_eq_zero_of_le (by rw [List.length_append, List.length_singleton]; omega),
        List.drop_zero]
    obtain ⟨k, room⟩ : ∃ k, s - l.length = k + 1 := ⟨s - l.length - 1, by omega⟩
    have room' : s - (l ++ [a]).length = k := by
      rw [List.length_append, List.length_singleton]
      omega
    rw [window, window, room, room', all, all', List.replicate_succ, List.cons_append, List.tail_cons,
      List.append_assoc]

theorem sum_window [AddMonoid α] (s : Nat) (l : List α) : (window 0 s l).sum = (l.rtake s).sum := by
  rw [window, List.sum_append, List.sum_replicate, nsmul_zero, zero_add]

/-- An array whose place `pos` is the first one of the window. -/
structure Ring (d : α) (s : Nat) (l : List α) (pos : Nat) (cells : List α) : Prop where
  inside : pos < s
  length : cells.length = s
  order : cells.rotate pos = window d s l

theorem Ring.new (d : α) (some : 0 < s) : Ring d s [] 0 (List.replicate s d) := by
  refine ⟨some, List.length_replicate, ?_⟩
  rw [List.rotate_zero, window, List.rtake, List.drop_nil, List.append_nil]
  rfl

theorem Ring.oldest (ring : Ring d s l pos cells) : ∃ old, cells[pos]? = some old ∧
    window d s l = old :: (window d s l).tail := by
  have here : pos < cells.length := ring.length ▸ ring.inside
  refine ⟨cells[pos], List.getElem?_eq_getElem here, ?_⟩
  rw [← ring.order, List.rotate_eq_drop_append_take (Nat.le_of_lt here), List.drop_eq_getElem_cons here,
    List.cons_append, List.tail_cons]

/-- The next value takes the place of the oldest one. -/
theorem Ring.push (ring : Ring d s l pos cells) (a : α) :
    Ring d s (l ++ [a]) (if pos + 1 ≥ s then 0 else pos + 1) (cells.set pos a) := by
  obtain ⟨inside, length, order⟩ := ring
  have here : pos < cells.length := length ▸ inside
  rw [List.rotate_eq_drop_append_take (Nat.le_of_lt here), List.drop_eq_getElem_cons here,
    List.cons_append] at order
  have next : (cells.set pos a).rotate (pos + 1) = window d s (l ++ [a]) := by
    have long : pos + 1 ≤ (cells.set pos a).length := by
      rw [List.length_set]
      omega
    rw [window_append (by omega), ← order, List.tail_cons, List.rotate_eq_drop_append_take long,
      List.drop_set_of_lt (Nat.lt_succ_self pos), List.take_add_one, List.take_set_of_le (Nat.le_refl pos),
      List.getElem?_set_self here]
    simp
  refine ⟨?_, by rw [List.length_set, length], ?_⟩
  · split <;> omega
  · split
    · have whole : pos + 1 = (cells.set pos a).length := by
        rw [List.length_set]
        omega
      rw [whole, List.rotate_length] at next
      rw [List.rotate_zero]
      exact next
    · exact next

theorem Ring.sum_push [AddCommGroup α] {old : α} (ring : Ring 0 s l pos cells)
    (here : cells[pos]? = some old) :
    (window 0 s (l ++ [a])).sum = (window 0 s l).sum - old + a := by
  obtain ⟨old', same, first⟩ := ring.oldest
  cases here.symm.trans same
  have some : 0 < s := Nat.lt_of_le_of_lt (Nat.zero_le pos) ring.inside
  rw [window_append some, List.sum_append, List.sum_singleton]
  conv_rhs => rw [first, List.sum_cons]
  rw [add_sub_cancel_left]

end MovingWindow
