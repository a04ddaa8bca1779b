import Mathlib.Data.List.Basic
import Mathlib.Logic.Function.Basic

/-!
A block of memory that a program writes into. Nothing stops a store behind the end
of the block, it is only remembered.
-/
namespace MemoryBlock

variable {α : Type}

/-- `cell` is empty where nothing was stored yet. -/
structure Block (α : Type) where
  size : Int
  cell : Nat → Option α
  overrun : Bool

namespace Block

def put (b : Block α) (i : Nat) (a : α) : Block α :=
  { b with
    cell := Function.update b.cell i (some a)
    overrun := b.overrun || decide (b.size ≤ i) }

/-- Consecutive stores, the first one at `i`. -/
def puts (b : Block α) (i : Nat) : List α → Block α
  | [] => b
  | a :: l => (b.put i a).puts (i + 1) l

/-- The block begins with `l`. -/
def Begins (b : Block α) (l : List α) : Prop := ∀ i, i < l.length → b.cell i = l[i]?

variable {b : Block α} {i j : Nat} {a : α} {l m : List α}

@[simp] theorem size_put : (b.put i a).size = b.size := rfl

@[simp] theorem size_puts : (b.puts i l).size = b.size := by
  induction l generalizing b i with
  | nil => rfl
  | cons a l ih => rw [puts, ih, size_put]

/-- Stores elsewhere leave a cell alone. -/
theorem cell_put_of_ne (other : j ≠ i) : (b.put i a).cell j = b.cell j := Function.update_of_ne other _ _

theorem cell_put_self : (b.put i a).cell i = some a := Function.update_self _ _ _

theorem cell_puts_of_lt (before : j < i) : (b.puts i l).cell j = b.cell j := by
  induction l generalizing b i with
  | nil => rfl
  | cons a l ih =>
    rw [puts, ih (Nat.lt_succ_of_lt before)]
    exact cell_put_of_ne (Nat.ne_of_lt before)

theorem cell_puts (inside : j < l.length) : (b.puts i l).cell (i + j) = l[j]? := by
  induction l generalizing b i j with
  | nil => cases inside
  | cons a l ih =>
    cases j with
    | zero => exact (cell_puts_of_lt (Nat.lt_succ_self i)).trans cell_put_self
    | succ j =>
      have moved : i + (j + 1) = i + 1 + j := by omega
      rw [puts, moved, List.getElem?_cons_succ]
      exact ih (Nat.lt_of_succ_lt_succ inside)

theorem overrun_put : (b.put i a).overrun = true ↔ b.overrun = true ∨ b.size ≤ i := by
  rw [put, Bool.or_eq_true, decide_eq_true_iff]

/-- The last of the stores decides. -/
theorem overrun_puts : (b.puts i l).overrun = true ↔
    b.overrun = true ∨ l ≠ [] ∧ b.size < (i + l.length : Nat) := by
  induction l generalizing b i with
  | nil => simp [puts]
  | cons a l ih =>
    rw [puts, ih, overrun_put, size_put, List.length_cons]
    cases l with
    | nil =>
      simp only [List.length_nil, ne_eq, not_true, false_and, or_false, reduceCtorEq, not_false_eq_true,
        true_and]
      exact or_congr_right (by omega)
    | cons c l =>
      simp only [List.length_cons, ne_eq, reduceCtorEq, not_false_eq_true, true_and, or_assoc]
      exact or_congr_right (by omega)

theorem begins_nil : b.Begins [] := fun _ inside => absurd inside (Nat.not_lt_zero _)

/-- What is stored behind a beginning extends it. -/
theorem Begins.puts (begins : b.Begins l) : (b.puts l.length m).Begins (l ++ m) := by
  intro j inside
  by_cases before : j < l.length
  · rw [cell_puts_of_lt before, List.getElem?_append_left before]
    exact begins j before
  · obtain ⟨k, rfl⟩ := Nat.exists_eq_add_of_le (Nat.le_of_not_lt before)
    rw [List.length_append] at inside
    rw [cell_puts (Nat.lt_of_add_lt_add_left inside), List.getElem?_append_right (Nat.le_add_right _ _),
      Nat.add_sub_cancel_left]

theorem Begins.put (begins : b.Begins l) : (b.put l.length a).Begins (l ++ [a]) := begins.puts (m := [a])

theorem Begins.of_append (begins : b.Begins (l ++ m)) : b.Begins l := by
  intro j inside
  rw [begins j (by rw [List.length_append]; omega), List.getElem?_append_left inside]

end Block

end MemoryBlock
