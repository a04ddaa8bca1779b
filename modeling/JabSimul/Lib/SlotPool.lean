import Mathlib.Data.List.Nodup
import Mathlib.Data.List.Range

/-!
A pool of numbered slots with a free list and a high-water mark. New slots are
numbered from the mark on, although giving back the highest slot lowers it; an
empty free list is what makes that safe. Slots below `first` are never used.
-/
namespace SlotPool

variable {κ : Type}

structure Pool (κ : Type) where
  free : List Nat
  high : Nat
  owner : Nat → Option κ

namespace Pool

def grow (p : Pool κ) (batch : Nat) : Pool κ :=
  { p with free := List.range' (p.high + 1) batch ++ p.free }

/-- The owner `k` takes the slot `i`, which stood in front of `next`. -/
def take (p : Pool κ) (i : Nat) (next : List Nat) (k : κ) : Pool κ :=
  ⟨next, max i p.high, Function.update p.owner i (some k)⟩

def give (p : Pool κ) (i : Nat) : Pool κ :=
  ⟨i :: p.free, if p.high = i then p.high - 1 else p.high, Function.update p.owner i none⟩

/-- Exactly the slots from `first` to `issued` are free or owned, each once. -/
structure Valid (first issued : Nat) (p : Pool κ) : Prop where
  nonempty : first ≤ issued
  nodup : p.free.Nodup
  issued_iff : ∀ i, first ≤ i ∧ i ≤ issued ↔ i ∈ p.free ∨ (p.owner i).isSome
  apart : ∀ i ∈ p.free, p.owner i = none
  below : ∀ i, (p.owner i).isSome → i ≤ p.high
  high_le : p.high ≤ issued

variable {first issued : Nat} {p : Pool κ}

namespace Valid

theorem bounds_of_free (valid : p.Valid first issued) {i : Nat} (free : i ∈ p.free) :
    first ≤ i ∧ i ≤ issued :=
  (valid.issued_iff i).mpr (.inl free)

theorem bounds_of_owned (valid : p.Valid first issued) {i : Nat} (owned : (p.owner i).isSome) :
    first ≤ i ∧ i ≤ issued :=
  (valid.issued_iff i).mpr (.inr owned)

theorem not_free_of_owned (valid : p.Valid first issued) {i : Nat} (owned : (p.owner i).isSome) :
    i ∉ p.free := by
  intro free
  rw [valid.apart i free] at owned
  cases owned

/-- Without a free slot the mark is at the last slot that was ever issued. -/
theorem high_eq (valid : p.Valid first issued) (empty : p.free = []) : p.high = issued := by
  refine Nat.le_antisymm valid.high_le (valid.below issued ?_)
  rcases (valid.issued_iff issued).mp ⟨valid.nonempty, Nat.le_refl _⟩ with free | owned
  · rw [empty] at free
    cases free
  · exact owned

theorem grow (valid : p.Valid first issued) (empty : p.free = []) (batch : Nat) :
    (p.grow batch).Valid first (issued + batch) := by
  have high := valid.high_eq empty
  have mem : ∀ i, i ∈ (p.grow batch).free ↔ issued < i ∧ i ≤ issued + batch := by
    intro i
    simp only [Pool.grow, empty, List.append_nil, List.mem_range'_1, high]
    omega
  refine ⟨?_, ?_, fun i => ?_, fun i free => ?_, valid.below, ?_⟩
  · exact Nat.le_trans valid.nonempty (Nat.le_add_right _ _)
  · simp only [Pool.grow, empty, List.append_nil]
    exact List.nodup_range'
  · rw [mem]
    have old := valid.issued_iff i
    rw [empty] at old
    have split : (first ≤ i ∧ i ≤ issued) ↔ (p.owner i).isSome := by simpa using old
    change _ ↔ _ ∨ (p.owner i).isSome
    rw [← split]
    have nonempty := valid.nonempty
    omega
  · rw [mem] at free
    change p.owner i = none
    rw [← Option.not_isSome_iff_eq_none]
    intro owned
    have bounds := valid.bounds_of_owned owned
    omega
  · exact Nat.le_trans valid.high_le (Nat.le_add_right _ _)

theorem take (valid : p.Valid first issued) {i : Nat} {next : List Nat} (k : κ)
    (front : p.free = i :: next) : (p.take i next k).Valid first issued := by
  have nodup := valid.nodup
  rw [front, List.nodup_cons] at nodup
  have bounds := valid.bounds_of_free (i := i) (by simp [front])
  refine ⟨valid.nonempty, nodup.2, fun j => ?_, fun j free => ?_, fun j owned => ?_, ?_⟩
  · rw [valid.issued_iff j, front]
    by_cases same : j = i
    · simp [Pool.take, same]
    · simp [Pool.take, same]
  · have other : j ≠ i := by
      rintro rfl
      exact nodup.1 free
    simp only [Pool.take, Function.update_of_ne other]
    exact valid.apart j (by rw [front]; exact List.mem_cons_of_mem _ free)
  · by_cases same : j = i
    · exact same ▸ Nat.le_max_left _ _
    · simp only [Pool.take, Function.update_of_ne same] at owned
      exact Nat.le_trans (valid.below j owned) (Nat.le_max_right _ _)
  · exact Nat.max_le.mpr ⟨bounds.2, valid.high_le⟩

theorem give (valid : p.Valid first issued) {i : Nat} (owned : (p.owner i).isSome) :
    (p.give i).Valid first issued := by
  refine ⟨valid.nonempty, ?_, fun j => ?_, fun j free => ?_, fun j still => ?_, ?_⟩
  · exact List.nodup_cons.mpr ⟨valid.not_free_of_owned owned, valid.nodup⟩
  · rw [valid.issued_iff j]
    by_cases same : j = i
    · simp [Pool.give, same, owned]
    · simp [Pool.give, same]
  · by_cases same : j = i
    · simp [Pool.give, same]
    · simp only [Pool.give, List.mem_cons, same, false_or] at free
      simp only [Pool.give, Function.update_of_ne same]
      exact valid.apart j free
  · have other : j ≠ i := by
      rintro rfl
      simp [Pool.give] at still
    simp only [Pool.give, Function.update_of_ne other] at still
    have bound := valid.below j still
    simp only [Pool.give]
    split
    · omega
    · exact bound
  · have bound := valid.high_le
    simp only [Pool.give]
    split <;> omega

/-- Nothing leaks and nothing is there twice. -/
theorem count_eq_one (valid : p.Valid first issued) {i : Nat} (bounds : first ≤ i ∧ i ≤ issued) :
    p.free.count i + (if (p.owner i).isSome then 1 else 0) = 1 := by
  rcases (valid.issued_iff i).mp bounds with free | owned
  · simp [List.count_eq_one_of_mem valid.nodup free, valid.apart i free]
  · simp [List.count_eq_zero_of_not_mem (valid.not_free_of_owned owned), owned]

end Valid

end Pool

end SlotPool
