import Mathlib.Data.Nat.Init

/-!
Recursions that are given a number of steps. Such a recursion comes to its end where
some number of steps is enough for a result, and every larger one for the same.
-/
namespace Fuel

variable {α β : Type*} {f g : Nat → Option α} {a a' : α} {b : β}

def Ends (f : Nat → Option α) (a : α) : Prop := ∃ N, ∀ fuel, N ≤ fuel → f fuel = some a

theorem Ends.always (a : α) : Ends (fun _ => some a) a := ⟨0, fun _ _ => rfl⟩

theorem Ends.succ (ends : Ends g a) (same : ∀ fuel, f (fuel + 1) = g fuel) : Ends f a := by
  obtain ⟨N, ends⟩ := ends
  refine ⟨N + 1, fun fuel enough => ?_⟩
  obtain ⟨fuel, rfl⟩ : ∃ n, fuel = n + 1 := ⟨fuel - 1, by omega⟩
  rw [same]
  exact ends fuel (Nat.le_of_succ_le_succ enough)

theorem Ends.bind {h : Nat → α → Option β} (first : Ends f a) (second : Ends (fun fuel => h fuel a) b) :
    Ends (fun fuel => (f fuel).bind (h fuel)) b := by
  obtain ⟨N, first⟩ := first
  obtain ⟨M, second⟩ := second
  refine ⟨max N M, fun fuel enough => ?_⟩
  dsimp only
  rw [first fuel (Nat.le_trans (Nat.le_max_left N M) enough)]
  exact second fuel (Nat.le_trans (Nat.le_max_right N M) enough)

theorem Ends.unique (ends : Ends f a) (ends' : Ends f a') : a = a' := by
  obtain ⟨N, ends⟩ := ends
  obtain ⟨M, ends'⟩ := ends'
  have here := ends (max N M) (Nat.le_max_left N M)
  rw [ends' (max N M) (Nat.le_max_right N M)] at here
  exact (Option.some.inj here).symm

/-- One result is enough where a step more never changes one. -/
theorem Ends.of_steady (steady : ∀ fuel r, f fuel = some r → f (fuel + 1) = some r) {N : Nat} (ran : f N = some a) :
    Ends f a := by
  refine ⟨N, fun fuel enough => ?_⟩
  induction fuel, enough using Nat.le_induction with
  | base => exact ran
  | succ fuel enough ih => exact steady fuel a ih

end Fuel
