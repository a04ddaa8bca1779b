import Mathlib.Data.List.Infix

/-!
Monitors of traces. A monitor reads the events of a trace one by one and moves
between phases; it accepts a trace when it finds a move for every event. Traces
are lists with the last event first.
-/
namespace Traces

variable {ε σ : Type}

structure Monitor (ε σ : Type) where
  start : σ
  Next : σ → ε → σ → Prop

inductive Accepts (m : Monitor ε σ) : List ε → σ → Prop
  | start : Accepts m [] m.start
  | step {trace : List ε} {e : ε} {p q : σ} (before : Accepts m trace p) (next : m.Next p e q) :
      Accepts m (e :: trace) q

variable {m : Monitor ε σ} {trace rest : List ε} {e : ε} {p q : σ}

/-- Every event of an accepted trace was a move, from what was accepted before it. -/
theorem Accepts.of_suffix (accepts : Accepts m trace q) (suffix : e :: rest <:+ trace) :
    ∃ p p', Accepts m rest p ∧ m.Next p e p' ∧ Accepts m (e :: rest) p' := by
  induction accepts with
  | start => exact absurd (List.suffix_nil.mp suffix) (List.cons_ne_nil _ _)
  | @step trace e' p q before next ih =>
    rcases List.suffix_cons_iff.mp suffix with same | inner
    · cases same
      exact ⟨p, q, before, next, before.step next⟩
    · exact ih inner

/-- What holds at the start and along every move holds of every accepted trace. -/
theorem Accepts.induct {K : List ε → σ → Prop} (accepts : Accepts m trace q) (first : K [] m.start)
    (keeps : ∀ {trace e p q}, K trace p → m.Next p e q → K (e :: trace) q) : K trace q := by
  induction accepts with
  | start => exact first
  | step _ next ih => exact keeps ih next

/-- An event that spends the monitor, which stays spent, happens at most once. -/
theorem Accepts.countP_le_one {P : ε → Bool} (Spent : σ → Prop) (accepts : Accepts m trace q)
    (spends : ∀ {p e q}, m.Next p e q → P e = true → ¬Spent p ∧ Spent q)
    (stays : ∀ {p e q}, m.Next p e q → Spent p → Spent q) :
    trace.countP P ≤ 1 ∧ (¬Spent q → trace.countP P = 0) := by
  refine accepts.induct (K := fun trace q =>
    trace.countP P ≤ 1 ∧ (¬Spent q → trace.countP P = 0)) ⟨Nat.zero_le _, fun _ => rfl⟩ ?_
  rintro trace e p q ⟨once, none⟩ next
  by_cases hit : P e = true
  · obtain ⟨unspent, spent⟩ := spends next hit
    rw [List.countP_cons_of_pos hit, none unspent]
    exact ⟨Nat.le_refl _, fun still => absurd spent still⟩
  · rw [List.countP_cons_of_neg hit]
    exact ⟨once, fun unspent => none fun spent => unspent (stays next spent)⟩

end Traces
