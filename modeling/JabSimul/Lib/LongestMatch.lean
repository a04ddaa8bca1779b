import Mathlib.Data.List.Basic

/-!
Scanning with rules: the rule that matches most of the input wins, and among
those the one that comes first.
-/
namespace LongestMatch

variable {α β : Type}

/-- `length` gives the longest beginning of the input that the pattern matches. -/
structure Rule (α β : Type) where
  length : List α → Option Nat
  action : β

def longest : List (Rule α β) → List α → Option (Nat × β)
  | [], _ => none
  | r :: rules, input =>
      match r.length input, longest rules input with
      | none, other => other
      | some n, none => some (n, r.action)
      | some n, some (k, b) => if n < k then some (k, b) else some (n, r.action)

/-- A pattern that is one text. -/
def text [BEq α] (t : List α) (input : List α) : Option Nat :=
  if t.isPrefixOf input then some t.length else none

variable {r : Rule α β} {rules : List (Rule α β)} {input : List α} {n k : Nat} {b : β}

theorem longest_cons : longest (r :: rules) input =
    match r.length input, longest rules input with
    | none, other => other
    | some n, none => some (n, r.action)
    | some n, some (k, b) => if n < k then some (k, b) else some (n, r.action) := rfl

theorem longest_skip (none : r.length input = none) :
    longest (r :: rules) input = longest rules input := by
  rw [longest_cons, none]

theorem longest_isSome {q : Rule α β} (member : q ∈ rules) (hit : q.length input = some n) :
    (longest rules input).isSome := by
  induction rules with
  | nil => cases member
  | cons r rules ih =>
    cases first : r.length input with
    | none =>
      rw [longest_skip first]
      rcases List.mem_cons.mp member with rfl | member
      · rw [first] at hit
        cases hit
      · exact ih member
    | some m =>
      rw [longest_cons, first]
      cases longest rules input with
      | none => rfl
      | some other =>
        dsimp only
        split <;> rfl

/-- No rule matches more than the one that wins. -/
theorem longest_max (winner : longest rules input = some (k, b)) {q : Rule α β}
    (member : q ∈ rules) (hit : q.length input = some n) : n ≤ k := by
  induction rules generalizing k b with
  | nil => cases member
  | cons r rules ih =>
    cases first : r.length input with
    | none =>
      rw [longest_skip first] at winner
      rcases List.mem_cons.mp member with rfl | member
      · rw [first] at hit
        cases hit
      · exact ih winner member
    | some m =>
      rw [longest_cons, first] at winner
      cases later : longest rules input with
      | none =>
        rw [later] at winner
        cases winner
        rcases List.mem_cons.mp member with rfl | member
        · rw [first] at hit
          cases hit
          exact Nat.le_refl _
        · have some' := longest_isSome member hit
          rw [later] at some'
          cases some'
      | some other =>
        rw [later] at winner
        dsimp only at winner
        split at winner
        · cases winner
          rcases List.mem_cons.mp member with rfl | member
          · rw [first] at hit
            cases hit
            omega
          · exact ih later member
        · cases winner
          rcases List.mem_cons.mp member with rfl | member
          · rw [first] at hit
            cases hit
            exact Nat.le_refl _
          · have bound := ih later member
            omega

/-- The winner is a rule that matches. -/
theorem longest_mem (winner : longest rules input = some (k, b)) :
    ∃ q ∈ rules, q.length input = some k ∧ q.action = b := by
  induction rules generalizing k b with
  | nil => cases winner
  | cons r rules ih =>
    cases first : r.length input with
    | none =>
      rw [longest_skip first] at winner
      obtain ⟨q, member, hit⟩ := ih winner
      exact ⟨q, List.mem_cons_of_mem _ member, hit⟩
    | some m =>
      rw [longest_cons, first] at winner
      cases later : longest rules input with
      | none =>
        rw [later] at winner
        cases winner
        exact ⟨r, List.mem_cons_self .., first, rfl⟩
      | some other =>
        rw [later] at winner
        dsimp only at winner
        split at winner
        · cases winner
          obtain ⟨q, member, hit⟩ := ih later
          exact ⟨q, List.mem_cons_of_mem _ member, hit⟩
        · cases winner
          exact ⟨r, List.mem_cons_self .., first, rfl⟩

/-- Inputs of which every rule matches equally much have the same winner. -/
theorem longest_congr {other : List α}
    (same : ∀ q ∈ rules, q.length other = q.length input) :
    longest rules other = longest rules input := by
  induction rules with
  | nil => rfl
  | cons r rules ih =>
    have rest := ih fun q member => same q (List.mem_cons_of_mem _ member)
    rw [longest_cons, longest_cons, same r (List.mem_cons_self ..), rest]

end LongestMatch
