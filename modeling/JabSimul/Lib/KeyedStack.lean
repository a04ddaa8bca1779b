import Mathlib.Data.List.Perm.Basic

/-!
A stack from which the last entry with a given key can be taken, wherever it stands.
A history is a list of what was pushed and what was taken, the last operation first.
-/
namespace KeyedStack

variable {α κ : Type} [DecidableEq κ] (key : α → κ)

/-- The entry with the key that was pushed last, and the stack without it. -/
def take (k : κ) : List α → Option α × List α
  | [] => (none, [])
  | a :: rest =>
      if key a = k then (some a, rest) else ((take k rest).1, a :: (take k rest).2)

variable {key}

theorem take_cons_same {k : κ} {a : α} (same : key a = k) (rest : List α) :
    take key k (a :: rest) = (some a, rest) := by
  rw [take, if_pos same]

theorem take_cons_other {k : κ} {a : α} (other : key a ≠ k) (rest : List α) :
    take key k (a :: rest) = ((take key k rest).1, a :: (take key k rest).2) := by
  rw [take, if_neg other]

theorem take_absent {k : κ} {stack : List α} (absent : ∀ a ∈ stack, key a ≠ k) :
    take key k stack = (none, stack) := by
  induction stack with
  | nil => rfl
  | cons a rest ih =>
    rw [take_cons_other (absent a List.mem_cons_self),
      ih fun b mem => absent b (List.mem_cons_of_mem _ mem)]

theorem absent_of_take {k : κ} {stack : List α} (none : (take key k stack).1 = none) :
    ∀ a ∈ stack, key a ≠ k := by
  induction stack with
  | nil => simp
  | cons b rest ih =>
    by_cases same : key b = k
    · rw [take_cons_same same] at none
      cases none
    · rw [take_cons_other same] at none
      exact List.forall_mem_cons.mpr ⟨same, ih none⟩

/-- What stood before and behind the entry keeps its order. -/
theorem take_split {k : κ} {before later : List α} {a : α} (same : key a = k)
    (newer : ∀ b ∈ before, key b ≠ k) :
    take key k (before ++ a :: later) = (some a, before ++ later) := by
  induction before with
  | nil => exact take_cons_same same later
  | cons b before ih =>
    rw [List.cons_append, take_cons_other (newer b List.mem_cons_self),
      ih fun c mem => newer c (List.mem_cons_of_mem _ mem)]
    rfl

theorem take_perm {k : κ} {stack rest : List α} {a : α} (found : take key k stack = (some a, rest)) :
    stack.Perm (a :: rest) := by
  induction stack generalizing rest with
  | nil => cases found
  | cons b stack ih =>
    by_cases same : key b = k
    · rw [take_cons_same same] at found
      cases found
      exact .refl _
    · rw [take_cons_other same] at found
      injection found with first second
      subst second
      exact ((ih (Prod.ext first rfl)).cons b).trans (.swap a b _)

/-- Two keys are independent. -/
theorem take_comm {j k : κ} (differ : j ≠ k) (stack : List α) :
    (take key j (take key k stack).2).1 = (take key j stack).1 ∧
      (take key j (take key k stack).2).2 = (take key k (take key j stack).2).2 := by
  induction stack with
  | nil => exact ⟨rfl, rfl⟩
  | cons a rest ih =>
    by_cases first : key a = j
    · have other : key a ≠ k := fun second => differ (first.symm.trans second)
      rw [take_cons_other other, take_cons_same first, take_cons_same first]
      exact ⟨rfl, rfl⟩
    · rw [take_cons_other first]
      by_cases second : key a = k
      · rw [take_cons_same second, take_cons_same second]
        exact ⟨rfl, rfl⟩
      · rw [take_cons_other second, take_cons_other first, take_cons_other second]
        exact ⟨ih.1, congrArg (a :: ·) ih.2⟩

inductive Op (α : Type) where
  | push (a : α)
  | take (a : α)

def Op.pushed : Op α → Option α
  | .push a => some a
  | .take _ => none

def Op.taken : Op α → Option α
  | .push _ => none
  | .take a => some a

variable (key)

/-- The operations lead to the stack, and each taken entry was the last with its key. -/
inductive History : List (Op α) → List α → Prop
  | start : History [] []
  | push {ops stack} (a : α) (before : History ops stack) : History (.push a :: ops) (a :: stack)
  | take {ops stack rest} {a : α} (before : History ops stack)
      (found : take key (key a) stack = (some a, rest)) : History (.take a :: ops) rest

variable {key}

theorem History.pushes {ops : List (Op α)} {stack : List α} (history : History key ops stack)
    (entries : List α) : History key (entries.map .push ++ ops) (entries ++ stack) := by
  induction entries with
  | nil => exact history
  | cons a entries ih => exact .push a ih

/-- What was pushed was taken or is there, each as often as it was pushed. -/
theorem History.perm {ops : List (Op α)} {stack : List α} (history : History key ops stack) :
    (ops.filterMap Op.pushed).Perm (ops.filterMap Op.taken ++ stack) := by
  induction history with
  | start => exact .refl _
  | push a before ih => exact (ih.cons a).trans List.perm_middle.symm
  | @take ops stack rest a before found ih =>
    refine ih.trans ?_
    change (ops.filterMap Op.taken ++ stack).Perm (a :: (ops.filterMap Op.taken ++ rest))
    exact ((take_perm found).append_left _).trans List.perm_middle

theorem take_sublist (k : κ) (stack : List α) : (take key k stack).2.Sublist stack := by
  induction stack with
  | nil => exact .refl _
  | cons a rest ih =>
    by_cases same : key a = k
    · rw [take_cons_same same]
      exact List.sublist_cons_self a rest
    · rw [take_cons_other same]
      exact ih.cons_cons a

/-- What is there stands in the order of the pushes. -/
theorem History.sublist {ops : List (Op α)} {stack : List α} (history : History key ops stack) :
    stack.Sublist (ops.filterMap Op.pushed) := by
  induction history with
  | start => exact .refl _
  | push a before ih => exact ih.cons_cons a
  | @take ops stack rest a before found ih =>
    have shrunk : (KeyedStack.take key (key a) stack).2.Sublist stack := take_sublist (key a) stack
    rw [found] at shrunk
    exact shrunk.trans ih

end KeyedStack
