import Mathlib.Data.List.Basic

/-!
Doubly linked lists in a store. The store is seen through the two pointers that
each cell has, and a list of cells is a segment between what is in front of it and
what is behind it.
-/
namespace SiblingList

variable {P : Type*}

/-- The cell at which a segment begins, or what is behind an empty one. -/
def start (l : List P) (after : Option P) : Option P := l.head?.or after

/-- The cell at which a segment ends, or what is in front of an empty one. -/
def stop (before : Option P) (l : List P) : Option P := l.getLast?.or before

@[simp]
theorem start_nil (after : Option P) : start [] after = after := rfl

@[simp]
theorem start_cons (x : P) (l : List P) (after : Option P) : start (x :: l) after = some x := rfl

@[simp]
theorem start_none (l : List P) : start l none = l.head? := Option.or_none

@[simp]
theorem stop_nil (before : Option P) : stop before [] = before := rfl

theorem stop_cons (before : Option P) (x : P) (l : List P) :
    stop before (x :: l) = stop (some x) l := by
  cases l with
  | nil => rfl
  | cons y l =>
    unfold stop
    rw [List.getLast?_cons_cons, List.getLast?_eq_some_getLast (List.cons_ne_nil y l)]
    rfl

theorem start_append (l₁ l₂ : List P) (after : Option P) :
    start (l₁ ++ l₂) after = start l₁ (start l₂ after) := by
  cases l₁ with
  | nil => rfl
  | cons x l₁ => rfl

/-- Every cell of the segment points to its neighbours. -/
def Links (prev next : P → Option P) : Option P → List P → Option P → Prop
  | _, [], _ => True
  | before, x :: l, after =>
      prev x = before ∧ next x = start l after ∧ Links prev next (some x) l after

variable {prev next prev' next' : P → Option P} {before after : Option P} {x : P}

theorem links_cons {l : List P} : Links prev next before (x :: l) after ↔
    prev x = before ∧ next x = start l after ∧ Links prev next (some x) l after := Iff.rfl

theorem links_append (l₁ l₂ : List P) :
    Links prev next before (l₁ ++ l₂) after ↔
      Links prev next before l₁ (start l₂ after) ∧ Links prev next (stop before l₁) l₂ after := by
  induction l₁ generalizing before with
  | nil => exact (true_and _).symm ▸ Iff.rfl
  | cons y l₁ ih =>
    rw [List.cons_append, links_cons, links_cons, start_append, ih, stop_cons, and_assoc, and_assoc]

/-- A segment stays one where the pointers of its cells do. -/
theorem Links.congr {l : List P} (links : Links prev next before l after)
    (same_prev : ∀ y ∈ l, prev' y = prev y) (same_next : ∀ y ∈ l, next' y = next y) :
    Links prev' next' before l after := by
  induction l generalizing before with
  | nil => trivial
  | cons y l ih =>
    obtain ⟨back, forth, links⟩ := links
    refine ⟨(same_prev y List.mem_cons_self).trans back, (same_next y List.mem_cons_self).trans forth, ?_⟩
    apply ih links
    · exact fun z member => same_prev z (List.mem_cons_of_mem _ member)
    · exact fun z member => same_next z (List.mem_cons_of_mem _ member)

theorem Links.next_eq {l₁ l₂ : List P} (links : Links prev next before (l₁ ++ x :: l₂) after) :
    next x = start l₂ after := ((links_append l₁ (x :: l₂)).mp links).2.2.1

/-- What is behind a cell is put in the place of what was there. -/
theorem Links.relink {l₁ l₂ l₂' : List P} (links : Links prev next before (l₁ ++ x :: l₂) after)
    (same_prev : ∀ y ∈ l₁, prev' y = prev y) (same_next : ∀ y ∈ l₁, next' y = next y)
    (back : prev' x = prev x) (forth : next' x = start l₂' after)
    (rest : Links prev' next' (some x) l₂' after) :
    Links prev' next' before (l₁ ++ x :: l₂') after := by
  obtain ⟨left, right⟩ := (links_append l₁ (x :: l₂)).mp links
  apply (links_append l₁ (x :: l₂')).mpr
  exact ⟨left.congr same_prev same_next, back.trans right.1, forth, rest⟩

/-- A new cell at the end. -/
theorem Links.snoc {l : List P} (links : Links prev next before l none)
    (same_prev : ∀ y ∈ l, prev' y = prev y)
    (same_next : ∀ y ∈ l, some y ≠ l.getLast? → next' y = next y) (nodup : l.Nodup)
    (tied : ∀ y, l.getLast? = some y → next' y = some x)
    (back : prev' x = stop before l) (forth : next' x = none) :
    Links prev' next' before (l ++ [x]) none := by
  rcases List.eq_nil_or_concat l with rfl | ⟨l, last, rfl⟩
  · exact ⟨back, forth, trivial⟩
  · rw [List.concat_eq_append] at *
    rw [List.append_assoc]
    have ends : (l ++ [last]).getLast? = some last := List.getLast?_concat
    refine Links.relink (links : Links prev next before (l ++ last :: []) none) ?_ ?_ ?_ ?_ ?_
    · exact fun y member => same_prev y (List.mem_append_left _ member)
    · intro y member
      apply same_next y (List.mem_append_left _ member)
      rw [ends]
      intro same
      have apart := (List.nodup_append.mp nodup).2.2
      exact apart y member last (List.mem_singleton.mpr rfl) (Option.some.inj same)
    · exact same_prev last (List.mem_append_right _ (List.mem_singleton.mpr rfl))
    · exact tied last ends
    · refine ⟨?_, forth, trivial⟩
      rw [back]
      unfold stop
      rw [ends]
      rfl

end SiblingList
