import Mathlib.Data.List.Basic

/-!
Texts made of fields. A field is a run of allowed symbols, not empty, with a symbol
behind it that is not allowed. Reading is the inverse of writing, so the fields of a
text are those that it was written with.
-/
namespace DelimitedFields

variable {α β : Type}

/-- The symbol that ends a field is not allowed in it. -/
structure Field (α : Type) where
  allowed : α → Bool
  stop : α
  stops : allowed stop = false

/-- A value that a field can have. -/
structure Field.Holds (f : Field α) (v : List α) : Prop where
  some : v ≠ []
  all : ∀ c ∈ v, f.allowed c = true

def write : List (Field α) → List (List α) → List α → List α
  | f :: fs, v :: vs, rest => v ++ f.stop :: write fs vs rest
  | _, _, rest => rest

variable {f : Field α} {fs : List (Field α)} {s v rest : List α} {vs : List (List α)}

theorem Field.Holds.takeWhile (holds : f.Holds v) (rest : List α) :
    (v ++ f.stop :: rest).takeWhile f.allowed = v := by
  rw [List.takeWhile_append_of_pos holds.all, List.takeWhile_cons_of_neg (by simp [f.stops]),
    List.append_nil]

theorem Field.Holds.dropWhile (holds : f.Holds v) (rest : List α) :
    (v ++ f.stop :: rest).dropWhile f.allowed = f.stop :: rest := by
  rw [List.dropWhile_append_of_pos holds.all, List.dropWhile_cons_of_neg (by simp [f.stops])]

section Reading

variable [DecidableEq α]

def readField (f : Field α) (s : List α) : Option (List α × List α) :=
  match s.dropWhile f.allowed with
  | [] => none
  | c :: rest => if c = f.stop ∧ s.takeWhile f.allowed ≠ [] then some (s.takeWhile f.allowed, rest)
    else none

def read : List (Field α) → List α → Option (List (List α) × List α)
  | [], s => some ([], s)
  | f :: fs, s => (readField f s).bind fun r => (read fs r.2).map fun t => (r.1 :: t.1, t.2)

theorem readField_iff : readField f s = some (v, rest) ↔ f.Holds v ∧ s = v ++ f.stop :: rest := by
  have split : s = s.takeWhile f.allowed ++ s.dropWhile f.allowed := List.takeWhile_append_dropWhile.symm
  constructor
  · intro ran
    unfold readField at ran
    cases more : s.dropWhile f.allowed with
    | nil =>
      rw [more] at ran
      cases ran
    | cons c t =>
      rw [more] at ran split
      dsimp only at ran
      split at ran
      · rename_i ends
        cases ran
        rw [ends.1] at split
        exact ⟨⟨ends.2, fun c mem => List.all_eq_true.mp List.all_takeWhile c mem⟩, split⟩
      · cases ran
  · rintro ⟨holds, rfl⟩
    rw [readField, holds.dropWhile, holds.takeWhile]
    exact if_pos ⟨rfl, holds.some⟩

/-- The induction is on the fields. -/
theorem read_iff : read fs s = some (vs, rest) ↔ List.Forall₂ Field.Holds fs vs ∧ s = write fs vs rest := by
  induction fs generalizing s vs with
  | nil =>
    constructor
    · intro ran
      cases ran
      exact ⟨.nil, rfl⟩
    · rintro ⟨holds, rfl⟩
      cases holds
      rfl
  | cons f fs ih =>
    constructor
    · intro ran
      rw [read, Option.bind_eq_some_iff] at ran
      obtain ⟨⟨v, t⟩, first, ran⟩ := ran
      rw [Option.map_eq_some_iff] at ran
      obtain ⟨⟨us, u⟩, more, same⟩ := ran
      cases same
      obtain ⟨holds, rfl⟩ := readField_iff.mp first
      obtain ⟨all, rfl⟩ := ih.mp more
      exact ⟨.cons holds all, rfl⟩
    · rintro ⟨holds, rfl⟩
      cases holds with
      | @cons _ v _ us here more =>
        have first : readField f (v ++ f.stop :: write fs us rest) = some (v, write fs us rest) :=
          readField_iff.mpr ⟨here, rfl⟩
        rw [read, write, first, Option.bind_some, ih.mpr ⟨more, rfl⟩]
        rfl

/-- Two ways to take a text apart are the same. -/
theorem write_injective {vs' : List (List α)} {rest' : List α} (holds : List.Forall₂ Field.Holds fs vs)
    (holds' : List.Forall₂ Field.Holds fs vs') (same : write fs vs rest = write fs vs' rest') :
    vs = vs' ∧ rest = rest' := by
  have first : read fs (write fs vs rest) = some (vs, rest) := read_iff.mpr ⟨holds, rfl⟩
  have second : read fs (write fs vs rest) = some (vs', rest') := read_iff.mpr ⟨holds', same⟩
  rw [first, Option.some.injEq, Prod.mk.injEq] at second
  exact second

end Reading

/-- The first position at which `p` finds something. -/
def search (p : List α → Option β) : List α → Option β
  | [] => none
  | c :: s => (p (c :: s)).or (search p s)

theorem search_iff {p : List α → Option β} {s : List α} {b : β} (nothing : p [] = none) :
    search p s = some b ↔ ∃ n, p (s.drop n) = some b ∧ ∀ m < n, p (s.drop m) = none := by
  induction s with
  | nil => simp [search, nothing]
  | cons c s ih =>
    rw [search]
    cases here : p (c :: s) with
    | some a =>
      constructor
      · intro found
        exact ⟨0, here.trans found, fun m early => absurd early (Nat.not_lt_zero m)⟩
      · rintro ⟨n, found, first⟩
        cases n with
        | zero => exact here.symm.trans found
        | succ n => exact absurd (first 0 (Nat.succ_pos n)) (by simp [here])
    | none =>
      rw [Option.none_or, ih]
      constructor
      · rintro ⟨n, found, first⟩
        refine ⟨n + 1, found, fun m early => ?_⟩
        cases m with
        | zero => exact here
        | succ m => exact first m (Nat.lt_of_succ_lt_succ early)
      · rintro ⟨n, found, first⟩
        cases n with
        | zero =>
          rw [List.drop_zero, here] at found
          cases found
        | succ n => exact ⟨n, found, fun m early => first (m + 1) (Nat.succ_lt_succ early)⟩

end DelimitedFields
