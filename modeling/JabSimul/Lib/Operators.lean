import Mathlib.Data.List.Basic
import Mathlib.Data.Option.Basic

/-!
Expressions over two levels of binary operators that associate to the left, with
parentheses, and the shift-reduce machine that evaluates them. The operators of
the inner level may fail. The machine comes through a sequence of tokens exactly
when some expression begins with it and has a value.
-/
namespace Operators

inductive Tok (V A B : Type) where
  | atom (v : V)
  | add (a : A)
  | mul (b : B)
  | left
  | right
  deriving DecidableEq

inductive Rank where
  | atom
  | product
  | sum

/-- Expressions by the loosest operator that may stand outside of parentheses. -/
inductive Tree (V A B : Type) : Rank → Type where
  | leaf (v : V) : Tree V A B .atom
  | paren (e : Tree V A B .sum) : Tree V A B .atom
  | factor (e : Tree V A B .atom) : Tree V A B .product
  | mul (l : Tree V A B .product) (b : B) (r : Tree V A B .atom) : Tree V A B .product
  | term (e : Tree V A B .product) : Tree V A B .sum
  | add (l : Tree V A B .sum) (a : A) (r : Tree V A B .product) : Tree V A B .sum

/-- What the operators do. -/
structure Meaning (V A B : Type) where
  add : A → V → V → V
  mul : B → V → V → Option V

variable {V A B : Type}

namespace Tree

def tokens : {r : Rank} → Tree V A B r → List (Tok V A B)
  | _, .leaf v => [.atom v]
  | _, .paren e => .left :: (e.tokens ++ [.right])
  | _, .factor e => e.tokens
  | _, .mul l b r => l.tokens ++ .mul b :: r.tokens
  | _, .term e => e.tokens
  | _, .add l a r => l.tokens ++ .add a :: r.tokens

def eval (m : Meaning V A B) : {r : Rank} → Tree V A B r → Option V
  | _, .leaf v => some v
  | _, .paren e => e.eval m
  | _, .factor e => e.eval m
  | _, .mul l b r => do m.mul b (← l.eval m) (← r.eval m)
  | _, .term e => e.eval m
  | _, .add l a r => return m.add a (← l.eval m) (← r.eval m)

end Tree

/-- The sum and the product whose right operands are still to come. -/
structure Frame (V A B : Type) where
  sum : Option (V × A)
  product : Option (V × B)

/-- The stack, with a frame for each parenthesis that is open. -/
inductive State (V A B : Type) where
  | operand (outer : List (Frame V A B)) (frame : Frame V A B)
  | value (outer : List (Frame V A B)) (sum : Option (V × A)) (v : V)

inductive Step (V A B : Type) where
  | next (s : State V A B)
  | rejected
  | failed

def start : State V A B := .operand [] ⟨none, none⟩

namespace Meaning

variable (m : Meaning V A B)

/-- A product is reduced as soon as its right operand is there. -/
def product (pending : Option (V × B)) (v : V) : Option V :=
  match pending with
  | none => some v
  | some (l, b) => m.mul b l v

def sum (pending : Option (V × A)) (v : V) : V :=
  match pending with
  | none => v
  | some (l, a) => m.add a l v

/-- An operand of the frame is complete. -/
def operand (outer : List (Frame V A B)) (frame : Frame V A B) (v : V) : Step V A B :=
  match m.product frame.product v with
  | none => .failed
  | some w => .next (.value outer frame.sum w)

def advance : State V A B → Tok V A B → Step V A B
  | .operand outer frame, .atom v => m.operand outer frame v
  | .operand outer frame, .left => .next (.operand (frame :: outer) ⟨none, none⟩)
  | .value outer sum v, .mul b => .next (.operand outer ⟨sum, some (v, b)⟩)
  | .value outer sum v, .add a => .next (.operand outer ⟨some (m.sum sum v, a), none⟩)
  | .value (frame :: outer) sum v, .right => m.operand outer frame (m.sum sum v)
  | _, _ => .rejected

def run (s : State V A B) : List (Tok V A B) → Step V A B
  | [] => .next s
  | t :: ts =>
      match m.advance s t with
      | .next s' => run s' ts
      | stop => stop

/-- The value of the whole expression, where one is complete. -/
def result : State V A B → Option V
  | .value [] sum v => some (m.sum sum v)
  | _ => none

end Meaning

section Runs

variable {m : Meaning V A B} {s s' : State V A B} {t : Tok V A B} {ts ts' : List (Tok V A B)}

theorem run_eq : m.run s (t :: ts) = match m.advance s t with
    | .next s' => m.run s' ts
    | stop => stop := rfl

theorem run_cons (advance : m.advance s t = .next s') : m.run s (t :: ts) = m.run s' ts := by
  rw [run_eq, advance]

theorem run_append (first : m.run s ts = .next s') : m.run s (ts ++ ts') = m.run s' ts' := by
  induction ts generalizing s with
  | nil =>
    cases first
    rfl
  | cons t ts ih =>
    rw [List.cons_append]
    cases advanced : m.advance s t with
    | next s₁ =>
      rw [run_cons advanced] at first ⊢
      exact ih first
    | rejected =>
      rw [run_eq, advanced] at first
      cases first
    | failed =>
      rw [run_eq, advanced] at first
      cases first

/-- What gets through a sequence gets through its beginning. -/
theorem run_of_append (all : m.run s (ts ++ ts') = .next s') :
    ∃ mid, m.run s ts = .next mid ∧ m.run mid ts' = .next s' := by
  induction ts generalizing s with
  | nil => exact ⟨s, rfl, all⟩
  | cons t ts ih =>
    rw [List.cons_append] at all
    cases advanced : m.advance s t with
    | next s₁ =>
      rw [run_cons advanced] at all
      obtain ⟨mid, first, rest⟩ := ih all
      exact ⟨mid, (run_cons advanced).trans first, rest⟩
    | rejected =>
      rw [run_eq, advanced] at all
      cases all
    | failed =>
      rw [run_eq, advanced] at all
      cases all

/-- A failure stays one. -/
theorem run_append_failed (first : m.run s ts = .failed) : m.run s (ts ++ ts') = .failed := by
  induction ts generalizing s with
  | nil => cases first
  | cons t ts ih =>
    rw [List.cons_append]
    cases advanced : m.advance s t with
    | next s₁ =>
      rw [run_cons advanced] at first ⊢
      exact ih first
    | rejected =>
      rw [run_eq, advanced] at first
      cases first
    | failed => rw [run_eq, advanced]

/-- A sequence that fails does so before its last token or at it. -/
theorem failed_of_snoc (all : m.run s (ts ++ [t]) = .failed) :
    m.run s ts = .failed ∨ ∃ mid, m.run s ts = .next mid ∧ m.advance mid t = .failed := by
  induction ts generalizing s with
  | nil =>
    refine .inr ⟨s, rfl, ?_⟩
    rw [List.nil_append, run_eq] at all
    split at all
    · cases all
    · exact all
  | cons u ts ih =>
    rw [List.cons_append] at all
    cases advanced : m.advance s u with
    | next s₁ =>
      rw [run_cons advanced] at all ⊢
      exact ih all
    | rejected =>
      rw [run_eq, advanced] at all
      cases all
    | failed =>
      rw [run_eq, advanced]
      exact .inl rfl

end Runs

section Completeness

variable (m : Meaning V A B)

/-- The machine evaluates a part of an expression wherever that part may stand. -/
def Evaluates : Rank → List (Tok V A B) → V → Prop
  | .atom, ts, v => ∀ outer frame, m.run (.operand outer frame) ts = m.operand outer frame v
  | .product, ts, v => ∀ outer sum,
      m.run (.operand outer ⟨sum, none⟩) ts = .next (.value outer sum v)
  | .sum, ts, v => ∀ outer, ∃ sum w,
      m.run (.operand outer ⟨none, none⟩) ts = .next (.value outer sum w) ∧ m.sum sum w = v

variable {m}

/-- The induction follows the expression. -/
theorem evaluates {r : Rank} (e : Tree V A B r) {v : V} (value : e.eval m = some v) :
    Evaluates m r e.tokens v := by
  induction e generalizing v with
  | leaf u =>
    intro outer frame
    cases value
    cases reduced : m.operand outer frame u with
    | next s => exact run_cons reduced
    | rejected => rw [Tree.tokens, run_eq, Meaning.advance, reduced]
    | failed => rw [Tree.tokens, run_eq, Meaning.advance, reduced]
  | paren e ih =>
    intro outer frame
    obtain ⟨sum, w, inside, total⟩ := ih value (frame :: outer)
    rw [Tree.tokens, run_cons rfl, run_append inside, ← total]
    cases reduced : m.operand outer frame (m.sum sum w) with
    | next s => exact run_cons reduced
    | rejected => rw [run_eq, Meaning.advance, reduced]
    | failed => rw [run_eq, Meaning.advance, reduced]
  | factor e ih => exact fun outer sum => ih value outer ⟨sum, none⟩
  | mul l b r ihl ihr =>
    intro outer sum
    obtain ⟨lv, left, rest⟩ := Option.bind_eq_some_iff.mp value
    obtain ⟨rv, right, both⟩ := Option.bind_eq_some_iff.mp rest
    rw [Tree.tokens, run_append (ihl left outer sum), run_cons rfl, ihr right, Meaning.operand,
      Meaning.product, both]
  | term e ih => exact fun outer => ⟨none, v, ih value outer none, rfl⟩
  | add l a r ihl ihr =>
    intro outer
    obtain ⟨lv, left, rest⟩ := Option.bind_eq_some_iff.mp value
    obtain ⟨rv, right, both⟩ := Option.bind_eq_some_iff.mp rest
    cases both
    obtain ⟨sum, w, first, total⟩ := ihl left outer
    refine ⟨some (lv, a), rv, ?_, rfl⟩
    rw [Tree.tokens, run_append first, run_cons rfl, total]
    exact ihr right outer (some (lv, a))

theorem result_of_tree (e : Tree V A B .sum) {v : V} (value : e.eval m = some v) :
    ∃ s, m.run start e.tokens = .next s ∧ m.result s = some v := by
  obtain ⟨sum, w, ran, total⟩ := evaluates e value []
  exact ⟨_, ran, congrArg some total⟩

/-- The machine fails on a part of an expression wherever that part may stand. -/
def Fails (m : Meaning V A B) : Rank → List (Tok V A B) → Prop
  | .atom, ts => ∀ outer frame, m.run (.operand outer frame) ts = .failed
  | .product, ts => ∀ outer sum, m.run (.operand outer ⟨sum, none⟩) ts = .failed
  | .sum, ts => ∀ outer, m.run (.operand outer ⟨none, none⟩) ts = .failed

/-- The operator without a result is reached by the operands before it. -/
theorem fails {r : Rank} (e : Tree V A B r) (none' : e.eval m = none) : Fails m r e.tokens := by
  induction e with
  | leaf u => cases none'
  | paren e ih =>
    intro outer frame
    rw [Tree.tokens, run_cons rfl]
    exact run_append_failed (ih none' (frame :: outer))
  | factor e ih => exact fun outer sum => ih none' outer ⟨sum, none⟩
  | mul l b r ihl ihr =>
    intro outer sum
    rw [Tree.tokens]
    cases left : l.eval m with
    | none => exact run_append_failed (ihl left outer sum)
    | some lv =>
      rw [run_append (evaluates l left outer sum), run_cons rfl]
      cases right : r.eval m with
      | none => exact ihr right outer ⟨sum, some (lv, b)⟩
      | some rv =>
        have both : m.mul b lv rv = none := by
          simpa [Tree.eval, left, right] using none'
        rw [evaluates r right outer ⟨sum, some (lv, b)⟩, Meaning.operand, Meaning.product, both]
  | term e ih => exact fun outer => ih none' outer none
  | add l a r ihl ihr =>
    intro outer
    rw [Tree.tokens]
    cases left : l.eval m with
    | none => exact run_append_failed (ihl left outer)
    | some lv =>
      obtain ⟨sum, w, first, total⟩ := evaluates l left outer
      have right : r.eval m = none := by
        cases right : r.eval m with
        | none => rfl
        | some rv =>
          rw [Tree.eval, left, right] at none'
          cases none'
      rw [run_append first, run_cons rfl]
      exact ihr right outer (some (m.sum sum w, a))

/-- What has no value is not read to its end. -/
theorem failed_of_tree (e : Tree V A B .sum) (none' : e.eval m = none) :
    m.run start e.tokens = .failed :=
  fails e none' []

end Completeness

section Soundness

variable (m : Meaning V A B)

/-- The tokens behind a pending sum. -/
def SumCovers (pending : Option (V × A)) (ts : List (Tok V A B)) : Prop :=
  match pending with
  | none => ts = []
  | some (v, a) => ∃ e : Tree V A B .sum, e.eval m = some v ∧ ts = e.tokens ++ [.add a]

def ProductCovers (pending : Option (V × B)) (ts : List (Tok V A B)) : Prop :=
  match pending with
  | none => ts = []
  | some (v, b) => ∃ e : Tree V A B .product, e.eval m = some v ∧ ts = e.tokens ++ [.mul b]

def FrameCovers (frame : Frame V A B) (ts : List (Tok V A B)) : Prop :=
  ∃ ts₁ ts₂, ts = ts₁ ++ ts₂ ∧ SumCovers m frame.sum ts₁ ∧ ProductCovers m frame.product ts₂

def OuterCovers : List (Frame V A B) → List (Tok V A B) → Prop
  | [], ts => ts = []
  | frame :: outer, ts =>
      ∃ ts₁ ts₂, ts = ts₁ ++ ts₂ ++ [.left] ∧ OuterCovers outer ts₁ ∧ FrameCovers m frame ts₂

/-- The stack holds the parts of an expression that the tokens begin. -/
def Covers : State V A B → List (Tok V A B) → Prop
  | .operand outer frame, ts =>
      ∃ ts₁ ts₂, ts = ts₁ ++ ts₂ ∧ OuterCovers m outer ts₁ ∧ FrameCovers m frame ts₂
  | .value outer sum v, ts =>
      ∃ ts₁ ts₂, ∃ e : Tree V A B .product, ts = ts₁ ++ ts₂ ++ e.tokens ∧ OuterCovers m outer ts₁ ∧
        SumCovers m sum ts₂ ∧ e.eval m = some v

variable {m}

theorem covers_start : Covers m start [] :=
  ⟨[], [], rfl, rfl, [], [], rfl, rfl, rfl⟩

/-- The sum that ends with the product on the stack. -/
theorem sum_of_covers {sum : Option (V × A)} {ts : List (Tok V A B)} (covers : SumCovers m sum ts)
    (e : Tree V A B .product) {v : V} (value : e.eval m = some v) :
    ∃ t : Tree V A B .sum, t.tokens = ts ++ e.tokens ∧ t.eval m = some (m.sum sum v) := by
  cases sum with
  | none =>
    cases covers
    exact ⟨.term e, rfl, value⟩
  | some pending =>
    obtain ⟨l, left, rfl⟩ := covers
    refine ⟨.add l pending.2 e, ?_, ?_⟩
    · simp [Tree.tokens]
    · simp [Tree.eval, left, value, Meaning.sum]

/-- A complete operand is reduced into the frame around it. -/
theorem covers_operand {outer : List (Frame V A B)} {frame : Frame V A B}
    {ts₁ ts₂ : List (Tok V A B)} (outside : OuterCovers m outer ts₁)
    (inside : FrameCovers m frame ts₂) (e : Tree V A B .atom) {v : V} (value : e.eval m = some v)
    {s : State V A B} (reduced : m.operand outer frame v = .next s) :
    Covers m s (ts₁ ++ ts₂ ++ e.tokens) := by
  obtain ⟨us₁, us₂, rfl, sum, product⟩ := inside
  unfold Meaning.operand at reduced
  cases pending : frame.product with
  | none =>
    rw [pending] at reduced product
    cases product
    cases reduced
    exact ⟨ts₁, us₁, .factor e, by simp [Tree.tokens], outside, sum, value⟩
  | some both =>
    obtain ⟨l, b⟩ := both
    rw [pending] at reduced product
    obtain ⟨left, known, rfl⟩ := product
    cases result : m.mul b l v with
    | none =>
      simp only [Meaning.product, result] at reduced
      cases reduced
    | some w =>
      simp only [Meaning.product, result] at reduced
      cases reduced
      refine ⟨ts₁, us₁, .mul left b e, by simp [Tree.tokens], outside, sum, ?_⟩
      simp [Tree.eval, known, value, result]

theorem covers_advance {s s' : State V A B} {t : Tok V A B} {ts : List (Tok V A B)}
    (covers : Covers m s ts) (step : m.advance s t = .next s') : Covers m s' (ts ++ [t]) := by
  cases s with
  | operand outer frame =>
    obtain ⟨ts₁, ts₂, rfl, outside, inside⟩ := covers
    cases t with
    | atom v => exact covers_operand outside inside (.leaf v) rfl step
    | left =>
      cases step
      exact ⟨_, [], (List.append_nil _).symm, ⟨ts₁, ts₂, rfl, outside, inside⟩, [], [], rfl, rfl,
        rfl⟩
    | add a => cases step
    | mul b => cases step
    | right => cases step
  | value outer sum v =>
    obtain ⟨ts₁, ts₂, e, rfl, outside, inside, value⟩ := covers
    cases t with
    | atom u => cases step
    | left => cases step
    | mul b =>
      cases step
      exact ⟨ts₁, ts₂ ++ (e.tokens ++ [.mul b]), by simp, outside, ts₂, _, rfl, inside, e, value,
        rfl⟩
    | add a =>
      cases step
      obtain ⟨whole, tokens, total⟩ := sum_of_covers inside e value
      refine ⟨ts₁, whole.tokens ++ [.add a], by simp [tokens], outside, _, [],
        (List.append_nil _).symm, ⟨whole, total, rfl⟩, rfl⟩
    | right =>
      cases outer with
      | nil => cases step
      | cons frame outer =>
        obtain ⟨whole, tokens, total⟩ := sum_of_covers inside e value
        obtain ⟨us₁, us₂, rfl, outside, around⟩ := outside
        have closed := covers_operand outside around (.paren whole) total step
        simpa [Tree.tokens, tokens] using closed

theorem covers_run {s s' : State V A B} {ts ts' : List (Tok V A B)} (covers : Covers m s ts)
    (ran : m.run s ts' = .next s') : Covers m s' (ts ++ ts') := by
  induction ts' generalizing s ts with
  | nil =>
    cases ran
    rwa [List.append_nil]
  | cons t ts' ih =>
    cases advanced : m.advance s t with
    | next s₁ =>
      rw [run_cons advanced] at ran
      rw [List.append_cons]
      exact ih (covers_advance covers advanced) ran
    | rejected =>
      rw [run_eq, advanced] at ran
      cases ran
    | failed =>
      rw [run_eq, advanced] at ran
      cases ran

/-- What the machine gives a value to is an expression with that value. -/
theorem tree_of_result {s : State V A B} {ts : List (Tok V A B)} {v : V}
    (ran : m.run start ts = .next s) (result : m.result s = some v) :
    ∃ e : Tree V A B .sum, e.tokens = ts ∧ e.eval m = some v := by
  have covers := covers_run covers_start ran
  match s, result with
  | .value [] sum u, result =>
    cases result
    obtain ⟨ts₁, ts₂, e, whole, rfl, inside, value⟩ := covers
    obtain ⟨t, tokens, total⟩ := sum_of_covers inside e value
    exact ⟨t, by simpa [tokens] using whole.symm, total⟩

end Soundness

section Viable

variable (m : Meaning V A B)

/-- Some expression that has a value begins with the tokens. -/
def Viable (ts : List (Tok V A B)) : Prop :=
  ∃ (e : Tree V A B .sum) (more : List (Tok V A B)), e.tokens = ts ++ more ∧ (e.eval m).isSome

/-- An operand of the inner level can always be given, and corrected, in such a way
that the operator does not fail. -/
structure Meaning.Total : Prop where
  inhabited : Nonempty V
  mul : ∀ b l, ∃ v, (m.mul b l v).isSome
  correct : ∀ b l t, ∃ a v, (m.mul b l (m.add a t v)).isSome

variable {m}

theorem finish_value (total : m.Total) (outer : List (Frame V A B)) (sum : Option (V × A)) (v : V) :
    ∃ ts s, m.run (.value outer sum v) ts = .next s ∧ (m.result s).isSome := by
  induction outer generalizing sum v with
  | nil => exact ⟨[], _, rfl, rfl⟩
  | cons frame outer ih =>
    cases pending : frame.product with
    | none =>
      have closed : m.advance (.value (frame :: outer) sum v) .right =
          .next (.value outer frame.sum (m.sum sum v)) := by
        rw [Meaning.advance, Meaning.operand, pending, Meaning.product]
      obtain ⟨ts, s, ran, result⟩ := ih frame.sum (m.sum sum v)
      exact ⟨.right :: ts, s, (run_cons closed).trans ran, result⟩
    | some both =>
      obtain ⟨l, b⟩ := both
      obtain ⟨a, u, some'⟩ := total.correct b l (m.sum sum v)
      obtain ⟨w, product⟩ := Option.isSome_iff_exists.mp some'
      have closed : m.advance (.value (frame :: outer) (some (m.sum sum v, a)) u) .right =
          .next (.value outer frame.sum w) := by
        rw [Meaning.advance, Meaning.operand, pending, Meaning.product, Meaning.sum, product]
      obtain ⟨ts, s, ran, result⟩ := ih frame.sum w
      exact ⟨.add a :: .atom u :: .right :: ts, s, (run_cons closed).trans ran, result⟩

theorem finish (total : m.Total) (s : State V A B) :
    ∃ ts s', m.run s ts = .next s' ∧ (m.result s').isSome := by
  cases s with
  | value outer sum v => exact finish_value total outer sum v
  | operand outer frame =>
    have given : ∃ u w, m.product frame.product u = some w := by
      cases frame.product with
      | none => exact total.inhabited.elim fun u => ⟨u, u, rfl⟩
      | some both =>
        obtain ⟨u, some'⟩ := total.mul both.2 both.1
        exact ⟨u, Option.isSome_iff_exists.mp some'⟩
    obtain ⟨u, w, product⟩ := given
    obtain ⟨ts, s, ran, result⟩ := finish_value total outer frame.sum w
    refine ⟨.atom u :: ts, s, ?_, result⟩
    exact (run_cons (by rw [Meaning.advance, Meaning.operand, product])).trans ran

/-- The machine is still running exactly on the beginnings of expressions. -/
theorem viable_iff (total : m.Total) (ts : List (Tok V A B)) :
    Viable m ts ↔ ∃ s, m.run start ts = .next s := by
  constructor
  · rintro ⟨e, more, tokens, some'⟩
    obtain ⟨v, value⟩ := Option.isSome_iff_exists.mp some'
    obtain ⟨s, ran, _⟩ := result_of_tree e value
    rw [tokens] at ran
    obtain ⟨mid, first, _⟩ := run_of_append ran
    exact ⟨mid, first⟩
  · rintro ⟨s, ran⟩
    obtain ⟨more, s', rest, some'⟩ := finish total s
    obtain ⟨v, result⟩ := Option.isSome_iff_exists.mp some'
    obtain ⟨e, tokens, value⟩ := tree_of_result ((run_append ran).trans rest) result
    exact ⟨e, more, tokens, by rw [value]; rfl⟩

end Viable

end Operators
