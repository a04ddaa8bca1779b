import JabSimul.PatternReading
import JabSimul.Repeater

/-!
Divisions in patterns: which patterns end the program.
-/
namespace JabSimul

open Operators Simulation Relation

abbrev IntExpr (r : Rank) : Type := Tree Int AddOp MulOp r

/-- The value of an expression in an `int`, whatever its divisions do. -/
def wrapped : {r : Rank} → IntExpr r → Int
  | _, .leaf v => v
  | _, .paren e => wrapped e
  | _, .factor e => wrapped e
  | _, .mul l b r => toInt32 (b.exact (wrapped l) (wrapped r))
  | _, .term e => wrapped e
  | _, .add l a r => toInt32 (a.exact (wrapped l) (wrapped r))

/-- The dividends and divisors of the divisions and remainders in an expression. -/
def divisions : {r : Rank} → IntExpr r → List (Int × Int)
  | _, .leaf _ => []
  | _, .paren e => divisions e
  | _, .factor e => divisions e
  | _, .mul l .mul r => divisions l ++ divisions r
  | _, .mul l _ r => divisions l ++ divisions r ++ [(wrapped l, wrapped r)]
  | _, .term e => divisions e
  | _, .add l _ r => divisions l ++ divisions r

/-- It is no division by zero, and not that of the least `int` by minus one. -/
def HasQuotient (d : Int × Int) : Prop := d.2 ≠ 0 ∧ ¬(d.1 = -2 ^ 31 ∧ d.2 = -1)

def Divides {r : Rank} (e : IntExpr r) : Prop := ∀ d ∈ divisions e, HasQuotient d

section Expressions

theorem traps_eq_false {b : MulOp} (division : b ≠ .mul) {x y : Int} :
    b.traps x y = false ↔ HasQuotient (x, y) := by
  cases b with
  | mul => exact absurd rfl division
  | div => simp [MulOp.traps, HasQuotient]
  | mod => simp [MulOp.traps, HasQuotient]

theorem divides_mul {l : IntExpr .product} {b : MulOp} {r : IntExpr .atom} :
    Divides (.mul l b r) ↔ (Divides l ∧ Divides r) ∧ b.traps (wrapped l) (wrapped r) = false := by
  unfold Divides
  cases b with
  | mul => simp only [divisions, List.forall_mem_append, MulOp.traps, and_true]
  | div =>
    rw [traps_eq_false (by decide)]
    simp only [divisions, List.forall_mem_append, List.forall_mem_singleton]
  | mod =>
    rw [traps_eq_false (by decide)]
    simp only [divisions, List.forall_mem_append, List.forall_mem_singleton]

theorem divides_add {l : IntExpr .sum} {a : AddOp} {r : IntExpr .product} :
    Divides (.add l a r) ↔ Divides l ∧ Divides r := by
  unfold Divides
  simp only [divisions, List.forall_mem_append]

/-- An expression has a value exactly if all of its divisions have one. -/
theorem eval_divides {r : Rank} (e : IntExpr r) : (Divides e → e.eval intMeaning = some (wrapped e)) ∧
    (¬Divides e → e.eval intMeaning = none) := by
  induction e with
  | leaf v => exact ⟨fun _ => rfl, fun traps => absurd (by simp [Divides, divisions]) traps⟩
  | paren e ih => exact ih
  | factor e ih => exact ih
  | term e ih => exact ih
  | mul l b r ihl ihr =>
    rw [divides_mul]
    constructor
    · rintro ⟨⟨left, right⟩, divides⟩
      rw [Tree.eval, ihl.1 left, ihr.1 right]
      exact if_neg (by rw [divides]; decide)
    · intro traps
      rw [Tree.eval]
      by_cases left : Divides l
      · by_cases right : Divides r
        · have trap : b.traps (wrapped l) (wrapped r) = true := by
            by_contra other
            exact traps ⟨⟨left, right⟩, Bool.eq_false_iff.mpr other⟩
          rw [ihl.1 left, ihr.1 right]
          exact if_pos trap
        · rw [ihl.1 left, ihr.2 right]
          rfl
      · rw [ihl.2 left]
        rfl
  | add l a r ihl ihr =>
    rw [divides_add]
    constructor
    · rintro ⟨left, right⟩
      rw [Tree.eval, ihl.1 left, ihr.1 right]
      rfl
    · intro traps
      rw [Tree.eval]
      by_cases left : Divides l
      · have right : ¬Divides r := fun right => traps ⟨left, right⟩
        rw [ihl.1 left, ihr.2 right]
        rfl
      · rw [ihl.2 left]
        rfl

end Expressions

/-- The scanner cuts the text into literals and segments, and in each segment stand the tokens of an
expression. The expressions and their formats are told, with the values of the numbers in them. -/
inductive PatternParses (n : Int) : CString → Randoms → List (IntExpr .sum × CString) → Prop
  | ends {s random} (found : scan .initial s.length s = none) : PatternParses n s random []
  | literal {s rest yytext random es} (found : scan .initial s.length s = some (.any, yytext, rest))
      (more : PatternParses n rest random es) : PatternParses n s random es
  | segment {s behind rest yytext random random' es} (e : IntExpr .sum)
      (inside : SegmentBegins n s random e.tokens behind random')
      (found : scan .stExpression behind.length behind = some (.endExpr, yytext, rest))
      (more : PatternParses n rest random' es) :
      PatternParses n s random ((e, formatOf yytext) :: es)

/-- The divisions have quotients, up to an expression whose format `printf` does not define. Nothing
is said of what runs behind such a format. -/
def NeverTraps : List (IntExpr .sum × CString) → Prop
  | [] => True
  | (e, f) :: es => Divides e ∧ ((sprintfInt ('%' :: f) (wrapped e)).isSome → NeverTraps es)

/-- The expression has a value, and its format prints it. -/
def Prints (e : IntExpr .sum × CString) : Prop :=
  Divides e.1 ∧ (sprintfInt ('%' :: e.2) (wrapped e.1)).isSome

section Parsing

variable {nms : Nms} {n : Int} {s : CString} {random : Randoms}

/-- The parser stops at the token with which a division is complete that traps. -/
theorem reaches_failure {outs : List CString} {inside rest : CString} {random' : Randoms}
    {ts : List (Tok Int AddOp MulOp)} (tokens : MathTokens n inside random ts rest random')
    (read : nms.Read .stExpression n outs inside random)
    (failed : intMeaning.run Operators.start ts = .failed) :
    ∃ c nms', Reaches (.segment Operators.start, nms) c ∧ ParseStop c (.error .sigfpe nms') := by
  induction tokens with
  | nil => cases failed
  | snoc before found token ih =>
    rcases failed_of_snoc failed with earlier | ⟨mid, ran, last⟩
    · exact ih earlier
    · obtain ⟨nms₁, reached, read₁⟩ := reaches_tokens before read ran
      obtain ⟨tok, name, kind, read₂⟩ := read₁.token _ token
      have lex := read₁.lex found
      rw [name] at lex
      exact ⟨_, _, reached, .failed lex kind last⟩

/-- The parser comes to an end, and this is a trap exactly if some division traps, and a result exactly
if all expressions are printed. -/
theorem parses_stop {es : List (IntExpr .sum × CString)} (parses : PatternParses n s random es)
    {outs : List CString} (started : Bool) (read : nms.Read .initial n outs s random) :
    ∃ c r, Reaches (.list started, nms) c ∧ ParseStop c r ∧
      ((∃ nms', r = .error .sigfpe nms') ↔ ¬NeverTraps es) ∧
      ((∃ v nms', r = .ok v nms') ↔ ∀ e ∈ es, Prints e) := by
  induction parses generalizing nms outs started with
  | ends found =>
    refine ⟨_, _, .refl, .ends (read.lex_end found), ?_, ?_⟩
    · exact iff_of_false nofun (not_not_intro trivial)
    · exact iff_of_true ⟨_, _, rfl⟩ nofun
  | @literal s rest yytext random es found more ih =>
    obtain ⟨ch, rfl⟩ := scan_any found
    have lex := read.lex found
    obtain ⟨c, r, reached, stop, ended⟩ := ih true (read.any.put [ch])
    exact ⟨c, r, .head (.literal lex) reached, stop, ended⟩
  | @segment s behind rest yytext random random' es e inside found more ih =>
    by_cases divides : Divides e
    · obtain ⟨math, ran, result⟩ := result_of_tree e ((eval_divides e).1 divides)
      obtain ⟨nms₁, reached, read₁⟩ := reaches_segment started inside read ran
      have lex := read₁.lex found
      cases printed : sprintfInt ('%' :: formatOf yytext) (wrapped e) with
      | none =>
        refine ⟨_, _, reached, .undefined lex result printed, iff_of_false nofun ?_,
          iff_of_false nofun fun prints => ?_⟩
        · exact not_not_intro ⟨divides, by rw [printed]; nofun⟩
        · have defined := (prints _ (List.mem_cons_self ..)).2
          rw [printed] at defined
          cases defined
      | some t =>
        obtain ⟨c, r, onward, stop, traps, returns⟩ := ih true (read₁.closed.formatted.put t)
        have step := ParseStep.closed lex result printed
        refine ⟨c, r, (reached.tail step).trans onward, stop, traps.trans (not_congr ?_),
          returns.trans ?_⟩
        · rw [NeverTraps, printed]
          exact ⟨fun more => ⟨divides, fun _ => more⟩, fun both => both.2 rfl⟩
        · have prints : Prints (e, formatOf yytext) := ⟨divides, by rw [printed]; rfl⟩
          rw [List.forall_mem_cons, and_iff_right prints]
    · obtain ⟨opening, begun, opens, tokens⟩ := inside
      obtain ⟨c, nms', reached, stop⟩ := reaches_failure tokens read.opened
        (failed_of_tree e ((eval_divides e).2 divides))
      refine ⟨c, _, .head (.opened (read.lex opens)) reached, stop, ?_, ?_⟩
      · exact iff_of_true ⟨nms', rfl⟩ fun never => divides never.1
      · exact iff_of_false nofun fun prints => divides (prints _ (List.mem_cons_self ..)).1

/-- A pattern of the grammar traps exactly if, outside of a segment that was left open, a division by
zero or one of the least `int` by minus one comes in it, before a format that ISO C leaves undefined
(the flag `'` and the `n$` of POSIX are such): there the call has no meaning any more. It comes back
exactly if no division traps and every format is defined. -/
theorem sprintfPattern_traps_iff {es : List (IntExpr .sum × CString)}
    (parses : PatternParses n s nms.random es) (bufSize : Nat) :
    ((∀ nms', sprintfPattern bufSize s n nms ≠ .error .sigfpe nms') ↔
      (nms.start = .initial → NeverTraps es)) ∧
    ((∃ v nms', sprintfPattern bufSize s n nms = .ok v nms') ↔
      (nms.start = .initial → ∀ e ∈ es, Prints e)) := by
  by_cases initial : nms.start = .initial
  · obtain ⟨c, r, reached, stop, traps, returns⟩ := parses_stop parses false
      (given_read s n bufSize initial)
    rw [sprintfPattern_of_stop reached stop]
    have trapped : (∃ nms', callResult r = .error .sigfpe nms') ↔ ∃ nms', r = .error .sigfpe nms' := by
      cases r with
      | ok v nms' => simp [callResult]
      | error e nms' => simp [callResult]
    have returned : (∃ v nms', callResult r = .ok v nms') ↔ ∃ v nms', r = .ok v nms' := by
      cases r with
      | ok v nms' => simp [callResult]
      | error e nms' => simp [callResult]
    rw [← not_exists, trapped, traps, not_not, returned, returns]
    constructor
    · exact ⟨fun never _ => never, fun never => never initial⟩
    · exact ⟨fun prints _ => prints, fun prints => prints initial⟩
  · have inside : nms.start = .stExpression := by
      cases start : nms.start with
      | initial => exact absurd start initial
      | stExpression => rfl
    rw [sprintfPattern_inside inside]
    constructor
    · exact iff_of_true nofun fun first => absurd first initial
    · exact iff_of_true ⟨_, _, rfl⟩ fun first => absurd first initial

end Parsing

section Examples

def shares : CString := cstr "%(12/num:u)"

def sharesExpr (n : Int) : IntExpr .sum := .term (.mul (.factor (.leaf 12)) .div (.leaf n))

theorem shares_parses (n : Int) (random : Randoms) :
    PatternParses n shares random [(sharesExpr n, cstr "u")] := by
  have opening : scan .initial shares.length shares =
      some (.beginExpr, cstr "%(", cstr "12/num:u)") := by decide +kernel
  have number : scan .stExpression (cstr "12/num:u)").length (cstr "12/num:u)") =
      some (.number, cstr "12", cstr "/num:u)") := by decide +kernel
  have division : scan .stExpression (cstr "/num:u)").length (cstr "/num:u)") =
      some (.opDiv, cstr "/", cstr "num:u)") := by decide +kernel
  have index : scan .stExpression (cstr "num:u)").length (cstr "num:u)") =
      some (.index, cstr "num", cstr ":u)") := by decide +kernel
  have closing : scan .stExpression (cstr ":u)").length (cstr ":u)") =
      some (.endExpr, cstr ":u)", []) := by decide +kernel
  have twelve : mathToken n .number (cstr "12") random = some (.atom 12, random) := by
    have value : atoi (cstr "12") = 12 := by decide +kernel
    rw [mathToken, value]
  have tokens : MathTokens n (cstr "12/num:u)") random
      ([] ++ [.atom 12] ++ [.mul .div] ++ [.atom n]) (cstr ":u)") random :=
    ((MathTokens.nil.snoc number twelve).snoc division rfl).snoc index rfl
  exact .segment (sharesExpr n) ⟨_, _, opening, tokens⟩ closing (.ends rfl)

theorem shares_divisions (n : Int) : divisions (sharesExpr n) = [(12, n)] := rfl

/-- Twelve has no share for the index zero. -/
theorem shares_traps : ¬∀ n, 0 ≤ n → n < maxUsers → ∀ s (nms : Nms) es,
    PatternParses n s nms.random es → ∀ bufSize nms',
      sprintfPattern bufSize s n nms ≠ .error .sigfpe nms' := by
  intro claim
  have never := claim 0 (by decide) (by decide) shares (nmsBoot fun _ => 0) _ (shares_parses 0 _) 50
  have trapped : (match sprintfPattern 50 shares 0 (nmsBoot fun _ => 0) with
    | .error .sigfpe _ => true
    | _ => false) = true := by decide +kernel
  split at trapped
  · rename_i nms' result
    exact never nms' result
  · cases trapped

theorem sprintfPattern_traps_iff_shares :
    (∃ v nms', sprintfPattern 50 shares 5 (nmsBoot fun _ => 0) = .ok v nms') ∧
      ∃ nms', sprintfPattern 50 shares 0 (nmsBoot fun _ => 0) = .error .sigfpe nms' := by
  have divides : Divides (sharesExpr 5) := by
    rw [Divides, shares_divisions, List.forall_mem_singleton]
    exact ⟨by decide, by decide⟩
  constructor
  · refine (sprintfPattern_traps_iff (shares_parses 5 _) 50).2.mpr fun _ => ?_
    rw [List.forall_mem_singleton]
    exact ⟨divides, by decide +kernel⟩
  · by_contra none
    have never := (sprintfPattern_traps_iff (shares_parses 0 _) 50).1.mp (not_exists.mp none) rfl
    exact (never.1 (12, 0) (by simp [shares_divisions])).1 rfl

end Examples

end JabSimul
