import JabSimul.Pattern
import JabSimul.Lib.Simulation

/-!
What the parser has read of a pattern. The loop of `yyparse` is taken apart into
steps, and a configuration that the steps reach is described by the text behind
it: complete literals and segments, and the tokens of a segment that is open.
-/
namespace JabSimul

open LongestMatch Simulation Relation

abbrev Randoms := Nat → Fin (2 ^ 31)

def Randoms.after (random : Randoms) : Randoms := fun n => random (n + 1)

section Scanner

variable {start : StartCond} {fuel k : Nat} {s yytext rest : CString} {c : Char} {rule : LexRule}

/-- The rule of `flex` keeps one that matches nothing from winning. -/
theorem longest_pos (winner : longest (lexRules start) (c :: s) = some (k, rule)) : 0 < k := by
  have echo : ⟨echoLength, LexRule.echo⟩ ∈ lexRules start := by
    cases start <;> simp [lexRules]
  exact longest_max winner echo rfl

/-- The text of a format, and that it is the one to the first parenthesis. -/
theorem endExprLength_closed {f tail : CString} (closed : ')' ∉ f) :
    endExprLength (':' :: (f ++ ')' :: tail)) = some (f.length + 2) := by
  have run : (f ++ ')' :: tail).takeWhile (· ≠ ')') = f := by
    rw [List.takeWhile_append_of_pos fun c member => by
      simpa using fun same : c = ')' => closed (same ▸ member)]
    simp
  simp only [endExprLength, run]
  exact if_pos (by simp)

theorem longest_start (winner : longest (lexRules start) s = some (k, rule)) :
    (start = .initial ∧ (rule = .beginExpr ∨ rule = .any ∨ rule = .echo)) ∨
      (start = .stExpression ∧ rule ≠ .beginExpr ∧ rule ≠ .any) := by
  obtain ⟨r, member, _, rfl⟩ := longest_mem winner
  cases start with
  | initial =>
    refine .inl ⟨rfl, ?_⟩
    simp only [lexRules, List.mem_cons, List.not_mem_nil, or_false] at member
    rcases member with rfl | rfl | rfl <;> simp
  | stExpression =>
    refine .inr ⟨rfl, ?_⟩
    simp only [lexRules, List.mem_cons, List.not_mem_nil, or_false] at member
    rcases member with rfl | rfl | rfl | rfl | rfl | rfl | rfl | rfl | rfl | rfl | rfl | rfl | rfl
      <;> simp

theorem scan_nil : scan start fuel [] = none := by
  cases fuel <;> rfl

theorem scan_found (winner : longest (lexRules start) (c :: s) = some (k, rule))
    (kept : rule.skips = false) :
    scan start (c :: s).length (c :: s) = some (rule, (c :: s).take k, (c :: s).drop k) := by
  rw [List.length_cons, scan, winner]
  simp only [kept, Bool.false_eq_true, if_false]

theorem scan_text (text : CString) {tail : CString} (nonempty : text ≠ [])
    (winner : longest (lexRules start) (text ++ tail) = some (text.length, rule))
    (kept : rule.skips = false) :
    scan start (text ++ tail).length (text ++ tail) = some (rule, text, tail) := by
  cases text with
  | nil => exact absurd rfl nonempty
  | cons c text =>
    have found : scan start (c :: text ++ tail).length (c :: text ++ tail) =
        some (rule, (c :: text ++ tail).take (c :: text).length,
          (c :: text ++ tail).drop (c :: text).length) := scan_found winner kept
    rwa [List.take_left, List.drop_left] at found

/-- A token is what its rule matches behind the text that is skipped. -/
theorem scan_match (found : scan start fuel s = some (rule, yytext, rest)) :
    ∃ skipped s' k, s = skipped ++ s' ∧ s' ≠ [] ∧ 0 < k ∧ rule.skips = false ∧
      longest (lexRules start) s' = some (k, rule) ∧ yytext = s'.take k ∧ rest = s'.drop k := by
  induction fuel generalizing s with
  | zero => cases found
  | succ fuel ih =>
    cases s with
    | nil => cases found
    | cons c s =>
      rw [scan] at found
      cases winner : longest (lexRules start) (c :: s) with
      | none =>
        rw [winner] at found
        cases found
      | some both =>
        obtain ⟨k, r⟩ := both
        rw [winner] at found
        cases skips : r.skips with
        | true =>
          simp only [skips, if_true] at found
          obtain ⟨skipped, s', n, behind, more⟩ := ih found
          refine ⟨(c :: s).take k ++ skipped, s', n, ?_, more⟩
          rw [List.append_assoc, ← behind, List.take_append_drop]
        | false =>
          simp only [skips, Bool.false_eq_true, if_false] at found
          cases found
          exact ⟨[], c :: s, k, rfl, List.cons_ne_nil _ _, longest_pos winner, skips, winner, rfl,
            rfl⟩

theorem scan_shorter (found : scan start fuel s = some (rule, yytext, rest)) :
    rest.length < s.length := by
  obtain ⟨skipped, s', k, rfl, some', positive, _, _, _, rfl⟩ := scan_match found
  have := List.length_pos_iff.mpr some'
  simp only [List.length_append, List.length_drop]
  omega

/-- The rules that give a token in a start condition. -/
theorem scan_start (found : scan start fuel s = some (rule, yytext, rest)) :
    (start = .initial ∧ (rule = .beginExpr ∨ rule = .any)) ∨
      (start = .stExpression ∧ rule ≠ .beginExpr ∧ rule ≠ .any) := by
  obtain ⟨_, _, _, _, _, _, kept, winner, _⟩ := scan_match found
  rcases longest_start winner with ⟨initial, rfl | rfl | rfl⟩ | inside
  · exact .inl ⟨initial, .inl rfl⟩
  · exact .inl ⟨initial, .inr rfl⟩
  · cases kept
  · exact .inr inside

/-- A literal is one character. -/
theorem scan_any (found : scan .initial fuel s = some (.any, yytext, rest)) :
    ∃ c, yytext = [c] := by
  obtain ⟨_, s', k, _, some', _, _, winner, rfl, _⟩ := scan_match found
  obtain ⟨r, member, hit, action⟩ := longest_mem winner
  simp only [lexRules, List.mem_cons, List.not_mem_nil, or_false] at member
  cases s' with
  | nil => cases some' rfl
  | cons c s' =>
    rcases member with rfl | rfl | rfl
    · cases action
    · simp only [anyLength] at hit
      split at hit
      · cases hit
      · cases hit
        exact ⟨c, rfl⟩
    · cases action

end Scanner

section Lexing

variable {nms nms' : Nms} {rule : LexRule} {yytext rest : CString} {tok : Token}

def LexRule.token : LexRule → Option Token
  | .beginExpr => some .beginExpr
  | .any => some .nothingSpecial
  | .lnawias => some .lnawias
  | .pnawias => some .pnawias
  | .number => some .number
  | .index => some .index
  | .rnd => some .rnd
  | .opPlus => some .opPlus
  | .opMinus => some .opMinus
  | .opMul => some .opMul
  | .opDiv => some .opDiv
  | .opMod => some .opMod
  | .endExpr => some .endExpr
  | .blank | .echo => none

/-- The globals after the action of a rule. -/
def Nms.lexed (nms : Nms) (rule : LexRule) (yytext : CString) : Nms :=
  match rule with
  | .beginExpr => { nms with start := .stExpression }
  | .any => { nms with yylval := { nms.yylval with c := yytext.headD nul } }
  | .number => { nms with yylval := { nms.yylval with i := atoi yytext } }
  | .index => { nms with yylval := { nms.yylval with i := nms.yynumid } }
  | .rnd =>
      { nms with
        random := Randoms.after nms.random
        yylval := { nms.yylval with i := (nms.random 0 : Nat) } }
  | .endExpr =>
      { nms with
        start := .initial
        yylval := { nms.yylval with s := (yytext.drop 1).dropLast }
        copies := ⟨yytext.length, 200⟩ :: nms.copies }
  | _ => nms

theorem lexAction_apply :
    lexAction rule yytext nms = .ok rule.token (nms.lexed rule yytext) := by
  cases rule <;> rfl

theorem yylex_none (ended : scan nms.start nms.rest.length nms.rest = none) :
    yylex nms = .ok none { nms with rest := [] } := by
  simp only [yylex, bind_apply, get_apply, ended, set_apply, pure_apply]

theorem yylex_some
    (found : scan nms.start nms.rest.length nms.rest = some (rule, yytext, rest)) :
    yylex nms = .ok rule.token ({ nms with rest := rest }.lexed rule yytext) := by
  simp only [yylex, bind_apply, get_apply, found, set_apply, lexAction_apply]

@[simp] theorem lexed_rest : (nms.lexed rule yytext).rest = nms.rest := by
  cases rule <;> rfl

@[simp] theorem lexed_buf : (nms.lexed rule yytext).buf = nms.buf := by
  cases rule <;> rfl

@[simp] theorem lexed_tmpbuf : (nms.lexed rule yytext).tmpbuf = nms.tmpbuf := by
  cases rule <;> rfl

@[simp] theorem lexed_yynumid : (nms.lexed rule yytext).yynumid = nms.yynumid := by
  cases rule <;> rfl

/-- What the scanner does in every state. -/
theorem yylex_cases (nms : Nms) :
    (scan nms.start nms.rest.length nms.rest = none ∧
        yylex nms = .ok none { nms with rest := [] }) ∨
      ∃ rule yytext rest tok, scan nms.start nms.rest.length nms.rest = some (rule, yytext, rest) ∧
        rule.token = some tok ∧
          yylex nms = .ok (some tok) ({ nms with rest := rest }.lexed rule yytext) := by
  cases found : scan nms.start nms.rest.length nms.rest with
  | none => exact .inl ⟨rfl, yylex_none found⟩
  | some m =>
    obtain ⟨rule, yytext, rest⟩ := m
    obtain ⟨_, _, _, _, _, _, kept, _⟩ := scan_match found
    refine .inr ⟨rule, yytext, rest, ?_⟩
    have lexed := yylex_some found
    cases rule <;> first | exact ⟨_, rfl, rfl, lexed⟩ | cases kept

theorem lexed_start (opening : rule ≠ .beginExpr)
    (closing : rule ≠ .endExpr) : (nms.lexed rule yytext).start = nms.start := by
  cases rule <;> first | rfl | contradiction

end Lexing

section Steps

def Nms.put (nms : Nms) (t : CString) : Nms :=
  { nms with
    buf := nms.buf.take nms.tmpbuf ++ t ++ [nul]
    tmpbuf := nms.tmpbuf + t.length }

def Nms.formatted (nms : Nms) : Nms :=
  { nms with copies := ⟨nms.yylval.s.length + 2, 30⟩ :: nms.copies }

abbrev Config := ParserState × Nms

/-- A round of `yyparseLoop` that goes on. -/
inductive ParseStep : Config → Config → Prop where
  | literal {started : Bool} {nms nms' : Nms}
      (read : yylex nms = .ok (some .nothingSpecial) nms') :
      ParseStep (.list started, nms) (.list true, nms'.put [nms'.yylval.c])
  | opened {started : Bool} {nms nms' : Nms} (read : yylex nms = .ok (some .beginExpr) nms') :
      ParseStep (.list started, nms) (.segment Operators.start, nms')
  | token {math math' : Operators.State Int AddOp MulOp} {nms nms' : Nms} {tok : Token}
      {t : Operators.Tok Int AddOp MulOp} (read : yylex nms = .ok (some tok) nms')
      (kind : mathTok tok nms'.yylval.i = some t)
      (advanced : intMeaning.advance math t = .next math') :
      ParseStep (.segment math, nms) (.segment math', nms')
  | closed {math : Operators.State Int AddOp MulOp} {nms nms' : Nms} {v : Int} {t : CString}
      (read : yylex nms = .ok (some .endExpr) nms')
      (value : intMeaning.result math = some v)
      (printed : sprintfInt ('%' :: nms'.yylval.s) v = some t) :
      ParseStep (.segment math, nms) (.list true, nms'.formatted.put t)

/-- A round that is the last one. -/
inductive ParseStop : Config → EStateM.Result PatternStop Nms Int → Prop where
  | ends {started : Bool} {nms nms' : Nms} (read : yylex nms = .ok none nms') :
      ParseStop (.list started, nms) (.ok (if started then 0 else 1) nms')
  | foreign {started : Bool} {nms nms' : Nms} {tok : Token}
      (read : yylex nms = .ok (some tok) nms')
      (literal : tok ≠ .nothingSpecial) (opened : tok ≠ .beginExpr) :
      ParseStop (.list started, nms) (.ok 1 nms')
  | unclosed {math : Operators.State Int AddOp MulOp} {nms nms' : Nms}
      (read : yylex nms = .ok none nms') : ParseStop (.segment math, nms) (.ok 1 nms')
  | early {math : Operators.State Int AddOp MulOp} {nms nms' : Nms}
      (read : yylex nms = .ok (some .endExpr) nms') (value : intMeaning.result math = none) :
      ParseStop (.segment math, nms) (.ok 1 nms')
  | undefined {math : Operators.State Int AddOp MulOp} {nms nms' : Nms} {v : Int}
      (read : yylex nms = .ok (some .endExpr) nms')
      (value : intMeaning.result math = some v)
      (printed : sprintfInt ('%' :: nms'.yylval.s) v = none) :
      ParseStop (.segment math, nms) (.error .undefined nms'.formatted)
  | other {math : Operators.State Int AddOp MulOp} {nms nms' : Nms} {tok : Token}
      (read : yylex nms = .ok (some tok) nms') (closed : tok ≠ .endExpr)
      (kind : mathTok tok nms'.yylval.i = none) : ParseStop (.segment math, nms) (.ok 1 nms')
  | rejected {math : Operators.State Int AddOp MulOp} {nms nms' : Nms} {tok : Token}
      {t : Operators.Tok Int AddOp MulOp}
      (read : yylex nms = .ok (some tok) nms') (kind : mathTok tok nms'.yylval.i = some t)
      (advanced : intMeaning.advance math t = .rejected) :
      ParseStop (.segment math, nms) (.ok 1 nms')
  | failed {math : Operators.State Int AddOp MulOp} {nms nms' : Nms} {tok : Token}
      {t : Operators.Tok Int AddOp MulOp}
      (read : yylex nms = .ok (some tok) nms') (kind : mathTok tok nms'.yylval.i = some t)
      (advanced : intMeaning.advance math t = .failed) :
      ParseStop (.segment math, nms) (.error .sigfpe nms')

variable {nms nms' : Nms} {started : Bool} {math math' : Operators.State Int AddOp MulOp}

abbrev Reaches : Config → Config → Prop := ReflTransGen ParseStep

theorem yylex_shorter {tok : Token} (read : yylex nms = .ok (some tok) nms') :
    nms'.rest.length < nms.rest.length := by
  rcases yylex_cases nms with ⟨_, lexed⟩ | ⟨rule, yytext, rest, _, found, _, lexed⟩
  · rw [lexed] at read
    cases read
  · rw [lexed] at read
    cases read
    rw [lexed_rest]
    exact scan_shorter found

theorem ParseStep.shorter {c c' : Config} (step : ParseStep c c') :
    c'.2.rest.length < c.2.rest.length := by
  cases step with
  | literal read | opened read | token read | closed read =>
    have shorter := yylex_shorter read
    exact shorter

theorem putText_apply (t : CString) : putText t nms = .ok ⟨⟩ (nms.put t) := rfl

theorem putSegment_apply (v : Int) :
    putSegment v nms = match sprintfInt ('%' :: nms.yylval.s) v with
      | none => .error .undefined nms.formatted
      | some t => .ok ⟨⟩ (nms.formatted.put t) := by
  simp only [putSegment, bind_apply, modify_apply, get_apply]
  change (match sprintfInt ('%' :: nms.yylval.s) v with
    | none => (throw PatternStop.undefined : PM Unit)
    | some t => putText t) nms.formatted = _
  cases sprintfInt ('%' :: nms.yylval.s) v <;> rfl

theorem mathTok_endExpr {tok : Token} {i : Int} {t : Operators.Tok Int AddOp MulOp}
    (kind : mathTok tok i = some t) : tok ≠ .endExpr := by
  rintro rfl
  cases kind

theorem yyparseLoop_step {c c' : Config} (step : ParseStep c c') (fuel : Nat) :
    yyparseLoop (fuel + 1) c.1 c.2 = yyparseLoop fuel c'.1 c'.2 := by
  cases step with
  | literal read => simp only [yyparseLoop, bind_apply, read, get_apply, putText_apply]
  | opened read => simp only [yyparseLoop, bind_apply, read]
  | @token _ _ _ _ tok t read kind advanced =>
    have open' := mathTok_endExpr kind
    cases tok <;>
      first
      | exact absurd rfl open'
      | simp only [yyparseLoop, bind_apply, read, get_apply, kind, advanced]
  | closed read value printed =>
    simp only [yyparseLoop, bind_apply, read, value, putSegment_apply, printed]

theorem yyparseLoop_stop {c : Config} {r : EStateM.Result PatternStop Nms Int}
    (stop : ParseStop c r) (fuel : Nat) : yyparseLoop (fuel + 1) c.1 c.2 = r := by
  cases stop with
  | ends read => simp only [yyparseLoop, bind_apply, read, pure_apply]
  | @foreign _ _ _ tok read literal opened =>
    cases tok <;>
      first
      | exact absurd rfl literal
      | exact absurd rfl opened
      | simp only [yyparseLoop, bind_apply, read, pure_apply]
  | unclosed read => simp only [yyparseLoop, bind_apply, read, pure_apply]
  | early read value => simp only [yyparseLoop, bind_apply, read, value, pure_apply]
  | undefined read value printed =>
    simp only [yyparseLoop, bind_apply, read, value, putSegment_apply, printed]
  | @other _ _ _ tok read closed kind =>
    cases tok <;>
      first
      | exact absurd rfl closed
      | simp only [yyparseLoop, bind_apply, read, get_apply, kind, pure_apply]
  | @rejected _ _ _ tok t read kind advanced =>
    have open' := mathTok_endExpr kind
    cases tok <;>
      first
      | exact absurd rfl open'
      | simp only [yyparseLoop, bind_apply, read, get_apply, kind, advanced, pure_apply]
  | @failed _ _ _ tok t read kind advanced =>
    have open' := mathTok_endExpr kind
    cases tok <;>
      first
      | exact absurd rfl open'
      | simp only [yyparseLoop, bind_apply, read, get_apply, kind, advanced, throw_apply]

/-- Every round goes on or is the last. -/
theorem step_or_stop (c : Config) : (∃ c', ParseStep c c') ∨ ∃ r, ParseStop c r := by
  obtain ⟨state, nms⟩ := c
  rcases yylex_cases nms with ⟨_, read⟩ | ⟨rule, yytext, rest, tok, found, _, read⟩
  · cases state with
    | list started => exact .inr ⟨_, .ends read⟩
    | segment math => exact .inr ⟨_, .unclosed read⟩
  · cases state with
    | list started =>
      by_cases literal : tok = .nothingSpecial
      · subst literal
        exact .inl ⟨_, .literal read⟩
      by_cases opened : tok = .beginExpr
      · subst opened
        exact .inl ⟨_, .opened read⟩
      exact .inr ⟨_, .foreign read literal opened⟩
    | segment math =>
      by_cases closed : tok = .endExpr
      · subst closed
        cases value : intMeaning.result math with
        | none => exact .inr ⟨_, .early read value⟩
        | some v =>
          cases printed : sprintfInt
            ('%' :: (({ nms with rest := rest }).lexed rule yytext).yylval.s) v with
          | none => exact .inr ⟨_, .undefined read value printed⟩
          | some t => exact .inl ⟨_, .closed read value printed⟩
      cases kind : mathTok tok (({ nms with rest := rest }).lexed rule yytext).yylval.i with
      | none => exact .inr ⟨_, .other read closed kind⟩
      | some t =>
        cases advanced : intMeaning.advance math t with
        | next math' => exact .inl ⟨_, .token read kind advanced⟩
        | rejected => exact .inr ⟨_, .rejected read kind advanced⟩
        | failed => exact .inr ⟨_, .failed read kind advanced⟩

theorem yyparseLoop_reaches {c c' : Config} (reached : Reaches c c') {fuel : Nat}
    (enough : c.2.rest.length < fuel) :
    ∃ fuel', c'.2.rest.length < fuel' ∧
      yyparseLoop fuel c.1 c.2 = yyparseLoop fuel' c'.1 c'.2 := by
  induction reached with
  | refl => exact ⟨fuel, enough, rfl⟩
  | tail _ step ih =>
    obtain ⟨fuel', more, same⟩ := ih
    have shorter := step.shorter
    obtain ⟨left, rfl⟩ := Nat.exists_eq_add_one_of_ne_zero (show fuel' ≠ 0 by omega)
    exact ⟨left, by omega, same.trans (yyparseLoop_step step left)⟩

/-- The parser runs until a round stops it. -/
theorem yyparseLoop_runs (c : Config) {fuel : Nat} (enough : c.2.rest.length < fuel) :
    ∃ c', Reaches c c' ∧ ParseStop c' (yyparseLoop fuel c.1 c.2) := by
  induction fuel generalizing c with
  | zero => omega
  | succ fuel ih =>
    rcases step_or_stop c with ⟨c₁, step⟩ | ⟨r, stop⟩
    · have shorter := step.shorter
      obtain ⟨c', reached, stop⟩ := ih c₁ (by omega)
      rw [← yyparseLoop_step step fuel] at stop
      exact ⟨c', .head step reached, stop⟩
    · exact ⟨c, .refl, by rwa [yyparseLoop_stop stop fuel]⟩

theorem yyparseLoop_of_stop {c c' : Config} {r : EStateM.Result PatternStop Nms Int}
    (reached : Reaches c c') (stop : ParseStop c' r) {fuel : Nat}
    (enough : c.2.rest.length < fuel) : yyparseLoop fuel c.1 c.2 = r := by
  obtain ⟨fuel', more, same⟩ := yyparseLoop_reaches reached enough
  obtain ⟨left, rfl⟩ := Nat.exists_eq_add_one_of_ne_zero (show fuel' ≠ 0 by omega)
  exact same.trans (yyparseLoop_stop stop left)

end Steps

section Reading

/-- What a match is in an expression, and the random values that are left. -/
def mathToken (n : Int) (rule : LexRule) (yytext : CString) (random : Randoms) :
    Option (Operators.Tok Int AddOp MulOp × Randoms) :=
  match rule with
  | .lnawias => some (.left, random)
  | .pnawias => some (.right, random)
  | .number => some (.atom (atoi yytext), random)
  | .index => some (.atom n, random)
  | .rnd => some (.atom (random 0 : Nat), random.after)
  | .opPlus => some (.add .plus, random)
  | .opMinus => some (.add .minus, random)
  | .opMul => some (.mul .mul, random)
  | .opDiv => some (.mul .div, random)
  | .opMod => some (.mul .mod, random)
  | .beginExpr | .any | .blank | .endExpr | .echo => none

/-- The tokens of an expression at the beginning of a text, and what is left. -/
inductive MathTokens (n : Int) (s : CString) (random : Randoms) :
    List (Operators.Tok Int AddOp MulOp) → CString → Randoms → Prop where
  | nil : MathTokens n s random [] s random
  | snoc {ts : List (Operators.Tok Int AddOp MulOp)} {t : Operators.Tok Int AddOp MulOp}
      {s₁ s₂ yytext : CString} {random₁ random₂ : Randoms} {rule : LexRule}
      (before : MathTokens n s random ts s₁ random₁)
      (found : scan .stExpression s₁.length s₁ = some (rule, yytext, s₂))
      (token : mathToken n rule yytext random₁ = some (t, random₂)) :
      MathTokens n s random (ts ++ [t]) s₂ random₂

/-- A segment that begins with the tokens. -/
def SegmentBegins (n : Int) (s : CString) (random : Randoms)
    (ts : List (Operators.Tok Int AddOp MulOp)) (rest : CString) (random' : Randoms) : Prop :=
  ∃ opening inside, scan .initial s.length s = some (.beginExpr, opening, inside) ∧
    MathTokens n inside random ts rest random'

/-- A token `:f)` without what stands around the format. -/
def formatOf (yytext : CString) : CString := (yytext.drop 1).dropLast

/-- Complete literals and segments at the beginning of a pattern, with the text
that each of them gives, and what is left. -/
inductive PatternReads (n : Int) (s : CString) (random : Randoms) :
    List CString → CString → Randoms → Prop where
  | nil : PatternReads n s random [] s random
  | literal {outs : List CString} {s₁ s₂ : CString} {random₁ : Randoms} {c : Char}
      (before : PatternReads n s random outs s₁ random₁)
      (found : scan .initial s₁.length s₁ = some (.any, [c], s₂)) :
      PatternReads n s random (outs ++ [[c]]) s₂ random₁
  | segment {outs : List CString} {s₁ s₂ s₃ yytext t : CString} {random₁ random₂ : Randoms}
      {v : Int} (e : Operators.Tree Int AddOp MulOp .sum)
      (before : PatternReads n s random outs s₁ random₁)
      (inside : SegmentBegins n s₁ random₁ e.tokens s₂ random₂)
      (value : e.eval intMeaning = some v)
      (found : scan .stExpression s₂.length s₂ = some (.endExpr, yytext, s₃))
      (printed : sprintfInt ('%' :: formatOf yytext) v = some t) :
      PatternReads n s random (outs ++ [t]) s₃ random₂

/-- The globals when so much was written and so much is left. -/
structure Nms.Read (nms : Nms) (start : StartCond) (n : Int) (outs : List CString)
    (rest : CString) (random : Randoms) : Prop where
  start : nms.start = start
  yynumid : nms.yynumid = n
  rest : nms.rest = rest
  random : nms.random = random
  tmpbuf : nms.tmpbuf = outs.flatten.length
  buf : nms.buf = if outs = [] then [] else outs.flatten ++ [nul]

namespace Nms.Read

variable {nms nms' : Nms} {start : StartCond} {n : Int} {outs : List CString}
  {s rest yytext : CString} {random random' : Randoms} {rule : LexRule}

theorem lex (read : nms.Read start n outs s random)
    (found : scan start s.length s = some (rule, yytext, rest)) :
    yylex nms = .ok rule.token ({ nms with rest := rest }.lexed rule yytext) := by
  obtain ⟨rfl, _, rfl, _⟩ := read
  exact yylex_some found

theorem lex_end (read : nms.Read start n outs s random) (ended : scan start s.length s = none) :
    yylex nms = .ok none { nms with rest := [] } := by
  obtain ⟨rfl, _, rfl, _⟩ := read
  exact yylex_none ended

theorem lexed (read : nms.Read start n outs s random) {tok : Token}
    (lex : yylex nms = .ok (some tok) nms') :
    ∃ rule yytext rest, scan start s.length s = some (rule, yytext, rest) ∧
      rule.token = some tok ∧ nms' = { nms with rest := rest }.lexed rule yytext := by
  obtain ⟨rfl, _, rfl, _⟩ := read
  rcases yylex_cases nms with ⟨_, none⟩ | ⟨rule, yytext, rest, _, found, token, some'⟩
  · rw [none] at lex
    cases lex
  · rw [some'] at lex
    cases lex
    exact ⟨rule, yytext, rest, found, token, rfl⟩

theorem any (read : nms.Read start n outs s random) :
    ({ nms with rest := rest }.lexed .any yytext).Read start n outs rest random :=
  ⟨read.start, read.yynumid, rfl, read.random, read.tmpbuf, read.buf⟩

theorem opened (read : nms.Read start n outs s random) :
    ({ nms with rest := rest }.lexed .beginExpr yytext).Read .stExpression n outs rest random :=
  ⟨rfl, read.yynumid, rfl, read.random, read.tmpbuf, read.buf⟩

theorem closed (read : nms.Read start n outs s random) :
    ({ nms with rest := rest }.lexed .endExpr yytext).Read .initial n outs rest random :=
  ⟨rfl, read.yynumid, rfl, read.random, read.tmpbuf, read.buf⟩

theorem formatted (read : nms.Read start n outs s random) :
    nms.formatted.Read start n outs s random :=
  ⟨read.start, read.yynumid, read.rest, read.random, read.tmpbuf, read.buf⟩

/-- A token of an expression. -/
theorem token (read : nms.Read start n outs s random) (rest : CString) {t : Operators.Tok Int AddOp MulOp}
    (token : mathToken n rule yytext random = some (t, random')) :
    ∃ tok, rule.token = some tok ∧
      mathTok tok ({ nms with rest := rest }.lexed rule yytext).yylval.i = some t ∧
        ({ nms with rest := rest }.lexed rule yytext).Read start n outs rest random' := by
  obtain ⟨first, rfl, _, rfl, tmpbuf, buf⟩ := read
  cases rule <;> cases token <;>
    exact ⟨_, rfl, rfl, first, rfl, rfl, rfl, tmpbuf, buf⟩

theorem put (read : nms.Read start n outs s random) (t : CString) :
    (nms.put t).Read start n (outs ++ [t]) s random := by
  refine ⟨read.start, read.yynumid, read.rest, read.random, ?_, ?_⟩
  · simp only [Nms.put, read.tmpbuf, List.flatten_append, List.length_append,
      List.flatten_singleton]
  · have before : nms.buf.take nms.tmpbuf = outs.flatten := by
      rw [read.buf, read.tmpbuf]
      split
      · rename_i none
        rw [none]
        rfl
      · exact List.take_left
    rw [if_neg (by simp), List.flatten_append, List.flatten_singleton]
    simp only [Nms.put, before]

end Nms.Read

/-- The match of a token of an expression. -/
theorem mathToken_of_mathTok {nms : Nms} {rule : LexRule} {yytext : CString} {tok : Token}
    {t : Operators.Tok Int AddOp MulOp} (token : rule.token = some tok)
    (kind : mathTok tok (nms.lexed rule yytext).yylval.i = some t) :
    mathToken nms.yynumid rule yytext nms.random = some (t, (nms.lexed rule yytext).random) := by
  cases rule <;> cases token <;> cases kind <;> rfl

variable {n : Int} {s : CString} {random : Randoms}

/-- The configurations that a pattern leads to. -/
def Described (n : Int) (s : CString) (random : Randoms) : Config → Prop
  | (.list started, nms) => ∃ outs rest random', PatternReads n s random outs rest random' ∧
      (started = true ↔ outs ≠ []) ∧ nms.Read .initial n outs rest random'
  | (.segment math, nms) => ∃ outs s₁ random₁ ts rest random',
      PatternReads n s random outs s₁ random₁ ∧ SegmentBegins n s₁ random₁ ts rest random' ∧
        intMeaning.run Operators.start ts = .next math ∧
          nms.Read .stExpression n outs rest random'

theorem described_step {c c' : Config} (described : Described n s random c)
    (step : ParseStep c c') : Described n s random c' := by
  cases step with
  | literal lex =>
    obtain ⟨outs, rest, random', reads, _, read⟩ := described
    obtain ⟨rule, yytext, rest', found, token, rfl⟩ := read.lexed lex
    cases rule <;> cases token
    obtain ⟨ch, rfl⟩ := scan_any found
    exact ⟨outs ++ [[ch]], rest', random', .literal reads found, by simp, read.any.put _⟩
  | opened lex =>
    obtain ⟨outs, rest, random', reads, _, read⟩ := described
    obtain ⟨rule, yytext, rest', found, token, rfl⟩ := read.lexed lex
    cases rule <;> cases token
    exact ⟨outs, rest, random', [], rest', random', reads, ⟨yytext, rest', found, .nil⟩, rfl,
      read.opened⟩
  | token lex kind advanced =>
    obtain ⟨outs, s₁, random₁, ts, rest, random', reads, ⟨opening, inside, begins, tokens⟩, ran,
      read⟩ := described
    obtain ⟨rule, yytext, rest', found, token, rfl⟩ := read.lexed lex
    have one := mathToken_of_mathTok token kind
    obtain ⟨_, rfl, _, rfl, _⟩ := id read
    obtain ⟨_, _, _, read'⟩ := read.token rest' one
    refine ⟨outs, s₁, random₁, ts ++ [_], rest', _, reads,
      ⟨opening, inside, begins, .snoc tokens found one⟩, ?_, read'⟩
    rw [Operators.run_append ran]
    exact Operators.run_cons advanced
  | closed lex value printed =>
    obtain ⟨outs, s₁, random₁, ts, rest, random', reads, begins, ran, read⟩ := described
    obtain ⟨rule, yytext, rest', found, token, rfl⟩ := read.lexed lex
    cases rule <;> cases token
    obtain ⟨e, rfl, evaluated⟩ := Operators.tree_of_result ran value
    exact ⟨outs ++ [_], rest', random', .segment e reads begins evaluated found printed, by simp,
      read.closed.formatted.put _⟩

theorem described_of_reaches {c c' : Config} (described : Described n s random c)
    (reached : Reaches c c') : Described n s random c' := by
  induction reached with
  | refl => exact described
  | tail _ step ih => exact described_step ih step

section Completeness

variable {nms : Nms}

/-- The tokens of an expression bring the parser to the state of the automaton. -/
theorem reaches_tokens {outs : List CString} {inside rest : CString} {random' : Randoms}
    {ts : List (Operators.Tok Int AddOp MulOp)}
    (tokens : MathTokens n inside random ts rest random')
    (read : nms.Read .stExpression n outs inside random) {math : Operators.State Int AddOp MulOp}
    (ran : intMeaning.run Operators.start ts = .next math) :
    ∃ nms', Reaches (.segment Operators.start, nms) (.segment math, nms') ∧
      nms'.Read .stExpression n outs rest random' := by
  induction tokens generalizing math with
  | nil =>
    cases ran
    exact ⟨nms, .refl, read⟩
  | snoc before found token ih =>
    obtain ⟨mid, ran, last⟩ := Operators.run_of_append ran
    obtain ⟨nms₁, reached, read₁⟩ := ih ran
    obtain ⟨tok, name, kind, read₂⟩ := read₁.token _ token
    have lex := read₁.lex found
    rw [name] at lex
    refine ⟨_, reached.tail (.token lex kind ?_), read₂⟩
    rw [Operators.Meaning.run] at last
    split at last
    · rename_i advanced
      cases last
      exact advanced
    · rename_i other
      exact last

theorem reaches_segment (started : Bool) {outs : List CString} {s₁ rest : CString} {random₁ random' : Randoms}
    {ts : List (Operators.Tok Int AddOp MulOp)}
    (begins : SegmentBegins n s₁ random₁ ts rest random')
    (read : nms.Read .initial n outs s₁ random₁) {math : Operators.State Int AddOp MulOp}
    (ran : intMeaning.run Operators.start ts = .next math) :
    ∃ nms', Reaches (.list started, nms) (.segment math, nms') ∧
      nms'.Read .stExpression n outs rest random' := by
  obtain ⟨opening, inside, found, tokens⟩ := begins
  obtain ⟨nms', reached, read'⟩ := reaches_tokens tokens read.opened ran
  exact ⟨nms', .head (.opened (read.lex found)) reached, read'⟩

/-- What can be read of a pattern is read. -/
theorem reaches_list {outs : List CString} {rest : CString} {random' : Randoms}
    (reads : PatternReads n s random outs rest random') (read : nms.Read .initial n [] s random) :
    ∃ nms', Reaches (.list false, nms) (.list (!outs.isEmpty), nms') ∧
      nms'.Read .initial n outs rest random' := by
  induction reads with
  | nil => exact ⟨nms, .refl, read⟩
  | @literal outs _ _ _ c _ found ih =>
    obtain ⟨nms₁, reached, read₁⟩ := ih
    have step := @ParseStep.literal (!outs.isEmpty) _ _ (read₁.lex found)
    have some' : (!(outs ++ [[c]]).isEmpty) = true := by simp
    rw [some']
    exact ⟨_, reached.tail step, read₁.any.put [c]⟩
  | @segment outs _ _ _ yytext t _ _ v e _ inside value found printed ih =>
    obtain ⟨nms₁, reached, read₁⟩ := ih
    obtain ⟨math, ran, result⟩ := Operators.result_of_tree e value
    obtain ⟨nms₂, segment, read₂⟩ := reaches_segment (!outs.isEmpty) inside read₁ ran
    have step := ParseStep.closed (t := t) (read₂.lex found) result printed
    have some' : (!(outs ++ [t]).isEmpty) = true := by simp
    rw [some']
    exact ⟨_, (reached.trans segment).tail step, read₂.closed.formatted.put t⟩

end Completeness

end Reading

section Viability

open Operators

variable {n : Int} {rest : CString} {random : Randoms} {ts : List (Tok Int AddOp MulOp)}
  {math : State Int AddOp MulOp}

theorem mul_one_isSome (b : MulOp) (l : Int) : (intMeaning.mul b l 1).isSome := by
  cases b <;> simp [intMeaning, MulOp.traps]

/-- There is always an operand that neither is zero nor makes a quotient overflow. -/
theorem intMeaning_total : intMeaning.Total where
  inhabited := ⟨0⟩
  mul b l := ⟨1, mul_one_isSome b l⟩
  correct b l t := by
    have one : intMeaning.add .plus t (1 - t) = 1 := by
      simp only [intMeaning, AddOp.exact]
      rw [show t + (1 - t) = 1 by omega]
      rfl
    refine ⟨.plus, 1 - t, ?_⟩
    rw [one]
    exact mul_one_isSome b l

theorem viable_snoc (ran : intMeaning.run start ts = .next math) (t : Tok Int AddOp MulOp) :
    Viable intMeaning (ts ++ [t]) ↔ ∃ math', intMeaning.advance math t = .next math' := by
  rw [viable_iff intMeaning_total, run_append ran, Meaning.run]
  cases intMeaning.advance math t <;> simp [Meaning.run]

/-- Inside of a segment every match is a token of an expression or a format. -/
theorem mathToken_of_scan (n : Int) (random : Randoms) {rule : LexRule} {yytext rest' : CString}
    (found : scan .stExpression rest.length rest = some (rule, yytext, rest'))
    (open' : rule ≠ .endExpr) : ∃ t random', mathToken n rule yytext random = some (t, random') := by
  obtain ⟨_, _, _, _, _, _, kept, _⟩ := scan_match found
  rcases scan_start found with ⟨other, _⟩ | ⟨_, opening, any⟩
  · cases other
  · cases rule <;> first | exact ⟨_, _, rfl⟩ | contradiction

end Viability

section Call

variable {nms : Nms} {s : CString} {n : Int} {bufSize : Nat}

/-- The globals when `yyparse` begins. -/
def Nms.given (nms : Nms) (s : CString) (bufSize : Nat) (n : Int) : Nms :=
  { nms with
    rest := s
    buf := []
    tmpbuf := 0
    tmpbufsize := bufSize
    yynumid := n
    copies := [] }

/-- The result of `yyparse` is not looked at. -/
def callResult : EStateM.Result PatternStop Nms Int → EStateM.Result PatternStop Nms Int
  | .ok _ nms => .ok 0 nms
  | .error e nms => .error e nms

theorem sprintfPattern_apply : sprintfPattern bufSize s n nms =
    callResult (yyparseLoop (s.length + 1) (.list false) (nms.given s bufSize n)) := by
  have parsed : yyparse (nms.given s bufSize n) =
      yyparseLoop (s.length + 1) (.list false) (nms.given s bufSize n) := rfl
  have called : sprintfPattern bufSize s n nms =
      (yyparse >>= fun _ => pure 0 : PM Int) (nms.given s bufSize n) := rfl
  rw [called, bind_apply, parsed]
  cases yyparseLoop (s.length + 1) (.list false) (nms.given s bufSize n) <;> rfl

/-- A call is a run of the parser. -/
theorem sprintfPattern_runs (nms : Nms) (s : CString) (n : Int) (bufSize : Nat) :
    ∃ c r, Reaches (.list false, nms.given s bufSize n) c ∧ ParseStop c r ∧
      sprintfPattern bufSize s n nms = callResult r := by
  obtain ⟨c, reached, stop⟩ := yyparseLoop_runs (.list false, nms.given s bufSize n)
    (Nat.lt_succ_self _)
  exact ⟨c, _, reached, stop, sprintfPattern_apply⟩

theorem sprintfPattern_of_stop {c : Config} {r : EStateM.Result PatternStop Nms Int}
    (reached : Reaches (.list false, nms.given s bufSize n) c) (stop : ParseStop c r) :
    sprintfPattern bufSize s n nms = callResult r :=
  sprintfPattern_apply.trans
    (congrArg callResult (yyparseLoop_of_stop reached stop (Nat.lt_succ_self _)))

/-- A configuration on the way to where the parser stops. -/
theorem sprintfPattern_through {c : Config}
    (reached : Reaches (.list false, nms.given s bufSize n) c) :
    ∃ c' r, Reaches c c' ∧ ParseStop c' r ∧ sprintfPattern bufSize s n nms = callResult r := by
  obtain ⟨c', onward, stop⟩ := yyparseLoop_runs c (Nat.lt_succ_self _)
  exact ⟨c', _, onward, stop, sprintfPattern_of_stop (reached.trans onward) stop⟩

theorem given_read (s : CString) (n : Int) (bufSize : Nat) (initial : nms.start = .initial) :
    (nms.given s bufSize n).Read .initial n [] s nms.random :=
  ⟨initial, rfl, rfl, rfl, rfl, rfl⟩

/-- Without a segment that is open, everything the parser reaches is described. -/
theorem given_described (initial : nms.start = .initial) {c : Config}
    (reached : Reaches (.list false, nms.given s bufSize n) c) : Described n s nms.random c := by
  have first : Described n s nms.random (.list false, nms.given s bufSize n) :=
    ⟨[], s, nms.random, .nil, by simp, given_read s n bufSize initial⟩
  exact described_of_reaches first reached

/-- A call that begins inside of a segment reads one token and stops. -/
theorem sprintfPattern_inside (inside : nms.start = .stExpression) :
    sprintfPattern bufSize s n nms = .ok 0 (match scan .stExpression s.length s with
      | none => { nms.given s bufSize n with rest := [] }
      | some (rule, yytext, rest) =>
          { nms.given s bufSize n with rest := rest }.lexed rule yytext) := by
  have read : (nms.given s bufSize n).Read .stExpression n [] s nms.random :=
    ⟨inside, rfl, rfl, rfl, rfl, rfl⟩
  cases found : scan .stExpression s.length s with
  | none => exact sprintfPattern_of_stop .refl (.ends (read.lex_end found))
  | some m =>
    obtain ⟨rule, yytext, rest⟩ := m
    have lex := read.lex found
    have others : ∃ tok, rule.token = some tok ∧ tok ≠ .nothingSpecial ∧ tok ≠ .beginExpr := by
      obtain ⟨_, _, _, _, _, _, kept, _⟩ := scan_match found
      rcases scan_start found with ⟨other, _⟩ | ⟨_, opening, any⟩
      · cases other
      · cases rule <;> first | contradiction | exact ⟨_, rfl, by decide, by decide⟩
    obtain ⟨tok, name, literal, opened⟩ := others
    rw [name] at lex
    exact sprintfPattern_of_stop .refl (.foreign lex literal opened)

end Call

end JabSimul
