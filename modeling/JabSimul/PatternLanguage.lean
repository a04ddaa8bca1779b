import JabSimul.PatternReading

/-!
The language of name patterns: literals, and segments `%(e:f)` of an expression
and a conversion of `printf`. A pattern of the language gives its literals and the
rendered values of its expressions, in order.
-/
namespace JabSimul

open LongestMatch Simulation Relation Operators

structure Digits where
  text : CString
  nonempty : text ≠ []
  digits : ∀ c ∈ text, c.isDigit = true

inductive IndexName where
  | NUM
  | num
  | ID
  | id
  | POS
  | pos
  deriving DecidableEq, Repr

def IndexName.text : IndexName → CString
  | .NUM => cstr "NUM"
  | .num => cstr "num"
  | .ID => cstr "ID"
  | .id => cstr "id"
  | .POS => cstr "POS"
  | .pos => cstr "pos"

inductive RndName where
  | RND
  | rnd
  deriving DecidableEq, Repr

def RndName.text : RndName → CString
  | .RND => cstr "RND"
  | .rnd => cstr "rnd"

inductive Leaf where
  | number (d : Digits)
  | index (name : IndexName)
  | rnd (name : RndName)

def Leaf.text : Leaf → CString
  | .number d => d.text
  | .index name => name.text
  | .rnd name => name.text

def AddOp.text : AddOp → CString
  | .plus => cstr "+"
  | .minus => cstr "-"

def MulOp.text : MulOp → CString
  | .mul => cstr "*"
  | .div => cstr "/"
  | .mod => cstr "%"

/-- Expressions by the grammar of `math_expr`, without blanks. -/
abbrev MathExpr := Tree Leaf AddOp MulOp

def tokText : Tok Leaf AddOp MulOp → CString
  | .atom l => l.text
  | .add a => a.text
  | .mul b => b.text
  | .left => cstr "("
  | .right => cstr ")"

def exprText {r : Rank} (e : MathExpr r) : CString := e.tokens.flatMap tokText

section Value

/-- Results that may fail, with random values taken from the front of a stream. -/
abbrev Draw := StateT Randoms Option

def intValue (i : Int) : Option Int := if -2 ^ 31 ≤ i ∧ i < 2 ^ 31 then some i else none

def Leaf.value (n : Int) : Leaf → Draw Int
  | .number d => StateT.lift (intValue (digitsValue 10 d.text))
  | .index _ => pure n
  | .rnd _ => fun random => some ((random 0 : Nat), random.after)

def AddOp.value (a : AddOp) (l r : Int) : Option Int := intValue (a.exact l r)

/-- A remainder has to come from a division whose quotient is an `int`. -/
def MulOp.value : MulOp → Int → Int → Option Int
  | .mul, l, r => intValue (l * r)
  | .div, l, r => if r = 0 then none else intValue (l.tdiv r)
  | .mod, l, r => if r = 0 then none else (intValue (l.tdiv r)).bind fun _ => intValue (l.tmod r)

/-- The exact value of an expression, if every step of it stays an `int`. -/
def mathValue (n : Int) : {r : Rank} → MathExpr r → Draw Int
  | _, .leaf l => l.value n
  | _, .paren e => mathValue n e
  | _, .factor e => mathValue n e
  | _, .mul l b r => do
      let lv ← mathValue n l
      let rv ← mathValue n r
      StateT.lift (b.value lv rv)
  | _, .term e => mathValue n e
  | _, .add l a r => do
      let lv ← mathValue n l
      let rv ← mathValue n r
      StateT.lift (a.value lv rv)

/-- A conversion for an `int`, without its percent sign. -/
structure IntFormat where
  text : CString
  conv : Conv
  parsed : parseConv text = some (conv, [])
  closed : ')' ∉ text

inductive Piece where
  | literal (c : Char)
  | segment (e : MathExpr .sum) (f : IntFormat)

def Piece.text : Piece → CString
  | .literal c => [c]
  | .segment e f => cstr "%(" ++ exprText e ++ ':' :: f.text ++ [')']

def piecesText (ps : List Piece) : CString := ps.flatMap Piece.text

/-- A literal is no newline, and no percent sign in front of a parenthesis. -/
def WellFormed : List Piece → Prop
  | [] => True
  | .literal c :: ps =>
      c ≠ '\n' ∧ ¬(c = '%' ∧ (piecesText ps).head? = some '(') ∧ WellFormed ps
  | .segment _ _ :: ps => WellFormed ps

def rendered (n : Int) : List Piece → Draw CString
  | [] => pure []
  | .literal c :: ps => do
      let out ← rendered n ps
      return c :: out
  | .segment e f :: ps => do
      let v ← mathValue n e
      let out ← rendered n ps
      return f.conv.render v ++ out

end Value

section Lexing

variable {s tail : CString} {c : Char}

/-- A number may end in front of this. -/
def NoDigit (s : CString) : Prop := ∀ c ∈ s.head?, c.isDigit = false

theorem digit_ne {d : Char} (digit : c.isDigit = true) (other : d.isDigit = false) : d ≠ c := by
  rintro rfl
  rw [digit] at other
  cases other

theorem takeWhile_digits (tail : CString) {text : CString} (digits : ∀ c ∈ text, c.isDigit = true)
    (ends : NoDigit tail) :
    (text ++ tail).takeWhile Char.isDigit = text := by
  rw [List.takeWhile_append_of_pos digits]
  cases tail with
  | nil => simp
  | cons c tail => simp [ends c rfl]

theorem longest_digits (d : Digits) (ends : NoDigit tail) :
    longest (lexRules .stExpression) (d.text ++ tail) = some (d.text.length, .number) := by
  have run := takeWhile_digits tail d.digits ends
  obtain ⟨more, nonempty, digits⟩ := d
  cases more with
  | nil => exact absurd rfl nonempty
  | cons c more =>
    have digit : c.isDigit = true := digits c (List.mem_cons_self ..)
    have no (d : Char) (other : d.isDigit = false) : (d == c) = false :=
      beq_false_of_ne (digit_ne digit other)
    have colon : endExprLength (c :: (more ++ tail)) = none := by
      unfold endExprLength
      split
      · rename_i same
        cases same
        cases digit
      · rfl
    simp only [List.cons_append] at run ⊢
    simp [lexRules, longest, text, cstr, numberLength, alternatives, echoLength, run, colon, no,
      List.isPrefixOf]

def tokRule : Tok Leaf AddOp MulOp → LexRule
  | .atom (.number _) => .number
  | .atom (.index _) => .index
  | .atom (.rnd _) => .rnd
  | .add .plus => .opPlus
  | .add .minus => .opMinus
  | .mul .mul => .opMul
  | .mul .div => .opDiv
  | .mul .mod => .opMod
  | .left => .lnawias
  | .right => .pnawias

/-- A token of an expression is what the scanner finds, if no digit comes behind. -/
theorem longest_tokText (t : Tok Leaf AddOp MulOp)
    (ends : ∀ d, t = .atom (.number d) → NoDigit tail) :
    longest (lexRules .stExpression) (tokText t ++ tail) =
      some ((tokText t).length, tokRule t) := by
  match t with
  | .atom (.number d) => exact longest_digits d (ends d rfl)
  | .atom (.index name) =>
    cases name <;> simp [tokText, Leaf.text, IndexName.text, tokRule, lexRules, longest, text, cstr,
      numberLength, alternatives, endExprLength, echoLength]
  | .atom (.rnd name) =>
    cases name <;> simp [tokText, Leaf.text, RndName.text, tokRule, lexRules, longest, text, cstr,
      numberLength, alternatives, endExprLength, echoLength]
  | .add a =>
    cases a <;> simp [tokText, AddOp.text, tokRule, lexRules, longest, text, cstr, numberLength,
      alternatives, endExprLength, echoLength]
  | .mul b =>
    cases b <;> simp [tokText, MulOp.text, tokRule, lexRules, longest, text, cstr, numberLength,
      alternatives, endExprLength, echoLength]
  | .left | .right =>
    simp [tokText, tokRule, lexRules, longest, text, cstr, numberLength, alternatives,
      endExprLength, echoLength]

theorem tokText_nonempty (t : Tok Leaf AddOp MulOp) : tokText t ≠ [] := by
  match t with
  | .atom (.number d) => exact d.nonempty
  | .atom (.index name) => cases name <;> exact List.cons_ne_nil _ _
  | .atom (.rnd name) => cases name <;> exact List.cons_ne_nil _ _
  | .add a => cases a <;> exact List.cons_ne_nil _ _
  | .mul b => cases b <;> exact List.cons_ne_nil _ _
  | .left | .right => exact List.cons_ne_nil _ _

theorem scan_tokText (t : Tok Leaf AddOp MulOp)
    (ends : ∀ d, t = .atom (.number d) → NoDigit tail) :
    scan .stExpression (tokText t ++ tail).length (tokText t ++ tail) =
      some (tokRule t, tokText t, tail) := by
  refine scan_text _ (tokText_nonempty t) (longest_tokText t ends) ?_
  match t with
  | .atom (.number _) | .atom (.index _) | .atom (.rnd _) => rfl
  | .add a => cases a <;> rfl
  | .mul b => cases b <;> rfl
  | .left | .right => rfl

theorem scan_opening : scan .initial (cstr "%(" ++ tail).length (cstr "%(" ++ tail) =
    some (.beginExpr, cstr "%(", tail) := by
  refine scan_text _ (List.cons_ne_nil _ _) ?_ rfl
  simp [lexRules, longest, text, cstr, anyLength, echoLength]

theorem scan_literal (line : c ≠ '\n') (opening : ¬(c = '%' ∧ tail.head? = some '(')) :
    scan .initial (c :: tail).length (c :: tail) = some (.any, [c], tail) := by
  have no : text (cstr "%(") (c :: tail) = none := by
    refine if_neg fun both => opening ?_
    cases tail with
    | nil => simp [cstr, List.isPrefixOf] at both
    | cons d tail =>
      simp [cstr, List.isPrefixOf] at both
      exact ⟨both.1.symm, congrArg some both.2.symm⟩
  refine scan_text [c] (List.cons_ne_nil _ _) ?_ rfl
  simp [lexRules, longest, no, anyLength, echoLength, line]

theorem scan_closing {f : CString} (closed : ')' ∉ f) :
    scan .stExpression (':' :: f ++ [')'] ++ tail).length (':' :: f ++ [')'] ++ tail) =
      some (.endExpr, ':' :: f ++ [')'], tail) := by
  have whole := @endExprLength_closed f tail closed
  refine scan_text _ (List.cons_ne_nil _ _) ?_ rfl
  simp [lexRules, longest, text, cstr, numberLength, alternatives, echoLength, whole]

end Lexing

section Values

variable {i l r v n : Int}

theorem intValue_some (value : intValue i = some v) : i = v ∧ -2 ^ 31 ≤ v ∧ v < 2 ^ 31 := by
  unfold intValue at value
  split at value
  · rename_i bounds
    cases value
    exact ⟨rfl, bounds⟩
  · cases value

theorem toInt32_of_value (value : intValue i = some v) : toInt32 i = v := by
  obtain ⟨rfl, lower, upper⟩ := intValue_some value
  exact Int.bmod_eq_of_le (by omega) (by omega)

theorem AddOp.value_some {a : AddOp} (value : a.value l r = some v) : intMeaning.add a l r = v :=
  toInt32_of_value value

theorem quotient_overflows : intValue ((-2 ^ 31 : Int).tdiv (-1)) = none := by decide

theorem MulOp.value_some {b : MulOp} (value : b.value l r = some v) :
    intMeaning.mul b l r = some v := by
  cases b with
  | mul => exact congrArg some (toInt32_of_value value)
  | div =>
    simp only [MulOp.value] at value
    split at value
    · cases value
    rename_i nonzero
    have safe : ¬(l = -2 ^ 31 ∧ r = -1) := by
      rintro ⟨rfl, rfl⟩
      cases quotient_overflows.symm.trans value
    simp only [intMeaning, MulOp.traps, nonzero, decide_false, Bool.false_or]
    rw [if_neg (by simpa using safe)]
    exact congrArg some (toInt32_of_value value)
  | mod =>
    simp only [MulOp.value] at value
    split at value
    · cases value
    rename_i nonzero
    obtain ⟨q, quotient, remainder⟩ := Option.bind_eq_some_iff.mp value
    have safe : ¬(l = -2 ^ 31 ∧ r = -1) := by
      rintro ⟨rfl, rfl⟩
      cases quotient_overflows.symm.trans quotient
    simp only [intMeaning, MulOp.traps, nonzero, decide_false, Bool.false_or]
    rw [if_neg (by simpa using safe)]
    exact congrArg some (toInt32_of_value remainder)

theorem atoi_digits (d : Digits) (value : intValue (digitsValue 10 d.text) = some v) :
    atoi d.text = v := by
  obtain ⟨same, lower, upper⟩ := intValue_some value
  have all : d.text.takeWhile Char.isDigit = d.text := by
    simpa using takeWhile_digits [] d.digits (by simp [NoDigit])
  obtain ⟨more, nonempty, digits⟩ := d
  cases more with
  | nil => exact absurd rfl nonempty
  | cons c more =>
    have digit : c.isDigit = true := digits c (List.mem_cons_self ..)
    have lower' : 48 ≤ c.toNat := by
      simp only [Char.isDigit, Bool.and_eq_true, decide_eq_true_eq] at digit
      exact UInt32.le_iff_toNat_le.mp digit.1
    have space : isSpace c = false := by
      simp only [isSpace, Bool.or_eq_false_iff, decide_eq_false_iff_not, Bool.and_eq_false_iff]
      refine ⟨(digit_ne digit rfl).symm, .inr ?_⟩
      omega
    have minus : c ≠ '-' := (digit_ne digit rfl).symm
    have plus : c ≠ '+' := (digit_ne digit rfl).symm
    dsimp only at all same ⊢
    simp only [atoi, List.dropWhile_cons, space, Bool.false_eq_true, if_false]
    split
    · rename_i other
      exact absurd (List.cons.inj other).1 minus
    · rename_i other
      exact absurd (List.cons.inj other).1 plus
    · rw [all, same]
      have clamped : max (-2 ^ 63) (min (2 ^ 63 - 1) v) = v := by omega
      rw [clamped]
      exact Int.bmod_eq_of_le (by omega) (by omega)

end Values

section Expressions

variable {n v : Int} {random random' : Randoms}

theorem lift_some {α : Type} {o : Option α} {a : α} :
    (StateT.lift o : Draw α) random = some (a, random') ↔ o = some a ∧ random' = random := by
  cases o with
  | none => simp [StateT.lift]
  | some b => simp [StateT.lift, eq_comm]

theorem bind_some {α β : Type} {m : Draw α} {f : α → Draw β} {b : β} :
    (m >>= f) random = some (b, random') ↔
      ∃ a random₁, m random = some (a, random₁) ∧ f a random₁ = some (b, random') := by
  change (m random).bind (fun p => f p.1 p.2) = _ ↔ _
  rw [Option.bind_eq_some_iff]
  exact ⟨fun ⟨p, first, next⟩ => ⟨p.1, p.2, first, next⟩, fun ⟨a, r, first, next⟩ =>
    ⟨(a, r), first, next⟩⟩

theorem mathToken_leaf {l : Leaf} (value : l.value n random = some (v, random')) :
    mathToken n (tokRule (.atom l)) l.text random = some (.atom v, random') := by
  cases l with
  | number d =>
    obtain ⟨exact', rfl⟩ := lift_some.mp value
    rw [← atoi_digits d exact']
    rfl
  | index name =>
    cases value
    rfl
  | rnd name =>
    cases value
    rfl

variable {s rest : CString} {random₀ : Randoms} {ts : List (Tok Int AddOp MulOp)}

theorem MathTokens.read {t : Tok Leaf AddOp MulOp} (t' : Tok Int AddOp MulOp)
    (before : MathTokens n s random₀ ts (tokText t ++ rest) random)
    (ends : ∀ d, t = .atom (.number d) → NoDigit rest)
    (token : mathToken n (tokRule t) (tokText t) random = some (t', random')) :
    MathTokens n s random₀ (ts ++ [t']) rest random' :=
  .snoc before (scan_tokText t ends) token

theorem noDigit_mul {b : MulOp} : NoDigit (tokText (.mul b) ++ rest) := by
  cases b <;> simp [NoDigit, tokText, MulOp.text, cstr]

theorem noDigit_add {a : AddOp} : NoDigit (tokText (.add a) ++ rest) := by
  cases a <;> simp [NoDigit, tokText, AddOp.text, cstr]

/-- What the scanner reads of an expression is an expression of the values of its
leaves, and its value is exact. The induction follows the expression. -/
theorem tokens_of_expr {r : Rank} (e : MathExpr r)
    (value : mathValue n e random = some (v, random'))
    (before : MathTokens n s random₀ ts (exprText e ++ rest) random)
    (ends : NoDigit rest) :
    ∃ e' : Tree Int AddOp MulOp r, e'.eval intMeaning = some v ∧
      MathTokens n s random₀ (ts ++ e'.tokens) rest random' := by
  induction e generalizing v random random' ts rest with
  | leaf l =>
    have text : exprText (.leaf l : MathExpr .atom) = tokText (.atom l) := List.append_nil _
    rw [text] at before
    exact ⟨.leaf v, rfl, before.read (.atom v) (fun _ _ => ends) (mathToken_leaf value)⟩
  | paren e ih =>
    have text : exprText (.paren e : MathExpr .atom) ++ rest =
        tokText .left ++ (exprText e ++ (tokText .right ++ rest)) := by
      simp [exprText, Tree.tokens]
    rw [text] at before
    have opened := before.read .left (fun _ same => by cases same) rfl
    obtain ⟨e', evaluated, tokens⟩ := ih value opened (by simp [NoDigit, tokText, cstr])
    have closed := tokens.read (t := .right) .right (fun _ same => by cases same) rfl
    exact ⟨.paren e', evaluated, by simpa [Tree.tokens] using closed⟩
  | factor e ih =>
    obtain ⟨e', evaluated, tokens⟩ := ih value before ends
    exact ⟨.factor e', evaluated, tokens⟩
  | mul l b r ihl ihr =>
    obtain ⟨lv, random₁, left, more⟩ := bind_some.mp value
    obtain ⟨rv, random₂, right, last⟩ := bind_some.mp more
    obtain ⟨product, rfl⟩ := lift_some.mp last
    have text : exprText (.mul l b r : MathExpr .product) ++ rest =
        exprText l ++ (tokText (.mul b) ++ (exprText r ++ rest)) := by
      simp [exprText, Tree.tokens]
    rw [text] at before
    obtain ⟨l', evaluatedL, tokensL⟩ := ihl left before noDigit_mul
    have operator := tokensL.read (t := .mul b) (.mul b) (fun _ same => by cases same)
      (by cases b <;> rfl)
    obtain ⟨r', evaluatedR, tokensR⟩ := ihr right operator ends
    refine ⟨.mul l' b r', ?_, by simpa [Tree.tokens] using tokensR⟩
    simp [Tree.eval, evaluatedL, evaluatedR, MulOp.value_some product]
  | term e ih =>
    obtain ⟨e', evaluated, tokens⟩ := ih value before ends
    exact ⟨.term e', evaluated, tokens⟩
  | add l a r ihl ihr =>
    obtain ⟨lv, random₁, left, more⟩ := bind_some.mp value
    obtain ⟨rv, random₂, right, last⟩ := bind_some.mp more
    obtain ⟨sum, rfl⟩ := lift_some.mp last
    have text : exprText (.add l a r : MathExpr .sum) ++ rest =
        exprText l ++ (tokText (.add a) ++ (exprText r ++ rest)) := by
      simp [exprText, Tree.tokens]
    rw [text] at before
    obtain ⟨l', evaluatedL, tokensL⟩ := ihl left before noDigit_add
    have operator := tokensL.read (t := .add a) (.add a) (fun _ same => by cases same)
      (by cases a <;> rfl)
    obtain ⟨r', evaluatedR, tokensR⟩ := ihr right operator ends
    refine ⟨.add l' a r', ?_, by simpa [Tree.tokens] using tokensR⟩
    simp [Tree.eval, evaluatedL, evaluatedR, AddOp.value_some sum]

end Expressions

section Patterns

variable {n : Int} {random random' random₀ : Randoms} {s out : CString} {ps : List Piece}

theorem parseConv_percent (f : CString) : parseConv ('%' :: f) = none := rfl

/-- One conversion and nothing else. -/
theorem sprintfInt_conv (f : IntFormat) (v : Int) :
    sprintfInt ('%' :: f.text) v = some (f.conv.render v) := by
  obtain ⟨text, conv, parsed, _⟩ := f
  cases text with
  | nil => cases parsed
  | cons c more =>
    have conversion : c ≠ '%' := by
      rintro rfl
      cases (parseConv_percent more).symm.trans parsed
    have last (fuel : Nat) : sprintfLoop fuel [] true v = some [] := by
      cases fuel <;> rfl
    dsimp only
    rw [sprintfInt, List.length_cons, sprintfLoop]
    · simp only [Bool.false_eq_true, if_false, parsed, last, Option.map_some, List.append_nil]
    · rintro _ same
      exact conversion (List.cons.inj same).1

/-- What the scanner and the parser read of a pattern of the language. -/
theorem reads_of_pieces {outs : List CString} (wellFormed : WellFormed ps)
    (value : rendered n ps random = some (out, random'))
    (before : PatternReads n s random₀ outs (piecesText ps) random) :
    ∃ outs', outs'.flatten = out ∧ outs'.length = ps.length ∧
      PatternReads n s random₀ (outs ++ outs') [] random' := by
  induction ps generalizing outs random out with
  | nil =>
    cases value
    exact ⟨[], rfl, rfl, by rwa [List.append_nil]⟩
  | cons p ps ih =>
    cases p with
    | literal c =>
      obtain ⟨line, opening, wellFormed⟩ := wellFormed
      obtain ⟨more, random₁, value, last⟩ := bind_some.mp value
      cases last
      obtain ⟨outs', flat, length, reads⟩ :=
        ih wellFormed value (.literal before (scan_literal line opening))
      refine ⟨[c] :: outs', by simp [flat], by simp [length], by simpa using reads⟩
    | segment e f =>
      obtain ⟨v, random₁, exact', more⟩ := bind_some.mp value
      obtain ⟨later, random₂, value, last⟩ := bind_some.mp more
      cases last
      have text : piecesText (.segment e f :: ps) =
          cstr "%(" ++ (exprText e ++ (':' :: f.text ++ [')'] ++ piecesText ps)) := by
        simp [piecesText, Piece.text]
      rw [text] at before
      have colon : NoDigit (':' :: f.text ++ [')'] ++ piecesText ps) := by simp [NoDigit]
      obtain ⟨e', evaluated, tokens⟩ := tokens_of_expr e exact' .nil colon
      have format : formatOf (':' :: f.text ++ [')']) = f.text := by simp [formatOf]
      obtain ⟨outs', flat, length, reads⟩ := ih wellFormed value
        (.segment e' before ⟨_, _, scan_opening, tokens⟩ evaluated (scan_closing f.closed)
          (by rw [format]; exact sprintfInt_conv f v))
      refine ⟨f.conv.render v :: outs', by simp [flat], by simp [length], by simpa using reads⟩

/-- A program that was given patterns of the language so far, and that may draw
random values elsewhere. -/
inductive Ready : Nms → Prop where
  | boot (random : Randoms) : Ready (nmsBoot random)
  | drawn {nms : Nms} (ready : Ready nms) (random : Randoms) : Ready { nms with random := random }
  | call {nms nms' : Nms} {ps : List Piece} {n r : Int} {out : CString} {random : Randoms}
      {bufSize : Nat} (ready : Ready nms) (nonempty : ps ≠ []) (wellFormed : WellFormed ps)
      (value : rendered n ps nms.random = some (out, random))
      (called : sprintfPattern bufSize (piecesText ps) n nms = .ok r nms') : Ready nms'

theorem sprintfPattern_pieces {nms : Nms} (initial : nms.start = .initial) (bufSize : Nat)
    (nonempty : ps ≠ []) (wellFormed : WellFormed ps)
    (value : rendered n ps nms.random = some (out, random)) :
    ∃ nms', sprintfPattern bufSize (piecesText ps) n nms = .ok 0 nms' ∧
      nms'.buf = out ++ [nul] ∧ nms'.random = random ∧ nms'.start = .initial := by
  obtain ⟨outs, rfl, length, reads⟩ := reads_of_pieces wellFormed value .nil
  have some' : outs ≠ [] := by
    rintro rfl
    exact nonempty (List.length_eq_zero_iff.mp length.symm)
  obtain ⟨nms₁, reached, read⟩ :=
    reaches_list reads (given_read (piecesText ps) n bufSize initial)
  have stop := @ParseStop.ends (!([] ++ outs).isEmpty) _ _ (read.lex_end scan_nil)
  refine ⟨{ nms₁ with rest := [] }, sprintfPattern_of_stop reached stop, ?_, read.random,
    read.start⟩
  simpa [some'] using read.buf

theorem Ready.initial {nms : Nms} (ready : Ready nms) : nms.start = .initial := by
  induction ready with
  | boot random => rfl
  | drawn _ random ih => exact ih
  | call _ nonempty wellFormed value called ih =>
    obtain ⟨_, ran, _, _, initial⟩ := sprintfPattern_pieces ih _ nonempty wellFormed value
    cases called.symm.trans ran
    exact initial

/-- A pattern of the language gives its literals and the rendered values of its
expressions, terminated, and takes the random values that the expressions need. -/
theorem sprintfPattern_renders {nms : Nms} (ready : Ready nms) (bufSize : Nat)
    (nonempty : ps ≠ []) (wellFormed : WellFormed ps)
    (value : rendered n ps nms.random = some (out, random)) :
    ∃ nms', sprintfPattern bufSize (piecesText ps) n nms = .ok 0 nms' ∧
      nms'.buf = out ++ [nul] ∧ nms'.random = random := by
  obtain ⟨nms', ran, buf, left, _⟩ :=
    sprintfPattern_pieces ready.initial bufSize nonempty wellFormed value
  exact ⟨nms', ran, buf, left⟩

/-- `u%(3+num*rnd:03d)`. -/
def namePieces : List Piece :=
  [.literal 'u',
    .segment
      (.add (.term (.factor (.leaf (.number ⟨cstr "3", by decide, by simp [cstr]⟩)))) .plus
        (.mul (.factor (.leaf (.index .num))) .mul (.leaf (.rnd .rnd))))
      ⟨cstr "03d", ⟨false, false, false, false, true, 3, none, .int, .signed⟩, by decide,
        by decide⟩]

theorem sprintfPattern_renders_name :
    piecesText namePieces = cstr "u%(3+num*rnd:03d)" ∧
      ∃ nms', sprintfPattern 50 (piecesText namePieces) 4 (nmsBoot fun _ => 7) = .ok 0 nms' ∧
        nms'.buf = cstr "u031" ++ [nul] := by
  have out : (rendered 4 namePieces fun _ => 7).map Prod.fst = some (cstr "u031") := by
    decide +kernel
  obtain ⟨⟨_, random⟩, value, rfl⟩ := Option.map_eq_some_iff.mp out
  have wellFormed : WellFormed namePieces := ⟨by decide, by decide, trivial⟩
  obtain ⟨nms', ran, buf, _⟩ :=
    sprintfPattern_renders (.boot fun _ => 7) 50 (List.cons_ne_nil _ _) wellFormed value
  exact ⟨by decide, nms', ran, buf⟩

end Patterns

end JabSimul
