import JabSimul.Printf
import JabSimul.Lib.LongestMatch
import JabSimul.Lib.Operators

/-!
Patterns of user names: the scanner of `namespace_scan.l`, the parser that is
generated from `namespace_pars.y`, and `sprintf_pattern`. The scanner and the
parser work on globals, and the start condition of the scanner is one of them
that `nms_init` does not set.
-/
namespace JabSimul

open LongestMatch

inductive Token where
  | nothingSpecial
  | beginExpr
  | endExpr
  | opPlus
  | opMinus
  | opMul
  | opDiv
  | opMod
  | number
  | index
  | rnd
  | lnawias
  | pnawias
  deriving DecidableEq, Repr

inductive StartCond where
  | initial
  | stExpression
  deriving DecidableEq, Repr

/-- `s_nmsval`. -/
structure Nmsval where
  s : CString
  i : Int
  c : Char
  deriving DecidableEq, Repr

/-- So many bytes were copied into an array of so many. -/
structure Copied where
  bytes : Nat
  room : Nat
  deriving DecidableEq, Repr

/-- The globals of the scanner and the parser. `rest` is what is left of the
scanner's buffer, `buf` are the bytes written from the start of the caller's
buffer on, and `tmpbuf` is the place of the cursor in it. Bytes beyond the end of
an array are noted like others. -/
structure Nms where
  start : StartCond
  rest : CString
  yylval : Nmsval
  yynumid : Int
  random : Nat → Fin (2 ^ 31)
  buf : CString
  tmpbuf : Nat
  tmpbufsize : Nat
  copies : List Copied

/-- A division that traps, or a conversion that `printf` does not define. -/
inductive PatternStop where
  | sigfpe
  | undefined
  | diverged
  deriving DecidableEq, Repr

abbrev PM := EStateM PatternStop Nms

def nul : Char := Char.ofNat 0

section Scanner

inductive LexRule where
  | beginExpr
  | any
  | lnawias
  | pnawias
  | number
  | index
  | rnd
  | opPlus
  | opMinus
  | opMul
  | opDiv
  | opMod
  | blank
  | endExpr
  | echo
  deriving DecidableEq, Repr

def alternatives (texts : List String) (s : CString) : Option Nat :=
  (texts.find? fun t => (cstr t).isPrefixOf s).map fun t => (cstr t).length

/-- `.` matches all but the end of a line. -/
def anyLength : CString → Option Nat
  | [] => none
  | c :: _ => if c = '\n' then none else some 1

/-- `[0-9]*` matches nothing at all, too. -/
def numberLength (s : CString) : Option Nat := some (s.takeWhile Char.isDigit).length

/-- `:[^\)]*\)`. -/
def endExprLength : CString → Option Nat
  | ':' :: s =>
      if ')' ∈ s then some ((s.takeWhile (· ≠ ')')).length + 2) else none
  | _ => none

/-- The rule that `flex` adds to every start condition. It matches one character,
so a rule that matches none never wins. -/
def echoLength : CString → Option Nat
  | [] => none
  | _ :: _ => some 1

def lexRules : StartCond → List (Rule Char LexRule)
  | .initial => [⟨text (cstr "%("), .beginExpr⟩, ⟨anyLength, .any⟩, ⟨echoLength, .echo⟩]
  | .stExpression =>
      [⟨text (cstr "("), .lnawias⟩, ⟨text (cstr ")"), .pnawias⟩, ⟨numberLength, .number⟩,
        ⟨alternatives ["NUM", "num", "ID", "id", "POS", "pos"], .index⟩,
        ⟨alternatives ["RND", "rnd"], .rnd⟩, ⟨text (cstr "+"), .opPlus⟩,
        ⟨text (cstr "-"), .opMinus⟩, ⟨text (cstr "*"), .opMul⟩, ⟨text (cstr "/"), .opDiv⟩,
        ⟨text (cstr "%"), .opMod⟩, ⟨text (cstr " \n"), .blank⟩, ⟨endExprLength, .endExpr⟩,
        ⟨echoLength, .echo⟩]

/-- Rules without a token. -/
def LexRule.skips : LexRule → Bool
  | .blank | .echo => true
  | _ => false

/-- The next match with a token: its rule, its text and what comes behind. At the
end of the input there is none. -/
def scan (start : StartCond) : Nat → CString → Option (LexRule × CString × CString)
  | 0, _ | _, [] => none
  | fuel + 1, c :: s =>
      match longest (lexRules start) (c :: s) with
      | none => none
      | some (n, rule) =>
          if rule.skips then scan start fuel ((c :: s).drop n)
          else some (rule, (c :: s).take n, (c :: s).drop n)

/-- `yylval.s` without the parenthesis, for which there has to be room, too. -/
def copyFormat (yytext : CString) : PM Unit :=
  modify fun nms =>
    { nms with
      start := .initial
      yylval := { nms.yylval with s := (yytext.drop 1).dropLast }
      copies := ⟨yytext.length, 200⟩ :: nms.copies }

def setValue (i : Int) : PM Unit :=
  modify fun nms => { nms with yylval := { nms.yylval with i := i } }

def nmsRandom : PM Int := do
  let nms ← get
  set { nms with random := fun n => nms.random (n + 1) }
  return (nms.random 0 : Nat)

def lexAction (rule : LexRule) (yytext : CString) : PM (Option Token) := do
  match rule with
  | .beginExpr =>
      modify fun nms => { nms with start := .stExpression }
      return some .beginExpr
  | .any =>
      modify fun nms => { nms with yylval := { nms.yylval with c := yytext.headD nul } }
      return some .nothingSpecial
  | .lnawias => return some .lnawias
  | .pnawias => return some .pnawias
  | .number =>
      setValue (atoi yytext)
      return some .number
  | .index =>
      setValue (← get).yynumid
      return some .index
  | .rnd =>
      setValue (← nmsRandom)
      return some .rnd
  | .opPlus => return some .opPlus
  | .opMinus => return some .opMinus
  | .opMul => return some .opMul
  | .opDiv => return some .opDiv
  | .opMod => return some .opMod
  | .endExpr =>
      copyFormat yytext
      return some .endExpr
  | .blank | .echo => return none

/-- The end of the input is no token. In `INITIAL` it has `nms_finito` delete the
buffer, which nothing depends on. -/
def yylex : PM (Option Token) := do
  let nms ← get
  match scan nms.start nms.rest.length nms.rest with
  | none =>
      set { nms with rest := [] }
      return none
  | some (rule, yytext, rest) =>
      set { nms with rest := rest }
      lexAction rule yytext

end Scanner

section Parser

inductive AddOp where
  | plus
  | minus
  deriving DecidableEq, Repr

inductive MulOp where
  | mul
  | div
  | mod
  deriving DecidableEq, Repr

def AddOp.exact : AddOp → Int → Int → Int
  | .plus, a, b => a + b
  | .minus, a, b => a - b

def MulOp.exact : MulOp → Int → Int → Int
  | .mul, a, b => a * b
  | .div, a, b => a.tdiv b
  | .mod, a, b => a.tmod b

/-- The bits of an `int`. -/
def toInt32 (i : Int) : Int := i.bmod (2 ^ 32)

/-- A division by zero traps, and so does one whose quotient is no `int`. -/
def MulOp.traps : MulOp → Int → Int → Bool
  | .mul, _, _ => false
  | .div, a, b | .mod, a, b => b = 0 || (a = -2 ^ 31 && b = -1)

/-- The actions of `math_addexpr` and `math_mulexpr`. -/
def intMeaning : Operators.Meaning Int AddOp MulOp where
  add a l r := toInt32 (a.exact l r)
  mul b l r := if b.traps l r then none else some (toInt32 (b.exact l r))

/-- The tokens of `math_expr`. -/
def mathTok (tok : Token) (i : Int) : Option (Operators.Tok Int AddOp MulOp) :=
  match tok with
  | .number | .index | .rnd => some (.atom i)
  | .lnawias => some .left
  | .pnawias => some .right
  | .opPlus => some (.add .plus)
  | .opMinus => some (.add .minus)
  | .opMul => some (.mul .mul)
  | .opDiv => some (.mul .div)
  | .opMod => some (.mul .mod)
  | .nothingSpecial | .beginExpr | .endExpr => none

/-- What is on the stack of `yyparse`: an `expr_list`, if there is one, and in a
segment what stands above `BEGIN_EXPR`. -/
inductive ParserState where
  | list (started : Bool)
  | segment (math : Operators.State Int AddOp MulOp)

/-- Text is stored at the cursor, with its terminator. -/
def putText (t : CString) : PM Unit :=
  modify fun nms =>
    { nms with
      buf := nms.buf.take nms.tmpbuf ++ t ++ [nul]
      tmpbuf := nms.tmpbuf + t.length }

/-- The action of a segment. -/
def putSegment (v : Int) : PM Unit := do
  modify fun nms => { nms with copies := ⟨nms.yylval.s.length + 2, 30⟩ :: nms.copies }
  match sprintfInt ('%' :: (← get).yylval.s) v with
  | none => throw .undefined
  | some t => putText t

/-- The automaton reduces an operand as soon as it is complete, and a sum when the
next token is known. Without an `error` token the first bad one ends the parse. -/
def yyparseLoop : Nat → ParserState → PM Int
  | 0, _ => throw .diverged
  | fuel + 1, .list started => do
      match ← yylex with
      | none => return if started then 0 else 1
      | some .nothingSpecial =>
          putText [(← get).yylval.c]
          yyparseLoop fuel (.list true)
      | some .beginExpr => yyparseLoop fuel (.segment Operators.start)
      | some _ => return 1
  | fuel + 1, .segment math => do
      match ← yylex with
      | none => return 1
      | some .endExpr =>
          match intMeaning.result math with
          | none => return 1
          | some v =>
              putSegment v
              yyparseLoop fuel (.list true)
      | some tok =>
          match mathTok tok (← get).yylval.i with
          | none => return 1
          | some t =>
              match intMeaning.advance math t with
              | .next math => yyparseLoop fuel (.segment math)
              | .rejected => return 1
              | .failed => throw .sigfpe

/-- Every round but the last takes a character off the input. -/
def yyparse : PM Int := do yyparseLoop ((← get).rest.length + 1) (.list false)

end Parser

/-- The start condition stays as it is. -/
def nmsInit (string : CString) (buffsize : Nat) (parNumid : Int) : PM Unit :=
  modify fun nms =>
    { nms with
      rest := string
      buf := []
      tmpbuf := 0
      tmpbufsize := buffsize
      yynumid := parNumid
      copies := [] }

def sprintfPattern (bufSize : Nat) (pattern : CString) (idnum : Int) : PM Int := do
  nmsInit pattern bufSize idnum
  let _ ← yyparse
  return 0

/-- The globals of a program that begins. -/
def nmsBoot (random : Nat → Fin (2 ^ 31)) : Nms :=
  ⟨.initial, [], ⟨[], 0, nul⟩, 0, random, [], 0, 0, []⟩

/-- The bytes in the buffer, if the call comes back. -/
def patternText (pattern : CString) (idnum : Int) (nms : Nms) : Option CString :=
  match sprintfPattern 50 pattern idnum nms with
  | .ok _ nms => some nms.buf
  | .error _ _ => none

example : patternText (cstr "test%(num*2:u)-%(3+num%12000/(1+3)+7:u)") 17 (nmsBoot fun _ => 0) =
    some (cstr "test34-14" ++ [nul]) := by decide +kernel

end JabSimul
