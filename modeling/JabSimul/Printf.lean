import JabSimul.CString

/-!
The part of `printf` that formats one `int`, as ISO C has it. What that standard
leaves undefined, and a result that no `int` can count, is `none`: so are the flag
`'` and the `n$` of POSIX.
-/
namespace JabSimul

def isFlag (c : Char) : Bool := c = '-' || c = '+' || c = ' ' || c = '#' || c = '0'

/-- The type that the argument is converted to. -/
inductive ConvLength where
  | int
  | short
  | char
  deriving DecidableEq, Repr

def ConvLength.bits : ConvLength → Nat
  | .int => 32
  | .short => 16
  | .char => 8

inductive ConvLetter where
  | signed
  | unsigned
  | octal
  | hex
  | hexUpper
  | character
  deriving DecidableEq, Repr

def convLetter : Char → Option ConvLetter
  | 'd' | 'i' => some .signed
  | 'u' => some .unsigned
  | 'o' => some .octal
  | 'x' => some .hex
  | 'X' => some .hexUpper
  | 'c' => some .character
  | _ => none

structure Conv where
  minus : Bool
  plus : Bool
  space : Bool
  alt : Bool
  zero : Bool
  width : Nat
  precision : Option Nat
  length : ConvLength
  letter : ConvLetter
  deriving DecidableEq, Repr

/-- The combinations that the standard defines, with a result that an `int` counts. -/
def Conv.defined (c : Conv) : Bool :=
  c.width < 2 ^ 31 && (c.precision.getD 0) < 2 ^ 31 - 2 &&
    match c.letter with
    | .signed | .unsigned => !c.alt
    | .octal | .hex | .hexUpper => true
    | .character => !c.alt && !c.zero && c.precision.isNone && c.length = .int

def parsePrecision (s : CString) : Option Nat × CString :=
  match s with
  | '.' :: s => (some (digitsValue 10 (s.takeWhile Char.isDigit)), s.dropWhile Char.isDigit)
  | s => (none, s)

def parseLength (s : CString) : ConvLength × CString :=
  match s with
  | 'h' :: 'h' :: s => (.char, s)
  | 'h' :: s => (.short, s)
  | s => (.int, s)

/-- A conversion without its percent sign, and what comes behind it. -/
def parseConv (s : CString) : Option (Conv × CString) :=
  let flags := s.takeWhile isFlag
  let s := s.dropWhile isFlag
  let width := digitsValue 10 (s.takeWhile Char.isDigit)
  let (precision, s) := parsePrecision (s.dropWhile Char.isDigit)
  let (length, s) := parseLength s
  match s with
  | [] => none
  | letter :: rest =>
      match convLetter letter with
      | none => none
      | some letter =>
          let c : Conv := ⟨flags.contains '-', flags.contains '+', flags.contains ' ',
            flags.contains '#', flags.contains '0', width, precision, length, letter⟩
          if c.defined then some (c, rest) else none

/-- The digits of a number, with as many zeros in front as the precision asks for. -/
def Conv.digits (c : Conv) (base n : Nat) : CString :=
  let digits := if n = 0 ∧ c.precision = some 0 then [] else Nat.toDigits base n
  List.replicate (c.precision.getD 0 - digits.length) '0' ++ digits

/-- The sign or the base in front of the digits, and the digits. -/
def Conv.body (c : Conv) (v : Int) : CString × CString :=
  let signed := v.bmod (2 ^ c.length.bits)
  let unsigned := (v % 2 ^ c.length.bits).toNat
  match c.letter with
  | .signed =>
      (if signed < 0 then ['-'] else if c.plus then ['+'] else if c.space then [' '] else [],
        c.digits 10 signed.natAbs)
  | .unsigned => ([], c.digits 10 unsigned)
  | .octal =>
      let digits := c.digits 8 unsigned
      ([], if c.alt && digits.head? ≠ some '0' then '0' :: digits else digits)
  | .hex => (if c.alt && unsigned ≠ 0 then cstr "0x" else [], c.digits 16 unsigned)
  | .hexUpper =>
      (if c.alt && unsigned ≠ 0 then cstr "0X" else [], (c.digits 16 unsigned).map Char.toUpper)
  | .character => ([], [Char.ofNat (v % 256).toNat])

def Conv.render (c : Conv) (v : Int) : CString :=
  let (lead, digits) := c.body v
  let pad := c.width - (lead.length + digits.length)
  if c.minus then lead ++ digits ++ List.replicate pad ' '
  else if c.zero && c.precision.isNone then lead ++ List.replicate pad '0' ++ digits
  else List.replicate pad ' ' ++ lead ++ digits

/-- The loop over a format. `used` says that the argument is converted already. -/
def sprintfLoop : Nat → CString → Bool → Int → Option CString
  | _, [], _, _ => some []
  | 0, _, _, _ => none
  | fuel + 1, '%' :: '%' :: s, used, v => (sprintfLoop fuel s used v).map ('%' :: ·)
  | fuel + 1, '%' :: s, used, v =>
      if used then none
      else
        match parseConv s with
        | none => none
        | some (c, rest) => (sprintfLoop fuel rest true v).map (c.render v ++ ·)
  | fuel + 1, ch :: s, used, v => (sprintfLoop fuel s used v).map (ch :: ·)

/-- `sprintf(buf,fmt,v)`. -/
def sprintfInt (fmt : CString) (v : Int) : Option CString := sprintfLoop fmt.length fmt false v

example : sprintfInt (cstr "%05d|") (-42) = some (cstr "-0042|") := by decide

example : sprintfInt (cstr "%-6.3x%%") 10 = some (cstr "00a   %") := by decide

end JabSimul
