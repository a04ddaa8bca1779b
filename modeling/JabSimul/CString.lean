import Mathlib.Algebra.Group.Int.Defs
import Mathlib.Algebra.Group.Nat.Defs
import Mathlib.Data.List.Basic

/-!
C strings and the string helpers of the jabberd library. A string is the list
of its bytes without the terminator, one character a byte, and a pointer that
may be NULL is an option. `ap_snprintf` stands for `snprintf` in every source
that includes `lib.h`, so it is the one modelled here.
-/
namespace JabSimul

abbrev CString := List Char

def cstr (s : String) : CString := s.toList

/-- What holds of the characters of a string is decided on the string, not on all characters. -/
instance (priority := high) decidableOnString (s : CString) (p : Char → Prop) [DecidablePred p] :
    Decidable (∀ c ∈ s, p c) := List.decidableBAll p s

/-- Zero exactly on two equal strings; NULL is different from everything. -/
def jStrcmp : Option CString → Option CString → Int
  | some a, some b => if a = b then 0 else -1
  | _, _ => -1

/-- Callers read only whether the result of `strcasecmp` is zero. -/
def jStrcasecmp : Option CString → Option CString → Int
  | some a, some b => if a.map Char.toLower = b.map Char.toLower then 0 else 1
  | _, _ => -1

def jStrncmp : Option CString → Option CString → Nat → Int
  | some a, some b, n => if a.take n = b.take n then 0 else 1
  | _, _, _ => -1

def isSpace (c : Char) : Bool :=
  c = ' ' || (9 ≤ c.toNat && c.toNat ≤ 13)

def digitsValue (base : Nat) (s : CString) : Nat :=
  s.foldl (fun v c => base * v + (c.toNat - 48)) 0

/-- `strtol` in base ten clamps to 64 bits, and the cast keeps the low 32. -/
def atoi (s : CString) : Int :=
  let s := s.dropWhile isSpace
  let v : Int := match s with
    | '-' :: r => -digitsValue 10 (r.takeWhile Char.isDigit)
    | '+' :: r => digitsValue 10 (r.takeWhile Char.isDigit)
    | r => digitsValue 10 (r.takeWhile Char.isDigit)
  (max (-2 ^ 63) (min (2 ^ 63 - 1) v)).bmod (2 ^ 32)

def jAtoi (a : Option CString) (dflt : Int) : Int :=
  match a with
  | none => dflt
  | some s => atoi s

/-- The digits of `conv_10`, least significant first written backwards. -/
def conv10 (n : Nat) : CString := Nat.toDigits 10 n

/-- `%u` reads its `int` argument as 32 unsigned bits. -/
def fmtU (n : Nat) : CString := conv10 (n % 2 ^ 32)

def fmtI (i : Int) : CString :=
  if i < 0 then '-' :: conv10 i.natAbs else conv10 i.natAbs

def fmtS (s : Option CString) : CString := s.getD (cstr "(null)")

/-- What `ap_snprintf` leaves in a buffer of `len` bytes. `strx_printv` gets
`len - 1` and takes zero for "no limit", so a one-byte buffer is not bounded. -/
def apSnprintf (len : Nat) (text : CString) : CString :=
  if len = 1 then text else text.take (len - 1)

theorem jStrcmp_eq_zero_iff (a b : Option CString) :
    jStrcmp a b = 0 ↔ ∃ s, a = some s ∧ b = some s := by
  cases a with
  | none => simp [jStrcmp]
  | some s =>
    cases b with
    | none => simp [jStrcmp]
    | some t =>
      by_cases same : s = t
      · simp [jStrcmp, same]
      · simp [jStrcmp, same, eq_comm]

theorem apSnprintf_of_le {len : Nat} {text : CString} (fits : text.length < len) :
    apSnprintf len text = text := by
  unfold apSnprintf
  split
  · rfl
  · exact List.take_of_length_le (by omega)

end JabSimul
