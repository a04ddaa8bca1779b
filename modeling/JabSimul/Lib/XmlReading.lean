import Mathlib.Data.List.Basic
import Mathlib.Data.List.Infix

/-!
How a text is read as XML when there is no DTD. A text is the list of its bytes, the
characters are encoded in UTF-8. What the nodes are is left open: `tag` makes an element
and `data` a piece of character data.
-/
namespace XmlReading

/-- What holds of the characters of a text is decided on the text, not on all characters. -/
instance (priority := high) decidableOnText (s : List Char) (p : Char → Prop) [DecidablePred p] :
    Decidable (∀ c ∈ s, p c) := List.decidableBAll p s

section Characters

def tab : Char := Char.ofNat 9

def lineFeed : Char := Char.ofNat 10

def carriageReturn : Char := Char.ofNat 13

def doubleQuote : Char := Char.ofNat 34

def singleQuote : Char := Char.ofNat 39

def blanks : List Char := [' ', tab, lineFeed, carriageReturn]

/-- A character that may occur in a document. -/
def Legal (c : Char) : Prop :=
  c ∈ [tab, lineFeed, carriageReturn] ∨ 32 ≤ c.toNat ∧ c.toNat ≠ 0xFFFE ∧ c.toNat ≠ 0xFFFF

/-- The bytes of a character. -/
def utf8 (c : Char) : List Char :=
  if c.toNat < 0x80 then [c]
  else if c.toNat < 0x800 then
    [Char.ofNat (0xC0 + c.toNat / 0x40), Char.ofNat (0x80 + c.toNat % 0x40)]
  else if c.toNat < 0x10000 then
    [Char.ofNat (0xE0 + c.toNat / 0x1000), Char.ofNat (0x80 + c.toNat / 0x40 % 0x40),
      Char.ofNat (0x80 + c.toNat % 0x40)]
  else
    [Char.ofNat (0xF0 + c.toNat / 0x40000), Char.ofNat (0x80 + c.toNat / 0x1000 % 0x40),
      Char.ofNat (0x80 + c.toNat / 0x40 % 0x40), Char.ofNat (0x80 + c.toNat % 0x40)]

/-- Bytes that are the bytes of legal characters. -/
inductive Encoded : List Char → Prop
  | nil : Encoded []
  | cons {c s} (legal : Legal c) (rest : Encoded s) : Encoded (utf8 c ++ s)

/-- The line ends of a document are single line feeds before it is read. -/
def lineEnds : List Char → List Char
  | [] => []
  | c :: s =>
      if c ≠ carriageReturn then c :: lineEnds s
      else if s.head? = some lineFeed then lineEnds s
      else lineFeed :: lineEnds s

end Characters

section Grammar

/-- Beyond ASCII every byte is taken for a letter. -/
def NameStart (c : Char) : Prop := c.isAlpha ∨ c = '_' ∨ c = ':' ∨ 128 ≤ c.toNat

def NameChar (c : Char) : Prop := NameStart c ∨ c.isDigit ∨ c = '-' ∨ c = '.'

structure Name (s : List Char) : Prop where
  first : ∃ c t, s = c :: t ∧ NameStart c
  chars : ∀ c ∈ s, NameChar c
  encoded : Encoded s

def digitValue (c : Char) : Nat :=
  if c.isDigit then c.toNat - 48
  else if 97 ≤ c.toNat ∧ c.toNat ≤ 102 then c.toNat - 87
  else if 65 ≤ c.toNat ∧ c.toNat ≤ 70 then c.toNat - 55
  else 16

def numeral (base : Nat) (s : List Char) : Nat := s.foldl (fun n c => base * n + digitValue c) 0

/-- The digits of a number. -/
structure Digits (base : Nat) (s : List Char) : Prop where
  some : s ≠ []
  small : ∀ c ∈ s, digitValue c < base

/-- A reference and the bytes that it stands for. -/
inductive Reference : List Char → List Char → Prop
  | amp : Reference "&amp;".toList ['&']
  | lt : Reference "&lt;".toList ['<']
  | gt : Reference "&gt;".toList ['>']
  | apos : Reference "&apos;".toList [singleQuote]
  | quot : Reference "&quot;".toList [doubleQuote]
  | decimal {s c} (digits : Digits 10 s) (value : numeral 10 s = c.toNat) (legal : Legal c) :
      Reference ('&' :: '#' :: (s ++ [';'])) (utf8 c)
  | hexadecimal {s c} (digits : Digits 16 s) (value : numeral 16 s = c.toNat) (legal : Legal c) :
      Reference ('&' :: '#' :: 'x' :: (s ++ [';'])) (utf8 c)

/-- What stands between two quotes `q`, and the value. -/
inductive AttValue (q : Char) : List Char → List Char → Prop
  | nil : AttValue q [] []
  | char {c s v} (legal : Legal c) (plain : c ∉ ['<', '&', q, tab, lineFeed, carriageReturn])
      (rest : AttValue q s v) : AttValue q (utf8 c ++ s) (utf8 c ++ v)
  | blank {c s v} (blank : c ∈ [tab, lineFeed, carriageReturn]) (rest : AttValue q s v) :
      AttValue q (c :: s) (' ' :: v)
  | reference {r d s v} (reference : Reference r d) (rest : AttValue q s v) :
      AttValue q (r ++ s) (d ++ v)

/-- The attributes of a tag, each behind a blank. -/
inductive Attributes : List Char → List (List Char × List Char) → Prop
  | nil : Attributes [] []
  | cons {b n e e' q v value s as} (apart : b ≠ []) (blank : ∀ c ∈ b, c ∈ blanks) (name : Name n)
      (before : ∀ c ∈ e, c ∈ blanks) (behind : ∀ c ∈ e', c ∈ blanks)
      (quote : q ∈ [doubleQuote, singleQuote]) (inside : AttValue q v value) (rest : Attributes s as) :
      Attributes (b ++ (n ++ (e ++ '=' :: (e' ++ q :: (v ++ q :: s))))) ((n, value) :: as)

variable {ν : Type} (tag : List Char → List (List Char × List Char) → List ν → ν)
  (data : List Char → ν)

/-- The content of an element. -/
inductive Content : List Char → List ν → Prop
  | nil : Content [] []
  | char {c s kids} (legal : Legal c) (plain : c ∉ ['<', '&'])
      (closed : ¬"]]>".toList <+: utf8 c ++ s) (rest : Content s kids) :
      Content (utf8 c ++ s) (data (utf8 c) :: kids)
  | reference {r d s kids} (reference : Reference r d) (rest : Content s kids) :
      Content (r ++ s) (data d :: kids)
  | literal {d s kids} (encoded : Encoded d) (closed : ¬"]]>".toList <:+: d) (rest : Content s kids) :
      Content ("<![CDATA[".toList ++ (d ++ ("]]>".toList ++ s))) (data d :: kids)
  | comment {d s kids} (encoded : Encoded d) (closed : ¬"--".toList <:+: d ++ ['-'])
      (rest : Content s kids) : Content ("<!--".toList ++ (d ++ ("-->".toList ++ s))) kids
  | instruction {n d s kids} (name : Name n) (reserved : n.map Char.toLower ≠ "xml".toList)
      (apart : ∀ c ∈ d.head?, c ∈ blanks) (encoded : Encoded d) (closed : ¬"?>".toList <:+: d)
      (rest : Content s kids) : Content ("<?".toList ++ (n ++ (d ++ ("?>".toList ++ s)))) kids
  | empty {n a as b s kids} (name : Name n) (attributes : Attributes a as)
      (unique : (as.map Prod.fst).Nodup) (blank : ∀ c ∈ b, c ∈ blanks) (rest : Content s kids) :
      Content ('<' :: (n ++ (a ++ (b ++ '/' :: '>' :: s)))) (tag n as [] :: kids)
  | element {n a as b inner ks e s kids} (name : Name n) (attributes : Attributes a as)
      (unique : (as.map Prod.fst).Nodup) (blank : ∀ c ∈ b, c ∈ blanks) (inside : Content inner ks)
      (blank' : ∀ c ∈ e, c ∈ blanks) (rest : Content s kids) :
      Content ('<' :: (n ++ (a ++ (b ++ '>' :: (inner ++ '<' :: '/' :: (n ++ (e ++ '>' :: s)))))))
        (tag n as ks :: kids)

/-- What is read behind the attributes of a tag: its children, and what follows it. -/
inductive Behind (n : List Char) : List Char → List ν → List ν → Prop
  | empty {s more} (rest : Content tag data s more) : Behind n ('/' :: '>' :: s) [] more
  | element {inner ks e s more} (inside : Content tag data inner ks) (blank : ∀ c ∈ e, c ∈ blanks)
      (rest : Content tag data s more) : Behind n ('>' :: (inner ++ '<' :: '/' :: (n ++ (e ++ '>' :: s)))) ks more

/-- Attributes written in the plain way. -/
def attributesText (as : List (List Char × List Char)) : List Char :=
  as.flatMap fun a => ' ' :: (a.1 ++ '=' :: doubleQuote :: (a.2 ++ [doubleQuote]))

/-- An element written in the plain way, in front of `s`. -/
def elementText (n : List Char) (as : List (List Char × List Char)) (inner s : List Char) : List Char :=
  '<' :: (n ++ (attributesText as ++ '>' :: (inner ++ '<' :: '/' :: (n ++ '>' :: s))))

/-- The text is one node. -/
def Reads (s : List Char) (x : ν) : Prop := Content tag data (lineEnds s) [x]

end Grammar

/-- Character data that stands for itself. -/
structure StandsInText (s : List Char) : Prop where
  encoded : Encoded s
  plain : ∀ c ∈ s, c ∉ ['<', '&', carriageReturn]
  closed : ¬"]]>".toList <:+: s

/-- A value between double quotes that stands for itself. -/
structure StandsInValue (s : List Char) : Prop where
  encoded : Encoded s
  plain : ∀ c ∈ s, c ∉ ['<', '&', doubleQuote, tab, lineFeed, carriageReturn]

section Characters

variable {b c : Char} {s t : List Char}

theorem utf8_of_ascii (ascii : c.toNat < 128) : utf8 c = [c] := if_pos ascii

theorem toNat_ofNat_of_lt {n : Nat} (small : n < 0xD800) : (Char.ofNat n).toNat = n := by
  rw [Char.ofNat, dif_pos (.inl small)]
  rfl

theorem toNat_lt (c : Char) : c.toNat < 0x110000 := by
  rcases c.valid with low | high
  · exact Nat.lt_trans low (by decide)
  · exact high.2

/-- The bytes of other characters are not ASCII. -/
theorem high_of_mem_utf8 (high : 128 ≤ c.toNat) (here : b ∈ utf8 c) : 128 ≤ b.toNat := by
  have bound := toNat_lt c
  unfold utf8 at here
  rw [if_neg (by omega)] at here
  split at here
  · simp only [List.mem_cons, List.not_mem_nil, or_false] at here
    rcases here with rfl | rfl <;> rw [toNat_ofNat_of_lt (by omega)] <;> omega
  split at here
  · simp only [List.mem_cons, List.not_mem_nil, or_false] at here
    rcases here with rfl | rfl | rfl <;> rw [toNat_ofNat_of_lt (by omega)] <;> omega
  · simp only [List.mem_cons, List.not_mem_nil, or_false] at here
    rcases here with rfl | rfl | rfl | rfl <;> rw [toNat_ofNat_of_lt (by omega)] <;> omega

theorem eq_of_mem_utf8 (ascii : b.toNat < 128) (here : b ∈ utf8 c) : b = c := by
  by_cases low : c.toNat < 128
  · rw [utf8_of_ascii low] at here
    exact List.mem_singleton.mp here
  · exact absurd (high_of_mem_utf8 (by omega) here) (by omega)

theorem mem_utf8_self (ascii : c.toNat < 128) : c ∈ utf8 c := by
  rw [utf8_of_ascii ascii]
  exact List.mem_singleton_self c

theorem utf8_cons (c : Char) : ∃ b s, utf8 c = b :: s ∧ (b = c ∨ 128 ≤ b.toNat) := by
  by_cases low : c.toNat < 128
  · exact ⟨c, [], utf8_of_ascii low, .inl rfl⟩
  · cases bytes : utf8 c with
    | nil =>
      unfold utf8 at bytes
      rw [if_neg low] at bytes
      split at bytes
      · cases bytes
      split at bytes
      · cases bytes
      · cases bytes
    | cons b s =>
      refine ⟨b, s, rfl, .inr (high_of_mem_utf8 (c := c) (by omega) ?_)⟩
      rw [bytes]
      exact List.mem_cons_self

theorem length_utf8 (c : Char) : (utf8 c).length ≤ 4 := by
  unfold utf8
  split
  · simp
  split
  · simp
  split
  · simp
  · simp

theorem encoded_of_ascii (ascii : ∀ c ∈ s, 32 ≤ c.toNat ∧ c.toNat < 128) : Encoded s := by
  induction s with
  | nil => exact .nil
  | cons c s ih =>
    obtain ⟨low, high⟩ := ascii c List.mem_cons_self
    have rest := ih fun d later => ascii d (List.mem_cons_of_mem _ later)
    have legal : Legal c := .inr ⟨low, by omega, by omega⟩
    have whole := Encoded.cons legal rest
    rwa [utf8_of_ascii high] at whole

end Characters

section Lines

variable {s t : List Char}

theorem length_lineEnds (s : List Char) : (lineEnds s).length ≤ s.length := by
  induction s with
  | nil => exact Nat.le_refl _
  | cons c s ih =>
    unfold lineEnds
    split
    · exact Nat.succ_le_succ ih
    split
    · exact Nat.le_succ_of_le ih
    · exact Nat.succ_le_succ ih

theorem lineEnds_of_not_mem (none : carriageReturn ∉ s) : lineEnds s = s := by
  induction s with
  | nil => rfl
  | cons c s ih =>
    have other : c ≠ carriageReturn := fun same => none (same ▸ List.mem_cons_self)
    rw [lineEnds, if_pos other, ih fun later => none (List.mem_cons_of_mem _ later)]

theorem not_mem_lineEnds (s : List Char) : carriageReturn ∉ lineEnds s := by
  induction s with
  | nil => exact List.not_mem_nil
  | cons c s ih =>
    unfold lineEnds
    split
    · rename_i other
      rw [List.mem_cons, not_or]
      exact ⟨other.symm, ih⟩
    split
    · exact ih
    · rw [List.mem_cons, not_or]
      exact ⟨by decide, ih⟩

theorem lineEnds_append (apart : ∀ c ∈ t.head?, c ≠ lineFeed) :
    lineEnds (s ++ t) = lineEnds s ++ lineEnds t := by
  induction s with
  | nil => rfl
  | cons c s ih =>
    rw [List.cons_append, lineEnds, lineEnds, ih]
    split
    · rfl
    -- a carriage return at the end of `s` is not followed by a line feed
    have next : (s ++ t).head? = some lineFeed ↔ s.head? = some lineFeed := by
      cases s with
      | nil => exact ⟨fun feed => absurd rfl (apart _ feed), nofun⟩
      | cons d s => exact Iff.rfl
    simp only [next]
    split
    · rfl
    · rfl

theorem lineEnds_constant (none : carriageReturn ∉ s) : lineEnds (s ++ t) = s ++ lineEnds t := by
  induction s with
  | nil => rfl
  | cons c s ih =>
    have other : c ≠ carriageReturn := fun same => none (same ▸ List.mem_cons_self)
    rw [List.cons_append, lineEnds, if_pos other, ih fun later => none (List.mem_cons_of_mem _ later)]
    rfl

end Lines

section Values

variable {r d s v value : List Char} {q : Char}

/-- A reference is longer than what it stands for. -/
theorem Reference.shorter (reference : Reference r d) : d.length < r.length := by
  cases reference with
  | amp => decide
  | lt => decide
  | gt => decide
  | apos => decide
  | quot => decide
  | @decimal s c digits value legal =>
    have bytes := length_utf8 c
    obtain ⟨nonempty, small⟩ := digits
    match s with
    | [] => exact absurd rfl nonempty
    | [digit] =>
      have below := small digit List.mem_cons_self
      rw [numeral, List.foldl_cons, List.foldl_nil] at value
      rw [utf8_of_ascii (by omega)]
      simp
    | _ :: _ :: s =>
      simp only [List.length_cons, List.length_append, List.length_nil]
      omega
  | @hexadecimal s c digits value legal =>
    have bytes := length_utf8 c
    have some := List.length_pos_iff.mpr digits.some
    simp only [List.length_cons, List.length_append, List.length_nil]
    omega

theorem Reference.begins (reference : Reference r d) : ∃ s, r = '&' :: s := by
  cases reference with
  | amp => exact ⟨_, rfl⟩
  | lt => exact ⟨_, rfl⟩
  | gt => exact ⟨_, rfl⟩
  | apos => exact ⟨_, rfl⟩
  | quot => exact ⟨_, rfl⟩
  | decimal => exact ⟨_, rfl⟩
  | hexadecimal => exact ⟨_, rfl⟩

theorem quote_not_mem_digits {base : Nat} (bound : base ≤ 16) (digits : Digits base s) :
    doubleQuote ∉ s := by
  intro here
  have small := digits.small _ here
  have value : digitValue doubleQuote = 16 := by decide
  omega

theorem Reference.quote_not_mem (reference : Reference r d) : doubleQuote ∉ r := by
  cases reference with
  | amp => decide
  | lt => decide
  | gt => decide
  | apos => decide
  | quot => decide
  | decimal digits =>
    have inside := quote_not_mem_digits (by decide) digits
    simp only [List.mem_cons, List.mem_append, List.not_mem_nil, or_false, not_or]
    exact ⟨by decide, by decide, inside, by decide⟩
  | hexadecimal digits =>
    have inside := quote_not_mem_digits (Nat.le_refl _) digits
    simp only [List.mem_cons, List.mem_append, List.not_mem_nil, or_false, not_or]
    exact ⟨by decide, by decide, by decide, inside, by decide⟩

/-- A value ends at the first quote. -/
theorem AttValue.quote_not_mem (read : AttValue doubleQuote v value) : doubleQuote ∉ v := by
  induction read with
  | nil => exact List.not_mem_nil
  | char legal plain rest ih =>
    rw [List.mem_append, not_or]
    refine ⟨fun here => plain ?_, ih⟩
    rw [← eq_of_mem_utf8 (by decide) here]
    simp
  | blank blank rest ih =>
    rw [List.mem_cons, not_or]
    refine ⟨fun same => ?_, ih⟩
    rw [← same] at blank
    exact absurd blank (by decide)
  | reference reference rest ih =>
    rw [List.mem_append, not_or]
    exact ⟨reference.quote_not_mem, ih⟩

theorem AttValue.length_le (read : AttValue q v value) : value.length ≤ v.length := by
  induction read with
  | nil => exact Nat.le_refl _
  | char legal plain rest ih =>
    rw [List.length_append, List.length_append]
    exact Nat.add_le_add_left ih _
  | blank blank rest ih => exact Nat.succ_le_succ ih
  | reference reference rest ih =>
    have shorter := reference.shorter
    rw [List.length_append, List.length_append]
    omega

/-- In a value as long as its text nothing was referred to. -/
theorem AttValue.tight (read : AttValue doubleQuote v value) (long : v.length ≤ value.length) :
    Encoded v ∧ (∀ c ∈ v, c ∉ ['<', '&', doubleQuote]) ∧
      ∀ c ∈ value, c ∉ [tab, lineFeed, carriageReturn] := by
  induction read with
  | nil => exact ⟨.nil, by simp, by simp⟩
  | @char c s v legal plain rest ih =>
    rw [List.length_append, List.length_append] at long
    obtain ⟨encoded, marks, others⟩ := ih (by omega)
    refine ⟨.cons legal encoded, fun b here => ?_, fun b here => ?_⟩
    · rcases List.mem_append.mp here with first | later
      · intro mark
        have ascii : ∀ b ∈ ['<', '&', doubleQuote], b.toNat < 128 := by decide
        rw [eq_of_mem_utf8 (ascii b mark) first] at mark
        exact plain (List.mem_append_left [tab, lineFeed, carriageReturn] mark)
      · exact marks b later
    · rcases List.mem_append.mp here with first | later
      · intro mark
        have ascii : ∀ b ∈ [tab, lineFeed, carriageReturn], b.toNat < 128 := by decide
        rw [eq_of_mem_utf8 (ascii b mark) first] at mark
        exact plain (List.mem_append_right ['<', '&', doubleQuote] mark)
      · exact others b later
  | @blank c s v blank rest ih =>
    obtain ⟨encoded, marks, others⟩ := ih (Nat.le_of_succ_le_succ long)
    have all : ∀ c ∈ [tab, lineFeed, carriageReturn], c ∉ ['<', '&', doubleQuote] ∧ c.toNat < 128 := by
      decide
    obtain ⟨plain, ascii⟩ := all c blank
    have whole := Encoded.cons (.inl blank) encoded
    rw [utf8_of_ascii ascii] at whole
    refine ⟨whole, fun b here => ?_, fun b here => ?_⟩
    · rcases List.mem_cons.mp here with rfl | later
      · exact plain
      · exact marks b later
    · rcases List.mem_cons.mp here with rfl | later
      · decide
      · exact others b later
  | reference reference rest ih =>
    have shorter := reference.shorter
    have less := rest.length_le
    rw [List.length_append, List.length_append] at long
    omega

theorem StandsInValue.attValue (stands : StandsInValue v) : AttValue doubleQuote v v := by
  obtain ⟨encoded, plain⟩ := stands
  induction encoded with
  | nil => exact .nil
  | @cons c s legal rest ih =>
    refine .char legal (fun mark => ?_) (ih fun b later => plain b (List.mem_append_right _ later))
    have ascii : ∀ b ∈ ['<', '&', doubleQuote, tab, lineFeed, carriageReturn], b.toNat < 128 := by decide
    exact plain c (List.mem_append_left _ (mem_utf8_self (ascii c mark))) mark

/-- A value that is read from its own text stands for itself. -/
theorem AttValue.stands (read : AttValue doubleQuote (lineEnds v) v) : StandsInValue v := by
  obtain ⟨encoded, marks, others⟩ := read.tight (length_lineEnds v)
  have same : lineEnds v = v := lineEnds_of_not_mem fun here => others _ here (by decide)
  rw [same] at encoded marks
  refine ⟨encoded, fun c here mark => ?_⟩
  have both : c ∈ ['<', '&', doubleQuote] ++ [tab, lineFeed, carriageReturn] := mark
  rcases List.mem_append.mp both with mark | mark
  · exact marks c here mark
  · exact others c here mark

end Values

section Cuts

/-- A text is cut in one way at the first character that is not in its first part. -/
theorem cut_unique {p : Char → Prop} {s s' r r' : List Char} (inside : ∀ c ∈ s, p c)
    (inside' : ∀ c ∈ s', p c) (ends : ∀ c ∈ r.head?, ¬p c) (ends' : ∀ c ∈ r'.head?, ¬p c)
    (same : s ++ r = s' ++ r') : s = s' ∧ r = r' := by
  induction s generalizing s' with
  | nil =>
    cases s' with
    | nil => exact ⟨rfl, same⟩
    | cons c s' =>
      subst same
      exact absurd (inside' c List.mem_cons_self) (ends c (by simp))
  | cons c s ih =>
    cases s' with
    | nil =>
      change c :: (s ++ r) = r' at same
      subst same
      exact absurd (inside c List.mem_cons_self) (ends' c (by simp))
    | cons c' s' =>
      injection same with first rest
      subst first
      obtain ⟨front, back⟩ := ih (fun d here => inside d (List.mem_cons_of_mem _ here))
        (fun d here => inside' d (List.mem_cons_of_mem _ here)) rest
      exact ⟨by rw [front], back⟩

instance : DecidablePred NameStart := fun c =>
  inferInstanceAs (Decidable (c.isAlpha ∨ c = '_' ∨ c = ':' ∨ 128 ≤ c.toNat))

instance : DecidablePred NameChar := fun c =>
  inferInstanceAs (Decidable (NameStart c ∨ c.isDigit ∨ c = '-' ∨ c = '.'))

theorem not_nameChar_of_blank {c : Char} (blank : c ∈ blanks) : ¬NameChar c := by
  have all : ∀ c ∈ blanks, ¬NameChar c := by decide
  exact all c blank

/-- An ASCII name. -/
theorem Name.of_ascii {s : List Char} (first : s.head?.any (NameStart ·))
    (chars : ∀ c ∈ s, NameChar c ∧ 32 ≤ c.toNat ∧ c.toNat < 128) : Name s := by
  refine ⟨?_, fun c here => (chars c here).1, encoded_of_ascii fun c here => (chars c here).2⟩
  cases s with
  | nil => cases first
  | cons c t => exact ⟨c, t, rfl, by simpa using first⟩

end Cuts

section Tags

variable {a b n k s t y z r : List Char} {as : List (List Char × List Char)}

theorem Attributes.head_blank (read : Attributes a as) : ∀ c ∈ a.head?, c ∈ blanks := by
  cases read with
  | nil => exact nofun
  | @cons b _ _ _ _ _ _ _ _ apart blank _ _ _ _ _ _ =>
    cases b with
    | nil => exact absurd rfl apart
    | cons d b =>
      intro c first
      cases first
      exact blank d List.mem_cons_self

/-- What stands behind the name of a tag does not go on with the name. -/
theorem Attributes.head (read : Attributes a as) (blank : ∀ c ∈ b, c ∈ blanks)
    (ends : ∀ c ∈ y.head?, c = '>' ∨ c = '/') : ∀ c ∈ (a ++ (b ++ y)).head?, ¬NameChar c := by
  have all : ∀ c, c = '>' ∨ c = '/' → ¬NameChar c := by
    rintro c (rfl | rfl)
    · decide
    · decide
  intro c first
  cases a with
  | cons d a => exact not_nameChar_of_blank (read.head_blank c first)
  | nil =>
    cases b with
    | cons d b =>
      cases first
      exact not_nameChar_of_blank (blank c List.mem_cons_self)
    | nil => exact all c (ends c first)

theorem not_blank_of_ends (ends : ∀ c ∈ y.head?, c = '>' ∨ c = '/') : ∀ c ∈ y.head?, c ∉ blanks := by
  intro c first
  rcases ends c first with rfl | rfl
  · decide
  · decide

theorem Name.head (name : Name k) : ∀ c ∈ (k ++ z).head?, NameStart c := by
  obtain ⟨c, t, rfl, start⟩ := name.first
  intro d first
  cases first
  exact start

theorem Name.head_not_blank (name : Name k) : ∀ c ∈ (k ++ z).head?, c ∉ blanks := by
  intro c first blank
  exact not_nameChar_of_blank blank (.inl (name.head c first))

/-- The first attribute of a tag that is written in the plain way. -/
theorem Attributes.first (read : Attributes a as) (blank : ∀ c ∈ b, c ∈ blanks)
    (ends : ∀ c ∈ y.head?, c = '>' ∨ c = '/') (name : Name k)
    (same : a ++ (b ++ y) = ' ' :: (k ++ '=' :: doubleQuote :: z)) : ∃ v value rest as',
      as = (k, value) :: as' ∧ AttValue doubleQuote v value ∧ Attributes rest as' ∧
        z = v ++ doubleQuote :: (rest ++ (b ++ y)) := by
  have space : ∀ c ∈ [' '], c ∈ blanks := by decide
  cases read with
  | nil =>
    obtain ⟨_, rfl⟩ := cut_unique (p := (· ∈ blanks)) blank space (not_blank_of_ends ends)
      name.head_not_blank same
    obtain ⟨c, t, rfl, start⟩ := name.first
    rcases ends c rfl with rfl | rfl
    · exact absurd start (by decide)
    · exact absurd start (by decide)
  | @cons b₀ n e e' q v value rest as' apart blank₀ name' before behind quote inside others =>
    simp only [List.append_assoc, List.cons_append] at same
    obtain ⟨_, same⟩ := cut_unique (p := (· ∈ blanks)) blank₀ space
      name'.head_not_blank name.head_not_blank same
    have equals : ∀ x : List Char, ∀ c ∈ (e ++ '=' :: x).head?, ¬NameChar c := by
      intro x c first
      cases e with
      | nil =>
        cases first
        decide
      | cons d e =>
        cases first
        exact not_nameChar_of_blank (before c List.mem_cons_self)
    have sign : ∀ x : List Char, ∀ c ∈ ('=' :: x).head?, ¬NameChar c := by
      rintro x c ⟨⟩
      decide
    obtain ⟨named, tails⟩ := cut_unique (p := NameChar) name'.chars name.chars (equals _) (sign _) same
    subst named
    have equal : ∀ x : List Char, ∀ c ∈ ('=' :: x).head?, c ∉ blanks := by
      rintro x c ⟨⟩
      decide
    have nothing : ∀ c ∈ ([] : List Char), c ∈ blanks := nofun
    obtain ⟨_, same⟩ := cut_unique (p := (· ∈ blanks)) before nothing (equal _) (equal _) tails
    injection same with _ same
    have quoted : ∀ q ∈ [doubleQuote, singleQuote], ∀ x : List Char, ∀ c ∈ (q :: x).head?, c ∉ blanks := by
      have quotes : ∀ q ∈ [doubleQuote, singleQuote], q ∉ blanks := by decide
      rintro q quote x c ⟨⟩
      exact quotes q quote
    obtain ⟨_, same⟩ := cut_unique (p := (· ∈ blanks)) behind nothing (quoted q quote _)
      (quoted _ List.mem_cons_self _) same
    injection same with same_quote same
    subst same_quote
    exact ⟨v, value, rest, as', rfl, inside, others, same.symm⟩

/-- There is no further attribute before the end of the tag. -/
theorem Attributes.last (read : Attributes a as) (blank : ∀ c ∈ b, c ∈ blanks)
    (same : a ++ (b ++ y) = '>' :: t) : as = [] ∧ y = '>' :: t := by
  have first : ∀ c ∈ ('>' :: t).head?, c ∉ blanks := by
    intro c first
    cases first
    decide
  rw [← same] at first
  cases read with
  | nil =>
    cases b with
    | nil => exact ⟨rfl, same⟩
    | cons d b => exact absurd (blank d List.mem_cons_self) (first d rfl)
  | @cons b₀ _ _ _ _ _ _ _ _ apart blank₀ _ _ _ _ _ _ =>
    cases b₀ with
    | nil => exact absurd rfl apart
    | cons d b₀ => exact absurd (blank₀ d List.mem_cons_self) (first d rfl)

theorem attributesText_cons (k v : List Char) (as : List (List Char × List Char)) (s : List Char) :
    attributesText ((k, v) :: as) ++ s =
      ' ' :: (k ++ '=' :: doubleQuote :: (v ++ doubleQuote :: (attributesText as ++ s))) := by
  simp [attributesText]

/-- A tag whose attributes are written in the plain way ends behind them. -/
theorem Attributes.known {known : List (List Char × List Char)} (read : Attributes a as)
    (plain : ∀ kv ∈ known, Name kv.1 ∧ doubleQuote ∉ kv.2) (blank : ∀ c ∈ b, c ∈ blanks)
    (ends : ∀ c ∈ y.head?, c = '>' ∨ c = '/')
    (same : a ++ (b ++ y) = attributesText known ++ '>' :: t) : y = '>' :: t := by
  induction known generalizing a as with
  | nil => exact (read.last blank same).2
  | cons kv known ih =>
    obtain ⟨name, quoted⟩ := plain kv List.mem_cons_self
    rw [attributesText_cons] at same
    obtain ⟨v, value, rest, as', rfl, inside, others, text⟩ := read.first blank ends name same
    have quote : ∀ x : List Char, ∀ c ∈ (doubleQuote :: x).head?, ¬c ≠ doubleQuote := by
      rintro x c ⟨⟩
      simp
    obtain ⟨_, tails⟩ := cut_unique (p := (· ≠ doubleQuote)) (fun c here same => quoted (same ▸ here))
      (fun c here same => inside.quote_not_mem (same ▸ here)) (quote _) (quote _) text
    injection tails with _ tails
    exact ih others (fun kv later => plain kv (List.mem_cons_of_mem _ later)) tails.symm

theorem attributes_of_stands (plain : ∀ kv ∈ as, Name kv.1 ∧ StandsInValue kv.2) :
    Attributes (attributesText as) as := by
  induction as with
  | nil => exact .nil
  | cons kv as ih =>
    obtain ⟨name, stands⟩ := plain kv List.mem_cons_self
    have rest := ih fun kv later => plain kv (List.mem_cons_of_mem _ later)
    have nothing : ∀ c ∈ ([] : List Char), c ∈ blanks := nofun
    have first := Attributes.cons (b := [' ']) (q := doubleQuote) (List.cons_ne_nil _ _)
      (by decide) name nothing nothing List.mem_cons_self stands.attValue rest
    have text := attributesText_cons kv.1 kv.2 as []
    rw [List.append_nil, List.append_nil] at text
    rw [text]
    exact first

theorem Name.return_not_mem (name : Name n) : carriageReturn ∉ n := by
  intro here
  exact absurd (name.chars _ here) (by decide)

theorem lineEnds_attributesText (names : ∀ kv ∈ as, Name kv.1) :
    lineEnds (attributesText as ++ s) =
      attributesText (as.map fun kv => (kv.1, lineEnds kv.2)) ++ lineEnds s := by
  induction as with
  | nil => rfl
  | cons kv as ih =>
    have name := names kv List.mem_cons_self
    have sign : ∀ x : List Char, lineEnds (doubleQuote :: x) = doubleQuote :: lineEnds x := fun x =>
      lineEnds_constant (s := [doubleQuote]) (by decide)
    have equals : ∀ x : List Char, lineEnds ('=' :: x) = '=' :: lineEnds x := fun x =>
      lineEnds_constant (s := ['=']) (by decide)
    have space : ∀ x : List Char, lineEnds (' ' :: x) = ' ' :: lineEnds x := fun x =>
      lineEnds_constant (s := [' ']) (by decide)
    have quote : ∀ x : List Char, ∀ c ∈ (doubleQuote :: x).head?, c ≠ lineFeed := by
      rintro x c ⟨⟩
      decide
    rw [List.map_cons, attributesText_cons, attributesText_cons, space,
      lineEnds_constant name.return_not_mem, equals, sign, lineEnds_append (quote _), sign,
      ih fun kv later => names kv (List.mem_cons_of_mem _ later)]

theorem lineEnds_elementText {inner : List Char} (name : Name n) (names : ∀ kv ∈ as, Name kv.1) :
    lineEnds (elementText n as inner s) =
      elementText n (as.map fun kv => (kv.1, lineEnds kv.2)) (lineEnds inner) (lineEnds s) := by
  have plain : ∀ c ∈ ['<', '>', '/'], ∀ x : List Char, lineEnds (c :: x) = c :: lineEnds x := by
    intro c mark x
    have other : ∀ c ∈ ['<', '>', '/'], carriageReturn ∉ [c] := by decide
    exact lineEnds_constant (s := [c]) (other c mark)
  have mark : ∀ x : List Char, ∀ c ∈ ('<' :: x).head?, c ≠ lineFeed := by
    rintro x c ⟨⟩
    decide
  unfold elementText
  rw [plain '<' (by decide), lineEnds_constant name.return_not_mem, lineEnds_attributesText names,
    plain '>' (by decide), lineEnds_append (mark _), plain '<' (by decide), plain '/' (by decide),
    lineEnds_constant name.return_not_mem, plain '>' (by decide)]

end Tags

section Contents

variable {ν : Type} {tag : List Char → List (List Char × List Char) → List ν → ν} {data : List Char → ν}
variable {n r s t y inner : List Char} {kids ks more : List ν}

theorem Behind.ends (behind : Behind tag data n y ks more) : ∀ c ∈ y.head?, c = '>' ∨ c = '/' := by
  cases behind with
  | empty _ =>
    rintro c ⟨⟩
    exact .inr rfl
  | element _ _ _ =>
    rintro c ⟨⟩
    exact .inl rfl

/-- A start tag begins nothing else. -/
theorem Content.opened (name : Name n) (behind : ∀ c ∈ r.head?, ¬NameChar c)
    (read : Content tag data ('<' :: (n ++ r)) kids) : ∃ a as b y ks more, Attributes a as ∧
      (∀ c ∈ b, c ∈ blanks) ∧ r = a ++ (b ++ y) ∧ kids = tag n as ks :: more ∧
        Behind tag data n y ks more := by
  generalize whole : '<' :: (n ++ r) = text at read
  obtain ⟨d, t, spelled, start⟩ := name.first
  have marks : ∀ d ∈ ['!', '?'], ¬NameStart d := by decide
  cases read with
  | nil => cases whole
  | @char c s kids legal plain closed rest =>
    obtain ⟨b, u, bytes, one⟩ := utf8_cons c
    rw [bytes] at whole
    injection whole with first _
    rcases one with same | high
    · rw [← same, ← first] at plain
      exact absurd List.mem_cons_self plain
    · rw [← first] at high
      exact absurd high (by decide)
  | @reference r' d' s kids reference rest =>
    obtain ⟨u, begins⟩ := reference.begins
    rw [begins] at whole
    injection whole with first _
    exact absurd first (by decide)
  | literal encoded closed rest =>
    rw [spelled] at whole
    injection whole with _ whole
    injection whole with first _
    exact absurd start (marks d (by rw [first]; decide))
  | comment encoded closed rest =>
    rw [spelled] at whole
    injection whole with _ whole
    injection whole with first _
    exact absurd start (marks d (by rw [first]; decide))
  | instruction name' reserved apart encoded closed rest =>
    rw [spelled] at whole
    injection whole with _ whole
    injection whole with first _
    exact absurd start (marks d (by rw [first]; decide))
  | @empty n' a as b s kids name' attributes unique blank rest =>
    injection whole with _ whole
    have ends : Behind tag data n' ('/' :: '>' :: s) [] kids := .empty rest
    obtain ⟨same, tails⟩ := cut_unique (p := NameChar) name.chars name'.chars behind
      (attributes.head blank ends.ends) whole
    subst same
    exact ⟨a, as, b, _, [], kids, attributes, blank, tails, rfl, ends⟩
  | @element n' a as b inner ks e s kids name' attributes unique blank inside blank' rest =>
    injection whole with _ whole
    have ends : Behind tag data n' ('>' :: (inner ++ '<' :: '/' :: (n' ++ (e ++ '>' :: s)))) ks kids :=
      .element inside blank' rest
    obtain ⟨same, tails⟩ := cut_unique (p := NameChar) name.chars name'.chars behind
      (attributes.head blank ends.ends) whole
    subst same
    exact ⟨a, as, b, _, ks, kids, attributes, blank, tails, rfl, ends⟩

/-- The case of attributes that are written in the plain way. -/
theorem Content.opened_known {known : List (List Char × List Char)} (name : Name n)
    (plain : ∀ kv ∈ known, Name kv.1 ∧ doubleQuote ∉ kv.2)
    (read : Content tag data ('<' :: (n ++ (attributesText known ++ '>' :: t))) kids) :
    ∃ as inner ks e s more, t = inner ++ '<' :: '/' :: (n ++ (e ++ '>' :: s)) ∧
      kids = tag n as ks :: more ∧ Content tag data inner ks ∧ (∀ c ∈ e, c ∈ blanks) ∧
        Content tag data s more := by
  have head : ∀ c ∈ (attributesText known ++ '>' :: t).head?, ¬NameChar c := by
    cases known with
    | nil =>
      rintro c ⟨⟩
      decide
    | cons kv known =>
      rw [attributesText_cons]
      rintro c ⟨⟩
      decide
  obtain ⟨a, as, b, y, ks, more, attributes, blank, tails, rfl, behind⟩ := read.opened name head
  have ended := attributes.known plain blank behind.ends tails.symm
  cases behind with
  | empty _ => cases ended
  | @element inner _ e s _ inside blank' rest =>
    injection ended with _ ended
    exact ⟨as, inner, ks, e, s, more, ended.symm, rfl, inside, blank', rest⟩

theorem Content.element_plain {as : List (List Char × List Char)} (name : Name n)
    (plain : ∀ kv ∈ as, Name kv.1 ∧ StandsInValue kv.2) (unique : (as.map Prod.fst).Nodup)
    (inside : Content tag data inner ks) (rest : Content tag data s more) :
    Content tag data (elementText n as inner s) (tag n as ks :: more) :=
  .element (b := []) (e := []) name (attributes_of_stands plain) unique nofun inside nofun rest

/-- The text behind a node that is not followed by another one. -/
theorem Content.silent (read : Content tag data s kids) (none : kids = []) :
    s = [] ∨ ∃ t, ∃ c ∈ ['-', '?'], s = t ++ [c, '>'] := by
  induction read with
  | nil => exact .inl rfl
  | char legal plain closed rest ih => cases none
  | reference reference rest ih => cases none
  | literal encoded closed rest ih => cases none
  | @comment d s kids encoded closed rest ih =>
    rcases ih none with rfl | ⟨t, c, mark, rfl⟩
    · refine .inr ⟨"<!--".toList ++ (d ++ ['-']), '-', by decide, ?_⟩
      simp
    · refine .inr ⟨"<!--".toList ++ (d ++ ("-->".toList ++ t)), c, mark, ?_⟩
      simp
  | @instruction n d s kids name reserved apart encoded closed rest ih =>
    rcases ih none with rfl | ⟨t, c, mark, rfl⟩
    · refine .inr ⟨"<?".toList ++ (n ++ d), '?', by decide, ?_⟩
      simp
    · refine .inr ⟨"<?".toList ++ (n ++ (d ++ ("?>".toList ++ t))), c, mark, ?_⟩
      simp
  | empty name attributes unique blank rest ih => cases none
  | element name attributes unique blank inside blank' rest ih ih' => cases none

/-- The last tag of a text is closed by its last end tag. -/
theorem Content.closed {e front : List Char} {l : Char} (last : NameChar l ∧ l ≠ '-') (name : n = t ++ [l])
    (blank : ∀ c ∈ e, c ∈ blanks) (rest : Content tag data s [])
    (same : front ++ '<' :: '/' :: (n ++ ['>']) = inner ++ '<' :: '/' :: (n ++ (e ++ '>' :: s))) :
    inner = front := by
  have whole : (front ++ '<' :: '/' :: t) ++ [l, '>'] = inner ++ '<' :: '/' :: (n ++ (e ++ '>' :: s)) := by
    rw [← same, name]
    simp
  rcases rest.silent rfl with rfl | ⟨t', c, mark, rfl⟩
  · rcases List.eq_nil_or_concat e with rfl | ⟨e', d, rfl⟩
    · rw [List.nil_append] at same
      exact (List.append_cancel_right same).symm
    · have ends : inner ++ '<' :: '/' :: (n ++ ((e' ++ [d]) ++ ['>'])) =
          (inner ++ '<' :: '/' :: (n ++ e')) ++ [d, '>'] := by simp
      rw [List.concat_eq_append, ends] at whole
      have tails := (List.append_inj' whole rfl).2
      injection tails with first _
      rw [first] at last
      exact absurd last.1 (not_nameChar_of_blank (blank d (by simp)))
  · have ends : inner ++ '<' :: '/' :: (n ++ (e ++ '>' :: (t' ++ [c, '>']))) =
        (inner ++ '<' :: '/' :: (n ++ (e ++ '>' :: t'))) ++ [c, '>'] := by simp
    rw [ends] at whole
    have tails := (List.append_inj' whole rfl).2
    injection tails with first _
    subst first
    have others : ∀ c ∈ ['-', '?'], ¬(NameChar c ∧ c ≠ '-') := by decide
    exact absurd last (others l mark)

/-- Bytes that are not ASCII are not part of a closing mark. -/
theorem infix_of_high {m u s : List Char} (mark : ∃ c l, m = c :: l ∧ c.toNat < 128)
    (high : ∀ b ∈ u, 128 ≤ b.toNat) (inside : m <:+: u ++ s) : m <:+: s := by
  obtain ⟨c, l, rfl, ascii⟩ := mark
  induction u with
  | nil => exact inside
  | cons b u ih =>
    rw [List.cons_append, List.infix_cons_iff] at inside
    rcases inside with front | inside
    · rw [List.cons_prefix_cons] at front
      have large := high b List.mem_cons_self
      rw [← front.1] at large
      omega
    · exact ih (fun b later => high b (List.mem_cons_of_mem _ later)) inside

theorem infix_utf8 {m s : List Char} {c : Char} (mark : ∃ c l, m = c :: l ∧ c.toNat < 128)
    (front : ¬m <+: utf8 c ++ s) (later : ¬m <:+: s) : ¬m <:+: utf8 c ++ s := by
  intro inside
  by_cases low : c.toNat < 128
  · rw [utf8_of_ascii low] at inside front
    rcases List.infix_cons_iff.mp inside with first | inside
    · exact front first
    · exact later inside
  · exact later (infix_of_high mark (fun b here => high_of_mem_utf8 (by omega) here) inside)

/-- Character data that stands for itself is read piece by piece. -/
theorem StandsInText.content (stands : StandsInText s) :
    ∃ pieces : List (List Char), pieces.flatten = s ∧ Content tag data s (pieces.map data) := by
  obtain ⟨encoded, plain, closed⟩ := stands
  induction encoded with
  | nil => exact ⟨[], rfl, .nil⟩
  | @cons c s legal rest ih =>
    obtain ⟨pieces, rfl, read⟩ := ih (fun b later => plain b (List.mem_append_right _ later))
      fun later => closed (later.trans (List.suffix_append _ _).isInfix)
    refine ⟨utf8 c :: pieces, rfl, .char legal (fun mark => ?_) (fun front => closed front.isInfix) read⟩
    have ascii : ∀ b ∈ ['<', '&'], b.toNat < 128 := by decide
    have here := List.mem_append_left pieces.flatten (mem_utf8_self (ascii c mark))
    exact plain c here (List.mem_append_left [carriageReturn] mark)

/-- What a list of nodes says before its first element. -/
structure Leading (tag : List Char → List (List Char × List Char) → List ν → ν) (data : List Char → ν)
    (text : List ν → List Char) : Prop where
  nil : text [] = []
  data : ∀ d kids, text (data d :: kids) = d ++ text kids
  tag : ∀ n as ks kids, text (tag n as ks :: kids) = []

variable {text : List ν → List Char}

theorem Leading.length_le (leading : Leading tag data text) (read : Content tag data s kids) :
    (text kids).length ≤ s.length := by
  induction read with
  | nil =>
    rw [leading.nil]
  | char legal plain closed rest ih =>
    rw [leading.data, List.length_append, List.length_append]
    exact Nat.add_le_add_left ih _
  | reference reference rest ih =>
    have shorter := reference.shorter
    rw [leading.data, List.length_append, List.length_append]
    omega
  | literal encoded closed rest ih =>
    rw [leading.data]
    simp only [List.length_append]
    omega
  | comment encoded closed rest ih =>
    simp only [List.length_append]
    omega
  | instruction name reserved apart encoded closed rest ih =>
    simp only [List.length_append]
    omega
  | empty name attributes unique blank rest ih =>
    rw [leading.tag]
    exact Nat.zero_le _
  | element name attributes unique blank inside blank' rest ih ih' =>
    rw [leading.tag]
    exact Nat.zero_le _

/-- Where the data is as long as the text it is the text. -/
theorem Leading.tight (leading : Leading tag data text) (read : Content tag data s kids)
    (long : s.length ≤ (text kids).length) : text kids = s ∧ Encoded s ∧
      (∀ c ∈ s, c ∉ ['<', '&']) ∧ ¬"]]>".toList <:+: s := by
  induction read with
  | nil => exact ⟨leading.nil, .nil, by simp, by decide⟩
  | @char c s kids legal plain closed rest ih =>
    rw [leading.data, List.length_append, List.length_append] at long
    obtain ⟨same, encoded, marks, open_⟩ := ih (by omega)
    refine ⟨by rw [leading.data, same], .cons legal encoded, fun b here => ?_,
      infix_utf8 ⟨_, _, rfl, by decide⟩ closed open_⟩
    rcases List.mem_append.mp here with first | later
    · intro mark
      have ascii : ∀ b ∈ ['<', '&'], b.toNat < 128 := by decide
      rw [eq_of_mem_utf8 (ascii b mark) first] at mark
      exact plain mark
    · exact marks b later
  | reference reference rest ih =>
    have shorter := reference.shorter
    have less := leading.length_le rest
    rw [leading.data, List.length_append, List.length_append] at long
    omega
  | literal encoded closed rest ih =>
    have less := leading.length_le rest
    have mark : "<![CDATA[".toList.length = 9 := rfl
    rw [leading.data] at long
    simp only [List.length_append] at long
    omega
  | comment encoded closed rest ih =>
    have less := leading.length_le rest
    have mark : "<!--".toList.length = 4 := rfl
    simp only [List.length_append] at long
    omega
  | instruction name reserved apart encoded closed rest ih =>
    have less := leading.length_le rest
    have mark : "<?".toList.length = 2 := rfl
    simp only [List.length_append] at long
    omega
  | empty name attributes unique blank rest ih =>
    rw [leading.tag, List.length_cons] at long
    exact absurd long (Nat.not_succ_le_zero _)
  | element name attributes unique blank inside blank' rest ih ih' =>
    rw [leading.tag, List.length_cons] at long
    exact absurd long (Nat.not_succ_le_zero _)

/-- Character data that is read from its own text stands for itself. -/
theorem Leading.stands (leading : Leading tag data text) (read : Content tag data (lineEnds s) kids)
    (same : text kids = s) : StandsInText s := by
  have long := length_lineEnds s
  rw [← same] at long
  obtain ⟨lines, encoded, marks, closed⟩ := leading.tight (s := lineEnds s) read (by rwa [same] at long ⊢)
  rw [same] at lines
  have none : carriageReturn ∉ s := by
    rw [lines]
    exact not_mem_lineEnds s
  rw [← lines] at encoded marks closed
  refine ⟨encoded, fun c here mark => ?_, closed⟩
  have both : c ∈ ['<', '&'] ++ [carriageReturn] := mark
  rcases List.mem_append.mp both with mark | mark
  · exact marks c here mark
  · rw [List.mem_singleton.mp mark] at here
    exact none here

end Contents

end XmlReading
