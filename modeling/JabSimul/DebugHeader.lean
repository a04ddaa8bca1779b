import JabSimul.Misdelivery
import JabSimul.Lib.DelimitedFields

/-!
The debug information in front of a message: `makeBytes_defined_in_xml` writes it with
a format, and `handle_message` finds it again with a regular expression.
-/
namespace JabSimul

open Simulation DelimitedFields

/-- `\[([0-9]+) ([^ ]+) ([^]]+)\].*` matches the whole of `s` with these groups. -/
structure Matches (s tm one two : CString) : Prop where
  text : ∃ rest, s = '[' :: (tm ++ ' ' :: (one ++ ' ' :: (two ++ ']' :: rest)))
  digits : tm ≠ [] ∧ ∀ c ∈ tm, c.isDigit = true
  sender : one ≠ [] ∧ ' ' ∉ one
  receiver : two ≠ [] ∧ ']' ∉ two

/-- What `regexec` reports: no match begins before `n`, and one begins there. -/
structure Leftmost (body : CString) (n : Nat) (tm one two : CString) : Prop where
  here : Matches (body.drop n) tm one two
  first : ∀ m < n, ∀ tm one two, ¬Matches (body.drop m) tm one two

section Expression

def timeField : DelimitedFields.Field Char := ⟨Char.isDigit, ' ', by decide⟩

def senderField : DelimitedFields.Field Char := ⟨(· ≠ ' '), ' ', by decide⟩

def receiverField : DelimitedFields.Field Char := ⟨(· ≠ ']'), ']', by decide⟩

def debFields : List (DelimitedFields.Field Char) := [timeField, senderField, receiverField]

variable {s body tm one two : CString} {n : Nat}

theorem matches_iff : Matches s tm one two ↔ ∃ rest, s = '[' :: write debFields [tm, one, two] rest ∧
    List.Forall₂ Field.Holds debFields [tm, one, two] := by
  have plain : ∀ (c : Char) (v : CString), (∀ d ∈ v, decide (d ≠ c) = true) ↔ c ∉ v := by
    intro c v
    constructor
    · intro all mem
      simpa using all c mem
    · rintro out d mem
      exact decide_eq_true fun same => out (same ▸ mem)
  constructor
  · rintro ⟨⟨rest, text⟩, digits, sender, receiver⟩
    refine ⟨rest, text, .cons ⟨digits.1, digits.2⟩ (.cons ⟨sender.1, ?_⟩ (.cons ⟨receiver.1, ?_⟩ .nil))⟩
    · exact (plain ' ' one).mpr sender.2
    · exact (plain ']' two).mpr receiver.2
  · rintro ⟨rest, text, holds⟩
    cases holds with
    | cons digits holds =>
      cases holds with
      | cons sender holds =>
        cases holds with
        | cons receiver _ =>
          exact ⟨⟨rest, text⟩, ⟨digits.some, digits.all⟩, ⟨sender.some, (plain ' ' one).mp sender.all⟩,
            ⟨receiver.some, (plain ']' two).mp receiver.all⟩⟩

/-- A text can be taken apart in one way only. -/
theorem Matches.unique {tm' one' two' : CString} (here : Matches s tm one two)
    (there : Matches s tm' one' two') : tm = tm' ∧ one = one' ∧ two = two' := by
  obtain ⟨rest, text, holds⟩ := matches_iff.mp here
  obtain ⟨rest', text', holds'⟩ := matches_iff.mp there
  have same := write_injective holds holds' (List.cons.inj (text.symm.trans text')).2
  simpa using same.1

theorem msgDebMatchAt_sound (found : msgDebMatchAt s = some (tm, one, two)) : Matches s tm one two := by
  have split : ∀ (p : Char → Bool) (s : CString), s = s.takeWhile p ++ s.dropWhile p :=
    fun p s => List.takeWhile_append_dropWhile.symm
  have out : ∀ (c : Char) (s : CString), c ∉ s.takeWhile (· ≠ c) := by
    intro c s mem
    simpa using List.all_eq_true.mp List.all_takeWhile c mem
  unfold msgDebMatchAt at found
  split at found
  · rename_i s
    dsimp only at found
    split at found
    · rename_i s₁ time
      split at found
      · rename_i s₂ sender
        split at found
        · rename_i s₃ receiver
          split at found
          · cases found
          · rename_i some
            cases found
            simp only [not_or] at some
            have digits : ∀ c ∈ s.takeWhile Char.isDigit, c.isDigit = true :=
              fun c mem => List.all_eq_true.mp List.all_takeWhile c mem
            refine ⟨⟨s₃, ?_⟩, ⟨some.1, digits⟩, ⟨some.2.1, out ' ' s₁⟩, ⟨some.2.2, out ']' s₂⟩⟩
            rw [← receiver, ← split, ← sender, ← split, ← time, ← split]
        · cases found
      · cases found
    · cases found
  · cases found

theorem msgDebMatchAt_complete (here : Matches s tm one two) :
    msgDebMatchAt s = some (tm, one, two) := by
  obtain ⟨rest, rfl, holds⟩ := matches_iff.mp here
  cases holds with
  | cons time holds =>
    cases holds with
    | cons sender holds =>
      cases holds with
      | cons receiver _ =>
        have afterTime : (tm ++ ' ' :: (one ++ ' ' :: (two ++ ']' :: rest))).dropWhile Char.isDigit =
            ' ' :: (one ++ ' ' :: (two ++ ']' :: rest)) := time.dropWhile _
        have afterSender : (one ++ ' ' :: (two ++ ']' :: rest)).dropWhile (· ≠ ' ') =
            ' ' :: (two ++ ']' :: rest) := sender.dropWhile _
        have afterReceiver : (two ++ ']' :: rest).dropWhile (· ≠ ']') = ']' :: rest := receiver.dropWhile _
        have readTime : (tm ++ ' ' :: (one ++ ' ' :: (two ++ ']' :: rest))).takeWhile Char.isDigit = tm :=
          time.takeWhile _
        have readSender : (one ++ ' ' :: (two ++ ']' :: rest)).takeWhile (· ≠ ' ') = one :=
          sender.takeWhile _
        have readReceiver : (two ++ ']' :: rest).takeWhile (· ≠ ']') = two := receiver.takeWhile _
        change msgDebMatchAt ('[' :: (tm ++ ' ' :: (one ++ ' ' :: (two ++ ']' :: rest)))) = _
        simp only [msgDebMatchAt, afterTime, afterSender, afterReceiver, readTime, readSender,
          readReceiver, time.some, sender.some, receiver.some, or_self, if_false]

theorem msgDebMatchAt_iff : msgDebMatchAt s = some (tm, one, two) ↔ Matches s tm one two :=
  ⟨msgDebMatchAt_sound, msgDebMatchAt_complete⟩

/-- `msgDebMatches` finds the leftmost match of the expression. -/
theorem msgDebMatches_iff :
    msgDebMatches body = some (tm, one, two) ↔ ∃ n, Leftmost body n tm one two := by
  have scan : ∀ s : CString, msgDebMatches s = search msgDebMatchAt s := by
    intro s
    induction s with
    | nil => rfl
    | cons c s ih => rw [msgDebMatches, search, ih]
  rw [scan, search_iff rfl]
  constructor
  · rintro ⟨n, here, first⟩
    refine ⟨n, msgDebMatchAt_iff.mp here, fun m early tm one two found => ?_⟩
    rw [← msgDebMatchAt_iff, first m early] at found
    cases found
  · rintro ⟨n, here, first⟩
    refine ⟨n, msgDebMatchAt_iff.mpr here, fun m early => ?_⟩
    cases found : msgDebMatchAt (body.drop m) with
    | none => rfl
    | some groups => exact absurd (msgDebMatchAt_iff.mp found) (first m early _ _ _)

end Expression

section Timestamp

theorem digitsValue_toDigits (n : Nat) : digitsValue 10 (Nat.toDigits 10 n) = n :=
  Nat.ofDigitChars_ten_toDigits

/-- A positive number is not written with a zero in front. -/
theorem toDigits_head {n : Nat} (positive : 0 < n) : (Nat.toDigits 10 n).head? ≠ some '0' := by
  induction n using Nat.strongRecOn with
  | ind n ih =>
    by_cases small : n < 10
    · rw [Nat.toDigits_of_lt_base small]
      intro zero
      rw [List.head?_cons, Option.some.injEq] at zero
      have value := Nat.toNat_digitChar_of_lt_ten small
      rw [zero] at value
      have value : 48 = 48 + n := value
      omega
    · have more : 10 ≤ n := Nat.le_of_not_lt small
      rw [Nat.toDigits_of_base_le (by decide) more, List.head?_append_of_ne_nil _ Nat.toDigits_ne_nil]
      exact ih (n / 10) (by omega) (by omega)

/-- `sscanf` reads back what `sprintf` wrote. -/
theorem scanLi_fmtI {t : Int} (positive : 0 < t) (small : t < 2 ^ 63) : scanLi (fmtI t) = t := by
  have written : fmtI t = Nat.toDigits 10 t.natAbs := by
    rw [fmtI, if_neg (by omega), conv10]
  have value : digitsValue 10 (Nat.toDigits 10 t.natAbs) = t.natAbs := digitsValue_toDigits _
  have head := toDigits_head (n := t.natAbs) (by omega)
  rw [written, scanLi]
  · rw [value]
    omega
  · intro r zero
    rw [zero] at head
    exact head rfl

end Timestamp

/-- The debug information for a message of `name` to `jid`, written at the time `t`. -/
def debHeader (t : Int) (name jid : CString) : CString :=
  '[' :: (fmtI t ++ ' ' :: (name ++ ' ' :: (jidUser jid ++ cstr "] ")))

section RoundTrip

variable {w : World} {u : UserPtr} {x : Option XmlNode} {jid name : CString} {t : Int}

theorem debugPrefix_written (asked : (xmlnodeGetTag x (cstr "prepend_with_debug_info")).isSome)
    (fits : (debHeader (w.env.clock 0) (w.users u).idUser jid).length < 1000) :
    ∃ w', debugPrefix u x (some jid) w =
      .ok (debHeader (w.env.clock 0) (w.users u).idUser jid) w' := by
  obtain ⟨tag, found⟩ := Option.isSome_iff_exists.mp asked
  obtain ⟨env, _, clock⟩ := gettimeofday_apply w
  have header : cstr "[" ++ fmtI (w.env.clock 0) ++ cstr " " ++ (w.users u).idUser ++ cstr " " ++
      jid.takeWhile (· ≠ '@') ++ cstr "] " = debHeader (w.env.clock 0) (w.users u).idUser jid := by
    simp [debHeader, jidUser, cstr]
  refine ⟨w.withEnv env, ?_⟩
  rw [debugPrefix, found]
  dsimp only
  rw [bind_apply, clock]
  dsimp only
  rw [bind_apply, getUser_apply]
  change (if _ < 1000 then pure _ else _ : M CString) _ = _
  rw [show ((w.withEnv env).users u).idUser = (w.users u).idUser from rfl, header, if_pos fits]
  rfl

theorem makeBytes_text (asked : (xmlnodeGetTag x (cstr "prepend_with_debug_info")).isSome)
    (source : (xmlnodeGetTag x (cstr "text")).isSome)
    (fits : (debHeader (w.env.clock 0) (w.users u).idUser jid).length < 1000) :
    ∃ w', makeBytesDefinedInXml u x (some jid) w =
      .ok (some (debHeader (w.env.clock 0) (w.users u).idUser jid ++
        (xmlnodeGetTagData x (cstr "text")).getD [])) w' := by
  obtain ⟨w', written⟩ := debugPrefix_written (w := w) (u := u) asked fits
  refine ⟨w', ?_⟩
  rw [makeBytesDefinedInXml, bind_apply, written]
  dsimp only
  rw [if_pos source, apSnprintf_of_le (by simp)]
  rfl

/-- The expression matches a header at its first character, whatever follows. -/
theorem debHeader_matches (positive : 0 < t) (named : name ≠ []) (word : ' ' ∉ name)
    (aimed : jidUser jid ≠ []) (unclosed : ']' ∉ jidUser jid) (text : CString) :
    Matches (debHeader t name jid ++ text) (fmtI t) name (jidUser jid) := by
  have written : fmtI t = Nat.toDigits 10 t.natAbs := by
    rw [fmtI, if_neg (by omega), conv10]
  refine ⟨⟨' ' :: text, by simp [debHeader, cstr]⟩, ?_, ⟨named, word⟩, aimed, unclosed⟩
  rw [written]
  constructor
  · exact Nat.toDigits_ne_nil
  · exact fun c mem => Nat.isDigit_of_mem_toDigits (by decide) (by decide) mem

theorem Matches.leftmost_iff {body tm one two : CString} (here : Matches body tm one two) (n : Nat)
    (tm' one' two' : CString) :
    Leftmost body n tm' one' two' ↔ n = 0 ∧ tm' = tm ∧ one' = one ∧ two' = two := by
  constructor
  · intro found
    have zero : n = 0 := by
      by_contra later
      exact found.first 0 (Nat.pos_of_ne_zero later) tm one two here
    subst zero
    obtain ⟨rfl, rfl, rfl⟩ := found.here.unique here
    exact ⟨rfl, rfl, rfl, rfl⟩
  · rintro ⟨rfl, rfl, rfl, rfl⟩
    exact ⟨here, fun m early => absurd early (Nat.not_lt_zero m)⟩

/-- The body of a message begins with a header that the expression finds and reads as it
was written, whatever the text is. -/
theorem debug_header_round_trip (w : World) (u : UserPtr) (x : Option XmlNode) (jid : CString)
    (asked : (xmlnodeGetTag x (cstr "prepend_with_debug_info")).isSome)
    (source : (xmlnodeGetTag x (cstr "text")).isSome)
    (positive : 0 < w.env.clock 0) (small : w.env.clock 0 < 2 ^ 63)
    (named : (w.users u).idUser ≠ []) (word : ' ' ∉ (w.users u).idUser)
    (aimed : jidUser jid ≠ []) (unclosed : ']' ∉ jidUser jid)
    (fits : (debHeader (w.env.clock 0) (w.users u).idUser jid).length < 1000) :
    ∃ body w', makeBytesDefinedInXml u x (some jid) w = .ok (some body) w' ∧
      (∀ n tm one two, Leftmost body n tm one two ↔
        n = 0 ∧ tm = fmtI (w.env.clock 0) ∧ one = (w.users u).idUser ∧ two = jidUser jid) ∧
      msgDebMatches body = some (fmtI (w.env.clock 0), (w.users u).idUser, jidUser jid) ∧
      scanLi (fmtI (w.env.clock 0)) = w.env.clock 0 := by
  obtain ⟨w', made⟩ := makeBytes_text (w := w) (u := u) asked source fits
  have here := debHeader_matches positive named word aimed unclosed
    ((xmlnodeGetTagData x (cstr "text")).getD [])
  refine ⟨_, w', made, here.leftmost_iff, ?_, scanLi_fmtI positive small⟩
  rw [msgDebMatches_iff]
  exact ⟨0, (here.leftmost_iff 0 _ _ _).mpr ⟨rfl, rfl, rfl, rfl⟩⟩

end RoundTrip

/-- A message whose text looks like a header itself. -/
def nestedSource : XmlNode :=
  .tag (cstr "event") []
    [.tag (cstr "prepend_with_debug_info") [] [], .tag (cstr "text") [] [.cdata (cstr "[7 ola ula] x]")]]

theorem debug_header_round_trip_nested : ∃ body w',
    makeBytesDefinedInXml 0 (some nestedSource) (some (cstr "basia@host"))
      ((plainWorld []).withEnv { plainEnv with clock := fun _ => 5 }) = .ok (some body) w' ∧
      msgDebMatches body = some (cstr "5", cstr "ala", cstr "basia") := by
  obtain ⟨body, w', made, _, found, _⟩ := debug_header_round_trip
    ((plainWorld []).withEnv { plainEnv with clock := fun _ => 5 }) 0 (some nestedSource)
    (cstr "basia@host") (by decide) (by decide) (by decide) (by decide) (by decide) (by decide)
    (by decide) (by decide) (by decide)
  exact ⟨body, w', made, found⟩

end JabSimul
