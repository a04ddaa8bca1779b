import JabSimul.RosterAccounts
import JabSimul.MessageSpec
import Mathlib.Data.List.TakeWhile
import Mathlib.Tactic.IntervalCases

/-!
Drawing from a roster. The entries of the hash are numbered without gaps and without
repetitions, so every number below the counter of the roster draws one contact. The
jid that is drawn goes through a format.
-/
namespace JabSimul

open Simulation

section Scan

variable {κ ν : Type}

/-- The inner loop of `xhash_get_nth`: the value, or the number of entries so far. -/
def getNthChain (num j : Int) : List (Xhn κ ν) → ν ⊕ Int
  | [] => .inr j
  | n :: rest =>
      match n.entry with
      | none => getNthChain num j rest
      | some e => if j = num then .inl e.2 else getNthChain num (j + 1) rest

/-- The outer loop. -/
def getNthTable (num j : Int) : List (List (Xhn κ ν)) → Option ν
  | [] => none
  | chain :: rest =>
      match getNthChain num j chain with
      | .inl v => some v
      | .inr j => getNthTable num j rest

/-- What is left of a list behind `num - j` entries. -/
def nthFrom (num j : Int) (entries : List (κ × ν)) : Option ν :=
  if num < j then none else (entries[(num - j).toNat]?).map Prod.snd

theorem nthFrom_cons (num j : Int) (e : κ × ν) (entries : List (κ × ν)) :
    nthFrom num j (e :: entries) = if j = num then some e.2 else nthFrom num (j + 1) entries := by
  unfold nthFrom
  by_cases here : j = num
  · subst here
    simp
  · by_cases below : num < j
    · rw [if_pos below, if_neg here, if_pos (by omega)]
    · have shift : (num - j).toNat = (num - (j + 1)).toNat + 1 := by omega
      rw [if_neg below, if_neg here, if_neg (by omega), shift, List.getElem?_cons_succ]

theorem getNthChain_eq (num j : Int) (chain : List (Xhn κ ν)) : getNthChain num j chain =
    match nthFrom num j (chain.filterMap Xhn.entry) with
    | some v => .inl v
    | none => .inr (j + (chain.filterMap Xhn.entry).length) := by
  induction chain generalizing j with
  | nil => simp [getNthChain, nthFrom]
  | cons n rest ih =>
    cases entry : n.entry with
    | none => simp [getNthChain, entry, ih]
    | some e =>
      rw [List.filterMap_cons_some entry, nthFrom_cons, getNthChain, entry]
      dsimp only
      by_cases here : j = num
      · rw [if_pos here, if_pos here]
      · rw [if_neg here, if_neg here, ih]
        cases nthFrom num (j + 1) (rest.filterMap Xhn.entry) with
        | some v => rfl
        | none =>
          dsimp only
          rw [List.length_cons, Nat.cast_succ]
          congr 1
          omega

theorem nthFrom_append (num j : Int) (xs ys : List (κ × ν)) : nthFrom num j (xs ++ ys) =
    (nthFrom num j xs).or (nthFrom num (j + xs.length) ys) := by
  induction xs generalizing j with
  | nil => simp [nthFrom]
  | cons x xs ih =>
    rw [List.cons_append, nthFrom_cons, nthFrom_cons, ih]
    by_cases here : j = num
    · rw [if_pos here, if_pos here]
      rfl
    · rw [if_neg here, if_neg here, List.length_cons, Nat.cast_succ]
      have shift : j + 1 + (xs.length : Int) = j + (xs.length + 1) := by omega
      rw [shift]

theorem getNthTable_eq (num j : Int) (zen : List (List (Xhn κ ν))) :
    getNthTable num j zen = nthFrom num j (zen.flatten.filterMap Xhn.entry) := by
  induction zen generalizing j with
  | nil => simp [getNthTable, nthFrom]
  | cons chain rest ih =>
    rw [getNthTable, getNthChain_eq, List.flatten_cons, List.filterMap_append, nthFrom_append]
    cases nthFrom num j (chain.filterMap Xhn.entry) with
    | some v => rfl
    | none => exact ih _

/-- The index into the entries is what the loops find. -/
theorem xhashGetNth_loop (h : Xht κ ν) (num : Int) : xhashGetNth h num = getNthTable num 0 h.zen := by
  rw [getNthTable_eq, nthFrom, xhashGetNth, xhashWalk, Int.sub_zero]

end Scan

section Choice

variable {w : World} {u : UserPtr} {contents : UserPtr → CString → Option RosterItem}

/-- The item with a number, as `xhash_get_nth(user->roster_hash, num)`. -/
def World.nthItem (w : World) (u : UserPtr) (num : Int) : Option RosterPtr :=
  (w.users u).rosterHash.bind fun h => xhashGetNth h num

theorem nthItem_eq (num : Nat) : w.nthItem u num = ((w.rosterEntries u)[num]?).map Prod.snd := by
  unfold World.nthItem World.rosterEntries
  cases (w.users u).rosterHash with
  | none => rfl
  | some h =>
    change xhashGetNth h num = _
    rw [xhashGetNth, if_neg (by omega)]
    rfl

theorem World.Rosters.items_nodup (rosters : w.Rosters) (u : UserPtr) :
    ((w.rosterEntries u).map Prod.snd).Nodup := by
  cases hash : (w.users u).rosterHash with
  | none =>
    rw [World.rosterEntries, hash]
    exact List.nodup_nil
  | some h =>
    have texts := (rosters.sound u h hash).texts_nodup
    rw [← rosterEntries_of_hash hash] at texts
    have same : (w.rosterEntries u).map (fun e => w.rosterText e.1) =
        ((w.rosterEntries u).map Prod.snd).map w.rosterText := by
      rw [List.map_map]
      apply List.map_congr_left
      intro e mem
      rw [rosters.keyed u e mem]
      rfl
    rw [same] at texts
    exact texts.of_map _

/-- Every number below the counter is one of an entry, and the other way round. -/
structure Numbered (w : World) (u : UserPtr) : Prop where
  found : ∀ num : Int, 0 ≤ num → num < (w.users u).rosterCount →
    ∃ e ∈ w.rosterEntries u, w.nthItem u num = some e.2 ∧ (w.rosterItems e.2).live = true
  apart : ∀ num num' : Int, 0 ≤ num → num < (w.users u).rosterCount → 0 ≤ num' →
    num' < (w.users u).rosterCount → w.nthItem u num = w.nthItem u num' → num = num'
  once : ∀ e ∈ w.rosterEntries u, ∃! num : Int,
    0 ≤ num ∧ num < (w.users u).rosterCount ∧ w.nthItem u num = some e.2

theorem World.Rosters.numbered (rosters : w.Rosters) (u : UserPtr) : Numbered w u := by
  have counted := rosters.counted u
  have items : ∀ num : Int, 0 ≤ num → num < (w.users u).rosterCount →
      ∃ (n : Nat) (bound : n < (w.rosterEntries u).length), num = n ∧
        w.nthItem u num = some (w.rosterEntries u)[n].2 := by
    intro num nonneg below
    obtain ⟨n, rfl⟩ := Int.eq_ofNat_of_zero_le nonneg
    have bound : n < (w.rosterEntries u).length := by omega
    refine ⟨n, bound, rfl, ?_⟩
    rw [nthItem_eq, List.getElem?_eq_getElem bound]
    rfl
  have apart : ∀ num num' : Int, 0 ≤ num → num < (w.users u).rosterCount → 0 ≤ num' →
      num' < (w.users u).rosterCount → w.nthItem u num = w.nthItem u num' → num = num' := by
    intro num num' nonneg below nonneg' below' same
    obtain ⟨n, bound, rfl, at'⟩ := items num nonneg below
    obtain ⟨n', bound', rfl, at''⟩ := items num' nonneg' below'
    rw [at', at''] at same
    have inside : n < ((w.rosterEntries u).map Prod.snd).length := by simpa using bound
    have inside' : n' < ((w.rosterEntries u).map Prod.snd).length := by simpa using bound'
    have equal : ((w.rosterEntries u).map Prod.snd)[n] = ((w.rosterEntries u).map Prod.snd)[n'] := by
      simpa using same
    rw [(rosters.items_nodup u).getElem_inj_iff.mp equal]
  constructor
  · intro num nonneg below
    obtain ⟨n, bound, rfl, at'⟩ := items num nonneg below
    have mem := List.getElem_mem bound
    exact ⟨_, mem, at', (rosters.alive u _ mem).1⟩
  · exact apart
  · intro e mem
    obtain ⟨n, bound, rfl⟩ := List.getElem_of_mem mem
    have below : (n : Int) < (w.users u).rosterCount := by omega
    have here : w.nthItem u n = some (w.rosterEntries u)[n].2 := by
      rw [nthItem_eq, List.getElem?_eq_getElem bound]
      rfl
    refine ⟨n, ⟨by omega, below, here⟩, ?_⟩
    rintro num ⟨nonneg, below', same⟩
    exact apart num n nonneg below' (by omega) below (same.trans here.symm)

/-- What a random number draws from a roster. -/
def World.drawn (w : World) (u : UserPtr) (r : Nat) : Option RosterPtr :=
  w.nthItem u ((r : Int).tmod (w.users u).rosterCount)

theorem rosterNthJid_apply (num : Int) : rosterNthJid u num w =
    match w.nthItem u num with
    | none => .error .crash w
    | some ri => .ok (w.rosterText ri) w := by
  simp only [rosterNthJid, bind_apply, get_apply, World.nthItem]
  cases (w.users u).rosterHash.bind fun h => xhashGetNth h num with
  | none => rfl
  | some ri => rfl

theorem Numbered.drawn (numbered : Numbered w u) (filled : 0 < (w.users u).rosterCount) (r : Nat) :
    ∃ e ∈ w.rosterEntries u, w.drawn u r = some e.2 := by
  have nonneg := Int.tmod_nonneg (w.users u).rosterCount (Int.natCast_nonneg r)
  have below := Int.tmod_lt_of_pos (r : Int) filled
  obtain ⟨e, mem, found, _⟩ := numbered.found _ nonneg below
  exact ⟨e, mem, found⟩

/-- Every contact may be drawn. -/
theorem Numbered.drawable (numbered : Numbered w u) {e : RosterPtr × RosterPtr}
    (mem : e ∈ w.rosterEntries u) : ∃ r, w.drawn u r = some e.2 := by
  obtain ⟨num, ⟨nonneg, below, found⟩, _⟩ := numbered.once e mem
  refine ⟨num.toNat, ?_⟩
  rw [World.drawn, Int.toNat_of_nonneg nonneg, Int.tmod_eq_of_lt nonneg below]
  exact found

/-- In every state of a roster the numbers below its counter are those of its entries,
each of one; so no draw finds NULL, and each contact is drawn for some number. -/
theorem roster_choice (run : RosterRun w contents) (u : UserPtr) : Numbered w u ∧
    (0 < (w.users u).rosterCount → ∀ r : Nat, ∃ e ∈ w.rosterEntries u,
      rosterNthJid u ((r : Int).tmod (w.users u).rosterCount) w = .ok (w.rosterText e.2) w) ∧
    ∀ e ∈ w.rosterEntries u, ∃ r : Nat,
      rosterNthJid u ((r : Int).tmod (w.users u).rosterCount) w = .ok (w.rosterText e.2) w := by
  have numbered := run.spec.1.numbered u
  refine ⟨numbered, ?_, ?_⟩
  · intro filled r
    obtain ⟨e, mem, drawn⟩ := numbered.drawn filled r
    refine ⟨e, mem, ?_⟩
    rw [rosterNthJid_apply, ← World.drawn, drawn]
  · intro e mem
    obtain ⟨r, drawn⟩ := numbered.drawable mem
    refine ⟨r, ?_⟩
    rw [rosterNthJid_apply, ← World.drawn, drawn]

/-- The roster names two contacts. -/
def olaAndEla : XmlNode :=
  let item (jid : String) : XmlNode := .tag (cstr "item") [(cstr "jid", cstr jid)] []
  .tag (cstr "query") [] [item "ola@host", item "ela@host"]

def pairWorld : World := rosterHashFromXml 0 (some olaAndEla) true (plainWorld [])

theorem roster_choice_pair : (pairWorld.users 0).rosterCount = 2 ∧
    (∃ e ∈ pairWorld.rosterEntries 0,
      rosterNthJid 0 (((7 : Nat) : Int).tmod (pairWorld.users 0).rosterCount) pairWorld =
        .ok (pairWorld.rosterText e.2) pairWorld) ∧
    ∀ e ∈ pairWorld.rosterEntries 0, ∃ r : Nat,
      rosterNthJid 0 ((r : Int).tmod (pairWorld.users 0).rosterCount) pairWorld =
        .ok (pairWorld.rosterText e.2) pairWorld := by
  have run := RosterRun.result (.init (plainWorld_initial [])) 0 Nat.one_pos (some olaAndEla)
  have count : (pairWorld.users 0).rosterCount = 2 := by decide +kernel
  obtain ⟨_, drawn, drawable⟩ := roster_choice run 0
  exact ⟨count, drawn (count ▸ by decide) 7, drawable⟩

end Choice

section Format

/-- The characters that mean something behind a percent sign. -/
def conversionChars : CString := cstr "-+ #0123456789.*l%udioxXsfeEgGcnp"

/-- Every percent sign is followed by a character that means nothing there. -/
def PlainFormat (s : CString) : Prop :=
  ∀ before rest, s = before ++ '%' :: rest → ∃ c after, rest = c :: after ∧ c ∉ conversionChars

/-- What `format_converter` makes of a conversion: its modifiers `m` go away. -/
inductive Converted : CString → CString → CString → Prop
  | ends (s) : Converted s [] []
  | writes {m c rest} (before behind : Nat) (modifiers : '%' ∉ m) (silent : readsArgument c = false)
      (bare : m = [] → c ∉ cstr "-+ #0123456789.*l")
      (pads : (∀ d ∈ m, d = ' ') → before = 0 ∧ behind = 0) :
      Converted (m ++ c :: rest) (List.replicate before ' ' ++
        (if c = '%' then ['%'] else ['%', c]) ++ List.replicate behind ' ') rest

/-- A piece of the modifiers, read at the beginning of a text. -/
structure Cut (text piece rest : CString) : Prop where
  whole : text = piece ++ rest
  noPercent : '%' ∉ piece

theorem piece_takeWhile {p : Char → Bool} (percent : p '%' = false) (s : CString) :
    Cut s (s.takeWhile p) (s.dropWhile p) := by
  refine ⟨List.takeWhile_append_dropWhile.symm, fun here => ?_⟩
  cases percent.symm.trans (List.mem_takeWhile_imp here)

/-- The modifier `l`. -/
theorem cut_long (s : CString) : ∃ rest, Cut s (if s.head? = some 'l' then ['l'] else []) rest := by
  cases s with
  | nil => exact ⟨[], rfl, by simp⟩
  | cons c s =>
    by_cases long : c = 'l'
    · subst long
      exact ⟨s, by simp, by simp⟩
    · exact ⟨c :: s, by simp [long], by simp [long]⟩

/-- What is read as modifiers. -/
structure ModifiersRead (s : CString) (m : Modifiers) : Prop where
  piece : ∃ rest, Cut s m.text rest
  blank : (∀ d ∈ m.text, d = ' ') → m.width = []
  bare : m.text = [] → m.star = false → ∀ c rest, s = c :: rest →
    c ∉ cstr "-+ #0123456789.*l"

theorem Cut.append {s a b rest rest' : CString} (first : Cut s a rest)
    (second : Cut rest b rest') : Cut s (a ++ b) rest' := by
  refine ⟨?_, ?_⟩
  · rw [first.whole, second.whole, List.append_assoc]
  · intro here
    rcases List.mem_append.mp here with early | late
    · exact first.noPercent early
    · exact second.noPercent late

theorem width_blank {s rest : CString} (blank : ∀ d ∈ s.takeWhile Char.isDigit ++ rest, d = ' ') :
    s.takeWhile Char.isDigit = [] := by
  apply List.eq_nil_iff_forall_not_mem.mpr
  intro d here
  have space := blank d (List.mem_append_left _ here)
  have digit := List.mem_takeWhile_imp here
  rw [space] at digit
  cases digit

theorem head_of_takeWhile_nil {p : Char → Bool} {c : Char} {rest : CString}
    (none : (c :: rest).takeWhile p = []) : p c = false := by
  cases first : p c with
  | false => rfl
  | true =>
    rw [List.takeWhile_cons_of_pos first] at none
    cases none

theorem long_of_nil {c : Char} {rest : CString}
    (none : (if (c :: rest).head? = some 'l' then ['l'] else []) = []) : c ≠ 'l' := by
  rintro rfl
  simp at none

/-- The characters of the modifiers, by what reads them. -/
theorem modifierChars : (cstr "-+ #0123456789.*l").all (fun d =>
    isFlag d || d.isDigit || d = '.' || d = '*' || d = 'l') = true := by decide

theorem modifierChars_plain : (cstr "-+ #0123456789.*l").all (fun d =>
    d.toNat < 128 && !d.isLower || d = 'l') = true := by decide

theorem modifiersRead (s : CString) : ModifiersRead s (readModifiers s) := by
  unfold readModifiers
  dsimp only
  split
  · have flags := piece_takeWhile (p := isFlag) (by decide) s
    have width := piece_takeWhile (p := Char.isDigit) (by decide) (s.dropWhile isFlag)
    split
    · rename_i s₂ point
      have digits := piece_takeWhile (p := Char.isDigit) (by decide) s₂
      have precision : Cut ((s.dropWhile isFlag).dropWhile Char.isDigit)
          ('.' :: s₂.takeWhile Char.isDigit) (s₂.dropWhile Char.isDigit) := by
        rw [point]
        exact Cut.append (a := ['.']) ⟨rfl, by decide⟩ digits
      obtain ⟨rest, long⟩ := cut_long (s₂.dropWhile Char.isDigit)
      constructor
      · exact ⟨rest, flags.append (width.append (precision.append long))⟩
      · intro blank
        exact width_blank fun d here => blank d (List.mem_append_right _ here)
      · intro none
        simp [Modifiers.text] at none
    · rename_i s₁ noPoint
      obtain ⟨rest, long⟩ := cut_long ((s.dropWhile isFlag).dropWhile Char.isDigit)
      constructor
      · exact ⟨rest, flags.append (width.append long)⟩
      · intro blank
        exact width_blank fun d here => blank d (List.mem_append_right _ here)
      · intro none star c rest same here
        subst same
        simp only [Modifiers.text, List.append_eq_nil_iff, List.nil_append] at none
        obtain ⟨noFlags, noWidth, noLong⟩ := none
        have whole := flags.whole
        rw [noFlags, List.nil_append] at whole
        rw [← whole] at noWidth noLong star noPoint
        have whole' := width.whole
        rw [← whole, noWidth, List.nil_append] at whole'
        rw [← whole'] at noLong star noPoint
        have kinds := List.all_eq_true.mp modifierChars c here
        have point : c ≠ '.' := fun point => noPoint rest (by rw [point])
        have asterisk : c ≠ '*' := by
          rintro rfl
          simp [noWidth] at star
        simp [head_of_takeWhile_nil noFlags, head_of_takeWhile_nil noWidth, point, asterisk,
          long_of_nil noLong] at kinds
  · rename_i letter
    obtain ⟨rest, long⟩ := cut_long s
    constructor
    · exact ⟨rest, long⟩
    · exact fun _ => rfl
    · intro none star c rest same here
      subst same
      have kinds := List.all_eq_true.mp modifierChars_plain c here
      have other : c ≠ 'l' := long_of_nil none
      simp only [List.head?_cons, Option.all_some] at letter
      simp only [letter, Bool.false_or, decide_eq_true_eq] at kinds
      exact other kinds

theorem converted_of_run {s text rest : CString}
    (ran : convWithoutArgument s = some (text, rest)) : Converted s text rest := by
  have read := modifiersRead s
  unfold convWithoutArgument at ran
  generalize readModifiers s = m at read ran
  obtain ⟨tail, piece⟩ := read.piece
  have dropped : s.drop m.text.length = tail := by
    rw [piece.whole, List.drop_left]
  dsimp only at ran
  rw [dropped] at ran
  split at ran
  · cases ran
  rename_i silent
  split at ran
  · cases ran
    exact .ends s
  rename_i c rest'
  split at ran
  · cases ran
  rename_i letter
  have star : m.star = false := by
    cases star : m.star with
    | false => rfl
    | true => simp [star] at silent
  have bare : m.text = [] → c ∉ cstr "-+ #0123456789.*l" := by
    intro none
    apply read.bare none star c rest'
    rw [piece.whole, none, List.nil_append]
  have pads : ∀ body : CString, (∀ d ∈ m.text, d = ' ') →
      digitsValue 10 m.width - body.length = 0 := by
    intro body blank
    rw [read.blank blank]
    exact Nat.zero_sub _
  rw [piece.whole]
  cases ran
  by_cases left : m.flags.contains '-' = true
  · rw [if_pos left]
    have written : Converted (m.text ++ c :: rest) _ rest := .writes 0
      (digitsValue 10 m.width - (if c = '%' then ['%'] else ['%', c]).length) piece.noPercent
      (Bool.eq_false_iff.mpr letter) bare fun blank => ⟨rfl, pads _ blank⟩
    simpa using written
  · rw [if_neg left]
    have written : Converted (m.text ++ c :: rest) _ rest := .writes
      (digitsValue 10 m.width - (if c = '%' then ['%'] else ['%', c]).length) 0 piece.noPercent
      (Bool.eq_false_iff.mpr letter) bare fun blank => ⟨pads _ blank, rfl⟩
    simpa using written

/-- What a conversion may write is counted against what it reads, spaces apart. -/
theorem Converted.count_le {s text rest : CString} (converted : Converted s text rest) {x : Char}
    (solid : x ≠ ' ') : text.count x + rest.count x ≤ ('%' :: s).count x := by
  cases converted with
  | ends => simp
  | @writes m c rest before behind modifiers silent bare pads =>
    have blank : ∀ n : Nat, (List.replicate n ' ').count x = 0 := fun n => by
      rw [List.count_replicate, if_neg]
      simpa using solid.symm
    rw [List.count_append, List.count_append, blank, blank, List.count_cons, List.count_append,
      List.count_cons]
    by_cases percent : c = '%'
    · subst percent
      rw [if_pos rfl, List.count_singleton]
      omega
    · rw [if_neg percent, List.count_cons, List.count_singleton]
      omega

theorem conversionChars_kinds : conversionChars.all (fun d =>
    (cstr "-+ #0123456789.*l").contains d || d = '%' || readsArgument d) = true := by decide

/-- A conversion that loses nothing but spaces is no longer than what it writes only if
it writes itself. -/
theorem Converted.itself {s text rest : CString} (converted : Converted s text rest)
    (equal : ∀ x, x ≠ ' ' → text.count x + rest.count x = ('%' :: s).count x) :
    text.length + rest.length ≤ s.length + 1 ∧
      (text.length + rest.length = s.length + 1 →
        ∃ c, s = c :: rest ∧ text = ['%', c] ∧ c ∉ conversionChars) := by
  cases converted with
  | ends =>
    have lost := equal '%' (by decide)
    simp at lost
  | @writes m c rest before behind modifiers silent bare pads =>
    have other : c ≠ '%' := by
      rintro rfl
      have lost := equal '%' (by decide)
      simp [List.count_replicate, List.count_append] at lost
      omega
    have blank : ∀ d ∈ m, d = ' ' := by
      intro d here
      by_contra solid
      have none : ∀ n : Nat, (List.replicate n ' ').count d = 0 := fun n => by
        rw [List.count_replicate, if_neg]
        simpa using Ne.symm solid
      have kept := equal d solid
      rw [if_neg other, List.count_append, List.count_append, none, none, List.count_cons,
        List.count_singleton, List.count_cons, List.count_append, List.count_cons] at kept
      have some := List.count_pos_iff.mpr here
      omega
    obtain ⟨rfl, rfl⟩ := pads blank
    rw [if_neg other]
    simp only [List.replicate_zero, List.nil_append, List.append_nil, List.length_cons,
      List.length_append, List.length_nil]
    refine ⟨by omega, fun long => ?_⟩
    have short : m = [] := List.eq_nil_of_length_eq_zero (by omega)
    subst short
    refine ⟨c, rfl, rfl, fun here => ?_⟩
    have kinds := List.all_eq_true.mp conversionChars_kinds c here
    have plain := bare rfl
    simp [plain, other, silent] at kinds

theorem plainFormat_nil : PlainFormat [] := by
  intro before rest same
  cases before with
  | nil => cases same
  | cons b before => cases same

theorem plainFormat_cons {c : Char} {s : CString} (other : c ≠ '%') (plain : PlainFormat s) :
    PlainFormat (c :: s) := by
  intro before rest same
  cases before with
  | nil =>
    injection same with first _
    exact absurd first other
  | cons b before =>
    injection same with _ same
    exact plain before rest same

theorem plainFormat_percent {c : Char} {s : CString} (means : c ∉ conversionChars)
    (plain : PlainFormat s) : PlainFormat ('%' :: c :: s) := by
  have other : c ≠ '%' := by
    rintro rfl
    exact means (by decide)
  intro before rest same
  cases before with
  | nil =>
    injection same with _ same
    exact ⟨c, s, same.symm, means⟩
  | cons b before =>
    injection same with _ same
    exact plainFormat_cons other plain before rest same

theorem PlainFormat.behind {a s : CString} (plain : PlainFormat (a ++ s)) : PlainFormat s := by
  intro before rest same
  exact plain (a ++ before) rest (by rw [same, List.append_assoc])

/-- The loop loses at most spaces, and if it loses and gains nothing, then each
conversion wrote itself. -/
theorem formatLoop_count {fuel : Nat} {s text : CString} (ran : formatLoop fuel s = some text) :
    (∀ x, x ≠ ' ' → text.count x ≤ s.count x) ∧
      ((∀ x, x ≠ ' ' → text.count x = s.count x) → text.length ≤ s.length ∧
        (text.length = s.length → PlainFormat s)) := by
  induction fuel generalizing s text with
  | zero =>
    cases s with
    | nil =>
      cases ran
      exact ⟨fun _ _ => le_rfl, fun _ => ⟨le_rfl, fun _ => plainFormat_nil⟩⟩
    | cons c s => cases ran
  | succ fuel ih =>
    cases s with
    | nil =>
      cases ran
      exact ⟨fun _ _ => le_rfl, fun _ => ⟨le_rfl, fun _ => plainFormat_nil⟩⟩
    | cons c s =>
      by_cases percent : c = '%'
      · subst percent
        rw [formatLoop] at ran
        cases conversion : convWithoutArgument s with
        | none =>
          rw [conversion] at ran
          cases ran
        | some pieces =>
          obtain ⟨out, rest⟩ := pieces
          rw [conversion] at ran
          obtain ⟨tail, later, rfl⟩ := Option.map_eq_some_iff.mp ran
          have converted := converted_of_run conversion
          obtain ⟨fewer, same⟩ := ih later
          have counts : ∀ x, x ≠ ' ' → (out ++ tail).count x ≤ ('%' :: s).count x := by
            intro x solid
            have first := converted.count_le solid
            have second := fewer x solid
            rw [List.count_append]
            omega
          refine ⟨counts, fun equal => ?_⟩
          have both : ∀ x, x ≠ ' ' → out.count x + rest.count x = ('%' :: s).count x ∧
              tail.count x = rest.count x := by
            intro x solid
            have first := converted.count_le solid
            have second := fewer x solid
            have whole := equal x solid
            rw [List.count_append] at whole
            omega
          obtain ⟨short, itself⟩ := converted.itself fun x solid => (both x solid).1
          obtain ⟨short', plain⟩ := same fun x solid => (both x solid).2
          rw [List.length_append, List.length_cons]
          refine ⟨by omega, fun long => ?_⟩
          obtain ⟨c, rfl, _, means⟩ := itself (by omega)
          exact plainFormat_percent means (plain (by omega))
      · have step : formatLoop (fuel + 1) (c :: s) = (formatLoop fuel s).map (c :: ·) := by
          rw [formatLoop]
          exact percent
        rw [step] at ran
        obtain ⟨tail, later, rfl⟩ := Option.map_eq_some_iff.mp ran
        obtain ⟨fewer, same⟩ := ih later
        constructor
        · intro x solid
          rw [List.count_cons, List.count_cons]
          exact Nat.add_le_add_right (fewer x solid) _
        · intro equal
          obtain ⟨short, plain⟩ := same fun x solid => by
            have whole := equal x solid
            rw [List.count_cons, List.count_cons] at whole
            omega
          rw [List.length_cons, List.length_cons]
          exact ⟨by omega, fun long => plainFormat_cons percent (plain (by omega))⟩

/-- A format that comes out with itself in front has no conversions. -/
theorem plainFormat_of_prefix {s text : CString} (ran : formatOnly s = some text)
    (same : s <+: text) : PlainFormat s := by
  obtain ⟨fewer, equal⟩ := formatLoop_count ran
  obtain ⟨short, plain⟩ := equal fun x solid =>
    Nat.le_antisymm (fewer x solid) (same.sublist.count_le x)
  exact plain (Nat.le_antisymm short same.length_le)

theorem isDigit_mem {c : Char} (digit : c.isDigit = true) : c ∈ cstr "0123456789" := by
  have bounds : 48 ≤ c.toNat ∧ c.toNat ≤ 57 := by
    simpa [Char.isDigit, UInt32.le_iff_toNat_le] using digit
  have same := Char.ofNat_toNat c
  generalize c.toNat = n at bounds same
  obtain ⟨low, high⟩ := bounds
  interval_cases n <;> subst same <;> decide

theorem readModifiers_plain {c : Char} (means : c ∉ conversionChars) (rest : CString) :
    readModifiers (c :: rest) = ⟨[], [], [], [], false⟩ := by
  have flag : isFlag c = false := by
    by_contra flag
    simp only [Bool.not_eq_false, isFlag, Bool.or_eq_true, decide_eq_true_eq] at flag
    rcases flag with (((rfl | rfl) | rfl) | rfl) | rfl <;> exact means (by decide)
  have digit : c.isDigit = false := by
    by_contra digit
    have here := isDigit_mem (Bool.eq_true_of_not_eq_false digit)
    have inside : (cstr "0123456789").all (fun d => conversionChars.contains d) = true := by decide
    exact means (by simpa using List.all_eq_true.mp inside c here)
  have point : c ≠ '.' := by
    rintro rfl
    exact means (by decide)
  have long : c ≠ 'l' := by
    rintro rfl
    exact means (by decide)
  have asterisk : c ≠ '*' := by
    rintro rfl
    exact means (by decide)
  have flags : (c :: rest).takeWhile isFlag = [] := List.takeWhile_cons_of_neg (by simp [flag])
  have width : (c :: rest).takeWhile Char.isDigit = [] :=
    List.takeWhile_cons_of_neg (by simp [digit])
  have noFlag : (c :: rest).dropWhile isFlag = c :: rest := List.dropWhile_cons_of_neg (by simp [flag])
  have noDigit : (c :: rest).dropWhile Char.isDigit = c :: rest :=
    List.dropWhile_cons_of_neg (by simp [digit])
  unfold readModifiers
  dsimp only
  split
  · rw [flags, noFlag, width, noDigit]
    split
    · rename_i same
      injection same with same _
      exact absurd same point
    · simp [long, asterisk]
  · simp [long]

theorem convWithoutArgument_plain {c : Char} (means : c ∉ conversionChars) (rest : CString) :
    convWithoutArgument (c :: rest) = some (['%', c], rest) := by
  have letter : readsArgument c = false := by
    by_contra letter
    have inside : (cstr "udioxXsfeEgGcnp").all (fun d => conversionChars.contains d) = true := by
      decide
    have here : c ∈ cstr "udioxXsfeEgGcnp" := by simpa [readsArgument] using letter
    exact means (by simpa using List.all_eq_true.mp inside c here)
  have other : c ≠ '%' := by
    rintro rfl
    exact means (by decide)
  unfold convWithoutArgument
  rw [readModifiers_plain means]
  simp [Modifiers.text, digitsValue, letter, other]

theorem formatLoop_plain {fuel : Nat} {s : CString} (plain : PlainFormat s)
    (enough : s.length ≤ fuel) : formatLoop fuel s = some s := by
  induction fuel using Nat.strong_induction_on generalizing s with
  | _ fuel ih =>
    cases s with
    | nil => cases fuel <;> rfl
    | cons c s =>
      cases fuel with
      | zero => cases enough
      | succ fuel =>
        rw [List.length_cons] at enough
        by_cases percent : c = '%'
        · subst percent
          obtain ⟨c, rest, rfl, means⟩ := plain [] s rfl
          rw [List.length_cons] at enough
          rw [formatLoop, convWithoutArgument_plain means]
          have later := ih fuel (Nat.lt_succ_self _) (PlainFormat.behind (a := ['%', c]) plain)
            (by omega)
          simp [later]
        · have step : formatLoop (fuel + 1) (c :: s) = (formatLoop fuel s).map (c :: ·) := by
            rw [formatLoop]
            exact percent
          have later := ih fuel (Nat.lt_succ_self _) (PlainFormat.behind (a := [c]) plain)
            (by omega)
          rw [step, later]
          rfl

theorem formatOnly_plain {s : CString} (plain : PlainFormat s) : formatOnly s = some s :=
  formatLoop_plain plain le_rfl

end Format

section Recipient

variable {w : World} {u : UserPtr} {x : Option XmlNode} {maxsize : Nat}

/-- The event addresses the contact that was drawn. -/
def WritesContact (maxsize : Nat) (x : Option XmlNode) (u : UserPtr) (w : World) : Prop :=
  ∃ e ∈ w.rosterEntries u, w.drawn u (w.env.random 0) = some e.2 ∧
    ∃ w', makeUserNameDefinedInXml maxsize x u w =
      .ok (some (apSnprintf maxsize (w.rosterText e.2))) w'

/-- A jid that comes out of the format as it is, as far as the buffer takes it. Where the
jid is longer than that, a percent sign may also be lost, if no conversion wants an argument
and the characters behind move up as they were: `%%%%` into a buffer of three bytes, or
any jid whose conversions all lie behind what is kept. -/
def SelfPrinting (maxsize : Nat) (jid : CString) : Prop :=
  PlainFormat jid ∨ maxsize ≤ jid.length ∧ ∃ text, formatOnly jid = some text ∧
    apSnprintf maxsize text = apSnprintf maxsize jid

theorem apSnprintf_prefix (len : Nat) (text : CString) : apSnprintf len text <+: text := by
  unfold apSnprintf
  split
  · exact List.prefix_refl text
  · exact List.take_prefix _ text

theorem selfPrinting_iff (maxsize : Nat) (jid : CString) : SelfPrinting maxsize jid ↔
    ∃ text, formatOnly jid = some text ∧ apSnprintf maxsize text = apSnprintf maxsize jid := by
  constructor
  · rintro (plain | ⟨_, text, formatted, same⟩)
    · exact ⟨jid, formatOnly_plain plain, rfl⟩
    · exact ⟨text, formatted, same⟩
  · rintro ⟨text, formatted, same⟩
    by_cases fits : jid.length < maxsize
    · left
      apply plainFormat_of_prefix formatted
      rw [apSnprintf_of_le fits] at same
      rw [← same]
      exact apSnprintf_prefix maxsize text
    · exact .inr ⟨Nat.le_of_not_lt fits, text, formatted, same⟩

theorem makeUserName_roster (maxsize : Nat) (fromRoster : (xmlnodeGetTag x (cstr "from_roster")).isSome)
    (filled : 0 < (w.users u).rosterCount) {ri : RosterPtr}
    (drawn : w.drawn u (w.env.random 0) = some ri) : ∃ env,
      makeUserNameDefinedInXml maxsize x u w = match formatOnly (w.rosterText ri) with
        | none => .error .crash (w.withEnv env)
        | some text => .ok (some (apSnprintf maxsize text)) (w.withEnv env) := by
  refine ⟨{ w.env with random := fun n => w.env.random (n + 1) }, ?_⟩
  have taken : random w = .ok (w.env.random 0)
      (w.withEnv { w.env with random := fun n => w.env.random (n + 1) }) := rfl
  have found := rosterNthJid_apply (w := w.withEnv { w.env with
    random := fun n => w.env.random (n + 1) }) (u := u)
    ((w.env.random 0 : Int).tmod (w.users u).rosterCount)
  have same : (w.withEnv { w.env with random := fun n => w.env.random (n + 1) }).nthItem u
      ((w.env.random 0 : Int).tmod (w.users u).rosterCount) = some ri := drawn
  rw [same] at found
  unfold makeUserNameDefinedInXml
  rw [bind_apply, getUser_apply]
  dsimp only
  rw [if_pos ⟨fromRoster, filled⟩, bind_apply, taken]
  dsimp only
  rw [bind_apply, found]
  change (match formatOnly (w.rosterText ri) with
    | none => throw Stop.crash
    | some jid => pure (some (apSnprintf maxsize jid)) : M (Option CString)) _ = _
  cases formatOnly (w.rosterText ri) with
  | none => rfl
  | some text => rfl

/-- The event addresses the contact that was drawn if and only if its jid has no
percent sign in front of a character that means something there. -/
theorem roster_recipient_iff {contents : UserPtr → CString → Option RosterItem}
    (run : RosterRun w contents) (fromRoster : (xmlnodeGetTag x (cstr "from_roster")).isSome)
    (filled : 0 < (w.users u).rosterCount) : WritesContact maxsize x u w ↔
      ∀ ri, w.drawn u (w.env.random 0) = some ri → SelfPrinting maxsize (w.rosterText ri) := by
  obtain ⟨e, mem, drawn⟩ := (run.spec.1.numbered u).drawn filled (w.env.random 0)
  obtain ⟨env, ran⟩ := makeUserName_roster maxsize fromRoster filled drawn
  constructor
  · rintro ⟨e', _, drawn', w', wrote⟩ ri drawn''
    have same : e'.2 = ri := Option.some.inj (drawn'.symm.trans drawn'')
    have same' : e.2 = ri := Option.some.inj (drawn.symm.trans drawn'')
    rw [same'] at ran
    rw [same, ran] at wrote
    apply (selfPrinting_iff _ _).mpr
    cases formatted : formatOnly (w.rosterText ri) with
    | none =>
      rw [formatted] at wrote
      cases wrote
    | some text =>
      rw [formatted] at wrote
      injection wrote with wrote _
      injection wrote with wrote
      exact ⟨text, rfl, wrote⟩
  · intro printing
    obtain ⟨text, formatted, same⟩ := (selfPrinting_iff _ _).mp (printing e.2 drawn)
    rw [formatted] at ran
    dsimp only at ran
    rw [same] at ran
    exact ⟨e, mem, drawn, _, ran⟩

def fromRoster : XmlNode := .tag (cstr "user") [] [.tag (cstr "from_roster") [] []]

theorem roster_recipient_iff_pair : WritesContact 2000 (some fromRoster) 0 pairWorld ↔
    ∀ ri, pairWorld.drawn 0 (pairWorld.env.random 0) = some ri →
      SelfPrinting 2000 (pairWorld.rosterText ri) :=
  roster_recipient_iff (.result (.init (plainWorld_initial [])) 0 Nat.one_pos (some olaAndEla))
    (by decide) (by decide +kernel)

/-- A contact whose jid is a format. -/
def percentItem : XmlNode :=
  .tag (cstr "query") [] [.tag (cstr "item") [(cstr "jid", cstr "50%%@host")] []]

def percentWorld : World := rosterHashFromXml 0 (some percentItem) true (plainWorld [])

theorem percent_recipient : ¬∀ (w : World) (contents : UserPtr → CString → Option RosterItem)
    (u : UserPtr) (x : Option XmlNode) (maxsize : Nat), RosterRun w contents →
      (xmlnodeGetTag x (cstr "from_roster")).isSome → 0 < (w.users u).rosterCount →
        WritesContact maxsize x u w := by
  intro claim
  obtain ⟨e, mem, _, w', wrote⟩ := claim percentWorld _ 0 (some fromRoster) 2000
    (.result (.init (plainWorld_initial [])) 0 Nat.one_pos (some percentItem)) (by decide)
    (by decide +kernel)
  have texts : (percentWorld.rosterEntries 0).map (fun e => percentWorld.rosterText e.2) =
      [cstr "50%%@host"] := by decide +kernel
  have text : percentWorld.rosterText e.2 = cstr "50%%@host" := by
    have here := List.mem_map_of_mem (f := fun e => percentWorld.rosterText e.2) mem
    rw [texts] at here
    exact List.mem_singleton.mp here
  have back : returned (makeUserNameDefinedInXml 2000 (some fromRoster) 0) percentWorld =
      some (some (cstr "50%@host")) := by decide +kernel
  rw [returned, wrote, text] at back
  injection back with back
  injection back with back
  exact absurd back (by decide)

end Recipient

end JabSimul
