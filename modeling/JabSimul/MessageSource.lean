import JabSimul.MessageSpec
import JabSimul.Pattern
import JabSimul.Lib.MemoryBlock

/-!
`makeBytes_defined_in_xml` down to the block of memory that it fills: the sizes that it
computes in an `int`, the pool it takes the block from, and a file that is read piece by
piece. The header `h` is what `prepbuf` holds.
-/
namespace JabSimul

open MemoryBlock Simulation

/-- What a call of `fread` finds. -/
structure FreadAnswer where
  bytes : CString
  eof : Bool
  error : Bool

/-- A stream with its two indicators, and what the calls to come will find. -/
structure File where
  answers : Nat → FreadAnswer
  eof : Bool
  error : Bool

/-- The stream after a call. -/
def File.next (f : File) : File :=
  ⟨fun n => f.answers (n + 1), f.eof || (f.answers 0).eof, f.error || (f.answers 0).error⟩

/-- No more than `request` bytes are delivered. A request for nothing leaves the stream
as it is. -/
def fread (f : File) (request : Nat) : CString × File :=
  if request = 0 then ([], f) else ((f.answers 0).bytes.take request, f.next)

/-- The value as an `int`. -/
def asInt (i : Int) : Int := i.bmod (2 ^ 32)

/-- The value as a `size_t`. -/
def asSize (i : Int) : Nat := (i % 2 ^ 64).toNat

/-- `pmalloc` from a pool without a heap. `malloc` gets room for the block and for its
tracker, which is stored behind the block, and is asked again until it gives some. -/
def pmalloc (size : Int) : Option (Block Char) :=
  if size + pfreeSize < 0 then none else some ⟨size, fun _ => none, decide (size < 0)⟩

/-- `ap_snprintf` into a block. The end of a buffer of no bytes lies before its beginning,
so nothing is stored there. -/
def snprintfInto (ret : Block Char) (maxsize : Int) (text : CString) : Block Char × Nat :=
  if maxsize ≤ 0 then (ret, 0)
  else (ret.puts 0 (apSnprintf maxsize.toNat text ++ [nul]), (apSnprintf maxsize.toNat text).length)

/-- `while (!feof(f)) count += fread(ret + count, 1, maxsize - count, f)`. It is `none`
when more than `fuel` reads are needed. -/
def readLoop : Nat → Int → Block Char → Nat → File → Option (Block Char × Nat)
  | 0, _, ret, count, f => if f.eof then some (ret, count) else none
  | fuel + 1, maxsize, ret, count, f =>
      if f.eof then some (ret, count)
      else
        let got := fread f (asSize (maxsize - count))
        readLoop fuel maxsize (ret.puts count got.1) (count + got.1.length) got.2

/-- The branch of a file that is open, where `fstat` gives the size. -/
def makeBytesFile (fuel : Nat) (h : CString) (stSize : Int) (f : File) : Option (Block Char) :=
  let maxsize := asInt (stSize + 1 + h.length)
  (pmalloc maxsize).bind fun ret =>
    let prefixed := snprintfInto ret maxsize h
    (readLoop fuel maxsize prefixed.1 prefixed.2 f).map fun read => read.1.put read.2 nul

def makeBytesText (h text : CString) : Option (Block Char) :=
  let maxsize := asInt (h.length + text.length + 1)
  (pmalloc maxsize).map fun ret => (snprintfInto ret maxsize (h ++ text)).1

/-- What the loop over the random numbers stores from `count` on. -/
def randomRun (maxsize : Int) (count : Nat) (random : Nat → Nat) : CString :=
  (List.range (maxsize - 1 - count).toNat).map fun n => Char.ofNat (random n % 255 + 1)

def makeBytesRandom (h : CString) (len : Int) (random : Nat → Nat) : Option (Block Char) :=
  let maxsize := asInt (h.length + len)
  (pmalloc maxsize).map fun ret =>
    let prefixed := snprintfInto ret maxsize h
    let run := randomRun maxsize prefixed.2 random
    (prefixed.1.puts prefixed.2 run).put (prefixed.2 + run.length) nul

/-- What `fopen` and `fstat` tell of a file. -/
structure OpenFile where
  stSize : Int
  answers : Nat → FreadAnswer

def OpenFile.stream (o : OpenFile) : File := ⟨o.answers, false, false⟩

/-- The block for the source `x`, if it takes no more than `fuel` reads. A file that cannot
be opened gives NULL, and a missing source ends the program. -/
def makeBytesBlock (fuel : Nat) (h : CString) (x : Option XmlNode) (fopen : CString → Option OpenFile)
    (random : Nat → Nat) : Option (Option (Block Char)) :=
  if (xmlnodeGetTag x (cstr "text")).isSome then
    (makeBytesText h ((xmlnodeGetTagData x (cstr "text")).getD [])).map some
  else if (xmlnodeGetTag x (cstr "file")).isSome then
    match (xmlnodeGetTagData x (cstr "file")).bind fopen with
    | none => some none
    | some o => (makeBytesFile fuel h o.stSize o.stream).map some
  else if (xmlnodeGetTag x (cstr "random_stream")).isSome then
    (makeBytesRandom h (jAtoi (xmlnodeGetAttrib x (cstr "len")) 1) random).map some
  else none

/-- The block holds `s` and its terminator, and no store missed it. -/
structure Holds (b : Block Char) (s : CString) : Prop where
  inside : b.overrun = false
  room : s.length < b.size
  cells : b.Begins (s ++ [nul])

section Sizes

theorem asInt_lt (i : Int) : asInt i < 2 ^ 31 := Int.bmod_lt (by decide)

theorem asInt_of_small {i : Int} (low : -2 ^ 31 ≤ i) (high : i < 2 ^ 31) : asInt i = i := by
  unfold asInt
  exact Int.bmod_eq_of_le (by omega) (by omega)

theorem asInt_eq_iff {i j : Int} (low : -2 ^ 31 ≤ j) (high : j < 2 ^ 31) :
    asInt i = j ↔ (i - j) % 2 ^ 32 = 0 := by
  unfold asInt
  rw [Int.bmod_def]
  split <;> omega

theorem jAtoi_bounds (a : Option CString) : -2 ^ 31 ≤ jAtoi a 1 ∧ jAtoi a 1 < 2 ^ 31 := by
  cases a with
  | none => decide
  | some s => exact ⟨Int.le_bmod (by decide), Int.bmod_lt (by decide)⟩

end Sizes

section Stores

variable {ret : Block Char} {size maxsize : Int} {s : CString}

theorem pmalloc_room (some_ : 0 ≤ size) : pmalloc size = some ⟨size, fun _ => none, false⟩ := by
  rw [pmalloc, if_neg (by unfold pfreeSize; omega), decide_eq_false (by omega)]

theorem size_of_pmalloc (given : pmalloc size = some ret) : ret.size = size := by
  unfold pmalloc at given
  split at given
  · cases given
  · cases given
    rfl

theorem size_snprintfInto : (snprintfInto ret maxsize s).1.size = ret.size := by
  unfold snprintfInto
  split
  · rfl
  · exact Block.size_puts

theorem snprintfInto_whole (fits : (s.length : Int) < maxsize) :
    snprintfInto ret maxsize s = (ret.puts 0 (s ++ [nul]), s.length) := by
  rw [snprintfInto, if_neg (by omega), apSnprintf_of_le (by omega)]

/-- A text that fits into a new block fills it. -/
theorem holds_new (fits : (s.length : Int) < size) :
    Holds ((⟨size, fun _ => none, false⟩ : Block Char).puts 0 (s ++ [nul])) s := by
  constructor
  · rw [Bool.eq_false_iff, ne_eq, Block.overrun_puts]
    simp only [Bool.false_eq_true, false_or, List.length_append, List.length_singleton, not_and, not_lt]
    omega
  · rw [Block.size_puts]
    exact fits
  · exact Block.begins_nil.puts (l := [])

/-- The text source fills its block unless its size is too large for an `int`. -/
theorem makeBytesText_iff {h text : CString} :
    (∃ b, makeBytesText h text = some b ∧ Holds b (h ++ text)) ↔ h.length + text.length + 1 < 2 ^ 31 := by
  constructor
  · rintro ⟨b, made, filled⟩
    rw [makeBytesText, Option.map_eq_some_iff] at made
    obtain ⟨ret, given, rfl⟩ := made
    have room := filled.room
    rw [size_snprintfInto, size_of_pmalloc given, List.length_append] at room
    have bound := asInt_lt (h.length + text.length + 1)
    omega
  · intro small
    have size : asInt (h.length + text.length + 1) = (h ++ text).length + 1 := by
      rw [asInt_of_small (by omega) (by omega), List.length_append]
      omega
    refine ⟨_, ?_, holds_new (s := h ++ text) (Int.lt_succ _)⟩
    rw [makeBytesText, size, pmalloc_room (by omega)]
    dsimp only [Option.map_some]
    rw [snprintfInto_whole (Int.lt_succ _)]

end Stores

section Reading

variable {ret : Block Char} {maxsize : Int} {count : Nat} {f : File}

/-- What the first `n` calls of `fread` find. -/
def readBytes (answers : Nat → FreadAnswer) (n : Nat) : CString :=
  (List.range n).flatMap fun i => (answers i).bytes

theorem readBytes_succ (answers : Nat → FreadAnswer) (n : Nat) :
    readBytes answers (n + 1) = (answers 0).bytes ++ readBytes (fun i => answers (i + 1)) n := by
  unfold readBytes
  rw [List.range_succ_eq_map, List.flatMap_cons, List.flatMap_map]

/-- The first call that finds the end of the file. -/
structure EndsAt (answers : Nat → FreadAnswer) (n : Nat) : Prop where
  last : (answers n).eof = true
  first : ∀ m < n, (answers m).eof = false

theorem EndsAt.tail {answers : Nat → FreadAnswer} {n : Nat} (ends : EndsAt answers (n + 1)) :
    EndsAt (fun i => answers (i + 1)) n :=
  ⟨ends.last, fun m early => ends.first (m + 1) (Nat.succ_lt_succ early)⟩

/-- While there is room the request is for all of it. -/
theorem readLoop_step {fuel : Nat} (opened : f.eof = false) (room : (count : Int) < maxsize)
    (small : maxsize < 2 ^ 31) : readLoop (fuel + 1) maxsize ret count f =
      readLoop fuel maxsize (ret.puts count ((f.answers 0).bytes.take (maxsize - count).toNat))
        (count + ((f.answers 0).bytes.take (maxsize - count).toNat).length) f.next := by
  have request : asSize (maxsize - count) = (maxsize - count).toNat := by
    unfold asSize
    omega
  rw [readLoop, opened, if_neg (by simp), request, fread, if_neg (by omega)]

theorem readLoop_done {fuel : Nat} (ended : f.eof = true) :
    readLoop fuel maxsize ret count f = some (ret, count) := by
  cases fuel with
  | zero => rw [readLoop, if_pos ended]
  | succ fuel => rw [readLoop, if_pos ended]

/-- The induction is on the number of reads before the end of the file. -/
theorem readLoop_ends {n : Nat} {l : CString} (opened : f.eof = false) (ends : EndsAt f.answers n)
    (begins : ret.Begins l) (size : ret.size = maxsize) (sound : ret.overrun = false)
    (room : (l.length + (readBytes f.answers (n + 1)).length : Int) < maxsize) (small : maxsize < 2 ^ 31) :
    ∃ ret', readLoop (n + 1) maxsize ret l.length f =
        some (ret', (l ++ readBytes f.answers (n + 1)).length) ∧
      ret'.Begins (l ++ readBytes f.answers (n + 1)) ∧ ret'.size = maxsize ∧ ret'.overrun = false := by
  induction n generalizing ret l f with
  | zero =>
    have all : readBytes f.answers 1 = (f.answers 0).bytes := by
      rw [readBytes_succ]
      exact List.append_nil _
    rw [all] at room ⊢
    have whole : (f.answers 0).bytes.take (maxsize - l.length).toNat = (f.answers 0).bytes :=
      List.take_of_length_le (by omega)
    have ended : f.next.eof = true := by
      rw [File.next, ends.last, Bool.or_true]
    refine ⟨_, ?_, begins.puts, by rw [Block.size_puts, size], ?_⟩
    · rw [readLoop_step opened (by omega) small, whole, readLoop_done ended, List.length_append]
    · rw [Bool.eq_false_iff, ne_eq, Block.overrun_puts, sound, size]
      simp only [Bool.false_eq_true, false_or, not_and, not_lt]
      omega
  | succ n ih =>
    have more : f.next.eof = false := by
      rw [File.next, opened, ends.first 0 (Nat.succ_pos n), Bool.or_false]
    have split := readBytes_succ f.answers (n + 1)
    rw [split, List.length_append] at room
    have whole : (f.answers 0).bytes.take (maxsize - l.length).toNat = (f.answers 0).bytes :=
      List.take_of_length_le (by omega)
    have stored : (ret.puts l.length (f.answers 0).bytes).overrun = false := by
      rw [Bool.eq_false_iff, ne_eq, Block.overrun_puts, sound, size]
      simp only [Bool.false_eq_true, false_or, not_and, not_lt]
      omega
    have later := ih (f := f.next)
      (l := l ++ (f.answers 0).bytes) more ends.tail begins.puts (by rw [Block.size_puts, size]) stored
      (by
        rw [List.length_append]
        change ((l.length + (f.answers 0).bytes.length : Nat) +
          (readBytes (fun i => f.answers (i + 1)) (n + 1)).length : Int) < maxsize
        omega)
    obtain ⟨ret', ran, begins', size', sound'⟩ := later
    rw [split, ← List.append_assoc]
    refine ⟨ret', ?_, begins', size', sound'⟩
    rw [readLoop_step opened (by omega) small, whole, ← List.length_append]
    exact ran

theorem readLoop_grows {fuel : Nat} {ret' : Block Char} {count' : Nat}
    (ran : readLoop fuel maxsize ret count f = some (ret', count')) :
    count ≤ count' ∧ ret'.size = ret.size := by
  induction fuel generalizing ret count f with
  | zero =>
    rw [readLoop] at ran
    split at ran
    · cases ran
      exact ⟨Nat.le_refl _, rfl⟩
    · cases ran
  | succ fuel ih =>
    rw [readLoop] at ran
    split at ran
    · cases ran
      exact ⟨Nat.le_refl _, rfl⟩
    · obtain ⟨grown, size⟩ := ih ran
      exact ⟨Nat.le_of_add_right_le grown, size.trans Block.size_puts⟩

/-- A loop that leaves room in the block met the end of the file. The induction is on the
reads that were made. -/
theorem readLoop_met {fuel : Nat} {ret' : Block Char} {count' : Nat} (opened : f.eof = false)
    (ran : readLoop fuel maxsize ret count f = some (ret', count')) (room : (count' : Int) < maxsize)
    (small : maxsize < 2 ^ 31) :
    ∃ n, EndsAt f.answers n ∧ count' = count + (readBytes f.answers (n + 1)).length := by
  induction fuel generalizing ret count f with
  | zero =>
    rw [readLoop, opened, if_neg (by simp)] at ran
    cases ran
  | succ fuel ih =>
    have grown := (readLoop_grows ran).1
    rw [readLoop_step opened (by omega) small] at ran
    have later := (readLoop_grows ran).1
    rw [List.length_take] at later
    -- there was room for more than came
    have whole : (f.answers 0).bytes.take (maxsize - count).toNat = (f.answers 0).bytes :=
      List.take_of_length_le (by omega)
    rw [whole] at ran
    cases ended : (f.answers 0).eof with
    | true =>
      have last : f.next.eof = true := by
        rw [File.next, ended, Bool.or_true]
      rw [readLoop_done last] at ran
      cases ran
      refine ⟨0, ⟨ended, fun m early => absurd early (Nat.not_lt_zero m)⟩, ?_⟩
      rw [readBytes_succ, List.length_append]
      rfl
    | false =>
      have more : f.next.eof = false := by
        rw [File.next, opened, ended, Bool.or_false]
      obtain ⟨n, ends, total⟩ := ih more ran
      refine ⟨n + 1, ⟨ends.last, fun m early => ?_⟩, ?_⟩
      · cases m with
        | zero => exact ended
        | succ m => exact ends.first m (Nat.lt_of_succ_lt_succ early)
      · rw [readBytes_succ, List.length_append, ← Nat.add_assoc]
        exact total

end Reading

section Files

variable {h : CString} {stSize : Int} {answers : Nat → FreadAnswer}

/-- The end of the file is met while there is still room for the terminator behind the
header and what was read. -/
def InTime (h : CString) (stSize : Int) (answers : Nat → FreadAnswer) : Prop :=
  0 < asInt (stSize + 1 + h.length) ∧ ∃ n, EndsAt answers n ∧
    ((apSnprintf (asInt (stSize + 1 + h.length)).toNat h).length +
      (readBytes answers (n + 1)).length : Int) < asInt (stSize + 1 + h.length)

/-- What a file in time leaves in the block. -/
theorem makeBytesFile_read {n : Nat} (ends : EndsAt answers n)
    (positive : 0 < asInt (stSize + 1 + h.length))
    (room : ((apSnprintf (asInt (stSize + 1 + h.length)).toNat h).length +
      (readBytes answers (n + 1)).length : Int) < asInt (stSize + 1 + h.length)) :
    ∃ b, makeBytesFile (n + 1) h stSize ⟨answers, false, false⟩ = some b ∧
      Holds b (apSnprintf (asInt (stSize + 1 + h.length)).toNat h ++ readBytes answers (n + 1)) := by
  have small := asInt_lt (stSize + 1 + h.length)
  unfold makeBytesFile
  generalize asInt (stSize + 1 + h.length) = maxsize at positive room small ⊢
  dsimp only
  rw [pmalloc_room (by omega), Option.bind_some, snprintfInto, if_neg (by omega)]
  generalize apSnprintf maxsize.toNat h = l at room ⊢
  have begun : Holds ((⟨maxsize, fun _ => none, false⟩ : Block Char).puts 0 (l ++ [nul])) l :=
    holds_new (by omega)
  obtain ⟨ret', ran, begins, size, sound⟩ := readLoop_ends (f := ⟨answers, false, false⟩) rfl ends
    begun.cells.of_append Block.size_puts begun.inside room small
  refine ⟨_, by rw [ran]; rfl, ?_, ?_, begins.put⟩
  · have last : ((l.length + (readBytes answers (n + 1)).length : Nat) : Int) < ret'.size := by
      rw [size]
      change _ < maxsize
      omega
    rw [Bool.eq_false_iff, ne_eq, Block.overrun_put, sound, List.length_append]
    simpa using last
  · rw [Block.size_put, size, List.length_append]
    change _ < maxsize
    omega

/-- Reading a file comes to its end inside the block exactly if the end of the file is met
in time. -/
theorem makeBytesFile_bounded_iff (h : CString) (stSize : Int) (answers : Nat → FreadAnswer) :
    (∃ fuel b, makeBytesFile fuel h stSize ⟨answers, false, false⟩ = some b ∧ b.overrun = false) ↔
      InTime h stSize answers := by
  constructor
  · rintro ⟨fuel, b, made, inside⟩
    unfold makeBytesFile at made
    unfold InTime
    have small := asInt_lt (stSize + 1 + h.length)
    generalize asInt (stSize + 1 + h.length) = maxsize at made small ⊢
    dsimp only at made
    rw [Option.bind_eq_some_iff] at made
    obtain ⟨ret, given, made⟩ := made
    rw [Option.map_eq_some_iff] at made
    obtain ⟨⟨ret', count'⟩, ran, rfl⟩ := made
    have size := (readLoop_grows ran).2
    rw [size_snprintfInto, size_of_pmalloc given] at size
    rw [Bool.eq_false_iff, ne_eq, Block.overrun_put, not_or, not_le, size] at inside
    have positive : 0 < maxsize := by omega
    obtain ⟨n, ends, total⟩ := readLoop_met rfl ran inside.2 small
    refine ⟨positive, n, ends, ?_⟩
    rw [snprintfInto, if_neg (by omega)] at total
    have last := inside.2
    dsimp only at last total
    omega
  · rintro ⟨positive, n, ends, room⟩
    obtain ⟨b, made, filled⟩ := makeBytesFile_read ends positive room
    exact ⟨n + 1, b, made, filled.inside⟩

/-- A file that stays as it is while it is read. -/
def OpenFile.Delivers (o : OpenFile) (content : CString) : Prop :=
  o.stSize = content.length ∧ ∃ n, EndsAt o.answers n ∧ readBytes o.answers (n + 1) = content

theorem makeBytesFile_iff {o : OpenFile} {content : CString} (delivers : o.Delivers content) :
    (∃ fuel b, makeBytesFile fuel h o.stSize o.stream = some b ∧ Holds b (h ++ content)) ↔
      h.length + content.length + 1 < 2 ^ 31 := by
  obtain ⟨sized, n, ends, whole⟩ := delivers
  rw [sized]
  constructor
  · rintro ⟨fuel, b, made, filled⟩
    unfold makeBytesFile at made
    dsimp only at made
    rw [Option.bind_eq_some_iff] at made
    obtain ⟨ret, given, made⟩ := made
    rw [Option.map_eq_some_iff] at made
    obtain ⟨⟨ret', count'⟩, ran, rfl⟩ := made
    have room := filled.room
    rw [Block.size_put, (readLoop_grows ran).2, size_snprintfInto, size_of_pmalloc given,
      List.length_append] at room
    have bound := asInt_lt (content.length + 1 + h.length)
    omega
  · intro small
    have size : asInt ((content.length : Int) + 1 + h.length) = h.length + content.length + 1 := by
      rw [asInt_of_small (by omega) (by omega)]
      omega
    have header : apSnprintf (asInt ((content.length : Int) + 1 + h.length)).toNat h = h :=
      apSnprintf_of_le (by omega)
    have positive : 0 < asInt (content.length + 1 + h.length) := by omega
    obtain ⟨b, made, filled⟩ := makeBytesFile_read ends positive (by rw [header, whole, size]; omega)
    rw [header, whole] at filled
    exact ⟨n + 1, b, made, filled⟩

/-- A directory can be opened, and reading it fails again and again. -/
def unreadable : Nat → FreadAnswer := fun _ => ⟨[], false, true⟩

theorem makeBytesFile_unreadable : ¬∀ h stSize answers, ∃ fuel b,
    makeBytesFile fuel h stSize ⟨answers, false, false⟩ = some b ∧ b.overrun = false := by
  intro claim
  obtain ⟨fuel, b, made, inside⟩ := claim [] 4096 unreadable
  have size : asInt (4096 + 1 + ([] : CString).length) = 4097 := by decide
  unfold makeBytesFile at made
  dsimp only at made
  rw [size, pmalloc_room (by decide), Option.bind_some, Option.map_eq_some_iff] at made
  obtain ⟨⟨ret', count'⟩, ran, rfl⟩ := made
  rw [Bool.eq_false_iff, ne_eq, Block.overrun_put, not_or, not_le, (readLoop_grows ran).2,
    size_snprintfInto] at inside
  obtain ⟨n, ends, _⟩ := readLoop_met rfl ran inside.2 (by decide)
  cases ends.last

end Files

section Streams

variable {h : CString} {len : Int} {random : Nat → Nat}

theorem length_randomRun (random : Nat → Nat) (maxsize : Int) (count : Nat) :
    (randomRun maxsize count random).length = (maxsize - 1 - count).toNat := by
  rw [randomRun, List.length_map, List.length_range]

theorem nul_not_mem_randomRun (maxsize : Int) (count : Nat) : nul ∉ randomRun maxsize count random := by
  intro mem
  rw [randomRun, List.mem_map] at mem
  obtain ⟨n, _, byte⟩ := mem
  have code := congrArg Char.toNat byte
  rw [toNat_ofNat_byte (by omega)] at code
  have zero : nul.toNat = 0 := rfl
  omega

/-- What is in the block when the header fits. -/
theorem makeBytesRandom_holds (random : Nat → Nat) (fits : (h.length : Int) < asInt (h.length + len)) :
    ∃ b, makeBytesRandom h len random = some b ∧
      Holds b (h ++ randomRun (asInt (h.length + len)) h.length random) := by
  unfold makeBytesRandom
  generalize asInt (h.length + len) = maxsize at fits ⊢
  dsimp only
  rw [pmalloc_room (by omega), Option.map_some, snprintfInto_whole fits]
  dsimp only
  have begun : Holds ((⟨maxsize, fun _ => none, false⟩ : Block Char).puts 0 (h ++ [nul])) h :=
    holds_new fits
  have run := length_randomRun random maxsize h.length
  generalize randomRun maxsize h.length random = bytes at run ⊢
  have whole := begun.cells.of_append.puts (m := bytes)
  have total : ((h.length + bytes.length : Nat) : Int) = maxsize - 1 := by omega
  refine ⟨_, rfl, ?_, ?_, ?_⟩
  · rw [Bool.eq_false_iff, ne_eq, Block.overrun_put, Block.overrun_puts, begun.inside, Block.size_puts,
      Block.size_puts, Block.size_puts]
    change ¬((false = true ∨ bytes ≠ [] ∧ maxsize < ((h.length + bytes.length : Nat) : Int)) ∨
      maxsize ≤ ((h.length + bytes.length : Nat) : Int))
    rintro ((no | ⟨_, past⟩) | past)
    · cases no
    · omega
    · omega
  · rw [Block.size_put, Block.size_puts, Block.size_puts, List.length_append]
    change _ < maxsize
    omega
  · have last := whole.put (a := nul)
    rwa [List.length_append] at last

/-- The stream has the length `n` exactly if the size is for it. -/
theorem makeBytesRandom_iff (len_small : -2 ^ 31 ≤ len ∧ len < 2 ^ 31) (n : Nat) :
    (∃ b bytes, makeBytesRandom h len random = some b ∧ bytes.length = n ∧ nul ∉ bytes ∧
      Holds b (h ++ bytes)) ↔ len = n + 1 ∧ h.length + n + 1 < 2 ^ 31 := by
  have size : ∀ b, makeBytesRandom h len random = some b → b.size = asInt (h.length + len) := by
    intro b made
    rw [makeBytesRandom, Option.map_eq_some_iff] at made
    obtain ⟨ret, given, rfl⟩ := made
    rw [Block.size_put, Block.size_puts, size_snprintfInto, size_of_pmalloc given]
  constructor
  · rintro ⟨b, bytes, made, rfl, nonzero, filled⟩
    have room := filled.room
    rw [size b made, List.length_append] at room
    have bound := asInt_lt (h.length + len)
    have fits : (h.length : Int) < asInt (h.length + len) := by omega
    obtain ⟨b', made', filled'⟩ := makeBytesRandom_holds random fits
    cases made.symm.trans made'
    have run := length_randomRun random (asInt (h.length + len)) h.length
    -- a longer run has a byte that is not zero where the terminator should be
    have same : bytes.length = (randomRun (asInt (h.length + len)) h.length random).length := by
      by_contra differ
      have longer : bytes.length < (randomRun (asInt (h.length + len)) h.length random).length := by omega
      have here := filled.cells (h.length + bytes.length) (by simp)
      have there := filled'.cells (h.length + bytes.length) (by simp; omega)
      rw [here, List.getElem?_append_right (by simp), List.append_assoc,
        List.getElem?_append_right (Nat.le_add_right _ _), List.getElem?_append_left (by omega),
        Nat.add_sub_cancel_left] at there
      have terminator : ([nul] : CString)[h.length + bytes.length - (h ++ bytes).length]? = some nul := by
        simp
      rw [terminator] at there
      exact nul_not_mem_randomRun _ _ (List.mem_of_getElem? there.symm)
    have whole : asInt (h.length + len) = h.length + bytes.length + 1 := by omega
    rw [asInt_eq_iff (by omega) (by omega)] at whole
    omega
  · rintro ⟨rfl, small⟩
    have exact_ : asInt (h.length + ((n : Int) + 1)) = h.length + n + 1 := by
      rw [asInt_of_small (by omega) (by omega)]
      omega
    have fits : (h.length : Int) < asInt (h.length + ((n : Int) + 1)) := by omega
    obtain ⟨b, made, filled⟩ := makeBytesRandom_holds random fits
    refine ⟨b, _, made, ?_, nul_not_mem_randomRun _ _, filled⟩
    rw [length_randomRun]
    omega

end Streams

section Contents

variable {h : CString} {x : Option XmlNode} {fopen : CString → Option OpenFile} {random : Nat → Nat}

/-- `makeBytes_defined_in_xml` gives back a block with the bytes `s`. -/
def Returns (h : CString) (x : Option XmlNode) (fopen : CString → Option OpenFile) (random : Nat → Nat)
    (s : CString) : Prop :=
  ∃ fuel b, makeBytesBlock fuel h x fopen random = some (some b) ∧ Holds b s

theorem returns_text (text : (xmlnodeGetTag x (cstr "text")).isSome) (s : CString) :
    Returns h x fopen random s ↔
      ∃ b, makeBytesText h ((xmlnodeGetTagData x (cstr "text")).getD []) = some b ∧ Holds b s := by
  unfold Returns makeBytesBlock
  constructor
  · rintro ⟨fuel, b, made, filled⟩
    rw [if_pos text, Option.map_eq_some_iff] at made
    obtain ⟨b', made, same⟩ := made
    cases same
    exact ⟨b, made, filled⟩
  · rintro ⟨b, made, filled⟩
    exact ⟨0, b, by rw [if_pos text, made]; rfl, filled⟩

theorem returns_file {name : CString} {o : OpenFile} (text : xmlnodeGetTag x (cstr "text") = none)
    (named : xmlnodeGetTagData x (cstr "file") = some name) (opened : fopen name = some o) (s : CString) :
    Returns h x fopen random s ↔ ∃ fuel b, makeBytesFile fuel h o.stSize o.stream = some b ∧ Holds b s := by
  have file : (xmlnodeGetTag x (cstr "file")).isSome := by
    cases found : xmlnodeGetTag x (cstr "file") with
    | some _ => rfl
    | none =>
      rw [xmlnodeGetTagData, found] at named
      cases named
  unfold Returns makeBytesBlock
  rw [text, named, Option.bind_some, opened]
  constructor
  · rintro ⟨fuel, b, made, filled⟩
    rw [if_neg (by simp), if_pos file, Option.map_eq_some_iff] at made
    obtain ⟨b', made, same⟩ := made
    cases same
    exact ⟨fuel, b, made, filled⟩
  · rintro ⟨fuel, b, made, filled⟩
    refine ⟨fuel, b, ?_, filled⟩
    rw [if_neg (by simp), if_pos file]
    simp only [made, Option.map_some]

theorem returns_stream (text : xmlnodeGetTag x (cstr "text") = none)
    (file : xmlnodeGetTag x (cstr "file") = none)
    (stream : (xmlnodeGetTag x (cstr "random_stream")).isSome) (s : CString) :
    Returns h x fopen random s ↔
      ∃ b, makeBytesRandom h (jAtoi (xmlnodeGetAttrib x (cstr "len")) 1) random = some b ∧ Holds b s := by
  unfold Returns makeBytesBlock
  rw [text, file]
  constructor
  · rintro ⟨fuel, b, made, filled⟩
    rw [if_neg (by simp), if_neg (by simp), if_pos stream, Option.map_eq_some_iff] at made
    obtain ⟨b', made, same⟩ := made
    cases same
    exact ⟨b, made, filled⟩
  · rintro ⟨b, made, filled⟩
    exact ⟨0, b, by rw [if_neg (by simp), if_neg (by simp), if_pos stream, made]; rfl, filled⟩

/-- A text and a file are given back whole, as far as an `int` counts them. A random stream
has its length only if the event itself carries a `len` that is larger by one. -/
theorem makeBytes_content_iff (h : CString) (x : Option XmlNode) (fopen : CString → Option OpenFile)
    (random : Nat → Nat) :
    ((xmlnodeGetTag x (cstr "text")).isSome →
      (Returns h x fopen random (h ++ (xmlnodeGetTagData x (cstr "text")).getD []) ↔
        h.length + ((xmlnodeGetTagData x (cstr "text")).getD []).length + 1 < 2 ^ 31)) ∧
    (xmlnodeGetTag x (cstr "text") = none → ∀ name o content,
      xmlnodeGetTagData x (cstr "file") = some name → fopen name = some o → o.Delivers content →
      (Returns h x fopen random (h ++ content) ↔ h.length + content.length + 1 < 2 ^ 31)) ∧
    (xmlnodeGetTag x (cstr "text") = none → xmlnodeGetTag x (cstr "file") = none → ∀ stream n,
      xmlnodeGetTag x (cstr "random_stream") = some stream →
      xmlnodeGetAttrib (some stream) (cstr "len") = some (conv10 n) →
      ((∃ bytes, bytes.length = n ∧ nul ∉ bytes ∧ Returns h x fopen random (h ++ bytes)) ↔
        jAtoi (xmlnodeGetAttrib x (cstr "len")) 1 = n + 1 ∧ h.length + n + 1 < 2 ^ 31)) := by
  refine ⟨fun text => ?_, fun text name o content named opened delivers => ?_,
    fun text file stream n streamed _ => ?_⟩
  · rw [returns_text text]
    exact makeBytesText_iff
  · rw [returns_file text named opened]
    exact makeBytesFile_iff delivers
  · have asked : (xmlnodeGetTag x (cstr "random_stream")).isSome := by
      rw [streamed]
      rfl
    rw [← makeBytesRandom_iff (h := h) (jAtoi_bounds _) n]
    constructor
    · rintro ⟨bytes, long, nonzero, returned⟩
      obtain ⟨b, made, filled⟩ := (returns_stream text file asked _).mp returned
      exact ⟨b, bytes, made, long, nonzero, filled⟩
    · rintro ⟨b, bytes, made, long, nonzero, filled⟩
      exact ⟨bytes, long, nonzero, (returns_stream text file asked _).mpr ⟨b, made, filled⟩⟩

/-- An event that asks for a random stream of five bytes. -/
def streamEvent : XmlNode :=
  .tag (cstr "event") [] [.tag (cstr "random_stream") [(cstr "len", cstr "5")] []]

theorem makeBytes_content_hello :
    Returns [] (some (.tag (cstr "event") [] [.tag (cstr "text") [] [.cdata (cstr "hello")]]))
      (fun _ => none) (fun _ => 0) (cstr "hello") ∧
    ∃ bytes, bytes.length = 5 ∧ nul ∉ bytes ∧
      Returns [] (some (.tag (cstr "event") [(cstr "len", cstr "6")]
        [.tag (cstr "random_stream") [(cstr "len", cstr "5")] []])) (fun _ => none) (fun _ => 0) ([] ++ bytes) := by
  obtain ⟨text, _⟩ := makeBytes_content_iff [] (some (.tag (cstr "event") []
    [.tag (cstr "text") [] [.cdata (cstr "hello")]])) (fun _ => none) (fun _ => 0)
  obtain ⟨_, _, stream⟩ := makeBytes_content_iff [] (some (.tag (cstr "event") [(cstr "len", cstr "6")]
    [.tag (cstr "random_stream") [(cstr "len", cstr "5")] []])) (fun _ => none) (fun _ => 0)
  constructor
  · exact (text (by decide)).mpr (by decide)
  · exact (stream (by decide) (by decide) (.tag (cstr "random_stream") [(cstr "len", cstr "5")] []) 5
      (by decide) (by decide)).mpr (by decide)

/-- It gets none. -/
theorem makeBytes_content_short : ¬∀ h x fopen random stream n,
    xmlnodeGetTag x (cstr "text") = none → xmlnodeGetTag x (cstr "file") = none →
    xmlnodeGetTag x (cstr "random_stream") = some stream →
    xmlnodeGetAttrib (some stream) (cstr "len") = some (conv10 n) →
    ∃ bytes, bytes.length = n ∧ nul ∉ bytes ∧ Returns h x fopen random (h ++ bytes) := by
  intro claim
  obtain ⟨bytes, long, nonzero, returned⟩ := claim [] (some streamEvent) (fun _ => none) (fun _ => 0)
    (.tag (cstr "random_stream") [(cstr "len", cstr "5")] []) 5 (by decide) (by decide) (by decide) (by decide)
  obtain ⟨b, made, filled⟩ := (returns_stream (by decide) (by decide) (by decide) _).mp returned
  have size := (makeBytesRandom_iff (jAtoi_bounds _) 5).mp ⟨b, bytes, made, long, nonzero, filled⟩
  have one : jAtoi (xmlnodeGetAttrib (some streamEvent) (cstr "len")) 1 = 1 := by decide
  rw [one] at size
  omega

end Contents

section Callers

variable {u : UserPtr} {x : Option XmlNode} {jidTo : Option CString} {h r : CString} {w w₁ w' : World}

/-- The draws of a stream are the next ones of the generator. -/
theorem randomBytes_apply (n : Nat) (w : World) : ∃ w', randomBytes n w =
    .ok ((List.range n).map fun i => Char.ofNat (w.env.random i % 255 + 1)) w' := by
  induction n generalizing w with
  | zero => exact ⟨w, rfl⟩
  | succ n ih =>
    obtain ⟨w', ran⟩ := ih (w.withEnv { w.env with random := fun n => w.env.random (n + 1) })
    have drawn : random w = .ok (w.env.random 0)
      (w.withEnv { w.env with random := fun n => w.env.random (n + 1) }) := rfl
    refine ⟨w', ?_⟩
    simp only [randomBytes, bind_apply, drawn, ran]
    rw [List.range_succ_eq_map, List.map_cons, List.map_map]
    rfl

/-- The file system at the level of streams is the one that a world has. -/
structure Agrees (files : CString → Option CString) (fopen : CString → Option OpenFile) : Prop where
  opened : ∀ name content, files name = some content →
    ∃ o, fopen name = some o ∧ o.Delivers content ∧ content.length < 2 ^ 30

theorem Holds.begins_of_prefix {b : Block Char} {s t : CString} (filled : Holds b s)
    (isPrefix : t <+: s ++ [nul]) : b.Begins t := by
  obtain ⟨rest, whole⟩ := isPrefix
  have cells := filled.cells
  rw [← whole] at cells
  exact cells.of_append

/-- The part of a file before its first zero and a terminator begin the file and its
terminator. -/
theorem takeWhile_terminated (content : CString) :
    content.takeWhile (·.toNat ≠ 0) ++ [nul] <+: content ++ [nul] := by
  induction content with
  | nil => exact List.prefix_refl _
  | cons c content ih =>
    by_cases zero : c.toNat = 0
    · have same : c = nul := Char.toNat_inj.mp zero
      rw [List.takeWhile_cons, if_neg (by simpa using zero), same]
      exact ⟨content ++ [nul], rfl⟩
    · rw [List.takeWhile_cons, if_pos (by simpa using zero)]
      exact List.prefix_cons_inj c |>.mpr ih

/-- The header fits into the buffer on the stack. -/
theorem debugPrefix_small (written : debugPrefix u x jidTo w = .ok h w₁) : h.length < 1000 := by
  unfold debugPrefix at written
  cases asked : xmlnodeGetTag x (cstr "prepend_with_debug_info") with
  | none =>
    rw [asked] at written
    cases written
    decide
  | some _ =>
    have timed : gettimeofday w =
      .ok (w.env.clock 0) (w.withEnv { w.env with clock := fun n => w.env.clock (n + 1) }) := rfl
    rw [asked] at written
    dsimp only at written
    rw [bind_apply, timed] at written
    cases jidTo with
    | none => cases written
    | some jidTo =>
      simp only [bind_apply, getUser_apply] at written
      split at written
      · rename_i small
        cases written
        exact small
      · cases written

/-- What a run hands on is the string that its block begins with. -/
theorem makeBytes_block {fopen : CString → Option OpenFile} (written : debugPrefix u x jidTo w = .ok h w₁)
    (agrees : Agrees w.env.files fopen)
    (text_small : ((xmlnodeGetTagData x (cstr "text")).getD []).length < 2 ^ 30)
    (len_positive : 0 < jAtoi (xmlnodeGetAttrib x (cstr "len")) 1)
    (len_small : jAtoi (xmlnodeGetAttrib x (cstr "len")) 1 < 2 ^ 30)
    (ran : makeBytesDefinedInXml u x jidTo w = .ok (some r) w') :
    ∃ fuel b, makeBytesBlock fuel h x fopen w₁.env.random = some (some b) ∧ b.overrun = false ∧
      b.Begins (r ++ [nul]) := by
  have header_small := debugPrefix_small written
  have files : w₁.env.files = w.env.files := by
    obtain ⟨env, files, same⟩ := Draws.debugPrefix u x jidTo w h w₁ written
    rw [same]
    exact files
  rw [makeBytesDefinedInXml, bind_apply, written] at ran
  dsimp only at ran
  split at ran
  · rename_i text
    cases ran
    rw [apSnprintf_of_le (by simp)]
    obtain ⟨fuel, b, made, filled⟩ := (returns_text text _).mpr
      (makeBytesText_iff (h := h) |>.mpr (by omega))
    exact ⟨fuel, b, made, filled.inside, filled.cells⟩
  rename_i text
  have text := Option.not_isSome_iff_eq_none.mp text
  split at ran
  · cases named : xmlnodeGetTagData x (cstr "file") with
    | none =>
      rw [named] at ran
      cases ran
    | some name =>
      have got : (w₁.env.files name).map (fun content => h ++ content.takeWhile (·.toNat ≠ 0)) = some r := by
        rw [named] at ran
        injection ran
      rw [files, Option.map_eq_some_iff] at got
      obtain ⟨content, there, rfl⟩ := got
      obtain ⟨o, opened, delivers, small⟩ := agrees.opened name content there
      obtain ⟨fuel, b, made, filled⟩ := (returns_file text named opened _).mpr
        ((makeBytesFile_iff (h := h) delivers).mpr (by omega))
      refine ⟨fuel, b, made, filled.inside, filled.begins_of_prefix ?_⟩
      rw [List.append_assoc, List.append_assoc]
      exact (List.prefix_append_right_inj h).mpr (takeWhile_terminated content)
  rename_i file
  have file := Option.not_isSome_iff_eq_none.mp file
  split at ran
  · rename_i stream
    rw [if_neg (by unfold pfreeSize; omega)] at ran
    obtain ⟨w₂, drawn⟩ := randomBytes_apply ((h.length + jAtoi (xmlnodeGetAttrib x (cstr "len")) 1).toNat - 1 -
      (apSnprintf (h.length + jAtoi (xmlnodeGetAttrib x (cstr "len")) 1).toNat h).length) w₁
    rw [bind_apply, drawn] at ran
    cases ran
    have size : asInt (h.length + jAtoi (xmlnodeGetAttrib x (cstr "len")) 1) =
      h.length + jAtoi (xmlnodeGetAttrib x (cstr "len")) 1 := asInt_of_small (by omega) (by omega)
    have fits : (h.length : Int) < asInt (h.length + jAtoi (xmlnodeGetAttrib x (cstr "len")) 1) := by omega
    obtain ⟨b, made, filled⟩ := makeBytesRandom_holds w₁.env.random fits
    obtain ⟨fuel, b, made, filled⟩ := (returns_stream text file stream _).mpr ⟨b, made, filled⟩
    have count : (h.length + jAtoi (xmlnodeGetAttrib x (cstr "len")) 1).toNat - 1 - h.length =
        (asInt (h.length + jAtoi (xmlnodeGetAttrib x (cstr "len")) 1) - 1 - h.length).toNat := by
      omega
    refine ⟨fuel, b, made, filled.inside, ?_⟩
    rw [apSnprintf_of_le (by omega), count]
    exact filled.cells
  · cases ran

end Callers

end JabSimul
