import JabSimul.PatternReading

/-!
The bytes that `sprintf_pattern` stores. No action looks at `tmpbufsize`, so the
caller's buffer and the two arrays for a format hold what is stored in them exactly
when the texts, the formats and the tokens of the pattern are short enough.
-/
namespace JabSimul

open Simulation Relation Operators

def stopState : EStateM.Result PatternStop Nms Int → Nms
  | .ok _ nms => nms
  | .error _ nms => nms

/-- Nothing was stored behind the end of an array, and `sprintf` was given no
conversion that might store anything. -/
structure Contained (bufSize : Nat) (r : EStateM.Result PatternStop Nms Int) : Prop where
  defined : ∀ nms, r ≠ .error .undefined nms
  buf : (stopState r).buf.length ≤ bufSize
  copies : ∀ c ∈ (stopState r).copies, c.bytes ≤ c.room

/-- Behind complete pieces come a segment of these tokens and the token of its format. -/
def Closes (n : Int) (s : CString) (random : Randoms) (ts : List (Tok Int AddOp MulOp))
    (yytext : CString) : Prop :=
  ∃ outs s₁ random₁ rest random' rest', PatternReads n s random outs s₁ random₁ ∧
    SegmentBegins n s₁ random₁ ts rest random' ∧
      scan .stExpression rest.length rest = some (.endExpr, yytext, rest')

/-- Texts, tokens and formats are short enough, and formats are for an `int`. -/
structure Fits (bufSize : Nat) (n : Int) (s : CString) (random : Randoms) : Prop where
  text : ∀ outs rest random', PatternReads n s random outs rest random' → outs ≠ [] →
    outs.flatten.length < bufSize
  token : ∀ ts yytext, Closes n s random ts yytext → Viable intMeaning ts → yytext.length ≤ 200
  format : ∀ (e : Tree Int AddOp MulOp .sum) v yytext, Closes n s random e.tokens yytext →
    e.eval intMeaning = some v →
      (formatOf yytext).length ≤ 28 ∧ (sprintfInt ('%' :: formatOf yytext) v).isSome

section Enough

variable {n : Int} {s : CString} {random : Randoms} {bufSize : Nat} {nms : Nms}

def Nms.Sound (nms : Nms) : Prop := ∀ c ∈ nms.copies, c.bytes ≤ c.room

theorem Nms.Sound.lexed (sound : nms.Sound) {rule : LexRule} {yytext rest : CString}
    (short : rule = .endExpr → yytext.length ≤ 200) :
    ({ nms with rest := rest }.lexed rule yytext).Sound := by
  by_cases closing : rule = .endExpr
  · subst closing
    intro c member
    rcases List.mem_cons.mp member with rfl | member
    · exact short rfl
    · exact sound c member
  · cases rule <;> first | exact sound | contradiction

theorem Nms.Sound.formatted (sound : nms.Sound) (short : nms.yylval.s.length ≤ 28) :
    nms.formatted.Sound := by
  intro c member
  rcases List.mem_cons.mp member with rfl | member
  · exact Nat.add_le_add_right short 2
  · exact sound c member

/-- A format is the only token that is copied. -/
theorem sound_lex {c : Config} (fits : Fits bufSize n s random) (described : Described n s random c)
    (sound : c.2.Sound) {tok : Option Token} {nms' : Nms} (lex : yylex c.2 = .ok tok nms') :
    nms'.Sound := by
  rcases yylex_cases c.2 with ⟨_, none⟩ | ⟨rule, yytext, rest', _, found, _, some'⟩
  · cases none.symm.trans lex
    exact sound
  · cases some'.symm.trans lex
    refine sound.lexed ?_
    rintro rfl
    match c with
    | (.list started, nms) =>
      obtain ⟨_, _, _, _, _, read⟩ := described
      rw [read.start] at found
      rcases scan_start found with ⟨_, other | other⟩ | ⟨other, _⟩ <;> cases other
    | (.segment math, nms) =>
      obtain ⟨outs, s₁, random₁, ts, rest, random', reads, begins, ran, read⟩ := described
      rw [read.start, read.rest] at found
      exact fits.token ts yytext ⟨outs, s₁, random₁, rest, random', rest', reads, begins, found⟩
        ((viable_iff intMeaning_total ts).mpr ⟨math, ran⟩)

/-- What is known of a format when its expression has a value. -/
theorem fits_format {math : State Int AddOp MulOp} {nms' : Nms} {v : Int}
    (fits : Fits bufSize n s random) (described : Described n s random (.segment math, nms))
    (lex : yylex nms = .ok (some .endExpr) nms') (value : intMeaning.result math = some v) :
    nms'.yylval.s.length ≤ 28 ∧ (sprintfInt ('%' :: nms'.yylval.s) v).isSome := by
  obtain ⟨outs, s₁, random₁, ts, rest, random', reads, begins, ran, read⟩ := described
  obtain ⟨rule, yytext, rest', found, token, rfl⟩ := read.lexed lex
  cases rule <;> cases token
  obtain ⟨e, rfl, evaluated⟩ := tree_of_result ran value
  exact fits.format e v yytext
    ⟨outs, s₁, random₁, rest, random', rest', reads, begins, found⟩ evaluated

theorem sound_step {c c' : Config} (fits : Fits bufSize n s random)
    (described : Described n s random c) (sound : c.2.Sound) (step : ParseStep c c') :
    c'.2.Sound := by
  cases step with
  | literal lex | opened lex | token lex =>
    have after := sound_lex fits described sound lex
    exact after
  | closed lex value printed =>
    have copied := sound_lex fits described sound lex
    have formatted := copied.formatted (fits_format fits described lex value).1
    exact formatted

theorem sound_of_reaches {c c' : Config} (fits : Fits bufSize n s random)
    (described : Described n s random c) (sound : c.2.Sound) (reached : Reaches c c') :
    c'.2.Sound := by
  induction reached with
  | refl => exact sound
  | tail before step ih => exact sound_step fits (described_of_reaches described before) ih step

theorem buf_of_described {c : Config} (fits : Fits bufSize n s random)
    (described : Described n s random c) : c.2.buf.length ≤ bufSize := by
  have short {start : StartCond} {nms : Nms} {outs : List CString} {rest rest' : CString}
      {random' random₁ : Randoms} (reads : PatternReads n s random outs rest random')
      (read : nms.Read start n outs rest' random₁) : nms.buf.length ≤ bufSize := by
    rw [read.buf]
    split
    · exact Nat.zero_le _
    · rename_i some'
      rw [List.length_append]
      exact fits.text outs rest random' reads some'
  match c with
  | (.list started, nms) =>
    obtain ⟨_, _, _, reads, _, read⟩ := described
    exact short reads read
  | (.segment math, nms) =>
    obtain ⟨_, _, _, _, _, _, reads, _, _, read⟩ := described
    exact short reads read

theorem yylex_buf {tok : Option Token} {nms' : Nms} (lex : yylex nms = .ok tok nms') :
    nms'.buf = nms.buf := by
  rcases yylex_cases nms with ⟨_, none⟩ | ⟨_, _, _, _, _, _, some'⟩
  · cases none.symm.trans lex
    rfl
  · cases some'.symm.trans lex
    exact lexed_buf

theorem contained_stop {c : Config} {r : EStateM.Result PatternStop Nms Int}
    (fits : Fits bufSize n s random) (described : Described n s random c) (sound : c.2.Sound)
    (stop : ParseStop c r) : Contained bufSize (callResult r) := by
  have buf := buf_of_described fits described
  have ended {v : Int} {tok : Option Token} {nms' : Nms} (lex : yylex c.2 = .ok tok nms') :
      Contained bufSize (callResult (.ok v nms')) := by
    refine ⟨nofun, ?_, sound_lex fits described sound lex⟩
    change nms'.buf.length ≤ bufSize
    rwa [yylex_buf lex]
  cases stop with
  | ends lex | foreign lex | unclosed lex | early lex | other lex | rejected lex => exact ended lex
  | undefined lex value printed =>
    have defined := (fits_format fits described lex value).2
    rw [printed] at defined
    cases defined
  | @failed _ _ nms' _ _ lex kind advanced =>
    refine ⟨nofun, ?_, sound_lex fits described sound lex⟩
    change nms'.buf.length ≤ bufSize
    rwa [yylex_buf lex]

/-- Enough room is enough. -/
theorem contained_of_fits (initial : nms.start = .initial)
    (fits : Fits bufSize n s nms.random) : Contained bufSize (sprintfPattern bufSize s n nms) := by
  obtain ⟨c, r, reached, stop, ran⟩ := sprintfPattern_runs nms s n bufSize
  have first : Described n s nms.random (.list false, nms.given s bufSize n) :=
    given_described initial .refl
  have sound := sound_of_reaches fits first nofun reached
  rw [ran]
  exact contained_stop fits (given_described initial reached) sound stop

end Enough

section Necessary

variable {n : Int} {s : CString} {random : Randoms} {bufSize : Nat} {nms nms' : Nms}

/-- What was stored stays stored, and the cursor is on the last byte. -/
structure Grown (nms nms' : Nms) : Prop where
  copies : nms.copies ⊆ nms'.copies
  buf : nms.buf.length ≤ nms'.buf.length
  cursor : nms.buf.length ≤ nms.tmpbuf + 1 → nms'.buf.length ≤ nms'.tmpbuf + 1

theorem Grown.trans {nms₁ : Nms} (first : Grown nms nms₁) (second : Grown nms₁ nms') :
    Grown nms nms' :=
  ⟨fun _ member => second.copies (first.copies member), Nat.le_trans first.buf second.buf,
    fun cursor => second.cursor (first.cursor cursor)⟩

theorem grown_lex {tok : Option Token} (lex : yylex nms = .ok tok nms') : Grown nms nms' := by
  rcases yylex_cases nms with ⟨_, none⟩ | ⟨rule, _, _, _, _, _, some'⟩
  · cases none.symm.trans lex
    exact ⟨fun _ member => member, Nat.le_refl _, id⟩
  · cases some'.symm.trans lex
    refine ⟨?_, by simp, by simp⟩
    cases rule <;> first | exact fun _ member => member | exact List.subset_cons_self ..

theorem grown_formatted : Grown nms nms.formatted :=
  ⟨List.subset_cons_self .., Nat.le_refl _, id⟩

theorem grown_put (cursor : nms.buf.length ≤ nms.tmpbuf + 1) (t : CString) :
    Grown nms (nms.put t) := by
  refine ⟨fun _ member => member, ?_, fun _ => ?_⟩
  · simp only [Nms.put, List.length_append, List.length_take, List.length_singleton]
    omega
  · simp only [Nms.put, List.length_append, List.length_take, List.length_singleton]
    omega

theorem grown_step {c c' : Config} (cursor : c.2.buf.length ≤ c.2.tmpbuf + 1)
    (step : ParseStep c c') : Grown c.2 c'.2 := by
  cases step with
  | literal lex => exact (grown_lex lex).trans (grown_put ((grown_lex lex).cursor cursor) _)
  | opened lex | token lex => exact grown_lex lex
  | closed lex =>
    have copied := (grown_lex lex).trans grown_formatted
    exact copied.trans (grown_put (copied.cursor cursor) _)

theorem grown_reaches {c c' : Config} (cursor : c.2.buf.length ≤ c.2.tmpbuf + 1)
    (reached : Reaches c c') : Grown c.2 c'.2 := by
  induction reached with
  | refl => exact ⟨fun _ member => member, Nat.le_refl _, id⟩
  | tail _ step ih => exact ih.trans (grown_step (ih.cursor cursor) step)

theorem grown_stop {c : Config} {r : EStateM.Result PatternStop Nms Int} (stop : ParseStop c r) :
    Grown c.2 (stopState r) := by
  cases stop with
  | ends lex | foreign lex | unclosed lex | early lex | other lex | rejected lex | failed lex =>
    exact grown_lex lex
  | undefined lex => exact (grown_lex lex).trans grown_formatted

theorem stopState_callResult (r : EStateM.Result PatternStop Nms Int) :
    stopState (callResult r) = stopState r := by
  cases r <;> rfl

/-- What a call stores on its way is stored when it ends. -/
theorem grown_call {c : Config} (reached : Reaches (.list false, nms.given s bufSize n) c) :
    Grown c.2 (stopState (sprintfPattern bufSize s n nms)) := by
  obtain ⟨c', r, onward, stop, ran⟩ := sprintfPattern_through reached
  have cursor : c.2.buf.length ≤ c.2.tmpbuf + 1 :=
    (grown_reaches (Nat.zero_le _) reached).cursor (Nat.zero_le _)
  rw [ran, stopState_callResult]
  exact (grown_reaches cursor onward).trans (grown_stop stop)

/-- The configuration in front of the token of a format. -/
theorem reaches_format (bufSize : Nat) (initial : nms.start = .initial) {ts : List (Tok Int AddOp MulOp)}
    {yytext : CString} (closes : Closes n s nms.random ts yytext) {math : State Int AddOp MulOp}
    (ran : intMeaning.run start ts = .next math) :
    ∃ nms₁ nms₂, Reaches (.list false, nms.given s bufSize n) (.segment math, nms₁) ∧
      yylex nms₁ = .ok (some .endExpr) nms₂ ∧ nms₂.yylval.s = formatOf yytext ∧
        ⟨yytext.length, 200⟩ ∈ nms₂.copies := by
  obtain ⟨outs, s₁, random₁, rest, random', rest', reads, begins, found⟩ := closes
  obtain ⟨nms₀, first, read₀⟩ :=
    reaches_list reads (given_read s n bufSize initial)
  obtain ⟨nms₁, segment, read₁⟩ := reaches_segment _ begins read₀ ran
  exact ⟨nms₁, _, first.trans segment, read₁.lex found, rfl, List.mem_cons_self ..⟩

theorem contained_format (initial : nms.start = .initial)
    (contained : Contained bufSize (sprintfPattern bufSize s n nms))
    {ts : List (Tok Int AddOp MulOp)} {yytext : CString} (closes : Closes n s nms.random ts yytext)
    {math : State Int AddOp MulOp} (ran : intMeaning.run start ts = .next math) :
    yytext.length ≤ 200 ∧ ∀ v, intMeaning.result math = some v →
      (formatOf yytext).length ≤ 28 ∧ (sprintfInt ('%' :: formatOf yytext) v).isSome := by
  obtain ⟨nms₁, nms₂, reached, lex, format, copied⟩ :=
    reaches_format bufSize initial closes ran
  cases value : intMeaning.result math with
  | none =>
    have ended := sprintfPattern_of_stop reached (.early lex value)
    rw [ended] at contained
    exact ⟨contained.copies _ copied, nofun⟩
  | some v =>
    cases printed : sprintfInt ('%' :: nms₂.yylval.s) v with
    | none =>
      have ended := sprintfPattern_of_stop reached (.undefined lex value printed)
      exact absurd ended (contained.defined _)
    | some t =>
      have kept := (grown_call (reached.tail (.closed lex value printed))).copies
      refine ⟨contained.copies _ (kept (List.mem_cons_of_mem _ copied)), ?_⟩
      intro v' same
      cases same
      have short := contained.copies _ (kept (List.mem_cons_self ..))
      rw [← format, printed]
      exact ⟨Nat.le_of_add_le_add_right short, rfl⟩

/-- Nothing less is enough. -/
theorem fits_of_contained (initial : nms.start = .initial)
    (contained : Contained bufSize (sprintfPattern bufSize s n nms)) :
    Fits bufSize n s nms.random where
  text outs rest random' reads some' := by
    obtain ⟨nms₁, reached, read⟩ :=
      reaches_list reads (given_read s n bufSize initial)
    have stored := (grown_call reached).buf
    have whole := read.buf
    rw [if_neg some'] at whole
    simp only [whole, List.length_append, List.length_singleton] at stored
    exact Nat.lt_of_succ_le (Nat.le_trans stored contained.buf)
  token ts yytext closes viable := by
    obtain ⟨math, ran⟩ := (viable_iff intMeaning_total ts).mp viable
    exact (contained_format initial contained closes ran).1
  format e v yytext closes value := by
    obtain ⟨math, ran, result⟩ := result_of_tree e value
    exact (contained_format initial contained closes ran).2 v result

/-- The first token, when the scanner begins inside of a segment, ends the call. -/
theorem contained_inside (inside : nms.start = .stExpression) :
    Contained bufSize (sprintfPattern bufSize s n nms) ↔ ∀ yytext rest,
      scan .stExpression s.length s = some (.endExpr, yytext, rest) → yytext.length ≤ 200 := by
  rw [sprintfPattern_inside inside]
  cases found : scan .stExpression s.length s with
  | none => exact ⟨fun _ => nofun, fun _ => ⟨nofun, Nat.zero_le _, nofun⟩⟩
  | some m =>
    obtain ⟨rule, yytext, rest⟩ := m
    by_cases closing : rule = .endExpr
    · subst closing
      constructor
      · rintro contained _ _ same
        cases same
        exact contained.copies _ (List.mem_cons_self ..)
      · intro short
        refine ⟨nofun, Nat.zero_le _, ?_⟩
        intro c member
        rcases List.mem_cons.mp member with rfl | none
        · exact short yytext rest rfl
        · cases none
    · refine ⟨?_, fun _ => ⟨nofun, ?_, ?_⟩⟩
      · rintro _ _ _ same
        cases same
        exact absurd rfl closing
      · simp [stopState, Nms.given]
      · cases rule <;> first | contradiction | exact nofun

/-- What a call can store without harm, from either start condition. -/
def FitsFrom (start : StartCond) (bufSize : Nat) (n : Int) (s : CString) (random : Randoms) :
    Prop :=
  match start with
  | .initial => Fits bufSize n s random
  | .stExpression => ∀ yytext rest,
      scan .stExpression s.length s = some (.endExpr, yytext, rest) → yytext.length ≤ 200

/-- A call stores nothing behind the end of an array exactly when texts, tokens and
formats are short enough. -/
theorem sprintfPattern_contained_iff (nms : Nms) (bufSize : Nat) (s : CString) (n : Int) :
    Contained bufSize (sprintfPattern bufSize s n nms) ↔
      FitsFrom nms.start bufSize n s nms.random := by
  cases start : nms.start with
  | initial => exact ⟨fits_of_contained start, contained_of_fits start⟩
  | stExpression => exact contained_inside start

/-- A name of fifty characters takes fifty-one bytes. -/
theorem longName_overruns :
    ¬ Contained 50 (sprintfPattern 50 (List.replicate 50 'a') 0 (nmsBoot fun _ => 0)) := by
  intro contained
  have stored : (stopState (sprintfPattern 50 (List.replicate 50 'a') 0
      (nmsBoot fun _ => 0))).buf.length = 51 := by decide +kernel
  have room := contained.buf
  omega

end Necessary

end JabSimul
