import JabSimul.PatternReading

/-!
What one call of `sprintf_pattern` leaves for the next. `nms_init` sets everything
that a call reads except for the start condition of the scanner, so two histories
are told apart exactly when one of them stopped inside of a segment.
-/
namespace JabSimul

open Simulation Relation Operators

structure PatternCall where
  pattern : CString
  idnum : Int
  bufSize : Nat
  random : Randoms

/-- Random values are drawn elsewhere, too, so a call gets a stream of its own. -/
def PatternCall.run (c : PatternCall) (nms : Nms) : EStateM.Result PatternStop Nms Int :=
  sprintfPattern c.bufSize c.pattern c.idnum { nms with random := c.random }

/-- The globals behind calls that came back, with the last one in front. -/
inductive After : List PatternCall → Nms → Prop where
  | nil (random : Randoms) : After [] (nmsBoot random)
  | cons {earlier : List PatternCall} {c : PatternCall} {nms nms' : Nms} {r : Int}
      (before : After earlier nms) (called : c.run nms = .ok r nms') : After (c :: earlier) nms'

/-- How a call ends, and what is in the buffer then. -/
def outcome : EStateM.Result PatternStop Nms Int → Except PatternStop Int × CString
  | .ok r nms => (.ok r, nms.buf)
  | .error e nms => (.error e, nms.buf)

section SameGlobals

/-- Globals that differ in the value of the last token at most. -/
def Nms.Same (nms nms' : Nms) : Prop := nms' = { nms with yylval := nms'.yylval }

variable {nms nms' nms₁ : Nms}

theorem Nms.Same.start_eq (same : nms.Same nms') : nms'.start = nms.start := by rw [same]

theorem Nms.Same.rest_eq (same : nms.Same nms') : nms'.rest = nms.rest := by rw [same]

theorem Nms.Same.buf_eq (same : nms.Same nms') : nms'.buf = nms.buf := by rw [same]

theorem Nms.Same.put (same : nms.Same nms') (t : CString) : (nms.put t).Same (nms'.put t) := by
  rw [same]
  rfl

theorem Nms.Same.formatted (same : nms.Same nms') (format : nms'.yylval.s = nms.yylval.s) :
    nms.formatted.Same nms'.formatted := by
  simp only [Nms.Same, Nms.formatted, format]
  rw [same]

theorem yylex_none_same (same : nms.Same nms') (lex : yylex nms = .ok none nms₁) :
    ∃ nms₁', yylex nms' = .ok none nms₁' ∧ nms₁.Same nms₁' := by
  rcases yylex_cases nms with ⟨ended, none⟩ | ⟨_, _, _, _, _, _, some'⟩
  · cases none.symm.trans lex
    refine ⟨_, yylex_none ?_, ?_⟩
    · rw [same.start_eq, same.rest_eq]
      exact ended
    · rw [same]
      rfl
  · cases some'.symm.trans lex

/-- The scanner finds the same token, and a token with a value sets it. -/
theorem yylex_same (same : nms.Same nms') {tok : Token} (lex : yylex nms = .ok (some tok) nms₁) :
    ∃ nms₁', yylex nms' = .ok (some tok) nms₁' ∧ nms₁.Same nms₁' ∧
      (tok = .nothingSpecial → nms₁'.yylval.c = nms₁.yylval.c) ∧
        (tok = .endExpr → nms₁'.yylval.s = nms₁.yylval.s) ∧
          mathTok tok nms₁'.yylval.i = mathTok tok nms₁.yylval.i := by
  rcases yylex_cases nms with ⟨_, none⟩ | ⟨rule, yytext, rest, tok', found, token, some'⟩
  · cases none.symm.trans lex
  · cases some'.symm.trans lex
    refine ⟨({ nms' with rest := rest }).lexed rule yytext, ?_, ?_⟩
    · rw [← token]
      refine yylex_some ?_
      rw [same.start_eq, same.rest_eq]
      exact found
    · rw [same]
      cases rule <;> cases token <;>
        exact ⟨rfl, fun other => by cases other <;> rfl, fun other => by cases other <;> rfl, rfl⟩

theorem step_same {c c' : Config} (step : ParseStep c c') (same : c.2.Same nms') :
    ∃ nms₁, ParseStep (c.1, nms') (c'.1, nms₁) ∧ c'.2.Same nms₁ := by
  cases step with
  | @literal started _ _ lex =>
    obtain ⟨nms₁, lex', same', char, _⟩ := yylex_same same lex
    have step := @ParseStep.literal started _ _ lex'
    rw [char rfl] at step
    exact ⟨_, step, same'.put _⟩
  | opened lex =>
    obtain ⟨nms₁, lex', same', _⟩ := yylex_same same lex
    exact ⟨_, .opened lex', same'⟩
  | token lex kind advanced =>
    obtain ⟨nms₁, lex', same', _, _, value⟩ := yylex_same same lex
    exact ⟨_, .token lex' (value.trans kind) advanced, same'⟩
  | closed lex value printed =>
    obtain ⟨nms₁, lex', same', _, format, _⟩ := yylex_same same lex
    exact ⟨_, .closed lex' value (by rw [format rfl]; exact printed),
      (same'.formatted (format rfl)).put _⟩

theorem stop_same {c : Config} {r : EStateM.Result PatternStop Nms Int} (stop : ParseStop c r)
    (same : c.2.Same nms') : ∃ r', ParseStop (c.1, nms') r' ∧ outcome r' = outcome r := by
  have ended {v : Int} {nms₁ nms₁' : Nms} (same : nms₁.Same nms₁') :
      outcome (.ok v nms₁') = outcome (.ok v nms₁) := by
    rw [outcome, outcome, same.buf_eq]
  have failed {e : PatternStop} {nms₁ nms₁' : Nms} (same : nms₁.Same nms₁') :
      outcome (.error e nms₁') = outcome (.error e nms₁) := by
    rw [outcome, outcome, same.buf_eq]
  cases stop with
  | ends lex =>
    obtain ⟨nms₁, lex', same'⟩ := yylex_none_same same lex
    exact ⟨_, .ends lex', ended same'⟩
  | foreign lex literal opened =>
    obtain ⟨nms₁, lex', same', _⟩ := yylex_same same lex
    exact ⟨_, .foreign lex' literal opened, ended same'⟩
  | unclosed lex =>
    obtain ⟨nms₁, lex', same'⟩ := yylex_none_same same lex
    exact ⟨_, .unclosed lex', ended same'⟩
  | early lex value =>
    obtain ⟨nms₁, lex', same', _⟩ := yylex_same same lex
    exact ⟨_, .early lex' value, ended same'⟩
  | undefined lex value printed =>
    obtain ⟨nms₁, lex', same', _, format, _⟩ := yylex_same same lex
    exact ⟨_, .undefined lex' value (by rw [format rfl]; exact printed),
      failed (same'.formatted (format rfl))⟩
  | other lex closed kind =>
    obtain ⟨nms₁, lex', same', _, _, value⟩ := yylex_same same lex
    exact ⟨_, .other lex' closed (value.trans kind), ended same'⟩
  | rejected lex kind advanced =>
    obtain ⟨nms₁, lex', same', _, _, value⟩ := yylex_same same lex
    exact ⟨_, .rejected lex' (value.trans kind) advanced, ended same'⟩
  | failed lex kind advanced =>
    obtain ⟨nms₁, lex', same', _, _, value⟩ := yylex_same same lex
    exact ⟨_, .failed lex' (value.trans kind) advanced, failed same'⟩

theorem reaches_same {c c' : Config} (reached : Reaches c c') (same : c.2.Same nms') :
    ∃ nms₁, Reaches (c.1, nms') (c'.1, nms₁) ∧ c'.2.Same nms₁ := by
  induction reached with
  | refl => exact ⟨nms', .refl, same⟩
  | tail _ step ih =>
    obtain ⟨nms₁, reached, same₁⟩ := ih
    obtain ⟨nms₂, step', same₂⟩ := step_same step same₁
    exact ⟨nms₂, reached.tail step', same₂⟩

theorem outcome_callResult {r r' : EStateM.Result PatternStop Nms Int}
    (same : outcome r' = outcome r) : outcome (callResult r') = outcome (callResult r) := by
  cases r <;> cases r' <;> simp_all [outcome, callResult]

/-- A call depends on the start condition that it finds, and on nothing else. -/
theorem run_same (nms : Nms) (c : PatternCall) (start : nms'.start = nms.start) :
    outcome (c.run nms') = outcome (c.run nms) := by
  obtain ⟨at', r, reached, stop, ran⟩ :=
    sprintfPattern_runs { nms with random := c.random } c.pattern c.idnum c.bufSize
  have same : (Nms.given { nms with random := c.random } c.pattern c.bufSize c.idnum).Same
      (Nms.given { nms' with random := c.random } c.pattern c.bufSize c.idnum) := by
    simp only [Nms.Same, Nms.given, start]
  obtain ⟨nms₁, reached', same₁⟩ := reaches_same reached same
  obtain ⟨r', stop', ended⟩ := stop_same stop same₁
  rw [PatternCall.run, PatternCall.run, ran, sprintfPattern_of_stop reached' stop']
  exact outcome_callResult ended

end SameGlobals

section StartCondition

variable {n : Int} {nms nms' : Nms} {s : CString} {random : Randoms}

/-- Tokens of an expression that has a value go on, or a format ends them. -/
def Continues (n : Int) (ts : List (Tok Int AddOp MulOp)) (rest : CString) (random : Randoms) :
    Prop :=
  ∃ rule yytext rest', scan .stExpression rest.length rest = some (rule, yytext, rest') ∧
    (rule = .endExpr ∨ ∃ t random', mathToken n rule yytext random = some (t, random') ∧
      Viable intMeaning (ts ++ [t]))

/-- Behind complete literals and segments comes a segment whose expression breaks
off before its format. -/
def StopsInside (n : Int) (s : CString) (random : Randoms) : Prop :=
  ∃ outs s₁ random₁ ts rest random', PatternReads n s random outs s₁ random₁ ∧
    SegmentBegins n s₁ random₁ ts rest random' ∧ Viable intMeaning ts ∧
      ¬ Continues n ts rest random'

variable {outs : List CString} {rest : CString} {ts : List (Tok Int AddOp MulOp)}
  {math : State Int AddOp MulOp}

theorem stop_of_stuck (read : nms.Read .stExpression n outs rest random)
    (ran : intMeaning.run start ts = .next math) (stuck : ¬ Continues n ts rest random) :
    ∃ r, ParseStop (.segment math, nms) r ∧
      ∀ v nms', r = .ok v nms' → nms'.start = .stExpression := by
  cases found : scan .stExpression rest.length rest with
  | none =>
    refine ⟨_, .unclosed (read.lex_end found), ?_⟩
    rintro v nms' same
    cases same
    exact read.start
  | some m =>
    obtain ⟨rule, yytext, rest'⟩ := m
    have open' : rule ≠ .endExpr := fun closing => stuck ⟨rule, yytext, rest', found, .inl closing⟩
    obtain ⟨t, random', token⟩ := mathToken_of_scan n random found open'
    have opening : rule ≠ .beginExpr := by
      rintro rfl
      cases token
    obtain ⟨tok, name, kind, _⟩ := read.token rest' token
    have lex := read.lex found
    rw [name] at lex
    have unviable : ¬ ∃ math', intMeaning.advance math t = .next math' := fun next =>
      stuck ⟨rule, yytext, rest', found, .inr ⟨t, random', token, (viable_snoc ran t).mpr next⟩⟩
    cases advanced : intMeaning.advance math t with
    | next math' => exact absurd ⟨math', advanced⟩ unviable
    | rejected =>
      refine ⟨_, .rejected lex kind advanced, ?_⟩
      rintro v nms' same
      cases same
      exact (lexed_start opening open').trans read.start
    | failed =>
      refine ⟨_, .failed lex kind advanced, ?_⟩
      rintro v nms' same
      cases same

theorem stuck_of_stop (read : nms.Read .stExpression n outs rest random)
    (ran : intMeaning.run start ts = .next math) {v : Int}
    (stop : ParseStop (.segment math, nms) (.ok v nms')) (inside : nms'.start = .stExpression) :
    ¬ Continues n ts rest random := by
  rintro ⟨rule, yytext, rest', found, rfl | ⟨t, random', token, viable⟩⟩
  · have closing := read.lex found
    cases stop with
    | unclosed lex => cases lex.symm.trans closing
    | early lex value =>
      cases lex.symm.trans closing
      cases inside
    | other lex closed kind =>
      cases lex.symm.trans closing
      exact closed rfl
    | rejected lex kind advanced =>
      cases lex.symm.trans closing
      exact mathTok_endExpr kind rfl
  · obtain ⟨tok, name, value, _⟩ := read.token rest' token
    obtain ⟨math', next⟩ := (viable_snoc ran t).mp viable
    have lexed := read.lex found
    rw [name] at lexed
    cases stop with
    | unclosed lex => cases lex.symm.trans lexed
    | early lex _ =>
      cases lex.symm.trans lexed
      exact mathTok_endExpr value rfl
    | other lex closed kind =>
      cases lex.symm.trans lexed
      cases kind.symm.trans value
    | rejected lex kind advanced =>
      cases lex.symm.trans lexed
      cases kind.symm.trans value
      cases advanced.symm.trans next

/-- Between the pieces of a pattern only its end stops the parser. -/
theorem stop_outside {started : Bool} (read : nms.Read .initial n outs rest random) {v : Int}
    (stop : ParseStop (.list started, nms) (.ok v nms')) : nms'.start = .initial := by
  cases stop with
  | ends lex =>
    rcases yylex_cases nms with ⟨_, none⟩ | ⟨_, _, _, _, _, _, some'⟩
    · cases none.symm.trans lex
      exact read.start
    · cases some'.symm.trans lex
  | foreign lex literal opened =>
    obtain ⟨rule, yytext, rest', found, token, rfl⟩ := read.lexed lex
    rcases scan_start found with ⟨_, rfl | rfl⟩ | ⟨inside, _⟩
    · cases token
      exact absurd rfl opened
    · cases token
      exact absurd rfl literal
    · cases inside

/-- A call that comes back and that began outside of a segment. -/
theorem run_initial {bufSize : Nat} {r : Int} (initial : nms.start = .initial)
    (called : sprintfPattern bufSize s n nms = .ok r nms') :
    nms'.start = .stExpression ↔ StopsInside n s nms.random := by
  constructor
  · intro inside
    obtain ⟨c, stopped, reached, stop, ran⟩ := sprintfPattern_runs nms s n bufSize
    have described := given_described initial reached
    rw [ran] at called
    cases stopped with
    | error e nms₁ => cases called
    | ok v nms₁ =>
      cases called
      match c with
      | (.list started, nms₂) =>
        obtain ⟨outs, rest, random', _, _, read⟩ := described
        cases inside.symm.trans (stop_outside read stop)
      | (.segment math, nms₂) =>
        obtain ⟨outs, s₁, random₁, ts, rest, random', reads, begins, ran, read⟩ := described
        exact ⟨outs, s₁, random₁, ts, rest, random', reads, begins,
          (viable_iff intMeaning_total ts).mpr ⟨math, ran⟩, stuck_of_stop read ran stop inside⟩
  · rintro ⟨outs, s₁, random₁, ts, rest, random', reads, begins, viable, stuck⟩
    obtain ⟨math, ran⟩ := (viable_iff intMeaning_total ts).mp viable
    obtain ⟨nms₁, first, read₁⟩ :=
      reaches_list reads (given_read s n bufSize initial)
    obtain ⟨nms₂, segment, read₂⟩ := reaches_segment (!outs.isEmpty) begins read₁ ran
    obtain ⟨stopped, stop, inside⟩ := stop_of_stuck read₂ ran stuck
    rw [sprintfPattern_of_stop (first.trans segment) stop] at called
    cases stopped with
    | error e nms₁ => cases called
    | ok v nms₁ =>
      cases called
      exact inside v _ rfl

/-- A call that begins inside of a segment reads one token. -/
theorem run_inside {bufSize : Nat} {r : Int} (inside : nms.start = .stExpression)
    (called : sprintfPattern bufSize s n nms = .ok r nms') : nms'.start = .stExpression ↔
      ¬ ∃ yytext rest, scan .stExpression s.length s = some (.endExpr, yytext, rest) := by
  rw [sprintfPattern_inside inside] at called
  cases found : scan .stExpression s.length s with
  | none =>
    rw [found] at called
    cases called
    have kept : (nms.given s bufSize n).start = .stExpression := inside
    simp [kept]
  | some m =>
    obtain ⟨rule, yytext, rest⟩ := m
    rw [found] at called
    cases called
    by_cases closing : rule = .endExpr
    · subst closing
      simp [Nms.lexed]
    · have opening : rule ≠ .beginExpr := by
        rintro rfl
        rcases scan_start found with ⟨other, _⟩ | ⟨_, opening, _⟩
        · cases other
        · exact opening rfl
      have kept : ({ nms.given s bufSize n with rest := rest }.lexed rule yytext).start =
          .stExpression := (lexed_start opening closing).trans inside
      simp [kept, closing]

end StartCondition

section Histories

def PatternCall.StopsInside (c : PatternCall) : Prop :=
  JabSimul.StopsInside c.idnum c.pattern c.random

/-- The first token inside of a segment would be a format. -/
def PatternCall.BeginsWithFormat (c : PatternCall) : Prop :=
  ∃ yytext rest, scan .stExpression c.pattern.length c.pattern = some (.endExpr, yytext, rest)

/-- A segment is open behind calls, the last of them in front. -/
def LeftOpen : List PatternCall → Prop
  | [] => False
  | c :: earlier =>
      (LeftOpen earlier → ¬ c.BeginsWithFormat) ∧ (¬ LeftOpen earlier → c.StopsInside)

variable {calls calls' : List PatternCall} {nms nms' : Nms}

theorem leftOpen_iff (after : After calls nms) : nms.start = .stExpression ↔ LeftOpen calls := by
  induction after with
  | nil random => simp [nmsBoot, LeftOpen]
  | @cons earlier c nms nms' r before called ih =>
    rw [LeftOpen, ← ih]
    cases start : nms.start with
    | initial =>
      have start' : { nms with random := c.random }.start = .initial := start
      rw [run_initial start' called]
      simp [PatternCall.StopsInside]
    | stExpression =>
      have start' : { nms with random := c.random }.start = .stExpression := start
      rw [run_inside start' called]
      simp [PatternCall.BeginsWithFormat]

def plainCall : PatternCall := ⟨cstr "a", 0, 50, fun _ => 0⟩

/-- The pattern ends where a format is expected. -/
def unclosedCall : PatternCall := ⟨cstr "%(1", 0, 50, fun _ => 0⟩

theorem plainCall_initial (initial : nms.start = .initial) :
    (outcome (plainCall.run nms)).2 = cstr "a" ++ [nul] := by
  rw [run_same (nmsBoot fun _ => 0) plainCall initial]
  decide +kernel

/-- The character is no token of an expression, and nothing is written. -/
theorem plainCall_inside (inside : nms.start = .stExpression) :
    (outcome (plainCall.run nms)).2 = [] := by
  rw [run_same { nmsBoot fun _ => 0 with start := .stExpression } plainCall inside]
  decide +kernel

/-- Two histories are alike for every later call exactly when both or none of them
left a segment open. -/
theorem same_outcomes_iff (after : After calls nms) (after' : After calls' nms') :
    (∀ c : PatternCall, outcome (c.run nms) = outcome (c.run nms')) ↔
      (LeftOpen calls ↔ LeftOpen calls') := by
  rw [← leftOpen_iff after, ← leftOpen_iff after']
  constructor
  · intro same
    have told := congrArg Prod.snd (same plainCall)
    cases first : nms.start <;> cases second : nms'.start
    · simp
    · rw [plainCall_initial first, plainCall_inside second] at told
      cases told
    · rw [plainCall_inside first, plainCall_initial second] at told
      cases told
    · simp
  · intro both
    have start : nms.start = nms'.start := by
      cases first : nms.start <;> cases second : nms'.start <;> simp_all
    exact fun c => run_same _ c start

/-- A call from the start that comes back with the start condition `start`. -/
theorem after_one (c : PatternCall) (start : StartCond)
    (ran : (match c.run (nmsBoot fun _ => 0) with
      | .ok _ nms => some nms.start
      | .error _ _ => none) = some start) : ∃ nms, After [c] nms ∧ nms.start = start := by
  cases called : c.run (nmsBoot fun _ => 0) with
  | ok r nms =>
    rw [called] at ran
    exact ⟨nms, .cons (.nil _) called, Option.some.inj ran⟩
  | error e nms =>
    rw [called] at ran
    cases ran

theorem same_outcomes_iff_plain : ∃ nms, After [plainCall] nms ∧
    ∀ c : PatternCall, outcome (c.run (nmsBoot fun _ => 0)) = outcome (c.run nms) := by
  obtain ⟨nms, after, start⟩ := after_one plainCall .initial (by decide +kernel)
  have closed : LeftOpen [] ↔ LeftOpen [plainCall] := by
    rw [← leftOpen_iff after, start]
    simp [LeftOpen]
  exact ⟨nms, after, (same_outcomes_iff (.nil _) after).mpr closed⟩

/-- Behind a segment that was not closed a plain pattern gives nothing. -/
theorem unclosed_spoils_next : ∃ nms, After [unclosedCall] nms ∧
    After [] (nmsBoot fun _ => 0) ∧ (outcome (plainCall.run nms)).2 = [] ∧
      (outcome (plainCall.run (nmsBoot fun _ => 0))).2 = cstr "a" ++ [nul] := by
  obtain ⟨nms, after, start⟩ := after_one unclosedCall .stExpression (by decide +kernel)
  exact ⟨nms, after, .nil _, plainCall_inside start, plainCall_initial rfl⟩

end Histories

end JabSimul
