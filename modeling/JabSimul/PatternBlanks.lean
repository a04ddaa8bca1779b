import JabSimul.PatternHistory

/-!
Blanks in expressions. Only a blank that a newline follows has a rule; any other one
is taken by the rule of `flex`, which matches one character and so goes before the
number that is empty. Neither gives a token. The rule of `flex` copies the blank to the
standard output, which is no part of a name.
-/
namespace JabSimul

open LongestMatch Simulation Relation

/-- The start condition behind a match. -/
def LexRule.next (start : StartCond) : LexRule → StartCond
  | .beginExpr => .stExpression
  | .endExpr => .initial
  | _ => start

def Blank (c : Char) : Prop := c = ' ' ∨ c = '\n'

instance : DecidablePred Blank := fun c => inferInstanceAs (Decidable (c = ' ' ∨ c = '\n'))

/-- The second text is the first one with blanks between the matches of an
expression. The first one is read from the start condition. -/
inductive Spaced : StartCond → CString → CString → Prop where
  | nil (start : StartCond) : Spaced start [] []
  | blank {s s' : CString} {c : Char} (blank : Blank c) (more : Spaced .stExpression s s') :
      Spaced .stExpression s (c :: s')
  | lexeme {start : StartCond} {t s s' : CString} {rule : LexRule} (some' : t ≠ [])
      (found : longest (lexRules start) (t ++ s) = some (t.length, rule))
      (more : Spaced (rule.next start) s s') : Spaced start (t ++ s) (t ++ s')

section Lengths

variable {start : StartCond} {s s' t : CString} {n k : Nat} {c : Char} {rule : LexRule}

/-- What begins the spaced text and has no blanks begins the other one. -/
theorem Spaced.prefix_of (spaced : Spaced start s s') (solid : ∀ c ∈ t, ¬ Blank c)
    (begins : t <+: s') : t <+: s := by
  induction spaced generalizing t with
  | nil => exact begins
  | @blank s s' c blank more ih =>
    cases t with
    | nil => exact List.nil_prefix
    | cons d t =>
      obtain ⟨rfl, _⟩ := List.cons_prefix_cons.mp begins
      exact absurd blank (solid d (List.mem_cons_self ..))
  | @lexeme start t₁ s s' rule some' found more ih =>
    rcases List.prefix_or_prefix_of_prefix begins (List.prefix_append t₁ s') with
      inside | ⟨u, rfl⟩
    · exact inside.trans (List.prefix_append t₁ s)
    · have beyond := (List.prefix_append_right_inj _).mp begins
      have solid' : ∀ c ∈ u, ¬ Blank c := fun c member => solid c (List.mem_append_right _ member)
      exact (List.prefix_append_right_inj t₁).mpr (ih solid' beyond)

/-- Only blanks come in. -/
theorem Spaced.mem_of (spaced : Spaced start s s') (solid : ¬ Blank c) (member : c ∈ s') :
    c ∈ s := by
  induction spaced with
  | nil => exact member
  | blank blank more ih =>
    rcases List.mem_cons.mp member with rfl | member
    · exact absurd blank solid
    · exact ih member
  | lexeme some' found more ih =>
    rcases List.mem_append.mp member with member | member
    · exact List.mem_append_left _ member
    · exact List.mem_append_right _ (ih member)

/-- Texts without blanks begin both, unless one is longer than what is kept. -/
theorem Spaced.prefix_iff (spaced : Spaced start s s') (kept : s.take n <+: s')
    (solid : ∀ c ∈ t, ¬ Blank c) (fits : t <+: s → t.length ≤ n) : t <+: s' ↔ t <+: s := by
  constructor
  · intro begins
    exact spaced.prefix_of solid begins
  · intro begins
    exact (List.prefix_take_iff.mpr ⟨begins, fits begins⟩).trans kept

theorem isPrefixOf_congr (same : t <+: s' ↔ t <+: s) : t.isPrefixOf s' = t.isPrefixOf s := by
  rw [Bool.eq_iff_iff, List.isPrefixOf_iff_prefix, List.isPrefixOf_iff_prefix]
  exact same

theorem Spaced.text_eq (spaced : Spaced start s s') (kept : s.take n <+: s')
    (solid : ∀ c ∈ t, ¬ Blank c) (fits : ∀ k, text t s = some k → k ≤ n) :
    text t s' = text t s := by
  have same : t <+: s' ↔ t <+: s := by
    apply spaced.prefix_iff kept solid
    intro begins
    apply fits
    rw [text, List.isPrefixOf_iff_prefix.mpr begins, if_pos rfl]
  rw [text, text, isPrefixOf_congr same]

/-- Of texts that do not begin each other, the one that begins the input is found. -/
theorem alternatives_fit {texts : List String}
    (apart : ∀ u ∈ texts, ∀ v ∈ texts, cstr u <+: cstr v → u = v) {u : String} (member : u ∈ texts)
    (begins : cstr u <+: s) : alternatives texts s = some (cstr u).length := by
  have found : (texts.find? fun t => (cstr t).isPrefixOf s).isSome := by
    rw [List.find?_isSome]
    exact ⟨u, member, List.isPrefixOf_iff_prefix.mpr begins⟩
  obtain ⟨v, found⟩ := Option.isSome_iff_exists.mp found
  have begins' : cstr v <+: s := by
    have hit := List.find?_some found
    exact List.isPrefixOf_iff_prefix.mp hit
  have same : u = v := by
    rcases List.prefix_or_prefix_of_prefix begins begins' with shorter | longer
    · exact apart u member v (List.mem_of_find?_eq_some found) shorter
    · exact (apart v (List.mem_of_find?_eq_some found) u member longer).symm
  rw [alternatives, found, same, Option.map_some]

theorem Spaced.alternatives_eq {texts : List String} (spaced : Spaced start s s')
    (kept : s.take n <+: s') (solid : ∀ u ∈ texts, ∀ c ∈ cstr u, ¬ Blank c)
    (apart : ∀ u ∈ texts, ∀ v ∈ texts, cstr u <+: cstr v → u = v)
    (fits : ∀ k, alternatives texts s = some k → k ≤ n) :
    alternatives texts s' = alternatives texts s := by
  have same : ∀ u ∈ texts, (cstr u).isPrefixOf s' = (cstr u).isPrefixOf s := by
    intro u member
    apply isPrefixOf_congr
    apply spaced.prefix_iff kept (solid u member)
    intro begins
    exact fits _ (alternatives_fit apart member begins)
  rw [alternatives, alternatives, ← List.head?_filter, ← List.head?_filter,
    List.filter_congr same]

theorem length_le_takeWhile {p : Char → Bool} (begins : t <+: s) (all : ∀ c ∈ t, p c = true) :
    t.length ≤ (s.takeWhile p).length := by
  obtain ⟨u, rfl⟩ := begins
  rw [List.takeWhile_append_of_pos all, List.length_append]
  omega

theorem Spaced.numberLength_eq (spaced : Spaced start s s') (kept : s.take n <+: s')
    (fits : ∀ k, numberLength s = some k → k ≤ n) : numberLength s' = numberLength s := by
  have digits (s : CString) : ∀ c ∈ s.takeWhile Char.isDigit, c.isDigit = true := by
    intro c member
    exact List.all_eq_true.mp List.all_takeWhile c member
  have solid : ∀ c ∈ s'.takeWhile Char.isDigit, ¬ Blank c := by
    rintro c member (rfl | rfl)
    · cases digits s' _ member
    · cases digits s' _ member
  have fewer := length_le_takeWhile
    (spaced.prefix_of solid (List.takeWhile_prefix _)) (digits s')
  have begins : s.takeWhile Char.isDigit <+: s' :=
    (List.prefix_take_iff.mpr ⟨List.takeWhile_prefix _, fits _ rfl⟩).trans kept
  have more := length_le_takeWhile begins (digits s)
  rw [numberLength, numberLength]
  exact congrArg some (by omega)

theorem Spaced.endExprLength_eq (spaced : Spaced start s s') (kept : s.take n <+: s')
    (head : s'.head? = s.head?) (fits : ∀ k, endExprLength s = some k → k ≤ n) :
    endExprLength s' = endExprLength s := by
  by_cases colon : s.head? = some ':'
  · obtain ⟨s₁, rfl⟩ := List.head?_eq_some_iff.mp colon
    obtain ⟨s₂, rfl⟩ := List.head?_eq_some_iff.mp (head.trans colon)
    by_cases closed : ')' ∈ s₁
    · obtain ⟨f, tail, rfl, first⟩ := List.eq_append_cons_of_mem closed
      have ends := @endExprLength_closed f tail first
      have begins : ':' :: (f ++ [')']) <+: ':' :: s₂ := by
        apply List.IsPrefix.trans _ kept
        apply List.prefix_take_iff.mpr
        constructor
        · exact ⟨tail, by simp⟩
        · have fit := fits _ ends
          rw [List.length_cons, List.length_append, List.length_singleton]
          exact fit
      obtain ⟨tail', same⟩ := begins
      rw [ends, ← same, List.cons_append, List.append_assoc, List.singleton_append,
        endExprLength_closed first]
    · have open' : ')' ∉ s₂ := by
        intro member
        have solid : ¬ Blank ')' := by
          rintro (other | other) <;> cases other
        rcases List.mem_cons.mp (spaced.mem_of solid (List.mem_cons_of_mem _ member)) with
          other | member
        · cases other
        · exact closed member
      simp only [endExprLength, closed, open', if_false]
  · have none (s : CString) (other : s.head? ≠ some ':') : endExprLength s = none := by
      unfold endExprLength
      split
      · exact absurd rfl other
      · rfl
    rw [none s colon, none s' (head ▸ colon)]

end Lengths

section Scanning

variable {start : StartCond} {s s' t yytext rest : CString} {n fuel fuel' : Nat} {c : Char}
  {rule : LexRule}

theorem text_none {d : Char} {t : CString} (differs : c ≠ d) : text (d :: t) (c :: s) = none := by
  rw [text, List.isPrefixOf, beq_false_of_ne (Ne.symm differs), Bool.false_and]
  rfl

/-- A match that does not begin with a blank is found in the spaced text, too. -/
theorem Spaced.longest_eq
    (found : longest (lexRules start) (c :: t ++ s) = some ((c :: t).length, rule))
    (more : Spaced (rule.next start) s s') (solid : start = .initial ∨ ¬ Blank c) :
    longest (lexRules start) (c :: t ++ s') = some ((c :: t).length, rule) := by
  have spaced : Spaced start (c :: t ++ s) (c :: t ++ s') :=
    .lexeme (List.cons_ne_nil _ _) found more
  have kept : (c :: t ++ s).take (c :: t).length <+: c :: t ++ s' := by
    rw [List.take_left]
    exact List.prefix_append _ _
  rw [← found]
  apply longest_congr
  intro q member
  have fits : ∀ k, q.length (c :: t ++ s) = some k → k ≤ (c :: t).length := by
    intro k hit
    exact longest_max found member hit
  cases start with
  | initial =>
    simp only [lexRules, List.mem_cons, List.not_mem_nil, or_false] at member
    rcases member with rfl | rfl | rfl
    · exact spaced.text_eq kept (by decide) fits
    · rfl
    · rfl
  | stExpression =>
    have solid : ¬ Blank c := solid.resolve_left (by decide)
    simp only [lexRules, List.mem_cons, List.not_mem_nil, or_false] at member
    rcases member with rfl | rfl | rfl | rfl | rfl | rfl | rfl | rfl | rfl | rfl | rfl | rfl | rfl
    · exact spaced.text_eq kept (by decide) fits
    · exact spaced.text_eq kept (by decide) fits
    · exact spaced.numberLength_eq kept fits
    · exact spaced.alternatives_eq kept (by decide) (by decide) fits
    · exact spaced.alternatives_eq kept (by decide) (by decide) fits
    · exact spaced.text_eq kept (by decide) fits
    · exact spaced.text_eq kept (by decide) fits
    · exact spaced.text_eq kept (by decide) fits
    · exact spaced.text_eq kept (by decide) fits
    · exact spaced.text_eq kept (by decide) fits
    · have other : c ≠ ' ' := fun same => solid (.inl same)
      exact (text_none other).trans (text_none other).symm
    · exact spaced.endExprLength_eq kept rfl fits
    · rfl

theorem scan_fuel (enough : s.length ≤ fuel) (enough' : s.length ≤ fuel') :
    scan start fuel s = scan start fuel' s := by
  induction fuel generalizing s fuel' with
  | zero =>
    obtain rfl := List.length_eq_zero_iff.mp (Nat.le_zero.mp enough)
    rw [scan_nil, scan_nil]
  | succ fuel ih =>
    cases s with
    | nil => rw [scan_nil, scan_nil]
    | cons c s =>
      obtain ⟨fuel', rfl⟩ : ∃ m, fuel' = m + 1 := by
        rw [List.length_cons] at enough'
        exact ⟨fuel' - 1, by omega⟩
      rw [scan, scan]
      cases winner : longest (lexRules start) (c :: s) with
      | none => rfl
      | some both =>
        obtain ⟨k, rule⟩ := both
        have positive := longest_pos winner
        simp only [List.length_cons] at enough enough'
        have shorter : ((c :: s).drop k).length ≤ s.length := by
          rw [List.length_drop, List.length_cons]
          omega
        dsimp only
        split
        · exact ih (by omega) (by omega)
        · rfl

/-- A match without a token is passed over. -/
theorem scan_skipped (some' : t ≠ [])
    (winner : longest (lexRules start) (t ++ s) = some (t.length, rule))
    (skips : rule.skips = true) :
    scan start (t ++ s).length (t ++ s) = scan start s.length s := by
  obtain ⟨c, u, rfl⟩ := List.exists_cons_of_ne_nil some'
  rw [List.cons_append] at winner ⊢
  rw [List.length_cons, scan, winner]
  simp only [skips, if_true]
  rw [← List.cons_append, List.drop_left]
  exact scan_fuel (by simp) (Nat.le_refl _)

theorem longest_blank_newline :
    longest (lexRules .stExpression) (' ' :: '\n' :: s) = some (2, .blank) := by
  simp [lexRules, longest, text, cstr, numberLength, alternatives, endExprLength, echoLength]

theorem longest_blank (blank : Blank c) (alone : ¬ (c = ' ' ∧ s.head? = some '\n')) :
    longest (lexRules .stExpression) (c :: s) = some (1, .echo) := by
  rcases blank with rfl | rfl
  · cases s with
    | nil => decide
    | cons d s =>
      have other : d ≠ '\n' := fun same => alone ⟨rfl, congrArg some same⟩
      simp [lexRules, longest, text, cstr, numberLength, alternatives, endExprLength, echoLength,
        other.symm]
  · simp [lexRules, longest, text, cstr, numberLength, alternatives, endExprLength, echoLength]

/-- A blank is passed over, whatever comes behind it. -/
theorem scan_blank (blank : Blank c) :
    scan .stExpression (c :: s).length (c :: s) = scan .stExpression s.length s := by
  have one {c : Char} {s : CString} (blank : Blank c) (alone : ¬ (c = ' ' ∧ s.head? = some '\n')) :
      scan .stExpression (c :: s).length (c :: s) = scan .stExpression s.length s :=
    scan_skipped (t := [c]) (List.cons_ne_nil _ _) (longest_blank blank alone) rfl
  by_cases both : c = ' ' ∧ s.head? = some '\n'
  · obtain ⟨rfl, newline⟩ := both
    obtain ⟨s, rfl⟩ := List.head?_eq_some_iff.mp newline
    have pair := scan_skipped (t := [' ', '\n']) (s := s) (List.cons_ne_nil _ _)
      longest_blank_newline rfl
    rw [one (.inr rfl) (by simp)]
    exact pair
  · exact one blank both

/-- The rules that take a blank. -/
theorem rule_of_blank (blank : Blank c)
    (winner : longest (lexRules .stExpression) (c :: s) = some (n, rule)) :
    rule = .echo ∧ n = 1 ∨ rule = .blank ∧ n = 2 ∧ s.head? = some '\n' := by
  by_cases both : c = ' ' ∧ s.head? = some '\n'
  · obtain ⟨rfl, newline⟩ := both
    obtain ⟨s, rfl⟩ := List.head?_eq_some_iff.mp newline
    cases longest_blank_newline.symm.trans winner
    exact .inr ⟨rfl, rfl, rfl⟩
  · cases (longest_blank blank both).symm.trans winner
    exact .inl ⟨rfl, rfl⟩

theorem next_of_skips (skips : rule.skips = true) : rule.next start = start := by
  cases rule <;> first | rfl | cases skips

/-- A blank in the text is passed over in the spaced text, too. -/
theorem scan_blank_lexeme (blank : Blank c)
    (found : longest (lexRules .stExpression) (c :: t ++ s) = some ((c :: t).length, rule))
    (tail : CString) :
    scan .stExpression (c :: t ++ tail).length (c :: t ++ tail) =
      scan .stExpression tail.length tail := by
  rcases rule_of_blank blank found with ⟨_, one⟩ | ⟨_, two, newline⟩
  · obtain rfl := List.length_eq_zero_iff.mp (Nat.succ.inj one)
    exact scan_blank blank
  · obtain ⟨d, rfl⟩ := List.length_eq_one_iff.mp (Nat.succ.inj two)
    cases newline
    have inner : scan .stExpression ('\n' :: tail).length ('\n' :: tail) =
        scan .stExpression tail.length tail := scan_blank (.inr rfl)
    exact (scan_blank blank).trans inner

/-- The next token is the same, and what is behind it is spaced, too. -/
theorem Spaced.scan_eq (spaced : Spaced start s s') :
    (scan start s.length s = none ∧ scan start s'.length s' = none) ∨
      ∃ rule yytext rest rest', scan start s.length s = some (rule, yytext, rest) ∧
        scan start s'.length s' = some (rule, yytext, rest') ∧
          Spaced (rule.next start) rest rest' := by
  induction spaced with
  | nil => exact .inl ⟨scan_nil, scan_nil⟩
  | blank blank more ih =>
    rw [scan_blank blank]
    exact ih
  | @lexeme start t s s' rule some' found more ih =>
    obtain ⟨c, t, rfl⟩ := List.exists_cons_of_ne_nil some'
    by_cases solid : start = .initial ∨ ¬ Blank c
    · have found' := more.longest_eq found solid
      cases skips : rule.skips with
      | false =>
        exact .inr ⟨rule, c :: t, s, s', scan_text _ some' found skips,
          scan_text _ some' found' skips, more⟩
      | true =>
        rw [scan_skipped some' found skips, scan_skipped some' found' skips]
        rw [next_of_skips skips] at ih
        exact ih
    · -- A blank of the text itself goes like one that comes in.
      obtain ⟨inside, blank⟩ := not_or.mp solid
      have blank := Decidable.not_not.mp blank
      obtain rfl : start = .stExpression := by
        cases start with
        | initial => exact absurd rfl inside
        | stExpression => rfl
      have skips : rule.skips = true := by
        rcases rule_of_blank blank found with ⟨rfl, _⟩ | ⟨rfl, _⟩ <;> rfl
      rw [scan_blank_lexeme blank found, scan_blank_lexeme blank found]
      rw [next_of_skips skips] at ih
      exact ih

end Scanning

section SpacedGlobals

/-- Globals that differ in what is left of the buffer, by blanks only. -/
structure Nms.SpacedTo (nms nms' : Nms) : Prop where
  same : nms' = { nms with rest := nms'.rest }
  spaced : Spaced nms.start nms.rest nms'.rest

variable {nms nms' nms₁ : Nms}

theorem lexed_next (nms : Nms) (rule : LexRule) (yytext : CString) :
    (nms.lexed rule yytext).start = rule.next nms.start := by
  cases rule <;> rfl

theorem Nms.SpacedTo.put (to' : nms.SpacedTo nms') (t : CString) :
    (nms.put t).SpacedTo (nms'.put t) := by
  obtain ⟨same, spaced⟩ := to'
  constructor
  · rw [same]
    rfl
  · exact spaced

theorem Nms.SpacedTo.formatted (to' : nms.SpacedTo nms') :
    nms.formatted.SpacedTo nms'.formatted := by
  obtain ⟨same, spaced⟩ := to'
  constructor
  · rw [same]
    rfl
  · exact spaced

theorem Nms.SpacedTo.yylval_eq (to' : nms.SpacedTo nms') : nms'.yylval = nms.yylval := by
  rw [to'.same]

theorem Nms.SpacedTo.buf_eq (to' : nms.SpacedTo nms') : nms'.buf = nms.buf := by
  rw [to'.same]

theorem yylex_none_spaced (to' : nms.SpacedTo nms') (lex : yylex nms = .ok none nms₁) :
    yylex nms' = .ok none nms₁ := by
  rcases yylex_cases nms with ⟨ended, none⟩ | ⟨_, _, _, _, _, _, some'⟩
  · cases none.symm.trans lex
    rcases to'.spaced.scan_eq with ⟨_, ended'⟩ | ⟨_, _, _, _, found, _⟩
    · have start : nms'.start = nms.start := by rw [to'.same]
      rw [yylex_none (by rw [start]; exact ended'), to'.same]
    · cases ended.symm.trans found
  · cases some'.symm.trans lex

/-- The scanner finds the same token with the same value. -/
theorem yylex_spaced (to' : nms.SpacedTo nms') {tok : Token}
    (lex : yylex nms = .ok (some tok) nms₁) :
    ∃ nms₁', yylex nms' = .ok (some tok) nms₁' ∧ nms₁.SpacedTo nms₁' := by
  rcases yylex_cases nms with ⟨_, none⟩ | ⟨rule, yytext, rest, tok', found, token, some'⟩
  · cases none.symm.trans lex
  · cases some'.symm.trans lex
    rcases to'.spaced.scan_eq with ⟨ended, _⟩ | ⟨_, _, _, rest', found', found₁, more⟩
    · cases ended.symm.trans found
    · cases found'.symm.trans found
      have start : nms'.start = nms.start := by rw [to'.same]
      refine ⟨({ nms' with rest := rest' }).lexed rule yytext, ?_, ?_, ?_⟩
      · rw [← token]
        apply yylex_some
        rw [start]
        exact found₁
      · rw [to'.same]
        cases rule <;> rfl
      · rw [lexed_next, lexed_rest, lexed_rest]
        exact more

theorem step_spaced {c c' : Config} (step : ParseStep c c') (to' : c.2.SpacedTo nms') :
    ∃ nms₁, ParseStep (c.1, nms') (c'.1, nms₁) ∧ c'.2.SpacedTo nms₁ := by
  cases step with
  | @literal started _ _ lex =>
    obtain ⟨nms₁, lex', to'⟩ := yylex_spaced to' lex
    have step := @ParseStep.literal started _ _ lex'
    rw [to'.yylval_eq] at step
    exact ⟨_, step, to'.put _⟩
  | opened lex =>
    obtain ⟨nms₁, lex', to'⟩ := yylex_spaced to' lex
    exact ⟨_, .opened lex', to'⟩
  | token lex kind advanced =>
    obtain ⟨nms₁, lex', to'⟩ := yylex_spaced to' lex
    exact ⟨_, .token lex' (by rw [to'.yylval_eq]; exact kind) advanced, to'⟩
  | closed lex value printed =>
    obtain ⟨nms₁, lex', to'⟩ := yylex_spaced to' lex
    exact ⟨_, .closed lex' value (by rw [to'.yylval_eq]; exact printed), to'.formatted.put _⟩

theorem stop_spaced {c : Config} {r : EStateM.Result PatternStop Nms Int} (stop : ParseStop c r)
    (to' : c.2.SpacedTo nms') : ∃ r', ParseStop (c.1, nms') r' ∧ outcome r' = outcome r := by
  have ended {v : Int} {nms₁ nms₁' : Nms} (to' : nms₁.SpacedTo nms₁') :
      outcome (.ok v nms₁') = outcome (.ok v nms₁) := by
    rw [outcome, outcome, to'.buf_eq]
  have failed {e : PatternStop} {nms₁ nms₁' : Nms} (to' : nms₁.SpacedTo nms₁') :
      outcome (.error e nms₁') = outcome (.error e nms₁) := by
    rw [outcome, outcome, to'.buf_eq]
  cases stop with
  | ends lex => exact ⟨_, .ends (yylex_none_spaced to' lex), rfl⟩
  | foreign lex literal opened =>
    obtain ⟨nms₁, lex', to'⟩ := yylex_spaced to' lex
    exact ⟨_, .foreign lex' literal opened, ended to'⟩
  | unclosed lex => exact ⟨_, .unclosed (yylex_none_spaced to' lex), rfl⟩
  | early lex value =>
    obtain ⟨nms₁, lex', to'⟩ := yylex_spaced to' lex
    exact ⟨_, .early lex' value, ended to'⟩
  | undefined lex value printed =>
    obtain ⟨nms₁, lex', to'⟩ := yylex_spaced to' lex
    exact ⟨_, .undefined lex' value (by rw [to'.yylval_eq]; exact printed), failed to'.formatted⟩
  | other lex closed kind =>
    obtain ⟨nms₁, lex', to'⟩ := yylex_spaced to' lex
    exact ⟨_, .other lex' closed (by rw [to'.yylval_eq]; exact kind), ended to'⟩
  | rejected lex kind advanced =>
    obtain ⟨nms₁, lex', to'⟩ := yylex_spaced to' lex
    exact ⟨_, .rejected lex' (by rw [to'.yylval_eq]; exact kind) advanced, ended to'⟩
  | failed lex kind advanced =>
    obtain ⟨nms₁, lex', to'⟩ := yylex_spaced to' lex
    exact ⟨_, .failed lex' (by rw [to'.yylval_eq]; exact kind) advanced, failed to'⟩

theorem reaches_spaced {c c' : Config} (reached : Reaches c c') (to' : c.2.SpacedTo nms') :
    ∃ nms₁, Reaches (c.1, nms') (c'.1, nms₁) ∧ c'.2.SpacedTo nms₁ := by
  induction reached with
  | refl => exact ⟨nms', .refl, to'⟩
  | tail _ step ih =>
    obtain ⟨nms₁, reached, to₁⟩ := ih
    obtain ⟨nms₂, step', to₂⟩ := step_spaced step to₁
    exact ⟨nms₂, reached.tail step', to₂⟩

/-- A pattern with blanks in its expressions gives what it gives without them, from
whatever start condition the scanner is found in. -/
theorem sprintfPattern_spaced (nms : Nms) {s s' : CString} (spaced : Spaced nms.start s s')
    (bufSize : Nat) (n : Int) :
    outcome (sprintfPattern bufSize s' n nms) = outcome (sprintfPattern bufSize s n nms) := by
  obtain ⟨at', r, reached, stop, ran⟩ := sprintfPattern_runs nms s n bufSize
  have to' : (nms.given s bufSize n).SpacedTo (nms.given s' bufSize n) := ⟨rfl, spaced⟩
  obtain ⟨nms₁, reached', to₁⟩ := reaches_spaced reached to'
  obtain ⟨r', stop', same⟩ := stop_spaced stop to₁
  rw [ran, sprintfPattern_of_stop reached' stop']
  exact outcome_callResult same

/-- Blanks in all the places of an expression, and none in the format. -/
theorem spaced_double : Spaced .initial (cstr "%(num*2:d)") (cstr "%( num\n * \n2 :d)") := by
  have closing : Spaced .stExpression [':', 'd', ')'] [' ', ':', 'd', ')'] :=
    .blank (.inl rfl) (@Spaced.lexeme _ [':', 'd', ')'] [] [] .endExpr (by decide) (by decide)
      (.nil _))
  have factor : Spaced .stExpression ['2', ':', 'd', ')'] [' ', '\n', '2', ' ', ':', 'd', ')'] :=
    .blank (.inl rfl) (.blank (.inr rfl) (@Spaced.lexeme _ ['2'] _ _ .number (by decide)
      (by decide) closing))
  have product := @Spaced.lexeme _ ['*'] _ _ .opMul (by decide) (by decide) factor
  have index := @Spaced.lexeme _ ['n', 'u', 'm'] _ _ .index (by decide) (by decide)
    (.blank (.inr rfl) (.blank (.inl rfl) product))
  have opening := @Spaced.lexeme .initial ['%', '('] _ _ .beginExpr (by decide) (by decide)
    (.blank (.inl rfl) index)
  have text : cstr "%(num*2:d)" = ['%', '(', 'n', 'u', 'm', '*', '2', ':', 'd', ')'] := by decide
  have text' : cstr "%( num\n * \n2 :d)" =
      ['%', '(', ' ', 'n', 'u', 'm', '\n', ' ', '*', ' ', '\n', '2', ' ', ':', 'd', ')'] := by
    decide
  rw [text, text']
  exact opening

theorem sprintfPattern_spaced_double :
    outcome (sprintfPattern 50 (cstr "%( num\n * \n2 :d)") 17 (nmsBoot fun _ => 0)) =
      outcome (sprintfPattern 50 (cstr "%(num*2:d)") 17 (nmsBoot fun _ => 0)) :=
  sprintfPattern_spaced (nmsBoot fun _ => 0) spaced_double 50 17

end SpacedGlobals

end JabSimul
