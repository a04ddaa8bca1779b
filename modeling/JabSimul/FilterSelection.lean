import JabSimul.TableBounds

/-!
Which users a section makes, beside what its filter says. The code looks for the
bounds of a range among the children of the filter.
-/
namespace JabSimul

section Selection

variable (regcomp : Regcomp) (names : Nat → UserName)

/-- A filter as its text describes it: the bounds are those of its range. -/
def describedFilter (filter : Option XmlNode) : Option Filter := do
  let range := xmlnodeGetTag filter (cstr "range")
  let nameMatches ← regcomp ((xmlnodeGetTagData filter (cstr "name")).getD (cstr ".*"))
  let serverMatches ← regcomp ((xmlnodeGetTagData filter (cstr "server")).getD (cstr ".*"))
  return ⟨nameMatches, serverMatches, jAtoi (xmlnodeGetTagData range (cstr "from")) 0,
    jAtoi (xmlnodeGetTagData range (cstr "to")) maxUsers⟩

def describedSelects (cur : XmlNode) : Option (List Nat) :=
  (describedFilter regcomp (xmlnodeGetTag (some cur) (cstr "filter"))).map (·.selected names)

/-- The bounds that the code finds, and those of the range, hold the same enabled
entries that match. -/
def BoundsAgree (cur : XmlNode) : Prop :=
  ∀ f d, readFilter regcomp (xmlnodeGetTag (some cur) (cstr "filter")) = some f →
    describedFilter regcomp (xmlnodeGetTag (some cur) (cstr "filter")) = some d →
      ∀ j : Nat, j < maxUsers → (names j).enabled → f.nameMatches (names j).user →
        f.serverMatches (names j).server → ((f.lo ≤ j ∧ j ≤ f.hi) ↔ (d.lo ≤ j ∧ j ≤ d.hi))

theorem selected_eq_iff (f d : Filter) : f.selected names = d.selected names ↔
    ∀ j, j < maxUsers → (f.Selects (names j) j ↔ d.Selects (names j) j) := by
  unfold Filter.selected
  constructor
  · intro same j inside
    have member : j ∈ List.range maxUsers := List.mem_range.mpr inside
    have both := congrArg (j ∈ ·) same
    simpa [member] using both
  · intro alike
    apply List.filter_congr
    intro j member
    simp [alike j (List.mem_range.mp member)]

/-- Both readings take the expressions from the same places. -/
theorem filters_cases (filter : Option XmlNode) :
    (readFilter regcomp filter = none ∧ describedFilter regcomp filter = none) ∨
      ∃ f d, readFilter regcomp filter = some f ∧ describedFilter regcomp filter = some d ∧
        f.nameMatches = d.nameMatches ∧ f.serverMatches = d.serverMatches := by
  unfold readFilter describedFilter
  cases regcomp ((xmlnodeGetTagData filter (cstr "name")).getD (cstr ".*")) with
  | none => exact .inl ⟨rfl, rfl⟩
  | some nameMatches =>
    cases regcomp ((xmlnodeGetTagData filter (cstr "server")).getD (cstr ".*")) with
    | none => exact .inl ⟨rfl, rfl⟩
    | some serverMatches => exact .inr ⟨_, _, rfl, rfl, rfl, rfl⟩

theorem selects_iff_boundsAgree (cur : XmlNode) :
    sectionSelects regcomp names cur = describedSelects regcomp names cur ↔
      BoundsAgree regcomp names cur := by
  unfold sectionSelects describedSelects BoundsAgree
  rcases filters_cases regcomp (xmlnodeGetTag (some cur) (cstr "filter")) with
    ⟨wrong, wrong'⟩ | ⟨f, d, read, described, sameName, sameServer⟩
  · rw [wrong, wrong']
    exact ⟨fun _ f d found => (by cases found), fun _ => rfl⟩
  · rw [read, described, Option.map_some, Option.map_some, Option.some.injEq, selected_eq_iff]
    unfold Filter.Selects
    rw [← sameName, ← sameServer]
    constructor
    · intro alike f' d' same same' j inside enabled name server
      cases same
      cases same'
      simpa [enabled, name, server] using alike j inside
    · intro agree j inside
      have here := agree f d rfl rfl j inside
      constructor
      · rintro ⟨enabled, bounds, name, server⟩
        exact ⟨enabled, (here enabled name server).mp bounds, name, server⟩
      · rintro ⟨enabled, bounds, name, server⟩
        exact ⟨enabled, (here enabled name server).mpr bounds, name, server⟩

theorem sectionSelects_increasing {cur : XmlNode} {js : List Nat}
    (selects : sectionSelects regcomp names cur = some js) : js.Pairwise (· < ·) := by
  obtain ⟨f, -, rfl⟩ := Option.map_eq_some_iff.mp selects
  exact List.pairwise_lt_range.filter _

end Selection

/-- Users are made one after another, for the entries of one section after another
and in increasing order, and for those that the filters describe exactly if the
bounds agree. -/
theorem filter_selection_iff (regcomp : Regcomp) (xcfg : XmlNode) (s s' : Setting)
    (mades : List (List Nat)) (ran : setUsersProperities regcomp xcfg s = .ok mades s') :
    Filled mades.flatten s.world.userNamesSpace s'.world ∧
      (∀ made ∈ mades, made.Pairwise (· < ·)) ∧
      (mades.map some = (sections xcfg).map (describedSelects regcomp s.world.userNamesSpace) ↔
        ∀ cur ∈ sections xcfg, BoundsAgree regcomp s.world.userNamesSpace cur) := by
  have judged := judges_setUsersProperities (s := s) regcomp xcfg
  rw [ran] at judged
  obtain ⟨-, same, filled⟩ := judged
  refine ⟨filled, ?_, ?_⟩
  · intro made member
    have listed : some made ∈ mades.map some := List.mem_map.mpr ⟨made, member, rfl⟩
    rw [← same] at listed
    obtain ⟨cur, -, selects⟩ := List.mem_map.mp listed
    exact sectionSelects_increasing regcomp _ selects
  · rw [← same, List.map_inj_left]
    simp only [selects_iff_boundsAgree]

theorem setUsersProperities_returns (regcomp : Regcomp) (xcfg : XmlNode) (s : Setting)
    (room : usersAsked regcomp s.world.userNamesSpace (sections xcfg) ≤ maxUsers)
    (back : ∀ curtime, ∀ cur ∈ sections xcfg, (sectionProperities curtime cur).ComesBack)
    (right : none ∉ (sections xcfg).map (sectionSelects regcomp s.world.userNamesSpace)) :
    ∃ mades s', setUsersProperities regcomp xcfg s = .ok mades s' ∧
      (sections xcfg).map (sectionSelects regcomp s.world.userNamesSpace) = mades.map some := by
  have judged := judges_setUsersProperities (s := s) regcomp xcfg
  have settled := settled_setUsersProperities (s := s) regcomp xcfg back
  cases ran : setUsersProperities regcomp xcfg s with
  | ok mades s' =>
    rw [ran] at judged
    exact ⟨mades, s', rfl, judged.2.1⟩
  | error e s' =>
    rw [ran] at judged settled
    cases e with
    | exitApp code => exact absurd judged.2 right
    | outOfBounds table index => exact absurd room judged
    | pattern stop => exact settled.elim
    | overrun => exact settled.elim
    | world stop => exact settled.elim

section Instances

/-- Every expression is right, and every text matches it. -/
def matchAll : Regcomp := fun _ => some fun _ => true

/-- A section about the entries of a range, that says nothing else of its users. -/
def rangedSection (lo hi : String) : XmlNode :=
  .tag (cstr "user_properities") [] [.tag (cstr "filter") []
    [.tag (cstr "range") [] [leaf "from" lo, leaf "to" hi]]]

theorem rangedSection_returns (lo hi : String) : ∃ mades s',
    setUsersProperities matchAll (document [rangedSection lo hi]) plainSetting = .ok mades s' ∧
      [sectionSelects matchAll plainSetting.world.userNamesSpace (rangedSection lo hi)] =
        mades.map some := by
  have right : ∃ f, readFilter matchAll (xmlnodeGetTag (some (rangedSection lo hi))
      (cstr "filter")) = some f := ⟨_, rfl⟩
  obtain ⟨f, read⟩ := right
  have selects : sectionSelects matchAll plainSetting.world.userNamesSpace (rangedSection lo hi) =
      some (f.selected plainSetting.world.userNamesSpace) := by
    rw [sectionSelects, read, Option.map_some]
  have only : sections (document [rangedSection lo hi]) = [rangedSection lo hi] := rfl
  have few : (f.selected plainSetting.world.userNamesSpace).length ≤ maxUsers := by
    apply (List.length_filter_le _ _).trans
    rw [List.length_range]
  have returns := setUsersProperities_returns matchAll (document [rangedSection lo hi]) plainSetting
  rw [only] at returns
  apply returns
  · simp only [usersAsked, selects, Nat.add_zero]
    exact few
  · intro curtime cur member
    cases List.mem_singleton.mp member
    constructor <;> (intro text found; cases found)
  · intro wrong
    rw [List.map_singleton, selects] at wrong
    cases List.mem_singleton.mp wrong

/-- An open range is taken as it is described. -/
theorem filter_selection_open : ∃ mades s',
    setUsersProperities matchAll (document [rangedSection "0" "50000"]) plainSetting =
      .ok mades s' ∧ Filled mades.flatten plainSetting.world.userNamesSpace s'.world ∧
        mades.map some = [describedSelects matchAll plainSetting.world.userNamesSpace
          (rangedSection "0" "50000")] := by
  obtain ⟨mades, s', ran, -⟩ := rangedSection_returns "0" "50000"
  obtain ⟨filled, -, agree⟩ := filter_selection_iff _ _ _ _ _ ran
  refine ⟨mades, s', ran, filled, agree.mpr ?_⟩
  intro cur member f d read described j _ _ _ _
  cases List.mem_singleton.mp member
  cases read
  cases described
  exact Iff.rfl

/-- The range names one entry, and all of them get a user. -/
theorem range_is_ignored : ¬∀ regcomp xcfg s mades s',
    setUsersProperities regcomp xcfg s = .ok mades s' →
      mades.map some = (sections xcfg).map (describedSelects regcomp s.world.userNamesSpace) := by
  intro claim
  obtain ⟨mades, s', ran, made⟩ := rangedSection_returns "0" "0"
  have described := made.trans (claim _ _ _ _ _ ran)
  have same := List.head_eq_of_cons_eq described
  have agree := (selects_iff_boundsAgree _ _ _).mp same _ _ rfl rfl 1 (by decide) rfl rfl rfl
  have bounds := agree.mp (by decide)
  exact absurd bounds.2 (by decide)

end Instances

end JabSimul
