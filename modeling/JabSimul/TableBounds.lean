import JabSimul.UserTables
import JabSimul.ThreadRefinement

/-!
Which documents keep every access to the two tables inside: the ranges of the
generators, the number of users that the sections ask for together, and the ranges
from which an event draws a user.
-/
namespace JabSimul

open Simulation

section Draws

/-- The bounds of a range, as an event reads them. -/
def eventRange (range : XmlNode) : Int × Int :=
  (jAtoi (xmlnodeGetTagData (some range) (cstr "from")) 0,
    jAtoi (xmlnodeGetTagData (some range) (cstr "to")) 0)

/-- A range that is not empty names entries of the table only. -/
def RangeFits (x : Option XmlNode) : Prop :=
  ∀ range, xmlnodeGetTag x (cstr "range") = some range →
    (eventRange range).1 ≤ (eventRange range).2 →
      0 ≤ (eventRange range).1 ∧ (eventRange range).2 < maxUsers

def DrawsFromRoster (x : Option XmlNode) (user : UserProperities) : Prop :=
  (xmlnodeGetTag x (cstr "from_roster")).isSome ∧ user.rosterCount > 0

/-- The world with another outcome of its draws. -/
def World.drawing (w : World) (draws : Nat → Fin (2 ^ 31)) : World :=
  w.withEnv { w.env with random := fun n => draws n }

variable (maxsize : Nat) (x : Option XmlNode) (u : UserPtr) (w : World)

/-- No draw lets the function go outside of the table, or divide by a width that is
no `int`. -/
def DrawsInside : Prop :=
  ∀ draws w', makeUserNameDefinedInXml maxsize x u (w.drawing draws) ≠ .error .crash w'

/-- The entry that a draw from a range goes to. -/
def drawnIndex (lo hi : Int) (drawn : Nat) : Int := (drawn : Int).tmod (hi - lo + 1) + lo

theorem drawnIndex_inside {lo hi : Int} (ordered : lo ≤ hi) (drawn : Nat) :
    lo ≤ drawnIndex lo hi drawn ∧ drawnIndex lo hi drawn ≤ hi := by
  have least := Int.emod_nonneg (drawn : Int) (b := hi - lo + 1) (by omega)
  have most := Int.emod_lt_of_pos (drawn : Int) (b := hi - lo + 1) (by omega)
  rw [drawnIndex, Int.tmod_eq_emod_of_nonneg (by omega)]
  omega

/-- Every entry of a range is drawn by some number. -/
theorem drawnIndex_reaches {lo hi : Int} (narrow : hi - lo + 1 < 2 ^ 31) {k : Int}
    (least : lo ≤ k) (most : k ≤ hi) : ∃ drawn : Fin (2 ^ 31), drawnIndex lo hi drawn = k := by
  refine ⟨⟨(k - lo).toNat, by omega⟩, ?_⟩
  have place : ((k - lo).toNat : Int) = k - lo := by omega
  dsimp only [drawnIndex]
  rw [place, Int.tmod_eq_of_lt (by omega) (by omega)]
  omega

theorem readUserName_crash_iff (k : Int) :
    (∃ w', readUserName k w = .error .crash w') ↔ ¬(0 ≤ k ∧ k < maxUsers) := by
  unfold readUserName
  by_cases inside : 0 ≤ k ∧ k < maxUsers
  · rw [if_pos inside]
    exact ⟨fun ⟨_, stop⟩ => (by cases stop), fun outside => absurd inside outside⟩
  · rw [if_neg inside]
    exact ⟨fun _ => inside, fun _ => ⟨w, rfl⟩⟩

/-- The text of a drawn user, if the entry is enabled. -/
def drawnUser (lo hi : Int) : M (Option CString) := do
  let name ← readUserName (drawnIndex lo hi (← random))
  if name.enabled then return some (apSnprintf maxsize (name.user ++ cstr "@" ++ name.server))
  return none

theorem drawnUser_crash_iff (lo hi : Int) (draws : Nat → Fin (2 ^ 31)) :
    (∃ w', drawnUser maxsize lo hi (w.drawing draws) = .error .crash w') ↔
      ¬(0 ≤ drawnIndex lo hi (draws 0) ∧ drawnIndex lo hi (draws 0) < maxUsers) := by
  generalize later : (w.drawing draws).withEnv { (w.drawing draws).env with
    random := fun n => (draws (n + 1) : Nat) } = w₁
  have drawn : random (w.drawing draws) = .ok (draws 0 : Nat) w₁ := by rw [← later]; rfl
  rw [← readUserName_crash_iff w₁ (drawnIndex lo hi (draws 0))]
  unfold drawnUser
  simp only [bind_apply, drawn]
  cases readUserName (drawnIndex lo hi (draws 0)) w₁ with
  | error e w₂ => simp
  | ok name w₂ =>
    dsimp only
    constructor
    · rintro ⟨w', stop⟩
      split at stop <;> cases stop
    · rintro ⟨w', stop⟩
      cases stop

theorem makeUserName_apply (other : ¬DrawsFromRoster x (w.users u)) :
    makeUserNameDefinedInXml maxsize x u w =
      match xmlnodeGetTag x (cstr "range") with
      | none => .ok ((xmlnodeGetTagData x (cstr "jid")).map fun id => apSnprintf maxsize id) w
      | some range =>
          if (eventRange range).1 ≤ (eventRange range).2 ∧ (w.users u).conn.isSome then
            if (eventRange range).2 - (eventRange range).1 + 1 ≥ 2 ^ 31 then .error .crash w
            else drawnUser maxsize (eventRange range).1 (eventRange range).2 w
          else .ok none w := by
  rw [makeUserNameDefinedInXml, bind_apply, getUser_apply]
  dsimp only
  unfold DrawsFromRoster at other
  rw [if_neg other]
  cases xmlnodeGetTag x (cstr "range") with
  | none => rfl
  | some range =>
    dsimp only [eventRange]
    by_cases reached : jAtoi (xmlnodeGetTagData (some range) (cstr "from")) 0 ≤
        jAtoi (xmlnodeGetTagData (some range) (cstr "to")) 0 ∧ (w.users u).conn.isSome
    · simp only [ge_iff_le, if_pos reached]
      split
      · rfl
      · rfl
    · simp only [ge_iff_le, if_neg reached]
      rfl

theorem drawsInside_iff (other : ¬DrawsFromRoster x (w.users u)) :
    DrawsInside maxsize x u w ↔ ((w.users u).conn.isSome → RangeFits x) := by
  have ran := fun draws => makeUserName_apply maxsize x u (w.drawing draws) other
  unfold DrawsInside RangeFits
  simp only [ran]
  cases ranged : xmlnodeGetTag x (cstr "range") with
  | none => simp
  | some range =>
    dsimp only
    constructor
    · intro inside linked other' same ordered
      cases same
      revert inside ordered
      generalize (eventRange range).1 = lo
      generalize (eventRange range).2 = hi
      intro inside ordered
      have reached : ∀ draws, lo ≤ hi ∧ ((w.drawing draws).users u).conn.isSome = true :=
        fun draws => ⟨ordered, linked⟩
      simp only [if_pos (reached _)] at inside
      by_cases wide : hi - lo + 1 ≥ 2 ^ 31
      · simp only [if_pos wide] at inside
        exact absurd rfl (inside (fun _ => 0) _)
      · simp only [if_neg wide] at inside
        have drawable : ∀ k, lo ≤ k → k ≤ hi → 0 ≤ k ∧ k < maxUsers := by
          intro k least most
          obtain ⟨drawn, same⟩ := drawnIndex_reaches (by omega) least most
          by_contra outside
          obtain ⟨w', stop⟩ := (drawnUser_crash_iff maxsize w lo hi fun _ => drawn).mpr
            (by rw [same]; exact outside)
          exact inside _ w' stop
        exact ⟨(drawable lo (Int.le_refl _) ordered).1, (drawable hi ordered (Int.le_refl _)).2⟩
    · intro fits draws w' stop
      split at stop
      · rename_i reached
        obtain ⟨ordered, linked⟩ := reached
        have inside := fits linked range rfl ordered
        have most : (maxUsers : Int) = 50000 := rfl
        rw [if_neg (by omega)] at stop
        have drawn := drawnIndex_inside ordered (draws 0)
        exact (drawnUser_crash_iff maxsize w _ _ draws).mp ⟨w', stop⟩ (by omega)
      · cases stop

def World.naming (w : World) (names : Nat → UserName) : World := { w with userNamesSpace := names }

/-- A draw from the roster does the same whatever the table holds. -/
def IgnoresNames : Prop :=
  ∀ names, makeUserNameDefinedInXml maxsize x u (w.naming names) =
    match makeUserNameDefinedInXml maxsize x u w with
    | .ok jid w' => .ok jid (w'.naming names)
    | .error e w' => .error e (w'.naming names)

theorem ignoresNames_of_roster (listed : DrawsFromRoster x (w.users u)) :
    IgnoresNames maxsize x u w := by
  intro names
  unfold DrawsFromRoster at listed
  simp only [makeUserNameDefinedInXml, bind_apply, getUser_apply]
  have same : (w.naming names).users u = w.users u := rfl
  rw [same, if_pos listed]
  simp only [bind_apply]
  generalize drawn : w.withEnv { w.env with random := fun n => w.env.random (n + 1) } = w₁
  have first : random w = .ok (w.env.random 0) w₁ := by rw [← drawn]; rfl
  have second : random (w.naming names) = .ok (w.env.random 0) (w₁.naming names) := by
    rw [← drawn]; rfl
  rw [first, second]
  dsimp only [rosterNthJid]
  simp only [bind_apply, get_apply]
  have roster : ((w₁.naming names).users u).rosterHash = (w₁.users u).rosterHash := rfl
  rw [roster]
  cases (w₁.users u).rosterHash.bind fun h =>
      xhashGetNth h ((w.env.random 0 : Int).tmod (w.users u).rosterCount) with
  | none => rfl
  | some ri =>
    have text : (w₁.naming names).rosterText ri = w₁.rosterText ri := rfl
    simp only [pure_apply, text]
    cases formatOnly (w₁.rosterText ri) with
    | none => rfl
    | some jid => rfl

end Draws

/-- A run stays inside of the tables if `fits` holds, and where no pattern breaks it
off only then. -/
def InsideExactly (back fits : Prop) {α : Type} (r : EStateM.Result ConfigStop Setting α) :
    Prop :=
  (fits → InBounds r) ∧ (back → InBounds r → fits)

/-- The accesses of the generators, of the sections and of the events are inside
exactly for fitting ranges and for no more users than the table holds. -/
theorem table_accesses_iff (regcomp : Regcomp) :
    (∀ xcfg s, InsideExactly (∀ cur ∈ generators xcfg, GeneratorComesBack cur)
      (∀ cur ∈ generators xcfg, GeneratorFits cur) (generateUserNamesSpace xcfg s)) ∧
    (∀ xcfg s, InsideExactly
      (∀ curtime, ∀ cur ∈ sections xcfg, (sectionProperities curtime cur).ComesBack)
      (usersAsked regcomp s.world.userNamesSpace (sections xcfg) ≤ maxUsers)
      (setUsersProperities regcomp xcfg s)) ∧
    (∀ maxsize x u w, ¬DrawsFromRoster x (w.users u) →
      (DrawsInside maxsize x u w ↔ ((w.users u).conn.isSome → RangeFits x))) ∧
    ∀ maxsize x u w, DrawsFromRoster x (w.users u) → IgnoresNames maxsize x u w := by
  refine ⟨fun xcfg s => ⟨?_, ?_⟩, fun xcfg s => ⟨?_, ?_⟩, drawsInside_iff, ignoresNames_of_roster⟩
  · exact (judges_generateUserNamesSpace xcfg).inBounds
  · intro back
    apply (judges_generateUserNamesSpace xcfg).fits_of False.elim
    exact settled_generateUserNamesSpace xcfg back
  · exact (judges_setUsersProperities regcomp xcfg).inBounds
  · intro back
    apply (judges_setUsersProperities regcomp xcfg).fits_of And.left
    exact settled_setUsersProperities regcomp xcfg back

section Instances

def leaf (name text : String) : XmlNode := .tag (cstr name) [] [.cdata (cstr text)]

def document (parts : List XmlNode) : XmlNode := .tag (cstr "jab_simul") [] parts

theorem comesBack_a : ComesBack (cstr "a") := by
  intro bufSize room idnum nms
  obtain ⟨start, rest, yylval, yynumid, random, buf, tmpbuf, tmpbufsize, copies⟩ := nms
  have two : 2 ≤ bufSize := by omega
  cases start with
  | initial => exact ⟨_, _, rfl, two, by simp⟩
  | stExpression => exact ⟨_, _, rfl, Nat.zero_le _, by simp⟩

/-- A generator whose names are all `a`. -/
def generatorNode (lo hi : String) : XmlNode :=
  .tag (cstr "user_names_generator") []
    [leaf "name" "a", .tag (cstr "range") [] [leaf "from" lo, leaf "to" hi]]

/-- A program that begins to read its configuration. -/
def plainSetting : Setting := ⟨plainWorld [], nmsBoot fun _ => ⟨0, by decide⟩⟩

theorem generatorNode_comesBack (lo hi : String) : GeneratorComesBack (generatorNode lo hi) := by
  intro field here pattern found
  rcases List.mem_pair.mp here with rfl | rfl
  · cases found
    exact comesBack_a
  · cases found

/-- The last entry of the table can be generated, and the place behind it cannot. -/
theorem table_accesses_end :
    InBounds (generateUserNamesSpace (document [generatorNode "0" "49999"]) plainSetting) ∧
      ¬InBounds (generateUserNamesSpace (document [generatorNode "0" "50000"]) plainSetting) := by
  constructor
  · apply ((table_accesses_iff fun _ => none).1 _ _).1
    intro cur member
    cases List.mem_singleton.mp member
    intro _ _ _
    exact ⟨by decide +kernel, by decide +kernel⟩
  · intro inside
    have fits := ((table_accesses_iff fun _ => none).1 _ _).2 ?_ inside
    · have last := fits (generatorNode "0" "50000") (List.mem_singleton.mpr rfl) rfl
        (by decide +kernel) (by decide +kernel)
      exact absurd last.2 (by decide +kernel)
    · intro cur member
      cases List.mem_singleton.mp member
      exact generatorNode_comesBack _ _

theorem negative_range_outside : ¬∀ xcfg s, InBounds (generateUserNamesSpace xcfg s) := by
  intro claim
  exact claim (document [generatorNode "-1" "0"]) plainSetting .userNamesSpace (-1) _ rfl

end Instances

end JabSimul
