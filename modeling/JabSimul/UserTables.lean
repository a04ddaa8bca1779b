import JabSimul.Configure
import JabSimul.Lib.Simulation

/-!
The two tables of fixed size while the configuration is read. A run that comes back
has gone to no place outside of them, and what a section selects can be read off
the entries of its loop.
-/
namespace JabSimul

open Simulation

/-- How a run says whether its accesses fit into the tables: it breaks off at one
exactly when they do not. Patterns that trap or overrun say nothing. -/
def Judges {α : Type} (fits exits : Prop) (Q : α → Setting → Prop) :
    EStateM.Result ConfigStop Setting α → Prop
  | .ok a s => fits ∧ Q a s
  | .error (.exitApp _) _ => exits
  | .error (.outOfBounds _ _) _ => ¬fits
  | .error _ _ => True

/-- No access was outside of its table. -/
def InBounds {α : Type} (r : EStateM.Result ConfigStop Setting α) : Prop :=
  ∀ table index s, r ≠ .error (.outOfBounds table index) s

/-- The run came to its end, to `exit_app` or to an access outside of a table. -/
def Settled {α : Type} : EStateM.Result ConfigStop Setting α → Prop
  | .ok _ _ | .error (.exitApp _) _ | .error (.outOfBounds _ _) _ => True
  | .error _ _ => False

section Outcomes

variable {α β : Type} {fits exits : Prop} {Q : α → Setting → Prop} {s : Setting}
  {r : EStateM.Result ConfigStop Setting α} {m : ConfM α} {f : α → ConfM β}

theorem Judges.inBounds (judges : Judges fits exits Q r) (holds : fits) : InBounds r := by
  rintro table index s rfl
  exact judges holds

theorem Judges.fits_of (judges : Judges fits exits Q r) (done : exits → fits)
    (settled : Settled r) (inBounds : InBounds r) : fits := by
  cases r with
  | ok a s => exact judges.1
  | error e s =>
    cases e with
    | exitApp code => exact done judges
    | outOfBounds table index => exact absurd rfl (inBounds table index s)
    | pattern stop => exact settled.elim
    | overrun => exact settled.elim
    | world stop => exact settled.elim

theorem Judges.conseq {fits' exits' : Prop} {Q' : α → Setting → Prop}
    (judges : Judges fits exits Q r) (same : fits ↔ fits') (stops : exits → exits')
    (post : ∀ a s, Q a s → Q' a s) : Judges fits' exits' Q' r := by
  cases r with
  | ok a s => exact ⟨same.mp judges.1, post a s judges.2⟩
  | error e s =>
    cases e with
    | exitApp code => exact stops judges
    | outOfBounds table index => exact fun holds => judges (same.mpr holds)
    | pattern stop => trivial
    | overrun => trivial
    | world stop => trivial

/-- A sequence fits when its first part does, and what follows does afterwards. -/
theorem Judges.bind {fits' exits' : Prop} {Q' : β → Setting → Prop}
    (first : Judges fits exits Q (m s)) (weaker : fits' → fits) (stops : exits → exits')
    (next : ∀ a s', m s = .ok a s' → fits → Q a s' → Judges fits' exits' Q' (f a s')) :
    Judges fits' exits' Q' ((m >>= f) s) := by
  rw [bind_apply]
  cases ran : m s with
  | ok a s' =>
    rw [ran] at first
    exact next a s' ran first.1 first.2
  | error e s' =>
    rw [ran] at first
    cases e with
    | exitApp code => exact stops first
    | outOfBounds table index => exact fun holds => first (weaker holds)
    | pattern stop => trivial
    | overrun => trivial
    | world stop => trivial

theorem Settled.bind (first : Settled (m s)) (next : ∀ a s', m s = .ok a s' → Settled (f a s')) :
    Settled ((m >>= f) s) := by
  rw [bind_apply]
  cases ran : m s with
  | ok a s' => exact next a s' ran
  | error e s' =>
    rw [ran] at first
    cases e <;> exact first

end Outcomes

/-- A pattern whose calls all come back, and store nothing behind an array. -/
def ComesBack (pattern : CString) : Prop :=
  ∀ bufSize, 50 ≤ bufSize → ∀ idnum nms, ∃ r nms',
    sprintfPattern bufSize pattern idnum nms = .ok r nms' ∧ nms'.Contained bufSize

section Pieces

variable {s : Setting} {bufSize : Nat} {old pattern : CString} {idnum : Int}

theorem judges_sprintfInto :
    Judges True False (fun _ s' => s'.world = s.world) (sprintfInto bufSize old pattern idnum s) := by
  unfold sprintfInto
  cases sprintfPattern bufSize pattern idnum s.nms with
  | error e nms => trivial
  | ok r nms =>
    dsimp only
    split
    · exact ⟨trivial, rfl⟩
    · trivial

theorem settled_sprintfInto (back : ComesBack pattern) (room : 50 ≤ bufSize) :
    Settled (sprintfInto bufSize old pattern idnum s) := by
  obtain ⟨r, nms, ran, contained⟩ := back bufSize room idnum s.nms
  unfold sprintfInto
  rw [ran]
  dsimp only
  rw [if_pos contained]
  trivial

theorem judges_entryOf (table : FixedTable) (index : Int) :
    Judges (0 ≤ index ∧ index < maxUsers) False (fun j s' => j = index.toNat ∧ s' = s)
      (entryOf table index s) := by
  unfold entryOf
  by_cases inside : 0 ≤ index ∧ index < maxUsers
  · rw [if_pos inside]
    exact ⟨inside, rfl, rfl⟩
  · rw [if_neg inside]
    exact inside

theorem settled_entryOf (table : FixedTable) (index : Int) : Settled (entryOf table index s) := by
  unfold entryOf
  split <;> trivial

end Pieces

section UserNames

variable {s : Setting} {namePattern : CString} {serverPattern : Option CString}

/-- The induction is on what is left of the range. -/
theorem judges_generateNames (n : Nat) (i : Int) :
    Judges (n = 0 ∨ (0 ≤ i ∧ i + n ≤ maxUsers)) False (fun _ _ => True)
      (generateNames namePattern serverPattern n i s) := by
  induction n generalizing i s with
  | zero => exact ⟨.inl rfl, trivial⟩
  | succ n ih =>
    apply (judges_entryOf .userNamesSpace i).bind (by omega) (fun stop => stop)
    rintro j s₁ - inside -
    apply (judges_sprintfInto (s := s₁)).bind (fun _ => trivial) (fun stop => stop)
    rintro user s₂ - - -
    have rest : ∀ {s : Setting} (server : CString), Judges
        (n + 1 = 0 ∨ (0 ≤ i ∧ i + (n + 1 : Nat) ≤ maxUsers)) False (fun _ _ => True)
        ((do
          setUserName j ⟨user, server, true⟩
          generateNames namePattern serverPattern n (i + 1) : ConfM Unit) s) := fun server =>
      (ih (i + 1)).conseq (by omega) (fun stop => stop) fun _ _ _ => trivial
    cases serverPattern with
    | none => exact rest _
    | some pattern =>
      apply (judges_sprintfInto (s := s₂)).bind (fun _ => trivial) (fun stop => stop)
      rintro server s₃ - - -
      exact rest server

theorem settled_generateNames (back : ComesBack namePattern)
    (back' : ∀ pattern, serverPattern = some pattern → ComesBack pattern) (n : Nat) (i : Int) :
    Settled (generateNames namePattern serverPattern n i s) := by
  induction n generalizing i s with
  | zero => trivial
  | succ n ih =>
    apply (settled_entryOf .userNamesSpace i).bind
    rintro j s₁ -
    apply (settled_sprintfInto (s := s₁) back (Nat.le_refl 50)).bind
    rintro user s₂ -
    cases serverPattern with
    | none => exact ih (i + 1)
    | some pattern =>
      apply (settled_sprintfInto (s := s₂) (back' pattern rfl) (Nat.le_refl 50)).bind
      rintro server s₃ -
      exact ih (i + 1)

/-- The range of a generator, as its loop takes it. -/
def generatorRange (cur : XmlNode) : Int × Int :=
  let range := xmlnodeGetTag (some cur) (cstr "range")
  (jAtoi (xmlnodeGetTagData range (cstr "from")) 0, jAtoi (xmlnodeGetTagData range (cstr "to")) (-1))

/-- A generator that has a name and a range names entries of the table only. -/
def GeneratorFits (cur : XmlNode) : Prop :=
  (xmlnodeGetTagData (some cur) (cstr "name")).isSome → 0 ≤ (generatorRange cur).2 →
    (generatorRange cur).1 ≤ (generatorRange cur).2 →
      0 ≤ (generatorRange cur).1 ∧ (generatorRange cur).2 < maxUsers

/-- The patterns of a generator always come back. -/
def GeneratorComesBack (cur : XmlNode) : Prop :=
  ∀ field ∈ ["name", "server"], ∀ pattern,
    xmlnodeGetTagData (some cur) (cstr field) = some pattern → ComesBack pattern

theorem generateSection_eq (cur : XmlNode) : generateSection cur =
    match xmlnodeGetTagData (some cur) (cstr "name") with
    | none => return ()
    | some namePattern =>
        if (generatorRange cur).2 > -1 then
          generateNames namePattern (xmlnodeGetTagData (some cur) (cstr "server"))
            ((generatorRange cur).2 - (generatorRange cur).1 + 1).toNat (generatorRange cur).1
        else return () := by
  unfold generateSection generatorRange
  cases xmlnodeGetTag (some cur) (cstr "range") with
  | none => rfl
  | some range => rfl

theorem judges_generateSection (cur : XmlNode) :
    Judges (GeneratorFits cur) False (fun _ _ => True) (generateSection cur s) := by
  rw [generateSection_eq]
  unfold GeneratorFits
  cases xmlnodeGetTagData (some cur) (cstr "name") with
  | none => exact ⟨by simp, trivial⟩
  | some namePattern =>
    dsimp only
    split
    · rename_i ranged
      exact (judges_generateNames _ _).conseq (by simp; omega) (fun stop => stop)
        fun _ _ _ => trivial
    · rename_i unranged
      exact ⟨fun _ _ => by omega, trivial⟩

theorem settled_generateSection {cur : XmlNode} (back : GeneratorComesBack cur) :
    Settled (generateSection cur s) := by
  rw [generateSection_eq]
  cases name : xmlnodeGetTagData (some cur) (cstr "name") with
  | none => trivial
  | some namePattern =>
    dsimp only
    split
    · exact settled_generateNames (back "name" (by simp) _ name)
        (fun pattern => back "server" (by simp) pattern) _ _
    · trivial

/-- The induction is on the generators that are left. -/
theorem judges_generators (sections : List XmlNode) :
    Judges (∀ cur ∈ sections, GeneratorFits cur) False (fun _ _ => True)
      (sections.forM generateSection s) := by
  induction sections generalizing s with
  | nil => exact ⟨by simp, trivial⟩
  | cons cur rest ih =>
    change Judges _ _ _ ((generateSection cur >>= fun _ => rest.forM generateSection) s)
    apply (judges_generateSection cur).bind (fun all => all cur List.mem_cons_self) (fun stop => stop)
    rintro - s₁ - fits -
    exact ih.conseq (by simp [fits]) (fun stop => stop) fun _ _ _ => trivial

theorem settled_generators {sections : List XmlNode}
    (back : ∀ cur ∈ sections, GeneratorComesBack cur) :
    Settled (sections.forM generateSection s) := by
  induction sections generalizing s with
  | nil => trivial
  | cons cur rest ih =>
    change Settled ((generateSection cur >>= fun _ => rest.forM generateSection) s)
    apply (settled_generateSection (back cur List.mem_cons_self)).bind
    rintro - s₁ -
    exact ih fun cur member => back cur (List.mem_cons_of_mem _ member)

end UserNames

/-- The user is the one of a name. -/
def UserProperities.Bears (user : UserProperities) (uns : UserName) : Prop :=
  user.idUser = uns.user ∧ user.idServer = uns.server

/-- Users were put behind those that were there, one for each of some names. -/
structure World.Created (js : List Nat) (w w' : World) : Prop where
  names : w'.userNamesSpace = w.userNamesSpace
  count : w'.usersCount = w.usersCount + js.length
  bears : ∀ n j : Nat, js[n]? = some j → (w'.users (w.usersCount + n)).Bears (w.userNamesSpace j)
  before : ∀ n : Nat, n < w.usersCount → w'.users n = w.users n

namespace World.Created

variable {js js' : List Nat} {w w₁ w₂ : World}

theorem nil (w : World) : Created [] w w := ⟨rfl, rfl, by simp, fun _ _ => rfl⟩

theorem append (first : Created js w w₁) (second : Created js' w₁ w₂) :
    Created (js ++ js') w w₂ := by
  refine ⟨second.names.trans first.names, ?_, fun n j here => ?_, fun n old => ?_⟩
  · rw [second.count, first.count, List.length_append, Nat.add_assoc]
  · by_cases early : n < js.length
    · rw [List.getElem?_append_left early] at here
      rw [second.before (w.usersCount + n) (by rw [first.count]; omega)]
      exact first.bears n j here
    · rw [List.getElem?_append_right (by omega)] at here
      have bears := second.bears (n - js.length) j here
      have place : w.usersCount + js.length + (n - js.length) = w.usersCount + n := by omega
      rwa [first.count, first.names, place] at bears
  · rw [second.before n (by rw [first.count]; omega), first.before n old]

end World.Created

section Users

variable {s : Setting}

theorem copyRepeaters_apply (evList : List EventRepeater) (w : World) :
    ∃ queue env, copyRepeaters evList w = .ok queue (w.withEnv env) := by
  induction evList generalizing w with
  | nil => exact ⟨[], w.env, rfl⟩
  | cons er rest ih =>
    unfold copyRepeaters
    by_cases periodic : er.frequency > 0
    · rw [if_pos periodic]
      obtain ⟨queue, env, ran⟩ := ih (w.withEnv { w.env with random := fun n => w.env.random (n + 1) })
      have drawn : random w = .ok (w.env.random 0)
          (w.withEnv { w.env with random := fun n => w.env.random (n + 1) }) := rfl
      simp only [bind_apply, drawn, pure_apply, ran]
      exact ⟨_, env, rfl⟩
    · rw [if_neg periodic]
      obtain ⟨queue, env, ran⟩ := ih w
      simp only [bind_apply, pure_apply, ran]
      exact ⟨_, env, rfl⟩

theorem userCreate_apply (uns : UserName) (passwd resource : CString) (ssl : Bool)
    (flags : UserFlags) (connectionTimeout loginTimeout : Int) (evList : List EventRepeater)
    (w : World) : ∃ user w', userCreate uns passwd resource ssl flags connectionTimeout
      loginTimeout evList w = .ok user w' ∧ user.Bears uns ∧
        w'.userNamesSpace = w.userNamesSpace ∧ w'.users = w.users ∧
          w'.usersCount = w.usersCount := by
  unfold userCreate
  obtain ⟨queue, env, ran⟩ := copyRepeaters_apply evList { w with nextPtr := w.nextPtr + 1 }
  simp only [bind_apply, groupItemCreate, get_apply, set_apply, pure_apply, ran]
  exact ⟨_, _, rfl, ⟨rfl, rfl⟩, rfl, rfl, rfl⟩

theorem judges_sprintfBuffer (pattern : Option CString) (idnum : Int) :
    Judges True False (fun _ s' => s'.world = s.world) (sprintfBuffer pattern idnum s) := by
  cases pattern with
  | none => exact ⟨trivial, rfl⟩
  | some pattern => exact judges_sprintfInto

theorem judges_createUser (p : Properities) (j : Nat) :
    Judges (s.world.usersCount < maxUsers) False
      (fun _ s' => World.Created [j] s.world s'.world) (createUser p j s) := by
  unfold createUser
  apply (judges_sprintfBuffer p.passwdPattern j).bind (fun _ => trivial) (fun stop => stop)
  rintro passwd s₁ - - same₁
  apply (judges_sprintfBuffer p.resourcePattern j).bind (fun _ => trivial) (fun stop => stop)
  rintro resource s₂ - - same₂
  apply (judges_sprintfBuffer p.fullnamePattern j).bind (fun _ => trivial) (fun stop => stop)
  rintro - s₃ - - same₃
  apply (judges_sprintfBuffer p.hostPattern j).bind (fun _ => trivial) (fun stop => stop)
  rintro - s₄ - - same₄
  have same : s₄.world = s.world := same₄.trans (same₃.trans (same₂.trans same₁))
  rw [← same]
  obtain ⟨user, w, made, bears₀, names₀, users₀, count₀⟩ := userCreate_apply
    (s₄.world.userNamesSpace j) passwd resource p.ssl p.flags p.connectionTimeout p.loginTimeout
    p.evList s₄.world
  have created : Judges True False (fun u s' => u = user ∧ s'.world = w) (onWorld (userCreate
      (s₄.world.userNamesSpace j) passwd resource p.ssl p.flags p.connectionTimeout p.loginTimeout
      p.evList) s₄) := by
    rw [onWorld, made]
    exact ⟨trivial, rfl, rfl⟩
  rw [bind_apply, get_apply]
  dsimp only
  apply created.bind (fun _ => trivial) (fun stop => stop)
  intro u s₅ _ _ back
  have names : s₅.world.userNamesSpace = s₄.world.userNamesSpace := by rw [back.2, names₀]
  have users : s₅.world.users = s₄.world.users := by rw [back.2, users₀]
  have count : s₅.world.usersCount = s₄.world.usersCount := by rw [back.2, count₀]
  have bears : u.Bears (s₄.world.userNamesSpace j) := by rw [back.1]; exact bears₀
  clear created made
  rw [bind_apply, get_apply]
  dsimp only
  generalize index : (s₅.world.usersCount : Int) = k
  apply (judges_entryOf .users k).bind (by omega) (fun stop => stop)
  intro n s₆ _ inside ⟨place, here⟩
  have place : n = s₅.world.usersCount := by omega
  subst place here
  refine ⟨by omega, names, by simp [count], fun n j' here => ?_, fun n old => ?_⟩
  · cases n with
    | zero =>
      cases here
      simpa [count] using bears
    | succ n => cases here
  · have other : n ≠ s₆.world.usersCount := by omega
    simp [other, users]

theorem settled_sprintfBuffer {pattern : Option CString}
    (back : ∀ text, pattern = some text → ComesBack text) (idnum : Int) :
    Settled (sprintfBuffer pattern idnum s) := by
  cases pattern with
  | none => trivial
  | some text => exact settled_sprintfInto (back text rfl) (by decide)

/-- The patterns that the users of a section are made of always come back. -/
structure Properities.ComesBack (p : Properities) : Prop where
  passwd : ∀ text, p.passwdPattern = some text → JabSimul.ComesBack text
  resource : ∀ text, p.resourcePattern = some text → JabSimul.ComesBack text
  fullname : ∀ text, p.fullnamePattern = some text → JabSimul.ComesBack text
  host : ∀ text, p.hostPattern = some text → JabSimul.ComesBack text

theorem settled_createUser {p : Properities} (back : p.ComesBack) (j : Nat) :
    Settled (createUser p j s) := by
  unfold createUser
  apply (settled_sprintfBuffer back.passwd j).bind
  rintro passwd s₁ -
  apply (settled_sprintfBuffer back.resource j).bind
  rintro resource s₂ -
  apply (settled_sprintfBuffer back.fullname j).bind
  rintro - s₃ -
  apply (settled_sprintfBuffer back.host j).bind
  rintro - s₄ -
  rw [bind_apply, get_apply]
  dsimp only
  obtain ⟨user, w, made, _⟩ := userCreate_apply (s₄.world.userNamesSpace j) passwd resource p.ssl
    p.flags p.connectionTimeout p.loginTimeout p.evList s₄.world
  have created : Settled (onWorld (userCreate (s₄.world.userNamesSpace j) passwd resource p.ssl
      p.flags p.connectionTimeout p.loginTimeout p.evList) s₄) := by
    rw [onWorld, made]
    trivial
  apply created.bind
  intro u s₅ _
  rw [bind_apply, get_apply]
  dsimp only
  generalize (s₅.world.usersCount : Int) = k
  apply (settled_entryOf .users k).bind
  intro n s₆ _
  trivial

/-- The entries that a filter selects. -/
def Filter.selected (f : Filter) (names : Nat → UserName) : List Nat :=
  (List.range maxUsers).filter fun j => f.Selects (names j) j

/-- The induction is on the entries that are left. -/
theorem judges_createUsers (f : Filter) (p : Properities) (js : List Nat)
    (room : s.world.usersCount ≤ maxUsers) :
    Judges (s.world.usersCount +
        (js.filter fun j => f.Selects (s.world.userNamesSpace j) j).length ≤ maxUsers) False
      (fun made s' => made = (js.filter fun j => f.Selects (s.world.userNamesSpace j) j) ∧
        World.Created made s.world s'.world)
      (createUsers f p js s) := by
  induction js generalizing s with
  | nil => exact ⟨room, rfl, .nil _⟩
  | cons j js ih =>
    unfold createUsers
    rw [bind_apply, get_apply]
    dsimp only
    by_cases selects : f.Selects (s.world.userNamesSpace j) j
    · rw [if_pos selects, List.filter_cons_of_pos (by simpa using selects)]
      apply (judges_createUser p j).bind (by rw [List.length_cons]; omega) (fun stop => stop)
      intro _ s₁ _ inside created
      apply (ih (s := s₁) ?_).bind ?_ (fun stop => stop)
      · rintro made s₂ - fits ⟨same, created'⟩
        rw [created.names] at same
        refine ⟨?_, by rw [same], created.append created'⟩
        rw [created.names, created.count] at fits
        rw [List.length_cons]
        simp only [List.length_singleton] at fits
        omega
      · rw [created.count]
        exact inside
      · rw [created.names, created.count, List.length_cons]
        simp only [List.length_singleton]
        omega
    · rw [if_neg selects, List.filter_cons_of_neg (by simpa using selects)]
      exact ih room

theorem settled_createUsers (f : Filter) {p : Properities} (back : p.ComesBack)
    (js : List Nat) : Settled (createUsers f p js s) := by
  induction js generalizing s with
  | nil => trivial
  | cons j js ih =>
    unfold createUsers
    rw [bind_apply, get_apply]
    dsimp only
    split
    · apply (settled_createUser back j).bind
      intro _ s₁ _
      apply ih.bind
      intro made s₂ _
      trivial
    · exact ih

end Users

section Sections

variable {s : Setting} (regcomp : Regcomp) (curtime : Int)

/-- What a section selects, if its expressions are right. -/
def sectionSelects (names : Nat → UserName) (cur : XmlNode) : Option (List Nat) :=
  (readFilter regcomp (xmlnodeGetTag (some cur) (cstr "filter"))).map (·.selected names)

/-- How many users the sections ask for, up to the first wrong expression. -/
def usersAsked (names : Nat → UserName) : List XmlNode → Nat
  | [] => 0
  | cur :: rest =>
      match sectionSelects regcomp names cur with
      | none => 0
      | some js => js.length + usersAsked names rest

theorem judges_setSection (cur : XmlNode) (room : s.world.usersCount ≤ maxUsers) :
    Judges (s.world.usersCount +
        ((sectionSelects regcomp s.world.userNamesSpace cur).getD []).length ≤ maxUsers)
      (sectionSelects regcomp s.world.userNamesSpace cur = none)
      (fun made s' => sectionSelects regcomp s.world.userNamesSpace cur = some made ∧
        World.Created made s.world s'.world)
      (setSection regcomp curtime cur s) := by
  unfold setSection sectionSelects Filter.selected
  generalize List.range maxUsers = js
  generalize readProperities _ curtime = p
  cases readFilter regcomp (xmlnodeGetTag (some cur) (cstr "filter")) with
  | none => exact rfl
  | some f =>
    apply (judges_createUsers f p js room).conseq Iff.rfl False.elim
    rintro made s' ⟨rfl, created⟩
    exact ⟨rfl, created⟩

/-- The induction is on the sections that are left. -/
theorem judges_setSections (sections : List XmlNode) (room : s.world.usersCount ≤ maxUsers) :
    Judges (s.world.usersCount + usersAsked regcomp s.world.userNamesSpace sections ≤ maxUsers)
      (s.world.usersCount + usersAsked regcomp s.world.userNamesSpace sections ≤ maxUsers ∧
        none ∈ sections.map (sectionSelects regcomp s.world.userNamesSpace))
      (fun mades s' => sections.map (sectionSelects regcomp s.world.userNamesSpace) =
        mades.map some ∧ World.Created mades.flatten s.world s'.world)
      (setSections regcomp curtime sections s) := by
  induction sections generalizing s with
  | nil => exact ⟨room, rfl, .nil _⟩
  | cons cur rest ih =>
    unfold setSections
    have first := judges_setSection regcomp curtime cur room
    cases selects : sectionSelects regcomp s.world.userNamesSpace cur with
    | none =>
      rw [selects] at first
      unfold usersAsked
      rw [selects]
      apply first.bind (fun _ => room)
      · intro _
        exact ⟨room, List.mem_map.mpr ⟨cur, List.mem_cons_self, selects⟩⟩
      · intro made s₁ _ _ created
        cases created.1
    | some js =>
      rw [selects] at first
      have asked : usersAsked regcomp s.world.userNamesSpace (cur :: rest) =
          js.length + usersAsked regcomp s.world.userNamesSpace rest := by
        rw [usersAsked, selects]
      rw [asked]
      apply first.bind (fun fits => by simp only [Option.getD_some]; omega) (fun stop => by cases stop)
      intro made s₁ _ fits ⟨same, created⟩
      cases same
      have count := created.count
      have names := created.names
      simp only [Option.getD_some] at fits
      rw [← Nat.add_assoc, ← count, ← names]
      apply (ih (s := s₁) (by omega)).bind (fun fits => fits)
        (fun ⟨fits, wrong⟩ => ⟨fits, List.mem_cons_of_mem _ wrong⟩)
      rintro mades s₂ - fits' ⟨same', created'⟩
      refine ⟨fits', ?_, created.append created'⟩
      rw [List.map_cons, List.map_cons, same', names, selects]

def sectionProperities (cur : XmlNode) : Properities :=
  readProperities (xmlnodeGetTag (some cur) (cstr "properities")) curtime

theorem settled_setSection {cur : XmlNode} (back : (sectionProperities curtime cur).ComesBack) :
    Settled (setSection regcomp curtime cur s) := by
  unfold setSection
  generalize List.range maxUsers = js
  cases readFilter regcomp (xmlnodeGetTag (some cur) (cstr "filter")) with
  | none => trivial
  | some f => exact settled_createUsers f back js

theorem settled_setSections {sections : List XmlNode}
    (back : ∀ cur ∈ sections, (sectionProperities curtime cur).ComesBack) :
    Settled (setSections regcomp curtime sections s) := by
  induction sections generalizing s with
  | nil => trivial
  | cons cur rest ih =>
    unfold setSections
    apply (settled_setSection regcomp curtime (back cur List.mem_cons_self)).bind
    intro made s₁ _
    apply (ih fun cur member => back cur (List.mem_cons_of_mem _ member)).bind
    intro mades s₂ _
    trivial

end Sections

def generators (xcfg : XmlNode) : List XmlNode := tagIter (some xcfg) (cstr "user_names_generator")

def sections (xcfg : XmlNode) : List XmlNode := tagIter (some xcfg) (cstr "user_properities")

section Documents

variable {s : Setting} (regcomp : Regcomp) (xcfg : XmlNode)

theorem judges_generateUserNamesSpace :
    Judges (∀ cur ∈ generators xcfg, GeneratorFits cur) False (fun _ _ => True)
      (generateUserNamesSpace xcfg s) := judges_generators (generators xcfg)

theorem settled_generateUserNamesSpace
    (back : ∀ cur ∈ generators xcfg, GeneratorComesBack cur) :
    Settled (generateUserNamesSpace xcfg s) := settled_generators back

/-- The table of users is filled from its beginning. -/
structure Filled (made : List Nat) (names : Nat → UserName) (w : World) : Prop where
  same : w.userNamesSpace = names
  count : w.usersCount = made.length
  bears : ∀ n j : Nat, made[n]? = some j → (w.users n).Bears (names j)

theorem setUsersProperities_eq : ∃ s₁ : Setting, s₁.world.usersCount = 0 ∧
    s₁.world.userNamesSpace = s.world.userNamesSpace ∧ setUsersProperities regcomp xcfg s =
      setSections regcomp (s.world.env.clock 0) (sections xcfg) s₁ :=
  ⟨{ s with world := { s.world with
      env := { s.world.env with clock := fun n => s.world.env.clock (n + 1) }
      usersCount := 0 } }, rfl, rfl, rfl⟩

theorem judges_setUsersProperities :
    Judges (usersAsked regcomp s.world.userNamesSpace (sections xcfg) ≤ maxUsers)
      (usersAsked regcomp s.world.userNamesSpace (sections xcfg) ≤ maxUsers ∧
        none ∈ (sections xcfg).map (sectionSelects regcomp s.world.userNamesSpace))
      (fun mades s' => (sections xcfg).map (sectionSelects regcomp s.world.userNamesSpace) =
        mades.map some ∧ Filled mades.flatten s.world.userNamesSpace s'.world)
      (setUsersProperities regcomp xcfg s) := by
  obtain ⟨s₁, empty, names, ran⟩ := setUsersProperities_eq (s := s) regcomp xcfg
  rw [ran, ← names]
  have filled := judges_setSections regcomp (s.world.env.clock 0) (sections xcfg)
    (s := s₁) (by rw [empty]; exact Nat.zero_le _)
  rw [empty, Nat.zero_add] at filled
  apply filled.conseq Iff.rfl (fun stop => stop)
  rintro mades s' ⟨same, created⟩
  refine ⟨same, created.names, ?_, ?_⟩
  · rw [created.count, empty, Nat.zero_add]
  · intro n j here
    have bears := created.bears n j here
    rwa [empty, Nat.zero_add] at bears

theorem settled_setUsersProperities
    (back : ∀ curtime, ∀ cur ∈ sections xcfg, (sectionProperities curtime cur).ComesBack) :
    Settled (setUsersProperities regcomp xcfg s) := by
  obtain ⟨s₁, -, -, ran⟩ := setUsersProperities_eq (s := s) regcomp xcfg
  rw [ran]
  exact settled_setSections regcomp _ (back _)

end Documents

end JabSimul
