import JabSimul.Pattern
import JabSimul.Thread

/-!
How the configuration fills the two tables of fixed size: the space of user names
and the table of users. An access behind the end of a table ends the run, and so
does a pattern that traps or writes behind its buffer.
-/
namespace JabSimul

inductive FixedTable where
  | userNamesSpace
  | users
  deriving DecidableEq, Repr

inductive ConfigStop where
  | exitApp (code : Int)
  | outOfBounds (table : FixedTable) (index : Int)
  | pattern (stop : PatternStop)
  | overrun
  | world (stop : Stop)
  deriving DecidableEq, Repr

/-- The program while it reads its configuration: the world that it prepares, and
the globals of the scanner of patterns. -/
structure Setting where
  world : World
  nms : Nms

abbrev ConfM := EStateM ConfigStop Setting

def onWorld {α : Type} (m : M α) : ConfM α := fun s =>
  match m s.world with
  | .ok a w => .ok a { s with world := w }
  | .error e w => .error (.world e) { s with world := w }

/-- Every array of the scanner is as long as what was stored in it. -/
def Nms.Contained (nms : Nms) (bufSize : Nat) : Prop :=
  nms.buf.length ≤ bufSize ∧ ∀ c ∈ nms.copies, c.bytes ≤ c.room

instance (nms : Nms) (bufSize : Nat) : Decidable (nms.Contained bufSize) :=
  inferInstanceAs (Decidable (_ ∧ _))

/-- The text in a buffer that held `old`, after a call of `sprintf_pattern`. -/
def sprintfInto (bufSize : Nat) (old pattern : CString) (idnum : Int) : ConfM CString := fun s =>
  match sprintfPattern bufSize pattern idnum s.nms with
  | .error e nms => .error (.pattern e) { s with nms := nms }
  | .ok _ nms =>
      if nms.Contained bufSize then
        .ok (if nms.buf = [] then old else nms.buf.takeWhile (· ≠ nul)) { s with nms := nms }
      else .error .overrun { s with nms := nms }

/-- The entry of a table that the code goes to with an `int`. -/
def entryOf (table : FixedTable) (index : Int) : ConfM Nat :=
  if 0 ≤ index ∧ index < maxUsers then return index.toNat else throw (.outOfBounds table index)

section UserNames

def setUserName (j : Nat) (uns : UserName) : ConfM Unit :=
  modify fun s => { s with
    world := { s.world with userNamesSpace := Function.update s.world.userNamesSpace j uns } }

/-- The loop over the rest of a range. -/
def generateNames (namePattern : CString) (serverPattern : Option CString) : Nat → Int → ConfM Unit
  | 0, _ => return ()
  | n + 1, i => do
      let j ← entryOf .userNamesSpace i
      let uns := (← get).world.userNamesSpace j
      let user ← sprintfInto 50 uns.user namePattern i
      let server ← match serverPattern with
        | none => pure uns.server
        | some pattern => sprintfInto 50 uns.server pattern i
      setUserName j ⟨user, server, true⟩
      generateNames namePattern serverPattern n (i + 1)

/-- One `user_names_generator`. -/
def generateSection (cur : XmlNode) : ConfM Unit := do
  let range := xmlnodeGetTag (some cur) (cstr "range")
  let serverPattern := xmlnodeGetTagData (some cur) (cstr "server")
  let lo := if range.isSome then jAtoi (xmlnodeGetTagData range (cstr "from")) 0 else 0
  let hi := if range.isSome then jAtoi (xmlnodeGetTagData range (cstr "to")) (-1) else -1
  match xmlnodeGetTagData (some cur) (cstr "name") with
  | none => return ()
  | some namePattern =>
      if hi > -1 then generateNames namePattern serverPattern (hi - lo + 1).toNat lo

def generateUserNamesSpace (xcfg : XmlNode) : ConfM Unit := do
  modify fun s => { s with world := { s.world with userNamesSpace := fun _ => ⟨[], [], false⟩ } }
  (tagIter (some xcfg) (cstr "user_names_generator")).forM generateSection

end UserNames

section Users

/-- What a section says of all its users. -/
structure Properities where
  passwdPattern : Option CString
  resourcePattern : Option CString
  fullnamePattern : Option CString
  hostPattern : Option CString
  ssl : Bool
  flags : UserFlags
  connectionTimeout : Int
  loginTimeout : Int
  evList : List EventRepeater

def readProperities (properities : Option XmlNode) (curtime : Int) : Properities where
  passwdPattern := xmlnodeGetTagData properities (cstr "password")
  resourcePattern := xmlnodeGetTagData properities (cstr "resource")
  fullnamePattern := xmlnodeGetTagData properities (cstr "fullname")
  hostPattern := xmlnodeGetTagData properities (cstr "host")
  ssl := (xmlnodeGetTag properities (cstr "ssl")).isSome
  flags := ⟨(xmlnodeGetTag properities (cstr "exit_after_login")).isSome,
    (xmlnodeGetTag properities (cstr "sniff")).isSome, false⟩
  connectionTimeout := jAtoi (xmlnodeGetTagData properities (cstr "connection_timeout")) (-1)
  loginTimeout := jAtoi (xmlnodeGetTagData properities (cstr "login_timeout")) (-1)
  evList := (tagIter properities (cstr "event")).map (createRepeaterFromXml · curtime)

/-- Which entries of the name space a section is about. -/
structure Filter where
  nameMatches : CString → Bool
  serverMatches : CString → Bool
  lo : Int
  hi : Int

def Filter.Selects (f : Filter) (uns : UserName) (j : Nat) : Prop :=
  uns.enabled ∧ (f.lo ≤ j ∧ j ≤ f.hi) ∧ f.nameMatches uns.user ∧ f.serverMatches uns.server

instance (f : Filter) (uns : UserName) (j : Nat) : Decidable (f.Selects uns j) :=
  inferInstanceAs (Decidable (_ ∧ (_ ∧ _) ∧ _ ∧ _))

/-- What `regcomp` makes of an expression: nothing if it is wrong, else what
`regexec` answers for each text. -/
abbrev Regcomp := CString → Option (CString → Bool)

/-- The bounds are looked for in the filter itself, if it has a range. -/
def readFilter (regcomp : Regcomp) (filter : Option XmlNode) : Option Filter := do
  let ranged := (xmlnodeGetTag filter (cstr "range")).isSome
  let nameMatches ← regcomp ((xmlnodeGetTagData filter (cstr "name")).getD (cstr ".*"))
  let serverMatches ← regcomp ((xmlnodeGetTagData filter (cstr "server")).getD (cstr ".*"))
  return ⟨nameMatches, serverMatches,
    if ranged then jAtoi (xmlnodeGetTagData filter (cstr "from")) 0 else 0,
    if ranged then jAtoi (xmlnodeGetTagData filter (cstr "to")) maxUsers else maxUsers⟩

/-- A buffer of the stack, empty at first. -/
def sprintfBuffer (pattern : Option CString) (idnum : Int) : ConfM CString :=
  match pattern with
  | none => return []
  | some pattern => sprintfInto 1000 [] pattern idnum

/-- The body of the loop over the name space for an entry that the filter selects. -/
def createUser (p : Properities) (j : Nat) : ConfM Unit := do
  let passwd ← sprintfBuffer p.passwdPattern j
  let resource ← sprintfBuffer p.resourcePattern j
  let _ ← sprintfBuffer p.fullnamePattern j
  let _ ← sprintfBuffer p.hostPattern j
  let user ← onWorld (userCreate ((← get).world.userNamesSpace j) passwd resource p.ssl p.flags
    p.connectionTimeout p.loginTimeout p.evList)
  let n ← entryOf .users (← get).world.usersCount
  modify fun s => { s with world := { s.world with
    users := Function.update s.world.users n user
    usersCount := s.world.usersCount + 1 } }

/-- The loop over the rest of the name space. Its value, the entries for which a
user was made, is for proofs alone. -/
def createUsers (f : Filter) (p : Properities) : List Nat → ConfM (List Nat)
  | [] => return []
  | j :: js => do
      if f.Selects ((← get).world.userNamesSpace j) j then
        createUser p j
        return j :: (← createUsers f p js)
      else createUsers f p js

/-- One `user_properities`. -/
def setSection (regcomp : Regcomp) (curtime : Int) (cur : XmlNode) : ConfM (List Nat) :=
  match readFilter regcomp (xmlnodeGetTag (some cur) (cstr "filter")) with
  | none => throw (.exitApp 1)
  | some f =>
      createUsers f (readProperities (xmlnodeGetTag (some cur) (cstr "properities")) curtime)
        (List.range maxUsers)

def setSections (regcomp : Regcomp) (curtime : Int) : List XmlNode → ConfM (List (List Nat))
  | [] => return []
  | cur :: rest => do
      let made ← setSection regcomp curtime cur
      return made :: (← setSections regcomp curtime rest)

def setUsersProperities (regcomp : Regcomp) (xcfg : XmlNode) : ConfM (List (List Nat)) := do
  let curtime ← onWorld gettimeofday
  modify fun s => { s with world := { s.world with usersCount := 0 } }
  setSections regcomp curtime (tagIter (some xcfg) (cstr "user_properities"))

end Users

end JabSimul
