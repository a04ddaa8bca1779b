import JabSimul.Handlers
import JabSimul.Printf

/-!
The timed events of a user and the scheduler that runs them. The linked list of
repeaters is a list, and a scan rebuilds it entry by entry.
-/
namespace JabSimul

def maxUsers : Nat := 50000

/-- The bytes of a text in the encoding of the sources. -/
def utf8Bytes (s : String) : CString := s.toUTF8.toList.map fun b => Char.ofNat b.toNat

/-- `statusy` without the empty pair that ends it. -/
def statusy : List (CString × CString) :=
  [("Dostêpny", "chat"), ("Chcê pogadaæ", "chat"), ("Szukam przyjació³", "chat"),
    ("Szukam znajomych", "chat"), ("Szukam dziewczyny", "chat"), ("Szukam faceta", "chat"),
    ("Wyszed³em na obiad", "away"), ("Wyszed³em wyrzuciæ \ufffdmieci", "away"),
    ("Wyszed³em do kibelka", "away"), ("Rozmawiam przez telefon", "away"),
    ("Zmywam naczynia", "away"), ("Jestem w ³ó¿ku", "away"),
    ("Zasn¹³em nad klawiatur¹", "away"), ("Niedostêpny na d³u¿ej", "xa"), ("\ufffdpiê", "xa"),
    ("Pracujê", "xa"), ("Wyszed³em po zakupy", "xa"), ("Wyjecha³em na wakacje", "xa"),
    ("Nie przeszkadzaæ", "dnd"), ("Pracujê", "dnd"), ("Programujê", "dnd"),
    ("Nie jestem w nastroju", "dnd")].map fun s => (utf8Bytes s.1, utf8Bytes s.2)

/-- The letters of the conversions that read an argument. -/
def readsArgument (c : Char) : Bool := c ∈ cstr "udioxXsfeEgGcnp"

/-- What stands between a percent sign and the letter of its conversion. `star` says
that the width or the precision is to be read from an argument. -/
structure Modifiers where
  flags : CString
  width : CString
  precision : CString
  long : CString
  star : Bool

def Modifiers.text (m : Modifiers) : CString := m.flags ++ (m.width ++ (m.precision ++ m.long))

/-- A lower case letter and a byte outside of ASCII stand behind no modifier but `l`. -/
def readModifiers (s : CString) : Modifiers :=
  let long (s : CString) : CString := if s.head? = some 'l' then ['l'] else []
  if s.head?.all fun c => c.toNat < 128 && !c.isLower then
    let flags := s.takeWhile isFlag
    let s := s.dropWhile isFlag
    let width := s.takeWhile Char.isDigit
    let s₁ := s.dropWhile Char.isDigit
    match s₁ with
    | '.' :: s₂ =>
        let digits := s₂.takeWhile Char.isDigit
        let s₃ := s₂.dropWhile Char.isDigit
        ⟨flags, width, '.' :: digits, long s₃, digits = [] && s₃.head? = some '*'⟩
    | s₁ => ⟨flags, width, [], long s₁, width = [] && s₁.head? = some '*'⟩
  else ⟨[], [], [], long s, false⟩

/-- What `format_converter` writes for the text behind a percent sign, and where it
goes on. An argument that was not passed, and a number that no `int` holds, is `none`. -/
def convWithoutArgument (s : CString) : Option (CString × CString) :=
  let m := readModifiers s
  let width := digitsValue 10 m.width
  if m.star || width ≥ 2 ^ 31 || digitsValue 10 m.precision.tail ≥ 2 ^ 31 then none
  else
    match s.drop m.text.length with
    | [] => some ([], [])
    | c :: rest =>
        if readsArgument c then none
        else
          let body := if c = '%' then ['%'] else ['%', c]
          let pad := List.replicate (width - body.length) ' '
          some (if m.flags.contains '-' then body ++ pad else pad ++ body, rest)

/-- The loop of `format_converter`. -/
def formatLoop : Nat → CString → Option CString
  | _, [] => some []
  | 0, _ => none
  | fuel + 1, '%' :: s =>
      match convWithoutArgument s with
      | none => none
      | some (text, rest) => (formatLoop fuel rest).map (text ++ ·)
  | fuel + 1, c :: s => (formatLoop fuel s).map (c :: ·)

/-- A jid that is used as a format. -/
def formatOnly (s : CString) : Option CString := formatLoop s.length s

/-- An index outside of `user_names_space` reads foreign memory. -/
def readUserName (num : Int) : M UserName := do
  if 0 ≤ num ∧ num < maxUsers then return (← get).userNamesSpace num.toNat else throw .crash

/-- The text of the item that `xhash_get_nth` finds in the roster of a user. -/
def rosterNthJid (u : UserPtr) (num : Int) : M CString := do
  let w ← get
  match (w.users u).rosterHash.bind fun h => xhashGetNth h num with
  | none => throw .crash
  | some ri => return w.rosterText ri

/-- `makeUserName_defined_in_xml`. The width of the range is an `int`. -/
def makeUserNameDefinedInXml (maxsize : Nat) (x : Option XmlNode) (sender : UserPtr) :
    M (Option CString) := do
  let user ← getUser sender
  if (xmlnodeGetTag x (cstr "from_roster")).isSome ∧ user.rosterCount > 0 then
    let num := (← random : Int).tmod user.rosterCount
    match formatOnly (← rosterNthJid sender num) with
    | none => throw .crash
    | some jid => return some (apSnprintf maxsize jid)
  else
    match xmlnodeGetTag x (cstr "range") with
    | some range =>
        let lo := jAtoi (xmlnodeGetTagData (some range) (cstr "from")) 0
        let hi := jAtoi (xmlnodeGetTagData (some range) (cstr "to")) 0
        if hi ≥ lo ∧ user.conn.isSome then
          if hi - lo + 1 ≥ 2 ^ 31 then throw .crash
          let name ← readUserName ((← random : Int).tmod (hi - lo + 1) + lo)
          if name.enabled then
            return some (apSnprintf maxsize (name.user ++ cstr "@" ++ name.server))
        return none
    | none =>
        return (xmlnodeGetTagData x (cstr "jid")).map fun id => apSnprintf maxsize id

/-- The debug information, in a buffer of a thousand bytes on the stack. -/
def debugPrefix (u : UserPtr) (x : Option XmlNode) (jidTo : Option CString) : M CString := do
  match xmlnodeGetTag x (cstr "prepend_with_debug_info") with
  | none => return []
  | some _ =>
      let curtime ← gettimeofday
      match jidTo with
      | none => throw .crash
      | some jidTo =>
          let text := cstr "[" ++ fmtI curtime ++ cstr " " ++ (← getUser u).idUser ++ cstr " " ++
            jidTo.takeWhile (· ≠ '@') ++ cstr "] "
          if text.length < 1000 then return text else throw .crash

def randomBytes : Nat → M CString
  | 0 => return []
  | n + 1 => do
      let r ← random
      return Char.ofNat (r % 255 + 1) :: (← randomBytes n)

/-- `sizeof(struct pfree)`. -/
def pfreeSize : Int := 32

/-- `makeBytes_defined_in_xml` as both callers use it, without a buffer. Without a source
`ap_snprintf` gets the missing buffer and a size of zero, and stores its terminator there.
A size of zero or below leaves an empty text whose terminator lies in the tracker of the
block. What `pool_free` later makes of that tracker is left open: the handlers come back. -/
def makeBytesDefinedInXml (u : UserPtr) (x : Option XmlNode) (jidTo : Option CString) :
    M (Option CString) := do
  let prepbuf ← debugPrefix u x jidTo
  if (xmlnodeGetTag x (cstr "text")).isSome then
    let text := (xmlnodeGetTagData x (cstr "text")).getD []
    return some (apSnprintf (prepbuf.length + text.length + 1) (prepbuf ++ text))
  else if (xmlnodeGetTag x (cstr "file")).isSome then
    let w ← get
    return ((xmlnodeGetTagData x (cstr "file")).bind w.env.files).map fun content =>
      prepbuf ++ content.takeWhile (·.toNat ≠ 0)
  else if (xmlnodeGetTag x (cstr "random_stream")).isSome then
    let maxsize := prepbuf.length + jAtoi (xmlnodeGetAttrib x (cstr "len")) 1
    -- `pmalloc` waits for ever when `malloc` is asked for a negative size
    if maxsize + pfreeSize < 0 then throw .diverged
    let text := apSnprintf maxsize.toNat prepbuf
    return some (text ++ (← randomBytes (maxsize.toNat - 1 - text.length)))
  else throw .crash

def evConnect (arg : Option XmlNode) (u : UserPtr) : M Unit := do
  if (← getUser u).conn.isNone then
    modUser u fun user => { user with digestAuth := (xmlnodeGetTag arg (cstr "digest")).isSome }
    let _ ← userConnect u
    modGlobals fun g => { g with evConnectCount := g.evConnectCount + 1 }

/-- Kills are counted in `ev_connect_count` too. -/
def evKillConnection (u : UserPtr) : M Unit := do
  if (← getUser u).conn.isSome then
    expectKill u
    userConnKill u .evKillConnection
    modGlobals fun g => { g with evConnectCount := g.evConnectCount + 1 }

def evAddRoster (arg : Option XmlNode) (u : UserPtr) (curtime : Int) : M Unit := do
  match (← getUser u).rosterHash with
  | none => pure ()
  | some hash =>
      let maxRosterCount := jAtoi (xmlnodeGetTagData arg (cstr "max_roster_count")) 1000000
      if (← getUser u).rosterCount ≥ maxRosterCount then return ()
      match xmlnodeGetTag arg (cstr "user") with
      | none => pure ()
      | some userNode =>
          match ← makeUserNameDefinedInXml 2000 (some userNode) u with
          | none => pure ()
          | some jidFull =>
              if (xhashGet (← get).rosterText hash jidFull).isNone then
                let ret ← userDoAdddelRosterItem u curtime jidFull (some jidFull) false
                if ret = 0 then
                  modGlobals fun g => { g with evAddRosterCount := g.evAddRosterCount + 1 }
                  let user ← getUser u
                  let _ ← userDoPresence u (some (cstr "subscribe")) (some jidFull) user.status
                    user.showText

def evDelRoster (u : UserPtr) (curtime : Int) : M Unit := do
  let user ← getUser u
  if user.rosterHash.isSome ∧ user.rosterCount > 0 then
    let num := (← random : Int).tmod user.rosterCount
    let jid ← rosterNthJid u num
    let ret ← userDoAdddelRosterItem u curtime jid none true
    if ret = 0 then
      modGlobals fun g => { g with evDelRosterCount := g.evDelRosterCount + 1 }

def evSendMessage (arg : Option XmlNode) (u : UserPtr) : M Unit := do
  match xmlnodeGetTag arg (cstr "user") with
  | none => pure ()
  | some userNode =>
      match ← makeUserNameDefinedInXml 2000 (some userNode) u with
      | none => pure ()
      | some jidFull =>
          let message ← makeBytesDefinedInXml u arg (some jidFull)
          let ret ← userDoSendMessage u jidFull message
          if ret = 0 then
            modGlobals fun g => { g with evSendMessageCount := g.evSendMessageCount + 1 }

def evSendRawBytes (arg : Option XmlNode) (u : UserPtr) : M Unit := do
  let bytes ← makeBytesDefinedInXml u arg none
  let _ ← userDoSendRawBytes u bytes
  expectKill u

def evChangeStatus (arg : Option XmlNode) (u : UserPtr) : M Unit := do
  let status := xmlnodeGetTagData arg (cstr "status")
  let showText := xmlnodeGetTagData arg (cstr "show")
  let (status, showText) ←
    if status.isSome ∧ showText.isSome then pure (status, showText)
    else do
      let r := (statusy[(← random) % statusy.length]?).getD ([], [])
      pure (some (status.getD r.1), some (showText.getD r.2))
  modUser u fun user => { user with status := status, showText := showText }
  let ret ← userDoPresence u none none status showText
  if ret = 0 then
    modGlobals fun g => { g with evChangeStatusCount := g.evChangeStatusCount + 1 }

def evLogout (u : UserPtr) : M Unit := do
  if (← getUser u).privRost.loaded then
    modify fun w => w.updPrivRost u fun p => { p with numextcontacts := p.numextcontacts + 1 }
    let iqList ← privRosterList2xml u
    let iqNum ← privRosterNumextcontacts2xml u
    let _ ← jpolldConnWrite (← getUser u).conn iqList true
    let _ ← jpolldConnWrite (← getUser u).conn iqNum true
  let _ ← jpolldConnWriteStr (← getUser u).conn (some (cstr "</stream:stream>")) true
  userFinishConn (some u)

/-- The call through `cur_er->event_handler`, which reads nothing of the event
but its argument. -/
def runEvent (h : EventHandler) (arg : Option XmlNode) (u : UserPtr) (curtime : Int) : M Unit :=
  match h with
  | .evChangeStatus => evChangeStatus arg u
  | .evSendMessage => evSendMessage arg u
  | .evSendRawBytes => evSendRawBytes arg u
  | .evAddRoster => evAddRoster arg u curtime
  | .evDelRoster => evDelRoster u curtime
  | .evConnect => evConnect arg u
  | .evKillConnection => evKillConnection u
  | .evLogout => evLogout u

/-- The list of names that the `REPEATER` macros declare. -/
def repeaterOf (evName : Option CString) (xml : XmlNode) :
    Option (EventHandler × Option XmlNode × Option UserState) :=
  let is := fun name => jStrcmp evName (some (cstr name)) = 0
  if is "change_status" then some (.evChangeStatus, some xml, some .loggedIn)
  else if is "send_message" then some (.evSendMessage, some xml, some .loggedIn)
  else if is "send_raw_bytes" then some (.evSendRawBytes, some xml, none)
  else if is "add_roster" then some (.evAddRoster, some xml, some .loggedIn)
  else if is "del_roster" then some (.evDelRoster, none, some .loggedIn)
  else if is "connect" then some (.evConnect, some xml, some .canLogin)
  else if is "kill_connection" then some (.evKillConnection, none, none)
  else if is "logout" then some (.evLogout, none, some .loggedIn)
  else none

def createRepeaterFromXml (xml : XmlNode) (curtime : Int) : EventRepeater :=
  let frequency := 1000 * jAtoi (xmlnodeGetTagData (some xml) (cstr "frequency")) (-1)
  let counter := jAtoi (xmlnodeGetTagData (some xml) (cstr "counter")) (-1)
  match repeaterOf (xmlnodeGetTagData (some xml) (cstr "name")) xml with
  | some (h, arg, userState) => ⟨curtime, frequency, some h, counter, userState, arg⟩
  | none => ⟨curtime, frequency, none, counter, some .loggedIn, none⟩

/-- `copy_repeaters`: each user gets its own list, shifted by random times. -/
def copyRepeaters : List EventRepeater → M (List EventRepeater)
  | [] => return []
  | er :: rest => do
      let shift : Int ←
        if er.frequency > 0 then do
          pure (1000 * ((← random : Int).tmod (er.frequency.tdiv 1000)))
        else pure 1
      return { er with activationTm := er.activationTm + shift } :: (← copyRepeaters rest)

def never : Int := 0xFFFFFFFF

/-- The next activation of a repeater that is due. -/
def rescheduled (now : Int) (er : EventRepeater) : M EventRepeater := do
  if er.frequency ≥ 0 then
    let r ← random
    return { er with
      activationTm := now + er.frequency + er.frequency.tdiv 10000 * ((r % 3000 : Nat) - 1500) }
  else return er

/-- The call of the handler of a repeater that is due. -/
def fireRepeater (u : UserPtr) (now : Int) (er : EventRepeater) : M EventRepeater := do
  match er.eventHandler with
  | none => return er
  | some h =>
      let state := (← getUser u).state
      let doEvents := (← get).globals.doEvents
      if (er.userState = none ∨ er.userState = some state) ∧ er.counter ≠ 0 ∧
          (doEvents ∨ er.userState = none ∨ er.userState = some .canLogin) then
        emit (.handlerRun u h)
        runEvent h er.arg u now
        return { er with counter := if er.counter > 0 then er.counter - 1 else er.counter }
      else return er

/-- The body of the loop over the events of a user. -/
def repeaterRound (u : UserPtr) (now : Int) (er : EventRepeater) : M EventRepeater := do
  let er ←
    if er.activationTm ≠ 0 ∧ er.activationTm ≤ now then do
      fireRepeater u now (← rescheduled now er)
    else pure er
  modUser u fun user =>
    if user.soonerActivationTm > er.activationTm then
      { user with soonerActivationTm := er.activationTm }
    else user
  return er

def repeaterScan (u : UserPtr) (now : Int) : List EventRepeater → M (List EventRepeater)
  | [] => return []
  | er :: rest => do
      let er ← repeaterRound u now er
      return er :: (← repeaterScan u now rest)

def userHandleRepeaterQueue (u : UserPtr) (curtime : Int) : M Unit := do
  let user ← getUser u
  if user.soonerActivationTm ≤ curtime then
    modUser u fun user => { user with soonerActivationTm := never }
    let queue ← repeaterScan u curtime user.eventsQueue
    modUser u fun user => { user with eventsQueue := queue }

end JabSimul
