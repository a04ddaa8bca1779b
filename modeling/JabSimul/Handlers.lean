import JabSimul.Requests

/-!
The handlers of what the server sends: answers to requests, presences, messages
and roster pushes. `handle_user_node` finds out which of them a stanza is for.
-/
namespace JabSimul

def isError (x : XmlNode) : Bool :=
  jStrcmp (xmlnodeGetAttrib (some x) (cstr "type")) (some (cstr "error")) = 0

/-- What `handle_login_response` does once the user is logged in. The time of the
login, which a higher debug level prints, is read from the connection. -/
def afterLogin (u : UserPtr) (curtime : Int) : M Unit := do
  if (← getUser u).flags.exitAfterLogin then
    let _ ← readConn (← derefConn u)
    exitIfFlagged u 1
  let _ ← userDoFetchProperities u curtime

def handleLoginResponse (x : XmlNode) (u : UserPtr) (curtime : Int) : M Unit := do
  if isError x then
    expectKill u
    userFinishConn (some u)
    exitIfFlagged u 0
  else
    modUser u fun user => { user with state := .loggedIn }
    emitOnConn u fun c _ => .loggedIn c x
    afterLogin u curtime

def handleRosterResponse (x : XmlNode) (u : UserPtr) : M Unit := do
  if !isError x then
    modify fun w => rosterHashFromXml u (xmlnodeGetTag (some x) (cstr "query")) true w
    let user ← getUser u
    let _ ← userDoPresence u none none user.status user.showText
    modGlobals fun g => { g with presencesAfterRosterCount := g.presencesAfterRosterCount + 1 }

def handleRosterSetResponse (x : XmlNode) (u : UserPtr) : M Unit := do
  if !isError x then
    modify fun w => rosterHashFromXml u (xmlnodeGetTag (some x) (cstr "query")) false w

def handleNumextcontactsResponse (x : XmlNode) (u : UserPtr) (curtime : Int) : M Unit := do
  if !isError x then
    let wpmsg := xmlnodeGetTag (xmlnodeGetTag (some x) (cstr "query")) (cstr "wpmsg")
    let num := match xmlnodeGetTag wpmsg (cstr "data") with
      | none => 0
      | some data => jAtoi (xmlnodeGetData (some data)) 0
    modify fun w => w.updPrivRost u fun p => { p with numextcontacts := num }
    let _ ← userDoFetchExtcontacts u curtime

/-- The answers to adding and to deleting a contact are only timed. -/
def handleRosterItemResponse (no : StatNo) (x : XmlNode) (querytime curtime : Int) : M Unit := do
  if !isError x then addStatNo no (curtime - querytime)

def handleAddRosterItemResponse : XmlNode → Int → Int → M Unit := handleRosterItemResponse .radd

def handleDelRosterItemResponse : XmlNode → Int → Int → M Unit := handleRosterItemResponse .rdel

def handleExtcontacts (x : XmlNode) (u : UserPtr) : M Unit := privRosterFromXml u (some x)

/-- The comparison with `"subscribe"` is made twice, so its second result is known. -/
def handlePresence (x : XmlNode) (u : UserPtr) : M Unit := do
  let jidFrom := xmlnodeGetAttrib (some x) (cstr "from")
  let type := xmlnodeGetAttrib (some x) (cstr "type")
  modGlobals fun g => { g with receivedPresencesCount := g.receivedPresencesCount + 1 }
  modUser u fun user => { user with receivedPresencesCount := user.receivedPresencesCount + 1 }
  if jStrcmp type (some (cstr "subscribe")) = 0 then
    let _ ← userDoPresence u (some (cstr "subscribed")) jidFrom none none
    modGlobals fun g => { g with presencesRostaddCount := g.presencesRostaddCount + 1 }
  else
    let status := xmlnodeGetTagData (some x) (cstr "status")
    let w ← get
    let ri := (w.users u).rosterHash.bind fun h => jidFrom.bind fun jid =>
      xhashGet w.rosterText h jid
    match ri with
    | none => pure ()
    | some ri =>
        let gone := jStrcmp type (some (cstr "subscribe")) = 0 ∨
          jStrcmp status (some (cstr "Disconnected")) = 0
        set (w.updRosterItem ri fun item => { item with available := !decide gone })

/-- The groups of `\[([0-9]+) ([^ ]+) ([^]]+)\]` in a text that starts with a match. -/
def msgDebMatchAt (body : CString) : Option (CString × CString × CString) :=
  match body with
  | '[' :: s =>
      let tm := s.takeWhile Char.isDigit
      match s.dropWhile Char.isDigit with
      | ' ' :: s =>
          let one := s.takeWhile (· ≠ ' ')
          match s.dropWhile (· ≠ ' ') with
          | ' ' :: s =>
              let two := s.takeWhile (· ≠ ']')
              match s.dropWhile (· ≠ ']') with
              | ']' :: _ => if tm = [] ∨ one = [] ∨ two = [] then none else some (tm, one, two)
              | _ => none
          | _ => none
      | _ => none
  | _ => none

/-- `regexec` reports the leftmost match. -/
def msgDebMatches : CString → Option (CString × CString × CString)
  | [] => none
  | c :: s => (msgDebMatchAt (c :: s)).or (msgDebMatches s)

/-- `sscanf` with `%Li` takes a leading zero for the sign of base eight. -/
def scanLi (digits : CString) : Int :=
  let v : Nat := match digits with
    | '0' :: r => digitsValue 8 (r.takeWhile fun c => c.isDigit && c.toNat < 56)
    | r => digitsValue 10 r
  min v (2 ^ 63 - 1)

def handleDebMessage (x : XmlNode) (u : UserPtr) (curtime : Int)
    (isOffline forwardedMsg : Bool) (tm one two : CString) : M Unit := do
  let jidFrom := xmlnodeGetAttrib (some x) (cstr "from")
  let user ← getUser u
  let (debFromName, debToName) := if isError x ^^ forwardedMsg then (two, one) else (one, two)
  if jStrncmp jidFrom (some debFromName) debFromName.length ≠ 0 then emit (.report u .badSender)
  if jStrncmp (some user.idUser) (some debToName) debToName.length ≠ 0 then
    emit (.report u .badReceiver)
  if !isOffline then
    if !forwardedMsg then
      let msg := xmlnodePutAttrib (jutilTofrom x) (cstr "forwarded") (some (cstr "yes"))
      let _ ← jpolldConnWrite user.conn (some msg) false
      modGlobals fun g => { g with forwardedMessagesCount := g.forwardedMessagesCount + 1 }
    else
      let debTm := curtime - scanLi tm
      modUser u fun user =>
        { user with
          receivedMsgsCount := user.receivedMsgsCount + 1
          receivedMsgsTimeSum := user.receivedMsgsTimeSum + debTm }
      addStatNo .mesg debTm

def handleMessage (x : XmlNode) (u : UserPtr) (curtime : Int) : M Unit := do
  modGlobals fun g => { g with receivedMessagesCount := g.receivedMessagesCount + 1 }
  let jidFrom := xmlnodeGetAttrib (some x) (cstr "from")
  let body := xmlnodeGetTagData (some x) (cstr "body")
  let isOffline : Bool :=
    jStrcmp (xmlnodeGetTagData (some x) (cstr "x")) (some (cstr "Offline Storage")) = 0
  let isAdmin : Bool := jStrcmp jidFrom (some (cstr "Administrator")) = 0
  let forwardedMsg : Bool :=
    jStrcmp (xmlnodeGetAttrib (some x) (cstr "forwarded")) (some (cstr "yes")) = 0
  if isOffline && !isAdmin then
    modGlobals fun g =>
      { g with receivedMessagesOfflineCount := g.receivedMessagesOfflineCount + 1 }
  match isAdmin, body with
  | false, some body =>
      match msgDebMatches body with
      | some (tm, one, two) => handleDebMessage x u curtime isOffline forwardedMsg tm one two
      | none => modify fun w => w.userDebug u .noDebugInfo
  | false, none => pure ()
  | true, _ =>
      modGlobals fun g => { g with receivedMessagesAdminCount := g.receivedMessagesAdminCount + 1 }

/-- The call through `node->callback`. -/
def runCallback (callback : Callback) (x : XmlNode) (u : UserPtr) (querytime curtime : Int) :
    M Unit :=
  match callback with
  | .handleLoginResponse => handleLoginResponse x u curtime
  | .handleRosterResponse => handleRosterResponse x u
  | .handleNumextcontactsResponse => handleNumextcontactsResponse x u curtime
  | .handleExtcontacts => handleExtcontacts x u
  | .handleAddRosterItemResponse => handleAddRosterItemResponse x querytime curtime
  | .handleDelRosterItemResponse => handleDelRosterItemResponse x querytime curtime

/-- What `handle_user_node` looks up: without the attribute an answer to a
private query is known by the namespace it carries. -/
def stanzaId (x : XmlNode) : Option CString :=
  match xmlnodeGetAttrib (some x) (cstr "id") with
  | some id => some id
  | none =>
      match xmlnodeGetTag (some x) (cstr "query") with
      | none => none
      | some query =>
          if jStrcmp (xmlnodeGetAttrib (some query) (cstr "xmlns")) (some iqPrivate) = 0 then
            xmlnodeGetAttrib (xmlnodeGetTag (some query) (cstr "wpmsg")) (cstr "xmlns")
          else none

def handleResponse (id : CString) (x : XmlNode) (u : UserPtr) (curtime : Int) : M Unit := do
  let c ← derefConn u
  let (node, queue) := xmlNeedResponseNodeGet id (← readConn c).xmlNeedResponsesQueue
  match node with
  | none => pure ()
  | some node =>
      modConn c fun conn => { conn with xmlNeedResponsesQueue := queue }
      emit (.dispatched c node)
      match node.callback with
      | none => pure ()
      | some callback => runCallback callback x u node.sendTime curtime

def handleUserNode (x : XmlNode) (u : UserPtr) (curtime : Int) : M Unit := do
  match stanzaId x with
  | some id => handleResponse id x u curtime
  | none =>
      let name := xmlnodeGetName (some x)
      if jStrcmp name (some (cstr "presence")) = 0 then handlePresence x u
      else if jStrcmp name (some (cstr "message")) = 0 then handleMessage x u curtime
      else if jStrcmp name (some (cstr "iq")) = 0 then
        match xmlnodeGetTag (some x) (cstr "query") with
        | none => pure ()
        | some query =>
            if jStrcmp (xmlnodeGetAttrib (some x) (cstr "type")) (some (cstr "set")) = 0 ∧
                jStrcmp (xmlnodeGetAttrib (some query) (cstr "xmlns"))
                  (some (cstr "jabber:iq:roster")) = 0 then
              handleRosterSetResponse x u
            else pure ()

end JabSimul
