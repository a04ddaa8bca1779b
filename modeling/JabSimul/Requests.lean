import JabSimul.Conn

/-!
Statistics, the bookkeeping of expected answers, and the functions that queue
what a user sends. Every answer is awaited under an identifier in the queue of
the connection on which the request went out.
-/
namespace JabSimul

def initStat (size : Nat) : SStat := ⟨0, size, 0, List.replicate size 0, 0⟩

def addStat (s : SStat) (time : Int) : SStat :=
  let sum := s.statSumTimes - (s.statTimes[s.statPos]?).getD 0 + time
  let pos := s.statPos + 1
  ⟨if pos ≥ s.statSize then 0 else pos, s.statSize,
    if s.statIntable < s.statSize then s.statIntable + 1 else s.statIntable,
    s.statTimes.set s.statPos time, sum⟩

def getDivStat (s : SStat) : Int :=
  s.statSumTimes.tdiv (if s.statIntable = 0 then 1 else s.statIntable)

def getStat (s : SStat) : Int := s.statSumTimes

def addStatNo (no : StatNo) (time : Int) : M Unit :=
  modGlobals fun g => { g with statT := Function.update g.statT no (addStat (g.statT no) time) }

/-- Notes an event that names the connection of the user. -/
def emitOnConn (u : UserPtr) (e : ConnPtr → JpolldConn → Ev) : M Unit :=
  modify fun w =>
    match (w.users u).conn with
    | none => w
    | some c => w.emit (e c (w.heap c).conn)

def xmlNeedResponseNodeCreate (id : CString) (callback : Option Callback) (time : Int)
    (queue : List XmlNeedResponse) : List XmlNeedResponse :=
  ⟨id, time, callback⟩ :: queue

/-- The first entry with the identifier, and the queue without that entry. -/
def xmlNeedResponseNodeGet (id : CString) :
    List XmlNeedResponse → Option XmlNeedResponse × List XmlNeedResponse
  | [] => (none, [])
  | e :: rest =>
      if jStrcmp (some e.id) (some id) = 0 then (some e, rest)
      else
        let (found, rest) := xmlNeedResponseNodeGet id rest
        (found, e :: rest)

def userStoreXmlInfo (u : UserPtr) (id : CString) (callback : Option Callback) (time : Int) :
    M Unit := do
  let c ← derefConn u
  modConn c fun conn =>
    { conn with xmlNeedResponsesQueue :=
        xmlNeedResponseNodeCreate id callback time conn.xmlNeedResponsesQueue }
  emit (.registered c ⟨id, time, callback⟩)

/-- Notes that a request with the number `n` is about to be made. -/
def noteRequest (u : UserPtr) (n : Nat) (force : Bool) : M Unit :=
  emitOnConn u fun c conn =>
    .requested c n force conn.writer.length conn.xmlNeedResponsesQueue

/-- The header of an `iq` with its identifier, waiting for the children of `query`. -/
def queryHeader (u : UserPtr) (type xmlns : CString) :
    M (CString × (List XmlNode → XmlNode)) := do
  let id ← makeJcomId u idBufSize
  return (id, fun children =>
    .tag (cstr "iq") [(cstr "type", type), (cstr "id", id)]
      [.tag (cstr "query") [(cstr "xmlns", xmlns)] children])

def quoted (q : Char) (s : CString) : CString := q :: s ++ [q]

def makeQuery (maxlen : Nat) (q : Char) (id : Option CString) (queryNs : CString)
    (wpmsgNs : Option CString) : CString :=
  let head := match id with
    | some id => cstr "<iq id=" ++ quoted q id ++ cstr " type=" ++ quoted q (cstr "get") ++ cstr ">"
    | none => cstr "<iq type=" ++ quoted q (cstr "get") ++ cstr ">"
  let tmp := apSnprintf maxlen head
  let query := match wpmsgNs with
    | some ns => cstr "<query xmlns=" ++ quoted q queryNs ++ cstr "><wpmsg xmlns=" ++ quoted q ns ++
        cstr "/></query></iq>"
    | none => cstr "<query xmlns=" ++ quoted q queryNs ++ cstr "/></iq>"
  tmp ++ apSnprintf (maxlen - tmp.length) query

/-- The texts `login_plain` and `login_digest` differ in the tag of the secret. -/
def loginText (field : String) (id user : CString) (secret resource : Option CString) : CString :=
  cstr "<iq type=\"set\" id=" ++ quoted (Char.ofNat 34) id ++
    cstr "><query xmlns=\"jabber:iq:auth\"><username>" ++ user ++ cstr "</username><" ++
    cstr field ++ cstr ">" ++ fmtS secret ++ cstr "</" ++ cstr field ++ cstr "><resource>" ++
    fmtS resource ++ cstr "</resource></query></iq>"

def loginPlain (id : CString) (user : UserProperities) : CString :=
  apSnprintf 1000 (loginText "password" id user.idUser (some user.passwd) user.idResource)

/-- `shahash` of an empty text is NULL, which `sprintf` prints in brackets. -/
def loginDigest (sha : CString → CString) (id : CString) (user : UserProperities) : CString :=
  let s := user.sid.getD [] ++ user.passwd
  loginText "digest" id user.idUser (if s = [] then none else some (sha s)) user.idResource

/-- The common body of the two login functions, which differ in the text. -/
def userDoLogin (text : World → CString → UserProperities → CString) (u : UserPtr)
    (curtime : Int) : M Int := do
  let n := (← getUser u).tmpid
  let id ← makeJcomId u idBufSize
  noteRequest u n true
  let user ← getUser u
  let _ ← jpolldConnWriteStr user.conn (some (text (← get) id user)) true
  userStoreXmlInfo u id (some .handleLoginResponse) curtime
  modUser u fun user => { user with state := .isLogging }
  emitOnConn u fun c _ => .loginQueued c id
  return 0

def userDoLoginPlain : UserPtr → Int → M Int := userDoLogin fun _ => loginPlain

def userDoLoginDigest : UserPtr → Int → M Int := userDoLogin fun w => loginDigest w.sha

def apostrophe : Char := Char.ofNat 39

def quotationMark : Char := Char.ofNat 34

def iqPrivate : CString := cstr "jabber:iq:private"

/-- The text of the first request. -/
def ignoredQuery : CString :=
  makeQuery 2000 apostrophe none iqPrivate (some (cstr "wpmsg:ignored"))

/-- The next three requests, which share the buffer and are sent as one packet. -/
def initialQueries : CString :=
  let first := makeQuery 2000 quotationMark none iqPrivate (some (cstr "wpmsg:numextcontacts"))
  let bufsize := 2000 - first.length
  let second := makeQuery bufsize quotationMark none iqPrivate (some (cstr "wpmsg:usersettings"))
  let bufsize := bufsize - second.length
  let third := makeQuery bufsize quotationMark (some (cstr "doroster_0"))
    (cstr "jabber:iq:roster") none
  first ++ second ++ third

def userDoFetchProperities (u : UserPtr) (curtime : Int) : M Int := do
  emitOnConn u fun c _ => .fetchIssued c
  let _ ← jpolldConnWriteStr (← getUser u).conn (some ignoredQuery) true
  userStoreXmlInfo u (cstr "wpmsg:ignored") none curtime
  let _ ← jpolldConnWriteStr (← getUser u).conn (some initialQueries) true
  userStoreXmlInfo u (cstr "wpmsg:numextcontacts") (some .handleNumextcontactsResponse) curtime
  userStoreXmlInfo u (cstr "wpmsg:usersettings") none curtime
  userStoreXmlInfo u (cstr "doroster_0") (some .handleRosterResponse) curtime
  return 0

def extcontactsQuery : CString :=
  makeQuery 2000 apostrophe none iqPrivate (some (cstr "wpmsg:extcontacts"))

def userDoFetchExtcontacts (u : UserPtr) (curtime : Int) : M Int := do
  let ret ← jpolldConnWriteStr (← getUser u).conn (some extcontactsQuery) true
  if ret = 0 then
    userStoreXmlInfo u (cstr "wpmsg:extcontacts") (some .handleExtcontacts) curtime
  return ret

def userDoPresence (u : UserPtr) (type jidTo status showText : Option CString) : M Int := do
  let user ← getUser u
  let presencesSend := if jidTo.isSome then 1 else user.rosterCount
  let x := XmlNode.tag (cstr "presence") []
    (optTextTag "status" status ++ optTextTag "show" showText)
  let x := xmlnodePutAttrib (xmlnodePutAttrib x (cstr "to") jidTo) (cstr "type") type
  let ret ← jpolldConnWrite user.conn (some x) false
  if ret = 0 then
    modUser u fun user => { user with sentPresencesCount := user.sentPresencesCount + presencesSend }
  return ret

/-- The item of a request to add (`del` false) or to delete a contact. -/
def rosterRequestItem (jidFull : CString) (name : Option CString) (del : Bool) : XmlNode :=
  let item := XmlNode.tag (cstr "item") [(cstr "jid", jidFull)] []
  if del then xmlnodePutAttrib item (cstr "subscription") (some (cstr "remove"))
  else
    let item := xmlnodePutAttrib item (cstr "name") name
    let item := xmlnodePutAttrib item (cstr "subscription") (some (cstr "none"))
    xmlnodePutAttrib item (cstr "ask") (some (cstr "subscribe"))

def userDoAdddelRosterItem (u : UserPtr) (curtime : Int) (jidFull : CString)
    (name : Option CString) (del : Bool) : M Int := do
  let n := (← getUser u).tmpid
  let (id, iq) ← queryHeader u (cstr "set") (cstr "jabber:iq:roster")
  noteRequest u n false
  let callback := if del then Callback.handleDelRosterItemResponse
    else Callback.handleAddRosterItemResponse
  userStoreXmlInfo u id (some callback) curtime
  jpolldConnWrite (← getUser u).conn (some (iq [rosterRequestItem jidFull name del])) false

def userDoSendMessage (u : UserPtr) (jidFull : CString) (msg : Option CString) : M Int := do
  match msg with
  | none => return 0
  | some msg =>
      let _ ← makeJcomId u idBufSize
      let text := cstr "<message to=\"" ++ jidFull ++ cstr "\"><body>" ++ msg ++
        cstr "</body></message>"
      jpolldConnWriteStr (← getUser u).conn (some text) false

def userDoSendRawBytes (u : UserPtr) (bytes : Option CString) : M Int := do
  jpolldConnWriteStr (← getUser u).conn bytes false

end JabSimul
