import JabSimul.XHash
import Mathlib.Logic.Function.Basic

/-!
The data of a running simulator: the thread with its poll slots, the heap of
connections, the users, their rosters and the global counters. Times are the
microseconds that `ut` computes. Arrays of the sources are functions on indices.
-/
namespace JabSimul

abbrev ConnPtr := Nat
abbrev UserPtr := Nat
abbrev RosterPtr := Nat
abbrev PrivPtr := Nat
abbrev GroupPtr := Nat

/-- An `int` counter that only grows; it wraps as the machine integer does. -/
abbrev CInt := BitVec 32

def maxPfds : Nat := 8000
def maxPacksBuffered : Nat := 10

inductive ConnState where
  | unknown
  | authd
  | closing
  deriving DecidableEq, Repr

inductive SockState where
  | error
  | notConnected
  | connInProgress
  | connected
  deriving DecidableEq, Repr

inductive UserState where
  | disabled
  | canLogin
  | isLogging
  | loggedIn
  deriving DecidableEq, Repr

/-- The handlers that a pending response may name. -/
inductive Callback where
  | handleLoginResponse
  | handleRosterResponse
  | handleNumextcontactsResponse
  | handleExtcontacts
  | handleAddRosterItemResponse
  | handleDelRosterItemResponse
  deriving DecidableEq, Repr

structure XmlNeedResponse where
  id : CString
  sendTime : Int
  callback : Option Callback
  deriving DecidableEq, Repr

/-- The unsent rest of a packet. `pstrdup` keeps a NULL text NULL. -/
structure JpolldWriteBuf where
  cbuffer : Option CString
  deriving DecidableEq, Repr

structure JpolldConn where
  loc : Nat
  state : ConnState
  sstate : SockState
  writer : List JpolldWriteBuf
  creationTime : Int
  user : Option UserPtr
  xmlNeedResponsesQueue : List XmlNeedResponse
  ssl : Bool
  deriving DecidableEq, Repr

/-- A connection in its pool. After `pool_free` the cell keeps its last bytes,
and reading them is recorded in `World.staleReads`. -/
structure ConnCell where
  conn : JpolldConn
  live : Bool
  deriving Repr

structure Pollfd where
  fd : Int
  pollin : Bool
  pollout : Bool
  deriving DecidableEq, Repr

structure JpolldThread where
  mpfd : Nat
  npfd : List Nat
  pfds : Nat → Pollfd
  conns : Nat → Option ConnPtr

structure UserName where
  user : CString
  server : CString
  enabled : Bool

structure UserFlags where
  exitAfterLogin : Bool
  sniff : Bool
  expectKill : Bool
  deriving DecidableEq, Repr

inductive EventHandler where
  | evChangeStatus
  | evSendMessage
  | evSendRawBytes
  | evAddRoster
  | evDelRoster
  | evConnect
  | evKillConnection
  | evLogout
  deriving DecidableEq, Repr

/-- `userState` is `none` for `UP_EVER`. -/
structure EventRepeater where
  activationTm : Int
  frequency : Int
  eventHandler : Option EventHandler
  counter : Int
  userState : Option UserState
  arg : Option XmlNode
  deriving DecidableEq

structure GroupItem where
  ptr : GroupPtr
  name : Option CString
  exp : Bool
  deriving DecidableEq, Repr

structure PrivRosterItem where
  ptr : PrivPtr
  displayName : Option CString
  nickName : Option CString
  firstName : Option CString
  lastName : Option CString
  sms : Option CString
  cyfra : Option CString
  speak : Option CString
  jid : Option CString
  presenceText : Option CString
  groups : List GroupPtr
  flash : Bool
  speakPres : Bool
  deriving DecidableEq, Repr

structure PrivRost where
  privRostList : List PrivRosterItem
  numextcontacts : Int
  groups : List GroupItem
  gall : Option GroupItem
  loaded : Bool
  deriving DecidableEq, Repr

structure RosterItem where
  jid : CString
  nick : CString
  subscribe : Nat
  priv : Option PrivPtr
  available : Bool

structure RosterCell where
  item : RosterItem
  live : Bool

/-- Keys of a roster hash point at the `jid` of an item, values at the item. -/
abbrev RosterHash := Xht RosterPtr RosterPtr

structure UserProperities where
  idUser : CString
  idServer : CString
  idResource : Option CString
  passwd : CString
  sid : Option CString
  ssl : Bool
  connectionTimeout : Int
  loginTimeout : Int
  conn : Option ConnPtr
  state : UserState
  eventsQueue : List EventRepeater
  soonerActivationTm : Int
  flags : UserFlags
  digestAuth : Bool
  streamOpened : Bool
  receivedMsgsTimeSum : Int
  receivedMsgsCount : CInt
  receivedPresencesCount : CInt
  sentPresencesCount : Int
  lastRosterCount : Int
  rosterCount : Int
  rosterHash : Option RosterHash
  privRost : PrivRost
  tmpid : Nat
  status : Option CString
  showText : Option CString

/-- One moving statistic of the table `stat_t`. -/
structure SStat where
  statPos : Nat
  statSize : Nat
  statIntable : Nat
  statTimes : List Int
  statSumTimes : Int

/-- The indices of `stat_t` that are in use. -/
inductive StatNo where
  | mesg
  | diff
  | radd
  | rdel
  deriving DecidableEq, Repr

structure Globals where
  packetsCreated : CInt
  packetsSent : CInt
  packetsCanceled : CInt
  jpolldConnCreateCount : CInt
  jpolldConnKillCount : CInt
  jpolldConnUnexpectedKillCount : CInt
  evConnectCount : CInt
  evAddRosterCount : CInt
  evDelRosterCount : CInt
  evSendMessageCount : CInt
  evChangeStatusCount : CInt
  presencesAfterRosterCount : CInt
  presencesRostaddCount : CInt
  receivedPresencesCount : CInt
  receivedMessagesCount : CInt
  receivedMessagesOfflineCount : CInt
  receivedMessagesAdminCount : CInt
  forwardedMessagesCount : CInt
  globRosterCount : Int
  doEvents : Bool
  eventsStartAfter : Int
  statT : StatNo → SStat

/-- What `socket`, `make_addr` and `connect` answer to `make_conn_socket`. -/
inductive ConnectOutcome where
  | noSocket
  | noAddress (fd : Int)
  | refused (fd : Int)
  | inProgress (fd : Int)
  | connected (fd : Int)
  deriving DecidableEq, Repr

/-- One result of `write` or `jab_ssl_write`. `blocked` is set by the latter
alone, `wouldBlock` says that `errno` is `EWOULDBLOCK` afterwards. -/
structure WriteResult where
  len : Int
  blocked : Bool
  wouldBlock : Bool
  deriving DecidableEq, Repr

/-- The answers of the operating system that are still to come. -/
structure Env where
  random : Nat → Nat
  clock : Nat → Int
  connects : Nat → ConnectOutcome
  sslConns : Nat → Bool
  writes : Nat → WriteResult
  files : CString → Option CString

/-- The place that a call of `jpolld_conn_kill` passes as file and line. -/
inductive KillSite where
  | writeFailed
  | writeDrained
  | pollErr
  | evKillConnection
  | userDelete
  | outside
  deriving DecidableEq, Repr

/-- Complaints printed at `ERR_DL`. For a user that is sniffed `user_debug` lowers
the level, so that what goes through it is not printed. -/
inductive Report where
  | badSender
  | badReceiver
  | noDebugInfo
  | rosterCountMismatch
  | unexpectedDeath
  deriving DecidableEq, Repr

/-- The observable actions of a run. Nothing in the simulator reads them. -/
inductive Ev where
  | slotsAdded (positions : List Nat)
  | accepted (c : ConnPtr) (text : Option CString)
  | rejected (c : ConnPtr) (text : Option CString)
  | sent (c : ConnPtr) (bytes : CString)
  | created (c : ConnPtr) (u : UserPtr)
  | killed (c : ConnPtr) (site : KillSite)
  | finishConn (c : ConnPtr) (queued : Nat)
  | root (c : ConnPtr)
  | stanza (c : ConnPtr) (x : XmlNode)
  | idDrawn (u : UserPtr) (n : Nat)
  | requested (c : ConnPtr) (n : Nat) (force : Bool) (queued : Nat)
      (outstanding : List XmlNeedResponse)
  | registered (c : ConnPtr) (e : XmlNeedResponse)
  | dispatched (c : ConnPtr) (e : XmlNeedResponse)
  | loginQueued (c : ConnPtr) (id : CString)
  | loggedIn (c : ConnPtr) (x : XmlNode)
  | fetchIssued (c : ConnPtr)
  | handlerRun (u : UserPtr) (h : EventHandler)
  | report (u : UserPtr) (r : Report)
  | userFreed (u : UserPtr)
  | instanceFreed

/-- `usersCount` entries of the table `users` are in use. `sha` is the digest
that `shahash` computes of a non-empty text. -/
structure World where
  thread : JpolldThread
  heap : ConnPtr → ConnCell
  nextConn : ConnPtr
  users : UserPtr → UserProperities
  usersCount : Nat
  userNamesSpace : Nat → UserName
  rosterItems : RosterPtr → RosterCell
  nextPtr : Nat
  globals : Globals
  sha : CString → CString
  env : Env
  trace : List Ev
  staleReads : List ConnPtr

/-- Why control does not come back to the caller. `exit_app` never returns;
`nullConn` and `crash` are reads through a NULL `user->conn` and through another
NULL; `diverged` is a wait without an end, or a loop of the model that ran out of fuel. -/
inductive Stop where
  | exitApp (code : Int)
  | nullConn
  | crash
  | diverged
  deriving DecidableEq, Repr

abbrev M := EStateM Stop World

/-- The state in which a function comes back or stops. -/
def after {α : Type} (m : M α) (w : World) : World :=
  match m w with
  | .ok _ w' => w'
  | .error _ w' => w'

def returned {α : Type} (m : M α) (w : World) : Option α :=
  match m w with
  | .ok a _ => some a
  | .error _ _ => none

theorem run_of_returned {α : Type} {m : M α} {w : World} {a : α} (back : returned m w = some a) :
    m w = .ok a (after m w) := by
  unfold returned at back
  unfold after
  cases run : m w with
  | ok b w' =>
    rw [run] at back
    rw [Option.some.inj back]
  | error e w' =>
    rw [run] at back
    cases back

namespace World

def updUser (w : World) (u : UserPtr) (f : UserProperities → UserProperities) : World :=
  { w with users := Function.update w.users u (f (w.users u)) }

def updConn (w : World) (c : ConnPtr) (f : JpolldConn → JpolldConn) : World :=
  { w with heap := Function.update w.heap c { w.heap c with conn := f (w.heap c).conn } }

def updGlobals (w : World) (f : Globals → Globals) : World := { w with globals := f w.globals }

def updPfd (w : World) (loc : Nat) (f : Pollfd → Pollfd) : World :=
  { w with
    thread := { w.thread with pfds := Function.update w.thread.pfds loc (f (w.thread.pfds loc)) } }

def emit (w : World) (e : Ev) : World := { w with trace := e :: w.trace }

/-- `user_debug` at `ERR_DL`. -/
def userDebug (w : World) (u : UserPtr) (r : Report) : World :=
  if (w.users u).flags.sniff then w else w.emit (.report u r)

/-- Every access to a connection goes through here first. -/
def touch (w : World) (c : ConnPtr) : World :=
  if (w.heap c).live then w else { w with staleReads := c :: w.staleReads }

end World

def getUser (u : UserPtr) : M UserProperities := do return (← get).users u

def modUser (u : UserPtr) (f : UserProperities → UserProperities) : M Unit :=
  modify fun w => w.updUser u f

def modThread (f : JpolldThread → JpolldThread) : M Unit :=
  modify fun w => { w with thread := f w.thread }

def modGlobals (f : Globals → Globals) : M Unit := modify fun w => w.updGlobals f

def emit (e : Ev) : M Unit := modify fun w => w.emit e

def readConn (c : ConnPtr) : M JpolldConn := do
  modify fun w => w.touch c
  return ((← get).heap c).conn

def modConn (c : ConnPtr) (f : JpolldConn → JpolldConn) : M Unit :=
  modify fun w => (w.touch c).updConn c f

/-- `user->conn` where the code reads through it. -/
def derefConn (u : UserPtr) : M ConnPtr := do
  match (← getUser u).conn with
  | some c => return c
  | none => throw .nullConn

def random : M Nat := do
  let w ← get
  set { w with env := { w.env with random := fun n => w.env.random (n + 1) } }
  return w.env.random 0

def gettimeofday : M Int := do
  let w ← get
  set { w with env := { w.env with clock := fun n => w.env.clock (n + 1) } }
  return w.env.clock 0

def nextConnect : M ConnectOutcome := do
  let w ← get
  set { w with env := { w.env with connects := fun n => w.env.connects (n + 1) } }
  return w.env.connects 0

def nextSslConn : M Bool := do
  let w ← get
  set { w with env := { w.env with sslConns := fun n => w.env.sslConns (n + 1) } }
  return w.env.sslConns 0

def nextWrite : M WriteResult := do
  let w ← get
  set { w with env := { w.env with writes := fun n => w.env.writes (n + 1) } }
  return w.env.writes 0

end JabSimul
