import JabSimul.Thread
import JabSimul.Lib.Simulation

/-!
The session machine: what is left of the simulator when times, statistics,
configurations and the contents of rosters are forgotten. Its steps say what a
connection and its user can go through; which of them comes next is up to the
server, the clock and the operating system.
-/
namespace JabSimul

/-- What the machine keeps of a user. -/
structure Party where
  conn : Option ConnPtr
  state : UserState
  streamOpened : Bool
  hasRoster : Bool
  rosterCount : Int
  privLoaded : Bool
  tmpid : Nat

def UserProperities.party (user : UserProperities) : Party :=
  ⟨user.conn, user.state, user.streamOpened, user.rosterHash.isSome, user.rosterCount,
    user.privRost.loaded, user.tmpid⟩

/-- What is left of a user whose connection is gone. -/
def Party.reset (p : Party) : Party :=
  { p with
    conn := none
    state := .canLogin
    streamOpened := false
    hasRoster := false
    rosterCount := if p.hasRoster then 0 else p.rosterCount
    privLoaded := false }

structure Session where
  thread : JpolldThread
  heap : ConnPtr → ConnCell
  nextConn : ConnPtr
  created : CInt
  killed : CInt
  users : UserPtr → Party
  trace : List Ev

def World.session (w : World) : Session :=
  ⟨w.thread, w.heap, w.nextConn, w.globals.jpolldConnCreateCount, w.globals.jpolldConnKillCount,
    fun u => (w.users u).party, w.trace⟩

/-- Events that no rule of the machine depends on. -/
def Ev.IsNote : Ev → Prop
  | .slotsAdded _ | .rejected _ _ | .handlerRun _ _ | .report _ _ | .userFreed _ |
    .instanceFreed => True
  | _ => False

/-- The text of a packet carries the identifier in quotation marks of its kind. -/
def Asks (text id : CString) : Prop :=
  quoted quotationMark id <:+: text ∨ quoted apostrophe id <:+: text

/-- Identifiers that `makeJCOM_ID` produces. -/
def IsJcomId (id : CString) : Prop := ∃ n, id = jcomId idBufSize n

def JpolldConn.full (conn : JpolldConn) : Prop := conn.writer.length > maxPacksBuffered

namespace Session

section Updates

variable (s : Session)

def live (c : ConnPtr) : Prop := (s.heap c).live = true

def conn (c : ConnPtr) : JpolldConn := (s.heap c).conn

def emit (e : Ev) : Session := { s with trace := e :: s.trace }

def updParty (u : UserPtr) (f : Party → Party) : Session :=
  { s with users := Function.update s.users u (f (s.users u)) }

def updConn (c : ConnPtr) (f : JpolldConn → JpolldConn) : Session :=
  { s with heap := Function.update s.heap c { s.heap c with conn := f (s.heap c).conn } }

def updPfd (loc : Nat) (f : Pollfd → Pollfd) : Session :=
  { s with thread :=
      { s.thread with pfds := Function.update s.thread.pfds loc (f (s.thread.pfds loc)) } }

def accept (c : ConnPtr) (text : Option CString) : Session :=
  ((s.updConn c fun conn => { conn with writer := conn.writer ++ [⟨text⟩] }).updPfd (s.conn c).loc
    fun p => { p with pollout := true }).emit (.accepted c text)

def register (c : ConnPtr) (e : XmlNeedResponse) : Session :=
  (s.updConn c fun conn =>
    { conn with xmlNeedResponsesQueue := e :: conn.xmlNeedResponsesQueue }).emit (.registered c e)

/-- A packet is accepted, and the answers to it are awaited. -/
def ask (c : ConnPtr) (text : CString) (es : List XmlNeedResponse) : Session :=
  es.foldl (fun s e => s.register c e) (s.accept c (some text))

def draw (u : UserPtr) : Session :=
  (s.updParty u fun p => { p with tmpid := p.tmpid + 1 }).emit (.idDrawn u (s.users u).tmpid)

/-- A request with the number `n` begins. -/
def request (c : ConnPtr) (n : Nat) (force : Bool) : Session :=
  s.emit (.requested c n force (s.conn c).writer.length (s.conn c).xmlNeedResponsesQueue)

def login (u : UserPtr) (c : ConnPtr) (text : CString) (e : XmlNeedResponse) : Session :=
  (((((s.draw u).request c (s.users u).tmpid true).accept c (some text)).register c e).updParty u
    fun p => { p with state := .isLogging }).emit (.loginQueued c e.id)

def rosterRegister (u : UserPtr) (c : ConnPtr) (e : XmlNeedResponse) : Session :=
  ((s.draw u).request c (s.users u).tmpid false).register c e

def advance (c : ConnPtr) (text : CString) (next : List JpolldWriteBuf) (k : Nat) : Session :=
  (s.emit (.sent c (text.take k))).updConn c
    fun conn => { conn with writer := ⟨some (text.drop k)⟩ :: next }

def pop (c : ConnPtr) (text : CString) (next : List JpolldWriteBuf) : Session :=
  let t := (s.emit (.sent c text)).updConn c fun conn => { conn with writer := next }
  if next = [] then t.updPfd (s.conn c).loc fun p => { p with pollout := !p.pollout } else t

def finish (c : ConnPtr) : Session :=
  (s.emit (.finishConn c (s.conn c).writer.length)).updConn c
    fun conn => { conn with state := .closing }

def openStream (u : UserPtr) (c : ConnPtr) : Session :=
  (s.updParty u fun p => { p with streamOpened := true }).emit (.root c)

def dispatch (c : ConnPtr) (e : XmlNeedResponse) (queue : List XmlNeedResponse) : Session :=
  (s.updConn c fun conn => { conn with xmlNeedResponsesQueue := queue }).emit (.dispatched c e)

def logIn (u : UserPtr) (c : ConnPtr) (x : XmlNode) : Session :=
  (s.updParty u fun p => { p with state := .loggedIn }).emit (.loggedIn c x)

def refill : Session :=
  ({ s with thread := addConns s.thread }).emit (.slotsAdded (addConns s.thread).npfd)

/-- A new connection takes the first free slot. -/
def connect (u : UserPtr) (loc : Nat) (next : List Nat) (sstate : SockState) (fd time : Int)
    (ssl : Bool) : Session :=
  { s with
    thread :=
      { mpfd := if loc > s.thread.mpfd then loc else s.thread.mpfd
        npfd := next
        pfds := Function.update s.thread.pfds loc ⟨fd, true, false⟩
        conns := Function.update s.thread.conns loc (some s.nextConn) }
    heap := Function.update s.heap s.nextConn
      ⟨⟨loc, .unknown, sstate, [], time, some u, [], ssl⟩, true⟩
    nextConn := s.nextConn + 1
    created := s.created + 1
    users := Function.update s.users u { s.users u with conn := some s.nextConn }
    trace := .created s.nextConn u :: s.trace }

/-- The slot of a connection goes back to the front of the free list. -/
def release (c : ConnPtr) : Session :=
  let loc := (s.conn c).loc
  { s with thread :=
      { mpfd := if s.thread.mpfd = loc then s.thread.mpfd - 1 else s.thread.mpfd
        npfd := loc :: s.thread.npfd
        pfds := Function.update s.thread.pfds loc ⟨-1, false, false⟩
        conns := Function.update s.thread.conns loc none } }

def resetOwner (owner : Option UserPtr) : Session :=
  match owner with
  | none => s
  | some u => s.updParty u Party.reset

def free (c : ConnPtr) : Session :=
  { s with
    killed := s.killed + 1
    heap := Function.update s.heap c { s.heap c with live := false } }

def kill (c : ConnPtr) (site : KillSite) : Session :=
  (((s.emit (.killed c site)).release c).resetOwner (s.conn c).user).free c

/-- The user lets go of the connection before the connection is killed. -/
def userKill (u : UserPtr) (c : ConnPtr) (site : KillSite) : Session :=
  ((s.updConn c fun conn => { conn with user := none }).kill c site).updParty u Party.reset

end Updates

/-- The steps that leave every user with its connection. -/
inductive Calm : Session → Session → Prop
  | note {s} (e : Ev) (isNote : e.IsNote) : Calm s (s.emit e)
  | draw {s} (u : UserPtr) : Calm s (s.draw u)
  | refill {s} (empty : s.thread.npfd = []) : Calm s s.refill
  | write {s c} (text : Option CString) (live : s.live c) : Calm s (s.accept c text)
  | ask {s c text es} (live : s.live c) (asks : ∀ e ∈ es, Asks text e.id)
      (plain : ∀ e ∈ es, e.callback ≠ some .handleLoginResponse ∧ ¬IsJcomId e.id)
      (distinct : (es.map XmlNeedResponse.id).Nodup) : Calm s (s.ask c text es)
  | advance {s c text next k} (live : s.live c) (queue : (s.conn c).writer = ⟨some text⟩ :: next)
      (short : k < text.length) : Calm s (s.advance c text next k)
  | pop {s c text next} (live : s.live c) (queue : (s.conn c).writer = ⟨some text⟩ :: next)
      (stays : next ≠ [] ∨ (s.conn c).state ≠ .closing) : Calm s (s.pop c text next)
  | connected {s} (c : ConnPtr) : Calm s (s.updConn c fun conn => { conn with sstate := .connected })
  | finish {s u c} (owner : (s.users u).conn = some c) : Calm s (s.finish c)
  | root {s u c} (owner : (s.users u).conn = some c) : Calm s (s.openStream u c)
  | stanza {s c} (x : XmlNode) (live : s.live c) : Calm s (s.emit (.stanza c x))
  | dispatch {s u c x id e queue rest} (owner : (s.users u).conn = some c)
      (last : s.trace = .stanza c x :: rest) (known : stanzaId x = some id)
      (found : xmlNeedResponseNodeGet id (s.conn c).xmlNeedResponsesQueue = (some e, queue)) :
      Calm s (s.dispatch c e queue)
  | login {s u c text time} (owner : (s.users u).conn = some c)
      (state : (s.users u).state = .canLogin) (opened : (s.users u).streamOpened = true)
      (asks : Asks text (jcomId idBufSize (s.users u).tmpid)) :
      Calm s (s.login u c text
        ⟨jcomId idBufSize (s.users u).tmpid, time, some .handleLoginResponse⟩)
  | loggedIn {s u c x e rest} (owner : (s.users u).conn = some c)
      (last : s.trace = .dispatched c e :: .stanza c x :: rest)
      (callback : e.callback = some .handleLoginResponse) (noError : isError x = false) :
      Calm s (s.logIn u c x)
  | fetch {s c x rest} (last : s.trace = .loggedIn c x :: rest) : Calm s (s.emit (.fetchIssued c))
  | rosterAsk {s u c text time callback} (owner : (s.users u).conn = some c)
      (plain : callback ≠ some .handleLoginResponse)
      (room : ¬(s.conn c).full) (asks : Asks text (jcomId idBufSize (s.users u).tmpid)) :
      Calm s ((s.rosterRegister u c ⟨jcomId idBufSize (s.users u).tmpid, time, callback⟩).accept c
        (some text))
  | rosterCancel {s u c text time callback} (owner : (s.users u).conn = some c)
      (plain : callback ≠ some .handleLoginResponse) (full : (s.conn c).full) :
      Calm s ((s.rosterRegister u c ⟨jcomId idBufSize (s.users u).tmpid, time, callback⟩).emit
        (.rejected c text))
  | roster {s u c} (count : Int) (owner : (s.users u).conn = some c) :
      Calm s (s.updParty u fun p => { p with hasRoster := true, rosterCount := count })
  | privLoaded {s u c} (owner : (s.users u).conn = some c) :
      Calm s (s.updParty u fun p => { p with privLoaded := true })
  | privDeleted {s} (u : UserPtr) : Calm s (s.updParty u fun p => { p with privLoaded := false })

/-- All steps. -/
inductive Act : Session → Session → Prop
  | calm {s t} (step : Calm s t) : Act s t
  | connect {s u loc next} (sstate : SockState) (fd time : Int) (ssl : Bool)
      (idle : (s.users u).conn = none) (slot : s.thread.npfd = loc :: next) :
      Act s (s.connect u loc next sstate fd time ssl)
  | kill {s c} (site : KillSite) (live : s.live c) (notDrained : site ≠ .writeDrained) :
      Act s (s.kill c site)
  | drained {s c text} (live : s.live c) (queue : (s.conn c).writer = [⟨some text⟩])
      (closing : (s.conn c).state = .closing) : Act s ((s.pop c text []).kill c .writeDrained)
  | userKill {s u c} (site : KillSite) (owner : (s.users u).conn = some c)
      (notDrained : site ≠ .writeDrained) : Act s (s.userKill u c site)
  | userReset {s u} (idle : (s.users u).conn = none) : Act s (s.updParty u Party.reset)

end Session

end JabSimul
