import JabSimul.Roster

/-!
Connections: the table of poll slots, the write queue, the two kill functions
and `user_connect`. `jpolld_conn_kill` and `user_conn_kill` call each other, but
each breaks its link first, so the inner call only runs the part of the other
function that does not call back. That part has a definition of its own.
-/
namespace JabSimul

/-- The new positions come in ascending order, since the loop counts down. -/
def addConns (t : JpolldThread) : JpolldThread :=
  let more := if maxPfds - t.mpfd > 10 then 10 else maxPfds - t.mpfd
  { t with npfd := List.range' (t.mpfd + 1) more ++ t.npfd }

/-- `pmalloco` clears the thread, so the last slot starts with descriptor 0. -/
def threadInit : JpolldThread :=
  let t := addConns ⟨1, [], fun _ => ⟨0, false, false⟩, fun _ => none⟩
  { t with pfds := fun j => if j < maxPfds then ⟨-1, false, false⟩ else t.pfds j }

def setConnSlot (loc : Nat) (c : Option ConnPtr) : M Unit :=
  modThread fun t => { t with conns := Function.update t.conns loc c }

def setPfd (loc : Nat) (f : Pollfd → Pollfd) : M Unit := modify fun w => w.updPfd loc f

def exitApp {α : Type} (code : Int) : M α := throw (.exitApp code)

/-- The flag is taken back before the call, in every place that tests it so. -/
def exitIfFlagged (u : UserPtr) (code : Int) : M Unit := do
  if (← getUser u).flags.exitAfterLogin then
    modUser u fun user => { user with flags := { user.flags with exitAfterLogin := false } }
    exitApp code

def expectKill (u : UserPtr) : M Unit :=
  modUser u fun user => { user with flags := { user.flags with expectKill := true } }

def jpolldConnCreate (loc : Nat) (u : UserPtr) (sstate : SockState) (crTime : Int) :
    M ConnPtr := do
  modGlobals fun g => { g with jpolldConnCreateCount := g.jpolldConnCreateCount + 1 }
  let ssl ← if (← getUser u).ssl then nextSslConn else pure false
  let w ← get
  let c := w.nextConn
  set { w with
    nextConn := c + 1
    heap := Function.update w.heap c ⟨⟨loc, .unknown, sstate, [], crTime, some u, [], ssl⟩, true⟩ }
  return c

/-- The common body of `jpolld_conn_write_str` and `jpolld_conn_write`. The
variable `count` of the source is the length of a non-empty queue less one. -/
def jpolldConnEnqueue (c : Option ConnPtr) (text : Option CString) (force : Bool) : M Int := do
  match c with
  | none => return -1
  | some c =>
      modGlobals fun g => { g with packetsCreated := g.packetsCreated + 1 }
      let conn ← readConn c
      if conn.writer ≠ [] ∧ conn.writer.length - 1 ≥ maxPacksBuffered ∧ !force then
        modGlobals fun g => { g with packetsCanceled := g.packetsCanceled + 1 }
        emit (.rejected c text)
        return -1
      else
        modConn c fun conn => { conn with writer := conn.writer ++ [⟨text⟩] }
        setPfd conn.loc fun p => { p with pollout := true }
        emit (.accepted c text)
        return 0

def jpolldConnWriteStr (c : Option ConnPtr) (buf : Option CString) (force : Bool) : M Int :=
  jpolldConnEnqueue c buf force

/-- A NULL node has no pool to take the buffer from. -/
def jpolldConnWrite (c : Option ConnPtr) (x : Option XmlNode) (force : Bool) : M Int := do
  match c, x with
  | some _, none => throw .crash
  | _, _ => jpolldConnEnqueue c (x.map xmlnode2str) force

/-- `user_conn_kill` from the line on that clears `user->conn`. -/
def userConnReset (u : UserPtr) : M Unit := do
  modUser u fun user => { user with conn := none, state := .canLogin, streamOpened := false }
  modify fun w => rosterHashDelete u w
  privRosterDelete u
  if !(← getUser u).flags.expectKill then
    modGlobals fun g =>
      { g with jpolldConnUnexpectedKillCount := g.jpolldConnUnexpectedKillCount + 1 }
    modify fun w => w.userDebug u .unexpectedDeath
  else
    modUser u fun user => { user with flags := { user.flags with expectKill := false } }
  exitIfFlagged u 0

/-- `jpolld_conn_kill` up to the test of `c->user`. -/
def jpolldConnRelease (c : ConnPtr) : M Unit := do
  let conn ← readConn c
  modThread fun t =>
    { t with mpfd := if t.mpfd = conn.loc then t.mpfd - 1 else t.mpfd, npfd := conn.loc :: t.npfd }
  setPfd conn.loc fun _ => ⟨-1, false, false⟩
  setConnSlot conn.loc none
  modGlobals fun g =>
    { g with packetsCanceled := g.packetsCanceled + BitVec.ofNat 32 conn.writer.length }

/-- `pool_free(c->p)`. -/
def freeConn (c : ConnPtr) : M Unit :=
  modify fun w => { w with heap := Function.update w.heap c { w.heap c with live := false } }

def jpolldConnKill (c : ConnPtr) (site : KillSite) : M Unit := do
  emit (.killed c site)
  jpolldConnRelease c
  match (← readConn c).user with
  | none => pure ()
  | some u =>
      modUser u fun user => { user with conn := none }
      -- `user_conn_kill` finds `user->conn` NULL here and does not come back
      userConnReset u
  modGlobals fun g => { g with jpolldConnKillCount := g.jpolldConnKillCount + 1 }
  freeConn c

def userConnKill (u : UserPtr) (site : KillSite) : M Unit := do
  match (← getUser u).conn with
  | none => pure ()
  | some c =>
      -- `jpolld_conn_kill` finds `c->user` NULL
      modConn c fun conn => { conn with user := none }
      jpolldConnKill c site
  userConnReset u

def userFinishConn (u : Option UserPtr) : M Unit := do
  match u with
  | none => pure ()
  | some u =>
      match (← getUser u).conn with
      | none => pure ()
      | some c =>
          emit (.finishConn c (← readConn c).writer.length)
          modConn c fun conn => { conn with state := .closing }

/-- The loop of `_jpolld_conn_write`. `blocked` is only ever set by the SSL
write. A complete write may report more than was asked for. -/
def writeLoop : Nat → ConnPtr → M Unit
  | 0, _ => throw .diverged
  | fuel + 1, c => do
      match (← readConn c).writer with
      | [] => return ()
      | ⟨none⟩ :: _ => throw .crash
      | ⟨some cbuffer⟩ :: next =>
          let conn ← readConn c
          let result ← nextWrite
          if result.len ≤ 0 then
            if (conn.ssl && result.blocked) || result.wouldBlock then return ()
            jpolldConnKill c .writeFailed
          else if result.len < cbuffer.length then
            emit (.sent c (cbuffer.take result.len.toNat))
            modConn c fun conn =>
              { conn with writer := ⟨some (cbuffer.drop result.len.toNat)⟩ :: next }
          else
            emit (.sent c cbuffer)
            modGlobals fun g => { g with packetsSent := g.packetsSent + 1 }
            modConn c fun conn => { conn with writer := next }
            if next = [] then
              setPfd conn.loc fun p => { p with pollout := !p.pollout }
              if conn.state = .closing then
                match conn.user with
                | none => pure ()
                | some u => expectKill u
                jpolldConnKill c .writeDrained
            writeLoop fuel c

/-- `_jpolld_conn_write`. Every round but the last takes a packet off the queue. -/
def jpolldConnWrite_ (c : Option ConnPtr) : M Unit := do
  match c with
  | none => return ()
  | some c => writeLoop ((← readConn c).writer.length + 1) c

def makeConnSocket : M (Int × SockState) := do
  match ← nextConnect with
  | .noSocket => return (-1, .notConnected)
  | .noAddress _ => return (-1, .notConnected)
  | .refused _ => return (-1, .error)
  | .inProgress fd => return (fd, .connInProgress)
  | .connected fd => return (fd, .connected)

def makeClientfd : M (Int × SockState) := do
  let (sockfd, sstate) ← makeConnSocket
  return (if sockfd ≤ 0 then -1 else sockfd, sstate)

def streamOpen (server : CString) : CString :=
  cstr "<stream:stream to=\"" ++ server ++ cstr "\" xmlns=\"jabber:client\"" ++
    cstr " xmlns:stream=\"http://etherx.jabber.org/streams\">"

/-- The part of `user_connect` that makes slots when none is free. -/
def ensureSlot : M Unit := do
  if (← get).thread.npfd = [] then
    modThread addConns
    emit (.slotsAdded (← get).thread.npfd)

/-- The rest of it. With every slot taken `t->npfd->pos` reads through NULL. -/
def userTakeSlot (u : UserPtr) (connfd : Int) (sstate : SockState) (curtime : Int) : M Unit := do
  match (← get).thread.npfd with
  | [] => throw .crash
  | loc :: next =>
      setPfd loc fun _ => ⟨connfd, true, false⟩
      let c ← jpolldConnCreate loc u sstate curtime
      setConnSlot loc (some c)
      modUser u fun user => { user with conn := some c }
      emit (.created c u)
      modThread fun t => { t with mpfd := if loc > t.mpfd then loc else t.mpfd, npfd := next }
      let server := (← getUser u).idServer
      let _ ← jpolldConnWriteStr (some c) (some (apSnprintf 300 (streamOpen server))) true

def userConnect (u : UserPtr) : M Int := do
  let curtime ← gettimeofday
  let (connfd, sstate) ← makeClientfd
  if connfd ≤ 0 then
    exitIfFlagged u 0
    return -1
  else
    ensureSlot
    userTakeSlot u connfd sstate curtime
    return 0

end JabSimul
