import JabSimul.Repeater

/-!
The service thread: what it does for a slot that `poll` reports, the life cycle
of a user, and the runs of the whole simulator. A run is any order of socket
events, user jobs, statistics and kills; the operating system, the server and
the clock answer anything at every step.
-/
namespace JabSimul

/-- The node type and node of one call that `xstream_eat` makes. -/
inductive XstreamCall where
  | node (x : XmlNode)
  | root (x : XmlNode)
  | close
  | err

def jpolldConnNode (c : ConnPtr) (call : XstreamCall) : M Unit := do
  let conn ← readConn c
  match call with
  | .node x =>
      let curtime ← gettimeofday
      emit (.stanza c x)
      match conn.user with
      | none => throw .crash
      | some u => handleUserNode x u curtime
  | .root x =>
      match conn.user with
      | none => throw .crash
      | some u =>
          let sid := xmlnodeGetAttrib (some x) (cstr "id")
          modUser u fun user => { user with sid := sid, streamOpened := true }
          emit (.root c)
  | .close => userFinishConn conn.user
  | .err =>
      if conn.state = .closing then userFinishConn conn.user
      userFinishConn conn.user

/-- `t->conns[j]` where the code reads through it. -/
def derefSlot (j : Nat) : M ConnPtr := do
  match (← get).thread.conns j with
  | some c => return c
  | none => throw .crash

/-- What `read` or `jab_ssl_read` returns, and the calls that the parser makes
for the bytes. -/
structure ReadResult where
  n : Int
  blocked : Bool
  calls : List XstreamCall

/-- `falseAlarm` says that the socket error is `EWOULDBLOCK`, `EAGAIN` or
`EINPROGRESS`. -/
def handlePOLLERR (j : Nat) (falseAlarm : Bool) : M Unit := do
  if falseAlarm then return ()
  let c ← derefSlot j
  let conn ← readConn c
  if conn.sstate = .connInProgress then
    match conn.user with
    | none => pure ()
    | some u => if (← getUser u).flags.exitAfterLogin then exitApp 0
  jpolldConnKill c .pollErr

def handlePOLLOUT (j : Nat) : M Unit := do
  let c ← derefSlot j
  if (← readConn c).sstate = .connInProgress then
    modConn c fun conn => { conn with sstate := .connected }
  else jpolldConnWrite_ (some c)

/-- The user is read once more after the bytes are parsed, to log them. -/
def handlePOLLIN (j : Nat) (input : ReadResult) : M Unit := do
  let c ← derefSlot j
  let conn ← readConn c
  if conn.sstate = .connInProgress then
    modConn c fun conn => { conn with sstate := .connected }
  else if input.n ≤ 0 ∧ !(conn.ssl && input.blocked) then userFinishConn conn.user
  else
    input.calls.forM (jpolldConnNode c)
    let c ← derefSlot j
    let _ ← readConn c

inductive Revents where
  | err (falseAlarm : Bool)
  | pollout
  | pollin (input : ReadResult)

/-- The body of the loop over the slots. `poll` reports no event that is not
asked for, except for errors. -/
def serveSlot (j : Nat) (revents : Revents) : M Unit := do
  let t := (← get).thread
  if 2 ≤ j ∧ j < t.mpfd + 1 ∧ (t.pfds j).fd ≠ -1 then
    match revents with
    | .err falseAlarm => handlePOLLERR j falseAlarm
    | .pollout => if (t.pfds j).pollout then handlePOLLOUT j
    | .pollin input => if (t.pfds j).pollin then handlePOLLIN j input

def checkTimeouts (u : UserPtr) (c : ConnPtr) (curtime : Int) : M Unit := do
  let user ← getUser u
  let usPassed := curtime - (← readConn c).creationTime
  if (← readConn c).sstate = .connInProgress then
    if usPassed ≥ user.connectionTimeout * 1000 then
      userFinishConn (some u)
      expectKill u
      exitIfFlagged u 0
  if usPassed ≥ user.loginTimeout * 1000 then
    exitIfFlagged u 0

def userDoYourJob (u : UserPtr) (curtime : Int) : M Unit := do
  let user ← getUser u
  match user.state with
  | .disabled => return ()
  | .canLogin =>
      if user.conn.isSome ∧ user.streamOpened then
        let _ ← if user.digestAuth then userDoLoginDigest u curtime
          else userDoLoginPlain u curtime
  | .isLogging =>
      match user.conn with
      | none => pure ()
      | some c => checkTimeouts u c curtime
  | .loggedIn =>
      if user.conn.isNone then modUser u fun user => { user with state := .canLogin }
  userHandleRepeaterQueue u curtime

/-- The part of `stat_printf` that is not printing. -/
def statPrintf : M Unit := do
  let g := (← get).globals
  if (g.jpolldConnCreateCount - g.jpolldConnKillCount).toInt > g.eventsStartAfter then
    modGlobals fun g => { g with doEvents := true, eventsStartAfter := -1 }

inductive Input where
  | slot (j : Nat) (revents : Revents)
  | job (u : UserPtr) (curtime : Int)
  | stat
  | killConn (c : ConnPtr)
  | killUser (u : UserPtr)

def step (i : Input) : M Unit := do
  match i with
  | .slot j revents => serveSlot j revents
  | .job u curtime => if u < (← get).usersCount then userDoYourJob u curtime
  | .stat => statPrintf
  | .killConn c => if ((← get).heap c).live then jpolldConnKill c .outside
  | .killUser u => userConnKill u .outside

/-- `user_create` and what `set_users_properities` writes into the new user. -/
def userCreate (uns : UserName) (passwd : CString) (resource : CString) (ssl : Bool)
    (flags : UserFlags) (connectionTimeout loginTimeout : Int) (evList : List EventRepeater) :
    M UserProperities := do
  let gall ← groupItemCreate (some (cstr "Wszyscy")) true
  let eventsQueue ← copyRepeaters evList
  return {
    idUser := uns.user
    idServer := uns.server
    idResource := if resource = [] then none else some resource
    passwd := passwd
    sid := none
    ssl := ssl
    connectionTimeout := if connectionTimeout = -1 then 15000 else connectionTimeout
    loginTimeout := if loginTimeout = -1 then 400000 else loginTimeout
    conn := none
    state := .canLogin
    eventsQueue := eventsQueue
    soonerActivationTm := 0
    flags := { flags with expectKill := false }
    digestAuth := false
    streamOpened := false
    receivedMsgsTimeSum := 0
    receivedMsgsCount := 0
    receivedPresencesCount := 0
    sentPresencesCount := 0
    lastRosterCount := -1
    rosterCount := 0
    rosterHash := none
    privRost := ⟨[], 0, [], some gall, false⟩
    tmpid := 0
    status := some (cstr "Online")
    showText := none }

/-- What every new user has in common. -/
structure UserProperities.Fresh (user : UserProperities) : Prop where
  conn : user.conn = none
  state : user.state = .canLogin
  streamOpened : user.streamOpened = false
  rosterHash : user.rosterHash = none
  rosterCount : user.rosterCount = 0
  lastRosterCount : user.lastRosterCount = -1
  privLoaded : user.privRost.loaded = false
  privRostList : user.privRost.privRostList = []
  tmpid : user.tmpid = 0
  expectKill : user.flags.expectKill = false

/-- The state in which `thread_main` begins. -/
structure World.Initial (w : World) : Prop where
  thread : w.thread = threadInit
  heap : ∀ c, (w.heap c).live = false
  users : ∀ u, (w.users u).Fresh
  globRosterCount : w.globals.globRosterCount = 0
  created : w.globals.jpolldConnCreateCount = 0
  killed : w.globals.jpolldConnKillCount = 0
  trace : w.trace = []
  staleReads : w.staleReads = []

def World.withEnv (w : World) (env : Env) : World := { w with env := env }

/-- The states that some order of steps reaches. A step that does not come back
ends the run, since nothing follows `exit_app`. -/
inductive Reachable : World → Prop
  | init {w : World} (fresh : w.Initial) : Reachable w
  | step {w w' : World} (before : Reachable w) (i : Input) (env : Env)
      (ran : step i (w.withEnv env) = .ok () w') : Reachable w'

end JabSimul
