import JabSimul.SessionSound

/-!
What the functions on connections do, as functions on states: one statement for
each function, which its callers use in its place. The session machine sees the
packets and the kills through these statements.
-/
namespace JabSimul

open Simulation

section Session

variable (w : World) (u : UserPtr) (c : ConnPtr)

@[simp] theorem session_emit (e : Ev) : (w.emit e).session = w.session.emit e := rfl

@[simp] theorem session_updConn (f : JpolldConn → JpolldConn) :
    (w.updConn c f).session = w.session.updConn c f := rfl

@[simp] theorem session_updPfd (p : Nat) (f : Pollfd → Pollfd) :
    (w.updPfd p f).session = w.session.updPfd p f := rfl

@[simp] theorem session_withEnv (env : Env) : (w.withEnv env).session = w.session := rfl

@[simp] theorem session_touch : (w.touch c).session = w.session := by
  unfold World.touch
  split <;> rfl

theorem session_updUser {f : UserProperities → UserProperities} {g : Party → Party}
    (same : (f (w.users u)).party = g (w.users u).party) :
    (w.updUser u f).session = w.session.updParty u g := by
  simp only [World.session, World.updUser, Session.updParty, Session.mk.injEq, true_and, and_true]
  funext v
  by_cases here : v = u
  · subst v
    simpa using same
  · simp [here]

theorem session_updUser_soft {f : UserProperities → UserProperities}
    (same : (f (w.users u)).party = (w.users u).party) : (w.updUser u f).session = w.session := by
  rw [session_updUser w u (g := id) same]
  simp [Session.updParty]

theorem session_updGlobals {f : Globals → Globals}
    (created : (f w.globals).jpolldConnCreateCount = w.globals.jpolldConnCreateCount)
    (killed : (f w.globals).jpolldConnKillCount = w.globals.jpolldConnKillCount) :
    (w.updGlobals f).session = w.session := by
  simp [World.session, World.updGlobals, created, killed]

@[simp] theorem conn_session : w.session.conn c = (w.heap c).conn := rfl

@[simp] theorem users_session : w.session.users u = (w.users u).party := rfl

@[simp] theorem trace_session : w.session.trace = w.trace := rfl

@[simp] theorem thread_session : w.session.thread = w.thread := rfl

theorem live_session : w.session.live c ↔ (w.heap c).live = true := Iff.rfl

end Session

@[simp] theorem users_emit (w : World) (e : Ev) : (w.emit e).users = w.users := rfl

section Touch

variable (w : World) (c d : ConnPtr)

@[simp] theorem heap_touch : (w.touch c).heap = w.heap := by
  unfold World.touch
  split <;> rfl

@[simp] theorem users_touch : (w.touch c).users = w.users := by
  unfold World.touch
  split <;> rfl

@[simp] theorem thread_touch : (w.touch c).thread = w.thread := by
  unfold World.touch
  split <;> rfl

@[simp] theorem env_touch : (w.touch c).env = w.env := by
  unfold World.touch
  split <;> rfl

@[simp] theorem globals_touch : (w.touch c).globals = w.globals := by
  unfold World.touch
  split <;> rfl

@[simp] theorem trace_touch : (w.touch c).trace = w.trace := by
  unfold World.touch
  split <;> rfl

theorem touch_of_live {w : World} {c : ConnPtr} (live : (w.heap c).live = true) : w.touch c = w :=
  if_pos live

theorem staleReads_touch_of_dead {w : World} {c : ConnPtr} (dead : (w.heap c).live = false) :
    (w.touch c).staleReads = c :: w.staleReads := by
  unfold World.touch
  rw [dead]
  rfl

end Touch

section Primitives

variable (w : World) (u : UserPtr) (c : ConnPtr)

theorem getUser_apply : getUser u w = .ok (w.users u) w := rfl

theorem modUser_apply (f : UserProperities → UserProperities) :
    modUser u f w = .ok ⟨⟩ (w.updUser u f) := rfl

theorem modGlobals_apply (f : Globals → Globals) : modGlobals f w = .ok ⟨⟩ (w.updGlobals f) := rfl

theorem modThread_apply (f : JpolldThread → JpolldThread) :
    modThread f w = .ok ⟨⟩ { w with thread := f w.thread } := rfl

theorem emit_apply (e : Ev) : emit e w = .ok ⟨⟩ (w.emit e) := rfl

theorem setPfd_apply (p : Nat) (f : Pollfd → Pollfd) : setPfd p f w = .ok ⟨⟩ (w.updPfd p f) := rfl

theorem readConn_apply : readConn c w = .ok (w.heap c).conn (w.touch c) := by
  change EStateM.Result.ok ((w.touch c).heap c).conn (w.touch c) = _
  rw [heap_touch]

theorem modConn_apply (f : JpolldConn → JpolldConn) :
    modConn c f w = .ok ⟨⟩ ((w.touch c).updConn c f) := rfl

theorem derefConn_apply {w : World} {u : UserPtr} {c : ConnPtr}
    (owner : (w.users u).conn = some c) : derefConn u w = .ok c w := by
  simp only [derefConn, bind_apply, getUser_apply, owner]
  rfl

end Primitives

namespace World

/-- A packet is put into the queue of `c`, and `poll` is asked for room. -/
def acceptPacket (w : World) (c : ConnPtr) (text : Option CString) : World :=
  let w := (w.updGlobals fun g => { g with packetsCreated := g.packetsCreated + 1 }).touch c
  (((w.touch c).updConn c fun conn => { conn with writer := conn.writer ++ [⟨text⟩] }).updPfd
    (w.heap c).conn.loc fun p => { p with pollout := true }).emit (.accepted c text)

def rejectPacket (w : World) (c : ConnPtr) (text : Option CString) : World :=
  (((w.updGlobals fun g => { g with packetsCreated := g.packetsCreated + 1 }).touch c).updGlobals
    fun g => { g with packetsCanceled := g.packetsCanceled + 1 }).emit (.rejected c text)

end World

theorem session_acceptPacket (w : World) (c : ConnPtr) (text : Option CString) :
    (w.acceptPacket c text).session = w.session.accept c text := by
  simp only [World.acceptPacket, session_emit, session_updPfd, session_updConn, session_touch,
    session_updGlobals, heap_touch]
  rfl

theorem session_rejectPacket (w : World) (c : ConnPtr) (text : Option CString) :
    (w.rejectPacket c text).session = w.session.emit (.rejected c text) := by
  simp only [World.rejectPacket, session_emit, session_updGlobals, session_touch]

theorem acceptPacket_of_live {w : World} {c : ConnPtr} (live : (w.heap c).live = true) (text : Option CString) :
    w.acceptPacket c text =
      { w with
        globals := { w.globals with packetsCreated := w.globals.packetsCreated + 1 }
        heap := Function.update w.heap c
          ⟨{ (w.heap c).conn with writer := (w.heap c).conn.writer ++ [⟨text⟩] }, true⟩
        thread := { w.thread with
          pfds := Function.update w.thread.pfds (w.heap c).conn.loc
            { w.thread.pfds (w.heap c).conn.loc with pollout := true } }
        trace := .accepted c text :: w.trace } := by
  simp [World.acceptPacket, World.updConn, World.updPfd, World.updGlobals, World.emit,
    World.touch, live]

/-- `count >= MaxPacksBuffered` in a queue that is not empty. -/
theorem full_iff (conn : JpolldConn) :
    conn.full ↔ conn.writer ≠ [] ∧ conn.writer.length - 1 ≥ maxPacksBuffered := by
  unfold JpolldConn.full maxPacksBuffered
  rw [← List.length_pos_iff]
  omega

theorem jpolldConnEnqueue_room {w : World} {c : ConnPtr} {force : Bool}
    (room : ¬(w.heap c).conn.full ∨ force = true) (text : Option CString) :
    jpolldConnEnqueue (some c) text force w = .ok 0 (w.acceptPacket c text) := by
  have refused : ¬((w.heap c).conn.writer ≠ [] ∧
      (w.heap c).conn.writer.length - 1 ≥ maxPacksBuffered ∧ (!force) = true) := by
    rintro ⟨queued, long, unforced⟩
    rcases room with room | forced
    · exact room ((full_iff _).mpr ⟨queued, long⟩)
    · simp [forced] at unforced
  simp only [jpolldConnEnqueue, bind_apply, modGlobals_apply, readConn_apply]
  rw [if_neg (by simpa [World.updGlobals] using refused)]
  simp only [bind_apply, modConn_apply, setPfd_apply, emit_apply, pure_apply]
  rw [World.acceptPacket, heap_touch]

theorem jpolldConnEnqueue_full {w : World} {c : ConnPtr} (full : (w.heap c).conn.full)
    (text : Option CString) :
    jpolldConnEnqueue (some c) text false w = .ok (-1) (w.rejectPacket c text) := by
  obtain ⟨queued, long⟩ := (full_iff _).mp full
  simp only [jpolldConnEnqueue, bind_apply, modGlobals_apply, readConn_apply]
  rw [if_pos (by simpa [World.updGlobals] using ⟨queued, long⟩)]
  simp only [bind_apply, modGlobals_apply, emit_apply, pure_apply]
  rfl

section Roster

variable (w : World) (u : UserPtr)

/-- Deleting items touches the items alone. -/
theorem deleteItems_eq (kvs : List (RosterPtr × RosterPtr)) :
    ∃ items, kvs.foldl (fun w kv => rosterItemDelete w kv.2) w = { w with rosterItems := items } := by
  induction kvs generalizing w with
  | nil => exact ⟨w.rosterItems, rfl⟩
  | cons kv kvs ih =>
    obtain ⟨items, deleted⟩ := ih (rosterItemDelete w kv.2)
    exact ⟨items, deleted⟩

/-- A change to the roster of one user. -/
structure RosterFrame (w w' : World) : Prop where
  thread : w'.thread = w.thread
  heap : w'.heap = w.heap
  nextConn : w'.nextConn = w.nextConn
  usersCount : w'.usersCount = w.usersCount
  env : w'.env = w.env
  staleReads : w'.staleReads = w.staleReads
  created : w'.globals.jpolldConnCreateCount = w.globals.jpolldConnCreateCount
  killed : w'.globals.jpolldConnKillCount = w.globals.jpolldConnKillCount
  trace : w'.trace = w.trace
  others : ∀ v, v ≠ u → w'.users v = w.users v
  user : ∃ hash count last, w'.users u =
    { w.users u with rosterHash := hash, rosterCount := count, lastRosterCount := last }

theorem RosterFrame.refl : RosterFrame u w w :=
  ⟨rfl, rfl, rfl, rfl, rfl, rfl, rfl, rfl, rfl, fun _ _ => rfl, _, _, _, rfl⟩

theorem RosterFrame.trans {u : UserPtr} {w₁ w₂ w₃ : World} (first : RosterFrame u w₁ w₂)
    (second : RosterFrame u w₂ w₃) : RosterFrame u w₁ w₃ := by
  obtain ⟨hash, count, last, user⟩ := first.user
  obtain ⟨hash', count', last', user'⟩ := second.user
  refine ⟨second.thread.trans first.thread, second.heap.trans first.heap,
    second.nextConn.trans first.nextConn, second.usersCount.trans first.usersCount,
    second.env.trans first.env, second.staleReads.trans first.staleReads,
    second.created.trans first.created, second.killed.trans first.killed,
    second.trace.trans first.trace,
    fun v other => (second.others v other).trans (first.others v other), hash', count', last', ?_⟩
  rw [user', user]

/-- The roster of a user is dropped. -/
theorem rosterHashDelete_frame : RosterFrame u w (rosterHashDelete u w) := by
  cases hash : (w.users u).rosterHash with
  | none =>
    simp only [rosterHashDelete, hash]
    exact .refl w u
  | some h =>
    obtain ⟨items, deleted⟩ := deleteItems_eq w (xhashWalk h)
    simp only [rosterHashDelete, hash, deleted]
    refine ⟨rfl, rfl, rfl, rfl, rfl, rfl, rfl, rfl, rfl, fun v other => ?_, none, 0,
      (w.users u).rosterCount, ?_⟩
    · simp [World.updUser, World.updGlobals, other]
    · simp [World.updUser, World.updGlobals]

theorem rosterHashDelete_roster :
    ((rosterHashDelete u w).users u).rosterHash = none ∧
      ((rosterHashDelete u w).users u).rosterCount =
        if (w.users u).rosterHash.isSome then 0 else (w.users u).rosterCount := by
  cases hash : (w.users u).rosterHash with
  | none => simp [rosterHashDelete, hash]
  | some h =>
    obtain ⟨items, deleted⟩ := deleteItems_eq w (xhashWalk h)
    simp [rosterHashDelete, hash, deleted, World.updUser, World.updGlobals]

end Roster

namespace World

/-- The user loses the connection and both rosters. -/
def dropSession (w : World) (u : UserPtr) : World :=
  (rosterHashDelete u (w.updUser u fun user =>
    { user with conn := none, state := .canLogin, streamOpened := false })).updPrivRost u fun p =>
      { p with privRostList := [], groups := [], gall := none, loaded := false }

/-- What `user_conn_kill` leaves of a user, before it looks for the exit flag. -/
def resetUser (w : World) (u : UserPtr) : World :=
  let w := w.dropSession u
  if (w.users u).flags.expectKill then
    w.updUser u fun user => { user with flags := { user.flags with expectKill := false } }
  else
    (w.updGlobals fun g =>
      { g with jpolldConnUnexpectedKillCount := g.jpolldConnUnexpectedKillCount + 1 }).userDebug u
      .unexpectedDeath

def clearExit (w : World) (u : UserPtr) : World :=
  w.updUser u fun user => { user with flags := { user.flags with exitAfterLogin := false } }

/-- The connection gives its slot back, and its packets are written off. -/
def releaseConn (w : World) (c : ConnPtr) : World :=
  let conn := (w.heap c).conn
  let t := w.thread
  { w.touch c with
    thread :=
      { mpfd := if t.mpfd = conn.loc then t.mpfd - 1 else t.mpfd
        npfd := conn.loc :: t.npfd
        pfds := Function.update t.pfds conn.loc ⟨-1, false, false⟩
        conns := Function.update t.conns conn.loc none }
    globals :=
      { (w.touch c).globals with packetsCanceled :=
          (w.touch c).globals.packetsCanceled + BitVec.ofNat 32 conn.writer.length } }

def resetOwner (w : World) (owner : Option UserPtr) : World :=
  match owner with
  | none => w
  | some u => (w.updUser u fun user => { user with conn := none }).resetUser u

def freeConn (w : World) (c : ConnPtr) : World :=
  { w with
    globals := { w.globals with jpolldConnKillCount := w.globals.jpolldConnKillCount + 1 }
    heap := Function.update w.heap c { w.heap c with live := false } }

/-- A kill up to the point at which the exit flag of the owner may end it. -/
def stripConn (w : World) (c : ConnPtr) (site : KillSite) : World :=
  (((w.emit (.killed c site)).releaseConn c).touch c).resetOwner (w.heap c).conn.user

def killConn (w : World) (c : ConnPtr) (site : KillSite) : World := (w.stripConn c site).freeConn c

/-- `user_conn_kill` up to the line that clears `user->conn`. -/
def detachUser (w : World) (u : UserPtr) (site : KillSite) : World :=
  match (w.users u).conn with
  | none => w
  | some c => ((w.touch c).updConn c fun conn => { conn with user := none }).killConn c site

/-- Whether the death of the owner's connection ends the program. -/
def exits (w : World) (owner : Option UserPtr) : Bool :=
  match owner with
  | none => false
  | some u => (w.users u).flags.exitAfterLogin

end World

section Kills

variable (w : World) (u v : UserPtr) (c : ConnPtr) (site : KillSite)

theorem updUser_users_self (f : UserProperities → UserProperities) :
    (w.updUser u f).users u = f (w.users u) := by
  simp [World.updUser]

theorem updUser_users_of_ne {u v : UserPtr} (other : v ≠ u)
    (f : UserProperities → UserProperities) : (w.updUser u f).users v = w.users v := by
  simp [World.updUser, other]

/-- What a kill leaves of the user, and of the rest of the world. -/
structure ResetFrame (w w' : World) : Prop where
  thread : w'.thread = w.thread
  heap : w'.heap = w.heap
  nextConn : w'.nextConn = w.nextConn
  usersCount : w'.usersCount = w.usersCount
  env : w'.env = w.env
  staleReads : w'.staleReads = w.staleReads
  created : w'.globals.jpolldConnCreateCount = w.globals.jpolldConnCreateCount
  killed : w'.globals.jpolldConnKillCount = w.globals.jpolldConnKillCount
  others : ∀ v, v ≠ u → w'.users v = w.users v
  party : (w'.users u).party = (w.users u).party.reset
  flags : (w'.users u).flags = { (w.users u).flags with expectKill := false }
  trace : w'.trace = w.trace ∨ w'.trace = .report u .unexpectedDeath :: w.trace

theorem dropSession_frame : RosterFrame u (w.updUser u fun user => { user with
    conn := none, state := .canLogin, streamOpened := false
    privRost := ⟨[], user.privRost.numextcontacts, [], none, false⟩ }) (w.dropSession u) := by
  have frame := rosterHashDelete_frame (w.updUser u fun user =>
    { user with conn := none, state := .canLogin, streamOpened := false }) u
  obtain ⟨hash, count, last, user⟩ := frame.user
  refine ⟨frame.thread, frame.heap, frame.nextConn, frame.usersCount, frame.env, frame.staleReads,
    frame.created, frame.killed, frame.trace, fun v other => ?_, hash, count, last, ?_⟩
  · rw [World.dropSession, World.updPrivRost, updUser_users_of_ne _ other, frame.others v other,
      updUser_users_of_ne _ other, updUser_users_of_ne _ other]
  · rw [World.dropSession, World.updPrivRost, updUser_users_self, user, updUser_users_self,
      updUser_users_self]

theorem dropSession_party : ((w.dropSession u).users u).party = (w.users u).party.reset := by
  obtain ⟨hash, count, last, user⟩ := (dropSession_frame w u).user
  obtain ⟨noHash, noCount⟩ := rosterHashDelete_roster (w.updUser u fun user =>
    { user with conn := none, state := .canLogin, streamOpened := false }) u
  have hash_eq : ((w.dropSession u).users u).rosterHash = none := by
    rw [World.dropSession, World.updPrivRost, updUser_users_self]
    exact noHash
  have count_eq : ((w.dropSession u).users u).rosterCount =
      if (w.users u).rosterHash.isSome then 0 else (w.users u).rosterCount := by
    rw [World.dropSession, World.updPrivRost, updUser_users_self]
    simpa [updUser_users_self] using noCount
  rw [user, updUser_users_self] at hash_eq count_eq ⊢
  simp only [UserProperities.party, Party.reset, Party.mk.injEq, true_and, and_true]
  exact ⟨by simpa using hash_eq, count_eq⟩

theorem dropSession_flags : ((w.dropSession u).users u).flags = (w.users u).flags := by
  obtain ⟨hash, count, last, user⟩ := (dropSession_frame w u).user
  rw [user, updUser_users_self]

theorem resetUser_frame : ResetFrame u w (w.resetUser u) := by
  have frame := dropSession_frame w u
  have party := dropSession_party w u
  have flags := dropSession_flags w u
  have trace : (w.dropSession u).trace = w.trace := frame.trace
  have others : ∀ v, v ≠ u → (w.dropSession u).users v = w.users v := fun v other =>
    (frame.others v other).trans (updUser_users_of_ne w other _)
  simp only [World.resetUser]
  generalize w.dropSession u = d at *
  split
  · refine ⟨frame.thread, frame.heap, frame.nextConn, frame.usersCount, frame.env,
      frame.staleReads, frame.created, frame.killed, fun v other => ?_, ?_, ?_, .inl trace⟩
    · rw [updUser_users_of_ne _ other, others v other]
    · rw [updUser_users_self]
      exact party
    · rw [updUser_users_self, flags]
  · rename_i unset
    rw [flags] at unset
    have unset' : (w.users u).flags = { (w.users u).flags with expectKill := false } := by
      rw [← show (w.users u).flags.expectKill = false by simpa using unset]
    simp only [World.userDebug]
    split
    · exact ⟨frame.thread, frame.heap, frame.nextConn, frame.usersCount, frame.env,
        frame.staleReads, frame.created, frame.killed, others, party, flags.trans unset', .inl trace⟩
    · exact ⟨frame.thread, frame.heap, frame.nextConn, frame.usersCount, frame.env,
        frame.staleReads, frame.created, frame.killed, others, party, flags.trans unset',
        .inr (congrArg _ trace)⟩

theorem exitIfFlagged_apply (code : Int) :
    exitIfFlagged u code w = if (w.users u).flags.exitAfterLogin then
      .error (.exitApp code) (w.clearExit u) else .ok ⟨⟩ w := by
  simp only [exitIfFlagged, bind_apply, getUser_apply]
  split
  · rfl
  · rfl

theorem userConnReset_apply :
    userConnReset u w = if (w.users u).flags.exitAfterLogin then
      .error (.exitApp 0) ((w.resetUser u).clearExit u) else .ok ⟨⟩ (w.resetUser u) := by
  have frame := resetUser_frame w u
  have ran : userConnReset u w = exitIfFlagged u 0 (w.resetUser u) := by
    simp only [userConnReset, bind_apply, modUser_apply, modify_apply, privRosterDelete,
      getUser_apply, World.resetUser]
    rw [← World.dropSession]
    cases (((w.dropSession u).users u).flags.expectKill) with
    | true => rfl
    | false => rfl
  rw [ran, exitIfFlagged_apply, frame.flags]

theorem jpolldConnRelease_apply :
    jpolldConnRelease c w = .ok ⟨⟩ (w.releaseConn c) := by
  simp only [jpolldConnRelease, bind_apply, readConn_apply, modThread_apply, setPfd_apply,
    setConnSlot, modGlobals_apply, World.releaseConn, World.updPfd, World.updGlobals, heap_touch,
    thread_touch]

theorem releaseConn_heap : (w.releaseConn c).heap = w.heap := by
  simp [World.releaseConn]

theorem releaseConn_users : (w.releaseConn c).users = w.users := by
  simp [World.releaseConn]

/-- A kill either comes back, or the exit flag of the owner ends the program. -/
theorem jpolldConnKill_apply :
    (w.exits (w.heap c).conn.user = false ∧
      jpolldConnKill c site w = .ok ⟨⟩ (w.killConn c site)) ∨
    (w.exits (w.heap c).conn.user = true ∧ ∃ u, (w.heap c).conn.user = some u ∧
      jpolldConnKill c site w = .error (.exitApp 0) ((w.stripConn c site).clearExit u)) := by
  have released : jpolldConnRelease c (w.emit (.killed c site)) =
      .ok ⟨⟩ ((w.emit (.killed c site)).releaseConn c) := jpolldConnRelease_apply _ c
  have owner : (((w.emit (.killed c site)).releaseConn c).heap c).conn.user =
      (w.heap c).conn.user := by
    rw [releaseConn_heap]
    rfl
  simp only [jpolldConnKill, bind_apply, emit_apply, released, readConn_apply, owner]
  cases user : (w.heap c).conn.user with
  | none => exact .inl ⟨rfl, by simp only [World.killConn, World.stripConn, user]; rfl⟩
  | some u =>
    have flags : (((((w.emit (.killed c site)).releaseConn c).touch c).updUser u fun user =>
        { user with conn := none }).users u).flags = (w.users u).flags := by
      rw [updUser_users_self, users_touch, releaseConn_users]
      rfl
    simp only [bind_apply, modUser_apply, userConnReset_apply, flags, World.exits]
    cases (w.users u).flags.exitAfterLogin with
    | true =>
      refine .inr ⟨rfl, u, rfl, ?_⟩
      simp only [World.stripConn, user]
      rfl
    | false => exact .inl ⟨rfl, by simp only [World.killConn, World.stripConn, user]; rfl⟩

theorem session_releaseConn : (w.releaseConn c).session = w.session.release c := by
  have globals : (w.touch c).globals = w.globals := by
    unfold World.touch
    split <;> rfl
  have trace : (w.touch c).trace = w.trace := by
    unfold World.touch
    split <;> rfl
  have nextConn : (w.touch c).nextConn = w.nextConn := by
    unfold World.touch
    split <;> rfl
  simp only [World.releaseConn, World.session, heap_touch, users_touch, globals, trace, nextConn]
  rfl

variable {w u} in
theorem ResetFrame.session {w' : World} (frame : ResetFrame u w w') :
    w'.session = w.session.updParty u Party.reset ∨
      w'.session = (w.session.updParty u Party.reset).emit (.report u .unexpectedDeath) := by
  have users : w'.session.users = (w.session.updParty u Party.reset).users := by
    funext v
    rw [Session.users_updParty]
    split
    · subst v
      exact frame.party
    · exact congrArg UserProperities.party (frame.others v ‹_›)
  rcases frame.trace with same | report
  · left
    simp only [World.session, Session.updParty, frame.thread, frame.heap, frame.nextConn,
      frame.created, frame.killed, same, Session.mk.injEq, true_and, and_true]
    exact users
  · right
    simp only [World.session, Session.updParty, Session.emit, frame.thread, frame.heap,
      frame.nextConn, frame.created, frame.killed, report, Session.mk.injEq, true_and, and_true]
    exact users

theorem session_resetOwner (owner : Option UserPtr) :
    (w.resetOwner owner).session = w.session.resetOwner owner ∨
      ∃ u, (w.resetOwner owner).session =
        (w.session.resetOwner owner).emit (.report u .unexpectedDeath) := by
  cases owner with
  | none => exact .inl rfl
  | some u =>
    have detached : (w.updUser u fun user => { user with conn := none }).session =
        w.session.updParty u fun p => { p with conn := none } := session_updUser w u rfl
    have twice : (w.session.updParty u fun p => { p with conn := none }).updParty u Party.reset =
        w.session.updParty u Party.reset := by
      simp only [Session.updParty, Function.update_self, Function.update_idem]
      rfl
    rcases (resetUser_frame (w.updUser u fun user => { user with conn := none }) u).session with
      same | report
    · exact .inl (same.trans (by rw [detached, twice]; rfl))
    · exact .inr ⟨u, report.trans (by rw [detached, twice]; rfl)⟩

theorem session_freeConn : (w.freeConn c).session = w.session.free c := rfl

theorem session_killConn :
    (w.killConn c site).session = w.session.kill c site ∨
      ∃ u, (w.killConn c site).session =
        (w.session.kill c site).emit (.report u .unexpectedDeath) := by
  have released : (((w.emit (.killed c site)).releaseConn c).touch c).session =
      (w.session.emit (.killed c site)).release c := by
    rw [session_touch, session_releaseConn, session_emit]
  rw [World.killConn, World.stripConn, session_freeConn]
  rcases session_resetOwner (((w.emit (.killed c site)).releaseConn c).touch c)
    (w.heap c).conn.user with same | ⟨u, report⟩
  · exact .inl (by rw [same, released]; rfl)
  · exact .inr ⟨u, by rw [report, released]; rfl⟩

theorem session_killConn_of_none {w : World} {c : ConnPtr} (none : (w.heap c).conn.user = none) :
    (w.killConn c site).session = w.session.kill c site := by
  have released : (((w.emit (.killed c site)).releaseConn c).touch c).session =
      (w.session.emit (.killed c site)).release c := by
    rw [session_touch, session_releaseConn, session_emit]
  rw [World.killConn, World.stripConn, none, World.resetOwner, session_freeConn, released,
    Session.kill,
    conn_session, none, Session.resetOwner]

theorem killConn_conn (d : ConnPtr) : ((w.killConn c site).heap d).conn = (w.heap d).conn := by
  rcases session_killConn w c site with same | ⟨u, report⟩
  · change (w.killConn c site).session.conn d = _
    rw [same, Session.conn_kill, conn_session]
  · change (w.killConn c site).session.conn d = _
    rw [report, Session.conn_emit, Session.conn_kill, conn_session]

theorem userConnKill_apply :
    userConnKill u site w = userConnReset u (w.detachUser u site) := by
  simp only [userConnKill, bind_apply, getUser_apply]
  cases owner : (w.users u).conn with
  | none => simp only [World.detachUser, owner]
  | some c =>
    have detached : ((((w.touch c).updConn c fun conn => { conn with user := none }).heap
        c).conn).user = none := by simp [World.updConn]
    simp only [bind_apply, modConn_apply, World.detachUser, owner]
    rcases jpolldConnKill_apply ((w.touch c).updConn c fun conn => { conn with user := none }) c
      site with ⟨_, run⟩ | ⟨exits, _⟩
    · rw [run]
    · simp [detached, World.exits] at exits

theorem resetOwner_frame (owner : Option UserPtr) :
    (w.resetOwner owner).heap = w.heap ∧ (w.resetOwner owner).env = w.env ∧
      (w.resetOwner owner).staleReads = w.staleReads ∧ ((w.resetOwner owner).trace = w.trace ∨
        ∃ u, (w.resetOwner owner).trace = .report u .unexpectedDeath :: w.trace) := by
  cases owner with
  | none => exact ⟨rfl, rfl, rfl, .inl rfl⟩
  | some u =>
    have frame := resetUser_frame (w.updUser u fun user => { user with conn := none }) u
    refine ⟨frame.heap, frame.env, frame.staleReads, ?_⟩
    rcases frame.trace with same | report
    · exact .inl same
    · exact .inr ⟨u, report⟩

variable {w c} in
/-- Up to that point nothing is read of a dead connection. -/
theorem stripConn_frame (live : (w.heap c).live = true) :
    (w.stripConn c site).heap = w.heap ∧ (w.stripConn c site).env = w.env ∧
      (w.stripConn c site).staleReads = w.staleReads ∧
      ((w.stripConn c site).trace = .killed c site :: w.trace ∨
        ∃ u, (w.stripConn c site).trace = .report u .unexpectedDeath :: .killed c site :: w.trace) := by
  have live' : ((w.emit (.killed c site)).heap c).live = true := live
  have released : ((w.emit (.killed c site)).releaseConn c).heap = w.heap := releaseConn_heap _ c
  have same : ((w.emit (.killed c site)).releaseConn c).touch c =
      (w.emit (.killed c site)).releaseConn c := touch_of_live (by rw [released, live])
  obtain ⟨heap, env, stale, trace⟩ :=
    resetOwner_frame ((w.emit (.killed c site)).releaseConn c) (w.heap c).conn.user
  rw [World.stripConn, same]
  simp only [World.releaseConn, touch_of_live live'] at heap env stale trace ⊢
  exact ⟨heap, env, stale, trace⟩

variable {w c} in
theorem killConn_frame (live : (w.heap c).live = true) :
    ((w.killConn c site).heap c).live = false ∧ (w.killConn c site).staleReads = w.staleReads ∧
      ((w.killConn c site).trace = .killed c site :: w.trace ∨
        ∃ u, (w.killConn c site).trace = .report u .unexpectedDeath :: .killed c site :: w.trace) := by
  obtain ⟨_, _, stale, trace⟩ := stripConn_frame site live
  exact ⟨by simp [World.killConn, World.freeConn], stale, trace⟩

theorem session_detachUser {w : World} {u : UserPtr} {c : ConnPtr}
    (owner : (w.users u).conn = some c) :
    (w.detachUser u site).session =
      (w.session.updConn c fun conn => { conn with user := none }).kill c site := by
  simp only [World.detachUser, owner]
  rw [session_killConn_of_none site (by simp [World.updConn]), session_updConn, session_touch]

end Kills

namespace World

/-- A call of the write primitive for the packet in front of the queue of `c`. -/
def wrote (w : World) (c : ConnPtr) : World :=
  let w := (w.touch c).touch c
  { w with env := { w.env with writes := fun n => w.env.writes (n + 1) } }

/-- Its result, and whether the failure of the call is one to wait for. -/
def blocked (w : World) (c : ConnPtr) : Bool :=
  ((w.heap c).conn.ssl && (w.env.writes 0).blocked) || (w.env.writes 0).wouldBlock

/-- A part of the packet went out. -/
def advancePacket (w : World) (c : ConnPtr) (text : CString) (next : List JpolldWriteBuf)
    (k : Nat) : World :=
  (((w.wrote c).emit (.sent c (text.take k))).touch c).updConn c
    fun conn => { conn with writer := ⟨some (text.drop k)⟩ :: next }

/-- All of the packet went out. -/
def popPacket (w : World) (c : ConnPtr) (text : CString) (next : List JpolldWriteBuf) : World :=
  let popped := ((((w.wrote c).emit (.sent c text)).updGlobals fun g =>
    { g with packetsSent := g.packetsSent + 1 }).touch c).updConn c
      fun conn => { conn with writer := next }
  if next = [] then
    popped.updPfd (w.heap c).conn.loc fun p => { p with pollout := !p.pollout }
  else popped

def expectKillOf (w : World) (owner : Option UserPtr) : World :=
  match owner with
  | none => w
  | some u => w.updUser u fun user => { user with flags := { user.flags with expectKill := true } }

end World

section WriteLoop

variable {w : World} {c : ConnPtr} {text : CString} {next : List JpolldWriteBuf}

@[simp] theorem heap_wrote : (w.wrote c).heap = w.heap := by
  simp [World.wrote]

@[simp] theorem session_wrote : (w.wrote c).session = w.session := by
  change ((w.touch c).touch c).session = w.session
  simp

theorem wrote_of_live (live : (w.heap c).live = true) : w.wrote c =
    { w with env := { w.env with writes := fun n => w.env.writes (n + 1) } } := by
  simp only [World.wrote, touch_of_live live]

theorem nextWrite_apply : nextWrite ((w.touch c).touch c) = .ok (w.env.writes 0) (w.wrote c) := by
  simp only [nextWrite, bind_apply, get_apply, set_apply, pure_apply, World.wrote, env_touch]

variable (fuel : Nat)

theorem writeLoop_empty (queue : (w.heap c).conn.writer = []) :
    writeLoop (fuel + 1) c w = .ok ⟨⟩ (w.touch c) := by
  simp only [writeLoop, bind_apply, readConn_apply, queue, pure_apply]

theorem writeLoop_null (queue : (w.heap c).conn.writer = ⟨none⟩ :: next) :
    writeLoop (fuel + 1) c w = .error .crash (w.touch c) := by
  simp only [writeLoop, bind_apply, readConn_apply, queue, throw_apply]

/-- A round with a packet, by the result of the write primitive. -/
theorem writeLoop_round (queue : (w.heap c).conn.writer = ⟨some text⟩ :: next) :
    writeLoop (fuel + 1) c w =
      if (w.env.writes 0).len ≤ 0 then
        if w.blocked c then .ok ⟨⟩ (w.wrote c) else jpolldConnKill c .writeFailed (w.wrote c)
      else if (w.env.writes 0).len < text.length then
        .ok ⟨⟩ (w.advancePacket c text next (w.env.writes 0).len.toNat)
      else if next = [] ∧ (w.heap c).conn.state = .closing then
        (jpolldConnKill c .writeDrained >>= fun _ => writeLoop fuel c)
          ((w.popPacket c text next).expectKillOf (w.heap c).conn.user)
      else writeLoop fuel c (w.popPacket c text next) := by
  simp only [writeLoop, bind_apply, readConn_apply, queue, nextWrite_apply, heap_touch]
  by_cases failed : (w.env.writes 0).len ≤ 0
  · simp only [failed, if_true]
    change (if w.blocked c = true then _ else _ : M Unit) _ = _
    split <;> rfl
  simp only [failed, if_false]
  by_cases short : (w.env.writes 0).len < text.length
  · simp only [short, if_true, bind_apply, emit_apply, modConn_apply, World.advancePacket]
  simp only [short, if_false, bind_apply, emit_apply, modConn_apply, modGlobals_apply,
    World.popPacket]
  by_cases last : next = []
  · by_cases closing : (w.heap c).conn.state = .closing
    · simp only [last, closing, if_true, and_self, bind_apply, setPfd_apply]
      cases (w.heap c).conn.user <;> rfl
    · simp only [last, closing, if_true, if_false, and_false, bind_apply, setPfd_apply]
  · simp only [last, if_false, false_and]

theorem writeLoop_blocked (queue : (w.heap c).conn.writer = ⟨some text⟩ :: next)
    (failed : (w.env.writes 0).len ≤ 0) (blocked : w.blocked c = true) :
    writeLoop (fuel + 1) c w = .ok ⟨⟩ (w.wrote c) := by
  rw [writeLoop_round fuel queue, if_pos failed, if_pos blocked]

theorem writeLoop_failed (queue : (w.heap c).conn.writer = ⟨some text⟩ :: next)
    (failed : (w.env.writes 0).len ≤ 0) (dead : w.blocked c = false) :
    writeLoop (fuel + 1) c w = jpolldConnKill c .writeFailed (w.wrote c) := by
  rw [writeLoop_round fuel queue, if_pos failed, if_neg (by simp [dead])]

theorem writeLoop_short (queue : (w.heap c).conn.writer = ⟨some text⟩ :: next)
    (some' : 0 < (w.env.writes 0).len) (short : (w.env.writes 0).len < text.length) :
    writeLoop (fuel + 1) c w =
      .ok ⟨⟩ (w.advancePacket c text next (w.env.writes 0).len.toNat) := by
  rw [writeLoop_round fuel queue, if_neg (by omega), if_pos short]

theorem writeLoop_more (queue : (w.heap c).conn.writer = ⟨some text⟩ :: next)
    (some' : 0 < (w.env.writes 0).len) (whole : (text.length : Int) ≤ (w.env.writes 0).len)
    (stays : next ≠ [] ∨ (w.heap c).conn.state ≠ .closing) :
    writeLoop (fuel + 1) c w = writeLoop fuel c (w.popPacket c text next) := by
  rw [writeLoop_round fuel queue, if_neg (by omega), if_neg (by omega), if_neg (by tauto)]

theorem writeLoop_drained (queue : (w.heap c).conn.writer = [⟨some text⟩])
    (some' : 0 < (w.env.writes 0).len) (whole : (text.length : Int) ≤ (w.env.writes 0).len)
    (closing : (w.heap c).conn.state = .closing) :
    writeLoop (fuel + 1) c w = (jpolldConnKill c .writeDrained >>= fun _ => writeLoop fuel c)
      ((w.popPacket c text []).expectKillOf (w.heap c).conn.user) := by
  rw [writeLoop_round fuel queue, if_neg (by omega), if_neg (by omega), if_pos ⟨rfl, closing⟩]

/-- The rule for the loop. `K` holds when a round begins; whatever ends the loop
leaves a result of `Q`. The packets in the queue are rounds enough. -/
theorem writeLoop_rule {K : World → Prop} {Q : EStateM.Result Stop World Unit → Prop}
    (empty : ∀ w, K w → (w.heap c).conn.writer = [] → Q (.ok ⟨⟩ (w.touch c)))
    (null : ∀ w next, K w → (w.heap c).conn.writer = ⟨none⟩ :: next → Q (.error .crash (w.touch c)))
    (blocked : ∀ w, K w → (w.heap c).conn.writer ≠ [] → Q (.ok ⟨⟩ (w.wrote c)))
    (failed : ∀ w, K w → (w.heap c).conn.writer ≠ [] → Q (jpolldConnKill c .writeFailed (w.wrote c)))
    (short : ∀ w text next k, K w → (w.heap c).conn.writer = ⟨some text⟩ :: next →
      k < text.length → Q (.ok ⟨⟩ (w.advancePacket c text next k)))
    (more : ∀ w text next, K w → (w.heap c).conn.writer = ⟨some text⟩ :: next →
      K (w.popPacket c text next))
    (drained : ∀ w text, K w → (w.heap c).conn.writer = [⟨some text⟩] →
      match jpolldConnKill c .writeDrained
        ((w.popPacket c text []).expectKillOf (w.heap c).conn.user) with
      | .ok _ w' => K w'
      | .error e w' => Q (.error e w'))
    (fuel : Nat) (w : World) (holds : K w) (enough : (w.heap c).conn.writer.length < fuel) :
    Q (writeLoop fuel c w) := by
  induction fuel generalizing w with
  | zero => exact absurd enough (Nat.not_lt_zero _)
  | succ fuel ih =>
    match queue : (w.heap c).conn.writer with
    | [] =>
      rw [writeLoop_empty fuel queue]
      exact empty w holds queue
    | ⟨none⟩ :: next =>
      rw [writeLoop_null fuel queue]
      exact null w next holds queue
    | ⟨some text⟩ :: next =>
      have waits : (w.heap c).conn.writer ≠ [] := by simp [queue]
      have conn : ((w.popPacket c text next).heap c).conn =
          { (w.heap c).conn with writer := next } := by
        unfold World.popPacket
        split <;> simp [World.updPfd, World.updConn, World.updGlobals, World.emit]
      have popped := more w text next holds queue
      rw [queue, List.length_cons] at enough
      by_cases fails : (w.env.writes 0).len ≤ 0
      · cases waiting : w.blocked c with
        | true =>
          rw [writeLoop_blocked fuel queue fails waiting]
          exact blocked w holds waits
        | false =>
          rw [writeLoop_failed fuel queue fails waiting]
          exact failed w holds waits
      have some' : 0 < (w.env.writes 0).len := by omega
      by_cases part : (w.env.writes 0).len < text.length
      · rw [writeLoop_short fuel queue some' part]
        exact short w text next _ holds queue (by omega)
      have whole : (text.length : Int) ≤ (w.env.writes 0).len := by omega
      by_cases stays : next ≠ [] ∨ (w.heap c).conn.state ≠ .closing
      · rw [writeLoop_more fuel queue some' whole stays]
        exact ih _ popped (by rw [conn]; exact Nat.lt_of_succ_lt_succ enough)
      obtain ⟨rfl, closing⟩ : next = [] ∧ (w.heap c).conn.state = .closing := by simpa using stays
      have torn := drained w text holds queue
      rw [writeLoop_drained fuel queue some' whole closing, bind_apply]
      rcases jpolldConnKill_apply ((w.popPacket c text []).expectKillOf (w.heap c).conn.user) c
        .writeDrained with ⟨_, run⟩ | ⟨_, u, _, run⟩
      · rw [run] at torn ⊢
        refine ih _ torn ?_
        have same : (((w.popPacket c text []).expectKillOf (w.heap c).conn.user).heap c).conn =
            { (w.heap c).conn with writer := [] } := by
          rw [← conn]
          cases (w.heap c).conn.user <;> rfl
        rw [killConn_conn, same]
        exact Nat.lt_of_le_of_lt (Nat.zero_le _) (Nat.lt_of_succ_lt_succ enough)
      · rw [run] at torn ⊢
        exact torn

theorem jpolldConnWrite_apply : jpolldConnWrite_ (some c) w =
    writeLoop ((w.heap c).conn.writer.length + 1) c (w.touch c) := by
  simp only [jpolldConnWrite_, bind_apply, readConn_apply]

theorem session_advancePacket (w : World) (c : ConnPtr) (text : CString)
    (next : List JpolldWriteBuf) (k : Nat) :
    (w.advancePacket c text next k).session = w.session.advance c text next k := by
  simp only [World.advancePacket, session_updConn, session_touch, session_emit, session_wrote]
  rfl

theorem session_popPacket : (w.popPacket c text next).session = w.session.pop c text next := by
  simp only [World.popPacket, Session.pop]
  split
  · simp only [session_updPfd, session_updConn, session_touch, session_updGlobals, session_emit,
      session_wrote]
    rfl
  · simp only [session_updConn, session_touch, session_updGlobals, session_emit, session_wrote]

theorem session_expectKillOf (owner : Option UserPtr) :
    (w.expectKillOf owner).session = w.session := by
  cases owner with
  | none => rfl
  | some u => exact session_updUser_soft w u rfl

end WriteLoop

section Connect

variable (w : World) (u : UserPtr)

/-- What is still to come of the answers of the system. -/
structure Env.Later (env env' : Env) : Prop where
  files : env'.files = env.files
  clock : ∀ n, ∃ m, env'.clock n = env.clock m

theorem Env.Later.refl (env : Env) : env.Later env := ⟨rfl, fun n => ⟨n, rfl⟩⟩

theorem Env.Later.trans {env env₁ env₂ : Env} (first : env.Later env₁) (second : env₁.Later env₂) :
    env.Later env₂ := by
  refine ⟨second.files.trans first.files, fun n => ?_⟩
  obtain ⟨m, same⟩ := second.clock n
  obtain ⟨k, same'⟩ := first.clock m
  exact ⟨k, same.trans same'⟩

theorem gettimeofday_apply :
    ∃ env, w.env.Later env ∧ gettimeofday w = .ok (w.env.clock 0) (w.withEnv env) :=
  ⟨{ w.env with clock := fun n => w.env.clock (n + 1) }, ⟨rfl, fun n => ⟨n + 1, rfl⟩⟩, rfl⟩

theorem makeClientfd_apply :
    ∃ r env, w.env.Later env ∧ makeClientfd w = .ok r (w.withEnv env) := by
  simp only [makeClientfd, makeConnSocket, nextConnect, bind_apply, get_apply, set_apply,
    pure_apply]
  have later : w.env.Later { w.env with connects := fun n => w.env.connects (n + 1) } :=
    ⟨rfl, fun n => ⟨n, rfl⟩⟩
  cases w.env.connects 0 <;> exact ⟨_, _, later, rfl⟩

namespace World

/-- The memory of a new connection. -/
def createConn (w : World) (loc : Nat) (u : UserPtr) (sstate : SockState) (crTime : Int)
    (ssl : Bool) : World :=
  { w with
    globals := { w.globals with jpolldConnCreateCount := w.globals.jpolldConnCreateCount + 1 }
    nextConn := w.nextConn + 1
    heap := Function.update w.heap w.nextConn
      ⟨⟨loc, .unknown, sstate, [], crTime, some u, [], ssl⟩, true⟩ }

/-- More slots are made if there is none. -/
def refillSlots (w : World) : World :=
  if w.thread.npfd = [] then
    ({ w with thread := addConns w.thread }).emit (.slotsAdded (addConns w.thread).npfd)
  else w

/-- The new connection of a user in the slot `loc`. -/
def connectUser (w : World) (u : UserPtr) (loc : Nat) (next : List Nat) (sstate : SockState)
    (fd time : Int) (ssl : Bool) : World :=
  let w' := (w.updPfd loc fun _ => ⟨fd, true, false⟩).createConn loc u sstate time ssl
  let t := w'.thread
  (({ w' with thread :=
      { t with
        conns := Function.update t.conns loc (some w.nextConn)
        mpfd := if loc > t.mpfd then loc else t.mpfd
        npfd := next } }).updUser u fun user => { user with conn := some w.nextConn }).emit
    (.created w.nextConn u)

end World

theorem jpolldConnCreate_apply (loc : Nat) (sstate : SockState) (crTime : Int) :
    ∃ ssl env, w.env.Later env ∧ jpolldConnCreate loc u sstate crTime w =
      .ok w.nextConn ((w.createConn loc u sstate crTime ssl).withEnv env) := by
  simp only [jpolldConnCreate, bind_apply, modGlobals_apply, getUser_apply]
  split
  · exact ⟨_, { w.env with sslConns := fun n => w.env.sslConns (n + 1) },
      ⟨rfl, fun n => ⟨n, rfl⟩⟩, rfl⟩
  · exact ⟨_, w.env, .refl _, rfl⟩

/-- Making new slots changes the free list alone. -/
theorem refillSlots_kept : ∃ npfd trace, w.refillSlots =
    { w with thread := { w.thread with npfd := npfd }, trace := trace } := by
  unfold World.refillSlots
  split
  · exact ⟨_, _, rfl⟩
  · exact ⟨_, _, rfl⟩

theorem session_refillSlots : w.refillSlots.session =
    if w.thread.npfd = [] then w.session.refill else w.session := by
  unfold World.refillSlots
  split <;> rfl

theorem session_connectUser (loc : Nat) (next : List Nat) (sstate : SockState) (fd time : Int)
    (ssl : Bool) : (w.connectUser u loc next sstate fd time ssl).session =
      w.session.connect u loc next sstate fd time ssl := by
  rw [World.connectUser, session_emit, session_updUser _ u (g := fun p =>
    { p with conn := some w.nextConn }) rfl]
  rfl

theorem refillSlots_withEnv (env : Env) :
    (w.withEnv env).refillSlots = w.refillSlots.withEnv env := by
  have same : (w.withEnv env).thread = w.thread := rfl
  simp only [World.refillSlots, same]
  split <;> rfl

theorem withEnv_withEnv (env env' : Env) : (w.withEnv env).withEnv env' = w.withEnv env' := rfl

theorem connectUser_withEnv (loc : Nat) (next : List Nat) (sstate : SockState) (fd time : Int)
    (ssl : Bool) (env : Env) : (w.withEnv env).connectUser u loc next sstate fd time ssl =
      (w.connectUser u loc next sstate fd time ssl).withEnv env := rfl

theorem ensureSlot_apply : ensureSlot w = .ok ⟨⟩ w.refillSlots := by
  simp only [ensureSlot, bind_apply, get_apply, World.refillSlots]
  split <;> rfl

theorem userTakeSlot_none (fd : Int) (sstate : SockState) (time : Int) (none : w.thread.npfd = []) :
    userTakeSlot u fd sstate time w = .error .crash w := by
  simp only [userTakeSlot, bind_apply, get_apply, none, throw_apply]

/-- The first free slot is taken, and the server is greeted. -/
theorem userTakeSlot_apply (fd : Int) (sstate : SockState) (time : Int) {loc : Nat}
    {next : List Nat} (slot : w.thread.npfd = loc :: next) :
    ∃ ssl env, w.env.Later env ∧ userTakeSlot u fd sstate time w =
      .ok ⟨⟩ (((w.connectUser u loc next sstate fd time ssl).withEnv env).acceptPacket w.nextConn
        (some (apSnprintf 300 (streamOpen (w.users u).idServer)))) := by
  obtain ⟨ssl, env, later, created⟩ :=
    jpolldConnCreate_apply (w.updPfd loc fun _ => ⟨fd, true, false⟩) u loc sstate time
  refine ⟨ssl, env, later, ?_⟩
  have connected : userTakeSlot u fd sstate time w =
      (do
        let _ ← jpolldConnEnqueue (some w.nextConn)
          (some (apSnprintf 300 (streamOpen
            (((w.connectUser u loc next sstate fd time ssl).withEnv env).users u).idServer))) true :
        M Unit) ((w.connectUser u loc next sstate fd time ssl).withEnv env) := by
    simp only [userTakeSlot, bind_apply, get_apply, slot, setPfd_apply, created]
    rfl
  have server : (((w.connectUser u loc next sstate fd time ssl).withEnv env).users u).idServer =
      (w.users u).idServer := by
    simp [World.withEnv, World.connectUser, World.createConn, World.updUser, World.emit,
      World.updPfd]
  rw [connected, bind_apply, jpolldConnEnqueue_room (.inr rfl), server]
  rfl

/-- A try to connect fails, ends the program, or takes the first free slot and
greets the server. The connection is as old as the first reading of the clock. -/
theorem userConnect_apply :
    (∃ env, w.env.Later env ∧ userConnect u w = .ok (-1) (w.withEnv env)) ∨
    (∃ e w', (e = .exitApp 0 ∨ w.refillSlots.thread.npfd = [] ∧ e = .crash) ∧
      userConnect u w = .error e w') ∨
    (∃ loc next sstate fd ssl env, w.env.Later env ∧ w.refillSlots.thread.npfd = loc :: next ∧
      userConnect u w = .ok 0 (((w.refillSlots.connectUser u loc next sstate fd (w.env.clock 0)
        ssl).withEnv env).acceptPacket w.nextConn
          (some (apSnprintf 300 (streamOpen (w.users u).idServer))))) := by
  obtain ⟨env₁, later₁, clock⟩ := gettimeofday_apply w
  obtain ⟨⟨fd, sstate⟩, env₂, later₂, socket⟩ := makeClientfd_apply (w.withEnv env₁)
  have later : w.env.Later env₂ := later₁.trans later₂
  simp only [userConnect, bind_apply, clock, socket]
  split
  · rw [bind_apply, exitIfFlagged_apply]
    by_cases flagged : (((w.withEnv env₁).withEnv env₂).users u).flags.exitAfterLogin = true
    · rw [if_pos flagged]
      exact .inr (.inl ⟨_, _, .inl rfl, rfl⟩)
    · rw [if_neg flagged]
      exact .inl ⟨_, later, rfl⟩
  have kept : (w.refillSlots.nextConn = w.nextConn ∧ w.refillSlots.users = w.users) := by
    unfold World.refillSlots
    split <;> exact ⟨rfl, rfl⟩
  rw [withEnv_withEnv, bind_apply, ensureSlot_apply, refillSlots_withEnv]
  simp only [bind_apply]
  cases slot : w.refillSlots.thread.npfd with
  | nil =>
    rw [userTakeSlot_none (w.refillSlots.withEnv env₂) u fd sstate _ slot]
    exact .inr (.inl ⟨_, _, .inr ⟨rfl, rfl⟩, rfl⟩)
  | cons loc next =>
    obtain ⟨ssl, env, later₃, taken⟩ :=
      userTakeSlot_apply (w.refillSlots.withEnv env₂) u fd sstate (w.env.clock 0) slot
    rw [taken, connectUser_withEnv, withEnv_withEnv, ← kept.1, ← kept.2]
    exact .inr (.inr ⟨loc, next, sstate, fd, ssl, env, later.trans later₃, rfl, rfl⟩)

end Connect

end JabSimul
