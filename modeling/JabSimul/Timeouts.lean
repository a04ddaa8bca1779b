import JabSimul.Schedule
import JabSimul.SessionFrame

/-!
The timeouts of a connection. The job of a user looks at them in one of its states
only, and what it does there does not end the connection. What is overdue after a
job was overdue before, unless an event ended the connection.
-/
namespace JabSimul

open Simulation Relation

/-- What the timeouts look at. -/
structure Wait where
  state : ConnState
  sstate : SockState
  creationTime : Int
  userState : UserState
  streamOpened : Bool
  deriving DecidableEq

namespace Session

def wait (s : Session) (u : UserPtr) : Option Wait :=
  (s.users u).conn.map fun c =>
    ⟨(s.conn c).state, (s.conn c).sstate, (s.conn c).creationTime, (s.users u).state,
      (s.users u).streamOpened⟩

variable {s t : Session} {c : ConnPtr} {u v : UserPtr}

theorem wait_some (owner : (s.users u).conn = some c) : s.wait u = some
    ⟨(s.conn c).state, (s.conn c).sstate, (s.conn c).creationTime, (s.users u).state,
      (s.users u).streamOpened⟩ := by
  rw [wait, owner]
  rfl

theorem wait_none_iff : s.wait u = none ↔ (s.users u).conn = none := by
  rw [wait, Option.map_eq_none_iff]

/-- What keeps a user and the main fields of its connection keeps the wait. -/
theorem wait_congr (owner : (t.users v).conn = (s.users v).conn)
    (user : (t.users v).state = (s.users v).state ∧
      (t.users v).streamOpened = (s.users v).streamOpened)
    (conn : ∀ c, (s.users v).conn = some c → (t.conn c).state = (s.conn c).state ∧
      (t.conn c).sstate = (s.conn c).sstate ∧ (t.conn c).creationTime = (s.conn c).creationTime) :
    t.wait v = s.wait v := by
  cases same : (s.users v).conn with
  | none => rw [wait_none_iff.mpr same, wait_none_iff.mpr (owner.trans same)]
  | some c =>
    obtain ⟨state, sstate, time⟩ := conn c same
    rw [wait_some same, wait_some (owner.trans same), state, sstate, time, user.1, user.2]

theorem wait_emit (s : Session) (e : Ev) : (s.emit e).wait v = s.wait v := rfl

theorem wait_accept (s : Session) (c : ConnPtr) (text : Option CString) :
    (s.accept c text).wait v = s.wait v := by
  refine wait_congr rfl ⟨rfl, rfl⟩ fun d _ => ?_
  rw [conn_accept]
  split <;> exact ⟨rfl, rfl, rfl⟩

theorem wait_register (s : Session) (c : ConnPtr) (e : XmlNeedResponse) :
    (s.register c e).wait v = s.wait v := by
  refine wait_congr rfl ⟨rfl, rfl⟩ fun d _ => ?_
  rw [conn_register]
  split <;> exact ⟨rfl, rfl, rfl⟩

theorem wait_updParty {f : Party → Party} (keeps : (f (s.users u)).conn = (s.users u).conn)
    (state : (f (s.users u)).state = (s.users u).state)
    (opened : (f (s.users u)).streamOpened = (s.users u).streamOpened) :
    (s.updParty u f).wait v = s.wait v := by
  have same : ∀ {α : Type} (field : Party → α), field (f (s.users u)) = field (s.users u) →
      field ((s.updParty u f).users v) = field (s.users v) := by
    intro α field keeps
    rw [users_updParty]
    split
    · subst v
      exact keeps
    · rfl
  exact wait_congr (same Party.conn keeps) ⟨same Party.state state, same Party.streamOpened opened⟩
    fun _ _ => ⟨rfl, rfl, rfl⟩

theorem wait_draw (s : Session) (u : UserPtr) : (s.draw u).wait v = s.wait v := by
  rw [draw, wait_emit]
  exact wait_updParty rfl rfl rfl

theorem wait_rosterRegister (s : Session) (u : UserPtr) (c : ConnPtr) (e : XmlNeedResponse) :
    (s.rosterRegister u c e).wait v = s.wait v := by
  rw [rosterRegister, wait_register, request, wait_emit, wait_draw]

/-- The connection of `u` is marked, those of the others are not. -/
theorem Sound.wait_finish (sound : s.Sound) (owner : (s.users u).conn = some c) (v : UserPtr) :
    (s.finish c).wait v =
      if v = u then (s.wait u).map fun x => { x with state := .closing } else s.wait v := by
  by_cases here : v = u
  · subst v
    rw [if_pos rfl, wait_some owner, Option.map_some,
      wait_some (s := s.finish c) (c := c) owner, conn_finish, if_pos rfl]
    rfl
  · rw [if_neg here]
    refine wait_congr rfl ⟨rfl, rfl⟩ fun d owner' => ?_
    have other : d ≠ c := fun same => here (sound.only owner (same ▸ owner'))
    rw [conn_finish, if_neg other]
    exact ⟨rfl, rfl, rfl⟩

/-- The new connection is not logging in. -/
theorem Sound.wait_connect (sound : s.Sound) (idle : (s.users u).conn = none) (loc : Nat)
    (next : List Nat) (sstate : SockState) (fd time : Int) (ssl : Bool) (v : UserPtr) :
    (s.connect u loc next sstate fd time ssl).wait v =
      if v = u then some ⟨.unknown, sstate, time, (s.users u).state, false⟩ else s.wait v := by
  by_cases here : v = u
  · subst v
    obtain ⟨_, _, opened, _⟩ := (sound.party u).idle idle
    have user : (s.connect u loc next sstate fd time ssl).users u =
        { s.users u with conn := some s.nextConn } := by simp [Session.connect]
    have owner : ((s.connect u loc next sstate fd time ssl).users u).conn = some s.nextConn := by
      rw [user]
    rw [if_pos rfl, wait_some owner, conn_connect, if_pos rfl, user, opened]
  · rw [if_neg here]
    have user : (s.connect u loc next sstate fd time ssl).users v = s.users v := by
      simp [Session.connect, here]
    refine wait_congr (by rw [user]) ⟨by rw [user], by rw [user]⟩ fun d owner => ?_
    rw [conn_connect, if_neg (Nat.ne_of_lt (sound.old owner))]
    exact ⟨rfl, rfl, rfl⟩

/-- A killed connection is nobody's, and the others keep theirs. -/
theorem wait_kill (owner : ∀ v, (s.conn c).user = some v ↔ (s.users v).conn = some c)
    (site : KillSite) (v : UserPtr) :
    (s.kill c site).wait v = if (s.users v).conn = some c then none else s.wait v := by
  by_cases mine : (s.users v).conn = some c
  · rw [if_pos mine, wait_none_iff, users_kill, if_pos ((owner v).mpr mine)]
    rfl
  · rw [if_neg mine]
    have user : (s.kill c site).users v = s.users v := by
      rw [users_kill, if_neg fun user => mine ((owner v).mp user)]
    refine wait_congr (by rw [user]) ⟨by rw [user], by rw [user]⟩ fun d _ => ?_
    rw [conn_kill]
    exact ⟨rfl, rfl, rfl⟩

theorem Sound.owner_iff (sound : s.Sound) (live : s.live c) (v : UserPtr) :
    (s.conn c).user = some v ↔ (s.users v).conn = some c :=
  ⟨fun user => (sound.owner v c).mpr ⟨live, user⟩, fun owner => sound.user_of_conn owner⟩

theorem wait_pop (s : Session) (c : ConnPtr) (text : CString) (next : List JpolldWriteBuf) :
    (s.pop c text next).wait v = s.wait v := by
  have users := users_pop s c text next
  refine wait_congr (by rw [users]) ⟨by rw [users], by rw [users]⟩ fun d _ => ?_
  rw [conn_pop_of]
  split <;> exact ⟨rfl, rfl, rfl⟩

theorem Sound.wait_userKill (sound : s.Sound) (owner : (s.users u).conn = some c)
    (site : KillSite) (v : UserPtr) :
    (s.userKill u c site).wait v = if v = u then none else s.wait v := by
  have users : (s.userKill u c site).users v =
      if v = u then (s.users u).reset else s.users v := by
    simp only [Session.userKill, users_updParty, users_kill, conn_updConn_self, reduceCtorEq, if_false]
    rfl
  by_cases here : v = u
  · rw [if_pos here, wait_none_iff, users, if_pos here]
    rfl
  · rw [if_neg here]
    rw [if_neg here] at users
    refine wait_congr (by rw [users]) ⟨by rw [users], by rw [users]⟩ fun d owner' => ?_
    have other : d ≠ c := fun same => here (sound.only owner (same ▸ owner'))
    rw [conn_userKill, if_neg other]
    exact ⟨rfl, rfl, rfl⟩

end Session

namespace World

def wait (w : World) (u : UserPtr) : Option Wait := w.session.wait u

theorem wait_of_session {w : World} {s : Session} (same : w.session = s) (u : UserPtr) :
    w.wait u = s.wait u := by
  rw [wait, same]

/-- The user waits as before, behind the same gate and with the same timeouts. -/
structure Patient (u : UserPtr) (w w' : World) : Prop where
  wait : w'.wait u = w.wait u
  gate : w'.globals.doEvents = w.globals.doEvents
  fixed : (w'.users u).setup.fixed = (w.users u).setup.fixed

theorem Patient.refl (u : UserPtr) (w : World) : w.Patient u w := ⟨rfl, rfl, rfl⟩

theorem Patient.trans {u : UserPtr} {w w' w'' : World} (first : Patient u w w')
    (second : Patient u w' w'') : Patient u w w'' :=
  ⟨second.wait.trans first.wait, second.gate.trans first.gate, second.fixed.trans first.fixed⟩

theorem doEvents_acceptPacket (w : World) (c : ConnPtr) (text : Option CString) :
    (w.acceptPacket c text).globals.doEvents = w.globals.doEvents := by
  simp [acceptPacket, emit, updPfd, updConn, updGlobals]

theorem doEvents_rejectPacket (w : World) (c : ConnPtr) (text : Option CString) :
    (w.rejectPacket c text).globals.doEvents = w.globals.doEvents := by
  simp [rejectPacket, emit, updGlobals]

theorem doEvents_rosterRegistered (w : World) (u : UserPtr) (c : ConnPtr) (time : Int)
    (del : Bool) : (w.rosterRegistered u c time del).globals.doEvents = w.globals.doEvents := by
  simp [rosterRegistered, storeXmlInfo, requestNoted, drawId, emit, updConn, updUser]

end World

/-- What is written or noted. -/
def saying (k : Concern) : Prop := k = .books ∨ k = .talk ∨ ∃ u arg, k = .raw u arg

/-- The moves that a pass over the events is made of. -/
def passing (k : Concern) : Prop := k ≠ .hear ∧ k ≠ .answer ∧ k ≠ .login ∧ k ≠ .socket

section Waits

variable {k : Concern} {w w' : World}

/-- No timeout comes nearer by what a user says. -/
theorem Move.patient (spoken : saying k) (move : Move k w w') (u : UserPtr) : w.Patient u w' := by
  have fixed := move.fixedSetup u
  have soft : w'.session = w.session → w'.globals.doEvents = w.globals.doEvents →
      w.Patient u w' := fun same gate => ⟨congrArg (Session.wait · u) same, gate, fixed⟩
  cases move with
  | env _ _ => exact soft rfl rfl
  | count f keeps =>
    have core := keeps w.globals
    simp only [Globals.core, Prod.mk.injEq] at core
    exact soft (session_updGlobals w core.1 core.2.1) core.2.2.2.2
  | note e _ _ => exact ⟨rfl, rfl, fixed⟩
  | user v f keeps =>
    have same : (f (w.users v)).core.party = (w.users v).core.party :=
      congrArg UserProperities.party (keeps (w.users v))
    exact soft (session_updUser_soft w v same) rfl
  | draw v =>
    refine ⟨?_, rfl, fixed⟩
    rw [World.wait, session_drawId]
    exact Session.wait_draw w.session v
  | version v f => exact soft (session_updUser_soft w v rfl) rfl
  | available _ _ => exact soft rfl rfl
  | @expectKill _ v _ _ => exact soft (session_updUser_soft w v rfl) rfl
  | @rawKill _ v _ _ => exact soft (session_updUser_soft w v rfl) rfl
  | write _ _ =>
    refine ⟨?_, World.doEvents_acceptPacket _ _ _, fixed⟩
    rw [World.wait, session_acceptPacket]
    exact Session.wait_accept _ _ _
  | reject text _ =>
    refine ⟨?_, World.doEvents_rejectPacket _ _ _, fixed⟩
    rw [World.wait, session_rejectPacket]
    exact Session.wait_emit _ _
  | raw _ _ =>
    refine ⟨?_, World.doEvents_acceptPacket _ _ _, fixed⟩
    rw [World.wait, session_acceptPacket]
    exact Session.wait_accept _ _ _
  | rosterAsk time del _ _ _ _ =>
    refine ⟨?_, ?_, fixed⟩
    · rw [World.wait, session_acceptPacket, session_rosterRegistered, Session.wait_accept]
      exact Session.wait_rosterRegister _ _ _ _
    · rw [World.doEvents_acceptPacket, World.doEvents_rosterRegistered]
  | rosterCancel time del text _ _ =>
    refine ⟨?_, ?_, fixed⟩
    · rw [World.wait, session_rejectPacket, session_rosterRegistered, Session.wait_emit]
      exact Session.wait_rosterRegister _ _ _ _
    · rw [World.doEvents_rejectPacket, World.doEvents_rosterRegistered]
  | _ => simp [saying] at spoken

/-- What else may become of a wait: the connection is marked, is gone, or is a new one. -/
inductive Turned (w : World) : Option Wait → Option Wait → Prop
  | same {x} : Turned w x x
  | closing {x} : Turned w (some x) (some { x with state := .closing })
  | gone {x} : Turned w x none
  | new {x userState} (sstate : SockState) (n : Nat) (idle : userState ≠ .isLogging) :
      Turned w x (some ⟨.unknown, sstate, w.env.clock n, userState, false⟩)

/-- The moves of a pass over the events. -/
theorem Move.turned (mine : passing k) (sound : w.session.Sound)
    (move : Move k w w') (u : UserPtr) : Turned w (w.wait u) (w'.wait u) := by
  have still : w'.wait u = w.wait u → Turned w (w.wait u) (w'.wait u) := fun same => by
    rw [same]
    exact .same
  by_cases spoken : saying k
  · exact still (move.patient spoken u).wait
  have killed : ∀ (s : Session) (c : ConnPtr) (site : KillSite) {v : World},
      s.wait u = w.wait u → (∀ v, (s.conn c).user = some v ↔ (s.users v).conn = some c) →
      (v.session = s.kill c site ∨
        ∃ r, v.session = (s.kill c site).emit (.report r .unexpectedDeath)) →
      Turned w (w.wait u) (v.wait u) := by
    intro s c site v before owner after'
    have same : v.wait u = (s.kill c site).wait u := by
      rcases after' with same | ⟨r, same⟩
      · exact World.wait_of_session same u
      · exact World.wait_of_session same u
    rw [same, Session.wait_kill owner, ← before]
    split
    · exact .gone
    · exact .same
  have closes : ∀ {s : Session} {c : ConnPtr} {v : UserPtr} {w' : World},
      w'.session = s.finish c → s.Sound → (s.users v).conn = some c → s.wait u = w.wait u →
      Turned w (w.wait u) (w'.wait u) := by
    intro s c v w' after' sound owner before
    rw [World.wait_of_session after', sound.wait_finish owner, ← before]
    split
    · subst u
      rw [Session.wait_some owner]
      exact .closing
    · exact .same
  cases move with
  | @logout _ v c owner =>
    have accepted : (w.session.accept c (some closingTag)).Sound :=
      sound.step (.calm (.write _ (sound.live_of_conn owner)))
    have after' : ((w.acceptPacket c (some closingTag)).closeConn c).session =
        (w.session.accept c (some closingTag)).finish c := by
      rw [session_closeConn, session_acceptPacket]
    exact closes after' accepted owner (Session.wait_accept _ _ _)
  | @close _ v c owner =>
    exact closes (session_closeConn w c) sound owner rfl
  | @drained _ c text live queue closing =>
    refine killed (w.session.pop c text []) c .writeDrained (Session.wait_pop _ _ _ _)
      (fun v => ?_) ?_
    · rw [Session.conn_pop, Session.users_pop]
      exact Session.Sound.owner_iff sound live v
    · have popped : ((w.popPacket c text []).expectKillOf (w.heap c).conn.user).session =
          w.session.pop c text [] := by rw [session_expectKillOf, session_popPacket]
      rw [← popped]
      exact session_killConn _ _ _
  | refill empty =>
    have same : w.refillSlots.session = w.session.refill := by
      rw [session_refillSlots, if_pos empty]
    exact still (World.wait_of_session same u)
  | @connect _ v loc next sstate fd time ssl idle slot clock =>
    obtain ⟨n, rfl⟩ := clock
    rw [World.wait_of_session (session_connectUser ..), sound.wait_connect idle]
    split
    · exact .new sstate n ((sound.party v).idle idle).1
    · exact .same
  | kill site live _ =>
    exact killed w.session _ site rfl (sound.owner_iff live) (session_killConn _ _ _)
  | @userKill _ v site _ =>
    have reset : ((w.detachUser v site).resetUser v).wait u =
        ((w.detachUser v site).session.updParty v Party.reset).wait u := by
      rcases (resetUser_frame (w.detachUser v site) v).session with same | same
      · exact World.wait_of_session same u
      · exact World.wait_of_session same u
    rw [reset]
    cases owner : (w.users v).conn with
    | none =>
      have alone : w.detachUser v site = w := by simp [World.detachUser, owner]
      rw [alone]
      by_cases here : u = v
      · subst u
        rw [Session.wait_none_iff.mpr (by simp [Party.reset])]
        exact .gone
      · rw [Session.wait_congr (s := w.session)]
        · exact .same
        all_goals simp [Session.users_updParty, here]
    | some c =>
      have gone : (w.detachUser v site).session.updParty v Party.reset =
          w.session.userKill v c site := by
        rw [session_detachUser site owner]
        rfl
      rw [gone, Session.Sound.wait_userKill sound owner]
      split
      · exact .gone
      · exact .same
  | stale c => exact still (World.wait_of_session (session_touch w c) u)
  | gate => exact still (World.wait_of_session (session_updGlobals w rfl rfl) u)
  | fire v h => exact still rfl
  | sooner v f tm => exact still (World.wait_of_session (session_updUser_soft w v rfl) u)
  | queue v queue => exact still (World.wait_of_session (session_updUser_soft w v rfl) u)
  | _ => simp [saying, passing] at mine spoken

end Waits

namespace Wait

/-- The connection should have been made by now. -/
def LateConnection (x : Wait) (user : UserProperities) (now : Int) : Prop :=
  x.sstate = .connInProgress ∧ now - x.creationTime ≥ user.connectionTimeout * 1000

/-- The answer to a login should have come by now. -/
def LateLogin (x : Wait) (user : UserProperities) (now : Int) : Prop :=
  now - x.creationTime ≥ user.loginTimeout * 1000

/-- The wait has lasted for as long as it may. -/
def Overdue (x : Wait) (user : UserProperities) (now : Int) : Prop :=
  x.state ≠ .closing ∧
    (x.LateConnection user now ∨ (x.userState = .isLogging ∧ x.LateLogin user now))

/-- What the job before the events makes of the wait is overdue. A late connection is
marked while the user is logging in, and the login begins once the stream is open. -/
def Unheeded (x : Wait) (user : UserProperities) (now : Int) : Prop :=
  x.state ≠ .closing ∧
    match x.userState with
    | .isLogging => x.LateLogin user now ∧ ¬x.LateConnection user now
    | .canLogin => x.LateConnection user now ∨ (x.streamOpened ∧ x.LateLogin user now)
    | _ => x.LateConnection user now

end Wait

namespace World

def Overdue (w : World) (u : UserPtr) (now : Int) : Prop :=
  ∃ x, w.wait u = some x ∧ x.Overdue (w.users u) now

/-- A connection that is made now, by any clock reading to come, is not overdue. -/
def Recent (w : World) (u : UserPtr) (now : Int) : Prop :=
  ∀ n, now - w.env.clock n < (w.users u).connectionTimeout * 1000

end World

section Passes

variable {u : UserPtr} {now : Int} {w w' : World}

theorem Wait.overdue_congr {user user' : UserProperities}
    (fixed : user'.setup.fixed = user.setup.fixed) (x : Wait) :
    x.Overdue user' now ↔ x.Overdue user now := by
  have connection : user'.connectionTimeout = user.connectionTimeout :=
    congrArg Setup.connectionTimeout fixed
  have login : user'.loginTimeout = user.loginTimeout := congrArg Setup.loginTimeout fixed
  unfold Overdue LateConnection LateLogin
  rw [connection, login]

theorem World.Patient.overdue (patient : World.Patient u w w') :
    w'.Overdue u now ↔ w.Overdue u now := by
  unfold World.Overdue
  rw [patient.wait]
  simp only [Wait.overdue_congr patient.fixed]

theorem Move.recent {k : Concern} (move : Move k w w') (recent : w.Recent u now) :
    w'.Recent u now := by
  have connection : (w'.users u).connectionTimeout = (w.users u).connectionTimeout :=
    congrArg Setup.connectionTimeout (move.fixedSetup u)
  intro n
  obtain ⟨m, same⟩ := move.later.clock n
  rw [same, connection]
  exact recent m

/-- What is not overdue does not become so in a pass. -/
theorem Move.punctual {k : Concern} (mine : passing k) (sound : w.session.Sound)
    (move : Move k w w') (recent : w.Recent u now) (calm : ¬w.Overdue u now) :
    ¬w'.Overdue u now := by
  rintro ⟨x, waits, late⟩
  rw [Wait.overdue_congr (move.fixedSetup u)] at late
  have turned := move.turned mine sound u
  rw [waits] at turned
  generalize before : w.wait u = y at turned
  cases turned with
  | same => exact calm ⟨x, before, late⟩
  | closing => exact late.1 rfl
  | new sstate n idle =>
    rcases late.2 with ⟨_, long⟩ | ⟨logging, _⟩
    · have short := recent n
      dsimp only at long
      omega
    · exact idle logging

/-- What a pass leaves, whatever it does. -/
theorem passed_of_sim {α : Type} {P : World → Prop} {m : M α} {Q : α → World → Prop} {a : α}
    (sim : (moves passing).Sim P m Q) (sound : w.session.Sound) (pre : P w) (ran : m w = .ok a w')
    (recent : w.Recent u now) :
    w'.session.Sound ∧ w'.Recent u now ∧ (¬w.Overdue u now → ¬w'.Overdue u now) := by
  have outcome := sim w sound pre
  rw [ran] at outcome
  have both := Abstraction.steps_keep (A := moves passing)
    (K := fun v => v.Recent u now ∧ (¬w.Overdue u now → ¬v.Overdue u now))
    (fun sound ⟨_, mine, move⟩ both =>
      ⟨move.recent both.1, fun calm => move.punctual mine sound both.1 (both.2 calm)⟩)
    sound outcome.1 ⟨recent, fun calm => calm⟩
  exact ⟨Abstraction.inv_steps (A := moves passing) sound outcome.1, both⟩

theorem patient_of_sim {α : Type} {P : World → Prop} {m : M α} {Q : α → World → Prop} {a : α}
    (sim : (moves saying).Sim P m Q) (sound : w.session.Sound) (pre : P w)
    (ran : m w = .ok a w') : w.Patient u w' ∧ w'.session.Sound := by
  have outcome := sim w sound pre
  rw [ran] at outcome
  refine ⟨?_, Abstraction.inv_steps (A := moves saying) sound outcome.1⟩
  exact Abstraction.steps_keep (A := moves saying) (K := fun v => w.Patient u v)
    (fun _ ⟨_, mine, move⟩ patient => patient.trans (move.patient mine u)) sound outcome.1 (.refl u w)

theorem patient_of_safe {α : Type} {m : M α} {a : α} (safe : (moves saying).Safe m)
    (sound : w.session.Sound) (ran : m w = .ok a w') : w.Patient u w' ∧ w'.session.Sound :=
  patient_of_sim safe sound trivial ran

end Passes

section Handlers

variable {u : UserPtr} {now : Int} {w w' : World} {c : ConnPtr}

/-- Events that end the connection of their user. -/
def EventHandler.Ends (h : EventHandler) : Prop := h = .evKillConnection ∨ h = .evLogout

theorem userFinishConn_closes (ran : userFinishConn (some u) w = .ok ⟨⟩ w') {x : Wait}
    (waits : w'.wait u = some x) : x.state = .closing := by
  cases owner : (w.users u).conn with
  | none =>
    simp only [userFinishConn, bind_apply, getUser_apply, owner] at ran
    cases ran
    rw [World.wait, Session.wait_none_iff.mpr owner] at waits
    cases waits
  | some c =>
    obtain ⟨v, done, session⟩ := userFinishConn_apply owner
    rw [done] at ran
    cases ran
    have owner' : ((w.session.finish c).users u).conn = some c := owner
    rw [World.wait_of_session session, Session.wait_some owner', Session.conn_finish,
      if_pos rfl] at waits
    cases waits
    rfl

theorem evLogout_closes (ran : evLogout u w = .ok ⟨⟩ w') {x : Wait}
    (waits : w'.wait u = some x) : x.state = .closing := by
  have closed : ∀ {w : World}, (do
      let _ ← jpolldConnWriteStr (← getUser u).conn (some (cstr "</stream:stream>")) true
      userFinishConn (some u) : M Unit) w = .ok ⟨⟩ w' → x.state = .closing := by
    intro w ran
    obtain ⟨_, _, _, ran⟩ := ok_of_bind ran
    obtain ⟨_, _, _, ran⟩ := ok_of_bind ran
    exact userFinishConn_closes ran waits
  unfold evLogout at ran
  obtain ⟨user, v, _, ran⟩ := ok_of_bind ran
  split at ran
  · obtain ⟨_, _, _, ran⟩ := ok_of_bind ran
    obtain ⟨_, _, _, ran⟩ := ok_of_bind ran
    obtain ⟨_, _, _, ran⟩ := ok_of_bind ran
    obtain ⟨_, _, _, ran⟩ := ok_of_bind ran
    obtain ⟨_, _, _, ran⟩ := ok_of_bind ran
    obtain ⟨_, _, _, ran⟩ := ok_of_bind ran
    obtain ⟨_, _, _, ran⟩ := ok_of_bind ran
    exact closed ran
  · exact closed ran

theorem evKillConnection_drops (ran : evKillConnection u w = .ok ⟨⟩ w') : w'.wait u = none := by
  unfold evKillConnection at ran
  simp only [bind_apply, getUser_apply] at ran
  split at ran
  · obtain ⟨_, v, _, ran⟩ := ok_of_bind ran
    obtain ⟨_, v', killed, ran⟩ := ok_of_bind ran
    cases ran
    rw [userConnKill_apply, userConnReset_apply] at killed
    split at killed
    · cases killed
    · cases killed
      refine Session.wait_none_iff.mpr ?_
      have party := (resetUser_frame (v.detachUser u .evKillConnection) u).party
      exact congrArg Party.conn party
  · rename_i idle
    cases ran
    have idle : (w.users u).conn = none := by simpa using idle
    exact Session.wait_none_iff.mpr idle

/-- A handler that does not end the connection leaves the wait. -/
theorem runEvent_patient {h : EventHandler} {arg : Option XmlNode} (stays : ¬h.Ends)
    (sound : w.session.Sound) (owner : (w.users u).conn = some c)
    (ran : runEvent h arg u now w = .ok ⟨⟩ w') : w.Patient u w' ∧ w'.session.Sound := by
  have books : saying .books := .inl rfl
  have talk : saying .talk := .inr (.inl rfl)
  have calm : ¬saying .life := by simp [saying]
  cases h with
  | evChangeStatus =>
    exact patient_of_safe (safe_evChangeStatus_moves u books talk arg) sound ran
  | evSendMessage => exact patient_of_safe (safe_evSendMessage_moves u books talk arg) sound ran
  | evSendRawBytes =>
    have announced : w.Announced u := fun idle => by
      rw [owner] at idle
      cases idle
    exact patient_of_sim (sim_evSendRawBytes_moves u books talk arg (.inr (.inr ⟨u, arg, rfl⟩)))
      sound announced ran
  | evAddRoster =>
    exact patient_of_safe (safe_evAddRoster_moves u books talk arg now calm) sound ran
  | evDelRoster => exact patient_of_safe (safe_evDelRoster_moves u books talk now calm) sound ran
  | evConnect =>
    simp only [runEvent, evConnect, bind_apply, getUser_apply, owner] at ran
    cases ran
    exact ⟨.refl u w, sound⟩
  | evKillConnection => exact absurd (.inl rfl) stays
  | evLogout => exact absurd (.inr rfl) stays

theorem runEvent_ends {h : EventHandler} {arg : Option XmlNode} (ends : h.Ends)
    (ran : runEvent h arg u now w = .ok ⟨⟩ w') : ¬w'.Overdue u now := by
  rintro ⟨x, waits, late⟩
  rcases ends with rfl | rfl
  · rw [evKillConnection_drops ran] at waits
    cases waits
  · exact late.1 (evLogout_closes ran waits)

end Handlers

/-- The event ends the connection when a pass at `now` finds the user in the state `w`. -/
def EventRepeater.Ends (er : EventRepeater) (w : World) (u : UserPtr) (now : Int) : Prop :=
  (∃ h, er.eventHandler = some h ∧ h.Ends) ∧ er.Due now ∧ er.Ready w u ∧ er.counter ≠ 0

section Rounds

variable {u : UserPtr} {now : Int} {er er' : EventRepeater} {w w' : World}

theorem World.Overdue.owner (overdue : w.Overdue u now) : ∃ c, (w.users u).conn = some c := by
  obtain ⟨x, waits, _⟩ := overdue
  cases owner : (w.users u).conn with
  | none =>
    rw [World.wait, Session.wait_none_iff.mpr owner] at waits
    cases waits
  | some c => exact ⟨c, rfl⟩

theorem World.Patient.ready {c : ConnPtr} (patient : World.Patient u w w')
    (owner : (w.users u).conn = some c) (er : EventRepeater) : er.Ready w' u ↔ er.Ready w u := by
  have state : (w'.users u).state = (w.users u).state := by
    have waits := patient.wait
    rw [World.wait, World.wait, Session.wait_some (s := w.session) owner] at waits
    cases owner' : (w'.users u).conn with
    | none =>
      rw [Session.wait_none_iff.mpr owner'] at waits
      cases waits
    | some c' =>
      rw [Session.wait_some owner'] at waits
      exact congrArg Wait.userState (Option.some.inj waits)
  unfold EventRepeater.Ready
  rw [state, patient.gate]

/-- An event that does not come to its handler leaves the wait, or ends it. -/
theorem fireRepeater_waits (sound : w.session.Sound) (overdue : w.Overdue u now)
    (ran : fireRepeater u now er w = .ok er' w') :
    ((∃ h, er.eventHandler = some h ∧ h.Ends) ∧ er.Ready w u ∧ er.counter ≠ 0 →
      ¬w'.Overdue u now) ∧
    (¬((∃ h, er.eventHandler = some h ∧ h.Ends) ∧ er.Ready w u ∧ er.counter ≠ 0) →
      w.Patient u w' ∧ w'.session.Sound) := by
  rw [fireRepeater_eq] at ran
  by_cases ready : er.Ready w u ∧ er.counter ≠ 0
  · rw [if_pos ready] at ran
    obtain ⟨h, handler⟩ := Option.isSome_iff_exists.mp ready.1.1
    simp only [handler] at ran
    obtain ⟨_, v, emitted, rest⟩ := ok_of_bind ran
    cases emitted
    obtain ⟨_, v', called, last⟩ := ok_of_bind rest
    cases last
    obtain ⟨c, owner⟩ := overdue.owner
    constructor
    · rintro ⟨⟨h', handler', ends⟩, -⟩
      rw [handler] at handler'
      cases handler'
      exact runEvent_ends ends called
    · intro stays
      have stays : ¬h.Ends := fun ends => stays ⟨⟨h, handler, ends⟩, ready⟩
      have sound' : (w.emit (.handlerRun u h)).session.Sound :=
        sound.step (.calm (.note _ trivial))
      have noted : World.Patient u w (w.emit (.handlerRun u h)) := ⟨rfl, rfl, rfl⟩
      obtain ⟨patient, sound''⟩ := runEvent_patient stays sound' owner called
      exact ⟨noted.trans patient, sound''⟩
  · rw [if_neg ready] at ran
    cases ran
    exact ⟨fun all => absurd all.2 ready, fun _ => ⟨.refl u w, sound⟩⟩

/-- One round of the pass ends the connection or leaves the wait. -/
theorem repeaterRound_waits (sound : w.session.Sound) (overdue : w.Overdue u now)
    (ran : repeaterRound u now er w = .ok er' w') :
    (er.Ends w u now → ¬w'.Overdue u now) ∧
      (¬er.Ends w u now → w.Patient u w' ∧ w'.session.Sound) := by
  have noted : ∀ {v : World} {er₁ : EventRepeater}, (do
      modUser u fun user =>
        if user.soonerActivationTm > er₁.activationTm then
          { user with soonerActivationTm := er₁.activationTm }
        else user
      return er₁ : M EventRepeater) v = .ok er' w' →
      v.Patient u w' ∧ (v.session.Sound → w'.session.Sound) := by
    intro v er₁ done
    simp only [bind_apply, modUser_apply, pure_apply] at done
    cases done
    have same : (v.updUser u fun user => if user.soonerActivationTm > er'.activationTm then
        { user with soonerActivationTm := er'.activationTm } else user).session = v.session :=
      session_updUser_soft v u (by split <;> rfl)
    refine ⟨⟨World.wait_of_session same u, rfl, ?_⟩, fun sound => by rwa [same]⟩
    rw [updUser_users_self]
    split <;> rfl
  obtain ⟨c, owner⟩ := overdue.owner
  unfold repeaterRound at ran
  by_cases due : er.Due now
  · have reached : er.activationTm ≠ 0 ∧ er.activationTm ≤ now := due
    rw [if_pos reached] at ran
    obtain ⟨env, later, drawn⟩ := rescheduled_apply now er w
    rw [bind_apply, drawn] at ran
    obtain ⟨er₂, v, both, rest⟩ := ok_of_bind ran
    have armed : World.Patient u w (w.withEnv env) := ⟨rfl, rfl, rfl⟩
    obtain ⟨ended, stayed⟩ := fireRepeater_waits (w := w.withEnv env) sound
      (armed.overdue.mpr overdue) both
    simp only [EventRepeater.rearmed_eventHandler, EventRepeater.rearmed_counter] at ended stayed
    have ready : (er.rearmed now (w.env.random 0)).Ready (w.withEnv env) u ↔ er.Ready w u := by
      simp [EventRepeater.Ready, World.withEnv]
    rw [ready] at ended stayed
    obtain ⟨last, kept⟩ := noted rest
    constructor
    · rintro ⟨ends, _, both⟩
      rw [last.overdue]
      exact ended ⟨ends, both⟩
    · intro stays
      obtain ⟨patient, sound'⟩ := stayed fun all => stays ⟨all.1, due, all.2⟩
      exact ⟨(armed.trans patient).trans last, kept sound'⟩
  · have early : ¬(er.activationTm ≠ 0 ∧ er.activationTm ≤ now) := due
    rw [if_neg early] at ran
    obtain ⟨last, kept⟩ := noted ran
    exact ⟨fun all => absurd all.2.1 due, fun _ => ⟨last, kept sound⟩⟩

theorem passing_scan (queue : List EventRepeater) :
    (moves passing).Safe (repeaterScan u now queue) :=
  safe_repeaterScan_moves u now (by simp [passing]) (by simp [passing]) (by simp [passing])
    (by simp [passing]) (by simp [passing]) (by simp [passing]) queue fun _ _ _ => by simp [passing]

theorem passing_round (er : EventRepeater) : (moves passing).Safe (repeaterRound u now er) :=
  safe_repeaterRound_moves u now (by simp [passing]) (by simp [passing]) (by simp [passing])
    (by simp [passing]) (by simp [passing]) (by simp [passing]) er fun _ => by simp [passing]

/-- What is overdue stays so, unless an event of the queue ends the connection. The
induction is on the events that are left. -/
theorem repeaterScan_waits {queue queue' : List EventRepeater} (sound : w.session.Sound)
    (recent : w.Recent u now) (overdue : w.Overdue u now)
    (ran : repeaterScan u now queue w = .ok queue' w') :
    ¬w'.Overdue u now ↔ ∃ er ∈ queue, er.Ends w u now := by
  induction queue generalizing w queue' with
  | nil =>
    cases ran
    simpa using overdue
  | cons er rest ih =>
    obtain ⟨er₁, v, round, ran⟩ := ok_of_bind ran
    obtain ⟨rest', v', scanned, last⟩ := ok_of_bind ran
    cases last
    obtain ⟨sound₁, recent₁, _⟩ := passed_of_sim (passing_round er) sound trivial round recent
    obtain ⟨ended, stayed⟩ := repeaterRound_waits sound overdue round
    by_cases ends : er.Ends w u now
    · have punctual := (passed_of_sim (passing_scan rest) sound₁ trivial scanned recent₁).2.2
      exact iff_of_true (punctual (ended ends)) ⟨er, List.mem_cons_self, ends⟩
    · obtain ⟨patient, _⟩ := stayed ends
      obtain ⟨c, owner⟩ := overdue.owner
      rw [ih sound₁ recent₁ (patient.overdue.mpr overdue) scanned]
      have same : ∀ er' : EventRepeater, er'.Ends v u now ↔ er'.Ends w u now := by
        intro er'
        unfold EventRepeater.Ends
        rw [patient.ready owner]
      simp only [same, List.mem_cons, exists_eq_or_imp, ends, false_or]

/-- The scheduler of a user that is overdue. -/
theorem userHandleRepeaterQueue_waits (sound : w.session.Sound) (recent : w.Recent u now)
    (overdue : w.Overdue u now) (ran : userHandleRepeaterQueue u now w = .ok ⟨⟩ w') :
    ¬w'.Overdue u now ↔ (w.users u).soonerActivationTm ≤ now ∧
      ∃ er ∈ (w.users u).eventsQueue, er.Ends w u now := by
  have settled : ∀ (v : World) (f : UserProperities → UserProperities),
      (f (v.users u)).party = (v.users u).party →
      (f (v.users u)).setup.fixed = (v.users u).setup.fixed → v.Patient u (v.updUser u f) := by
    intro v f party fixed
    refine ⟨World.wait_of_session (session_updUser_soft v u party) u, rfl, ?_⟩
    rw [updUser_users_self]
    exact fixed
  by_cases reached : (w.users u).soonerActivationTm ≤ now
  · rw [userHandleRepeaterQueue, bind_apply, getUser_apply] at ran
    dsimp only at ran
    rw [if_pos reached] at ran
    obtain ⟨_, v, set', rest⟩ := ok_of_bind ran
    cases set'
    obtain ⟨queue, v', scanned, last⟩ := ok_of_bind rest
    cases last
    have before := settled w (fun user => { user with soonerActivationTm := never }) rfl rfl
    have after' := settled v' (fun user => { user with eventsQueue := queue }) rfl rfl
    obtain ⟨c, owner⟩ := overdue.owner
    rw [after'.overdue, repeaterScan_waits ?_ ?_ (before.overdue.mpr overdue) scanned]
    · have same : ∀ er' : EventRepeater, er'.Ends (w.updUser u fun user =>
          { user with soonerActivationTm := never }) u now ↔ er'.Ends w u now := by
        intro er'
        unfold EventRepeater.Ends
        rw [before.ready owner]
      simp only [same, reached, true_and]
    · rw [session_updUser_soft w u rfl]
      exact sound
    · intro n
      rw [updUser_users_self]
      exact recent n
  · rw [userHandleRepeaterQueue_skip (by omega)] at ran
    cases ran
    exact iff_of_false (not_not.mpr overdue) fun both => reached both.1

end Rounds

/-- The user as the events of a job find it. -/
def World.atEvents (w : World) (u : UserPtr) : World :=
  w.updUser u fun user =>
    if user.state = .canLogin ∧ user.conn.isSome ∧ user.streamOpened then
      { user with state := .isLogging }
    else user

section Jobs

variable {u : UserPtr} {now : Int} {w w' : World} {c : ConnPtr}

/-- What the part of the job before the events leaves. -/
structure Began (u : UserPtr) (now : Int) (w v : World) : Prop where
  sound : v.session.Sound
  recent : v.Recent u now
  overdue : v.Overdue u now ↔ ∃ x, w.wait u = some x ∧ x.Unheeded (w.users u) now
  setup : (v.users u).setup = (w.users u).setup
  ready : v.Overdue u now → ∀ er : EventRepeater, er.Ready v u ↔ er.Ready (w.atEvents u) u

/-- The job goes on with the events in the same state. -/
theorem began_self (sound : w.session.Sound) (recent : w.Recent u now)
    (same : w.Overdue u now ↔ ∃ x, w.wait u = some x ∧ x.Unheeded (w.users u) now)
    (rests : ¬((w.users u).state = .canLogin ∧ (w.users u).conn.isSome ∧
      (w.users u).streamOpened)) : Began u now w w := by
  refine ⟨sound, recent, same, rfl, fun _ er => ?_⟩
  unfold EventRepeater.Ready World.atEvents
  rw [updUser_users_self, if_neg rests]
  rfl

theorem World.Recent.of_sameSetup (recent : w.Recent u now) (same : w.SameSetup w') :
    w'.Recent u now := by
  have connection : (w'.users u).connectionTimeout = (w.users u).connectionTimeout :=
    congrArg Setup.connectionTimeout (same.setup u)
  intro n
  obtain ⟨m, clock⟩ := same.later.clock n
  rw [clock, connection]
  exact recent m

theorem World.doEvents_queueLogin (w : World) (u : UserPtr) (c : ConnPtr) (text : CString)
    (time : Int) : (w.queueLogin u c text time).globals.doEvents = w.globals.doEvents := by
  simp [queueLogin, loginBegun, requestNoted, drawId, storeXmlInfo, emit, updConn, updUser,
    acceptPacket, updPfd, updGlobals]

/-- The login begins, whatever the age of the connection. -/
theorem began_login (sound : w.session.Sound) (recent : w.Recent u now)
    (owner : (w.users u).conn = some c) (state : (w.users u).state = .canLogin)
    (opened : (w.users u).streamOpened = true) {text : CString}
    (asks : Asks text (jcomId idBufSize (w.users u).tmpid)) :
    Began u now w (w.queueLogin u c text now) := by
  have same := ((World.Updated.refl .books w).queueLogin u c text now).sameSetup
  have setup := same.setup u
  have session := session_queueLogin (w := w) (u := u) (c := c) now text
  have party : (w.queueLogin u c text now).session.users u = { (w.session.users u) with
      state := .isLogging, tmpid := (w.session.users u).tmpid + 1 } := by
    rw [session]
    simp [Session.login, Session.emit, Session.updParty, Session.register, Session.accept,
      Session.request, Session.draw, Session.updConn, Session.updPfd]
  have conn : (w.queueLogin u c text now).session.conn c = { (w.heap c).conn with
      writer := (w.heap c).conn.writer ++ [⟨some text⟩]
      xmlNeedResponsesQueue := ⟨jcomId idBufSize (w.users u).tmpid, now,
        some .handleLoginResponse⟩ :: (w.heap c).conn.xmlNeedResponsesQueue } := by
    rw [session, Session.conn_login, if_pos rfl]
    rfl
  have before : w.wait u = some ⟨(w.heap c).conn.state, (w.heap c).conn.sstate,
      (w.heap c).conn.creationTime, .canLogin, true⟩ := by
    rw [← state, ← opened]
    exact Session.wait_some (s := w.session) owner
  have waits : (w.queueLogin u c text now).wait u = some ⟨(w.heap c).conn.state,
      (w.heap c).conn.sstate, (w.heap c).conn.creationTime, .isLogging, true⟩ := by
    rw [World.wait, Session.wait_some (c := c) (by rw [party]; exact owner), conn, party, ← opened]
    rfl
  refine ⟨?_, recent.of_sameSetup same, ?_, setup, fun _ er => ?_⟩
  · rw [session]
    exact sound.step (.calm (.login owner state opened asks))
  · unfold World.Overdue
    simp only [waits, before, Option.some.injEq, exists_eq_left',
      Wait.overdue_congr (congrArg Setup.fixed setup)]
    simp [Wait.Overdue, Wait.Unheeded, Wait.LateConnection, Wait.LateLogin]
  · have logging : ((w.queueLogin u c text now).users u).state = .isLogging :=
      congrArg Party.state party
    have begins : (w.users u).state = .canLogin ∧ (w.users u).conn.isSome ∧
        (w.users u).streamOpened := ⟨state, by simp [owner], opened⟩
    unfold EventRepeater.Ready World.atEvents
    rw [logging, World.doEvents_queueLogin, updUser_users_self, if_pos begins]
    rfl

/-- The look at the timeouts marks a late connection, and nothing else. -/
theorem began_checkTimeouts (sound : w.session.Sound) (recent : w.Recent u now)
    (owner : (w.users u).conn = some c) (state : (w.users u).state = .isLogging)
    (ran : checkTimeouts u c now w = .ok ⟨⟩ w') : Began u now w w' := by
  have live : w.session.live c := sound.live_of_conn owner
  have before : w.wait u = some ⟨(w.heap c).conn.state, (w.heap c).conn.sstate,
      (w.heap c).conn.creationTime, .isLogging, (w.users u).streamOpened⟩ := by
    rw [← state]
    exact Session.wait_some (s := w.session) owner
  have flagged : ∀ {v v' : World}, exitIfFlagged u 0 v = .ok ⟨⟩ v' → v' = v := by
    intro v v' ran
    rw [exitIfFlagged_apply] at ran
    split at ran
    · cases ran
    · cases ran
      rfl
  have looked : ∀ {v v' : World} (d : Prop) [Decidable d],
      (if d then exitIfFlagged u 0 else pure () : M Unit) v = .ok ⟨⟩ v' → v' = v := by
    intro v v' d _ ran
    split at ran
    · exact flagged ran
    · cases ran
      rfl
  have moved : w.SameSetup w' ∧ w'.session.Sound :=
    sameSetup_of_sim (sim_checkTimeouts_moves u now c (by simp [untimed]) (by simp [untimed]))
      sound owner ran
  simp only [checkTimeouts, bind_apply, getUser_apply, readConn_apply, touch_of_live live] at ran
  by_cases late : (w.heap c).conn.sstate = .connInProgress ∧
      now - (w.heap c).conn.creationTime ≥ (w.users u).connectionTimeout * 1000
  · rw [if_pos late.1, if_pos late.2] at ran
    obtain ⟨_, v, closed, rest⟩ := ok_of_bind ran
    obtain ⟨_, v', expects, rest⟩ := ok_of_bind rest
    obtain ⟨_, v'', exits, rest⟩ := ok_of_bind rest
    cases expects
    obtain rfl := flagged exits
    obtain rfl := looked _ rest
    have calm : ¬World.Overdue (v.updUser u fun user =>
        { user with flags := { user.flags with expectKill := true } }) u now := by
      rintro ⟨x, waits, overdue⟩
      rw [World.wait_of_session (session_updUser_soft v u rfl)] at waits
      exact overdue.1 (userFinishConn_closes closed waits)
    refine ⟨moved.2, recent.of_sameSetup moved.1, ?_, moved.1.setup u, fun overdue =>
      absurd overdue calm⟩
    refine iff_of_false calm ?_
    rintro ⟨x, waits, unheeded⟩
    rw [before] at waits
    cases waits
    exact unheeded.2.2 late
  · have same : w' = w := by
      by_cases progress : (w.heap c).conn.sstate = .connInProgress
      · rw [if_pos progress, if_neg fun long => late ⟨progress, long⟩] at ran
        exact looked _ ran
      · rw [if_neg progress] at ran
        exact looked _ ran
    subst same
    refine began_self sound recent ?_ (by simp [state])
    unfold World.Overdue
    simp only [before, Option.some.injEq, exists_eq_left']
    have young : ¬Wait.LateConnection ⟨(w'.heap c).conn.state, (w'.heap c).conn.sstate,
        (w'.heap c).conn.creationTime, .isLogging, (w'.users u).streamOpened⟩ (w'.users u) now :=
      late
    simp [Wait.Overdue, Wait.Unheeded, young]

/-- The job is something small, and then the events. -/
theorem userDoYourJob_began (sound : w.session.Sound) (recent : w.Recent u now)
    (active : (w.users u).state ≠ .disabled) (ran : userDoYourJob u now w = .ok ⟨⟩ w') :
    ∃ v, Began u now w v ∧ userHandleRepeaterQueue u now v = .ok ⟨⟩ w' := by
  have alone : (w.users u).conn = none →
      (w.Overdue u now ↔ ∃ x, w.wait u = some x ∧ x.Unheeded (w.users u) now) := by
    intro idle
    have silent : w.wait u = none := Session.wait_none_iff.mpr idle
    unfold World.Overdue
    simp [silent]
  have steady : ∀ state, (w.users u).state = state → state ≠ .isLogging →
      ¬(state = .canLogin ∧ (w.users u).conn.isSome ∧ (w.users u).streamOpened) →
      (w.Overdue u now ↔ ∃ x, w.wait u = some x ∧ x.Unheeded (w.users u) now) := by
    intro state same other rests
    cases owner : (w.users u).conn with
    | none => exact alone owner
    | some c =>
      have waits := Session.wait_some (s := w.session) owner
      change w.wait u = some ⟨(w.heap c).conn.state, (w.heap c).conn.sstate,
        (w.heap c).conn.creationTime, (w.users u).state, (w.users u).streamOpened⟩ at waits
      rw [owner] at rests
      unfold World.Overdue
      rw [waits, same]
      cases state with
      | canLogin =>
        have unopened : (w.users u).streamOpened = false := by simpa using rests
        simp [Wait.Overdue, Wait.Unheeded, Wait.LateConnection, unopened]
      | isLogging => exact absurd rfl other
      | loggedIn => simp [Wait.Overdue, Wait.Unheeded, Wait.LateConnection]
      | disabled => simp [Wait.Overdue, Wait.Unheeded, Wait.LateConnection]
  rw [userDoYourJob, bind_apply, getUser_apply] at ran
  dsimp only at ran
  cases state : (w.users u).state with
  | disabled => exact absurd state active
  | canLogin =>
    simp only [state] at ran
    by_cases opened : (w.users u).conn.isSome ∧ (w.users u).streamOpened
    · obtain ⟨c, owner⟩ := Option.isSome_iff_exists.mp opened.1
      rw [if_pos opened] at ran
      split at ran
      · obtain ⟨_, v, login, rest⟩ := ok_of_bind ran
        rw [userDoLoginDigest, userDoLogin_apply now _ owner] at login
        cases login
        exact ⟨_, began_login sound recent owner state opened.2 (asks_loginDigest _ _), rest⟩
      · obtain ⟨_, v, login, rest⟩ := ok_of_bind ran
        rw [userDoLoginPlain, userDoLogin_apply now _ owner] at login
        cases login
        exact ⟨_, began_login sound recent owner state opened.2 (asks_loginPlain _), rest⟩
    · rw [if_neg opened] at ran
      refine ⟨w, began_self sound recent (steady _ state (by simp) fun all => opened all.2)
        fun all => opened all.2, ran⟩
  | isLogging =>
    simp only [state] at ran
    cases owner : (w.users u).conn with
    | none =>
      simp only [owner] at ran
      exact ⟨w, began_self sound recent (alone owner) (by simp [owner]), ran⟩
    | some c =>
      simp only [owner] at ran
      obtain ⟨_, v, looked, rest⟩ := ok_of_bind ran
      exact ⟨v, began_checkTimeouts sound recent owner state looked, rest⟩
  | loggedIn =>
    simp only [state] at ran
    by_cases lost : (w.users u).conn.isNone
    · have idle : (w.users u).conn = none := by simpa using lost
      exact absurd state ((sound.party u).idle idle).2.1
    · rw [if_neg lost] at ran
      exact ⟨w, began_self sound recent (steady _ state (by simp) (by simp)) (by simp [state]), ran⟩

end Jobs

/-- After a job of a reachable state no wait of the user is overdue, if and only if
none was that the job passes over, or an event of the pass ended the connection. -/
theorem timeouts_enforced_iff {u : UserPtr} {now : Int} {w w' : World} (reach : Reachable w)
    (recent : w.Recent u now) (ran : userDoYourJob u now w = .ok ⟨⟩ w') :
    ¬w'.Overdue u now ↔
      (∀ x, w.wait u = some x → ¬x.Unheeded (w.users u) now) ∨
        ((w.users u).state ≠ .disabled ∧ (w.users u).soonerActivationTm ≤ now ∧
          ∃ er ∈ (w.users u).eventsQueue, er.Ends (w.atEvents u) u now) := by
  have sound := reach.sound
  by_cases disabled : (w.users u).state = .disabled
  · rw [userDoYourJob, bind_apply, getUser_apply] at ran
    simp only [disabled] at ran
    cases ran
    have same : w.Overdue u now ↔ ∃ x, w.wait u = some x ∧ x.Unheeded (w.users u) now := by
      cases owner : (w.users u).conn with
      | none =>
        have silent : w.wait u = none := Session.wait_none_iff.mpr owner
        unfold World.Overdue
        simp [silent]
      | some c =>
        have waits := Session.wait_some (s := w.session) owner
        change w.wait u = some ⟨_, _, _, (w.users u).state, _⟩ at waits
        unfold World.Overdue
        rw [waits, disabled]
        simp [Wait.Overdue, Wait.Unheeded]
    rw [same]
    simp [disabled]
  · obtain ⟨v, began, called⟩ := userDoYourJob_began sound recent disabled ran
    by_cases overdue : v.Overdue u now
    · have unheeded := began.overdue.mp overdue
      have heeds : ¬∀ x, w.wait u = some x → ¬x.Unheeded (w.users u) now := by
        obtain ⟨x, waits, late⟩ := unheeded
        exact fun heeds => heeds x waits late
      have queue : (v.users u).eventsQueue = (w.users u).eventsQueue :=
        congrArg Setup.eventsQueue began.setup
      have sooner : (v.users u).soonerActivationTm = (w.users u).soonerActivationTm :=
        congrArg Setup.soonerActivationTm began.setup
      rw [userHandleRepeaterQueue_waits began.sound began.recent overdue called, queue, sooner]
      simp only [heeds, disabled, false_or, not_false_eq_true, ne_eq, true_and,
        EventRepeater.Ends, began.ready overdue]
    · have punctual := (passed_of_sim (P := fun w => ∀ er ∈ (w.users u).eventsQueue,
        er.SendsRaw now → passing (.raw u er.arg)) (sim_userHandleRepeaterQueue_moves u now
          (by simp [passing]) (by simp [passing]) (by simp [passing]) (by simp [passing])
          (by simp [passing]) (by simp [passing])) began.sound (fun _ _ _ => by simp [passing]) called
          began.recent).2.2 overdue
      refine iff_of_true punctual (.inl fun x waits late => ?_)
      exact overdue (began.overdue.mpr ⟨x, waits, late⟩)

/-- The first user asks for a connection, and nobody answers. -/
def dialingStart : World :=
  (plainWorld [connectEvent]).withEnv { plainEnv with connects := fun _ => .inProgress 5 }

def dialingWorld : World := after (step (.job 0 5)) dialingStart

theorem dialingWorld_ran : step (.job 0 5) dialingStart = .ok ⟨⟩ dialingWorld :=
  run_of_returned (by decide +kernel)

theorem reachable_dialingWorld : Reachable dialingWorld :=
  .step (.init (plainWorld_initial _)) _ _ dialingWorld_ran

theorem dialingWorld_wait :
    dialingWorld.wait 0 = some ⟨.unknown, .connInProgress, 0, .canLogin, false⟩ := by
  decide +kernel

/-- A moment later nothing is overdue. -/
theorem timeouts_enforced_soon : ¬(after (userDoYourJob 0 6) dialingWorld).Overdue 0 6 := by
  have timeout : (dialingWorld.users 0).connectionTimeout = 15000 := by decide +kernel
  have clock : ∀ n, dialingWorld.env.clock n = 0 := by
    have sound : (plainWorld [connectEvent]).session.Sound :=
      Reachable.sound (.init (plainWorld_initial _))
    have sound : dialingStart.session.Sound := sound
    refine step_keeps (K := fun v => ∀ n, v.env.clock n = 0) sound ?_ (fun _ => rfl) dialingWorld_ran
    intro k v v' _ _ _ move zero n
    obtain ⟨m, same⟩ := move.later.clock n
    rw [same, zero]
  refine (timeouts_enforced_iff reachable_dialingWorld (fun n => ?_)
    (run_of_returned (a := ()) (by decide +kernel))).mpr (.inl fun x waits late => ?_)
  · rw [clock, timeout]
    decide
  · rw [dialingWorld_wait] at waits
    cases waits
    simp [Wait.Unheeded, Wait.LateConnection, timeout] at late

/-- Hours later the connection is still waited for. -/
theorem timeouts_not_enforced : ¬∀ w, Reachable w → ∀ u now w',
    userDoYourJob u now w = .ok ⟨⟩ w' → ¬w'.Overdue u now := by
  intro claim
  apply claim dialingWorld reachable_dialingWorld 0 20000000000 _
    (run_of_returned (a := ()) (by decide +kernel))
  have waits : (after (userDoYourJob 0 20000000000) dialingWorld).wait 0 =
      some ⟨.unknown, .connInProgress, 0, .canLogin, false⟩ := by decide +kernel
  have timeout : ((after (userDoYourJob 0 20000000000) dialingWorld).users 0).connectionTimeout =
      15000 := by decide +kernel
  refine ⟨_, waits, by simp, .inl ⟨rfl, ?_⟩⟩
  rw [timeout]
  decide

end JabSimul
