import JabSimul.StreamEnd
import JabSimul.Timeouts
import JabSimul.Sendable

/-!
The mark that says that the end of a connection is expected. It belongs to a
connection, but it is kept with the user: the trace tells which connection a user has,
and an event that announces a kill finds one there or leaves the mark to the next.
-/
namespace JabSimul

open Simulation Relation

/-- What an event makes of the connection of `u`. -/
def Ev.rewire (u : UserPtr) (e : Ev) (now : Option ConnPtr) : Option ConnPtr :=
  match e with
  | .created c v => if v = u then some c else now
  | .killed c _ => if now = some c then none else now
  | _ => now

/-- The connection that a trace leaves to `u`, the last event first. -/
def connOf (u : UserPtr) (trace : List Ev) : Option ConnPtr := trace.foldr (Ev.rewire u) none

namespace Session

/-- The trace tells who has which connection. -/
def Tracked (s : Session) : Prop := ∀ u, connOf u s.trace = (s.users u).conn

variable {s t : Session} {c : ConnPtr} {u : UserPtr}

theorem connOf_append {new old : List Ev} (still : ∀ e ∈ new, ∀ now, e.rewire u now = now) :
    connOf u (new ++ old) = connOf u old := by
  induction new with
  | nil => rfl
  | cons e new ih =>
    rw [List.cons_append, connOf, List.foldr_cons]
    exact (still e List.mem_cons_self _).trans (ih fun e mem => still e (List.mem_cons_of_mem _ mem))

theorem Calm.connOf (step : Calm s t) (u : UserPtr) : connOf u t.trace = connOf u s.trace := by
  cases step with
  | note e isNote =>
    cases e with
    | created _ _ => exact absurd isNote id
    | killed _ _ => exact absurd isNote id
    | _ => rfl
  | @ask c text es _ _ _ _ =>
    rw [trace_ask, connOf_append]
    · rfl
    · intro e mem now
      rw [List.mem_reverse, List.mem_map] at mem
      obtain ⟨_, _, rfl⟩ := mem
      rfl
  | pop _ _ _ => rw [trace_pop]; rfl
  | _ => rfl

theorem Tracked.kill (tracked : s.Tracked) (owner : ∀ v, (s.conn c).user = some v ↔ (s.users v).conn = some c)
    (site : KillSite) : (s.kill c site).Tracked := by
  intro v
  rw [trace_kill, users_kill]
  change (if connOf v s.trace = some c then none else connOf v s.trace) = _
  rw [tracked v]
  by_cases mine : (s.users v).conn = some c
  · rw [if_pos mine, if_pos ((owner v).mpr mine)]
    rfl
  · rw [if_neg mine, if_neg fun user => mine ((owner v).mp user)]

theorem Act.tracked (sound : s.Sound) (step : Act s t) (tracked : s.Tracked) : t.Tracked := by
  cases step with
  | calm step =>
    intro u
    rw [step.connOf, tracked u]
    rcases step.linked with linked | ⟨_, rfl⟩
    · exact (linked.owner u).symm
    · rfl
  | @connect u loc next sstate fd time ssl idle slot =>
    intro v
    change (if u = v then some s.nextConn else connOf v s.trace) = _
    by_cases here : v = u
    · subst here
      simp [Session.connect]
    · rw [if_neg (Ne.symm here), tracked v]
      simp [Session.connect, here]
  | kill site live _ => exact tracked.kill (sound.owner_iff live) site
  | @drained c text live queue closing =>
    refine Tracked.kill (s := s.pop c text []) ?_ (fun v => ?_) _
    · intro v
      rw [trace_pop, users_pop]
      exact tracked v
    · rw [conn_pop, users_pop]
      exact sound.owner_iff live v
  | @userKill u c site owner _ =>
    intro v
    have users : (s.userKill u c site).users v = if v = u then (s.users u).reset else s.users v := by
      simp only [Session.userKill, users_updParty, users_kill, conn_updConn_self, reduceCtorEq, if_false]
      rfl
    rw [trace_userKill, users]
    change (if connOf v s.trace = some c then none else connOf v s.trace) = _
    rw [tracked v]
    by_cases here : v = u
    · subst here
      rw [if_pos owner, if_pos rfl]
      rfl
    · rw [if_neg here, if_neg fun mine => here (sound.only owner mine)]
  | @userReset u idle =>
    intro v
    rw [users_updParty]
    by_cases here : v = u
    · subst here
      rw [if_pos rfl]
      exact (tracked v).trans idle
    · rw [if_neg here]
      exact tracked v

theorem Initial.tracked (initial : s.Initial) : s.Tracked := by
  intro u
  rw [initial.trace, initial.users]
  rfl

theorem Calm.owner (step : Calm s t) (u : UserPtr) : (t.users u).conn = (s.users u).conn := by
  rcases step.linked with linked | ⟨_, rfl⟩
  · exact linked.owner u
  · rfl

end Session

section Flags

variable (w : World) (c : ConnPtr) (u v : UserPtr) (site : KillSite)

theorem flags_resetUser : ((w.resetUser u).users v).flags =
    if v = u then { (w.users v).flags with expectKill := false } else (w.users v).flags := by
  have frame := resetUser_frame w u
  by_cases here : v = u
  · subst here
    rw [if_pos rfl, frame.flags]
  · rw [if_neg here, frame.others v here]

/-- A kill takes the mark off its owner. -/
theorem flags_killConn : ((w.killConn c site).users v).flags =
    if (w.heap c).conn.user = some v then { (w.users v).flags with expectKill := false }
    else (w.users v).flags := by
  have released : (((w.emit (.killed c site)).releaseConn c).touch c).users = w.users := by
    rw [users_touch, releaseConn_users]
    rfl
  change ((w.stripConn c site).users v).flags = _
  unfold World.stripConn
  generalize ((w.emit (.killed c site)).releaseConn c).touch c = r at released
  cases owner : (w.heap c).conn.user with
  | none =>
    rw [World.resetOwner, released, if_neg (by simp)]
  | some u =>
    rw [World.resetOwner, flags_resetUser]
    by_cases here : v = u
    · subst here
      rw [if_pos rfl, if_pos rfl, updUser_users_self, released]
    · rw [if_neg here, if_neg fun same => here (Option.some.inj same).symm, updUser_users_of_ne _ here, released]

theorem flags_detachUser : ((w.detachUser u site).users v).flags = (w.users v).flags := by
  unfold World.detachUser
  split
  · rfl
  · rw [flags_killConn, if_neg (by simp [World.updConn])]
    change (((w.touch _).users v).flags) = _
    rw [users_touch]

theorem flags_expectKillOf {owner : Option UserPtr} (other : owner ≠ some v) :
    ((w.expectKillOf owner).users v).flags = (w.users v).flags := by
  unfold World.expectKillOf
  split
  · rfl
  · rw [updUser_users_of_ne _ fun same => other (congrArg some same.symm)]

end Flags

/-- Whenever raw bytes were sent, the user had a connection. -/
def World.RawBytesOnConn (w : World) : Prop := ∀ u rest,
  .handlerRun u .evSendRawBytes :: rest <:+ w.trace → (connOf u rest).isSome

/-- Whether the last event of a trace is one that finds a connection if it sends raw bytes. -/
def sendsOnConn : List Ev → Bool
  | .handlerRun u .evSendRawBytes :: rest => (connOf u rest).isSome
  | _ => true

theorem rawBytesOnConn_iff {w : World} :
    (∀ trace ∈ w.trace.tails, sendsOnConn trace = true) ↔ w.RawBytesOnConn := by
  constructor
  · intro all u rest suffix
    exact all _ ((List.mem_tails _ _).mpr suffix)
  · intro all trace mem
    cases trace with
    | nil => rfl
    | cons e rest =>
      cases e with
      | handlerRun u h =>
        cases h with
        | evSendRawBytes => exact all u rest ((List.mem_tails _ _).mp mem)
        | _ => rfl
      | _ => rfl

instance (w : World) : Decidable w.RawBytesOnConn := decidable_of_iff _ rawBytesOnConn_iff

/-- Who has no connection has no mark, as far as raw bytes were sent on connections. -/
structure World.Noticing (w : World) : Prop where
  tracked : w.session.Tracked
  idle : w.RawBytesOnConn → ∀ u, (w.users u).conn = none → (w.users u).flags.expectKill = false

section Moves

variable {k : Concern} {w w' : World} {u : UserPtr}

theorem Move.trace_suffix (move : Move k w w') (sound : w.session.Sound) : w.trace <:+ w'.trace :=
  Session.trace_suffix_steps (move.session sound)

theorem Move.conn (move : Move k w w') (sound : w.session.Sound) (calm : k ≠ .life) (u : UserPtr) :
    (w'.users u).conn = (w.users u).conn := by
  have kept : ∀ {s t : Session}, ReflTransGen Session.Calm s t → (t.users u).conn = (s.users u).conn := by
    intro s t steps
    induction steps with
    | refl => rfl
    | tail _ step ih => exact (step.owner u).trans ih
  exact kept (move.calm sound calm)

/-- Only the owner of a killed connection loses it. -/
theorem conn_killConn {v : World} {c : ConnPtr} {site : KillSite} (other : (v.heap c).conn.user ≠ some u) :
    ((v.killConn c site).users u).conn = (v.users u).conn := by
  have users : ((v.session.kill c site).users u).conn = (v.users u).conn := by
    rw [Session.users_kill, conn_session, if_neg other]
    rfl
  rcases session_killConn v c site with same | ⟨r, same⟩
  · exact (congrArg (fun s : Session => (s.users u).conn) same).trans users
  · exact (congrArg (fun s : Session => (s.users u).conn) same).trans users

theorem idle_killConn {v : World} {c : ConnPtr} {site : KillSite}
    (marked : (v.heap c).conn.user ≠ some u → (v.users u).conn = none →
      (v.users u).flags.expectKill = false)
    (idle : ((v.killConn c site).users u).conn = none) :
    ((v.killConn c site).users u).flags.expectKill = false := by
  rw [flags_killConn]
  by_cases mine : (v.heap c).conn.user = some u
  · rw [if_pos mine]
  · rw [conn_killConn mine] at idle
    rw [if_neg mine]
    exact marked mine idle

theorem conn_detachUser {v : UserPtr} {site : KillSite} :
    u ≠ v → ((w.detachUser v site).users u).conn = (w.users u).conn := by
  intro other
  unfold World.detachUser
  split
  · rfl
  · rw [conn_killConn (by simp [World.updConn])]
    change ((w.touch _).users u).conn = _
    rw [users_touch]

/-- The timers of a user leave its connection and its flags alone. -/
theorem Move.timers_keep (move : Move .timers w w') (u : UserPtr) :
    (w'.users u).conn = (w.users u).conn ∧ (w'.users u).flags = (w.users u).flags := by
  cases move with
  | sooner v f tm =>
    by_cases here : u = v
    · subst here
      rw [updUser_users_self]
      exact ⟨rfl, rfl⟩
    · rw [updUser_users_of_ne _ here]
      exact ⟨rfl, rfl⟩
  | queue v queue =>
    by_cases here : u = v
    · subst here
      rw [updUser_users_self]
      exact ⟨rfl, rfl⟩
    · rw [updUser_users_of_ne _ here]
      exact ⟨rfl, rfl⟩

section Idle

variable (noticed : ∀ u, (w.users u).conn = none → (w.users u).flags.expectKill = false)
include noticed

/-- Only a user with a connection gets a mark. -/
theorem idle_mark {v : UserPtr} (owner : (w.users v).conn ≠ none)
    (idle : ((w.updUser v fun user =>
      { user with flags := { user.flags with expectKill := true } }).users u).conn = none) :
    ((w.updUser v fun user =>
      { user with flags := { user.flags with expectKill := true } }).users u).flags.expectKill = false := by
  by_cases here : u = v
  · subst here
    rw [updUser_users_self] at idle
    exact absurd idle owner
  · rw [updUser_users_of_ne _ here] at idle ⊢
    exact noticed u idle

/-- The last packet of a closing connection is written, and the owner is marked first. -/
theorem idle_drained {c : ConnPtr} {text : CString}
    (idle : ((((w.popPacket c text []).expectKillOf (w.heap c).conn.user).killConn c
      .writeDrained).users u).conn = none) :
    ((((w.popPacket c text []).expectKillOf (w.heap c).conn.user).killConn c
      .writeDrained).users u).flags.expectKill = false := by
  refine idle_killConn (fun other alone => ?_) idle
  have session : ((w.popPacket c text []).expectKillOf (w.heap c).conn.user).session =
      w.session.pop c text [] := by rw [session_expectKillOf, session_popPacket]
  have owner : (((w.popPacket c text []).expectKillOf (w.heap c).conn.user).heap c).conn.user =
      (w.heap c).conn.user := by
    rw [← conn_session, session, Session.conn_pop]
    rfl
  rw [owner] at other
  rw [flags_expectKillOf _ _ other]
  have before : ((w.session.pop c text []).users u).conn = none := by
    rw [← session]
    exact alone
  rw [Session.users_pop] at before
  rw [((World.Updated.refl .books w).popPacket c text []).flags Concern.not_marks_books]
  exact noticed u before

theorem idle_connectUser {v : UserPtr} {loc : Nat} {next : List Nat} {sstate : SockState}
    {fd time : Int} {ssl : Bool}
    (idle : ((w.connectUser v loc next sstate fd time ssl).users u).conn = none) :
    ((w.connectUser v loc next sstate fd time ssl).users u).flags.expectKill = false := by
  rw [((World.Updated.refl .books w).connectUser v loc next sstate fd time ssl).flags
    Concern.not_marks_books]
  have connected : ((w.session.connect v loc next sstate fd time ssl).users u).conn = none := by
    rw [← session_connectUser]
    exact idle
  by_cases here : u = v
  · subst here
    simp [Session.connect] at connected
  · have same : (w.session.connect v loc next sstate fd time ssl).users u = (w.users u).party := by
      simp [Session.connect, here]
    rw [same] at connected
    exact noticed u connected

theorem Move.idle (move : Move k w w') (sound : w.session.Sound)
    (announced : ∀ u rest, w.trace = .handlerRun u .evSendRawBytes :: rest → (w.users u).conn ≠ none)
    (u : UserPtr) (idle : (w'.users u).conn = none) : (w'.users u).flags.expectKill = false := by
  have kept : (w'.users u).conn = (w.users u).conn → w.Updated .books w' →
      (w'.users u).flags.expectKill = false := by
    intro conn done
    rw [done.flags Concern.not_marks_books]
    exact noticed u (conn.symm.trans idle)
  by_cases timers : k = .timers
  · subst timers
    obtain ⟨conn, flags⟩ := move.timers_keep u
    rw [flags]
    exact noticed u (conn.symm.trans idle)
  by_cases unmarked : ¬k.Marks
  · have calm : k ≠ .life := fun life => unmarked (.inr (.inl life))
    rw [(move.updated timers).flags unmarked]
    exact noticed u ((move.conn sound calm u).symm.trans idle)
  have done := World.Updated.refl .books w
  have conn := fun calm => move.conn sound calm u
  cases move with
  | @expectKill _ v c owner => exact idle_mark noticed (by rw [owner]; simp) idle
  | @rawKill _ v arg announces =>
    refine idle_mark noticed (fun none => ?_) idle
    obtain ⟨rest, last⟩ := announces none
    exact announced v rest last none
  | write _ _ => exact kept (conn (by simp)) (done.acceptPacket _ _)
  | reject text _ => exact kept (conn (by simp)) (done.rejectPacket _ text)
  | raw _ _ => exact kept (conn (by simp)) (done.acceptPacket _ _)
  | rosterAsk time del _ _ _ _ =>
    exact kept (conn (by simp)) ((done.rosterRegistered _ _ time del).acceptPacket _ _)
  | rosterCancel time del text _ _ =>
    exact kept (conn (by simp)) ((done.rosterRegistered _ _ time del).rejectPacket _ text)
  | drained _ _ _ => exact idle_drained noticed idle
  | refill empty =>
    refine kept ?_ done.refillSlots
    have same : (w.refillSlots.session.users u).conn = (w.session.users u).conn := by
      rw [session_refillSlots, if_pos empty]
      rfl
    exact same
  | connect _ _ _ => exact idle_connectUser noticed idle
  | kill site live _ =>
    exact idle_killConn (fun _ alone => noticed u alone) idle
  | @userKill _ v site _ =>
    rw [flags_resetUser, flags_detachUser]
    by_cases here : u = v
    · rw [if_pos here]
    · rw [if_neg here]
      rw [(resetUser_frame _ v).others u here] at idle
      exact noticed u ((conn_detachUser here).symm.trans idle)
  | stale c =>
    refine kept ?_ (done.touch c)
    rw [users_touch]
  | _ => exact absurd (by simp [Concern.Marks]) unmarked

end Idle

theorem Move.noticing (move : Move k w w') (sound : w.session.Sound) (noticing : w.Noticing) :
    w'.Noticing := by
  refine ⟨?_, fun connected u idle => ?_⟩
  · exact Abstraction.steps_keep (A := machine) Session.Act.tracked sound (move.session sound)
      noticing.tracked
  · have before : w.RawBytesOnConn := fun v rest told =>
      connected v rest (told.trans (move.trace_suffix sound))
    refine move.idle (noticing.idle before) sound (fun v rest last none => ?_) u idle
    have some : (connOf v rest).isSome := before v rest (by rw [last])
    have same : connOf v w.trace = connOf v rest := by
      rw [last]
      rfl
    have tracked : connOf v w.trace = (w.users v).conn := noticing.tracked v
    rw [← same, tracked, none] at some
    cases some

theorem Reachable.noticing (reach : Reachable w) : w.Noticing := by
  refine reach.invariant (K := World.Noticing) (fun fresh => ⟨fresh.session.tracked, ?_⟩)
    (fun {v} env noticing => ⟨noticing.tracked, noticing.idle⟩)
    fun sound move noticing => move.noticing sound noticing
  intro _ u _
  exact (fresh.users u).expectKill

end Moves

section Counts

variable (w : World) (c : ConnPtr) (u : UserPtr) (site : KillSite)

/-- What a death adds to the count of unexpected ones. -/
def World.surprise (w : World) (u : UserPtr) : CInt :=
  if (w.users u).flags.expectKill then 0 else 1

theorem count_rosterHashDelete : (rosterHashDelete u w).globals.jpolldConnUnexpectedKillCount =
    w.globals.jpolldConnUnexpectedKillCount := by
  unfold rosterHashDelete
  split
  · rfl
  · obtain ⟨items, deleted⟩ := deleteItems_eq w (xhashWalk ‹_›)
    rw [deleted]
    rfl

theorem count_resetUser : (w.resetUser u).globals.jpolldConnUnexpectedKillCount =
    w.globals.jpolldConnUnexpectedKillCount + w.surprise u := by
  have dropped : (w.dropSession u).globals.jpolldConnUnexpectedKillCount =
      w.globals.jpolldConnUnexpectedKillCount := count_rosterHashDelete _ u
  have flags := dropSession_flags w u
  unfold World.resetUser World.surprise World.userDebug
  dsimp only
  rw [flags]
  split
  · rw [← dropped]
    exact (BitVec.add_zero _).symm
  · split
    · exact congrArg (· + 1) dropped
    · exact congrArg (· + 1) dropped

theorem count_killConn {w : World} {c : ConnPtr} (owner : (w.heap c).conn.user = some u) :
    (w.killConn c site).globals.jpolldConnUnexpectedKillCount =
      w.globals.jpolldConnUnexpectedKillCount + w.surprise u := by
  change (w.stripConn c site).globals.jpolldConnUnexpectedKillCount = _
  rw [World.stripConn, owner, World.resetOwner, count_resetUser]
  have users : (((w.emit (.killed c site)).releaseConn c).touch c).users = w.users := by
    rw [users_touch, releaseConn_users]
    rfl
  have count : (((w.emit (.killed c site)).releaseConn c).touch c).globals.jpolldConnUnexpectedKillCount =
      w.globals.jpolldConnUnexpectedKillCount := by
    rw [globals_touch, World.releaseConn, globals_touch]
    rfl
  rw [World.surprise, updUser_users_self, users]
  exact congrArg (· + _) count

theorem count_detachUser : (w.detachUser u site).globals.jpolldConnUnexpectedKillCount =
    w.globals.jpolldConnUnexpectedKillCount := by
  unfold World.detachUser
  split
  · rfl
  · rename_i c owner
    change (World.stripConn _ _ site).globals.jpolldConnUnexpectedKillCount = _
    have alone : (((w.touch c).updConn c fun conn => { conn with user := none }).heap c).conn.user =
        none := by simp [World.updConn]
    rw [World.stripConn, alone, World.resetOwner, globals_touch, World.releaseConn,
      globals_touch]
    change (w.touch c).globals.jpolldConnUnexpectedKillCount = _
    rw [globals_touch]

end Counts

section Deaths

variable {w w' : World} {u : UserPtr} {c : ConnPtr} {site : KillSite}

/-- Both ways in which the connection of a user dies count the death unless it is expected. -/
theorem death_counted (sound : w.session.Sound) (owner : (w.users u).conn = some c)
    (ran : jpolldConnKill c site w = .ok ⟨⟩ w' ∨ userConnKill u site w = .ok ⟨⟩ w') :
    w'.globals.jpolldConnUnexpectedKillCount =
      w.globals.jpolldConnUnexpectedKillCount + w.surprise u := by
  rcases ran with ran | ran
  · have user : (w.heap c).conn.user = some u := sound.user_of_conn owner
    rcases jpolldConnKill_apply w c site with ⟨_, killed⟩ | ⟨_, _, _, failed⟩
    · rw [killed] at ran
      cases ran
      exact count_killConn u site user
    · rw [failed] at ran
      cases ran
  · rw [userConnKill_apply, userConnReset_apply] at ran
    split at ran
    · cases ran
    · cases ran
      rw [count_resetUser, count_detachUser, World.surprise, flags_detachUser]
      rfl

theorem connected_unmarked {r : Int} (clear : (w.users u).flags.expectKill = false)
    (ran : userConnect u w = .ok r w') : (w'.users u).flags.expectKill = false := by
  rcases userConnect_apply (w := w) (u := u) with
    ⟨env, _, failed⟩ | ⟨_, _, _, failed⟩ | ⟨loc, next, sstate, fd, ssl, env, later, _, connected⟩
  · rw [failed] at ran
    cases ran
    exact clear
  · rw [failed] at ran
    cases ran
  · rw [connected] at ran
    cases ran
    have linked := ((World.Updated.refl .books w).refillSlots.connectUser u loc next sstate fd
      (w.env.clock 0) ssl).flags Concern.not_marks_books u
    have opened := ((World.Updated.refl .books ((w.refillSlots.connectUser u loc next sstate fd
      (w.env.clock 0) ssl).withEnv env)).acceptPacket w.nextConn
      (some (apSnprintf 300 (streamOpen (w.users u).idServer)))).flags Concern.not_marks_books u
    exact (congrArg UserFlags.expectKill (opened.trans linked)).trans clear

/-- As long as users send raw bytes on connections only, nobody without a connection has the
mark, a connection starts without it, and each death without it is counted. -/
theorem deaths_noticed (reach : Reachable w) (sent : w.RawBytesOnConn) :
    (∀ u, connOf u w.trace = (w.users u).conn) ∧
    (∀ u, (w.users u).conn = none → (w.users u).flags.expectKill = false) ∧
    (∀ u r w', (w.users u).conn = none → userConnect u w = .ok r w' →
      (w'.users u).flags.expectKill = false) ∧
    (∀ u c site w', (w.users u).conn = some c →
      jpolldConnKill c site w = .ok ⟨⟩ w' ∨ userConnKill u site w = .ok ⟨⟩ w' →
      w'.globals.jpolldConnUnexpectedKillCount = w.globals.jpolldConnUnexpectedKillCount +
        if (w.users u).flags.expectKill then 0 else 1) := by
  obtain ⟨tracked, noticed⟩ := reach.noticing
  refine ⟨tracked, noticed sent, ?_, ?_⟩
  · intro u r w' idle ran
    exact connected_unmarked (noticed sent u idle) ran
  · intro u c site w' owner ran
    exact death_counted reach.sound owner ran

end Deaths

theorem deaths_noticed_text : connOf 0 (rawBytesWorld textSource).trace = some 0 ∧
    ((rawBytesWorld textSource).users 1).flags.expectKill = false := by
  have reach : Reachable (rawBytesWorld textSource) :=
    reachable_played (.init (plainWorld_initial _)) _
  have sent : (rawBytesWorld textSource).RawBytesOnConn := by decide +kernel
  have alone : ((rawBytesWorld textSource).users 1).conn = none := by decide +kernel
  have owner : ((rawBytesWorld textSource).users 0).conn = some 0 := by decide +kernel
  obtain ⟨tracked, noticed, _⟩ := deaths_noticed reach sent
  exact ⟨(tracked 0).trans owner, noticed 1 alone⟩

/-- The event has no connection to send its bytes on, and marks the user. -/
def earlyBytesWorld : World := (plainWorld [rawBytesEvent textSource]).played [(.job 0 5, plainEnv)]

theorem deaths_noticed_early : ¬∀ w, Reachable w → ∀ u, (w.users u).conn = none →
    (w.users u).flags.expectKill = false := by
  intro claim
  have reach : Reachable earlyBytesWorld := reachable_played (.init (plainWorld_initial _)) _
  have alone : (earlyBytesWorld.users 0).conn = none := by decide +kernel
  have marked : (earlyBytesWorld.users 0).flags.expectKill = true := by decide +kernel
  rw [claim _ reach 0 alone] at marked
  cases marked

end JabSimul
