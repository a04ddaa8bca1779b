import JabSimul.ConnSpec

/-!
The functions on connections refine the session machine: each of their runs is
a chain of its steps, and none of them reads through a NULL `user->conn`.
-/
namespace JabSimul

open Simulation Relation

/-- The simulator as seen by the session machine. -/
def machine : Abstraction Stop World Session where
  abs := World.session
  Step := Session.Act
  Inv := Session.Sound
  Allowed := fun e => e ≠ .nullConn
  inv_step := Session.Sound.step

/-- The same with the steps that keep every connection. -/
def calmMachine : Abstraction Stop World Session where
  abs := World.session
  Step := Session.Calm
  Inv := Session.Sound
  Allowed := fun e => e ≠ .nullConn
  inv_step := Session.Sound.calm

theorem sim_of_calm {α : Type} {P : World → Prop} {m : M α} {Q : α → World → Prop}
    (sim : calmMachine.Sim P m Q) : machine.Sim P m Q :=
  sim.lift (fun _ => rfl) (fun _ inv => inv) (fun _ _ step => .calm step) fun _ allowed => allowed

section Silent

variable (u : UserPtr) (c : ConnPtr)

theorem silent_getUser : calmMachine.Silent (getUser u) := fun _ => rfl

theorem silent_readConn : calmMachine.Silent (readConn c) := fun w => by
  rw [readConn_apply]
  exact session_touch w c

theorem silent_random : calmMachine.Silent random := fun _ => rfl

theorem silent_gettimeofday : calmMachine.Silent gettimeofday := fun _ => rfl

theorem silent_modGlobals {f : Globals → Globals}
    (counts : ∀ g, (f g).jpolldConnCreateCount = g.jpolldConnCreateCount ∧
      (f g).jpolldConnKillCount = g.jpolldConnKillCount) :
    calmMachine.Silent (modGlobals f) :=
  fun w => session_updGlobals w (counts _).1 (counts _).2

theorem safe_modGlobals {f : Globals → Globals}
    (counts : ∀ g, (f g).jpolldConnCreateCount = g.jpolldConnCreateCount ∧
      (f g).jpolldConnKillCount = g.jpolldConnKillCount) :
    calmMachine.Safe (modGlobals f) :=
  (silent_modGlobals counts).safe

theorem silent_modUser {f : UserProperities → UserProperities}
    (soft : ∀ user, (f user).party = user.party) :
    calmMachine.Silent (modUser u f) :=
  fun w => session_updUser_soft w u (soft _)

theorem silent_expectKill : calmMachine.Silent (expectKill u) :=
  silent_modUser u (by exact fun _ => rfl)

theorem silent_exitApp {α : Type} (code : Int) : calmMachine.Silent (exitApp code : M α) :=
  Abstraction.silent_throw (by simp [calmMachine])

theorem silent_exitIfFlagged (code : Int) : calmMachine.Silent (exitIfFlagged u code) := fun w => by
  rw [exitIfFlagged_apply]
  split
  · simp [Abstraction.Unseen, calmMachine]
  · rfl

end Silent

/-- An event that the machine does not depend on may be noted at any time. -/
theorem safe_emit {e : Ev} (isNote : e.IsNote) : calmMachine.Safe (emit e) :=
  fun _ _ _ => ⟨.single (.note e isNote), trivial⟩

theorem sim_jpolldConnEnqueue (conn : Option ConnPtr) (text : Option CString) (force : Bool) :
    calmMachine.Sim (fun w => ∀ c, conn = some c → w.session.live c)
      (jpolldConnEnqueue conn text force) (fun _ _ => True) := by
  cases conn with
  | none => exact Abstraction.safe_pure.sim
  | some c =>
    intro w _ live
    by_cases room : ¬(w.heap c).conn.full ∨ force = true
    · rw [jpolldConnEnqueue_room room]
      refine ⟨.single ?_, trivial⟩
      change Session.Calm w.session (w.acceptPacket c text).session
      rw [session_acceptPacket]
      exact .write text (live c rfl)
    · obtain ⟨full, unforced⟩ : (w.heap c).conn.full ∧ force = false := by simpa using room
      subst unforced
      rw [jpolldConnEnqueue_full full]
      refine ⟨.single ?_, trivial⟩
      change Session.Calm w.session (w.rejectPacket c text).session
      rw [session_rejectPacket]
      exact .note _ trivial

theorem sim_jpolldConnWrite (conn : Option ConnPtr) (x : Option XmlNode) (force : Bool) :
    calmMachine.Sim (fun w => ∀ c, conn = some c → w.session.live c)
      (jpolldConnWrite conn x force) (fun _ _ => True) := by
  unfold jpolldConnWrite
  split
  · exact Abstraction.sim_throw (by simp [calmMachine])
  · exact sim_jpolldConnEnqueue conn _ force

/-- Reading the connection of a user gives a live one, if any. -/
theorem sim_getUser (u : UserPtr) :
    calmMachine.Sim (fun _ => True) (getUser u)
      (fun user w => user = w.users u ∧ ∀ c, user.conn = some c → w.session.live c) :=
  fun _ inv _ => ⟨.refl, rfl, fun _ owner => inv.live_of_conn owner⟩

section Kills

theorem steps_killConn {w : World} {c : ConnPtr} {site : KillSite} (live : w.session.live c)
    (notDrained : site ≠ .writeDrained) :
    ReflTransGen Session.Act w.session (w.killConn c site).session := by
  have killed := ReflTransGen.single (Session.Act.kill site live notDrained)
  rcases session_killConn w c site with same | ⟨u, report⟩
  · exact same ▸ killed
  · rw [report]
    exact killed.tail (.calm (.note _ trivial))

theorem sim_jpolldConnKill (c : ConnPtr) {site : KillSite} (notDrained : site ≠ .writeDrained) :
    machine.Sim (fun w => w.session.live c) (jpolldConnKill c site) (fun _ _ => True) := by
  intro w _ live
  rcases jpolldConnKill_apply w c site with ⟨_, run⟩ | ⟨_, u, _, run⟩
  · rw [run]
    exact ⟨steps_killConn live notDrained, trivial⟩
  · rw [run]
    simp [Abstraction.Outcome, machine]

theorem steps_resetUser {s : Session} {w : World} {u : UserPtr}
    (steps : ReflTransGen Session.Act s (w.session.updParty u Party.reset)) :
    ReflTransGen Session.Act s (w.resetUser u).session := by
  rcases (resetUser_frame w u).session with same | report
  · exact same ▸ steps
  · rw [report]
    exact steps.tail (.calm (.note _ trivial))

/-- A user loses its connection, if it has one, and is reset. -/
theorem steps_userKill (w : World) (u : UserPtr) {site : KillSite}
    (notDrained : site ≠ .writeDrained) :
    ReflTransGen Session.Act w.session ((w.detachUser u site).resetUser u).session := by
  apply steps_resetUser
  apply ReflTransGen.single
  cases owner : (w.users u).conn with
  | none =>
    simp only [World.detachUser, owner]
    exact .userReset owner
  | some c =>
    rw [session_detachUser site owner]
    exact .userKill site owner notDrained

theorem safe_userConnKill (u : UserPtr) {site : KillSite} (notDrained : site ≠ .writeDrained) :
    machine.Safe (userConnKill u site) := by
  intro w inv _
  rw [userConnKill_apply, userConnReset_apply]
  split
  · simp [Abstraction.Outcome, machine]
  · exact ⟨steps_userKill w u notDrained, trivial⟩

end Kills

theorem userFinishConn_apply {w : World} {u : UserPtr} {c : ConnPtr}
    (owner : (w.users u).conn = some c) :
    ∃ w', userFinishConn (some u) w = .ok ⟨⟩ w' ∧ w'.session = w.session.finish c := by
  simp only [userFinishConn, bind_apply, getUser_apply, owner, readConn_apply, emit_apply,
    modConn_apply]
  refine ⟨_, rfl, ?_⟩
  simp only [session_updConn, session_touch, session_emit]
  rfl

theorem safe_userFinishConn (u : Option UserPtr) : calmMachine.Safe (userFinishConn u) := by
  cases u with
  | none => exact Abstraction.safe_pure
  | some u =>
    intro w _ _
    cases owner : (w.users u).conn with
    | none =>
      simp only [userFinishConn, bind_apply, getUser_apply, owner]
      exact ⟨.refl, trivial⟩
    | some c =>
      obtain ⟨w', run, session⟩ := userFinishConn_apply owner
      rw [run]
      refine ⟨.single ?_, trivial⟩
      change Session.Calm w.session w'.session
      rw [session]
      exact .finish owner

section WriteLoop

/-- What a drained queue leads to: the packet is gone, and so is the connection. -/
theorem steps_drained {w : World} {c : ConnPtr} {text : CString} (live : w.session.live c)
    (queue : (w.heap c).conn.writer = [⟨some text⟩]) (closing : (w.heap c).conn.state = .closing)
    (owner : Option UserPtr) :
    ReflTransGen Session.Act w.session
      ((((w.popPacket c text []).expectKillOf owner).killConn c .writeDrained).session) := by
  have session : ((w.popPacket c text []).expectKillOf owner).session = w.session.pop c text [] := by
    rw [session_expectKillOf, session_popPacket]
  have drained := ReflTransGen.single (Session.Act.drained live queue closing)
  rcases session_killConn ((w.popPacket c text []).expectKillOf owner) c .writeDrained with
    same | ⟨u, report⟩
  · rw [same, session]
    exact drained
  · rw [report, session]
    exact drained.tail (.calm (.note _ trivial))

/-- The induction is on the rounds left. After a kill the queue is empty, so the
loop ends without asking for a live connection. -/
theorem sim_writeLoop (fuel : Nat) (c : ConnPtr) :
    machine.Sim (fun w => (w.heap c).conn.writer ≠ [] → w.session.live c) (writeLoop fuel c)
      (fun _ _ => True) := by
  induction fuel with
  | zero => exact Abstraction.sim_throw (by simp [machine])
  | succ fuel ih =>
    intro w inv live
    match queue : (w.heap c).conn.writer with
    | [] =>
      rw [writeLoop_empty fuel queue]
      refine ⟨?_, trivial⟩
      change ReflTransGen _ w.session (w.touch c).session
      rw [session_touch]
    | ⟨none⟩ :: _ =>
      rw [writeLoop_null fuel queue]
      simp [Abstraction.Outcome, machine]
    | ⟨some text⟩ :: next =>
      have live : w.session.live c := live (by simp [queue])
      by_cases failed : (w.env.writes 0).len ≤ 0
      · cases blocked : w.blocked c with
        | true =>
          rw [writeLoop_blocked fuel queue failed blocked]
          refine ⟨?_, trivial⟩
          change ReflTransGen _ w.session (w.wrote c).session
          rw [session_wrote]
        | false =>
          rw [writeLoop_failed fuel queue failed blocked]
          have killed := sim_jpolldConnKill c (show KillSite.writeFailed ≠ _ by simp) (w.wrote c)
          change machine.Inv (w.wrote c).session → (w.wrote c).session.live c →
            machine.Outcome (w.wrote c).session _ _ at killed
          rw [session_wrote] at killed
          exact killed inv live
      have some' : 0 < (w.env.writes 0).len := by omega
      by_cases short : (w.env.writes 0).len < text.length
      · rw [writeLoop_short fuel queue some' short]
        refine ⟨.single (.calm ?_), trivial⟩
        change Session.Calm w.session (w.advancePacket c text next _).session
        rw [session_advancePacket]
        exact .advance live queue (by omega)
      have whole : (text.length : Int) ≤ (w.env.writes 0).len := by omega
      by_cases stays : next ≠ [] ∨ (w.heap c).conn.state ≠ .closing
      · rw [writeLoop_more fuel queue some' whole stays]
        have steps : ReflTransGen Session.Act w.session (w.popPacket c text next).session := by
          rw [session_popPacket]
          exact .single (.calm (.pop live queue stays))
        refine (ih _ (Abstraction.inv_steps inv steps) fun _ => ?_).after steps
        rw [session_popPacket]
        exact (Session.live_pop _ c c text next).mpr live
      obtain ⟨rfl, closing⟩ : next = [] ∧ (w.heap c).conn.state = .closing := by
        simpa using stays
      rw [writeLoop_drained fuel queue some' whole closing, bind_apply]
      rcases jpolldConnKill_apply ((w.popPacket c text []).expectKillOf (w.heap c).conn.user) c
        .writeDrained with ⟨_, run⟩ | ⟨_, u, _, run⟩
      · rw [run]
        have steps := steps_drained live queue closing (w.heap c).conn.user
        refine (ih _ (Abstraction.inv_steps inv steps) fun queued => absurd ?_ queued).after steps
        rw [killConn_conn]
        change ((((w.popPacket c text []).expectKillOf _).session).conn c).writer = []
        rw [session_expectKillOf, session_popPacket, Session.conn_pop]
      · rw [run]
        simp [Abstraction.Outcome, machine]

theorem sim_jpolldConnWrite_ (c : ConnPtr) :
    machine.Sim (fun w => w.session.live c) (jpolldConnWrite_ (some c)) (fun _ _ => True) :=
  (sim_of_calm ((silent_readConn c).sim fun s => s.live c)).bind fun _ =>
    (sim_writeLoop _ c).pre fun _ _ live _ => live

end WriteLoop

/-- A user without a connection may connect. -/
theorem sim_userConnect (u : UserPtr) :
    machine.Sim (fun w => (w.users u).conn = none) (userConnect u) (fun _ _ => True) := by
  intro w _ idle
  rcases userConnect_apply w u with ⟨env, _, run⟩ | ⟨e, w', stop, run⟩ |
    ⟨loc, next, sstate, fd, ssl, env, _, slot, run⟩
  · rw [run]
    exact ⟨.refl, trivial⟩
  · rw [run]
    rcases stop with rfl | ⟨_, rfl⟩ <;> simp [Abstraction.Outcome, machine]
  · rw [run]
    have refilled : ReflTransGen Session.Act w.session w.refillSlots.session := by
      rw [session_refillSlots]
      split
      · exact .single (.calm (.refill ‹_›))
      · exact .refl
    have same : w.refillSlots.users = w.users ∧ w.refillSlots.nextConn = w.nextConn := by
      unfold World.refillSlots
      split <;> exact ⟨rfl, rfl⟩
    have connected : ReflTransGen Session.Act w.session
        (w.refillSlots.connectUser u loc next sstate fd (w.env.clock 0) ssl).session := by
      rw [session_connectUser]
      refine refilled.tail (.connect sstate fd _ ssl ?_ slot)
      rw [users_session, same.1]
      exact idle
    refine ⟨connected.tail (.calm ?_), trivial⟩
    change Session.Calm _ (World.session _)
    rw [session_acceptPacket, session_withEnv]
    refine .write _ ?_
    rw [session_connectUser]
    simp [Session.connect, Session.live, World.session, same.2]

end JabSimul
