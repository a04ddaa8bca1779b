import JabSimul.HandlerRefinement

/-!
Events, socket events and jobs refine the session machine, with kills. Since its
invariant holds in the first state, it holds in every state of a run.
-/
namespace JabSimul

open Simulation Relation

section Values

variable (u : UserPtr)

theorem silent_crash {α : Type} : calmMachine.Silent (throw .crash : M α) :=
  Abstraction.silent_throw (by simp [calmMachine])

theorem silent_readUserName (num : Int) : calmMachine.Silent (readUserName num) := by
  unfold readUserName
  exact Abstraction.silent_ite (fun _ => rfl) silent_crash

theorem silent_rosterNthJid (num : Int) : calmMachine.Silent (rosterNthJid u num) := by
  intro w
  simp only [rosterNthJid, bind_apply, get_apply]
  generalize (w.users u).rosterHash.bind _ = ri
  cases ri with
  | none => exact silent_crash w
  | some ri => rfl

theorem silent_makeUserNameDefinedInXml (maxsize : Nat) (x : Option XmlNode) :
    calmMachine.Silent (makeUserNameDefinedInXml maxsize x u) := by
  unfold makeUserNameDefinedInXml
  refine (silent_getUser u).bind fun user => ?_
  refine Abstraction.silent_ite ?_ ?_
  · refine silent_random.bind fun _ => (silent_rosterNthJid u _).bind fun jid => ?_
    cases formatOnly jid with
    | none => exact silent_crash
    | some jid => exact Abstraction.silent_pure
  · cases xmlnodeGetTag x (cstr "range") with
    | none => exact Abstraction.silent_pure
    | some range =>
      refine Abstraction.silent_ite ?_ Abstraction.silent_pure
      refine Abstraction.silent_joined silent_crash fun _ => ?_
      refine silent_random.bind fun _ => (silent_readUserName _).bind fun name => ?_
      exact Abstraction.silent_ite Abstraction.silent_pure Abstraction.silent_pure

theorem silent_debugPrefix (x : Option XmlNode) (jidTo : Option CString) :
    calmMachine.Silent (debugPrefix u x jidTo) := by
  unfold debugPrefix
  cases xmlnodeGetTag x (cstr "prepend_with_debug_info") with
  | none => exact Abstraction.silent_pure
  | some _ =>
    refine silent_gettimeofday.bind fun curtime => ?_
    cases jidTo with
    | none => exact silent_crash
    | some jidTo =>
      refine (silent_getUser u).bind fun user => ?_
      exact Abstraction.silent_ite Abstraction.silent_pure silent_crash

theorem silent_randomBytes (n : Nat) : calmMachine.Silent (randomBytes n) := by
  induction n with
  | zero => exact Abstraction.silent_pure
  | succ n ih => exact silent_random.bind fun _ => ih.bind fun _ => Abstraction.silent_pure

theorem silent_makeBytesDefinedInXml (x : Option XmlNode) (jidTo : Option CString) :
    calmMachine.Silent (makeBytesDefinedInXml u x jidTo) := by
  unfold makeBytesDefinedInXml
  refine (silent_debugPrefix u x jidTo).bind fun prepbuf => ?_
  refine Abstraction.silent_ite Abstraction.silent_pure ?_
  refine Abstraction.silent_ite ?_ (Abstraction.silent_ite ?_ silent_crash)
  · exact Abstraction.silent_get.bind fun w => Abstraction.silent_pure
  · refine Abstraction.silent_joined (Abstraction.silent_throw (by simp [calmMachine])) fun _ => ?_
    exact (silent_randomBytes _).bind fun _ => Abstraction.silent_pure

end Values

section Events

variable (u : UserPtr)

theorem safe_evSendMessage (arg : Option XmlNode) : calmMachine.Safe (evSendMessage arg u) := by
  unfold evSendMessage
  cases xmlnodeGetTag arg (cstr "user") with
  | none => exact Abstraction.safe_pure
  | some userNode =>
    refine (silent_makeUserNameDefinedInXml u 2000 _).safe.bind fun jidFull => ?_
    cases jidFull with
    | none => exact Abstraction.safe_pure
    | some jidFull =>
      refine (silent_makeBytesDefinedInXml u _ _).safe.bind fun message => ?_
      refine (safe_userDoSendMessage u _ _).bind fun ret => ?_
      exact Abstraction.safe_ite (fun _ => (safe_modGlobals (by exact fun _ => ⟨rfl, rfl⟩))) fun _ => Abstraction.safe_pure

theorem safe_evSendRawBytes (arg : Option XmlNode) : calmMachine.Safe (evSendRawBytes arg u) := by
  unfold evSendRawBytes
  refine (silent_makeBytesDefinedInXml u _ _).safe.bind fun bytes => ?_
  exact (safe_userDoSendRawBytes u _).bind fun _ => (silent_expectKill u).safe

theorem safe_evChangeStatus (arg : Option XmlNode) : calmMachine.Safe (evChangeStatus arg u) := by
  have changed : ∀ status showText, calmMachine.Safe (do
      modUser u fun user => { user with status := status, showText := showText }
      let ret ← userDoPresence u none none status showText
      if ret = 0 then
        modGlobals fun g => { g with evChangeStatusCount := g.evChangeStatusCount + 1 } : M Unit) := by
    intro status showText
    refine (silent_modUser u (by exact fun _ => rfl)).safe.bind fun _ => (safe_userDoPresence u _ _ _ _).bind fun ret => ?_
    exact Abstraction.safe_ite (fun _ => (safe_modGlobals (by exact fun _ => ⟨rfl, rfl⟩))) fun _ => Abstraction.safe_pure
  unfold evChangeStatus
  refine Abstraction.safe_ite (fun _ => ?_) fun _ => ?_
  · exact Abstraction.safe_pure.bind fun _ => changed _ _
  · refine silent_random.safe.bind fun _ => ?_
    exact Abstraction.safe_pure.bind fun _ => changed _ _

/-- A user with a roster has a connection. -/
theorem sim_getUser_roster :
    calmMachine.Sim (fun _ => True) (getUser u)
      (fun user w => user.rosterHash.isSome → ∃ c, w.session.Owns u c) := by
  intro w inv _
  refine ⟨.refl, fun some' => ?_⟩
  cases owner : (w.users u).conn with
  | some c => exact ⟨c, owner⟩
  | none =>
    obtain ⟨_, _, _, noRoster, _⟩ := (inv.party u).idle owner
    change (w.users u).rosterHash.isSome = false at noRoster
    rw [some'] at noRoster
    cases noRoster

/-- After the request to change the roster anything safe may follow. -/
theorem sim_adddel {β : Type} {c : ConnPtr} {rest : Int → M β} (curtime : Int) (jid : CString)
    (name : Option CString) (del : Bool) (next : ∀ ret, calmMachine.Safe (rest ret)) :
    calmMachine.Sim (fun w => w.session.Owns u c)
      (userDoAdddelRosterItem u curtime jid name del >>= rest) (fun _ _ => True) :=
  (sim_userDoAdddelRosterItem curtime jid name del).bind_safe next

theorem safe_evAddRoster (arg : Option XmlNode) (curtime : Int) :
    calmMachine.Safe (evAddRoster arg u curtime) := by
  unfold evAddRoster
  refine (sim_getUser_roster u).bind fun user => ?_
  cases user.rosterHash with
  | none => exact Abstraction.safe_pure.sim
  | some hash =>
    refine Abstraction.Sim.pre (Abstraction.sim_exists fun c => ?_) fun _ _ pre => pre rfl
    refine ((silent_getUser u).sim (Session.Owns u c)).bind fun user => ?_
    refine Abstraction.sim_ite (fun _ => Abstraction.safe_pure.sim) fun _ => ?_
    cases xmlnodeGetTag arg (cstr "user") with
    | none => exact Abstraction.safe_pure.sim
    | some userNode =>
      refine ((silent_makeUserNameDefinedInXml u 2000 _).sim (Session.Owns u c)).bind
        fun jidFull => ?_
      cases jidFull with
      | none => exact Abstraction.safe_pure.sim
      | some jidFull =>
        refine (Abstraction.silent_get.sim (Session.Owns u c)).bind fun w => ?_
        refine Abstraction.sim_ite (fun _ => ?_) fun _ => Abstraction.safe_pure.sim
        refine sim_adddel u curtime _ _ _ fun ret => ?_
        refine Abstraction.safe_ite (fun _ => ?_) fun _ => Abstraction.safe_pure
        refine Abstraction.Safe.bind (safe_modGlobals (by exact fun _ => ⟨rfl, rfl⟩)) fun _ => ?_
        refine (silent_getUser u).safe.bind fun user => ?_
        exact (safe_userDoPresence u _ _ _ _).bind fun _ => Abstraction.safe_pure

theorem safe_evDelRoster (curtime : Int) : calmMachine.Safe (evDelRoster u curtime) := by
  unfold evDelRoster
  refine (sim_getUser_roster u).bind fun user => ?_
  refine Abstraction.sim_ite (fun some' => ?_) fun _ => Abstraction.safe_pure.sim
  refine Abstraction.Sim.pre (Abstraction.sim_exists fun c => ?_) fun _ _ pre => pre some'.1
  refine (silent_random.sim (Session.Owns u c)).bind fun _ => ?_
  refine ((silent_rosterNthJid u _).sim (Session.Owns u c)).bind fun jid => ?_
  refine sim_adddel u curtime _ _ _ fun ret => ?_
  exact Abstraction.safe_ite (fun _ => (safe_modGlobals (by exact fun _ => ⟨rfl, rfl⟩))) fun _ => Abstraction.safe_pure

theorem safe_queryWpmsgSetHeader (ns : CString) :
    calmMachine.Safe (queryWpmsgSetHeader u ns) :=
  (safe_makeJcomId u).bind fun _ => Abstraction.safe_pure

theorem safe_privRosterList2xml : calmMachine.Safe (privRosterList2xml u) := by
  unfold privRosterList2xml
  refine (safe_queryWpmsgSetHeader u _).bind fun iq => (silent_getUser u).safe.bind fun user => ?_
  refine Abstraction.safe_ite (fun _ => Abstraction.safe_pure) fun _ => ?_
  cases user.privRost.gall with
  | none => exact silent_crash.safe
  | some gall => exact Abstraction.safe_pure

theorem safe_privRosterNumextcontacts2xml : calmMachine.Safe (privRosterNumextcontacts2xml u) := by
  unfold privRosterNumextcontacts2xml
  refine (safe_queryWpmsgSetHeader u _).bind fun iq => (silent_getUser u).safe.bind fun user => ?_
  exact Abstraction.safe_ite (fun _ => Abstraction.safe_pure) fun _ => Abstraction.safe_pure

/-- A packet goes to the connection that the user has at that moment. -/
theorem safe_write {β : Type} {rest : Int → M β} (x : Option XmlNode) (force : Bool)
    (next : ∀ ret, calmMachine.Safe (rest ret)) :
    calmMachine.Safe (getUser u >>= fun user => jpolldConnWrite user.conn x force >>= rest) :=
  (sim_getUser u).bind fun user =>
    ((sim_jpolldConnWrite user.conn x force).pre fun _ _ pre => pre.2).bind_safe next

theorem safe_evLogout : calmMachine.Safe (evLogout u) := by
  have closed : calmMachine.Safe (do
      let _ ← jpolldConnWriteStr (← getUser u).conn (some (cstr "</stream:stream>")) true
      userFinishConn (some u) : M Unit) := by
    refine (sim_getUser u).bind fun user => ?_
    exact ((sim_jpolldConnEnqueue user.conn _ true).pre fun _ _ pre => pre.2).bind_safe fun _ =>
      safe_userFinishConn _
  unfold evLogout
  refine (silent_getUser u).safe.bind fun user => ?_
  refine Abstraction.safe_ite (fun _ => ?_) fun _ => closed
  refine (silent_updPrivRost u (by exact fun _ => rfl)).safe.bind fun _ => ?_
  refine (safe_privRosterList2xml u).bind fun iqList => ?_
  refine (safe_privRosterNumextcontacts2xml u).bind fun iqNum => ?_
  exact safe_write u _ _ fun _ => safe_write u _ _ fun _ => closed

/-- The user `u` has no connection. -/
def Session.Idle (u : UserPtr) (s : Session) : Prop := (s.users u).conn = none

theorem safe_of_calm {α : Type} {m : M α} (safe : calmMachine.Safe m) : machine.Safe m :=
  sim_of_calm safe

theorem safe_evConnect (arg : Option XmlNode) : machine.Safe (evConnect arg u) := by
  have seen : machine.Sim (fun _ => True) (getUser u) (fun user w => user = w.users u) :=
    fun _ _ _ => ⟨.refl, rfl⟩
  unfold evConnect
  refine seen.bind fun user => ?_
  refine Abstraction.sim_ite (fun none => ?_) fun _ => (safe_of_calm Abstraction.safe_pure).sim
  refine Abstraction.Sim.pre (P := fun w => w.session.Idle u) ?_ fun w _ same => ?_
  · refine (sim_of_calm ((silent_modUser u (by exact fun _ => rfl)).sim (Session.Idle u))).bind fun _ => ?_
    exact (sim_userConnect u).bind_safe fun _ => safe_of_calm (safe_modGlobals (by exact fun _ => ⟨rfl, rfl⟩))
  · change (w.users u).conn = _
    rw [← same]
    simpa using none

theorem safe_evKillConnection : machine.Safe (evKillConnection u) := by
  unfold evKillConnection
  refine (safe_of_calm (silent_getUser u).safe).bind fun user => ?_
  refine Abstraction.safe_ite (fun _ => ?_) fun _ => safe_of_calm Abstraction.safe_pure
  refine (safe_of_calm (silent_expectKill u).safe).bind fun _ => ?_
  exact (safe_userConnKill u (by simp)).bind fun _ => safe_of_calm (safe_modGlobals (by exact fun _ => ⟨rfl, rfl⟩))

theorem safe_runEvent (h : EventHandler) (arg : Option XmlNode) (curtime : Int) :
    machine.Safe (runEvent h arg u curtime) := by
  cases h with
  | evChangeStatus => exact safe_of_calm (safe_evChangeStatus u arg)
  | evSendMessage => exact safe_of_calm (safe_evSendMessage u arg)
  | evSendRawBytes => exact safe_of_calm (safe_evSendRawBytes u arg)
  | evAddRoster => exact safe_of_calm (safe_evAddRoster u arg curtime)
  | evDelRoster => exact safe_of_calm (safe_evDelRoster u curtime)
  | evConnect => exact safe_evConnect u arg
  | evKillConnection => exact safe_evKillConnection u
  | evLogout => exact safe_of_calm (safe_evLogout u)

end Events

section Scheduler

variable (u : UserPtr) (now : Int)

theorem safe_rescheduled (er : EventRepeater) : machine.Safe (rescheduled now er) := by
  unfold rescheduled
  refine Abstraction.safe_ite (fun _ => ?_) fun _ => safe_of_calm Abstraction.safe_pure
  exact (safe_of_calm silent_random.safe).bind fun _ => safe_of_calm Abstraction.safe_pure

theorem safe_fireRepeater (er : EventRepeater) : machine.Safe (fireRepeater u now er) := by
  unfold fireRepeater
  cases er.eventHandler with
  | none => exact safe_of_calm Abstraction.safe_pure
  | some h =>
    refine (safe_of_calm (silent_getUser u).safe).bind fun user => ?_
    refine (safe_of_calm Abstraction.silent_get.safe).bind fun w => ?_
    refine Abstraction.safe_ite (fun _ => ?_) fun _ => safe_of_calm Abstraction.safe_pure
    refine (safe_of_calm (safe_emit (e := .handlerRun u h) trivial)).bind fun _ => ?_
    exact (safe_runEvent u h _ now).bind fun _ => safe_of_calm Abstraction.safe_pure

theorem safe_repeaterRound (er : EventRepeater) : machine.Safe (repeaterRound u now er) := by
  have noted : ∀ er : EventRepeater, machine.Safe (do
      modUser u fun user =>
        if user.soonerActivationTm > er.activationTm then
          { user with soonerActivationTm := er.activationTm }
        else user
      return er : M EventRepeater) := by
    intro er
    refine safe_of_calm ((silent_modUser u fun user => ?_).safe.bind fun _ =>
      Abstraction.safe_pure)
    split <;> rfl
  unfold repeaterRound
  refine Abstraction.safe_ite (fun _ => ?_) fun _ => ?_
  · refine (safe_rescheduled now er).bind fun er => ?_
    exact (safe_fireRepeater u now er).bind fun er => noted er
  · exact (safe_of_calm Abstraction.safe_pure).bind fun er => noted er

/-- The induction is on the events that are left of the queue. -/
theorem safe_repeaterScan (queue : List EventRepeater) : machine.Safe (repeaterScan u now queue) := by
  induction queue with
  | nil => exact safe_of_calm Abstraction.safe_pure
  | cons er rest ih =>
    refine (safe_repeaterRound u now er).bind fun er => ih.bind fun rest => ?_
    exact safe_of_calm Abstraction.safe_pure

theorem safe_userHandleRepeaterQueue : machine.Safe (userHandleRepeaterQueue u now) := by
  unfold userHandleRepeaterQueue
  refine (safe_of_calm (silent_getUser u).safe).bind fun user => ?_
  refine Abstraction.safe_ite (fun _ => ?_) fun _ => safe_of_calm Abstraction.safe_pure
  refine (safe_of_calm (silent_modUser u (by exact fun _ => rfl)).safe).bind fun _ => ?_
  exact (safe_repeaterScan u now _).bind fun queue => safe_of_calm (silent_modUser u (by exact fun _ => rfl)).safe

theorem safe_checkTimeouts (c : ConnPtr) : calmMachine.Safe (checkTimeouts u c now) := by
  unfold checkTimeouts
  refine (silent_getUser u).safe.bind fun user => (silent_readConn c).safe.bind fun conn => ?_
  refine (silent_readConn c).safe.bind fun conn' => ?_
  have login : calmMachine.Safe (if now - conn.creationTime ≥ user.loginTimeout * 1000 then
      exitIfFlagged u 0 else pure () : M Unit) :=
    Abstraction.safe_ite (fun _ => (silent_exitIfFlagged u 0).safe) fun _ => Abstraction.safe_pure
  refine Abstraction.safe_ite (fun _ => ?_) fun _ => login
  refine Abstraction.safe_ite (fun _ => ?_) fun _ => login
  refine (safe_userFinishConn _).bind fun _ => (silent_expectKill u).safe.bind fun _ => ?_
  exact (silent_exitIfFlagged u 0).safe.bind fun _ => login

theorem sim_seen :
    machine.Sim (fun _ => True) (getUser u) (fun user w => user = w.users u) :=
  fun _ _ _ => ⟨.refl, rfl⟩

/-- The cases are the states of the user. The repair of a logged in user without
a connection is never needed. -/
theorem safe_userDoYourJob : machine.Safe (userDoYourJob u now) := by
  unfold userDoYourJob
  refine (sim_seen u).bind fun user => ?_
  have queue := safe_userHandleRepeaterQueue u now
  cases state : user.state with
  | disabled => exact (safe_of_calm Abstraction.safe_pure).sim
  | canLogin =>
    refine Abstraction.sim_ite (fun opened => ?_) fun _ => queue.sim
    obtain ⟨c, owner⟩ := Option.isSome_iff_exists.mp opened.1
    have ready : ∀ w : World, machine.Inv (machine.abs w) → user = w.users u →
        w.session.Owns u c ∧ (w.users u).state = .canLogin ∧ (w.users u).streamOpened = true := by
      rintro w _ rfl
      exact ⟨owner, state, opened.2⟩
    refine Abstraction.sim_ite (fun _ => ?_) fun _ => ?_
    · refine ((sim_of_calm (sim_userDoLogin now fun w _ user => ?_)).pre ready).bind_safe
        fun _ => queue
      exact asks_loginDigest w.sha user
    · refine ((sim_of_calm (sim_userDoLogin now fun _ _ user => ?_)).pre ready).bind_safe
        fun _ => queue
      exact asks_loginPlain user
  | isLogging =>
    cases user.conn with
    | none => exact queue.sim
    | some c => exact ((safe_of_calm (safe_checkTimeouts u now c)).bind fun _ => queue).sim
  | loggedIn =>
    refine Abstraction.sim_ite (fun lost => ?_) fun _ => queue.sim
    refine Abstraction.sim_of_pre (c := False) (fun w inv same => ?_) False.elim
    subst same
    have idle : (w.users u).conn = none := by simpa using lost
    exact ((inv.party u).idle idle).2.1 state

end Scheduler

section Sockets

theorem safe_statPrintf : calmMachine.Safe statPrintf := by
  unfold statPrintf
  refine Abstraction.silent_get.safe.bind fun w => ?_
  exact Abstraction.safe_ite (fun _ => (safe_modGlobals (by exact fun _ => ⟨rfl, rfl⟩))) fun _ => Abstraction.safe_pure

/-- What sits in a slot is a live connection. -/
theorem sim_derefSlot (j : Nat) :
    calmMachine.Sim (fun _ => True) (derefSlot j) (fun c w => w.session.live c) := by
  intro w inv _
  obtain ⟨issued, slots⟩ := inv.slots
  simp only [derefSlot, bind_apply, get_apply]
  cases slot : w.thread.conns j with
  | none =>
    change calmMachine.Allowed .crash
    simp [calmMachine]
  | some c => exact ⟨.refl, ((slots.home j c).mp slot).1⟩

theorem Session.live_calm {c : ConnPtr} {s t : Session} (_ : s.Sound) (step : Calm s t)
    (live : s.live c) : t.live c := by
  rcases step.linked with linked | ⟨_, rfl⟩
  · exact (linked.live c).mpr live
  · exact live

theorem sim_readConn (c : ConnPtr) :
    calmMachine.Sim (fun w => w.session.live c) (readConn c)
      (fun conn w => conn = w.session.conn c ∧ w.session.live c) := by
  intro w _ live
  rw [readConn_apply, touch_of_live live]
  exact ⟨.refl, rfl, live⟩

theorem sim_connected (c : ConnPtr) :
    calmMachine.Sim (fun w => w.session.live c)
      (modConn c fun conn => { conn with sstate := .connected }) (fun _ _ => True) := by
  intro w _ live
  rw [modConn_apply, touch_of_live live]
  exact ⟨.single (.connected c), trivial⟩

theorem sim_stanza {x : XmlNode} {u : UserPtr} {c : ConnPtr} (curtime : Int) :
    calmMachine.Sim (fun w => w.session.live c ∧ (w.session.conn c).user = some u)
      (do emit (.stanza c x); handleUserNode x u curtime) (fun _ _ => True) := by
  intro w inv ⟨live, user⟩
  have step : Session.Calm w.session (w.emit (.stanza c x)).session := .stanza x live
  have owns : w.session.Owns u c := (inv.owner u c).mpr ⟨live, user⟩
  rw [bind_apply, emit_apply]
  exact (sim_handleUserNode x curtime _ (inv.calm step) ⟨owns, w.trace, rfl⟩).after (.single step)

theorem sim_root {u : UserPtr} {c : ConnPtr} (sid : Option CString) :
    calmMachine.Sim (fun w => w.session.live c ∧ (w.session.conn c).user = some u)
      (do
        modUser u fun user => { user with sid := sid, streamOpened := true }
        emit (.root c)) (fun _ _ => True) := by
  intro w inv ⟨live, user⟩
  refine ⟨.single ?_, trivial⟩
  change Session.Calm w.session ((w.updUser u _).emit (.root c)).session
  rw [session_emit, session_updUser w u (g := fun p => { p with streamOpened := true }) rfl]
  exact .root ((inv.owner u c).mpr ⟨live, user⟩)

theorem sim_jpolldConnNode (c : ConnPtr) (call : XstreamCall) :
    calmMachine.Sim (fun w => w.session.live c) (jpolldConnNode c call) (fun _ _ => True) := by
  unfold jpolldConnNode
  refine (sim_readConn c).bind fun conn => ?_
  cases call with
  | node x =>
    have timed := silent_gettimeofday.sim fun s => conn = s.conn c ∧ s.live c
    refine timed.bind fun curtime => ?_
    cases user : conn.user with
    | none =>
      intro w _ _
      change calmMachine.Allowed .crash
      simp [calmMachine]
    | some u =>
      refine (sim_stanza curtime).pre fun w _ pre => ⟨pre.2, ?_⟩
      rw [pre.1] at user
      exact user
  | root x =>
    cases user : conn.user with
    | none => exact silent_crash.safe.sim
    | some u =>
      refine (sim_root _).pre fun w _ pre => ⟨pre.2, ?_⟩
      rw [← pre.1, user]
  | close => exact (safe_userFinishConn _).sim
  | err =>
    exact (Abstraction.safe_joined (safe_userFinishConn _) fun _ => safe_userFinishConn _).sim

theorem safe_handlePOLLERR (j : Nat) (falseAlarm : Bool) :
    machine.Safe (handlePOLLERR j falseAlarm) := by
  unfold handlePOLLERR
  refine Abstraction.safe_ite (fun _ => safe_of_calm Abstraction.safe_pure) fun _ => ?_
  refine (sim_of_calm (sim_derefSlot j)).bind fun c => ?_
  refine (sim_of_calm (sim_readConn c)).bind fun conn => ?_
  refine Abstraction.Sim.pre (P := fun w => w.session.live c) ?_ fun _ _ pre => pre.2
  have killed : machine.Sim (fun w => w.session.live c) (jpolldConnKill c .pollErr)
      (fun _ _ => True) := sim_jpolldConnKill c (by simp)
  refine Abstraction.sim_ite (fun _ => ?_) fun _ => killed
  cases conn.user with
  | none => exact killed
  | some u =>
    refine (sim_of_calm ((silent_getUser u).sim fun s => s.live c)).bind fun user => ?_
    refine Abstraction.sim_ite (fun _ => ?_) fun _ => killed
    exact (sim_of_calm ((silent_exitApp 0).sim fun s => s.live c)).bind fun _ => killed

theorem safe_handlePOLLOUT (j : Nat) : machine.Safe (handlePOLLOUT j) := by
  unfold handlePOLLOUT
  refine (sim_of_calm (sim_derefSlot j)).bind fun c => ?_
  refine (sim_of_calm (sim_readConn c)).bind fun conn => ?_
  refine Abstraction.Sim.pre (P := fun w => w.session.live c) ?_ fun _ _ pre => pre.2
  exact Abstraction.sim_ite (fun _ => sim_of_calm (sim_connected c)) fun _ =>
    sim_jpolldConnWrite_ c

/-- The connection that is read stays alive while its bytes are parsed. -/
theorem safe_handlePOLLIN (j : Nat) (input : ReadResult) :
    calmMachine.Safe (handlePOLLIN j input) := by
  unfold handlePOLLIN
  refine (sim_derefSlot j).bind fun c => (sim_readConn c).bind fun conn => ?_
  refine Abstraction.Sim.pre (P := fun w => w.session.live c) ?_ fun _ _ pre => pre.2
  refine Abstraction.sim_ite (fun _ => sim_connected c) fun _ => ?_
  refine Abstraction.sim_ite (fun _ => (safe_userFinishConn _).sim) fun _ => ?_
  have stays := fun call => ((sim_jpolldConnNode c call).stable (K := fun s => s.live c)
    Session.live_calm).conseq (fun _ _ live => ⟨live, live⟩) fun _ _ _ post => post.2
  refine (Abstraction.sim_forM fun call _ => stays call).bind_safe fun _ => ?_
  refine Abstraction.Safe.bind ?_ fun c => (silent_readConn c).safe.bind fun _ =>
    Abstraction.safe_pure
  exact (sim_derefSlot j).post fun _ _ _ _ => trivial

theorem safe_serveSlot (j : Nat) (revents : Revents) : machine.Safe (serveSlot j revents) := by
  unfold serveSlot
  refine (safe_of_calm Abstraction.silent_get.safe).bind fun w => ?_
  refine Abstraction.safe_ite (fun _ => ?_) fun _ => safe_of_calm Abstraction.safe_pure
  cases revents with
  | err falseAlarm => exact safe_handlePOLLERR j falseAlarm
  | pollout =>
    exact Abstraction.safe_ite (fun _ => safe_handlePOLLOUT j) fun _ =>
      safe_of_calm Abstraction.safe_pure
  | pollin input =>
    exact Abstraction.safe_ite (fun _ => safe_of_calm (safe_handlePOLLIN j input)) fun _ =>
      safe_of_calm Abstraction.safe_pure

theorem safe_step (i : Input) : machine.Safe (step i) := by
  unfold step
  cases i with
  | slot j revents => exact safe_serveSlot j revents
  | job u curtime =>
    refine (safe_of_calm Abstraction.silent_get.safe).bind fun w => ?_
    exact Abstraction.safe_ite (fun _ => safe_userDoYourJob u curtime) fun _ =>
      safe_of_calm Abstraction.safe_pure
  | stat => exact safe_of_calm safe_statPrintf
  | killConn c =>
    intro w inv _
    simp only [bind_apply, get_apply]
    split
    · exact sim_jpolldConnKill c (by simp) w inv ‹_›
    · exact ⟨.refl, trivial⟩
  | killUser u => exact safe_userConnKill u (by simp)

end Sockets

section Runs

/-- The first states of the session machine. -/
structure Session.Initial (s : Session) : Prop where
  thread : s.thread = threadInit
  dead : ∀ c, ¬s.live c
  users : ∀ u, s.users u = ⟨none, .canLogin, false, false, 0, false, 0⟩
  created : s.created = 0
  killed : s.killed = 0
  trace : s.trace = []

theorem World.Initial.session {w : World} (initial : w.Initial) : w.session.Initial := by
  refine ⟨initial.thread, fun c => ?_, fun u => ?_, initial.created, initial.killed, initial.trace⟩
  · rw [live_session, initial.heap c]
    simp
  · have fresh := initial.users u
    rw [users_session, UserProperities.party, fresh.conn, fresh.state, fresh.streamOpened,
      fresh.rosterHash, fresh.rosterCount, fresh.privLoaded, fresh.tmpid]
    rfl

/-- The first ten slots are free. -/
theorem npfd_threadInit : threadInit.npfd = List.range' 2 10 := rfl

theorem slotInv_initial {s : Session} (thread : s.thread = threadInit) (dead : ∀ c, ¬s.live c) :
    s.SlotInv 11 := by
  have conns : ∀ p, s.thread.conns p = none := fun p => by
    rw [thread]
    rfl
  have free : s.thread.pool.free = List.range' 2 10 := by
    rw [thread]
    rfl
  have high : s.thread.pool.high = 1 := by
    rw [thread]
    rfl
  refine ⟨⟨by decide, ?_, fun p => ?_, fun p _ => conns p, fun p owned => ?_, ?_⟩, by decide,
    fun p c => ?_, fun p low _ reach => ?_, fun c alive => absurd alive (dead c)⟩
  · rw [free]
    exact List.nodup_range'
  · have unowned : s.thread.pool.owner p = none := conns p
    rw [free, unowned, List.mem_range'_1]
    simp
    omega
  · have unowned : s.thread.pool.owner p = none := conns p
    rw [unowned] at owned
    cases owned
  · rw [high]
    decide
  · simp [conns p, dead c]
  · have mpfd : s.thread.mpfd = 1 := high
    have small : p < maxPfds := by
      unfold maxPfds at *
      omega
    rw [thread, threadInit]
    simp [small]

theorem Session.Initial.sound {s : Session} (initial : s.Initial) : s.Sound := by
  refine ⟨⟨11, slotInv_initial initial.thread initial.dead⟩, fun u c => ?_, fun c alive => absurd alive (initial.dead c),
    fun u => ?_⟩
  · simp [initial.users u, initial.dead c]
  · rw [initial.users u]
    exact ⟨fun _ => rfl, fun _ => ⟨by simp, by simp, rfl, rfl, rfl⟩⟩

/-- Every state of a run is reached by steps of the session machine. -/
theorem Reachable.run {w : World} (reach : Reachable w) :
    w.session.Sound ∧ ∃ s : Session, s.Initial ∧ ReflTransGen Session.Act s w.session := by
  induction reach with
  | init fresh => exact ⟨fresh.session.sound, _, fresh.session, .refl⟩
  | @step w w' before i env ran ih =>
    obtain ⟨sound, s, initial, steps⟩ := ih
    have outcome := safe_step i (w.withEnv env) sound trivial
    rw [ran] at outcome
    have more : ReflTransGen Session.Act w.session w'.session := outcome.1
    exact ⟨Abstraction.inv_steps (A := machine) sound more, s, initial, steps.trans more⟩

theorem Reachable.sound {w : World} (reach : Reachable w) : w.session.Sound := reach.run.1

/-- What holds at first and is kept by every step of the machine holds in every
state of a run. -/
theorem Reachable.induct {w : World} (reach : Reachable w) {K : Session → Prop}
    (first : ∀ s : Session, s.Initial → K s)
    (keeps : ∀ {s t : Session}, s.Sound → Session.Act s t → K s → K t) : K w.session := by
  obtain ⟨_, s, initial, steps⟩ := reach.run
  exact Abstraction.steps_keep (A := machine) keeps initial.sound steps (first s initial)

end Runs

section Plays

/-- A run as a function of its inputs. -/
def World.play : List (Input × Env) → World → Option World
  | [], w => some w
  | (i, env) :: script, w =>
      match step i (w.withEnv env) with
      | .ok _ w' => w'.play script
      | .error _ _ => none

theorem reachable_play {w w' : World} (reach : Reachable w) (script : List (Input × Env))
    (played : w.play script = some w') : Reachable w' := by
  induction script generalizing w with
  | nil =>
    cases played
    exact reach
  | cons move script ih =>
    obtain ⟨i, env⟩ := move
    cases ran : step i (w.withEnv env) with
    | ok r t =>
      simp only [World.play, ran] at played
      exact ih (reach.step i env ran) played
    | error e t =>
      simp only [World.play, ran] at played
      cases played

/-- The state that a script leads to. -/
def World.played (w : World) (script : List (Input × Env)) : World := (w.play script).getD w

theorem reachable_played {w : World} (reach : Reachable w) (script : List (Input × Env)) :
    Reachable (w.played script) := by
  unfold World.played
  cases played : w.play script with
  | none => exact reach
  | some w' => exact reachable_play reach script played

/-- One user with a list of events, to be run. -/
def plainUser (events : List EventRepeater) : UserProperities :=
  { idUser := cstr "ala"
    idServer := cstr "host"
    idResource := none
    passwd := cstr "kot"
    sid := none
    ssl := false
    connectionTimeout := 15000
    loginTimeout := 400000
    conn := none
    state := .canLogin
    eventsQueue := events
    soonerActivationTm := 0
    flags := ⟨false, false, false⟩
    digestAuth := false
    streamOpened := false
    receivedMsgsTimeSum := 0
    receivedMsgsCount := 0
    receivedPresencesCount := 0
    sentPresencesCount := 0
    lastRosterCount := -1
    rosterCount := 0
    rosterHash := none
    privRost := ⟨[], 0, [], none, false⟩
    tmpid := 0
    status := some (cstr "Online")
    showText := none }

/-- A system that connects at once and takes every packet whole. -/
def plainEnv : Env :=
  ⟨fun _ => 0, fun _ => 0, fun _ => .connected 5, fun _ => false, fun _ => ⟨1000, false, false⟩,
    fun _ => none⟩

def plainWorld (events : List EventRepeater) : World :=
  { thread := threadInit
    heap := fun _ => ⟨⟨0, .unknown, .error, [], 0, none, [], false⟩, false⟩
    nextConn := 0
    users := fun _ => plainUser events
    usersCount := 1
    userNamesSpace := fun _ => ⟨cstr "ala", cstr "host", true⟩
    rosterItems := fun _ => ⟨⟨[], [], 0, none, false⟩, false⟩
    nextPtr := 0
    globals := ⟨0, 0, 0, 0, 0, 0, 0, 0, 0, 0, 0, 0, 0, 0, 0, 0, 0, 0, 0, true, -1,
      fun _ => initStat 100⟩
    sha := id
    env := plainEnv
    trace := []
    staleReads := [] }

theorem plainWorld_initial (events : List EventRepeater) : (plainWorld events).Initial :=
  ⟨rfl, fun _ => rfl, fun _ => ⟨rfl, rfl, rfl, rfl, rfl, rfl, rfl, rfl, rfl, rfl⟩, rfl, rfl, rfl, rfl, rfl⟩

/-- An event that happens as soon as the user is able to. -/
def promptEvent (h : EventHandler) (counter : Int) (userState : Option UserState)
    (arg : Option XmlNode) : EventRepeater :=
  ⟨1, -1, some h, counter, userState, arg⟩

def connectEvent : EventRepeater := promptEvent .evConnect (-1) (some .canLogin) none

/-- The server sends to the first connection. -/
def hears (calls : List XstreamCall) : Input × Env :=
  (.slot 2 (.pollin ⟨1, false, calls⟩), plainEnv)

def streamRoot : XstreamCall := .root (.tag (cstr "stream:stream") [(cstr "id", cstr "7")] [])

def resultFor (id : CString) (children : List XmlNode) : XmlNode :=
  .tag (cstr "iq") [(cstr "type", cstr "result"), (cstr "id", id)] children

/-- The first user connects, sees the stream open and asks to log in. -/
def loginScript : List (Input × Env) :=
  [(.job 0 5, plainEnv), hears [streamRoot], (.job 0 6, plainEnv)]

end Plays

end JabSimul
