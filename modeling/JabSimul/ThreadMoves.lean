import JabSimul.HandlerMoves

/-!
Events, jobs and socket events are chains of moves. What holds at first, survives
a change of the system's answers and is kept by every move holds in every state
of a run.
-/
namespace JabSimul

open Simulation Relation

section Logout

variable {S : Concern → Prop} (u : UserPtr)

/-- The user says goodbye on its connection. -/
theorem safe_goodbye (close : S .close) :
    (moves S).Safe (do
      let _ ← jpolldConnWriteStr (← getUser u).conn (some closingTag) true
      userFinishConn (some u) : M Unit) := by
  intro w _ _
  simp only [bind_apply, getUser_apply]
  cases owner : (w.users u).conn with
  | none =>
    have nothing : jpolldConnWriteStr none (some closingTag) true w = .ok (-1) w := rfl
    simp only [nothing, userFinishConn, bind_apply, getUser_apply, owner]
    exact ⟨.refl, trivial⟩
  | some c =>
    have ran : userFinishConn (some u) (w.acceptPacket c (some closingTag)) =
        .ok ⟨⟩ ((w.acceptPacket c (some closingTag)).closeConn c) := by
      simp only [userFinishConn, bind_apply, getUser_apply, acceptPacket_users, owner,
        readConn_apply, emit_apply, modConn_apply]
      rfl
    simp only [jpolldConnWriteStr_forced, ran]
    exact ⟨.single ⟨.close, close, .logout owner⟩, trivial⟩

/-- What the private contacts are saved as is an `iq`. -/
theorem sim_privRosterList2xml (books : S .books) :
    (moves S).Sim (fun _ => True) (privRosterList2xml u)
      (fun r _ => ∀ x, r = some x → x.name = some (cstr "iq")) := by
  intro w _ _
  simp only [privRosterList2xml, queryWpmsgSetHeader, bind_apply, makeJcomId_apply, pure_apply,
    getUser_apply]
  have drawn : (moves S).Step w (w.drawId u) := ⟨.books, books, .draw u⟩
  split
  · exact ⟨.single drawn, nofun⟩
  · cases ((w.drawId u).users u).privRost.gall with
    | none =>
      change (moves S).Allowed .crash
      simp [moves]
    | some gall =>
      refine ⟨.single drawn, ?_⟩
      rintro x ⟨⟩
      rfl

theorem sim_privRosterNumextcontacts2xml (books : S .books) :
    (moves S).Sim (fun _ => True) (privRosterNumextcontacts2xml u)
      (fun r _ => ∀ x, r = some x → x.name = some (cstr "iq")) := by
  intro w _ _
  simp only [privRosterNumextcontacts2xml, queryWpmsgSetHeader, bind_apply, makeJcomId_apply,
    pure_apply, getUser_apply]
  have drawn : (moves S).Step w (w.drawId u) := ⟨.books, books, .draw u⟩
  split
  · exact ⟨.single drawn, nofun⟩
  · refine ⟨.single drawn, ?_⟩
    rintro x ⟨⟩
    rfl

/-- An `iq`, or a missing one, which is not survived by a user with a connection. -/
theorem safe_writeIq (talk : S .talk) {β : Type} {rest : Int → M β} {x : Option XmlNode}
    (named : ∀ y, x = some y → y.name = some (cstr "iq")) (force : Bool)
    (next : ∀ ret, (moves S).Safe (rest ret)) :
    (moves S).Safe (getUser u >>= fun user => jpolldConnWrite user.conn x force >>= rest) := by
  apply (sim_getUser_moves u).bind
  intro user
  refine Abstraction.Sim.bind_safe (Q := fun _ _ => True) ?_ next
  cases x with
  | some y =>
    exact (sim_write talk ⟨'i', _, rfl, by decide⟩ user.conn (named y rfl) force).pre
      fun _ _ pre => pre.2
  | none =>
    cases user.conn with
    | none => exact Abstraction.safe_pure.sim
    | some c => exact silent_crash_moves.safe.sim

theorem safe_evLogout_moves (books : S .books) (talk : S .talk) (close : S .close) :
    (moves S).Safe (evLogout u) := by
  have closed := safe_goodbye u close
  unfold evLogout
  apply (silent_getUser_moves u).safe.bind
  intro user
  apply Abstraction.safe_ite _ fun _ => closed
  intro _
  apply Abstraction.Safe.bind (safe_of_move books _ (fun _ => rfl) fun _ => .version u fun n => n + 1)
  intro _
  apply (sim_privRosterList2xml u books).bind
  intro iqList
  refine Abstraction.sim_of_pre (fun _ _ named => named) fun named => Abstraction.Safe.sim ?_
  apply (sim_privRosterNumextcontacts2xml u books).bind
  intro iqNum
  refine Abstraction.sim_of_pre (fun _ _ named => named) fun named' => Abstraction.Safe.sim ?_
  apply safe_writeIq u talk named
  intro _
  apply safe_writeIq u talk named'
  exact fun _ => closed

end Logout

section Events

variable {S : Concern → Prop} (u : UserPtr)

/-- A user with a roster has a connection. -/
theorem sim_getUser_roster_moves :
    (moves S).Sim (fun _ => True) (getUser u)
      (fun user w => user.rosterHash.isSome → ∃ c, w.session.Owns u c) := by
  intro w inv _
  refine ⟨.refl, fun some' => ?_⟩
  cases owner : (w.users u).conn with
  | some c => exact ⟨c, owner⟩
  | none =>
    obtain ⟨_, _, _, noRoster, _⟩ := (inv.party u).idle owner
    change (w.users u).rosterHash.isSome = false at noRoster
    rw [some'] at noRoster
    cases noRoster

variable (books : S .books) (talk : S .talk)
include books talk

theorem safe_evSendMessage_moves (arg : Option XmlNode) : (moves S).Safe (evSendMessage arg u) := by
  unfold evSendMessage
  cases xmlnodeGetTag arg (cstr "user") with
  | none => exact Abstraction.safe_pure
  | some userNode =>
    apply (safe_makeUserNameDefinedInXml u books 2000 _).bind
    intro jidFull
    cases jidFull with
    | none => exact Abstraction.safe_pure
    | some jidFull =>
      apply (safe_makeBytesDefinedInXml u books _ _).bind
      intro message
      apply (safe_userDoSendMessage_moves talk books u _ _).bind
      intro ret
      apply Abstraction.safe_ite _ fun _ => Abstraction.safe_pure
      exact fun _ => safe_count books (by exact fun _ => rfl)

theorem sim_evSendRawBytes_moves (arg : Option XmlNode) (raw : S (.raw u arg)) :
    (moves S).Sim (fun w => w.Announced u) (evSendRawBytes arg u) (fun _ _ => True) := by
  have made : (moves S).Sim (fun w => w.Announced u) (makeBytesDefinedInXml u arg none)
      (fun bytes w => RawBytes w.env.files u arg bytes ∧ w.Announced u) := by
    intro w inv announced
    have kept : ∀ v v', (v.env.files = w.env.files) → (∃ k, S k ∧ Move k v v') →
        v'.env.files = w.env.files := by
      rintro v v' holds ⟨k, -, move⟩
      exact move.files.trans holds
    have files := Stable.keep (K := fun v => v.env.files = w.env.files)
      (fun v v' _ move holds => kept v v' holds move)
      (safe_makeBytesDefinedInXml u books arg none) w inv rfl
    cases ran : makeBytesDefinedInXml u arg none w with
    | error e w' =>
      rw [ran] at files
      exact files
    | ok bytes w' =>
      rw [ran] at files
      have unseen := silent_makeBytesDefinedInXml u arg none w
      rw [ran] at unseen
      have same : w'.session = w.session := unseen
      refine ⟨files.1, ⟨w, w', files.2.symm, ran⟩, fun idle => ?_⟩
      have idle : (w'.session.users u).conn = none := idle
      rw [same] at idle
      obtain ⟨rest, last⟩ := announced idle
      exact ⟨rest, (congrArg Session.trace same).trans last⟩
  unfold evSendRawBytes
  apply made.bind
  intro bytes
  apply (sim_userDoSendRawBytes talk raw).bind
  exact fun _ w _ announced => ⟨.single ⟨_, raw, .rawKill announced⟩, trivial⟩

theorem safe_evChangeStatus_moves (arg : Option XmlNode) :
    (moves S).Safe (evChangeStatus arg u) := by
  have changed : ∀ status showText, (moves S).Safe (do
      modUser u fun user => { user with status := status, showText := showText }
      let ret ← userDoPresence u none none status showText
      if ret = 0 then
        modGlobals fun g => { g with evChangeStatusCount := g.evChangeStatusCount + 1 } : M Unit) := by
    intro status showText
    apply (safe_modUser u books (by exact fun _ => rfl)).bind
    intro _
    apply (safe_userDoPresence_moves talk books u _ _ _ _).bind
    intro ret
    apply Abstraction.safe_ite _ fun _ => Abstraction.safe_pure
    exact fun _ => safe_count books (by exact fun _ => rfl)
  unfold evChangeStatus
  apply Abstraction.safe_ite
  · intro _
    exact Abstraction.safe_pure.bind fun _ => changed _ _
  · intro _
    apply (safe_random books).bind
    intro _
    exact Abstraction.safe_pure.bind fun _ => changed _ _

omit books in
theorem sim_adddel_moves {β : Type} {c : ConnPtr} {rest : Int → M β} (curtime : Int)
    (jid : CString) (name : Option CString) (del : Bool)
    (next : ∀ ret, (moves S).Safe (rest ret)) :
    (moves S).Sim (fun w => w.session.Owns u c)
      (userDoAdddelRosterItem u curtime jid name del >>= rest) (fun _ _ => True) :=
  (sim_userDoAdddelRosterItem_moves talk curtime jid name del).bind_safe next

theorem safe_evAddRoster_moves (arg : Option XmlNode) (curtime : Int) (calm : ¬S .life) :
    (moves S).Safe (evAddRoster arg u curtime) := by
  unfold evAddRoster
  apply (sim_getUser_roster_moves u).bind
  intro user
  cases user.rosterHash with
  | none => exact Abstraction.safe_pure.sim
  | some hash =>
    refine Abstraction.Sim.pre (Abstraction.sim_exists fun c => ?_) fun _ _ pre => pre rfl
    have kept := stable_owns (S := S) u c calm
    apply (Stable.keep kept (silent_getUser_moves u).safe).bind
    intro user
    apply Abstraction.sim_ite fun _ => Abstraction.safe_pure.sim
    intro _
    cases xmlnodeGetTag arg (cstr "user") with
    | none => exact Abstraction.safe_pure.sim
    | some userNode =>
      apply (Stable.keep kept (safe_makeUserNameDefinedInXml u books 2000 _)).bind
      intro jidFull
      cases jidFull with
      | none => exact Abstraction.safe_pure.sim
      | some jidFull =>
        apply (Stable.keep kept silent_get_moves.safe).bind
        intro w
        apply Abstraction.sim_ite _ fun _ => Abstraction.safe_pure.sim
        intro _
        apply sim_adddel_moves u talk curtime
        intro ret
        apply Abstraction.safe_ite _ fun _ => Abstraction.safe_pure
        intro _
        apply Abstraction.Safe.bind (safe_count books (by exact fun _ => rfl))
        intro _
        apply (silent_getUser_moves u).safe.bind
        intro user
        exact (safe_userDoPresence_moves talk books u _ _ _ _).bind fun _ => Abstraction.safe_pure

theorem safe_evDelRoster_moves (curtime : Int) (calm : ¬S .life) :
    (moves S).Safe (evDelRoster u curtime) := by
  unfold evDelRoster
  apply (sim_getUser_roster_moves u).bind
  intro user
  apply Abstraction.sim_ite _ fun _ => Abstraction.safe_pure.sim
  intro some'
  refine Abstraction.Sim.pre (Abstraction.sim_exists fun c => ?_) fun _ _ pre => pre some'.1
  have kept := stable_owns (S := S) u c calm
  apply (Stable.keep kept (safe_random books)).bind
  intro _
  apply (Stable.keep kept (silent_rosterNthJid_moves u _).safe).bind
  intro jid
  apply sim_adddel_moves u talk curtime
  intro ret
  apply Abstraction.safe_ite _ fun _ => Abstraction.safe_pure
  exact fun _ => safe_count books (by exact fun _ => rfl)

end Events

theorem opens_streamOpen (server : CString) : Opens (apSnprintf 300 (streamOpen server)) :=
  opens_apSnprintf (by decide) ⟨'s', _, rfl, by decide⟩

section Life

variable {S : Concern → Prop} (u : UserPtr) (books : S .books) (life : S .life)
include life

theorem sim_jpolldConnKill_moves (c : ConnPtr) {site : KillSite} (notDrained : site ≠ .writeDrained) :
    (moves S).Sim (fun w => w.session.live c) (jpolldConnKill c site) (fun _ _ => True) := by
  intro w _ live
  rcases jpolldConnKill_apply w c site with ⟨_, run⟩ | ⟨_, u, _, run⟩
  · rw [run]
    exact ⟨.single ⟨.life, life, .kill site live notDrained⟩, trivial⟩
  · rw [run]
    simp [Abstraction.Outcome, moves]

theorem safe_userConnKill_moves {site : KillSite} (notDrained : site ≠ .writeDrained) :
    (moves S).Safe (userConnKill u site) := by
  intro w _ _
  rw [userConnKill_apply, userConnReset_apply]
  split
  · simp [Abstraction.Outcome, moves]
  · exact ⟨.single ⟨.life, life, .userKill site notDrained⟩, trivial⟩

include books

theorem sim_userConnect_moves (talk : S .talk) :
    (moves S).Sim (fun w => (w.users u).conn = none) (userConnect u) (fun _ _ => True) := by
  intro w inv idle
  rcases userConnect_apply w u with ⟨env, later, run⟩ | ⟨e, w', stop, run⟩ |
    ⟨loc, next, sstate, fd, ssl, env, later, slot, run⟩
  · rw [run]
    exact ⟨.single ⟨.books, books, .env env later⟩, trivial⟩
  · rw [run]
    rcases stop with rfl | ⟨_, rfl⟩ <;> simp [Abstraction.Outcome, moves]
  have refilled : ReflTransGen (moves S).Step w w.refillSlots := by
    by_cases empty : w.thread.npfd = []
    · exact .single ⟨.life, life, .refill empty⟩
    · rw [World.refillSlots, if_neg empty]
  obtain ⟨npfd, trace, kept⟩ := refillSlots_kept w
  have users : w.refillSlots.users = w.users := by rw [kept]
  have env' : w.refillSlots.env = w.env := by rw [kept]
  have nextConn : w.refillSlots.nextConn = w.nextConn := by rw [kept]
  have connected := Move.connect (w := w.refillSlots) (u := u) sstate fd (w.env.clock 0) ssl
    (by rw [users]; exact idle) slot ⟨0, by rw [env']⟩
  have asked : Move .books (w.refillSlots.connectUser u loc next sstate fd (w.env.clock 0) ssl) _ :=
    .env env (by
      change w.refillSlots.env.Later env
      rw [env']
      exact later)
  have greeted : Move .talk ((w.refillSlots.connectUser u loc next sstate fd (w.env.clock 0)
      ssl).withEnv env) (((w.refillSlots.connectUser u loc next sstate fd (w.env.clock 0)
        ssl).withEnv env).acceptPacket w.nextConn
          (some (apSnprintf 300 (streamOpen (w.users u).idServer)))) := by
    refine .write ?_ (opens_streamOpen (w.users u).idServer)
    rw [session_withEnv, session_connectUser]
    simp [Session.connect, Session.live, World.session, nextConn]
  rw [run]
  exact ⟨((refilled.tail ⟨_, life, connected⟩).tail ⟨_, books, asked⟩).tail ⟨_, talk, greeted⟩,
    trivial⟩

theorem safe_evConnect_moves (talk : S .talk) (arg : Option XmlNode) :
    (moves S).Safe (evConnect arg u) := by
  intro w inv _
  rw [evConnect, bind_apply, getUser_apply]
  dsimp only
  split
  · rename_i idle
    have idle : ((w.updUser u fun user =>
        { user with digestAuth := (xmlnodeGetTag arg (cstr "digest")).isSome }).users u).conn =
        none := by
      rw [updUser_users_self]
      simpa using idle
    have move := Move.user (w := w) u (fun user =>
      { user with digestAuth := (xmlnodeGetTag arg (cstr "digest")).isSome }) fun _ => rfl
    have rest : (moves S).Sim (fun w => (w.users u).conn = none)
        (do
          let _ ← userConnect u
          modGlobals fun g => { g with evConnectCount := g.evConnectCount + 1 } : M Unit)
        (fun _ _ => True) :=
      (sim_userConnect_moves u books life talk).bind_safe fun _ =>
        safe_count books (by exact fun _ => rfl)
    exact (rest _ ((moves S).inv_step (s := w) inv ⟨_, books, move⟩) idle).after
      (.single ⟨_, books, move⟩)
  · exact ⟨.refl, trivial⟩

theorem safe_evKillConnection_moves (talk : S .talk) : (moves S).Safe (evKillConnection u) := by
  unfold evKillConnection
  apply (sim_getUser_moves u).bind
  intro user
  apply Abstraction.sim_ite _ fun _ => Abstraction.safe_pure.sim
  intro up
  obtain ⟨c, owner⟩ := Option.isSome_iff_exists.mp up
  have mine : (moves S).Sim (fun w => user = w.users u ∧ w.session.Lives user.conn) (expectKill u)
      (fun _ _ => True) :=
    (sim_expectKill_moves talk u c).pre fun w _ pre => show (w.users u).conn = some c by
      rw [← pre.1, owner]
  apply mine.bind_safe
  intro _
  apply (safe_userConnKill_moves u life (by simp)).bind
  exact fun _ => safe_count books (by exact fun _ => rfl)

end Life

section Scheduler

variable {S : Concern → Prop} (u : UserPtr) (now : Int)

/-- The event sends raw bytes when the scan at `now` comes to it. -/
def EventRepeater.SendsRaw (er : EventRepeater) (now : Int) : Prop :=
  er.eventHandler = some .evSendRawBytes ∧ er.activationTm ≠ 0 ∧ er.activationTm ≤ now ∧
    er.counter ≠ 0

/-- What a user does of its own accord. -/
def speaking (k : Concern) : Prop := k = .books ∨ k = .talk

theorem not_speaking_life : ¬speaking .life := by simp [speaking]

section Events

variable (books : S .books) (talk : S .talk) (close : S .close) (life : S .life)
include books talk close life

theorem sim_runEvent_moves (h : EventHandler) (arg : Option XmlNode)
    (raw : h = .evSendRawBytes → S (.raw u arg)) :
    (moves S).Sim (fun w => h = .evSendRawBytes → w.Announced u) (runEvent h arg u now)
      (fun _ _ => True) := by
  have wider : ∀ k, speaking k → S k := by
    rintro k (rfl | rfl)
    · exact books
    · exact talk
  cases h with
  | evChangeStatus => exact (safe_evChangeStatus_moves u books talk arg).sim
  | evSendMessage => exact (safe_evSendMessage_moves u books talk arg).sim
  | evSendRawBytes =>
    exact (sim_evSendRawBytes_moves u books talk arg (raw rfl)).pre fun _ _ pre => pre rfl
  | evAddRoster =>
    exact (safe_widen wider (safe_evAddRoster_moves u (.inl rfl) (.inr rfl) arg now
      not_speaking_life)).sim
  | evDelRoster =>
    exact (safe_widen wider (safe_evDelRoster_moves u (.inl rfl) (.inr rfl) now
      not_speaking_life)).sim
  | evConnect => exact (safe_evConnect_moves u books life talk arg).sim
  | evKillConnection => exact (safe_evKillConnection_moves u books life talk).sim
  | evLogout => exact (safe_evLogout_moves u books talk close).sim

variable (fire : S .fire)
include fire

theorem safe_fireRepeater_moves (er : EventRepeater)
    (raw : er.eventHandler = some .evSendRawBytes → er.counter ≠ 0 → S (.raw u er.arg)) :
    (moves S).Safe (fireRepeater u now er) := by
  unfold fireRepeater
  cases handler : er.eventHandler with
  | none => exact Abstraction.safe_pure
  | some h =>
    apply (silent_getUser_moves u).safe.bind
    intro user
    apply silent_get_moves.safe.bind
    intro w
    apply Abstraction.safe_ite _ fun _ => Abstraction.safe_pure
    rintro ⟨_, left, _⟩
    have noted : (moves S).Sim (fun _ => True) (emit (.handlerRun u h))
        (fun _ w => h = .evSendRawBytes → w.Announced u) := by
      intro w _ _
      refine ⟨.single ⟨_, fire, .fire u h⟩, ?_⟩
      rintro rfl _
      exact ⟨w.trace, rfl⟩
    have run := sim_runEvent_moves u now books talk close life h er.arg (by
      rintro rfl
      exact raw handler left)
    apply noted.bind
    intro _
    exact run.bind_safe fun _ => Abstraction.safe_pure

variable (timers : S .timers)
include timers

theorem safe_repeaterRound_moves (er : EventRepeater)
    (raw : er.SendsRaw now → S (.raw u er.arg)) : (moves S).Safe (repeaterRound u now er) := by
  have noted : ∀ er : EventRepeater, (moves S).Safe (do
      modUser u fun user =>
        if user.soonerActivationTm > er.activationTm then
          { user with soonerActivationTm := er.activationTm }
        else user
      return er : M EventRepeater) := by
    intro er w _ _
    have lowered : (fun user : UserProperities => if user.soonerActivationTm > er.activationTm then
        { user with soonerActivationTm := er.activationTm } else user) = fun user =>
          { user with soonerActivationTm := min er.activationTm user.soonerActivationTm } := by
      funext user
      split
      · rw [min_eq_left (by omega)]
      · rw [min_eq_right (by omega)]
    have move := Move.sooner (w := w) u min er.activationTm
    rw [lowered]
    exact ⟨.single ⟨_, timers, move⟩, trivial⟩
  have rearmed : (moves S).Sim (fun _ => True) (rescheduled now er) (fun er' _ =>
      er'.eventHandler = er.eventHandler ∧ er'.counter = er.counter ∧ er'.arg = er.arg) := by
    unfold rescheduled
    apply Abstraction.sim_ite
    · intro _
      exact Abstraction.Sim.bind (safe_random books) fun _ _ _ _ => ⟨.refl, rfl, rfl, rfl⟩
    · exact fun _ _ _ _ => ⟨.refl, rfl, rfl, rfl⟩
  unfold repeaterRound
  apply Abstraction.safe_ite _ fun _ => noted er
  rintro ⟨armed, due⟩
  apply rearmed.bind
  intro er'
  apply Abstraction.sim_of_pre fun _ _ same => same
  rintro ⟨handler, counter, arg⟩
  have fired := safe_fireRepeater_moves u now books talk close life fire er' fun mine left =>
    arg ▸ raw ⟨handler ▸ mine, armed, due, counter ▸ left⟩
  exact (fired.bind fun er'' => noted er'').sim

/-- The induction is on the events that are left of the queue. -/
theorem safe_repeaterScan_moves (queue : List EventRepeater)
    (raw : ∀ er ∈ queue, er.SendsRaw now → S (.raw u er.arg)) :
    (moves S).Safe (repeaterScan u now queue) := by
  induction queue with
  | nil => exact Abstraction.safe_pure
  | cons er rest ih =>
    apply (safe_repeaterRound_moves u now books talk close life fire timers er
      (raw er List.mem_cons_self)).bind
    intro er'
    apply (ih fun er member => raw er (List.mem_cons_of_mem _ member)).bind
    exact fun _ => Abstraction.safe_pure

theorem sim_userHandleRepeaterQueue_moves :
    (moves S).Sim (fun w => ∀ er ∈ (w.users u).eventsQueue, er.SendsRaw now → S (.raw u er.arg))
      (userHandleRepeaterQueue u now) (fun _ _ => True) := by
  intro w inv raw
  rw [userHandleRepeaterQueue, bind_apply, getUser_apply]
  dsimp only
  split
  · have reset := Move.sooner (w := w) u (fun tm _ => tm) never
    have sound := (moves S).inv_step (s := w) inv ⟨_, timers, reset⟩
    have scanned := (safe_repeaterScan_moves u now books talk close life fire timers
      (w.users u).eventsQueue raw).bind
        (f := fun queue => modUser u fun user => { user with eventsQueue := queue })
        fun queue w' _ _ => ⟨.single ⟨_, timers, .queue u queue⟩, trivial⟩
    exact (scanned _ sound trivial).after (.single ⟨_, timers, reset⟩)
  · exact ⟨.refl, trivial⟩

end Events

end Scheduler

section Jobs

variable {S : Concern → Prop} (u : UserPtr) (now : Int)

theorem sim_userDoLogin_moves {c : ConnPtr} (login : S .login)
    {text : World → CString → UserProperities → CString}
    (asks : ∀ w n user, Asks (text w (jcomId idBufSize n) user) (jcomId idBufSize n))
    (opens : ∀ w id user, Opens (text w id user)) :
    (moves S).Sim (fun w => w.session.Owns u c ∧ (w.users u).state = .canLogin ∧
      (w.users u).streamOpened = true) (userDoLogin text u now) (fun _ _ => True) := by
  rintro w _ ⟨owns, state, opened⟩
  rw [userDoLogin_apply now text owns]
  exact ⟨.single ⟨_, login, .login now owns state opened (opens _ _ _) (asks _ _ _)⟩, trivial⟩

theorem sim_checkTimeouts_moves (c : ConnPtr) (talk : S .talk) (close : S .close) :
    (moves S).Sim (fun w => w.session.Owns u c) (checkTimeouts u c now) (fun _ _ => True) := by
  intro w inv owner
  have live : w.session.live c := inv.live_of_conn owner
  have login : ∀ w : World, (moves S).Safe (if now - (w.heap c).conn.creationTime ≥
      (w.users u).loginTimeout * 1000 then exitIfFlagged u 0 else pure () : M Unit) := by
    intro w
    apply Abstraction.safe_ite _ fun _ => Abstraction.safe_pure
    exact fun _ => (silent_exitIfFlagged_moves u 0).safe
  -- the connection stays with its user when it is closed
  let closing : Concern → Prop := fun k => k = .close
  have shut : (moves S).Sim (fun w => w.session.Owns u c) (userFinishConn (some u))
      (fun _ w => w.session.Owns u c) := by
    have kept := stable_owns (S := closing) u c (by simp [closing])
    apply sim_widen (S := closing)
    · rintro k rfl
      exact close
    · exact Stable.keep kept (safe_userFinishConn_moves (S := closing) rfl _)
  have closed : (moves S).Sim (fun w => w.session.Owns u c) (do
      userFinishConn (some u)
      expectKill u
      exitIfFlagged u 0
      if now - (w.heap c).conn.creationTime ≥ (w.users u).loginTimeout * 1000 then
        exitIfFlagged u 0 : M Unit) (fun _ _ => True) := by
    apply shut.bind
    intro _
    apply Abstraction.Sim.bind_safe (sim_expectKill_moves talk u c)
    intro _
    exact (silent_exitIfFlagged_moves u 0).safe.bind fun _ => login w
  simp only [checkTimeouts, bind_apply, getUser_apply, readConn_apply, touch_of_live live]
  split
  · split
    · exact closed w inv owner
    · exact login w w inv trivial
  · exact login w w inv trivial

/-- The part of the job before the events. The cases are the states of the user. -/
theorem sim_userDoYourJob_moves (books : S .books) (talk : S .talk) (close : S .close)
    (login : S .login) (life : S .life) (fire : S .fire) (timers : S .timers) :
    (moves S).Sim (fun w => ∀ er ∈ (w.users u).eventsQueue, er.SendsRaw now → S (.raw u er.arg))
      (userDoYourJob u now) (fun _ _ => True) := by
  have queue := sim_userHandleRepeaterQueue_moves u now books talk close life fire timers
  -- what comes before the events does not touch them
  let early : Concern → Prop := fun k => S k ∧ k ≠ .timers
  have kept : Stable early fun w =>
      ∀ er ∈ (w.users u).eventsQueue, er.SendsRaw now → S (.raw u er.arg) := by
    rintro w w' _ ⟨k, mine, move⟩ raw
    have same : (w'.users u).eventsQueue = (w.users u).eventsQueue :=
      congrArg Setup.eventsQueue ((move.sameSetup mine.2).setup u)
    rwa [same]
  have first : ∀ {α : Type} {m : M α} {P : World → Prop} {Q : α → World → Prop},
      (moves early).Sim P m Q → (moves S).Sim (fun w => P w ∧ ∀ er ∈ (w.users u).eventsQueue,
        er.SendsRaw now → S (.raw u er.arg)) (m >>= fun _ => userHandleRepeaterQueue u now)
        (fun _ _ => True) := by
    intro α m P Q sim
    have stays := Abstraction.Sim.stable (A := moves early) (fun inv step holds =>
      kept _ _ inv step holds) sim
    apply (sim_widen (fun _ mine => mine.1) stays).bind
    exact fun _ => queue.pre fun _ _ pre => pre.2
  intro w inv raw
  rw [userDoYourJob, bind_apply, getUser_apply]
  dsimp only
  cases state : (w.users u).state with
  | disabled => exact ⟨.refl, trivial⟩
  | canLogin =>
    dsimp only
    split
    · rename_i opened
      obtain ⟨c, owner⟩ := Option.isSome_iff_exists.mp opened.1
      have mine : early .login := ⟨login, by simp⟩
      have digest := first (sim_userDoLogin_moves (c := c) u now mine
        (fun w _ user => asks_loginDigest w.sha user) fun _ _ _ => opens_loginText _ _ _ _ _)
      have plain := first (sim_userDoLogin_moves (c := c) u now mine
        (fun _ _ user => asks_loginPlain user) fun _ _ _ => opens_apSnprintf (by decide)
          (opens_loginText _ _ _ _ _))
      split
      · exact digest w inv ⟨⟨owner, state, opened.2⟩, raw⟩
      · exact plain w inv ⟨⟨owner, state, opened.2⟩, raw⟩
    · exact queue w inv raw
  | isLogging =>
    dsimp only
    cases owner : (w.users u).conn with
    | none => exact queue w inv raw
    | some c =>
      exact first (sim_checkTimeouts_moves u now c ⟨talk, by simp⟩ ⟨close, by simp⟩) w inv
        ⟨owner, raw⟩
  | loggedIn =>
    dsimp only
    split
    · rename_i lost
      have idle : (w.users u).conn = none := by simpa using lost
      exact absurd state ((inv.party u).idle idle).2.1
    · exact queue w inv raw

end Jobs

section Sockets

variable {S : Concern → Prop}

theorem sim_derefSlot_moves (j : Nat) :
    (moves S).Sim (fun _ => True) (derefSlot j) (fun c w => w.session.live c) := by
  intro w inv _
  obtain ⟨issued, slots⟩ := inv.slots
  simp only [derefSlot, bind_apply, get_apply]
  cases slot : w.thread.conns j with
  | none =>
    change (moves S).Allowed .crash
    simp [moves]
  | some c => exact ⟨.refl, ((slots.home j c).mp slot).1⟩

theorem sim_readConn_moves (c : ConnPtr) :
    (moves S).Sim (fun w => w.session.live c) (readConn c)
      (fun conn w => conn = (w.heap c).conn ∧ w.session.live c) := by
  intro w _ live
  rw [readConn_apply, touch_of_live live]
  exact ⟨.refl, rfl, live⟩

theorem sim_connected_moves (socket : S .socket) (c : ConnPtr) :
    (moves S).Sim (fun w => w.session.live c)
      (modConn c fun conn => { conn with sstate := .connected }) (fun _ _ => True) :=
  fun _ _ live => ⟨.single ⟨_, socket, .connected live⟩, trivial⟩

section Reading

variable (hear : S .hear) (answer : S .answer) (books : S .books) (talk : S .talk)
  (close : S .close) (calm : ¬S .life)
include hear answer books talk close calm

theorem sim_jpolldConnNode_moves (c : ConnPtr) (call : XstreamCall) :
    (moves S).Sim (fun w => w.session.live c) (jpolldConnNode c call) (fun _ _ => True) := by
  intro w inv live
  rw [jpolldConnNode, bind_apply, readConn_apply, touch_of_live live]
  dsimp only
  cases call with
  | node x =>
    obtain ⟨env, later, clock⟩ := gettimeofday_apply w
    have asked : Move .books w (w.withEnv env) := .env env later
    dsimp only
    rw [bind_apply, clock]
    dsimp only
    rw [bind_apply, emit_apply]
    have heard : Move .hear (w.withEnv env) ((w.withEnv env).emit (.stanza c x)) := .stanza x live
    cases user : (w.heap c).conn.user with
    | none =>
      change (moves S).Allowed .crash
      simp [moves]
    | some u =>
      have owns : w.session.Owns u c := (inv.owner u c).mpr ⟨live, user⟩
      have sound := (moves S).inv_step (s := w) inv ⟨_, books, asked⟩
      exact (sim_handleUserNode_moves x _ answer books talk close hear calm _
        ((moves S).inv_step sound ⟨_, hear, heard⟩) ⟨owns, w.trace, rfl⟩).after
          ((ReflTransGen.single ⟨_, books, asked⟩).tail ⟨_, hear, heard⟩)
  | root x =>
    cases user : (w.heap c).conn.user with
    | none =>
      change (moves S).Allowed .crash
      simp [moves]
    | some u =>
      exact ⟨.single ⟨_, answer, .root _ ((inv.owner u c).mpr ⟨live, user⟩)⟩, trivial⟩
  | close => exact safe_userFinishConn_moves close _ w inv trivial
  | err =>
    have closed := safe_userFinishConn_moves close (w.heap c).conn.user
    exact (Abstraction.safe_joined closed fun _ => closed) w inv trivial

/-- The connection that is read stays alive while its bytes are parsed. -/
theorem safe_handlePOLLIN_moves (socket : S .socket) (j : Nat) (input : ReadResult) :
    (moves S).Safe (handlePOLLIN j input) := by
  unfold handlePOLLIN
  apply (sim_derefSlot_moves j).bind
  intro c
  apply (sim_readConn_moves c).bind
  intro conn
  refine Abstraction.Sim.pre (P := fun w => w.session.live c) ?_ fun _ _ pre => pre.2
  apply Abstraction.sim_ite fun _ => sim_connected_moves socket c
  intro _
  apply Abstraction.sim_ite fun _ => (safe_userFinishConn_moves close _).sim
  intro _
  have stays := fun call => (Abstraction.Sim.stable (A := moves S) (K := fun w => w.session.live c)
    (fun inv step holds => stable_live c calm _ _ inv step holds)
    (sim_jpolldConnNode_moves hear answer books talk close calm c call)).conseq
      (fun _ _ live => ⟨live, live⟩) fun _ _ _ post => post.2
  have after : (moves S).Safe (do
      let c ← derefSlot j
      let _ ← readConn c : M Unit) := by
    apply (sim_derefSlot_moves j).bind
    intro d
    apply (sim_readConn_moves d).bind_safe
    exact fun _ => Abstraction.safe_pure
  exact (Abstraction.sim_forM fun call _ => stays call).bind_safe fun _ => after

end Reading

section Writing

variable (books : S .books) (socket : S .socket) (life : S .life)
include books socket life

/-- The induction is on the rounds left. After a kill the queue is empty, so the
loop ends without asking for a live connection. -/
theorem sim_writeLoop_moves (fuel : Nat) (c : ConnPtr) :
    (moves S).Sim (fun w => (w.heap c).conn.writer ≠ [] → w.session.live c) (writeLoop fuel c)
      (fun _ _ => True) := by
  induction fuel with
  | zero => exact Abstraction.sim_throw (by simp [moves])
  | succ fuel ih =>
    intro w inv live
    cases queue : (w.heap c).conn.writer with
    | nil =>
      rw [writeLoop_empty fuel queue]
      exact ⟨.single ⟨_, life, .stale c⟩, trivial⟩
    | cons first next =>
      obtain ⟨bytes⟩ := first
      cases bytes with
      | none =>
        rw [writeLoop_null fuel queue]
        change (moves S).Allowed .crash
        simp [moves]
      | some text =>
        have live : w.session.live c := live (by simp [queue])
        have asked : Move .books w (w.wrote c) := by
          rw [wrote_of_live live]
          exact .env _ ⟨rfl, fun n => ⟨n, rfl⟩⟩
        by_cases failed : (w.env.writes 0).len ≤ 0
        · cases blocked : w.blocked c with
          | true =>
            rw [writeLoop_blocked fuel queue failed blocked]
            exact ⟨.single ⟨_, books, asked⟩, trivial⟩
          | false =>
            rw [writeLoop_failed fuel queue failed blocked]
            have sound := (moves S).inv_step (s := w) inv ⟨_, books, asked⟩
            have alive : (w.wrote c).session.live c := by
              rw [session_wrote]
              exact live
            exact (sim_jpolldConnKill_moves life c (by simp) _ sound alive).after
              (.single ⟨_, books, asked⟩)
        have some' : 0 < (w.env.writes 0).len := by omega
        by_cases short : (w.env.writes 0).len < text.length
        · rw [writeLoop_short fuel queue some' short]
          exact ⟨.single ⟨_, socket, .advance live queue (by omega)⟩, trivial⟩
        have whole : (text.length : Int) ≤ (w.env.writes 0).len := by omega
        by_cases stays : next ≠ [] ∨ (w.heap c).conn.state ≠ .closing
        · rw [writeLoop_more fuel queue some' whole stays]
          have pop : Move .socket w (w.popPacket c text next) := .pop live queue stays
          have sound := (moves S).inv_step (s := w) inv ⟨_, socket, pop⟩
          have alive : (w.popPacket c text next).session.live c := by
            rw [session_popPacket]
            exact (Session.live_pop _ c c text next).mpr live
          exact (ih _ sound fun _ => alive).after (.single ⟨_, socket, pop⟩)
        obtain ⟨rfl, closing⟩ : next = [] ∧ (w.heap c).conn.state = .closing := by
          simpa using stays
        rw [writeLoop_drained fuel queue some' whole closing, bind_apply]
        rcases jpolldConnKill_apply ((w.popPacket c text []).expectKillOf (w.heap c).conn.user) c
          .writeDrained with ⟨_, run⟩ | ⟨_, u, _, run⟩
        · rw [run]
          have drained : Move .life w _ := .drained live queue closing
          have sound := (moves S).inv_step (s := w) inv ⟨_, life, drained⟩
          have empty : (((((w.popPacket c text []).expectKillOf (w.heap c).conn.user).killConn c
              .writeDrained)).heap c).conn.writer = [] := by
            rw [killConn_conn]
            change ((((w.popPacket c text []).expectKillOf _).session).conn c).writer = []
            rw [session_expectKillOf, session_popPacket, Session.conn_pop]
          exact (ih _ sound fun queued => absurd empty queued).after (.single ⟨_, life, drained⟩)
        · rw [run]
          change (moves S).Allowed (.exitApp 0)
          simp [moves]

theorem sim_writePending_moves (c : ConnPtr) :
    (moves S).Sim (fun w => w.session.live c) (jpolldConnWrite_ (some c)) (fun _ _ => True) :=
  (sim_readConn_moves c).bind fun _ =>
    (sim_writeLoop_moves books socket life _ c).pre fun _ _ live _ => live.2

theorem safe_handlePOLLOUT_moves (j : Nat) : (moves S).Safe (handlePOLLOUT j) := by
  unfold handlePOLLOUT
  apply (sim_derefSlot_moves j).bind
  intro c
  apply (sim_readConn_moves c).bind
  intro conn
  refine Abstraction.Sim.pre (P := fun w => w.session.live c) ?_ fun _ _ pre => pre.2
  apply Abstraction.sim_ite
  · exact fun _ => sim_connected_moves socket c
  · exact fun _ => sim_writePending_moves books socket life c

end Writing

theorem safe_handlePOLLERR_moves (life : S .life) (j : Nat) (falseAlarm : Bool) :
    (moves S).Safe (handlePOLLERR j falseAlarm) := by
  have kill := fun c => sim_jpolldConnKill_moves (S := S) life c
    (show KillSite.pollErr ≠ _ by simp)
  unfold handlePOLLERR
  apply Abstraction.safe_ite _ _
  · exact fun _ => Abstraction.safe_pure
  intro _
  apply (sim_derefSlot_moves j).bind
  intro c
  apply (sim_readConn_moves c).bind
  intro conn
  refine Abstraction.Sim.pre (P := fun w => w.session.live c) ?_ fun _ _ pre => pre.2
  refine Abstraction.sim_ite (fun _ => ?_) fun _ => kill c
  cases conn.user with
  | none => exact kill c
  | some u =>
    apply ((silent_getUser_moves u).sim fun w => w.session.live c).bind
    intro user
    refine Abstraction.sim_ite (fun _ => ?_) fun _ => kill c
    exact (Abstraction.sim_throw (by simp [moves]) :
      (moves S).Sim _ (exitApp 0 : M Unit) (fun _ _ => False)).bind fun _ _ _ pre => pre.elim

end Sockets

section Runs

/-- Everything but timers. -/
def untimed (k : Concern) : Prop := k ≠ .timers

/-- Everything but timers and raw bytes. -/
def quiet (k : Concern) : Prop := untimed k ∧ ∀ u arg, k ≠ .raw u arg

theorem safe_serveSlot_moves (j : Nat) (revents : Revents) :
    (moves quiet).Safe (serveSlot j revents) := by
  have mine : quiet .socket ∧ quiet .life ∧ quiet .books := by simp [quiet, untimed]
  unfold serveSlot
  apply silent_get_moves.safe.bind
  intro w
  apply Abstraction.safe_ite _ fun _ => Abstraction.safe_pure
  intro _
  cases revents with
  | err falseAlarm => exact safe_handlePOLLERR_moves mine.2.1 j falseAlarm
  | pollout =>
    apply Abstraction.safe_ite _ fun _ => Abstraction.safe_pure
    exact fun _ => safe_handlePOLLOUT_moves mine.2.2 mine.1 mine.2.1 j
  | pollin input =>
    -- what is read kills and connects nobody
    have calm : (moves fun k => quiet k ∧ k ≠ .life).Safe (handlePOLLIN j input) :=
      safe_handlePOLLIN_moves (by simp [quiet, untimed]) (by simp [quiet, untimed]) (by simp [quiet, untimed])
        (by simp [quiet, untimed]) (by simp [quiet, untimed]) (by simp) (by simp [quiet, untimed])
        j input
    apply Abstraction.safe_ite _ fun _ => Abstraction.safe_pure
    exact fun _ => safe_widen (fun _ here => here.1) calm

theorem safe_statPrintf_moves : (moves quiet).Safe statPrintf := by
  unfold statPrintf
  apply silent_get_moves.safe.bind
  intro w
  apply Abstraction.safe_ite _ fun _ => Abstraction.safe_pure
  exact fun _ => safe_of_move (by simp [quiet, untimed]) _ (fun _ => rfl) fun _ => .gate

/-- The step `i` may make `u` send the raw bytes of an event with the argument `arg`. -/
def World.SendsRaw (w : World) (i : Input) (u : UserPtr) (arg : Option XmlNode) : Prop :=
  ∃ now, i = .job u now ∧ ∃ er ∈ (w.users u).eventsQueue, er.SendsRaw now ∧ er.arg = arg

/-- What the moves of a step may be about. -/
def World.concerns (w : World) (i : Input) (k : Concern) : Prop :=
  (∀ u arg, k = .raw u arg → w.SendsRaw i u arg) ∧ (k = .timers → ∃ u now, i = .job u now)

/-- Every step of the simulator is a chain of moves. -/
theorem sim_step_moves (w : World) (i : Input) :
    (moves (w.concerns i)).Sim (fun v => v = w) (step i) (fun _ _ => True) := by
  have wider : ∀ k, quiet k → w.concerns i k := fun k calm =>
    ⟨fun u arg raw => absurd raw (calm.2 u arg), fun timers => absurd timers calm.1⟩
  unfold step
  cases i with
  | slot j revents => exact (safe_widen wider (safe_serveSlot_moves j revents)).sim
  | job u curtime =>
    have mine : ∀ k, (∀ u arg, k ≠ .raw u arg) → w.concerns (.job u curtime) k := fun k calm =>
      ⟨fun u arg raw => absurd raw (calm u arg), fun _ => ⟨u, curtime, rfl⟩⟩
    have raw : ∀ v, v = w → ∀ er ∈ (v.users u).eventsQueue, er.SendsRaw curtime →
        w.concerns (.job u curtime) (.raw u er.arg) := by
      rintro v rfl er member sends
      refine ⟨?_, by simp⟩
      rintro _ _ ⟨⟩
      exact ⟨curtime, rfl, er, member, sends, rfl⟩
    apply (silent_get_moves.sim fun v => v = w).bind
    intro v
    apply Abstraction.sim_ite _ fun _ => Abstraction.safe_pure.sim
    intro _
    exact (sim_userDoYourJob_moves u curtime (mine _ (by simp)) (mine _ (by simp))
      (mine _ (by simp)) (mine _ (by simp)) (mine _ (by simp)) (mine _ (by simp))
      (mine _ (by simp))).pre fun v _ same => raw v same
  | stat => exact (safe_widen wider safe_statPrintf_moves).sim
  | killConn c =>
    intro w inv _
    simp only [bind_apply, get_apply]
    split
    · rename_i live
      exact sim_jpolldConnKill_moves (wider _ (by simp [quiet, untimed])) c (by simp) w inv live
    · exact ⟨.refl, trivial⟩
  | killUser u =>
    exact (safe_userConnKill_moves u (wider _ (by simp [quiet, untimed])) (by simp)).sim

/-- What every move of a step keeps is kept by the step. The files are the same
during a step. -/
theorem step_keeps {K : World → Prop} {i : Input} {w w' : World} (sound : w.session.Sound)
    (keeps : ∀ {k v v'}, v.session.Sound → v.env.files = w.env.files → w.concerns i k →
      Move k v v' → K v → K v')
    (holds : K w) (ran : step i w = .ok ⟨⟩ w') : K w' := by
  have outcome := sim_step_moves w i w sound rfl
  rw [ran] at outcome
  have both := Abstraction.steps_keep (A := moves (w.concerns i))
    (K := fun v => K v ∧ v.env.files = w.env.files)
    (fun inv ⟨k, mine, move⟩ ⟨holds, files⟩ =>
      ⟨keeps inv files mine move holds, move.files.trans files⟩) sound outcome.1 ⟨holds, rfl⟩
  exact both.1

/-- What holds at first, and is kept by every move and whatever the environment
answers, holds in every state of a run. -/
theorem Reachable.invariant {w : World} (reach : Reachable w) {K : World → Prop}
    (first : ∀ {w : World}, w.Initial → K w) (answers : ∀ {w : World} env, K w → K (w.withEnv env))
    (keeps : ∀ {k w w'}, w.session.Sound → Move k w w' → K w → K w') : K w := by
  induction reach with
  | init fresh => exact first fresh
  | @step w _ before i env ran ih =>
    have sound : (w.withEnv env).session.Sound := before.sound
    exact step_keeps sound (fun inv _ _ move holds => keeps inv move holds) (answers env ih) ran

/-- The states of the runs whose steps all meet a condition on the state before. -/
inductive ReachableWhile (C : World → Input → Prop) : World → Prop
  | init {w : World} (fresh : w.Initial) : ReachableWhile C w
  | step {w w' : World} (before : ReachableWhile C w) (i : Input) (env : Env)
      (meets : C (w.withEnv env) i) (ran : step i (w.withEnv env) = .ok () w') :
      ReachableWhile C w'

theorem ReachableWhile.reachable {C : World → Input → Prop} {w : World}
    (reach : ReachableWhile C w) : Reachable w := by
  induction reach with
  | init fresh => exact .init fresh
  | step _ i env _ ran ih => exact ih.step i env ran

theorem ReachableWhile.invariant {C : World → Input → Prop} {w : World}
    (reach : ReachableWhile C w) {K : World → Prop} (first : ∀ {w : World}, w.Initial → K w)
    (answers : ∀ {w : World} env, K w → K (w.withEnv env))
    (keeps : ∀ {w i}, C w i → ∀ {k v v'}, v.session.Sound → v.env.files = w.env.files →
      w.concerns i k → Move k v v' → K v → K v') : K w := by
  induction reach with
  | init fresh => exact first fresh
  | @step w _ before i env meets ran ih =>
    have sound : (w.withEnv env).session.Sound := before.reachable.sound
    exact step_keeps sound (keeps meets) (answers env ih) ran

/-- Every step that the script takes from a state meets a condition. -/
def World.Meets (C : World → Input → Prop) : List (Input × Env) → World → Prop
  | [], _ => True
  | (i, env) :: script, w => C (w.withEnv env) i ∧
      match step i (w.withEnv env) with
      | .ok _ w' => w'.Meets C script
      | .error _ _ => True

instance World.decidableMeets {C : World → Input → Prop} [∀ w i, Decidable (C w i)] :
    ∀ script w, Decidable (World.Meets C script w)
  | [], _ => .isTrue trivial
  | (i, env) :: script, w =>
      match met : step i (w.withEnv env) with
      | .ok _ w' =>
          have := World.decidableMeets (C := C) script w'
          decidable_of_iff (C (w.withEnv env) i ∧ w'.Meets C script) (by rw [World.Meets, met])
      | .error _ _ => decidable_of_iff (C (w.withEnv env) i ∧ True) (by rw [World.Meets, met])

theorem reachableWhile_played {C : World → Input → Prop} {w : World} (reach : ReachableWhile C w)
    (script : List (Input × Env)) (meets : w.Meets C script) :
    ReachableWhile C (w.played script) := by
  unfold World.played
  cases result : w.play script with
  | none => exact reach
  | some last =>
    rw [Option.getD_some]
    induction script generalizing w with
    | nil =>
      cases result
      exact reach
    | cons move script ih =>
      obtain ⟨i, env⟩ := move
      obtain ⟨met, more⟩ := meets
      cases ran : step i (w.withEnv env) with
      | ok r t =>
        rw [ran] at more
        simp only [World.play, ran] at result
        exact ih (reach.step i env met ran) more result
      | error e t =>
        simp only [World.play, ran] at result
        cases result

end Runs

end JabSimul
