import JabSimul.PendingRequests

/-!
The identifiers that a connection waits for. The counter behind them never
repeats, but its digits are cut to the buffer, so two numbers with the same four
leading digits are told apart only while one of them is answered.
-/
namespace JabSimul

open Simulation

/-- A number of at most four digits is not cut. -/
theorem jcomId_of_lt {n : Nat} (small : n < 10000) :
    jcomId idBufSize n = cstr "JCOM_" ++ Nat.toDigits 10 n := by
  have digits : (Nat.toDigits 10 n).length ≤ 4 :=
    (Nat.length_toDigits_le_iff (by decide) (by decide)).mpr small
  have word : n % 2 ^ 32 = n := Nat.mod_eq_of_lt (by omega)
  rw [jcomId, apSnprintf_of_le, fmtU, conv10, word]
  rw [List.length_append, fmtU, conv10, word]
  have head : (cstr "JCOM_").length = 5 := by decide
  unfold idBufSize
  omega

/-- The buffer holds the first four digits. -/
theorem jcomId_eq_take (n : Nat) :
    jcomId idBufSize n = cstr "JCOM_" ++ (Nat.toDigits 10 (n % 2 ^ 32)).take 4 := rfl

theorem jcomId_inj {m n : Nat} (less : m < n) (small : n < 10000)
    (same : jcomId idBufSize m = jcomId idBufSize n) : False := by
  rw [jcomId_of_lt small, jcomId_of_lt (by omega), List.append_cancel_left_eq] at same
  have number := congrArg (fun ds => Nat.ofDigitChars 10 ds 0) same
  rw [Nat.ofDigitChars_ten_toDigits, Nat.ofDigitChars_ten_toDigits] at number
  omega

namespace Session

variable {s t : Session} {c : ConnPtr}

/-- Identifiers that were drawn are not shared. -/
def Apart (queue : List XmlNeedResponse) : Prop :=
  queue.Pairwise fun e later => IsJcomId e.id → e.id ≠ later.id

/-- A request either has a short number, or nothing is awaited under its digits. -/
def DigitsFree (trace : List Ev) : Prop :=
  ∀ c n force queued outstanding, .requested c n force queued outstanding ∈ trace →
    n < 10000 ∨ ∀ e ∈ outstanding, e.id ≠ cstr "JCOM_" ++ (Nat.toDigits 10 (n % 2 ^ 32)).take 4

/-- The numbers behind the awaited identifiers were drawn before. -/
def Drawn (s : Session) : Prop :=
  ∀ u c, (s.users u).conn = some c → ∀ e ∈ s.queue c, IsJcomId e.id →
    ∃ n < (s.users u).tmpid, e.id = jcomId idBufSize n

theorem Calm.tmpid_le (step : Calm s t) (u : UserPtr) : (s.users u).tmpid ≤ (t.users u).tmpid := by
  have drawn : ∀ v, (s.users u).tmpid ≤ ((s.draw v).users u).tmpid := by
    intro v
    rw [tmpid_draw]
    split
    · subst u
      exact Nat.le_succ _
    · exact Nat.le_refl _
  have kept : ∀ v (f : Party → Party), (∀ p, (f p).tmpid = p.tmpid) →
      (s.users u).tmpid ≤ ((s.updParty v f).users u).tmpid := by
    intro v f same
    rw [users_updParty]
    split
    · subst u
      exact Nat.le_of_eq (same _).symm
    · exact Nat.le_refl _
  cases step with
  | draw v => exact drawn v
  | ask _ _ _ _ =>
    rw [Session.ask, users_registers]
    exact Nat.le_refl _
  | pop _ _ _ =>
    rw [users_pop]
  | root _ => exact kept _ (fun p => { p with streamOpened := true }) fun _ => rfl
  | @login v _ _ _ _ _ _ _ =>
    have queued := drawn v
    rw [tmpid_draw] at queued
    rw [tmpid_login]
    exact queued
  | loggedIn _ _ _ _ => exact kept _ (fun p => { p with state := .loggedIn }) fun _ => rfl
  | rosterAsk _ _ _ _ => exact drawn _
  | rosterCancel _ _ _ => exact drawn _
  | roster _ _ => exact kept _ _ fun _ => rfl
  | privLoaded _ => exact kept _ _ fun _ => rfl
  | privDeleted v => exact kept _ _ fun _ => rfl
  | _ => exact Nat.le_refl _

/-- No step takes a number back. -/
theorem Act.tmpid_le (step : Act s t) (u : UserPtr) : (s.users u).tmpid ≤ (t.users u).tmpid := by
  cases step with
  | calm step => exact step.tmpid_le u
  | @connect v loc next sstate fd time ssl _ _ =>
    by_cases same : u = v
    · simp [Session.connect, same]
    · simp [Session.connect, same]
  | kill site _ _ =>
    rw [users_kill]
    split
    · exact Nat.le_refl _
    · exact Nat.le_refl _
  | drained _ _ _ =>
    rw [users_kill, users_pop]
    split
    · exact Nat.le_refl _
    · exact Nat.le_refl _
  | userKill site _ _ =>
    simp only [Session.userKill, users_updParty, users_kill, conn_updConn_self, reduceCtorEq,
      if_false]
    split
    · subst u
      exact Nat.le_refl _
    · exact Nat.le_refl _
  | userReset _ =>
    rw [users_updParty]
    split
    · subst u
      exact Nat.le_refl _
    · exact Nat.le_refl _

theorem Drawn.step (sound : s.Sound) (step : Act s t) (drawn : Drawn s) : Drawn t := by
  intro u c owner e mem jcom
  have alive : t.live c := (sound.step step).live_of_conn owner
  have later := step.tmpid_le u
  have old : s.live c → e ∈ s.queue c → ∃ n < (t.users u).tmpid, e.id = jcomId idBufSize n := by
    intro live before
    obtain ⟨n, less, id⟩ := drawn u c (step.owner_of_live sound owner live) e before jcom
    exact ⟨n, Nat.lt_of_lt_of_le less later, id⟩
  cases step.pendingStep alive with
  | kept live queue => exact old live (queue.subset mem)
  | opened queue =>
    rw [queue] at mem
    cases mem
  | asked text es live queue _ _ plain _ =>
    rw [queue, List.mem_append, List.mem_reverse] at mem
    rcases mem with new | before
    · exact absurd jcom (plain e new)
    · exact old live before
  | requested v e' _ live owner' queue id tmpid _ _ =>
    rw [queue] at mem
    rcases List.mem_cons.mp mem with rfl | before
    · have same := sound.only owner' (step.owner_of_live sound owner live)
      subst same
      exact ⟨_, by omega, id⟩
    · exact old live before

theorem Apart.step (step : Act s t) (drawn : Drawn s) (free : DigitsFree t.trace)
    (apart : ∀ c, s.live c → Apart (s.queue c)) (c : ConnPtr) (alive : t.live c) :
    Apart (t.queue c) := by
  cases step.pendingStep alive with
  | kept live queue => exact (apart c live).sublist queue
  | opened queue =>
    rw [queue]
    exact .nil
  | asked text es live queue _ _ plain _ =>
    rw [queue]
    refine List.pairwise_append.mpr ⟨?_, apart c live, fun e new later _ jcom => ?_⟩
    · refine List.pairwise_of_forall_mem_list fun e new later _ jcom => ?_
      exact absurd jcom (plain e (List.mem_reverse.mp new))
    · exact absurd jcom (plain e (List.mem_reverse.mp new))
  | requested u e force live owner queue id _ noted _ =>
    rw [queue]
    refine .cons (fun later mem jcom same => ?_) (apart c live)
    rcases free _ _ _ _ _ noted with small | unused
    · obtain ⟨m, less, id'⟩ := drawn u c owner later mem (same ▸ jcom)
      rw [id'] at same
      exact jcomId_inj less small (same.symm.trans id)
    · exact unused later mem (same.symm.trans (id.trans (jcomId_eq_take _)))

theorem DigitsFree.suffix {older newer : List Ev} (free : DigitsFree newer)
    (suffix : older <:+ newer) : DigitsFree older :=
  fun c n force queued outstanding noted => free c n force queued outstanding (suffix.subset noted)

/-- The answer to a request that was drawn finds that very request. -/
theorem Apart.found {queue : List XmlNeedResponse} (apart : Apart queue) {e : XmlNeedResponse}
    (mem : e ∈ queue) (jcom : IsJcomId e.id) :
    ∃ rest, xmlNeedResponseNodeGet e.id queue = (some e, rest) := by
  induction apart with
  | nil => cases mem
  | @cons y queue head _ ih =>
    have same : jStrcmp (some y.id) (some e.id) = 0 ↔ y.id = e.id := by
      rw [eq_comm (a := y.id)]
      simp [jStrcmp_eq_zero_iff]
    rw [xmlNeedResponseNodeGet]
    by_cases hit : y.id = e.id
    · rw [if_pos (same.mpr hit)]
      rcases List.mem_cons.mp mem with rfl | later
      · exact ⟨queue, rfl⟩
      · exact absurd hit (head e later (hit ▸ jcom))
    · rw [if_neg (mt same.mp hit)]
      rcases List.mem_cons.mp mem with rfl | later
      · exact absurd rfl hit
      · obtain ⟨rest, found⟩ := ih later
        exact ⟨y :: rest, by rw [found]⟩

end Session

theorem Reachable.apart {w : World} (reach : Reachable w) (free : Session.DigitsFree w.trace)
    (c : ConnPtr) (live : (w.heap c).live = true) :
    Session.Apart (w.heap c).conn.xmlNeedResponsesQueue := by
  have run := reach.induct (K := fun s => s.Drawn ∧ (Session.DigitsFree s.trace →
      ∀ c, s.live c → Session.Apart (s.queue c)))
    (fun s initial => ⟨fun u c owner => ?_, fun _ c live => absurd live (initial.dead c)⟩)
    fun sound step ⟨drawn, apart⟩ => ⟨drawn.step sound step, fun free =>
      Session.Apart.step step drawn free (apart (free.suffix step.trace_suffix))⟩
  · exact run.2 free c live
  · rw [initial.users u] at owner
    cases owner

/-- In a run in which every request has a number of at most four digits, or one
whose first four digits no awaited answer carries, awaited identifiers that were
drawn are different, and an answer finds its own request. -/
theorem request_ids_identify {w : World} (reach : Reachable w)
    (free : ∀ c n force queued outstanding, .requested c n force queued outstanding ∈ w.trace →
      n < 10000 ∨ ∀ e ∈ outstanding, e.id ≠ cstr "JCOM_" ++ (Nat.toDigits 10 (n % 2 ^ 32)).take 4)
    (c : ConnPtr) (live : (w.heap c).live = true) :
    (w.heap c).conn.xmlNeedResponsesQueue.Pairwise
        (fun e later => IsJcomId e.id → e.id ≠ later.id) ∧
      ∀ e ∈ (w.heap c).conn.xmlNeedResponsesQueue, IsJcomId e.id → ∃ rest,
        xmlNeedResponseNodeGet e.id (w.heap c).conn.xmlNeedResponsesQueue = (some e, rest) := by
  have apart := reach.apart free c live
  exact ⟨apart, fun e mem jcom => apart.found mem jcom⟩

section Chatter

def ola : CString := cstr "ola@host"

def olaNode : XmlNode := .tag (cstr "user") [] [textNode "jid" ola]

/-- A message for Ola, again and again. -/
def chatEvent : EventRepeater :=
  sessionEvent .evSendMessage (-1) [olaNode, textNode "text" (cstr " ")]

/-- A new contact, once, from the time `tm` on. -/
def addEvent (tm counter : Int) : EventRepeater :=
  { sessionEvent .evAddRoster counter [olaNode] with activationTm := tm }

/-- A user that is logged in with a full queue and an empty roster, has drawn `n`
numbers, and waits for the answers `pending`. -/
structure Chat (w : World) (n : Nat) (pending : List CString) : Prop where
  count : w.usersCount = 1
  doEvents : w.globals.doEvents = true
  live : (w.heap 0).live = true
  full : (w.heap 0).conn.full
  queue : (w.heap 0).conn.xmlNeedResponsesQueue.map XmlNeedResponse.id = pending
  state : (w.users 0).state = .loggedIn
  owner : (w.users 0).conn = some 0
  roster : ∃ h, (w.users 0).rosterHash = some h ∧ ∀ keys, xhashGet keys h ola = none
  noCount : (w.users 0).rosterCount = 0
  tmpid : (w.users 0).tmpid = n

namespace Chat

variable {w : World} {n : Nat} {pending : List CString} {now : Int}

theorem updUser (chat : Chat w n pending) {f : UserProperities → UserProperities}
    (keeps : ∀ user, (f user).state = user.state ∧ (f user).conn = user.conn ∧
      (f user).rosterHash = user.rosterHash ∧ (f user).rosterCount = user.rosterCount ∧
      (f user).tmpid = user.tmpid) : Chat (w.updUser 0 f) n pending := by
  obtain ⟨state, owner, hash, count, tmpid⟩ := keeps (w.users 0)
  refine ⟨chat.count, chat.doEvents, chat.live, chat.full, chat.queue, ?_, ?_, ?_, ?_, ?_⟩
  all_goals rw [updUser_users_self]
  · exact state.trans chat.state
  · exact owner.trans chat.owner
  · rw [hash]
    exact chat.roster
  · exact count.trans chat.noCount
  · exact tmpid.trans chat.tmpid

theorem emit (chat : Chat w n pending) (e : Ev) : Chat (w.emit e) n pending :=
  ⟨chat.count, chat.doEvents, chat.live, chat.full, chat.queue, chat.state, chat.owner,
    chat.roster, chat.noCount, chat.tmpid⟩

theorem reject (chat : Chat w n pending) (text : Option CString) :
    Chat (w.rejectPacket 0 text) n pending := by
  have alive : ((w.updGlobals fun g => { g with packetsCreated := g.packetsCreated + 1 }).heap
      0).live = true := chat.live
  rw [World.rejectPacket, touch_of_live alive]
  exact ⟨chat.count, chat.doEvents, chat.live, chat.full, chat.queue, chat.state, chat.owner,
    chat.roster, chat.noCount, chat.tmpid⟩

theorem draw (chat : Chat w n pending) : Chat (w.drawId 0) (n + 1) pending := by
  refine ⟨chat.count, chat.doEvents, chat.live, chat.full, chat.queue, ?_, ?_, ?_, ?_, ?_⟩
  all_goals rw [World.drawId, users_emit, updUser_users_self]
  · exact chat.state
  · exact chat.owner
  · exact chat.roster
  · exact chat.noCount
  · rw [chat.tmpid]

theorem store (chat : Chat w n pending) (e : XmlNeedResponse) :
    Chat (w.storeXmlInfo 0 e) n (e.id :: pending) := by
  rw [World.storeXmlInfo, touch_of_live chat.live]
  refine ⟨chat.count, chat.doEvents, ?_, ?_, ?_, chat.state, chat.owner, chat.roster, chat.noCount,
    chat.tmpid⟩
  · simpa [World.updConn, World.emit] using chat.live
  · simpa [World.updConn, World.emit, JpolldConn.full] using chat.full
  · simpa [World.updConn, World.emit] using chat.queue

theorem rejectPacket_users (w : World) (text : Option CString) :
    (w.rejectPacket 0 text).users = w.users :=
  users_touch _ 0

/-- A message that finds no room only draws a number. -/
theorem runChat (chat : Chat w n pending) (now : Int) : ∃ w',
    runEvent .evSendMessage chatEvent.arg 0 now w = .ok ⟨⟩ w' ∧ Chat w' (n + 1) pending ∧
      (w'.users 0).soonerActivationTm = (w.users 0).soonerActivationTm := by
  have sends : runEvent .evSendMessage chatEvent.arg 0 now w =
      (userDoSendMessage 0 ola (some (cstr " ")) >>= fun ret => if ret = 0 then
        modGlobals fun g => { g with evSendMessageCount := g.evSendMessageCount + 1 } else pure ())
        w := rfl
  have drawn := chat.draw
  refine ⟨_, ?_, drawn.reject (some (cstr "<message to=\"" ++ ola ++ cstr "\"><body>" ++ cstr " " ++
    cstr "</body></message>")), ?_⟩
  rotate_left
  · rw [rejectPacket_users, World.drawId, users_emit, updUser_users_self]
  rw [sends]
  simp only [userDoSendMessage, bind_apply, makeJcomId_apply, getUser_apply, drawn.owner,
    jpolldConnWriteStr, jpolldConnEnqueue_full drawn.full]
  rfl

/-- A contact that finds no room is awaited all the same. -/
theorem runAdd (chat : Chat w n pending) (now tm counter : Int) : ∃ w',
    runEvent .evAddRoster (addEvent tm counter).arg 0 now w = .ok ⟨⟩ w' ∧
      Chat w' (n + 1) (jcomId idBufSize n :: pending) ∧
      (w'.users 0).soonerActivationTm = (w.users 0).soonerActivationTm := by
  obtain ⟨h, hash, absent⟩ := chat.roster
  have registered := ((chat.draw.emit (.requested 0 (w.users 0).tmpid false
    ((w.drawId 0).heap 0).conn.writer.length
    ((w.drawId 0).heap 0).conn.xmlNeedResponsesQueue)).store
      ⟨jcomId idBufSize (w.users 0).tmpid, now, some .handleAddRosterItemResponse⟩)
  have registered' : Chat (w.rosterRegistered 0 0 now false) (n + 1)
      (jcomId idBufSize (w.users 0).tmpid :: pending) := registered
  rw [chat.tmpid] at registered'
  refine ⟨(w.rosterRegistered 0 0 now false).rejectPacket 0
    (some (xmlnode2str (rosterRequest (w.users 0).tmpid ola (some ola) false))), ?_,
    registered'.reject _, ?_⟩
  rotate_left
  · rw [rejectPacket_users, World.rosterRegistered, storeXmlInfo_users, requestNoted_users,
      World.drawId, users_emit, updUser_users_self]
  have named : makeUserNameDefinedInXml 2000 (some olaNode) 0 w = .ok (some ola) w := rfl
  have node : xmlnodeGetTag (addEvent tm counter).arg (cstr "user") = some olaNode := rfl
  have limit : xmlnodeGetTagData (addEvent tm counter).arg (cstr "max_roster_count") = none := rfl
  simp only [runEvent, evAddRoster, bind_apply, getUser_apply, hash, chat.noCount, limit]
  rw [if_neg (by decide), node]
  simp only [bind_apply, named, get_apply, absent, Option.isNone_none, if_true,
    userDoAdddelRosterItem_apply now chat.owner, jpolldConnEnqueue_full registered'.full]
  rfl

/-- What a scan of the events does to the numbers and to the answers. -/
def Scans (now : Int) (events events' : List EventRepeater) (n n' : Nat)
    (pending pending' : List CString) : Prop :=
  ∀ w, Chat w n pending → ∃ w', repeaterScan 0 now events w = .ok events' w' ∧
    Chat w' n' pending' ∧ (w'.users 0).soonerActivationTm ≤ (w.users 0).soonerActivationTm ∧
    ∀ er ∈ events', (w'.users 0).soonerActivationTm ≤ er.activationTm

/-- The user looks for the next activation after an event. -/
def lowers (er : EventRepeater) (user : UserProperities) : UserProperities :=
  if user.soonerActivationTm > er.activationTm then
    { user with soonerActivationTm := er.activationTm }
  else user

theorem lower (chat : Chat w n pending) (er : EventRepeater) :
    Chat (w.updUser 0 (lowers er)) n pending := by
  refine chat.updUser fun user => ?_
  unfold lowers
  split
  · exact ⟨rfl, rfl, rfl, rfl, rfl⟩
  · exact ⟨rfl, rfl, rfl, rfl, rfl⟩

theorem lowers_le (user : UserProperities) (er : EventRepeater) :
    (lowers er user).soonerActivationTm ≤ user.soonerActivationTm ∧
      (lowers er user).soonerActivationTm ≤ er.activationTm := by
  unfold lowers
  split
  · exact ⟨Int.le_of_lt ‹_›, Int.le_refl _⟩
  · exact ⟨Int.le_refl _, Int.not_lt.mp ‹_›⟩

theorem scans_nil : Scans now [] [] n n pending pending :=
  fun w chat => ⟨w, rfl, chat, Int.le_refl _, nofun⟩

/-- One round comes before the others, when it leaves the next activation alone. -/
theorem scans_cons {er er' : EventRepeater} {events events' : List EventRepeater} {n' n'' : Nat}
    {pending' pending'' : List CString}
    (round : ∀ w, Chat w n pending → ∃ w', repeaterRound 0 now er w =
      .ok er' (w'.updUser 0 (lowers er')) ∧ Chat w' n' pending' ∧
      (w'.users 0).soonerActivationTm = (w.users 0).soonerActivationTm)
    (rest : Scans now events events' n' n'' pending' pending'') :
    Scans now (er :: events) (er' :: events') n n'' pending pending'' := by
  intro w chat
  obtain ⟨w₁, ran, chat₁, same⟩ := round w chat
  obtain ⟨w₂, ran', chat₂, sooner, all⟩ := rest _ (chat₁.lower er')
  obtain ⟨first, second⟩ := lowers_le (w₁.users 0) er'
  rw [updUser_users_self] at sooner
  refine ⟨w₂, ?_, chat₂, by omega, fun e mem => ?_⟩
  · simp only [repeaterScan, bind_apply, ran, ran', pure_apply]
  · rcases List.mem_cons.mp mem with rfl | later
    · omega
    · exact all e later

/-- An event that is not due, or is for another state, or has been used up. -/
def IsIdle (now : Int) (er : EventRepeater) : Prop :=
  er.activationTm > now ∨ er.frequency < 0 ∧ (er.userState = some .canLogin ∨ er.counter = 0)

theorem round_idle {er : EventRepeater} (idle : IsIdle now er) (w : World) (chat : Chat w n pending) :
    repeaterRound 0 now er w = .ok er (w.updUser 0 (lowers er)) := by
  rcases idle with later | ⟨once, out⟩
  · have notDue : ¬(er.activationTm ≠ 0 ∧ er.activationTm ≤ now) := fun due => by omega
    simp only [repeaterRound, if_neg notDue, bind_apply, modUser_apply, pure_apply]
    rfl
  · have kept : rescheduled now er w = .ok er w := by
      rw [rescheduled, if_neg (by omega)]
      rfl
    have fired : fireRepeater 0 now er w = .ok er w := by
      unfold fireRepeater
      cases er.eventHandler with
      | none => rfl
      | some h =>
        simp only [bind_apply, getUser_apply, get_apply]
        rw [if_neg]
        · rfl
        · rintro ⟨state, counter, _⟩
          rcases out with login | used
          · simp [login, chat.state] at state
          · exact counter used
    by_cases due : er.activationTm ≠ 0 ∧ er.activationTm ≤ now
    · simp only [repeaterRound, if_pos due, bind_apply, kept, fired, modUser_apply, pure_apply]
      rfl
    · simp only [repeaterRound, if_neg due, bind_apply, modUser_apply, pure_apply]
      rfl

/-- A handler that runs, and an event that is due and for this state. -/
theorem round_fires {er : EventRepeater} {h : EventHandler} {w' : World} (once : er.frequency < 0)
    (handler : er.eventHandler = some h) (state : er.userState = some .loggedIn)
    (counter : er.counter ≠ 0) (due : er.activationTm ≠ 0 ∧ er.activationTm ≤ now)
    (chat : Chat w n pending)
    (ran : runEvent h er.arg 0 now (w.emit (.handlerRun 0 h)) = .ok ⟨⟩ w') :
    repeaterRound 0 now er w =
      .ok { er with counter := if er.counter > 0 then er.counter - 1 else er.counter }
        (w'.updUser 0 (lowers er)) := by
  have kept : rescheduled now er w = .ok er w := by
    rw [rescheduled, if_neg (by omega)]
    rfl
  have fired : fireRepeater 0 now er w =
      .ok { er with counter := if er.counter > 0 then er.counter - 1 else er.counter } w' := by
    simp only [fireRepeater, handler, bind_apply, getUser_apply, get_apply]
    rw [if_pos ⟨.inr (by rw [state, chat.state]), counter, .inl chat.doEvents⟩]
    simp only [bind_apply, emit_apply, ran, pure_apply]
  simp only [repeaterRound, if_pos due, bind_apply, kept, fired, modUser_apply, pure_apply]
  rfl

variable {er : EventRepeater} {events events' : List EventRepeater} {n' : Nat}
  {pending' : List CString} {tm : Int}

theorem scans_idle (idle : IsIdle now er) (rest : Scans now events events' n n' pending pending') :
    Scans now (er :: events) (er :: events') n n' pending pending' :=
  scans_cons (fun w chat => ⟨w, round_idle idle w chat, chat, rfl⟩) rest

theorem scans_chat (due : 1 ≤ now) (rest : Scans now events events' (n + 1) n' pending pending') :
    Scans now (chatEvent :: events) (chatEvent :: events') n n' pending pending' := by
  refine scans_cons (fun w chat => ?_) rest
  obtain ⟨w', ran, chat', same⟩ := (chat.emit (.handlerRun 0 .evSendMessage)).runChat now
  exact ⟨w', round_fires (by decide) rfl rfl (by decide) ⟨by decide, due⟩ chat ran, chat', same⟩

theorem scans_add (due : tm ≠ 0 ∧ tm ≤ now) (rest : Scans now events events' (n + 1) n'
    (jcomId idBufSize n :: pending) pending') :
    Scans now (addEvent tm 1 :: events) (addEvent tm 0 :: events') n n' pending pending' := by
  refine scans_cons (fun w chat => ?_) rest
  obtain ⟨w', ran, chat', same⟩ :=
    (chat.emit (.handlerRun 0 .evAddRoster)).runAdd now tm 1
  have once : (addEvent tm 1).frequency < 0 := by
    change (-1 : Int) < 0
    decide
  have counter : (addEvent tm 1).counter ≠ 0 := by
    change (1 : Int) ≠ 0
    decide
  exact ⟨w', round_fires once rfl rfl counter due chat ran, chat', same⟩

end Chat

/-- A state of a run in which the user chats and has the events `events`. -/
structure Chatting (w : World) (n : Nat) (pending : List CString) (events : List EventRepeater) :
    Prop where
  reach : Reachable w
  chat : Chat w n pending
  queue : (w.users 0).eventsQueue = events
  soon : (w.users 0).soonerActivationTm ≤ 1

variable {w : World} {n n' : Nat} {pending pending' : List CString}
  {events events' : List EventRepeater} {now : Int}

theorem Chatting.job (chatting : Chatting w n pending events) (now : Int) (due : 1 ≤ now)
    (scans : Chat.Scans now events events' n n' pending pending')
    (prompt : ∃ er ∈ events', er.activationTm = 1) : ∃ w', Chatting w' n' pending' events' := by
  have chat := chatting.chat
  have begun : Chat (w.withEnv plainEnv) n pending :=
    ⟨chat.count, chat.doEvents, chat.live, chat.full, chat.queue, chat.state, chat.owner,
      chat.roster, chat.noCount, chat.tmpid⟩
  have reset : Chat ((w.withEnv plainEnv).updUser 0 fun user =>
      { user with soonerActivationTm := never }) n pending :=
    begun.updUser fun _ => ⟨rfl, rfl, rfl, rfl, rfl⟩
  obtain ⟨w₁, scanned, chat₁, _, sooner⟩ := scans _ reset
  have soon : ((w.withEnv plainEnv).users 0).soonerActivationTm ≤ now :=
    Int.le_trans chatting.soon due
  have queue : ((w.withEnv plainEnv).users 0).eventsQueue = events := chatting.queue
  have handled : userHandleRepeaterQueue 0 now (w.withEnv plainEnv) =
      .ok ⟨⟩ (w₁.updUser 0 fun user => { user with eventsQueue := events' }) := by
    simp only [userHandleRepeaterQueue, bind_apply, getUser_apply, if_pos soon, modUser_apply,
      queue, scanned]
  have ran : step (.job 0 now) (w.withEnv plainEnv) =
      .ok ⟨⟩ (w₁.updUser 0 fun user => { user with eventsQueue := events' }) := by
    have inside : 0 < (w.withEnv plainEnv).usersCount := by rw [begun.count]; exact Nat.one_pos
    simp only [step, bind_apply, get_apply, if_pos inside, userDoYourJob, getUser_apply,
      begun.state, begun.owner, Option.isNone_some]
    exact handled
  obtain ⟨er, mem, one⟩ := prompt
  refine ⟨_, chatting.reach.step _ _ ran, chat₁.updUser fun _ => ⟨rfl, rfl, rfl, rfl, rfl⟩, ?_, ?_⟩
  · rw [updUser_users_self]
  · rw [updUser_users_self]
    exact one ▸ sooner er mem

/-- The events, with the counters of the two that add a contact. -/
def chatEvents (first second : Int) : List EventRepeater :=
  [connectEvent, chatEvent, addEvent 1000 first, addEvent 2000 second]

theorem Chatting.run (k : Nat) (now : Int) {first second : Int} (chatting : Chatting w n pending
    (chatEvents first second)) (due : 1 ≤ now)
    (idle : Chat.IsIdle now (addEvent 1000 first) ∧ Chat.IsIdle now (addEvent 2000 second)) :
    ∃ w', Chatting w' (n + k) pending (chatEvents first second) := by
  induction k generalizing w n with
  | zero => exact ⟨w, chatting⟩
  | succ k ih =>
    obtain ⟨w₁, once⟩ := chatting.job now due (Chat.scans_idle (.inr ⟨by decide, .inl rfl⟩)
      (Chat.scans_chat due (Chat.scans_idle idle.1 (Chat.scans_idle idle.2 Chat.scans_nil))))
      ⟨connectEvent, by simp, rfl⟩
    obtain ⟨w₂, more⟩ := ih once
    exact ⟨w₂, by rwa [Nat.add_right_comm] at more⟩

/-- The write queue is full when the messages begin. -/
def chatterWorld : World :=
  (plainWorld (chatEvents 1 1)).played (rosterScript ++ List.replicate 6 (.job 0 7, plainEnv))

theorem chatterWorld_chatting : ∃ pending, Chatting chatterWorld 7 pending (chatEvents 1 1) := by
  have hashed : (chatterWorld.users 0).rosterHash.isSome := by decide +kernel
  obtain ⟨h, hash⟩ := Option.isSome_iff_exists.mp hashed
  have emptied : ((chatterWorld.users 0).rosterHash.all fun h =>
      h.zen.flatten.all fun n => n.key.isNone) = true := by decide +kernel
  rw [hash, Option.all_some] at emptied
  have full : maxPacksBuffered < (chatterWorld.heap 0).conn.writer.length := by decide +kernel
  refine ⟨_, reachable_played (.init (plainWorld_initial _)) _, ⟨?_, ?_, ?_, full, rfl, ?_, ?_,
    ⟨h, hash, fun keys => xhashGet_of_emptied keys emptied ola⟩, ?_, ?_⟩, ?_, ?_⟩
  all_goals decide +kernel

/-- A contact that is added as number 10000 is awaited under the identifier of
the one that was added as number 1000. -/
theorem chatter_repeats_id : ∃ w rest, Reachable w ∧ (w.heap 0).live = true ∧
    (w.heap 0).conn.xmlNeedResponsesQueue.map XmlNeedResponse.id =
      jcomId idBufSize 10000 :: jcomId idBufSize 1000 :: rest := by
  obtain ⟨pending, start⟩ := chatterWorld_chatting
  have once : ∀ tm counter, (addEvent tm counter).frequency < 0 := fun _ _ => by
    change (-1 : Int) < 0
    decide
  have connected : Chat.IsIdle 1000 connectEvent := .inr ⟨by decide, .inl rfl⟩
  have connected' : Chat.IsIdle 2000 connectEvent := .inr ⟨by decide, .inl rfl⟩
  have used : ∀ now, Chat.IsIdle now (addEvent 1000 0) := fun _ => .inr ⟨once _ _, .inr rfl⟩
  have early : ∀ now < 2000, Chat.IsIdle now (addEvent 2000 1) := fun _ later => .inl later
  have sooner : Chat.IsIdle 7 (addEvent 1000 1) := .inl (by decide)
  obtain ⟨w₁, first⟩ := start.run 992 7 (by decide) ⟨sooner, early 7 (by decide)⟩
  obtain ⟨w₂, added⟩ := first.job 1000 (by decide)
    (Chat.scans_idle connected (Chat.scans_chat (by decide) (Chat.scans_add (by decide)
      (Chat.scans_idle (early 1000 (by decide)) Chat.scans_nil))))
    ⟨connectEvent, by simp, rfl⟩
  obtain ⟨w₃, second⟩ := added.run 8998 1000 (by decide)
    ⟨used 1000, early 1000 (by decide)⟩
  obtain ⟨w₄, repeated⟩ := second.job 2000 (by decide)
    (Chat.scans_idle connected' (Chat.scans_chat (by decide) (Chat.scans_idle (used 2000)
      (Chat.scans_add (by decide) Chat.scans_nil))))
    ⟨connectEvent, by simp, rfl⟩
  exact ⟨w₄, pending, repeated.reach, repeated.chat.live, repeated.chat.queue⟩

theorem chatter_shares_id : ¬∀ w, Reachable w → ∀ c, (w.heap c).live = true →
    (w.heap c).conn.xmlNeedResponsesQueue.Pairwise
      (fun e later => IsJcomId e.id → e.id ≠ later.id) := by
  intro claim
  obtain ⟨w, rest, reach, live, ids⟩ := chatter_repeats_id
  have apart := claim w reach 0 live
  obtain ⟨e, tail, split, id, others⟩ := List.map_eq_cons_iff.mp ids
  obtain ⟨later, tail', split', id', _⟩ := List.map_eq_cons_iff.mp others
  rw [split, split'] at apart
  have distinct := (List.pairwise_cons.mp apart).1 later List.mem_cons_self
    (id ▸ ⟨10000, rfl⟩)
  rw [id, id'] at distinct
  exact distinct (by decide)

/-- The numbers that were drawn for requests. -/
def Ev.requestNumber : Ev → Option Nat
  | .requested _ n _ _ _ => some n
  | _ => none

theorem request_ids_identify_roomy :
    (roomyWorld.heap 0).conn.xmlNeedResponsesQueue.Pairwise
        (fun e later => IsJcomId e.id → e.id ≠ later.id) ∧
      ∀ e ∈ (roomyWorld.heap 0).conn.xmlNeedResponsesQueue, IsJcomId e.id → ∃ rest,
        xmlNeedResponseNodeGet e.id (roomyWorld.heap 0).conn.xmlNeedResponsesQueue =
          (some e, rest) := by
  have drawn : (roomyWorld.trace.filterMap Ev.requestNumber).all (· < 10000) = true := by
    decide +kernel
  have reach : Reachable roomyWorld := reachable_played (.init (plainWorld_initial _)) _
  refine request_ids_identify reach (fun c n force queued outstanding noted => .inl ?_) 0
    (by decide +kernel)
  have number : n ∈ roomyWorld.trace.filterMap Ev.requestNumber :=
    List.mem_filterMap.mpr ⟨_, noted, rfl⟩
  simpa using List.all_eq_true.mp drawn n number

end Chatter

end JabSimul
