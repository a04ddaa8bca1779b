import JabSimul.SessionSound

/-!
What each step of the session machine leaves of a connection, of the users and of
the trace. The invariants of whole runs are proved from these equations.
-/
namespace JabSimul

open Relation

namespace Session

section Conns

variable (s : Session) (c d : ConnPtr) (u : UserPtr)

theorem conn_accept (text : Option CString) : (s.accept c text).conn d =
    if d = c then { s.conn d with writer := (s.conn d).writer ++ [⟨text⟩] } else s.conn d := by
  rw [accept, conn_emit, conn_updPfd, conn_updConn]

theorem conn_register (e : XmlNeedResponse) : (s.register c e).conn d =
    if d = c then { s.conn d with xmlNeedResponsesQueue := e :: (s.conn d).xmlNeedResponsesQueue }
    else s.conn d := by
  rw [register, conn_emit, conn_updConn]

theorem conn_registers (es : List XmlNeedResponse) :
    (es.foldl (fun s e => s.register c e) s).conn d =
      if d = c then { s.conn d with
        xmlNeedResponsesQueue := es.reverse ++ (s.conn d).xmlNeedResponsesQueue }
      else s.conn d := by
  induction es generalizing s with
  | nil => split <;> rfl
  | cons e es ih =>
    rw [List.foldl_cons, ih, conn_register]
    by_cases here : d = c
    · simp [here]
    · simp [here]

theorem conn_ask (text : CString) (es : List XmlNeedResponse) : (s.ask c text es).conn d =
    if d = c then { s.conn d with
      writer := (s.conn d).writer ++ [⟨some text⟩]
      xmlNeedResponsesQueue := es.reverse ++ (s.conn d).xmlNeedResponsesQueue }
    else s.conn d := by
  rw [ask, conn_registers, conn_accept]
  by_cases here : d = c
  · simp [here]
  · simp [here]

@[simp] theorem conn_draw : (s.draw u).conn d = s.conn d := rfl

@[simp] theorem conn_request (n : Nat) (force : Bool) : (s.request c n force).conn d = s.conn d := rfl

theorem conn_login (text : CString) (e : XmlNeedResponse) : (s.login u c text e).conn d =
    if d = c then { s.conn d with
      writer := (s.conn d).writer ++ [⟨some text⟩]
      xmlNeedResponsesQueue := e :: (s.conn d).xmlNeedResponsesQueue }
    else s.conn d := by
  rw [login, conn_emit, conn_updParty, conn_register, conn_accept, conn_request, conn_draw]
  by_cases here : d = c
  · simp [here]
  · simp [here]

theorem conn_rosterRegister (e : XmlNeedResponse) : (s.rosterRegister u c e).conn d =
    if d = c then { s.conn d with xmlNeedResponsesQueue := e :: (s.conn d).xmlNeedResponsesQueue }
    else s.conn d := by
  rw [rosterRegister, conn_register, conn_request, conn_draw]

theorem conn_advance (text : CString) (next : List JpolldWriteBuf) (k : Nat) :
    (s.advance c text next k).conn d =
      if d = c then { s.conn d with writer := ⟨some (text.drop k)⟩ :: next } else s.conn d := by
  rw [advance, conn_updConn, conn_emit]

theorem conn_pop_of (text : CString) (next : List JpolldWriteBuf) : (s.pop c text next).conn d =
    if d = c then { s.conn d with writer := next } else s.conn d := by
  have popped : (s.pop c text next).conn d =
      ((s.emit (.sent c text)).updConn c fun conn => { conn with writer := next }).conn d := by
    unfold pop
    dsimp only
    split <;> rfl
  rw [popped, conn_updConn, conn_emit]

theorem conn_finish : (s.finish c).conn d =
    if d = c then { s.conn d with state := .closing } else s.conn d := by
  rw [finish, conn_updConn, conn_emit]

theorem conn_dispatch (e : XmlNeedResponse) (queue : List XmlNeedResponse) :
    (s.dispatch c e queue).conn d =
      if d = c then { s.conn d with xmlNeedResponsesQueue := queue } else s.conn d := by
  rw [dispatch, conn_emit, conn_updConn]

@[simp] theorem conn_openStream : (s.openStream u c).conn d = s.conn d := rfl

@[simp] theorem conn_logIn (x : XmlNode) : (s.logIn u c x).conn d = s.conn d := rfl

@[simp] theorem conn_refill : s.refill.conn d = s.conn d := rfl

theorem conn_connect (loc : Nat) (next : List Nat) (sstate : SockState) (fd time : Int)
    (ssl : Bool) : (s.connect u loc next sstate fd time ssl).conn d =
      if d = s.nextConn then ⟨loc, .unknown, sstate, [], time, some u, [], ssl⟩ else s.conn d := by
  unfold connect conn
  by_cases new : d = s.nextConn
  · simp [new]
  · simp [new]

theorem conn_userKill (site : KillSite) : (s.userKill u c site).conn d =
    if d = c then { s.conn d with user := none } else s.conn d := by
  change ((s.updConn c _).kill c site).conn d = _
  rw [conn_kill, conn_updConn]

theorem live_connect (loc : Nat) (next : List Nat) (sstate : SockState) (fd time : Int)
    (ssl : Bool) : (s.connect u loc next sstate fd time ssl).live d ↔ d = s.nextConn ∨ s.live d := by
  unfold connect live
  by_cases new : d = s.nextConn
  · simp [new]
  · simp [new]

theorem live_userKill (site : KillSite) : (s.userKill u c site).live d ↔ d ≠ c ∧ s.live d := by
  change ((s.updConn c _).kill c site).live d ↔ _
  rw [live_kill, live_updConn]

end Conns

section Traces

variable (s : Session) (c : ConnPtr) (u : UserPtr)

theorem trace_registers (es : List XmlNeedResponse) :
    (es.foldl (fun s e => s.register c e) s).trace = (es.map (Ev.registered c)).reverse ++ s.trace := by
  induction es generalizing s with
  | nil => rfl
  | cons e es ih =>
    rw [List.foldl_cons, ih, List.map_cons, List.reverse_cons, List.append_assoc]
    rfl

theorem trace_ask (text : CString) (es : List XmlNeedResponse) : (s.ask c text es).trace =
    (es.map (Ev.registered c)).reverse ++ .accepted c (some text) :: s.trace :=
  trace_registers _ c es

theorem trace_pop (text : CString) (next : List JpolldWriteBuf) :
    (s.pop c text next).trace = .sent c text :: s.trace := by
  unfold pop
  dsimp only
  split <;> rfl

theorem trace_login (text : CString) (e : XmlNeedResponse) : (s.login u c text e).trace =
    [.loginQueued c e.id, .registered c e, .accepted c (some text),
      .requested c (s.users u).tmpid true (s.conn c).writer.length (s.conn c).xmlNeedResponsesQueue,
      .idDrawn u (s.users u).tmpid] ++ s.trace := rfl

theorem trace_rosterRegister (e : XmlNeedResponse) : (s.rosterRegister u c e).trace =
    [.registered c e,
      .requested c (s.users u).tmpid false (s.conn c).writer.length (s.conn c).xmlNeedResponsesQueue,
      .idDrawn u (s.users u).tmpid] ++ s.trace := rfl

theorem trace_userKill (site : KillSite) :
    (s.userKill u c site).trace = .killed c site :: s.trace := by
  change ((s.updConn c _).kill c site).trace = _
  rw [trace_kill]
  rfl

/-- The trace only grows. -/
theorem Calm.trace_suffix {s t : Session} (step : Calm s t) : s.trace <:+ t.trace := by
  cases step with
  | note e _ => exact ⟨[_], rfl⟩
  | draw u => exact ⟨[_], rfl⟩
  | refill _ => exact ⟨[_], rfl⟩
  | write text _ => exact ⟨[_], rfl⟩
  | ask _ _ _ _ => exact ⟨_ ++ [_], by rw [trace_ask, List.append_assoc]; rfl⟩
  | advance _ _ _ => exact ⟨[_], rfl⟩
  | pop _ _ _ => exact ⟨[_], (trace_pop _ _ _ _).symm⟩
  | connected c => exact ⟨[], rfl⟩
  | finish _ => exact ⟨[_], rfl⟩
  | root _ => exact ⟨[_], rfl⟩
  | stanza x _ => exact ⟨[_], rfl⟩
  | dispatch _ _ _ _ => exact ⟨[_], rfl⟩
  | login _ _ _ _ => exact ⟨[_, _, _, _, _], rfl⟩
  | loggedIn _ _ _ _ => exact ⟨[_], rfl⟩
  | fetch _ => exact ⟨[_], rfl⟩
  | rosterAsk _ _ _ _ => exact ⟨[_, _, _, _], rfl⟩
  | rosterCancel _ _ _ => exact ⟨[_, _, _, _], rfl⟩
  | roster _ _ => exact ⟨[], rfl⟩
  | privLoaded _ => exact ⟨[], rfl⟩
  | privDeleted u => exact ⟨[], rfl⟩

theorem Act.trace_suffix {s t : Session} (step : Act s t) : s.trace <:+ t.trace := by
  cases step with
  | calm step => exact step.trace_suffix
  | connect sstate fd time ssl _ _ => exact ⟨[_], rfl⟩
  | @kill c site _ _ => exact ⟨[_], (trace_kill s c site).symm⟩
  | @drained c text _ _ _ =>
    exact ⟨[_, _], by rw [trace_kill, trace_pop]; rfl⟩
  | userKill site _ _ => exact ⟨[_], (trace_userKill _ _ _ _).symm⟩
  | userReset _ => exact ⟨[], rfl⟩

theorem trace_suffix_steps {s t : Session} (steps : ReflTransGen Act s t) : s.trace <:+ t.trace := by
  induction steps with
  | refl => exact List.suffix_refl _
  | tail _ step ih => exact ih.trans step.trace_suffix

end Traces

section Slots

variable {s : Session} {c d : ConnPtr}

/-- Two live connections never share a slot. -/
theorem Sound.unique (sound : s.Sound) (alive : s.live c) (alive' : s.live d)
    (same : (s.conn c).loc = (s.conn d).loc) : c = d := by
  obtain ⟨issued, slots⟩ := sound.slots
  have home := (slots.home (s.conn c).loc c).mpr ⟨alive, rfl⟩
  rw [(slots.home (s.conn c).loc d).mpr ⟨alive', same.symm⟩] at home
  exact (Option.some.inj home).symm

theorem Sound.fresh (sound : s.Sound) (alive : s.live c) : c < s.nextConn := by
  obtain ⟨issued, slots⟩ := sound.slots
  exact slots.fresh c alive

theorem Sound.old (sound : s.Sound) {u : UserPtr} (owner : (s.users u).conn = some c) :
    c < s.nextConn :=
  sound.fresh (sound.live_of_conn owner)

theorem Sound.only (sound : s.Sound) {u v : UserPtr} (owner : (s.users u).conn = some c)
    (owner' : (s.users v).conn = some c) : v = u :=
  Option.some.inj ((sound.user_of_conn owner').symm.trans (sound.user_of_conn owner))

/-- A connection that stays alive stays with its user. -/
theorem Act.user_of_live {t : Session} (sound : s.Sound) (step : Act s t) (live : s.live c)
    (alive : t.live c) : (t.conn c).user = (s.conn c).user := by
  cases step with
  | calm step =>
    rcases step.linked with linked | ⟨_, rfl⟩
    · exact linked.user c
    · rfl
  | connect sstate fd time ssl _ _ =>
    rw [conn_connect, if_neg (Nat.ne_of_lt (sound.fresh live))]
  | kill site _ _ => rw [conn_kill]
  | drained _ _ _ =>
    rw [conn_kill]
    exact ((Linked.refl s).pop _ _ _).user c
  | @userKill u d site _ _ =>
    rw [conn_userKill, if_neg ((live_userKill s d c u site).mp alive).1]
  | userReset _ => rfl

/-- The owner of a connection that stays alive was its owner before. -/
theorem Act.owner_of_live {t : Session} (sound : s.Sound) (step : Act s t) {u : UserPtr}
    (owner : (t.users u).conn = some c) (live : s.live c) : (s.users u).conn = some c := by
  obtain ⟨alive, user⟩ := ((sound.step step).owner u c).mp owner
  exact (sound.owner u c).mpr ⟨live, (step.user_of_live sound live alive).symm.trans user⟩

end Slots

end Session

end JabSimul
