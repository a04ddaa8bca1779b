import JabSimul.ThreadRefinement
import JabSimul.SessionFrame

/-!
The answers that a connection waits for. Every request is registered under an
identifier that stands in its text; whether the text was accepted, and whether
the identifier was in use, is what the two invariants below depend on.
-/
namespace JabSimul

instance (text id : CString) : Decidable (Asks text id) :=
  inferInstanceAs (Decidable (_ ∨ _))

/-- A packet that asks for the answer `id` was accepted on `c`. -/
def Ev.acceptsFor (c : ConnPtr) (id : CString) : Ev → Bool
  | .accepted d (some text) => d = c ∧ Asks text id
  | _ => false

namespace Session

variable {s t : Session} {c d : ConnPtr} {u : UserPtr}

def queue (s : Session) (c : ConnPtr) : List XmlNeedResponse := (s.conn c).xmlNeedResponsesQueue

/-- What one step can do to the answers that a live connection waits for. -/
inductive PendingStep (s t : Session) (c : ConnPtr) : Prop
  | kept (live : s.live c) (queue : (t.queue c).Sublist (s.queue c))
  | opened (queue : t.queue c = [])
  | asked (text : CString) (es : List XmlNeedResponse) (live : s.live c)
      (queue : t.queue c = es.reverse ++ s.queue c) (asks : ∀ e ∈ es, Asks text e.id)
      (distinct : (es.map XmlNeedResponse.id).Nodup) (plain : ∀ e ∈ es, ¬IsJcomId e.id)
      (accepted : .accepted c (some text) :: s.trace <:+ t.trace)
  | requested (u : UserPtr) (e : XmlNeedResponse) (force : Bool) (live : s.live c)
      (owner : (s.users u).conn = some c) (queue : t.queue c = e :: s.queue c)
      (id : e.id = jcomId idBufSize (s.users u).tmpid)
      (drawn : (t.users u).tmpid = (s.users u).tmpid + 1)
      (noted : .requested c (s.users u).tmpid force (s.conn c).writer.length (s.queue c) ∈ t.trace)
      (sent : (∃ text es, t.trace = es ++ s.trace ∧ .accepted c (some text) ∈ es ∧ Asks text e.id) ∨
        force = false ∧ (s.conn c).full)

theorem PendingStep.same (live : s.live c) (queue : t.queue c = s.queue c) : PendingStep s t c :=
  .kept live (queue ▸ List.Sublist.refl _)

theorem tmpid_login (s : Session) (u v : UserPtr) (c : ConnPtr) (text : CString)
    (e : XmlNeedResponse) : ((s.login u c text e).users v).tmpid =
      if v = u then (s.users u).tmpid + 1 else (s.users v).tmpid := by
  change (((s.updParty u fun p => { p with tmpid := p.tmpid + 1 }).updParty u
    fun p => { p with state := .isLogging }).users v).tmpid = _
  rw [users_updParty, users_updParty_self, users_updParty]
  split <;> rfl

theorem tmpid_draw (s : Session) (u v : UserPtr) : ((s.draw u).users v).tmpid =
    if v = u then (s.users u).tmpid + 1 else (s.users v).tmpid := by
  change ((s.updParty u fun p => { p with tmpid := p.tmpid + 1 }).users v).tmpid = _
  rw [users_updParty]
  split <;> rfl

section Registered

variable {text : CString} (live : s.live c) (owner : (s.users u).conn = some d)
include live owner

theorem PendingStep.login (asks : Asks text (jcomId idBufSize (s.users u).tmpid)) (time : Int) :
    PendingStep s (s.login u d text
      ⟨jcomId idBufSize (s.users u).tmpid, time, some .handleLoginResponse⟩) c := by
  by_cases here : c = d
  · subst d
    refine .requested u ⟨_, time, some .handleLoginResponse⟩ true live owner ?_ rfl ?_ ?_
      (.inl ⟨text, _, trace_login s c u text _, by simp, asks⟩)
    · rw [queue, conn_login, if_pos rfl]
      rfl
    · rw [tmpid_login, if_pos rfl]
    · rw [trace_login]
      simp [queue]
  · refine .same live ?_
    rw [queue, conn_login, if_neg here]
    rfl

theorem PendingStep.rosterAsk (asks : Asks text (jcomId idBufSize (s.users u).tmpid)) (time : Int)
    (callback : Option Callback) :
    PendingStep s ((s.rosterRegister u d ⟨jcomId idBufSize (s.users u).tmpid, time, callback⟩).accept d
      (some text)) c := by
  by_cases here : c = d
  · subst d
    refine .requested u ⟨_, time, callback⟩ false live owner ?_ rfl ?_ ?_
      (.inl ⟨text, .accepted c (some text) :: _, congrArg _ (trace_rosterRegister s c u _),
        by simp, asks⟩)
    · rw [queue, conn_accept, if_pos rfl, conn_rosterRegister, if_pos rfl]
      rfl
    · exact (tmpid_draw s u u).trans (if_pos rfl)
    · refine List.mem_cons_of_mem _ ?_
      change _ ∈ (s.rosterRegister u c _).trace
      rw [trace_rosterRegister]
      simp [queue]
  · refine .same live ?_
    rw [queue, conn_accept, if_neg here, conn_rosterRegister, if_neg here]
    rfl

theorem PendingStep.rosterCancel (full : (s.conn d).full) (time : Int)
    (callback : Option Callback) (refused : Option CString) :
    PendingStep s ((s.rosterRegister u d ⟨jcomId idBufSize (s.users u).tmpid, time, callback⟩).emit
      (.rejected d refused)) c := by
  by_cases here : c = d
  · subst d
    refine .requested u ⟨_, time, callback⟩ false live owner ?_ rfl ?_ ?_ (.inr ⟨rfl, full⟩)
    · rw [queue, conn_emit, conn_rosterRegister, if_pos rfl]
      rfl
    · exact (tmpid_draw s u u).trans (if_pos rfl)
    · refine List.mem_cons_of_mem _ ?_
      rw [trace_rosterRegister]
      simp [queue]
  · refine .same live ?_
    rw [queue, conn_emit, conn_rosterRegister, if_neg here]
    rfl

end Registered

theorem Calm.pendingStep (step : Calm s t) (alive : t.live c) :
    PendingStep s t c := by
  have live : s.live c := by
    rcases step.linked with linked | ⟨_, rfl⟩
    · exact (linked.live c).mp alive
    · exact alive
  cases step with
  | note e _ => exact .same live rfl
  | draw u => exact .same live rfl
  | refill _ => exact .same live rfl
  | @write d text there =>
    refine .same live ?_
    rw [queue, conn_accept]
    split <;> rfl
  | @ask d text es there asks plain distinct =>
    by_cases here : c = d
    · subst d
      refine .asked text es live ?_ asks distinct (fun e mem => (plain e mem).2) ?_
      · rw [queue, conn_ask, if_pos rfl]
        rfl
      · rw [trace_ask]
        exact List.suffix_append _ _
    · refine .same live ?_
      rw [queue, conn_ask, if_neg here]
      rfl
  | @advance d text next k _ _ _ =>
    refine .same live ?_
    rw [queue, conn_advance]
    split <;> rfl
  | @pop d text next _ _ _ =>
    refine .same live ?_
    rw [queue, conn_pop_of]
    split <;> rfl
  | connected d =>
    refine .same live ?_
    rw [queue, conn_updConn]
    split <;> rfl
  | @finish u d _ =>
    refine .same live ?_
    rw [queue, conn_finish]
    split <;> rfl
  | root _ => exact .same live rfl
  | stanza x _ => exact .same live rfl
  | @dispatch u d x id e rest _ _ _ _ found =>
    obtain ⟨_, before, later, queue_eq, rest_eq, _⟩ := xmlNeedResponseNodeGet_eq found
    by_cases here : c = d
    · subst d
      refine .kept live ?_
      rw [queue, conn_dispatch, if_pos rfl, queue, queue_eq, rest_eq]
      exact (List.sublist_cons_self e later).append_left before
    · refine .same live ?_
      rw [queue, conn_dispatch, if_neg here]
      rfl
  | login owner _ _ asks => exact .login live owner asks _
  | loggedIn _ _ _ _ => exact .same live rfl
  | fetch _ => exact .same live rfl
  | rosterAsk owner _ _ asks => exact .rosterAsk live owner asks _ _
  | rosterCancel owner _ full => exact .rosterCancel live owner full _ _ _
  | roster _ _ => exact .same live rfl
  | privLoaded _ => exact .same live rfl
  | privDeleted u => exact .same live rfl

theorem Act.pendingStep (step : Act s t) (alive : t.live c) : PendingStep s t c := by
  cases step with
  | calm step => exact step.pendingStep alive
  | @connect u loc next sstate fd time ssl _ _ =>
    by_cases new : c = s.nextConn
    · refine .opened ?_
      rw [queue, conn_connect, if_pos new]
    · refine .same (((live_connect s c u loc next sstate fd time ssl).mp alive).resolve_left new) ?_
      rw [queue, conn_connect, if_neg new]
      rfl
  | @kill d site _ _ =>
    refine .same ((live_kill s d site c).mp alive).2 ?_
    rw [queue, conn_kill]
    rfl
  | @drained d text _ _ _ =>
    have there := ((live_kill (s.pop d text []) d .writeDrained c).mp alive).2
    refine .same ((live_pop s d c text []).mp there) ?_
    rw [queue, conn_kill, conn_pop_of]
    split <;> rfl
  | @userKill u d site _ _ =>
    obtain ⟨other, there⟩ := (live_userKill s d c u site).mp alive
    refine .same there ?_
    rw [queue, conn_userKill, if_neg other]
    rfl
  | userReset _ => exact .same alive rfl

/-- No roster request was made on a connection with a full queue. -/
def RoomForRequests (trace : List Ev) : Prop :=
  ∀ c n queued outstanding, .requested c n false queued outstanding ∈ trace →
    queued ≤ maxPacksBuffered

/-- As many packets that ask for an answer were accepted as wait for it. -/
def Accepted (s : Session) : Prop :=
  ∀ c, s.live c → ∀ id, (s.queue c).countP (fun e => e.id = id) ≤
    s.trace.countP (Ev.acceptsFor c id)

theorem countP_suffix {p : Ev → Bool} {older newer : List Ev} (suffix : older <:+ newer) :
    older.countP p ≤ newer.countP p :=
  suffix.sublist.countP_le

theorem countP_id_le_one {es : List XmlNeedResponse}
    (distinct : (es.map XmlNeedResponse.id).Nodup) (id : CString) :
    es.countP (fun e => e.id = id) ≤ 1 := by
  have once := List.nodup_iff_count_le_one.mp distinct id
  rw [List.count, List.countP_map] at once
  refine Nat.le_trans (Nat.le_of_eq (List.countP_congr fun e _ => ?_)) once
  simp

theorem Accepted.step (step : Act s t) (room : RoomForRequests t.trace) (accepted : Accepted s) :
    Accepted t := by
  intro c alive id
  have grows := countP_suffix (p := Ev.acceptsFor c id) step.trace_suffix
  cases step.pendingStep alive with
  | kept live queue =>
    have before := accepted c live id
    have fewer := queue.countP_le (p := fun e => decide (e.id = id))
    omega
  | opened queue => simp [queue]
  | asked text es live queue asks distinct _ packet =>
    have before := accepted c live id
    have more := countP_suffix (p := Ev.acceptsFor c id) packet
    rw [queue, List.countP_append, List.countP_reverse]
    by_cases wanted : ∃ e ∈ es, e.id = id
    · obtain ⟨e, mem, rfl⟩ := wanted
      have once := countP_id_le_one distinct e.id
      rw [List.countP_cons_of_pos (by simp [Ev.acceptsFor, asks e mem])] at more
      omega
    · have none : es.countP (fun e => decide (e.id = id)) = 0 :=
        List.countP_eq_zero.mpr fun e mem => by simpa using fun same => wanted ⟨e, mem, same⟩
      omega
  | requested u e force live _ queue _ _ noted sent =>
    have before := accepted c live id
    rw [queue]
    by_cases wanted : e.id = id
    · subst wanted
      rw [List.countP_cons_of_pos (by simp)]
      rcases sent with ⟨text, es, trace, mem, asks⟩ | ⟨unforced, full⟩
      · have new : 0 < es.countP (Ev.acceptsFor c e.id) :=
          List.countP_pos_iff.mpr ⟨_, mem, by simp [Ev.acceptsFor, asks]⟩
        rw [trace, List.countP_append]
        omega
      · subst unforced
        exact absurd (room _ _ _ _ noted) (Nat.not_le.mpr full)
    · rw [List.countP_cons_of_neg (by simpa using wanted)]
      omega

theorem RoomForRequests.suffix {older newer : List Ev} (room : RoomForRequests newer)
    (suffix : older <:+ newer) : RoomForRequests older :=
  fun c n queued outstanding noted => room c n queued outstanding (suffix.subset noted)

end Session

theorem Reachable.accepted {w : World} (reach : Reachable w)
    (room : Session.RoomForRequests w.trace) : w.session.Accepted := by
  have run := reach.induct (K := fun s => Session.RoomForRequests s.trace → s.Accepted)
    (fun _ initial _ c alive => absurd alive (initial.dead c)) fun _ step accepted room =>
      Session.Accepted.step step room (accepted (room.suffix step.trace_suffix))
  exact run room

/-- The operations of a user that await an answer. -/
inductive Request where
  | loginPlain
  | loginDigest
  | fetchProperities
  | fetchExtcontacts
  | rosterItem (jidFull : CString) (name : Option CString) (del : Bool)

def Request.run (r : Request) (u : UserPtr) (curtime : Int) : M Int :=
  match r with
  | .loginPlain => userDoLoginPlain u curtime
  | .loginDigest => userDoLoginDigest u curtime
  | .fetchProperities => userDoFetchProperities u curtime
  | .fetchExtcontacts => userDoFetchExtcontacts u curtime
  | .rosterItem jidFull name del => userDoAdddelRosterItem u curtime jidFull name del

def Request.isRosterItem : Request → Bool
  | .rosterItem _ _ _ => true
  | _ => false

def Ev.rejects (c : ConnPtr) : Ev → Bool
  | .rejected d _ => d = c
  | _ => false

/-- Where the queue rejects the request, no answer is awaited. -/
def World.AwaitsOnlySent (w : World) (u : UserPtr) (c : ConnPtr) (r : Request) (curtime : Int) :
    Prop :=
  ∀ ret w', r.run u curtime w = .ok ret w' →
    w.trace.countP (Ev.rejects c) < w'.trace.countP (Ev.rejects c) →
      (w'.heap c).conn.xmlNeedResponsesQueue = (w.heap c).conn.xmlNeedResponsesQueue

section Operations

variable {w : World} {u : UserPtr} {c : ConnPtr} {curtime : Int}

/-- A request that is never rejected. -/
theorem awaitsOnlySent_of_unrejected {r : Request} {w' : World} (ran : r.run u curtime w = .ok 0 w')
    (unrejected : w'.trace.countP (Ev.rejects c) = w.trace.countP (Ev.rejects c)) :
    w.AwaitsOnlySent u c r curtime := by
  intro ret w'' ran' rejected
  rw [ran] at ran'
  cases ran'
  omega

theorem rejects_askFor (text : CString) (es : List XmlNeedResponse) :
    (w.askFor c text es).trace.countP (Ev.rejects c) = w.trace.countP (Ev.rejects c) := by
  have trace : (w.askFor c text es).trace = (w.session.ask c text es).trace :=
    congrArg Session.trace (session_askFor w text es)
  have none : (es.map (Ev.registered c)).countP (Ev.rejects c) = 0 :=
    List.countP_eq_zero.mpr fun e mem => by
      obtain ⟨r, _, rfl⟩ := List.mem_map.mp mem
      simp [Ev.rejects]
  rw [trace, Session.trace_ask, List.countP_append, List.countP_reverse, none, Nat.zero_add,
    List.countP_cons_of_neg (by simp [Ev.rejects])]
  rfl

theorem rejects_queueLogin (packet : CString) :
    (w.queueLogin u c packet curtime).trace.countP (Ev.rejects c) =
      w.trace.countP (Ev.rejects c) := by
  have trace := congrArg Session.trace
    (session_queueLogin (w := w) (u := u) (c := c) curtime packet)
  change (w.queueLogin u c packet curtime).trace = _ at trace
  rw [trace, Session.trace_login, List.countP_append]
  simp [Ev.rejects]

theorem rejects_rosterRegistered (del : Bool) :
    (w.rosterRegistered u c curtime del).trace.countP (Ev.rejects c) =
      w.trace.countP (Ev.rejects c) := by
  have trace := congrArg Session.trace
    (session_rosterRegistered (w := w) (u := u) (c := c) curtime del)
  change (w.rosterRegistered u c curtime del).trace = _ at trace
  rw [trace, Session.trace_rosterRegister, List.countP_append]
  simp [Ev.rejects]

/-- The answer to a change of the roster is awaited before the queue is asked. -/
theorem rosterRegistered_pending (del : Bool) :
    ∃ e, ((w.rosterRegistered u c curtime del).heap c).conn.xmlNeedResponsesQueue =
      e :: (w.heap c).conn.xmlNeedResponsesQueue := by
  refine ⟨⟨jcomId idBufSize (w.users u).tmpid, curtime, some (if del then
    .handleDelRosterItemResponse else .handleAddRosterItemResponse)⟩, ?_⟩
  change ((w.rosterRegistered u c curtime del).session.conn c).xmlNeedResponsesQueue = _
  rw [session_rosterRegistered, Session.conn_rosterRegister, if_pos rfl]
  rfl

theorem awaitsOnlySent_iff (owner : (w.users u).conn = some c) (r : Request) :
    w.AwaitsOnlySent u c r curtime ↔ (r.isRosterItem = true → ¬(w.heap c).conn.full) := by
  cases r with
  | loginPlain =>
    refine iff_of_true (awaitsOnlySent_of_unrejected (userDoLogin_apply curtime _ owner) ?_) nofun
    exact rejects_queueLogin _
  | loginDigest =>
    refine iff_of_true (awaitsOnlySent_of_unrejected (userDoLogin_apply curtime _ owner) ?_) nofun
    exact rejects_queueLogin _
  | fetchProperities =>
    refine iff_of_true
      (awaitsOnlySent_of_unrejected (userDoFetchProperities_apply curtime owner) ?_) nofun
    rw [rejects_askFor, rejects_askFor]
    exact List.countP_cons_of_neg (by simp [Ev.rejects])
  | fetchExtcontacts =>
    refine iff_of_true
      (awaitsOnlySent_of_unrejected (userDoFetchExtcontacts_apply curtime owner) ?_) nofun
    exact rejects_askFor _ _
  | rosterItem jidFull name del =>
    have full : ((w.rosterRegistered u c curtime del).heap c).conn.full ↔ (w.heap c).conn.full := by
      unfold JpolldConn.full
      rw [rosterRegistered_writer]
    have ran := userDoAdddelRosterItem_apply curtime owner jidFull name del
    constructor
    · intro keeps _ crowded
      rw [jpolldConnEnqueue_full (full.mpr crowded)] at ran
      have refused := session_rejectPacket (w.rosterRegistered u c curtime del) c
        (some (xmlnode2str (rosterRequest (w.users u).tmpid jidFull name del)))
      have trace := congrArg Session.trace refused
      change (World.rejectPacket _ _ _).trace = .rejected c _ :: World.trace _ at trace
      have conn := congrArg (fun s => s.conn c) refused
      simp only [conn_session, Session.conn_emit] at conn
      obtain ⟨e, pending⟩ := rosterRegistered_pending (w := w) (u := u) (c := c) del
      have kept := keeps _ _ ran (by
        rw [trace, List.countP_cons_of_pos (by simp [Ev.rejects]), rejects_rosterRegistered]
        exact Nat.lt_succ_self _)
      rw [conn, pending] at kept
      exact absurd kept (List.cons_ne_self _ _)
    · intro room
      rw [jpolldConnEnqueue_room (.inl (mt full.mp (room rfl)))] at ran
      refine awaitsOnlySent_of_unrejected ran ?_
      have trace := congrArg Session.trace
        (session_acceptPacket (w.rosterRegistered u c curtime del) c
          (some (xmlnode2str (rosterRequest (w.users u).tmpid jidFull name del))))
      change (World.acceptPacket _ _ _).trace = .accepted c _ :: World.trace _ at trace
      rw [trace, List.countP_cons_of_neg (by simp [Ev.rejects]), rejects_rosterRegistered]

end Operations

/-- An answer is awaited although its request was rejected exactly when a change
of the roster is asked for on a full queue. In a run without that, as many
accepted packets ask for an answer as wait for it. -/
theorem only_sent_awaited {w : World} (reach : Reachable w) :
    (∀ u c r curtime, (w.users u).conn = some c →
      (w.AwaitsOnlySent u c r curtime ↔ (r.isRosterItem = true → ¬(w.heap c).conn.full))) ∧
    ((∀ c n queued outstanding, .requested c n false queued outstanding ∈ w.trace →
      queued ≤ maxPacksBuffered) → ∀ c id, (w.heap c).live = true →
        (w.heap c).conn.xmlNeedResponsesQueue.countP (fun e => e.id = id) ≤
          w.trace.countP (Ev.acceptsFor c id)) :=
  ⟨fun _ _ r _ owner => awaitsOnlySent_iff owner r, fun room c id live =>
    reach.accepted room c live id⟩

/-- An event for a user that is logged in. -/
def sessionEvent (h : EventHandler) (counter : Int) (children : List XmlNode) : EventRepeater :=
  promptEvent h counter (some .loggedIn) (some (.tag (cstr "event") [] children))

def textNode (name : String) (text : CString) : XmlNode := .tag (cstr name) [] [.cdata text]

def addOlaEvent : EventRepeater :=
  sessionEvent .evAddRoster 1 [.tag (cstr "user") [] [textNode "jid" (cstr "ola@host")]]

/-- The server answers the login and the request for the roster. -/
def rosterScript : List (Input × Env) :=
  loginScript ++ [hears [.node (resultFor (cstr "JCOM_0") []), .node (resultFor (cstr "doroster_0")
    [.tag (cstr "query") [(cstr "xmlns", cstr "jabber:iq:roster")] []])]]

/-- So many bytes are sent at once that a new contact finds no room. -/
def crowdedWorld : World :=
  (plainWorld (connectEvent :: (List.replicate 6 (sessionEvent .evSendRawBytes 1
    [textNode "text" (cstr " ")]) ++ [addOlaEvent]))).played
      (rosterScript ++ [(.job 0 7, plainEnv)])

theorem reachable_crowdedWorld : Reachable crowdedWorld :=
  reachable_played (.init (plainWorld_initial _)) _

theorem crowdedWorld_awaits_unsent : ¬∀ w, Reachable w → ∀ c, (w.heap c).live = true →
    ∀ e ∈ (w.heap c).conn.xmlNeedResponsesQueue,
      0 < w.trace.countP (Ev.acceptsFor c e.id) := by
  intro claim
  have awaits : (crowdedWorld.heap 0).conn.xmlNeedResponsesQueue.all (fun e =>
      0 < crowdedWorld.trace.countP (Ev.acceptsFor 0 e.id)) = false := by decide +kernel
  have sent := claim _ reachable_crowdedWorld 0 (by decide +kernel)
  rw [List.all_eq_true.mpr fun e mem => by simpa using sent e mem] at awaits
  cases awaits

/-- A new contact is asked for while there is room. -/
def roomyWorld : World :=
  (plainWorld [connectEvent, addOlaEvent]).played (rosterScript ++ [(.job 0 7, plainEnv)])

/-- The number of packets that an unforced request found. -/
def Ev.requestQueued : Ev → Option Nat
  | .requested _ _ false queued _ => some queued
  | _ => none

theorem only_sent_awaited_roomy :
    roomyWorld.AwaitsOnlySent 0 0 .fetchExtcontacts 8 ∧
      (roomyWorld.heap 0).conn.xmlNeedResponsesQueue.countP (fun e => e.id = cstr "JCOM_1") ≤
        roomyWorld.trace.countP (Ev.acceptsFor 0 (cstr "JCOM_1")) := by
  have reach : Reachable roomyWorld := reachable_played (.init (plainWorld_initial _)) _
  have sent := only_sent_awaited reach
  have found : roomyWorld.trace.filterMap Ev.requestQueued = [5] := by decide +kernel
  refine ⟨(sent.1 0 0 .fetchExtcontacts 8 (by decide +kernel)).mpr nofun, ?_⟩
  refine sent.2 (fun c n queued outstanding noted => ?_) 0 (cstr "JCOM_1") (by decide +kernel)
  have five : queued ∈ roomyWorld.trace.filterMap Ev.requestQueued :=
    List.mem_filterMap.mpr ⟨_, noted, rfl⟩
  simp only [found, List.mem_singleton] at five
  rw [five]
  decide

end JabSimul
