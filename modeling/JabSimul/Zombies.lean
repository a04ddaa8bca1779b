import JabSimul.Consistency
import JabSimul.SessionFrame

/-!
Connections that are asked to close. The close is carried out when the queue of
such a connection is drained, so it depends on a packet being queued at the time
of the request.
-/
namespace JabSimul

namespace Session

variable {s t : Session} {c d : ConnPtr}

/-- Whether `poll` is asked for room for the packets of a connection. -/
def pollout (s : Session) (c : ConnPtr) : Bool := (s.thread.pfds (s.conn c).loc).pollout

/-- Room is asked for exactly when a packet waits. -/
def Armed (s : Session) : Prop :=
  ∀ c, s.live c → (s.pollout c = true ↔ (s.conn c).writer ≠ [])

/-- Every connection that is asked to close has a packet left to send. -/
def NoZombies (s : Session) : Prop :=
  ∀ c, s.live c → (s.conn c).state = .closing → (s.conn c).writer ≠ []

/-- Nobody asked to close a connection with an empty queue. -/
def FinishedQueued (trace : List Ev) : Prop := ∀ c n, .finishConn c n ∈ trace → 0 < n

theorem pollout_updPfd (sound : s.Sound) (alive : s.live c) (alive' : s.live d)
    (f : Pollfd → Pollfd) : (s.updPfd (s.conn c).loc f).pollout d =
      if d = c then (f (s.thread.pfds (s.conn c).loc)).pollout else s.pollout d := by
  unfold pollout
  rw [conn_updPfd]
  change (Function.update s.thread.pfds (s.conn c).loc _ (s.conn d).loc).pollout = _
  split
  · subst d
    rw [Function.update_self]
  · rw [Function.update_of_ne]
    exact fun same => ‹¬d = c› (sound.unique alive' alive same)

/-- What one step can do to the queue of a connection that is alive after it. -/
inductive QueueStep (s t : Session) (d : ConnPtr) : Prop
  | kept (live : s.live d) (pollout : t.pollout d = s.pollout d)
      (writer : (t.conn d).writer = [] ↔ (s.conn d).writer = [])
      (state : (t.conn d).state = (s.conn d).state)
  | accepted (live : s.live d) (pollout : t.pollout d = true) (writer : (t.conn d).writer ≠ [])
  | popped (live : s.live d) (before : (s.conn d).writer ≠ [])
      (pollout : t.pollout d = if (t.conn d).writer = [] then !s.pollout d else s.pollout d)
      (stays : (t.conn d).writer ≠ [] ∨ (t.conn d).state ≠ .closing)
  | finished (live : s.live d) (pollout : t.pollout d = s.pollout d)
      (writer : (t.conn d).writer = (s.conn d).writer)
      (noted : .finishConn d (s.conn d).writer.length ∈ t.trace)
  | opened (pollout : t.pollout d = false) (writer : (t.conn d).writer = [])
      (state : (t.conn d).state ≠ .closing)

/-- A step that changes neither the slots nor what the invariants see of `d`. -/
theorem QueueStep.of_same (live : s.live d) (pfds : t.thread.pfds = s.thread.pfds)
    (conn : t.conn d = { s.conn d with
      sstate := (t.conn d).sstate, xmlNeedResponsesQueue := (t.conn d).xmlNeedResponsesQueue }) :
    QueueStep s t d :=
  .kept live (by rw [pollout, pollout, pfds, conn]) (by rw [conn]) (by rw [conn])

theorem QueueStep.of_conn (live : s.live d) (pfds : t.thread.pfds = s.thread.pfds)
    (conn : t.conn d = s.conn d) : QueueStep s t d :=
  .of_same live pfds (by rw [conn])

/-- The queue is longer afterwards, whatever else is registered. -/
theorem QueueStep.of_accept (sound : s.Sound) (alive : s.live c) (live : s.live d)
    (text : Option CString) (pfds : t.thread.pfds = (s.accept c text).thread.pfds)
    (conn : t.conn d = { (s.accept c text).conn d with
      xmlNeedResponsesQueue := (t.conn d).xmlNeedResponsesQueue }) : QueueStep s t d := by
  have loc : (t.conn d).loc = (s.conn d).loc := by
    rw [conn]
    exact ((Linked.refl s).accept c text).loc d
  have armed : t.pollout d = if d = c then true else s.pollout d := by
    have same := pollout_updPfd sound alive live fun p => { p with pollout := true }
    rw [pollout, pfds, loc]
    exact same
  rw [conn_accept] at conn
  by_cases here : d = c
  · rw [if_pos here] at armed conn
    exact .accepted live armed (by rw [conn]; simp)
  · rw [if_neg here] at armed conn
    exact .kept live armed (by rw [conn]) (by rw [conn])

theorem QueueStep.of_pop (sound : s.Sound) (alive : s.live c) (live : s.live d) {text : CString}
    {next : List JpolldWriteBuf} (queue : (s.conn c).writer = ⟨some text⟩ :: next)
    (stays : next ≠ [] ∨ (s.conn c).state ≠ .closing) : QueueStep s (s.pop c text next) d := by
  have loc : ((s.pop c text next).conn d).loc = (s.conn d).loc :=
    ((Linked.refl s).pop c text next).loc d
  have armed : (s.pop c text next).pollout d =
      if d = c ∧ next = [] then !s.pollout c else s.pollout d := by
    rw [pollout, loc]
    by_cases last : next = []
    · subst last
      have toggled := pollout_updPfd sound alive live fun p => { p with pollout := !p.pollout }
      rw [pop]
      simp only [if_true, and_true]
      exact toggled
    · rw [if_neg (by simp [last]), pop]
      simp only [last, if_false]
      rfl
  by_cases here : d = c
  · subst d
    refine .popped live (by simp [queue]) ?_ ?_
    · rw [armed, conn_pop]
      simp
    · rw [conn_pop]
      exact stays
  · refine .kept live (by rw [armed, if_neg (by simp [here])]) ?_ ?_
    · rw [conn_pop_of, if_neg here]
    · rw [conn_pop_of, if_neg here]

theorem QueueStep.of_advance (live : s.live d) {text : CString} {next : List JpolldWriteBuf}
    (queue : (s.conn c).writer = ⟨some text⟩ :: next) (k : Nat) :
    QueueStep s (s.advance c text next k) d := by
  by_cases here : d = c
  · subst d
    refine .kept live ?_ ?_ ?_
    · rw [pollout, conn_advance, if_pos rfl]
      rfl
    · rw [conn_advance, if_pos rfl]
      simp [queue]
    · rw [conn_advance, if_pos rfl]
  · exact .of_conn live rfl (by rw [conn_advance, if_neg here])

theorem QueueStep.of_finish (live : s.live d) (c : ConnPtr) : QueueStep s (s.finish c) d := by
  by_cases here : d = c
  · subst d
    refine .finished live ?_ ?_ (List.mem_cons_self ..)
    · rw [pollout, conn_finish, if_pos rfl]
      rfl
    · rw [conn_finish, if_pos rfl]
  · exact .of_conn live rfl (by rw [conn_finish, if_neg here])

theorem thread_registers (s : Session) (c : ConnPtr) (es : List XmlNeedResponse) :
    (es.foldl (fun s e => s.register c e) s).thread = s.thread := by
  induction es generalizing s with
  | nil => rfl
  | cons e es ih => rw [List.foldl_cons, ih]; rfl

theorem Calm.queueStep (sound : s.Sound) (step : Calm s t) (alive : t.live d) :
    QueueStep s t d := by
  have live : s.live d := by
    rcases step.linked with linked | ⟨_, rfl⟩
    · exact (linked.live d).mp alive
    · exact alive
  cases step with
  | note e _ => exact .of_conn live rfl rfl
  | draw u => exact .of_conn live rfl rfl
  | refill _ => exact .of_conn live rfl rfl
  | write text there => exact .of_accept sound there live text rfl rfl
  | @ask c text es there _ _ _ =>
    refine .of_accept sound there live (some text) ?_ ?_
    · rw [Session.ask, thread_registers]
    · rw [conn_ask, conn_accept]
      split <;> rfl
  | advance there queue _ => exact .of_advance live queue _
  | pop there queue stays => exact .of_pop sound there live queue stays
  | connected c =>
    refine .of_same live rfl ?_
    rw [conn_updConn]
    split <;> rfl
  | finish _ => exact .of_finish live _
  | root _ => exact .of_conn live rfl rfl
  | stanza x _ => exact .of_conn live rfl rfl
  | dispatch _ _ _ _ =>
    refine .of_same live rfl ?_
    rw [conn_dispatch]
    split <;> rfl
  | @login u c text time owner _ _ _ =>
    refine .of_accept sound (sound.live_of_conn owner) live (some text) rfl ?_
    rw [conn_login, conn_accept]
    split <;> rfl
  | loggedIn _ _ _ _ => exact .of_conn live rfl rfl
  | fetch _ => exact .of_conn live rfl rfl
  | @rosterAsk u c text time callback owner _ _ _ =>
    refine .of_accept sound (sound.live_of_conn owner) live (some text) ?_ ?_
    · have loc : ((s.rosterRegister u c ⟨jcomId idBufSize (s.users u).tmpid, time,
          callback⟩).conn c).loc = (s.conn c).loc := ((Linked.refl s).rosterRegister u c _).loc c
      simp only [Session.accept, Session.emit, Session.updPfd, loc]
      rfl
    · rw [conn_accept, conn_accept, conn_rosterRegister]
      split <;> rfl
  | rosterCancel _ _ _ =>
    refine .of_same live rfl ?_
    rw [conn_emit, conn_rosterRegister]
    split <;> rfl
  | roster _ _ => exact .of_conn live rfl rfl
  | privLoaded _ => exact .of_conn live rfl rfl
  | privDeleted u => exact .of_conn live rfl rfl

/-- A kill leaves the slots of the other connections alone. -/
theorem QueueStep.of_release (sound : s.Sound) (alive : s.live c) (live : s.live d) (other : d ≠ c)
    (thread : t.thread.pfds = (s.release c).thread.pfds) (conn : t.conn d = s.conn d) :
    QueueStep s t d := by
  have apart : (s.conn d).loc ≠ (s.conn c).loc := fun same =>
    other (sound.unique live alive same)
  refine .kept live ?_ (by rw [conn]) (by rw [conn])
  rw [pollout, pollout, thread, conn]
  simp only [release, Function.update_of_ne apart]

theorem QueueStep.of_connect (sound : s.Sound) {u : UserPtr} {loc : Nat} {next : List Nat}
    {sstate : SockState} {fd time : Int} {ssl : Bool}
    (alive : (s.connect u loc next sstate fd time ssl).live d) (slot : s.thread.npfd = loc :: next) :
    QueueStep s (s.connect u loc next sstate fd time ssl) d := by
  have pfds : (s.connect u loc next sstate fd time ssl).thread.pfds =
      Function.update s.thread.pfds loc ⟨fd, true, false⟩ := rfl
  have conn := conn_connect s d u loc next sstate fd time ssl
  by_cases new : d = s.nextConn
  · rw [if_pos new] at conn
    refine .opened ?_ (by rw [conn]) (by rw [conn]; simp)
    rw [pollout, conn, pfds]
    simp
  · rw [if_neg new] at conn
    have live : s.live d := by
      rcases (live_connect s d u loc next sstate fd time ssl).mp alive with same | old
      · exact absurd same new
      · exact old
    have taken : (s.conn d).loc ≠ loc := by
      obtain ⟨issued, slots⟩ := sound.slots
      have unowned : s.thread.conns loc = none := slots.valid.apart loc (by
        change loc ∈ s.thread.npfd
        simp [slot])
      rintro rfl
      rw [(slots.home _ d).mpr ⟨live, rfl⟩] at unowned
      cases unowned
    refine .kept live ?_ (by rw [conn]) (by rw [conn])
    rw [pollout, pollout, conn, pfds, Function.update_of_ne taken]

/-- The connection that is drained dies; the others are where they were. -/
theorem QueueStep.of_drained (sound : s.Sound) (there : s.live c) {text : CString}
    (alive : ((s.pop c text []).kill c .writeDrained).live d) :
    QueueStep s ((s.pop c text []).kill c .writeDrained) d := by
  obtain ⟨other, popped⟩ := (live_kill (s.pop c text []) c .writeDrained d).mp alive
  have live : s.live d := (live_pop s c d text []).mp popped
  have linked := (Linked.refl s).pop c text []
  have conn : (s.pop c text []).conn d = s.conn d := by rw [conn_pop_of, if_neg other]
  have apart : (s.conn d).loc ≠ (s.conn c).loc := fun same => other (sound.unique live there same)
  refine .kept live ?_ (by rw [conn_kill, conn]) (by rw [conn_kill, conn])
  rw [pollout, thread_kill, conn_kill, conn]
  simp only [release, linked.loc, Function.update_of_ne apart]
  simp only [pop, if_true, updPfd, updConn, emit, Function.update_of_ne apart]
  rfl

theorem Act.queueStep (sound : s.Sound) (step : Act s t) (alive : t.live d) :
    QueueStep s t d := by
  cases step with
  | calm step => exact step.queueStep sound alive
  | @connect u loc next sstate fd time ssl idle slot => exact .of_connect sound alive slot
  | @kill c site there _ =>
    obtain ⟨other, live⟩ := (live_kill s c site d).mp alive
    exact .of_release sound there live other (by rw [thread_kill]) (by rw [conn_kill])
  | drained there _ _ => exact .of_drained sound there alive
  | @userKill u c site owner _ =>
    obtain ⟨other, live⟩ := (live_userKill s c d u site).mp alive
    refine .of_release sound (sound.live_of_conn owner) live other ?_ ?_
    · change (((s.updConn c _).kill c site).thread).pfds = _
      rw [thread_kill]
      simp only [release, conn_updConn_self]
      rfl
    · rw [conn_userKill, if_neg other]
  | userReset _ => exact .of_conn alive rfl rfl

theorem Armed.step (sound : s.Sound) (step : Act s t) (armed : Armed s) : Armed t := by
  intro d alive
  cases step.queueStep sound alive with
  | kept live pollout writer _ => rw [pollout, armed d live, ne_eq, ne_eq, writer]
  | accepted _ pollout writer => simp [pollout, writer]
  | popped live before pollout _ =>
    have was := (armed d live).mpr before
    by_cases empty : (t.conn d).writer = []
    · simp [pollout, empty, was]
    · simp [pollout, empty, was]
  | finished live pollout writer _ => rw [pollout, writer, armed d live]
  | opened pollout writer _ => simp [pollout, writer]

theorem NoZombies.step (sound : s.Sound) (step : Act s t) (queued : FinishedQueued t.trace)
    (none : NoZombies s) : NoZombies t := by
  intro d alive closing
  cases step.queueStep sound alive with
  | kept live _ writer state => exact fun empty => none d live (state ▸ closing) (writer.mp empty)
  | accepted _ _ writer => exact writer
  | popped _ _ _ stays => exact stays.resolve_right (not_not.mpr closing)
  | finished _ _ writer noted =>
    rw [writer]
    exact List.ne_nil_of_length_pos (queued d _ noted)
  | opened _ _ state => exact absurd closing state

theorem FinishedQueued.suffix {older newer : List Ev} (queued : FinishedQueued newer)
    (suffix : older <:+ newer) : FinishedQueued older :=
  fun c n noted => queued c n (suffix.subset noted)

theorem Initial.armed (initial : s.Initial) : Armed s := fun c alive =>
  absurd alive (initial.dead c)

theorem Initial.noZombies (initial : s.Initial) : NoZombies s := fun c alive =>
  absurd alive (initial.dead c)

end Session

theorem Reachable.armed {w : World} (reach : Reachable w) : w.session.Armed :=
  reach.induct (K := Session.Armed) (fun _ initial => initial.armed) fun sound step armed =>
    armed.step sound step

theorem Reachable.noZombies {w : World} (reach : Reachable w)
    (queued : Session.FinishedQueued w.trace) : w.session.NoZombies := by
  have run := reach.induct (K := fun s => Session.FinishedQueued s.trace → s.NoZombies)
    (fun _ initial _ => initial.noZombies) fun sound step none queued =>
      Session.NoZombies.step sound step queued (none (queued.suffix step.trace_suffix))
  exact run queued

/-- In a run in which every request to close a connection found a packet in its
queue, a connection that is to be closed is watched until it is drained. -/
theorem closing_conns_drain {w : World} (reach : Reachable w)
    (queued : ∀ c n, .finishConn c n ∈ w.trace → 0 < n) (c : ConnPtr)
    (live : (w.heap c).live = true) (closing : (w.heap c).conn.state = .closing) :
    (w.heap c).conn.writer ≠ [] ∧ (w.thread.pfds (w.heap c).conn.loc).pollout = true := by
  have waiting := reach.noZombies queued c live closing
  exact ⟨waiting, (reach.armed c live).mpr waiting⟩

/-- The end of the bytes of a stream. -/
def hangup : Revents := .pollin ⟨0, false, []⟩

/-- The server hangs up while the greeting is still queued. -/
def hungUpEarly : World :=
  (plainWorld [connectEvent]).played [(.job 0 5, plainEnv), (.slot 2 hangup, plainEnv)]

/-- The server hangs up when the greeting is gone. -/
def hungUpLate : World :=
  (plainWorld [connectEvent]).played
    [(.job 0 5, plainEnv), (.slot 2 .pollout, plainEnv), (.slot 2 hangup, plainEnv)]

/-- The number of packets that a request to close a connection found. -/
def Ev.finishQueued : Ev → Option Nat
  | .finishConn _ n => some n
  | _ => none

theorem closing_conns_drain_early :
    (hungUpEarly.heap 0).conn.writer ≠ [] ∧
      (hungUpEarly.thread.pfds (hungUpEarly.heap 0).conn.loc).pollout = true := by
  have reach : Reachable hungUpEarly :=
    reachable_played (.init (plainWorld_initial [connectEvent])) _
  have found : hungUpEarly.trace.filterMap Ev.finishQueued = [1] := by decide +kernel
  refine closing_conns_drain reach (fun c n noted => ?_) 0 (by decide +kernel) (by decide +kernel)
  have one : n ∈ hungUpEarly.trace.filterMap Ev.finishQueued :=
    List.mem_filterMap.mpr ⟨_, noted, rfl⟩
  simp only [found, List.mem_singleton] at one
  omega

/-- With an empty queue nothing will ever close the connection. -/
theorem hungUpLate_stays : ¬∀ w, Reachable w → ∀ c, (w.heap c).live = true →
    (w.heap c).conn.state = .closing → (w.heap c).conn.writer ≠ [] ∧
      (w.thread.pfds (w.heap c).conn.loc).pollout = true := by
  intro claim
  have reach : Reachable hungUpLate :=
    reachable_played (.init (plainWorld_initial [connectEvent])) _
  have waiting := claim _ reach 0 (by decide +kernel) (by decide +kernel)
  have drained : (hungUpLate.heap 0).conn.writer = [] := by decide +kernel
  exact waiting.1 drained

end JabSimul
