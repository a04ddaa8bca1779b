import JabSimul.PendingRequests
import JabSimul.QueueMoves
import JabSimul.Lib.KeyedStack

/-!
The answers that a connection waits for, as a stack with identifiers for keys. What
was registered on a connection and what was dispatched there is a history of the
stack, which is the queue of the connection.
-/
namespace JabSimul

open Simulation Relation KeyedStack

/-- What an event does to the answers that are awaited on `c`. -/
def Ev.tableOp (c : ConnPtr) : Ev → Option (Op XmlNeedResponse)
  | .registered d e => if d = c then some (.push e) else none
  | .dispatched d e => if d = c then some (.take e) else none
  | _ => none

theorem xmlNeedResponseNodeGet_take (id : CString) (queue : List XmlNeedResponse) :
    xmlNeedResponseNodeGet id queue = take XmlNeedResponse.id id queue := by
  induction queue with
  | nil => rfl
  | cons e rest ih =>
    by_cases same : e.id = id
    · simp [xmlNeedResponseNodeGet, take_cons_same same, jStrcmp, same]
    · simp [xmlNeedResponseNodeGet, take_cons_other same, jStrcmp, same, ih]

namespace Session

def tableOps (s : Session) (c : ConnPtr) : List (Op XmlNeedResponse) :=
  s.trace.filterMap (Ev.tableOp c)

/-- Nothing was done to the answers awaited on `c` but that some were registered, and
that only if `L` holds. -/
def Grows (L : Prop) (c : ConnPtr) (s t : Session) : Prop :=
  ∃ es : List XmlNeedResponse, (es = [] ∨ L) ∧ t.tableOps c = es.map .push ++ s.tableOps c ∧
    t.queue c = es ++ s.queue c

variable {L : Prop} {c d : ConnPtr} {s t r : Session} {u : UserPtr}

theorem Grows.refl (c : ConnPtr) (s : Session) : Grows L c s s := ⟨[], .inl rfl, rfl, rfl⟩

theorem Grows.trans (first : Grows L c r s) (second : Grows L c s t) : Grows L c r t := by
  obtain ⟨es, known, ops, queue⟩ := first
  obtain ⟨es', known', ops', queue'⟩ := second
  refine ⟨es' ++ es, ?_, ?_, ?_⟩
  · rcases known with rfl | known
    · rw [List.append_nil]
      exact known'
    · exact .inr known
  · rw [ops', ops, List.map_append, List.append_assoc]
  · rw [queue', queue, List.append_assoc]

theorem Grows.mono {L' : Prop} (grows : Grows L c s t) (known : L') : Grows L' c s t := by
  obtain ⟨es, _, ops, queue⟩ := grows
  exact ⟨es, .inr known, ops, queue⟩

/-- The trace grew by events of other kinds. -/
theorem Grows.silent {l : List Ev} (trace : t.trace = l ++ s.trace)
    (others : l.filterMap (Ev.tableOp c) = []) (queue : t.queue c = s.queue c) : Grows L c s t := by
  refine ⟨[], .inl rfl, ?_, queue⟩
  rw [tableOps, trace, List.filterMap_append, others]
  rfl

theorem Grows.note (e : Ev) (other : e.tableOp c = none) : Grows L c s (s.emit e) :=
  .silent (l := [e]) rfl (by simp [other]) rfl

theorem tableOp_note {e : Ev} (isNote : e.IsNote) : e.tableOp c = none := by
  cases e with
  | registered d e => cases isNote
  | dispatched d e => cases isNote
  | _ => rfl

theorem Grows.accept (text : Option CString) : Grows L c s (s.accept d text) := by
  refine .silent (l := [.accepted d text]) rfl rfl ?_
  rw [queue, conn_accept]
  split <;> rfl

theorem Grows.register (known : c = d → L) (e : XmlNeedResponse) : Grows L c s (s.register d e) := by
  by_cases here : c = d
  · subst d
    refine ⟨[e], .inr (known rfl), ?_, ?_⟩
    · have op : (Ev.registered c e).tableOp c = some (.push e) := if_pos rfl
      exact List.filterMap_cons_some op
    · rw [queue, conn_register, if_pos rfl]
      rfl
  · refine .silent (l := [.registered d e]) rfl ?_ ?_
    · simp [Ev.tableOp, Ne.symm here]
    · rw [queue, conn_register, if_neg here]
      rfl

theorem Grows.ask (known : c = d → L) (text : CString) (es : List XmlNeedResponse) : Grows L c s (s.ask d text es) := by
  have registers : ∀ r : Session, Grows L c r (es.foldl (fun s e => s.register d e) r) := by
    induction es with
    | nil => exact fun r => .refl c r
    | cons e es ih => exact fun r => (Grows.register known e).trans (ih _)
  exact (Grows.accept _).trans (registers _)

theorem Grows.draw : Grows L c s (s.draw u) := .silent (l := [.idDrawn u _]) rfl rfl rfl

theorem Grows.request (n : Nat) (force : Bool) : Grows L c s (s.request d n force) := .note _ rfl

theorem Grows.rosterRegister (known : c = d → L) (e : XmlNeedResponse) :
    Grows L c s (s.rosterRegister u d e) :=
  (Grows.draw.trans (.request _ _)).trans (.register known e)

theorem Grows.login (known : c = d → L) (text : CString) (e : XmlNeedResponse) :
    Grows L c s (s.login u d text e) := by
  have asked : Grows L c s (((s.draw u).request d (s.users u).tmpid true).accept d (some text)) :=
    (Grows.draw.trans (.request _ _)).trans (.accept _)
  exact (asked.trans (Grows.register known e)).trans (.silent (l := [.loginQueued d e.id]) rfl rfl rfl)

theorem Grows.finish : Grows L c s (s.finish d) := by
  refine .silent (l := [.finishConn d _]) rfl rfl ?_
  rw [queue, conn_finish]
  split <;> rfl

/-- The events on each connection are a history that leads to its queue. -/
structure Replayed (s : Session) : Prop where
  unused : ∀ c, s.nextConn ≤ c → s.tableOps c = []
  history : ∀ c, s.live c ∨ s.tableOps c ≠ [] → History XmlNeedResponse.id (s.tableOps c) (s.queue c)

theorem Replayed.grow (replayed : s.Replayed) (sound : s.Sound) (next : t.nextConn = s.nextConn)
    (alive : ∀ c, t.live c → s.live c) (grows : ∀ c, Grows (s.live c) c s t) : t.Replayed := by
  constructor
  · intro c new
    rw [next] at new
    obtain ⟨es, known, ops, _⟩ := grows c
    rcases known with rfl | live
    · exact ops.trans (replayed.unused c new)
    · exact absurd (sound.fresh live) (Nat.not_lt.mpr new)
  · intro c there
    obtain ⟨es, known, ops, queue⟩ := grows c
    have before : s.live c ∨ s.tableOps c ≠ [] := by
      rcases there with live | some
      · exact .inl (alive c live)
      · rcases known with rfl | live
        · exact .inr (by rwa [ops] at some)
        · exact .inl live
    rw [ops, queue]
    exact (replayed.history c before).pushes es

theorem Replayed.linked (replayed : s.Replayed) (sound : s.Sound) (linked : Linked s t)
    (grows : ∀ c, Grows (s.live c) c s t) : t.Replayed :=
  replayed.grow sound linked.nextConn (fun c => (linked.live c).mp) grows

theorem Replayed.dispatch (replayed : s.Replayed) (sound : s.Sound) (live : s.live d) {id : CString}
    {e : XmlNeedResponse} {rest : List XmlNeedResponse}
    (found : xmlNeedResponseNodeGet id (s.queue d) = (some e, rest)) : (s.dispatch d e rest).Replayed := by
  have linked : Linked s (s.dispatch d e rest) :=
    ((Linked.refl s).updConn _ (by exact fun _ => ⟨rfl, rfl⟩)).emit _
  have ops : ∀ c, (s.dispatch d e rest).tableOps c =
      if d = c then .take e :: s.tableOps c else s.tableOps c := by
    intro c
    change ((Ev.dispatched d e) :: s.trace).filterMap (Ev.tableOp c) = _
    by_cases here : d = c
    · rw [if_pos here]
      exact List.filterMap_cons_some (if_pos here)
    · rw [if_neg here]
      exact List.filterMap_cons_none (if_neg here)
  constructor
  · intro c new
    have new : s.nextConn ≤ c := new
    have other : ¬d = c := by
      rintro rfl
      exact absurd (sound.fresh live) (Nat.not_lt.mpr new)
    rw [ops, if_neg other]
    exact replayed.unused c new
  · intro c there
    rw [linked.live] at there
    rw [ops] at there ⊢
    rw [Session.queue, conn_dispatch]
    by_cases here : d = c
    · subst here
      rw [if_pos rfl, if_pos rfl]
      obtain ⟨same, _⟩ := xmlNeedResponseNodeGet_eq found
      rw [xmlNeedResponseNodeGet_take, ← same] at found
      exact .take (replayed.history d (.inl live)) found
    · rw [if_neg here] at there
      rw [if_neg here, if_neg (Ne.symm here)]
      exact replayed.history c there

/-- Every step but one that opens or ends a connection keeps the history. -/
theorem Calm.replayed (step : Calm s t) (sound : s.Sound) (replayed : s.Replayed) : t.Replayed := by
  have owned : ∀ {u d}, (s.users u).conn = some d → ∀ c, c = d → s.live c := by
    rintro u d owner c rfl
    exact sound.live_of_conn owner
  rcases step.linked with linked | ⟨_, rfl⟩
  · cases step with
    | dispatch owner _ _ found => exact replayed.dispatch sound (sound.live_of_conn owner) found
    | refill _ => exact replayed.linked sound linked fun c => .silent (l := [.slotsAdded _]) rfl rfl rfl
    | note e isNote => exact replayed.linked sound linked fun c => .note e (tableOp_note isNote)
    | draw u => exact replayed.linked sound linked fun c => .draw
    | write text _ => exact replayed.linked sound linked fun c => .accept _
    | ask live _ _ _ =>
      refine replayed.linked sound linked fun c => .ask ?_ _ _
      rintro rfl
      exact live
    | @advance d text next k _ _ _ =>
      refine replayed.linked sound linked fun c => .silent (l := [.sent d _]) rfl rfl ?_
      rw [queue, conn_advance]
      split <;> rfl
    | @pop d text next _ _ _ =>
      refine replayed.linked sound linked fun c =>
        .silent (l := [.sent d text]) (trace_pop _ _ _ _) rfl ?_
      rw [queue, conn_pop_of]
      split <;> rfl
    | connected d =>
      refine replayed.linked sound linked fun c => .silent (l := []) rfl rfl ?_
      rw [queue, conn_updConn]
      split <;> rfl
    | finish owner => exact replayed.linked sound linked fun c => .finish
    | root owner => exact replayed.linked sound linked fun c => .silent (l := [.root _]) rfl rfl rfl
    | stanza x _ => exact replayed.linked sound linked fun c => .note _ rfl
    | login owner _ _ _ => exact replayed.linked sound linked fun c => .login (owned owner c) _ _
    | loggedIn _ _ _ _ =>
      exact replayed.linked sound linked fun c => .silent (l := [.loggedIn _ _]) rfl rfl rfl
    | fetch _ => exact replayed.linked sound linked fun c => .note _ rfl
    | rosterAsk owner _ _ _ =>
      exact replayed.linked sound linked fun c =>
        (Grows.rosterRegister (owned owner c) _).trans (.accept _)
    | rosterCancel owner _ _ =>
      exact replayed.linked sound linked fun c =>
        (Grows.rosterRegister (owned owner c) _).trans (.note _ rfl)
    | roster _ _ => exact replayed.linked sound linked fun c => .silent (l := []) rfl rfl rfl
    | privLoaded _ => exact replayed.linked sound linked fun c => .silent (l := []) rfl rfl rfl
    | privDeleted u => exact replayed.linked sound linked fun c => .silent (l := []) rfl rfl rfl
  · exact replayed.grow sound rfl (fun c => id) fun c => .silent (l := [.slotsAdded _]) rfl rfl rfl

theorem Replayed.kill (replayed : s.Replayed) (sound : s.Sound) (site : KillSite) :
    (s.kill d site).Replayed := by
  refine replayed.grow sound (nextConn_kill s d site) (fun c alive => ?_) fun c => ?_
  · exact ((live_kill s d site c).mp alive).2
  · refine .silent (l := [.killed d site]) (trace_kill s d site) rfl ?_
    rw [queue, conn_kill, queue]

theorem Replayed.connect (replayed : s.Replayed) {loc : Nat} {next : List Nat} {sstate : SockState}
    {fd time : Int} {ssl : Bool} : (s.connect u loc next sstate fd time ssl).Replayed := by
  have ops : ∀ c, (s.connect u loc next sstate fd time ssl).tableOps c = s.tableOps c :=
    fun c => List.filterMap_cons_none rfl
  constructor
  · intro c new
    rw [ops]
    exact replayed.unused c (Nat.le_of_succ_le new)
  · intro c there
    rw [ops] at there ⊢
    rw [queue, conn_connect]
    by_cases here : c = s.nextConn
    · rw [if_pos here, replayed.unused c (Nat.le_of_eq here.symm)]
      exact .start
    · rw [live_connect] at there
      rw [if_neg here]
      exact replayed.history c (there.imp_left fun alive => alive.resolve_left here)

theorem Act.replayed (sound : s.Sound) (step : Act s t) (replayed : s.Replayed) : t.Replayed := by
  cases step with
  | calm step => exact step.replayed sound replayed
  | connect sstate fd time ssl idle slot => exact replayed.connect
  | kill site there _ => exact replayed.kill sound site
  | @drained d text there queue closing =>
    have popped : (s.pop d text []).Replayed := by
      refine replayed.linked sound ((Linked.refl s).pop d text []) fun c => ?_
      refine .silent (l := [.sent d text]) (trace_pop _ _ _ _) rfl ?_
      rw [Session.queue, conn_pop_of]
      split <;> rfl
    exact popped.kill (sound.pop d text []) _
  | @userKill u d site owner _ =>
    refine replayed.grow sound ?_ (fun c alive => ((live_userKill s d c u site).mp alive).2) fun c => ?_
    · change ((s.updConn d _).kill d site).nextConn = _
      rw [nextConn_kill]
      rfl
    · refine .silent (l := [.killed d site]) (trace_userKill s d u site) rfl ?_
      rw [queue, conn_userKill]
      split <;> rfl
  | userReset idle =>
    exact replayed.grow sound rfl (fun c => id) fun c => .silent (l := []) rfl rfl rfl

end Session

theorem Session.Initial.replayed {s : Session} (initial : s.Initial) : s.Replayed := by
  have none : ∀ c, s.tableOps c = [] := by
    intro c
    rw [Session.tableOps, initial.trace]
    rfl
  exact ⟨fun c _ => none c, fun c there => absurd (none c) (there.resolve_left (initial.dead c))⟩

section Moves

variable {k : Concern} {w w' : World} {c : ConnPtr}

theorem grows_of_frame {l : List Ev} (trace : w'.trace = l ++ w.trace)
    (others : l.filterMap (Ev.tableOp c) = []) (heap : w'.heap = w.heap) :
    Session.Grows (w.session.live c) c w.session w'.session := by
  apply Session.Grows.silent trace others
  change (w'.heap c).conn.xmlNeedResponsesQueue = (w.heap c).conn.xmlNeedResponsesQueue
  rw [heap]

theorem grows_of_session (same : w'.session = w.session) : Session.Grows (w.session.live c) c w.session w'.session := by
  rw [same]
  exact .refl c _

theorem grows_of_unpriv {L : Prop} {u : UserPtr} (same : w'.unpriv u = w.unpriv u) :
    Session.Grows L c w.session w'.session := by
  have heap : (World.unpriv u w').heap = (World.unpriv u w).heap := by rw [same]
  have trace : (World.unpriv u w').trace = (World.unpriv u w).trace := by rw [same]
  change w'.heap = w.heap at heap
  apply Session.Grows.silent (l := []) trace rfl
  change (w'.heap c).conn.xmlNeedResponsesQueue = (w.heap c).conn.xmlNeedResponsesQueue
  rw [heap]

/-- Only hearing a stanza takes an answer out of a queue. -/
theorem Move.grows (move : Move k w w') (sound : w.session.Sound) (deaf : k ≠ .hear) (calm : k ≠ .life)
    (c : ConnPtr) :
    Session.Grows (w.session.live c) c w.session w'.session := by
  have owned : ∀ {u d}, (w.users u).conn = some d → c = d → w.session.live c := by
    rintro u d owner rfl
    exact sound.live_of_conn owner
  cases move with
  | env env _ => exact .refl c _
  | count f soft =>
    have core := soft w.globals
    simp only [Globals.core, Prod.mk.injEq] at core
    exact grows_of_session (session_updGlobals w core.1 core.2.1)
  | note e isNote _ => exact .note e (Session.tableOp_note isNote)
  | fire u h => exact .note _ (Session.tableOp_note trivial)
  | user u f soft =>
    have same : (f (w.users u)).core.party = (w.users u).core.party :=
      congrArg UserProperities.party (soft (w.users u))
    exact grows_of_session (session_updUser_soft w u same)
  | draw u =>
    rw [session_drawId]
    exact .draw
  | version u f => exact grows_of_session (session_updUser_soft w u rfl)
  | available p b => exact .refl c _
  | @expectKill _ u _ _ => exact grows_of_session (session_updUser_soft w u rfl)
  | @rawKill _ u _ _ => exact grows_of_session (session_updUser_soft w u rfl)
  | write _ _ =>
    rw [session_acceptPacket]
    exact .accept _
  | reject text _ =>
    rw [session_rejectPacket]
    exact .note _ rfl
  | raw _ _ =>
    rw [session_acceptPacket]
    exact .accept _
  | logout _ =>
    rw [session_closeConn, session_acceptPacket]
    exact (Session.Grows.accept _).trans .finish
  | rosterAsk time del owner _ _ _ =>
    rw [session_acceptPacket, session_rosterRegistered]
    exact (Session.Grows.rosterRegister (owned owner) _).trans (.accept _)
  | rosterCancel time del text owner _ =>
    rw [session_rejectPacket, session_rosterRegistered]
    exact (Session.Grows.rosterRegister (owned owner) _).trans (.note _ rfl)
  | close _ =>
    rw [session_closeConn]
    exact .finish
  | login time owner _ _ _ _ =>
    rw [session_queueLogin]
    exact .login (owned owner) _ _
  | @root _ u d sid _ =>
    exact grows_of_frame (l := [.root d]) rfl rfl rfl
  | stanza x _ => exact absurd rfl deaf
  | dispatch _ _ _ _ => exact absurd rfl deaf
  | @loggedIn _ u d x _ _ _ _ _ _ => exact grows_of_frame (l := [.loggedIn d x]) rfl rfl rfl
  | @fetch _ u d x rest time owner _ =>
    rw [session_askFor, session_askFor]
    exact ((Session.Grows.note (.fetchIssued d) rfl).trans (.ask (owned owner) _ _)).trans (.ask (owned owner) _ _)
  | fetchExt time owner _ _ =>
    rw [session_askFor]
    exact .ask (owned owner) _ _
  | @roster _ u d xml delete _ =>
    have frame := rosterHashStore_frame w u xml delete
    have stored : Session.Grows (w.session.live c) c w.session (rosterHashStore u xml delete w).session :=
      grows_of_frame (l := []) frame.trace rfl frame.heap
    rcases rosterHashFromXml_eq w u xml delete with same | report
    · rw [same]
      exact stored
    · rw [report]
      refine stored.trans ?_
      unfold World.userDebug
      split
      · exact .refl c _
      · exact .note _ rfl
  | privRoster xml _ _ _ _ _ _ => exact absurd rfl deaf
  | connected _ =>
    rw [session_updConn, session_touch]
    refine .silent (l := []) rfl rfl ?_
    rw [Session.queue, Session.conn_updConn]
    split <;> rfl
  | @advance _ d text next k _ _ _ =>
    rw [session_advancePacket]
    refine .silent (l := [.sent d _]) rfl rfl ?_
    rw [Session.queue, Session.conn_advance]
    split <;> rfl
  | @pop _ d text next _ _ _ =>
    rw [session_popPacket]
    refine .silent (l := [.sent d text]) (Session.trace_pop _ _ _ _) rfl ?_
    rw [Session.queue, Session.conn_pop_of]
    split <;> rfl
  | gate => exact grows_of_session (session_updGlobals w rfl rfl)
  | sooner u f tm => exact grows_of_session (session_updUser_soft w u rfl)
  | queue u queue => exact grows_of_session (session_updUser_soft w u rfl)
  | _ => exact absurd rfl calm

end Moves

def Ev.registers (c : ConnPtr) : Ev → Option XmlNeedResponse
  | .registered d e => if d = c then some e else none
  | _ => none

def Ev.dispatches (c : ConnPtr) : Ev → Option XmlNeedResponse
  | .dispatched d e => if d = c then some e else none
  | _ => none

namespace World

/-- The entries that were registered on `c`, the last one first. -/
def registeredOn (w : World) (c : ConnPtr) : List XmlNeedResponse := w.trace.filterMap (Ev.registers c)

def dispatchedOn (w : World) (c : ConnPtr) : List XmlNeedResponse :=
  w.trace.filterMap (Ev.dispatches c)

def pending (w : World) (c : ConnPtr) : List XmlNeedResponse := (w.heap c).conn.xmlNeedResponsesQueue

/-- The states of runs, also those inside a step. -/
def Arises (w : World) : Prop := ∃ s : Session, s.Initial ∧ ReflTransGen Session.Act s w.session

end World

section Table

variable {w w' : World} {c : ConnPtr} {u : UserPtr} {x : XmlNode} {id : CString}

theorem Reachable.arises (reach : Reachable w) : w.Arises := reach.run.2

theorem World.Arises.sound (arises : w.Arises) : w.session.Sound := by
  obtain ⟨s, initial, steps⟩ := arises
  exact Abstraction.inv_steps (A := machine) initial.sound steps

theorem World.Arises.replayed (arises : w.Arises) : w.session.Replayed := by
  obtain ⟨s, initial, steps⟩ := arises
  exact Abstraction.steps_keep (A := machine) Session.Act.replayed initial.sound steps
    initial.replayed

theorem tableOp_pushed (c : ConnPtr) (e : Ev) : (e.tableOp c).bind Op.pushed = e.registers c := by
  cases e with
  | registered d e =>
    simp only [Ev.tableOp, Ev.registers]
    split <;> rfl
  | dispatched d e =>
    simp only [Ev.tableOp, Ev.registers]
    split <;> rfl
  | _ => rfl

theorem tableOp_taken (c : ConnPtr) (e : Ev) : (e.tableOp c).bind Op.taken = e.dispatches c := by
  cases e with
  | registered d e =>
    simp only [Ev.tableOp, Ev.dispatches]
    split <;> rfl
  | dispatched d e =>
    simp only [Ev.tableOp, Ev.dispatches]
    split <;> rfl
  | _ => rfl

theorem registeredOn_eq (w : World) (c : ConnPtr) :
    w.registeredOn c = (w.session.tableOps c).filterMap Op.pushed := by
  rw [Session.tableOps, List.filterMap_filterMap, World.registeredOn, ← funext (tableOp_pushed c)]
  rfl

theorem dispatchedOn_eq (w : World) (c : ConnPtr) :
    w.dispatchedOn c = (w.session.tableOps c).filterMap Op.taken := by
  rw [Session.tableOps, List.filterMap_filterMap, World.dispatchedOn, ← funext (tableOp_taken c)]
  rfl

theorem World.Arises.accounts (arises : w.Arises) (live : w.session.live c) :
    (w.registeredOn c).Perm (w.dispatchedOn c ++ w.pending c) := by
  rw [registeredOn_eq, dispatchedOn_eq]
  exact (arises.replayed.history c (.inl live)).perm

theorem World.Arises.once (arises : w.Arises) (c : ConnPtr) :
    (w.dispatchedOn c).Subperm (w.registeredOn c) := by
  rw [registeredOn_eq, dispatchedOn_eq]
  by_cases none : w.session.tableOps c = []
  · rw [none]
    exact List.Subperm.refl _
  · have all := (arises.replayed.history c (.inr none)).perm
    exact (List.sublist_append_left _ _).subperm.trans all.symm.subperm

theorem handleUserNode_known (known : stanzaId x = some id) (now : Int) :
    handleUserNode x u now w = handleResponse id x u now w := by
  rw [handleUserNode, known]

theorem handleUserNode_foreign (owner : (w.users u).conn = some c) (live : w.session.live c)
    (known : stanzaId x = some id) (foreign : ∀ e ∈ w.pending c, e.id ≠ id) (now : Int) :
    handleUserNode x u now w = .ok ⟨⟩ w := by
  have absent : xmlNeedResponseNodeGet id (w.heap c).conn.xmlNeedResponsesQueue =
      (none, (w.heap c).conn.xmlNeedResponsesQueue) :=
    (xmlNeedResponseNodeGet_take _ _).trans (take_absent foreign)
  simp only [handleUserNode_known known, handleResponse, bind_apply, derefConn_apply owner,
    readConn_apply, touch_of_live live, absent, pure_apply]

/-- What is left to do when `e` is out of the queue. -/
def answerWith (e : XmlNeedResponse) (x : XmlNode) (u : UserPtr) (now : Int) : M Unit :=
  match e.callback with
  | none => pure ()
  | some callback => runCallback callback x u e.sendTime now

theorem handleUserNode_answered {e : XmlNeedResponse} {rest : List XmlNeedResponse}
    (owner : (w.users u).conn = some c) (live : w.session.live c) (known : stanzaId x = some id)
    (found : take XmlNeedResponse.id id (w.pending c) = (some e, rest)) (now : Int) :
    handleUserNode x u now w = answerWith e x u now (w.dispatchEntry c e rest) := by
  have there : xmlNeedResponseNodeGet id (w.heap c).conn.xmlNeedResponsesQueue = (some e, rest) :=
    (xmlNeedResponseNodeGet_take _ _).trans found
  simp only [handleUserNode_known known, handleResponse, bind_apply, derefConn_apply owner,
    readConn_apply, touch_of_live live, there, modConn_apply, emit_apply, World.dispatchEntry]
  unfold answerWith
  cases e.callback with
  | none => rfl
  | some callback => rfl

/-- A callback may register entries, and takes none out. -/
theorem answerWith_grows {e : XmlNeedResponse} {rest : List Ev} {now : Int} (sound : w.session.Sound)
    (owner : (w.users u).conn = some c) (last : w.trace = .dispatched c e :: .stanza c x :: rest)
    (ran : answerWith e x u now w = .ok ⟨⟩ w') : Session.Grows True c w.session w'.session := by
  rw [answerWith] at ran
  cases named : e.callback with
  | none =>
    rw [named] at ran
    cases ran
    exact .refl c _
  | some callback =>
    rw [named] at ran
    dsimp only at ran
    by_cases contacts : callback = .handleExtcontacts
    · subst contacts
      exact grows_of_unpriv (privRosterFromXml_unpriv ran)
    let quiet : Concern → Prop := fun k => k ≠ .hear ∧ k ≠ .life
    have sim := sim_runCallback_moves (S := quiet) x now (by simp [quiet]) (by simp [quiet])
      (by simp [quiet]) (by simp [quiet]) contacts e.sendTime w sound ⟨owner, e, rest, last, named⟩
    rw [ran] at sim
    refine Abstraction.steps_keep (A := moves quiet)
      (K := fun v => Session.Grows True c w.session v.session) ?_ sound sim.1 (.refl c _)
    rintro v v' inv ⟨k, ⟨deaf, calm⟩, move⟩ grown
    exact grown.trans ((move.grows inv deaf calm c).mono trivial)

/-- A stanza takes out the entry that it answers. -/
theorem handleUserNode_takes {now : Int} (sound : w.session.Sound)
    (received : w.session.Received u c x) (known : stanzaId x = some id)
    (ran : handleUserNode x u now w = .ok ⟨⟩ w') :
    ∃ es, w'.session.tableOps c = es.map .push ++
        ((take XmlNeedResponse.id id (w.pending c)).1.toList.map .take ++ w.session.tableOps c) ∧
      w'.pending c = es ++ (take XmlNeedResponse.id id (w.pending c)).2 := by
  obtain ⟨owner, rest, last⟩ := received
  have live := sound.live_of_conn owner
  rcases found : take XmlNeedResponse.id id (w.pending c) with ⟨taken, left⟩
  cases taken with
  | none =>
    have absent := absent_of_take (congrArg Prod.fst found)
    have same := handleUserNode_foreign owner live known absent now
    obtain rfl : w = w' := by
      rw [same] at ran
      injection ran
    rw [take_absent absent] at found
    cases found
    exact ⟨[], rfl, rfl⟩
  | some e =>
    rw [handleUserNode_answered owner live known found] at ran
    have dispatched : (w.dispatchEntry c e left).session = w.session.dispatch c e left :=
      session_dispatchEntry w c e left
    have step : Session.Calm w.session (w.dispatchEntry c e left).session := by
      rw [dispatched]
      exact .dispatch owner last known ((xmlNeedResponseNodeGet_take _ _).trans found)
    have trace : (w.dispatchEntry c e left).trace = .dispatched c e :: .stanza c x :: rest := by
      have grown : (w.dispatchEntry c e left).trace = .dispatched c e :: w.trace :=
        congrArg Session.trace dispatched
      have last : w.trace = .stanza c x :: rest := last
      rw [grown, last]
    have owner' : ((w.dispatchEntry c e left).session.users u).conn = some c := by
      rw [dispatched]
      exact owner
    obtain ⟨es, _, after, queue⟩ := answerWith_grows (sound.calm step) owner' trace ran
    refine ⟨es, ?_, ?_⟩
    · rw [after, dispatched]
      congr 1
      exact List.filterMap_cons_some (if_pos rfl)
    · refine queue.trans ?_
      rw [dispatched, Session.queue, Session.conn_dispatch, if_pos rfl]

theorem jpolldConnNode_takes (sound : w.session.Sound) (live : w.session.live c)
    (known : stanzaId x = some id) (ran : jpolldConnNode c (.node x) w = .ok ⟨⟩ w') :
    ∃ es, w'.session.tableOps c = es.map .push ++
        ((take XmlNeedResponse.id id (w.pending c)).1.toList.map .take ++ w.session.tableOps c) ∧
      w'.pending c = es ++ (take XmlNeedResponse.id id (w.pending c)).2 := by
  obtain ⟨u, user⟩ := sound.owned c live
  obtain ⟨env, later, clock⟩ := gettimeofday_apply w
  rw [jpolldConnNode, bind_apply, readConn_apply, touch_of_live live] at ran
  dsimp only at ran
  rw [bind_apply, clock] at ran
  dsimp only at ran
  have user : (w.heap c).conn.user = some u := user
  rw [bind_apply, emit_apply, user] at ran
  have owner : (w.users u).conn = some c := (sound.owner u c).mpr ⟨live, user⟩
  have heard : ((w.withEnv env).emit (.stanza c x)).session.Sound :=
    (show w.session.Sound from sound).calm (.stanza x live)
  exact handleUserNode_takes (w := (w.withEnv env).emit (.stanza c x)) heard ⟨owner, w.trace, rfl⟩
    known ran

theorem jpolldConnNode_keeps {call : XstreamCall} (sound : w.session.Sound) (live : w.session.live c)
    (ran : jpolldConnNode c call w = .ok ⟨⟩ w') : w'.session.Sound ∧ w'.session.live c := by
  have outcome := sim_jpolldConnNode c call w sound live
  rw [ran] at outcome
  refine ⟨Abstraction.inv_steps (A := calmMachine) sound outcome.1,
    Abstraction.steps_keep (A := calmMachine) (K := fun s => s.live c) ?_ sound outcome.1 live⟩
  intro s t _ step alive
  rcases step.linked with linked | ⟨_, rfl⟩
  · exact (linked.live c).mpr alive
  · exact alive

/-- Two answers, when nothing is registered meanwhile. -/
theorem two_answers {y : XmlNode} {i j : CString} {w₁ w₂ : World} {env : Env} (sound : w.session.Sound)
    (live : w.session.live c) (first : stanzaId x = some i) (second : stanzaId y = some j)
    (ran : jpolldConnNode c (.node x) w = .ok ⟨⟩ w₁)
    (ran' : jpolldConnNode c (.node y) (w₁.withEnv env) = .ok ⟨⟩ w₂)
    (quiet : w₂.registeredOn c = w.registeredOn c) :
    w₂.dispatchedOn c = (take XmlNeedResponse.id j (take XmlNeedResponse.id i (w.pending c)).2).1.toList ++
        ((take XmlNeedResponse.id i (w.pending c)).1.toList ++ w.dispatchedOn c) ∧
      w₂.pending c = (take XmlNeedResponse.id j (take XmlNeedResponse.id i (w.pending c)).2).2 := by
  obtain ⟨es, ops, queue⟩ := jpolldConnNode_takes sound live first ran
  obtain ⟨sound₁, live₁⟩ := jpolldConnNode_keeps sound live ran
  obtain ⟨es', ops', queue'⟩ := jpolldConnNode_takes (w := w₁.withEnv env) sound₁ live₁ second ran'
  have ops' : w₂.session.tableOps c = es'.map .push ++
    ((take XmlNeedResponse.id j (w₁.pending c)).1.toList.map .take ++ w₁.session.tableOps c) := ops'
  have queue' : w₂.pending c = es' ++ (take XmlNeedResponse.id j (w₁.pending c)).2 := queue'
  have pushes : ∀ l : List XmlNeedResponse, (l.map Op.push).filterMap Op.pushed = l := by
    intro l
    rw [List.filterMap_map]
    exact List.filterMap_some
  have takes : ∀ l : List XmlNeedResponse, (l.map Op.take).filterMap Op.pushed = [] := by
    intro l
    rw [List.filterMap_map]
    exact List.filterMap_eq_nil_iff.mpr fun _ _ => rfl
  have nothing : es = [] ∧ es' = [] := by
    rw [registeredOn_eq, registeredOn_eq, ops', ops] at quiet
    simp only [List.filterMap_append, pushes, takes, List.nil_append] at quiet
    have lengths := congrArg List.length quiet
    simp only [List.length_append] at lengths
    exact ⟨List.length_eq_zero_iff.mp (by omega), List.length_eq_zero_iff.mp (by omega)⟩
  obtain ⟨rfl, rfl⟩ := nothing
  have taken : ∀ l : List XmlNeedResponse, (l.map Op.take).filterMap Op.taken = l := by
    intro l
    rw [List.filterMap_map]
    exact List.filterMap_some
  have queue : w₁.pending c = (take XmlNeedResponse.id i (w.pending c)).2 := queue
  rw [queue] at ops' queue'
  refine ⟨?_, queue'⟩
  rw [dispatchedOn_eq, dispatchedOn_eq, ops', ops]
  simp only [List.map_nil, List.nil_append, List.filterMap_append, taken]

/-- What was registered on a connection was dispatched once or is still in its queue.
An identifier takes out the entry that was registered last with it and leaves the others
in their order, and two identifiers can be answered in either order. -/
theorem pending_table {w : World} (arises : w.Arises) (c : ConnPtr) :
    (w.dispatchedOn c).Subperm (w.registeredOn c) ∧
    (w.session.live c → (w.registeredOn c).Perm (w.dispatchedOn c ++ w.pending c) ∧
      (w.pending c).Sublist (w.registeredOn c)) ∧
    (∀ u x id now, (w.users u).conn = some c → stanzaId x = some id →
      ((∀ e ∈ w.pending c, e.id ≠ id) → handleUserNode x u now w = .ok ⟨⟩ w) ∧
      ∀ before e later, w.pending c = before ++ e :: later → e.id = id →
        (∀ b ∈ before, b.id ≠ id) →
          handleUserNode x u now w = answerWith e x u now (w.dispatchEntry c e (before ++ later))) ∧
    (∀ x y i j env env' w₁ w₂ v₁ v₂, w.session.live c → stanzaId x = some i →
      stanzaId y = some j → i ≠ j →
      jpolldConnNode c (.node x) w = .ok ⟨⟩ w₁ →
      jpolldConnNode c (.node y) (w₁.withEnv env) = .ok ⟨⟩ w₂ →
      jpolldConnNode c (.node y) w = .ok ⟨⟩ v₁ →
      jpolldConnNode c (.node x) (v₁.withEnv env') = .ok ⟨⟩ v₂ →
      w₂.registeredOn c = w.registeredOn c → v₂.registeredOn c = w.registeredOn c →
        (w₂.dispatchedOn c).Perm (v₂.dispatchedOn c) ∧ w₂.pending c = v₂.pending c) := by
  have sound := arises.sound
  refine ⟨arises.once c, fun live => ⟨arises.accounts live, ?_⟩, fun u x id now owner known => ?_, ?_⟩
  · rw [registeredOn_eq]
    exact (arises.replayed.history c (.inl live)).sublist
  · have live := sound.live_of_conn owner
    constructor
    · intro foreign
      exact handleUserNode_foreign owner live known foreign now
    · intro before e later queue same newer
      refine handleUserNode_answered owner live known ?_ now
      rw [queue]
      exact take_split same newer
  · intro x y i j env env' w₁ w₂ v₁ v₂ live first second differ ranX ranY ranY' ranX' quiet quiet'
    obtain ⟨dispatched, queue⟩ := two_answers sound live first second ranX ranY quiet
    obtain ⟨dispatched', queue'⟩ := two_answers sound live second first ranY' ranX' quiet'
    obtain ⟨here, there⟩ := take_comm differ.symm (w.pending c)
    obtain ⟨here', _⟩ := take_comm differ (w.pending c)
    constructor
    · rw [dispatched, dispatched', here, here', ← List.append_assoc, ← List.append_assoc]
      exact List.perm_append_comm.append_right _
    · rw [queue, queue', there]

end Table

theorem pending_table_roomy :
    (roomyWorld.registeredOn 0).Perm (roomyWorld.dispatchedOn 0 ++ roomyWorld.pending 0) ∧
      handleUserNode (resultFor (cstr "other") []) 0 8 roomyWorld = .ok ⟨⟩ roomyWorld := by
  have reach : Reachable roomyWorld := reachable_played (.init (plainWorld_initial _)) _
  obtain ⟨_, counts, handed, _⟩ := pending_table reach.arises 0
  constructor
  · have up : (roomyWorld.heap 0).live = true := by decide +kernel
    exact (counts ((live_session roomyWorld 0).mpr up)).1
  · have known : stanzaId (resultFor (cstr "other") []) = some (cstr "other") := by decide
    have foreign : (roomyWorld.pending 0).all (fun e => e.id ≠ cstr "other") = true := by decide +kernel
    refine (handed 0 _ _ 8 (by decide +kernel) known).1 fun e mem => ?_
    simpa using List.all_eq_true.mp foreign e mem

end JabSimul
