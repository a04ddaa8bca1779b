import JabSimul.ThreadMoves
import JabSimul.Zombies

/-!
What the moves tell. The texts that they put into the write queues open like a tag, or
are the closing tag of a logout or the raw bytes of events; and a handler of an event
runs only where the scheduler calls it.
-/
namespace JabSimul

open Simulation Relation

/-- Why a move accepts a text. -/
inductive Admits (w w' : World) : Concern → ConnPtr → Option CString → Prop
  | opens {k c text} (opens : Opens text) : Admits w w' k c (some text)
  | logout {u k c} (owner : (w.users u).conn = some c)
      (closed : w' = (w.acceptPacket c (some closingTag)).closeConn c) :
      Admits w w' k c (some closingTag)
  | raw {u arg c text} (made : RawBytes w.env.files u arg text) : Admits w w' (.raw u arg) c text

theorem Opens.ne_closingTag {text : CString} (opens : Opens text) : text ≠ closingTag := by
  rintro rfl
  obtain ⟨ch, rest, same, slash⟩ := opens
  have second : closingTag[1]? = some '/' := rfl
  rw [same] at second
  cases second
  exact slash rfl

theorem opens_ignoredQuery : Opens ignoredQuery := ⟨'i', _, rfl, by decide⟩

theorem opens_initialQueries : Opens initialQueries := ⟨'i', _, rfl, by decide⟩

theorem opens_extcontactsQuery : Opens extcontactsQuery := ⟨'i', _, rfl, by decide⟩

/-- Events that tell neither of an accepted text nor of a handler. -/
def Ev.Plain : Ev → Prop
  | .accepted _ _ | .handlerRun _ _ => False
  | _ => True

/-- What a move may tell. -/
inductive Told (w w' : World) : Concern → Ev → Prop
  | plain {k e} (plain : e.Plain) : Told w w' k e
  | accepted {k c text} (admits : Admits w w' k c text) : Told w w' k (.accepted c text)
  | ran (u : UserPtr) (h : EventHandler) : Told w w' .fire (.handlerRun u h)

/-- The trace of `w'` is the one of `w` with more events, all of them as `P` says. -/
def World.Adds (w : World) (P : Ev → Prop) (w' : World) : Prop :=
  ∃ es, w'.trace = es ++ w.trace ∧ ∀ e ∈ es, P e

section Sessions

variable {s : Session} {c d : ConnPtr} {text text' : Option CString}

theorem accepted_accept (heard : .accepted d text' ∈ (s.accept c text).trace) :
    .accepted d text' ∈ s.trace ∨ d = c ∧ text' = text := by
  change _ ∈ Ev.accepted c text :: s.trace at heard
  simpa [or_comm] using heard

theorem accepted_emit {e : Ev} (other : ∀ c text, e ≠ .accepted c text)
    (heard : .accepted d text' ∈ (s.emit e).trace) : .accepted d text' ∈ s.trace :=
  (List.mem_cons.mp heard).resolve_left fun same => other d text' same.symm

end Sessions

theorem trace_askFor (w : World) (d : ConnPtr) (text : CString) (es : List XmlNeedResponse) :
    (w.askFor d text es).trace =
      (es.map (Ev.registered d)).reverse ++ .accepted d (some text) :: w.trace := by
  change (w.askFor d text es).session.trace = _
  rw [session_askFor, Session.trace_ask]
  rfl

namespace World.Adds

variable {w w' w'' : World} {P : Ev → Prop}

theorem none (same : w'.trace = w.trace) : w.Adds P w' := ⟨[], same, List.forall_mem_nil _⟩

theorem one {e : Ev} (p : P e) (trace : w'.trace = e :: w.trace) : w.Adds P w' :=
  ⟨[e], trace, by simpa using p⟩

theorem trans (first : w.Adds P w') (second : w'.Adds P w'') : w.Adds P w'' := by
  obtain ⟨es, trace, all⟩ := first
  obtain ⟨es', trace', all'⟩ := second
  refine ⟨es' ++ es, by rw [trace', trace, List.append_assoc], fun e member => ?_⟩
  exact (List.mem_append.mp member).elim (all' e) (all e)

theorem acceptPacket {c : ConnPtr} {text : Option CString} (p : P (.accepted c text)) :
    w.Adds P (w.acceptPacket c text) :=
  one p (congrArg Session.trace (session_acceptPacket w c text))

variable (plain : ∀ e : Ev, e.Plain → P e)
include plain

theorem rejectPacket (c : ConnPtr) (text : Option CString) : w.Adds P (w.rejectPacket c text) :=
  one (plain (.rejected c text) trivial) (congrArg Session.trace (session_rejectPacket w c text))

theorem closeConn (c : ConnPtr) : w.Adds P (w.closeConn c) :=
  one (plain (.finishConn c _) trivial) (congrArg Session.trace (session_closeConn w c))

theorem dispatchEntry (c : ConnPtr) (e : XmlNeedResponse) (queue : List XmlNeedResponse) :
    w.Adds P (w.dispatchEntry c e queue) :=
  one (plain (.dispatched c e) trivial) (congrArg Session.trace (session_dispatchEntry w c e queue))

theorem rosterRegistered (u : UserPtr) (c : ConnPtr) (time : Int) (del : Bool) :
    w.Adds P (w.rosterRegistered u c time del) := by
  have trace := congrArg Session.trace (session_rosterRegistered (w := w) (u := u) (c := c) time del)
  rw [Session.trace_rosterRegister] at trace
  refine ⟨_, trace, fun e member => ?_⟩
  simp only [List.mem_cons, List.not_mem_nil, or_false] at member
  rcases member with rfl | rfl | rfl
  · exact plain _ trivial
  · exact plain _ trivial
  · exact plain _ trivial

theorem queueLogin (u : UserPtr) (c : ConnPtr) {text : CString} (time : Int)
    (p : P (.accepted c (some text))) : w.Adds P (w.queueLogin u c text time) := by
  have trace := congrArg Session.trace (session_queueLogin (w := w) (u := u) (c := c) time text)
  rw [Session.trace_login] at trace
  refine ⟨_, trace, fun e member => ?_⟩
  simp only [List.mem_cons, List.not_mem_nil, or_false] at member
  rcases member with rfl | rfl | rfl | rfl | rfl
  · exact plain _ trivial
  · exact plain _ trivial
  · exact p
  · exact plain _ trivial
  · exact plain _ trivial

theorem askFor (c : ConnPtr) {text : CString} (es : List XmlNeedResponse)
    (p : P (.accepted c (some text))) : w.Adds P (w.askFor c text es) := by
  refine ⟨(es.map (Ev.registered c)).reverse ++ [.accepted c (some text)], ?_, fun e member => ?_⟩
  · rw [trace_askFor, List.append_assoc]
    rfl
  · rcases List.mem_append.mp member with registered | accepted
    · obtain ⟨entry, _, rfl⟩ := List.mem_map.mp (List.mem_reverse.mp registered)
      exact plain _ trivial
    · rw [List.mem_singleton.mp accepted]
      exact p

theorem userDebug (u : UserPtr) (r : Report) : w.Adds P (w.userDebug u r) := by
  rcases session_userDebug w u r with same | report
  · exact none (congrArg Session.trace same)
  · exact one (plain (.report u r) trivial) (congrArg Session.trace report)

theorem fromXml (u : UserPtr) (xml : Option XmlNode) (delete : Bool) :
    w.Adds P (rosterHashFromXml u xml delete w) := by
  have stored : w.Adds P (rosterHashStore u xml delete w) :=
    none (rosterHashStore_frame w u xml delete).trace
  rcases rosterHashFromXml_eq w u xml delete with same | report
  · rwa [same]
  · rw [report]
    exact stored.trans (userDebug plain u _)

theorem resetUser (u : UserPtr) : w.Adds P (w.resetUser u) := by
  rcases (resetUser_frame w u).session with same | report
  · exact none (congrArg Session.trace same)
  · exact one (plain (.report u .unexpectedDeath) trivial) (congrArg Session.trace report)

theorem killConn (c : ConnPtr) (site : KillSite) : w.Adds P (w.killConn c site) := by
  rcases session_killConn w c site with same | ⟨u, report⟩
  · have trace := congrArg Session.trace same
    rw [Session.trace_kill] at trace
    exact one (plain (.killed c site) trivial) trace
  · have trace : (w.killConn c site).trace =
        .report u .unexpectedDeath :: (w.session.kill c site).trace := congrArg Session.trace report
    rw [Session.trace_kill] at trace
    have killed : P (.killed c site) := plain _ trivial
    have told : P (.report u .unexpectedDeath) := plain _ trivial
    exact ⟨[.report u .unexpectedDeath, .killed c site], trace, by simp [killed, told]⟩

theorem detachUser (u : UserPtr) (site : KillSite) : w.Adds P (w.detachUser u site) := by
  cases owner : (w.users u).conn with
  | none =>
    rw [World.detachUser, owner]
    exact none rfl
  | some c =>
    have trace := congrArg Session.trace (session_detachUser (w := w) site owner)
    rw [Session.trace_kill] at trace
    exact one (plain (.killed c site) trivial) trace

theorem popPacket (c : ConnPtr) (text : CString) (next : List JpolldWriteBuf) :
    w.Adds P (w.popPacket c text next) := by
  have popped : (w.popPacket c text next).session = w.session.pop c text next := session_popPacket
  have trace := congrArg Session.trace popped
  rw [Session.trace_pop] at trace
  exact one (plain (.sent c text) trivial) trace

theorem refillSlots (empty : w.thread.npfd = []) : w.Adds P w.refillSlots := by
  have trace := congrArg Session.trace (session_refillSlots (w := w))
  rw [if_pos empty] at trace
  exact one (plain (.slotsAdded _) trivial) trace

end World.Adds

open World.Adds in
/-- The cases are the moves. -/
theorem Move.told {k : Concern} {w w' : World} (move : Move k w w') : w.Adds (Told w w' k) w' := by
  have plain : ∀ e : Ev, e.Plain → Told w w' k e := fun _ => .plain
  cases move with
  | env _ _ => exact none rfl
  | count _ _ => exact none rfl
  | note e isNote noRun =>
    refine one (plain e ?_) rfl
    cases e with
    | accepted c text => exact isNote
    | handlerRun u h => exact noRun u h rfl
    | _ => trivial
  | fire u h => exact one (.ran u h) rfl
  | user _ _ _ => exact none rfl
  | draw u => exact one (plain (.idDrawn u _) trivial) rfl
  | version _ _ => exact none rfl
  | available _ _ => exact none rfl
  | expectKill _ => exact none rfl
  | rawKill _ => exact none rfl
  | write _ opens => exact acceptPacket (.accepted (.opens opens))
  | reject text _ => exact rejectPacket plain _ text
  | raw _ made => exact acceptPacket (.accepted (.raw made))
  | logout owner => exact (acceptPacket (.accepted (.logout owner rfl))).trans (closeConn plain _)
  | rosterAsk time del _ _ opens _ =>
    exact (rosterRegistered plain _ _ time del).trans (acceptPacket (.accepted (.opens opens)))
  | rosterCancel time del text _ _ =>
    exact (rosterRegistered plain _ _ time del).trans (rejectPacket plain _ text)
  | close _ => exact closeConn plain _
  | login time _ _ _ opens _ => exact queueLogin plain _ _ time (.accepted (.opens opens))
  | root sid _ => exact one (plain (.root _) trivial) rfl
  | stanza x _ => exact one (plain (.stanza _ x) trivial) rfl
  | dispatch _ _ _ _ => exact dispatchEntry plain _ _ _
  | @loggedIn _ _ c x _ _ _ _ _ _ => exact one (plain (.loggedIn c x) trivial) rfl
  | @fetch _ _ c _ _ _ _ _ =>
    have issued : w.Adds _ (w.emit (.fetchIssued c)) := one (plain (.fetchIssued c) trivial) rfl
    exact (issued.trans (askFor plain c _ (.accepted (.opens opens_ignoredQuery)))).trans
      (askFor plain c _ (.accepted (.opens opens_initialQueries)))
  | fetchExt _ _ _ _ => exact askFor plain _ _ (.accepted (.opens opens_extcontactsQuery))
  | roster xml delete _ => exact fromXml plain _ xml delete
  | @privRoster _ _ u c _ _ e queue _ _ _ _ _ _ _ ran =>
    have read : (World.unpriv u w').trace = (World.unpriv u (w.dispatchEntry c e queue)).trace := by
      rw [privRosterFromXml_unpriv ran]
    exact (dispatchEntry plain c e queue).trans (none read)
  | connected _ => exact none (trace_touch _ _)
  | @advance _ c text next k _ _ _ =>
    exact one (plain (.sent c _) trivial)
      (congrArg Session.trace (session_advancePacket w c text next k))
  | pop _ _ _ => exact popPacket plain _ _ _
  | @drained _ c text _ _ _ =>
    have marked := session_expectKillOf (w := w.popPacket c text []) (w.heap c).conn.user
    exact ((popPacket plain c text []).trans (none (congrArg Session.trace marked))).trans
      (killConn plain c .writeDrained)
  | refill empty => exact refillSlots plain empty
  | @connect _ u _ _ _ _ _ _ _ _ _ =>
    exact one (plain (.created _ u) trivial)
      (congrArg Session.trace (session_connectUser _ _ _ _ _ _ _ _))
  | kill site _ _ => exact killConn plain _ site
  | userKill site _ => exact (detachUser plain _ site).trans (resetUser plain _)
  | stale c => exact none (trace_touch _ _)
  | gate => exact none rfl
  | sooner _ _ _ => exact none rfl
  | queue _ _ => exact none rfl

theorem Move.admits {k : Concern} {w w' : World} (move : Move k w w') {d : ConnPtr}
    {text : Option CString} (heard : .accepted d text ∈ w'.trace) :
    .accepted d text ∈ w.trace ∨ Admits w w' k d text := by
  obtain ⟨es, trace, told⟩ := move.told
  rw [trace] at heard
  rcases List.mem_append.mp heard with new | old
  · cases told _ new with
    | plain plain => exact absurd plain id
    | accepted admits => exact .inr admits
  · exact .inl old

/-- How often a handler of an event of `u` ran. -/
def World.handlerRuns (w : World) (u : UserPtr) : Nat := w.trace.countP fun e =>
  match e with
  | .handlerRun v _ => v = u
  | _ => false

/-- No handler runs but those that the scheduler calls. -/
theorem Move.handlerRuns {k : Concern} {w w' : World} (move : Move k w w') (other : k ≠ .fire)
    (u : UserPtr) : w'.handlerRuns u = w.handlerRuns u := by
  obtain ⟨es, trace, told⟩ := move.told
  unfold World.handlerRuns
  rw [trace, List.countP_append, Nat.add_eq_right, List.countP_eq_zero]
  intro e new
  cases told e new with
  | plain plain =>
    cases e with
    | handlerRun v h => exact absurd plain id
    | _ => simp
  | accepted _ => simp
  | ran _ _ => exact absurd rfl other

end JabSimul
