import JabSimul.LoginOrder
import JabSimul.PendingTable

/-!
The questions about the private contacts on each connection: their version after the
login, and the contacts themselves when the version is told. Each question is asked
and answered at most once.
-/
namespace JabSimul

open Simulation Relation Traces

inductive ContactStep where
  | fetched
  | versionAsked
  | versionTold
  | contactsAsked
  | contactsTold
  deriving DecidableEq

/-- What it means that a callback waits for an answer. -/
def Callback.asks : Callback → Option ContactStep
  | .handleNumextcontactsResponse => some .versionAsked
  | .handleExtcontacts => some .contactsAsked
  | _ => none

/-- What it means that the answer is there. -/
def Callback.tells : Callback → Option ContactStep
  | .handleNumextcontactsResponse => some .versionTold
  | .handleExtcontacts => some .contactsTold
  | _ => none

def Ev.contactStep (c : ConnPtr) : Ev → Option ContactStep
  | .fetchIssued d => if d = c then some .fetched else none
  | .registered d e => if d = c then e.callback.bind Callback.asks else none
  | .dispatched d e => if d = c then e.callback.bind Callback.tells else none
  | _ => none

/-- The last step comes first, as in a trace. -/
def ContactStep.order : List ContactStep :=
  [.contactsTold, .contactsAsked, .versionTold, .versionAsked, .fetched]

namespace World

def contactSteps (w : World) (c : ConnPtr) : List ContactStep :=
  w.trace.filterMap (Ev.contactStep c)

/-- What a move may add to the steps on `c`, with what the program knows then. -/
inductive Learns (w : World) (c : ConnPtr) : List ContactStep → Prop
  | nothing : Learns w c []
  | fetch : Learns w c [.versionAsked, .fetched]
  | tell {e step} (live : w.session.live c) (pending : e ∈ w.pending c)
      (told : e.callback.bind Callback.tells = some step) : Learns w c [step]
  | ask {e rest} (last : w.trace = .dispatched c e :: rest)
      (version : e.callback = some .handleNumextcontactsResponse) : Learns w c [.contactsAsked]

end World

section Moves

variable {k : Concern} {w w' : World} {c d : ConnPtr} {u : UserPtr}

theorem contactSteps_grown {l : List Ev} (trace : w'.trace = l ++ w.trace)
    (silent : l.filterMap (Ev.contactStep c) = []) : w'.contactSteps c = w.contactSteps c := by
  rw [World.contactSteps, trace, List.filterMap_append, silent]
  rfl

theorem Ev.IsNote.contactStep {e : Ev} (isNote : e.IsNote) : e.contactStep c = none := by
  cases e with
  | registered d e => cases isNote
  | dispatched d e => cases isNote
  | fetchIssued d => cases isNote
  | _ => rfl

@[simp] theorem contactStep_accepted (text : Option CString) :
    (Ev.accepted d text).contactStep c = none := rfl

/-- An entry that asks for something else is registered. -/
theorem contactStep_registered {e : XmlNeedResponse} (other : e.callback.bind Callback.asks = none) :
    (Ev.registered d e).contactStep c = none := by
  rw [Ev.contactStep, other]
  split <;> rfl

theorem contactSteps_report {r : Report} (trace : w'.trace = w.trace ∨ w'.trace = .report u r :: w.trace) :
    w'.contactSteps c = w.contactSteps c := by
  rcases trace with same | report
  · rw [World.contactSteps, same]
    rfl
  · exact contactSteps_grown (l := [.report u r]) report rfl

theorem contactSteps_resetUser (w : World) (u : UserPtr) :
    (w.resetUser u).contactSteps c = w.contactSteps c := by
  apply contactSteps_report (u := u) (r := .unexpectedDeath)
  exact (resetUser_frame w u).session.imp (congrArg Session.trace) (congrArg Session.trace)

theorem contactSteps_killConn (w : World) (d : ConnPtr) (site : KillSite) :
    (w.killConn d site).contactSteps c = w.contactSteps c := by
  rcases session_killConn w d site with same | ⟨u, report⟩
  · have trace : (w.killConn d site).trace = [.killed d site] ++ w.trace :=
      (congrArg Session.trace same).trans (Session.trace_kill _ _ _)
    exact contactSteps_grown trace rfl
  · have trace : (w.killConn d site).trace = .report u .unexpectedDeath :: (w.session.kill d site).trace :=
      congrArg Session.trace report
    rw [Session.trace_kill] at trace
    exact contactSteps_grown (l := [.report u .unexpectedDeath, .killed d site]) trace rfl

theorem contactSteps_acceptPacket (w : World) (d : ConnPtr) (text : Option CString) :
    (w.acceptPacket d text).contactSteps c = w.contactSteps c := by
  have trace : (w.acceptPacket d text).trace = .accepted d text :: w.trace :=
    congrArg Session.trace (session_acceptPacket w d text)
  exact contactSteps_grown (l := [.accepted d text]) trace rfl

theorem contactSteps_rejectPacket (w : World) (d : ConnPtr) (text : Option CString) :
    (w.rejectPacket d text).contactSteps c = w.contactSteps c := by
  have trace : (w.rejectPacket d text).trace = .rejected d text :: w.trace :=
    congrArg Session.trace (session_rejectPacket w d text)
  exact contactSteps_grown (l := [.rejected d text]) trace rfl

theorem contactSteps_closeConn (w : World) (d : ConnPtr) :
    (w.closeConn d).contactSteps c = w.contactSteps c := by
  have trace : (w.closeConn d).trace = .finishConn d (w.session.conn d).writer.length :: w.trace :=
    congrArg Session.trace (session_closeConn w d)
  exact contactSteps_grown (l := [.finishConn d _]) trace rfl

theorem contactSteps_rosterRegistered (w : World) (u : UserPtr) (d : ConnPtr) (time : Int)
    (del : Bool) : (w.rosterRegistered u d time del).contactSteps c = w.contactSteps c := by
  have trace := congrArg Session.trace (session_rosterRegistered (w := w) (u := u) (c := d) time del)
  rw [Session.trace_rosterRegister] at trace
  apply contactSteps_grown trace
  have other : ∀ id, (Ev.registered d ⟨id, time, some (if del then .handleDelRosterItemResponse
      else .handleAddRosterItemResponse)⟩).contactStep c = none := by
    intro id
    apply contactStep_registered
    cases del <;> rfl
  rw [List.filterMap_cons_none (other _)]
  rfl

theorem contactSteps_queueLogin (w : World) (u : UserPtr) (d : ConnPtr) (text : CString) (time : Int) :
    (w.queueLogin u d text time).contactSteps c = w.contactSteps c := by
  have trace := congrArg Session.trace (session_queueLogin (w := w) (u := u) (c := d) time text)
  rw [Session.trace_login] at trace
  apply contactSteps_grown trace
  have other : ∀ id, (Ev.registered d ⟨id, time, some .handleLoginResponse⟩).contactStep c = none :=
    fun id => contactStep_registered rfl
  rw [List.filterMap_cons_none rfl, List.filterMap_cons_none (other _)]
  rfl

theorem contactSteps_fromXml (w : World) (u : UserPtr) (xml : Option XmlNode) (delete : Bool) :
    (rosterHashFromXml u xml delete w).contactSteps c = w.contactSteps c := by
  have stored : (rosterHashStore u xml delete w).trace = w.trace :=
    (rosterHashStore_frame w u xml delete).trace
  rw [← show (rosterHashStore u xml delete w).contactSteps c = w.contactSteps c from
    contactSteps_grown (l := []) stored rfl]
  rcases rosterHashFromXml_eq w u xml delete with same | report
  · rw [same]
  · rw [report, World.userDebug]
    split
    · rfl
    · exact contactSteps_grown (l := [.report u .rosterCountMismatch]) rfl rfl

theorem contactSteps_fetch (w : World) (d : ConnPtr) (time : Int) :
    (((w.emit (.fetchIssued d)).askFor d ignoredQuery [ignoredEntry time]).askFor d initialQueries
      (initialEntries time)).contactSteps c =
      (if d = c then [.versionAsked, .fetched] else []) ++ w.contactSteps c := by
  rw [World.contactSteps, trace_askFor, trace_askFor]
  by_cases here : d = c
  · simp [World.emit, World.contactSteps, initialEntries, ignoredEntry, List.filterMap_cons,
      Ev.contactStep, Callback.asks, here]
  · simp [World.emit, World.contactSteps, initialEntries, ignoredEntry, List.filterMap_cons,
      Ev.contactStep, here]

theorem contactSteps_fetchExt (w : World) (d : ConnPtr) (time : Int) :
    (w.askFor d extcontactsQuery [extcontactsEntry time]).contactSteps c =
      (if d = c then [.contactsAsked] else []) ++ w.contactSteps c := by
  rw [World.contactSteps, trace_askFor]
  by_cases here : d = c
  · simp [World.contactSteps, extcontactsEntry, List.filterMap_cons, Ev.contactStep,
      Callback.asks, here]
  · simp [World.contactSteps, extcontactsEntry, List.filterMap_cons, Ev.contactStep, here]

theorem contactSteps_dispatchEntry (w : World) (d : ConnPtr) (e : XmlNeedResponse)
    (queue : List XmlNeedResponse) : (w.dispatchEntry d e queue).contactSteps c =
      ((Ev.dispatched d e).contactStep c).toList ++ w.contactSteps c := by
  have trace : (w.dispatchEntry d e queue).trace = .dispatched d e :: w.trace :=
    congrArg (Ev.dispatched d e :: ·) (trace_touch w d)
  rw [World.contactSteps, trace, List.filterMap_cons]
  cases (Ev.dispatched d e).contactStep c with
  | none => rfl
  | some step => rfl

theorem mem_pending {id : CString} {e : XmlNeedResponse} {queue : List XmlNeedResponse}
    (found : xmlNeedResponseNodeGet id (w.heap d).conn.xmlNeedResponsesQueue = (some e, queue)) :
    e ∈ w.pending d :=
  (KeyedStack.take_perm ((xmlNeedResponseNodeGet_take _ _).symm.trans found)).mem_iff.mpr
    List.mem_cons_self

/-- An answer is dispatched that was awaited. -/
theorem learns_dispatched {e : XmlNeedResponse} (live : w.session.live d) (pending : e ∈ w.pending d) :
    w.Learns c ((Ev.dispatched d e).contactStep c).toList := by
  rw [Ev.contactStep]
  split
  · rename_i here
    subst here
    cases told : e.callback.bind Callback.tells with
    | none => exact .nothing
    | some step => exact .tell live pending told
  · exact .nothing

/-- The cases are the moves. -/
theorem Move.contactSteps (move : Move k w w') (sound : w.session.Sound) (c : ConnPtr) :
    ∃ steps, w.Learns c steps ∧ w'.contactSteps c = steps ++ w.contactSteps c := by
  have silent : w'.contactSteps c = w.contactSteps c →
      ∃ steps, w.Learns c steps ∧ w'.contactSteps c = steps ++ w.contactSteps c :=
    fun same => ⟨[], .nothing, same⟩
  have quiet : ∀ l : List Ev, w'.session.trace = l ++ w.trace →
      l.filterMap (Ev.contactStep c) = [] →
      ∃ steps, w.Learns c steps ∧ w'.contactSteps c = steps ++ w.contactSteps c :=
    fun l trace others => silent (contactSteps_grown trace others)
  cases move with
  | env _ _ => exact silent rfl
  | count _ _ => exact silent rfl
  | note e isNote _ => exact quiet [e] rfl (by simp [isNote.contactStep])
  | fire u h => exact quiet [.handlerRun u h] rfl rfl
  | user _ _ _ => exact silent rfl
  | draw u => exact quiet [.idDrawn u _] rfl rfl
  | version _ _ => exact silent rfl
  | available _ _ => exact silent rfl
  | expectKill _ => exact silent rfl
  | rawKill _ => exact silent rfl
  | @write _ d _ _ _ => exact silent (contactSteps_acceptPacket w d _)
  | @reject _ d text _ => exact silent (contactSteps_rejectPacket w d text)
  | @raw _ _ d _ bytes _ _ => exact silent (contactSteps_acceptPacket w d bytes)
  | @logout _ _ d _ =>
    exact silent ((contactSteps_closeConn _ d).trans (contactSteps_acceptPacket w d _))
  | @rosterAsk _ u d text time del _ _ _ _ =>
    exact silent ((contactSteps_acceptPacket _ d _).trans
      (contactSteps_rosterRegistered w u d time del))
  | @rosterCancel _ u d time del text _ _ =>
    exact silent ((contactSteps_rejectPacket _ d text).trans
      (contactSteps_rosterRegistered w u d time del))
  | @close _ _ d _ => exact silent (contactSteps_closeConn w d)
  | @login _ u d text time _ _ _ _ _ => exact silent (contactSteps_queueLogin w u d text time)
  | @root _ _ d _ _ => exact quiet [.root d] rfl rfl
  | @stanza _ d x _ => exact quiet [.stanza d x] rfl rfl
  | dispatch owner _ _ found =>
    exact ⟨_, learns_dispatched (sound.live_of_conn owner) (mem_pending found),
      contactSteps_dispatchEntry _ _ _ _⟩
  | @loggedIn _ _ d x _ _ _ _ _ _ => exact quiet [.loggedIn d x] rfl rfl
  | @fetch _ _ d _ _ time _ _ =>
    refine ⟨_, ?_, contactSteps_fetch w d time⟩
    split
    · exact .fetch
    · exact .nothing
  | @fetchExt _ _ d _ e rest time _ last callback =>
    refine ⟨_, ?_, contactSteps_fetchExt w d time⟩
    split
    · rename_i here
      subst here
      exact .ask last callback
    · exact .nothing
  | roster xml delete _ => exact silent (contactSteps_fromXml w _ xml delete)
  | @privRoster _ _ u d _ _ e queue _ xml owner _ _ found _ ran =>
    have read : (World.unpriv u w').trace = (World.unpriv u (w.dispatchEntry d e queue)).trace := by
      rw [privRosterFromXml_unpriv ran]
    have same : w'.contactSteps c = (w.dispatchEntry d e queue).contactSteps c :=
      congrArg (List.filterMap (Ev.contactStep c)) read
    exact ⟨_, learns_dispatched (sound.live_of_conn owner) (mem_pending found),
      same.trans (contactSteps_dispatchEntry _ _ _ _)⟩
  | connected _ => exact quiet [] (trace_touch _ _) rfl
  | @advance _ d _ _ _ _ _ _ =>
    exact quiet [.sent d _] (congrArg Session.trace (session_advancePacket _ _ _ _ _)) rfl
  | @pop _ d text _ _ _ _ =>
    refine quiet [.sent d text] ?_ rfl
    rw [session_popPacket, Session.trace_pop]
    rfl
  | @drained _ d text _ _ _ =>
    refine silent ((contactSteps_killConn _ d _).trans ?_)
    refine contactSteps_grown (l := [.sent d text]) ?_ rfl
    rw [← trace_session, session_expectKillOf, session_popPacket, Session.trace_pop]
    rfl
  | refill empty =>
    have trace : w.refillSlots.session.trace = [.slotsAdded (addConns w.thread).npfd] ++ w.trace := by
      rw [session_refillSlots, if_pos empty]
      rfl
    exact quiet _ trace rfl
  | @connect _ u _ _ _ _ _ _ _ _ _ =>
    exact quiet [.created _ u] (congrArg Session.trace (session_connectUser _ _ _ _ _ _ _ _)) rfl
  | @kill _ d site _ _ => exact silent (contactSteps_killConn w d site)
  | @userKill _ u site _ =>
    refine silent ((contactSteps_resetUser _ u).trans ?_)
    cases owner : (w.users u).conn with
    | none => simp only [World.detachUser, owner]
    | some d =>
      refine contactSteps_grown (l := [.killed d site]) ?_ rfl
      rw [← trace_session, session_detachUser site owner, Session.trace_kill]
      rfl
  | stale _ => exact quiet [] (trace_touch _ _) rfl
  | gate => exact silent rfl
  | sooner _ _ _ => exact silent rfl
  | queue _ _ => exact silent rfl

end Moves

section Order

variable {k : Concern} {w w' : World} {c : ConnPtr}

theorem World.Arises.fetched_once (arises : w.Arises) (c : ConnPtr) :
    w.trace.countP (Ev.issuesFetch c) ≤ 1 := by
  obtain ⟨s, initial, steps⟩ := arises
  have track := Abstraction.steps_keep (A := machine) (K := fun s => s.LoginTrack c)
    (fun sound step track => step.loginTrack sound track) initial.sound steps
    (initial.loginTrack c)
  obtain ⟨p, accepts, _⟩ := track
  exact accepts_fetched_once accepts

theorem World.Arises.move (arises : w.Arises) (move : Move k w w') : w'.Arises := by
  have sound := arises.sound
  obtain ⟨s, initial, steps⟩ := arises
  exact ⟨s, initial, steps.trans (move.session sound)⟩

/-- A step is counted by the events that make it. -/
theorem count_contactSteps {P : Ev → Bool} {step : ContactStep}
    (same : ∀ ev : Ev, ev.contactStep c = some step ↔ P ev = true) (w : World) :
    (w.contactSteps c).count step = w.trace.countP P := by
  rw [World.contactSteps, List.count, List.countP_filterMap]
  congr 1
  funext ev
  rw [Bool.eq_iff_iff, ← same ev]
  cases ev.contactStep c with
  | none => simp
  | some other => simp

theorem asks_ne_fetched (a : Callback) : a.asks ≠ some .fetched := by cases a <;> simp [Callback.asks]

theorem tells_ne_fetched (a : Callback) : a.tells ≠ some .fetched := by
  cases a <;> simp [Callback.tells]

theorem count_fetched (w : World) (c : ConnPtr) :
    (w.contactSteps c).count .fetched = w.trace.countP (Ev.issuesFetch c) := by
  apply count_contactSteps
  intro ev
  cases ev with
  | fetchIssued d => simp [Ev.contactStep, Ev.issuesFetch]
  | registered d e =>
    simp only [Ev.contactStep, Ev.issuesFetch, Bool.false_eq_true, iff_false]
    split
    · rw [Option.bind_eq_some_iff]
      rintro ⟨a, _, asks⟩
      exact asks_ne_fetched a asks
    · simp
  | dispatched d e =>
    simp only [Ev.contactStep, Ev.issuesFetch, Bool.false_eq_true, iff_false]
    split
    · rw [Option.bind_eq_some_iff]
      rintro ⟨a, _, tells⟩
      exact tells_ne_fetched a tells
    · simp
  | _ => simp [Ev.contactStep, Ev.issuesFetch]

/-- What one callback asks for, and what it is told. -/
structure Callback.Talks (a : Callback) (asked told : ContactStep) : Prop where
  asks : ∀ b : Callback, b.asks = some asked ↔ b = a
  tells : ∀ b : Callback, b.tells = some told ↔ b = a
  apart : ∀ b : Callback, b.tells ≠ some asked ∧ b.asks ≠ some told
  fetched : ContactStep.fetched ≠ asked ∧ ContactStep.fetched ≠ told

theorem talks_version : Callback.handleNumextcontactsResponse.Talks .versionAsked .versionTold := by
  constructor
  · intro b
    cases b <;> decide
  · intro b
    cases b <;> decide
  · intro b
    cases b <;> decide
  · decide

theorem talks_contacts : Callback.handleExtcontacts.Talks .contactsAsked .contactsTold := by
  constructor
  · intro b
    cases b <;> decide
  · intro b
    cases b <;> decide
  · intro b
    cases b <;> decide
  · decide

variable {a : Callback} {asked told : ContactStep}

theorem count_asked (talks : a.Talks asked told) (w : World) (c : ConnPtr) :
    (w.contactSteps c).count asked = (w.registeredOn c).countP (·.callback = some a) := by
  rw [World.registeredOn, List.countP_filterMap]
  apply count_contactSteps
  intro ev
  cases ev with
  | fetchIssued d => simp [Ev.contactStep, Ev.registers, talks.fetched.1]
  | registered d e =>
    by_cases here : d = c
    · simp [Ev.contactStep, Ev.registers, here, Option.bind_eq_some_iff, talks.asks]
    · simp [Ev.contactStep, Ev.registers, here]
  | dispatched d e =>
    by_cases here : d = c
    · simp [Ev.contactStep, Ev.registers, here, Option.bind_eq_some_iff, talks.apart]
    · simp [Ev.contactStep, Ev.registers, here]
  | _ => simp [Ev.contactStep, Ev.registers]

theorem count_told (talks : a.Talks asked told) (w : World) (c : ConnPtr) :
    (w.contactSteps c).count told = (w.dispatchedOn c).countP (·.callback = some a) := by
  rw [World.dispatchedOn, List.countP_filterMap]
  apply count_contactSteps
  intro ev
  cases ev with
  | fetchIssued d => simp [Ev.contactStep, Ev.dispatches, talks.fetched.2]
  | registered d e =>
    by_cases here : d = c
    · simp [Ev.contactStep, Ev.dispatches, here, Option.bind_eq_some_iff, talks.apart]
    · simp [Ev.contactStep, Ev.dispatches, here]
  | dispatched d e =>
    by_cases here : d = c
    · simp [Ev.contactStep, Ev.dispatches, here, Option.bind_eq_some_iff, talks.tells]
    · simp [Ev.contactStep, Ev.dispatches, here]
  | _ => simp [Ev.contactStep, Ev.dispatches]

/-- While an answer is awaited, it was asked for more often than told. -/
theorem World.Arises.told_lt_asked (arises : w.Arises) (live : w.session.live c)
    {e : XmlNeedResponse} (pending : e ∈ w.pending c) (callback : e.callback = some a)
    (talks : a.Talks asked told) :
    (w.contactSteps c).count told < (w.contactSteps c).count asked := by
  rw [count_told talks, count_asked talks, (arises.accounts live).countP_eq, List.countP_append]
  have some' : 0 < (w.pending c).countP (·.callback = some a) :=
    List.countP_pos_iff.mpr ⟨e, pending, by simpa using callback⟩
  omega

theorem contactSteps_cases {steps : List ContactStep} (past : steps <:+ ContactStep.order) :
    steps = [] ∨ steps = [.fetched] ∨ steps = [.versionAsked, .fetched] ∨
      steps = [.versionTold, .versionAsked, .fetched] ∨
      steps = [.contactsAsked, .versionTold, .versionAsked, .fetched] ∨
      steps = ContactStep.order := by
  rw [← List.mem_tails] at past
  simp only [ContactStep.order, List.tails, List.mem_cons, List.not_mem_nil, or_false] at past ⊢
  tauto

theorem Move.contactOrder (move : Move k w w') (arises : w.Arises)
    (past : w.contactSteps c <:+ ContactStep.order) : w'.contactSteps c <:+ ContactStep.order := by
  obtain ⟨steps, learns, grown⟩ := move.contactSteps arises.sound c
  rw [grown]
  have cases' := contactSteps_cases past
  cases learns with
  | nothing => exact past
  | fetch =>
    -- a second fetch would be two in the trace
    have once := (arises.move move).fetched_once c
    rw [← count_fetched, grown] at once
    rcases cases' with same | same | same | same | same | same <;> rw [same] at once ⊢
    · decide
    all_goals exact absurd once (by decide)
  | @tell e step live pending told =>
    obtain ⟨a, callback, tells⟩ := Option.bind_eq_some_iff.mp told
    cases a with
    | handleNumextcontactsResponse =>
      cases tells
      have fewer := arises.told_lt_asked live pending callback talks_version
      rcases cases' with same | same | same | same | same | same <;> rw [same] at fewer ⊢
      case inr.inr.inl => decide
      all_goals exact absurd fewer (by decide)
    | handleExtcontacts =>
      cases tells
      have fewer := arises.told_lt_asked live pending callback talks_contacts
      rcases cases' with same | same | same | same | same | same <;> rw [same] at fewer ⊢
      case inr.inr.inr.inr.inl => decide
      all_goals exact absurd fewer (by decide)
    | _ => cases tells
  | @ask e rest last version =>
    have head : (w.contactSteps c).head? = some .versionTold := by
      rw [World.contactSteps, last]
      have step : (Ev.dispatched c e).contactStep c = some .versionTold := by
        simp [Ev.contactStep, version, Callback.tells]
      rw [List.filterMap_cons_some step]
      rfl
    rcases cases' with same | same | same | same | same | same <;> rw [same] at head ⊢
    case inr.inr.inr.inl => decide
    all_goals exact absurd head (by decide)

/-- On every connection of a run the private contacts are asked for and told in this order,
each step at most once. -/
theorem Reachable.contactOrder (reach : Reachable w) (c : ConnPtr) :
    w.contactSteps c <:+ ContactStep.order := by
  have both : w.Arises ∧ ∀ c, w.contactSteps c <:+ ContactStep.order := by
    refine reach.invariant (K := fun w => w.Arises ∧ ∀ c, w.contactSteps c <:+ ContactStep.order)
      (fun fresh => ⟨(Reachable.init fresh).arises, fun c => ?_⟩) (fun _ holds => holds)
      fun _ move holds => ⟨holds.1.move move, fun c => move.contactOrder holds.1 (holds.2 c)⟩
    rw [World.contactSteps, fresh.trace]
    exact List.nil_suffix
  exact both.2 c

end Order

end JabSimul
