import JabSimul.ThreadRefinement
import JabSimul.SessionFrame
import JabSimul.Lib.Monitor

/-!
The order of a login on each connection: a root, one login request, its answer,
and one fetch. A monitor says which order is meant, and every run is accepted.
-/
namespace JabSimul

open Traces

/-- How far the login on a connection has come. `over` says whether it succeeded. -/
inductive LoginPhase where
  | fresh
  | opened
  | registered (id : CString)
  | asked (id : CString) (heard : Option XmlNode)
  | answered (x : XmlNode)
  | loggedIn
  | over (success : Bool)

namespace LoginPhase

/-- The phase after an event that is not about the login. -/
def pass : LoginPhase → LoginPhase
  | .asked id _ => .asked id none
  | .answered _ => .over false
  | .loggedIn => .over true
  | p => p

/-- The identifiers of the login requests that are not answered yet. -/
def awaits : LoginPhase → List CString
  | .asked id _ => [id]
  | _ => []

def success : LoginPhase → Bool
  | .loggedIn => true
  | .over success => success
  | _ => false

/-- No login was asked for. -/
def Unasked : LoginPhase → Prop
  | .fresh => True
  | .opened => True
  | _ => False

@[simp] theorem awaits_pass (p : LoginPhase) : p.pass.awaits = p.awaits := by cases p <;> rfl

@[simp] theorem success_pass (p : LoginPhase) : p.pass.success = p.success := by cases p <;> rfl

theorem pass_unasked {p : LoginPhase} (unasked : p.Unasked) : p.pass = p := by
  cases p with
  | fresh => rfl
  | opened => rfl
  | _ => cases unasked

theorem pass_eq_fresh {p : LoginPhase} : p.pass = .fresh ↔ p = .fresh := by
  cases p <;> simp [pass]

end LoginPhase

def XmlNeedResponse.IsLogin (e : XmlNeedResponse) : Prop := e.callback = some .handleLoginResponse

instance (e : XmlNeedResponse) : Decidable e.IsLogin :=
  inferInstanceAs (Decidable (e.callback = _))

/-- Events that are not about the login on `c`. -/
def Ev.Passes (c : ConnPtr) : Ev → Prop
  | .root d | .killed d _ | .loginQueued d _ | .loggedIn d _ | .fetchIssued d => d ≠ c
  | .registered d e | .dispatched d e => d = c → ¬e.IsLogin
  | _ => True

theorem Ev.IsNote.passes {e : Ev} (isNote : e.IsNote) {c : ConnPtr} : e.Passes c := by
  cases e <;> simp_all [Ev.IsNote, Ev.Passes]

/-- The order of a login on `c`. -/
inductive LoginNext (c : ConnPtr) : LoginPhase → Ev → LoginPhase → Prop
  | root : LoginNext c .fresh (.root c) .opened
  | again {p} (begun : p ≠ .fresh) : LoginNext c p (.root c) p.pass
  | register {e} (login : e.IsLogin) : LoginNext c .opened (.registered c e) (.registered e.id)
  | queue {id} : LoginNext c (.registered id) (.loginQueued c id) (.asked id none)
  | hear {id heard x} : LoginNext c (.asked id heard) (.stanza c x) (.asked id (some x))
  | answer {e x} (login : e.IsLogin) (known : stanzaId x = some e.id) :
      LoginNext c (.asked e.id (some x)) (.dispatched c e) (.answered x)
  | logIn {x} (noError : isError x = false) : LoginNext c (.answered x) (.loggedIn c x) .loggedIn
  | fetch : LoginNext c .loggedIn (.fetchIssued c) (.over true)
  | kill {p site} : LoginNext c p (.killed c site) (.over p.success)
  | other {p e} (passes : e.Passes c) : LoginNext c p e p.pass

def loginMonitor (c : ConnPtr) : Monitor Ev LoginPhase := ⟨.fresh, LoginNext c⟩

section Order

variable {c : ConnPtr} {trace rest : List Ev} {p q : LoginPhase} {x : XmlNode}
  {e : XmlNeedResponse} {id : CString} {heard : Option XmlNode}

theorem accepts_passes (es : List Ev) (accepts : Accepts (loginMonitor c) trace p)
    (passes : ∀ e ∈ es, e.Passes c) :
    ∃ q, Accepts (loginMonitor c) (es ++ trace) q ∧ (q = p ∨ q = p.pass) := by
  induction es with
  | nil => exact ⟨p, accepts, .inl rfl⟩
  | cons e es ih =>
    obtain ⟨q, more, same⟩ := ih fun e mem => passes e (List.mem_cons_of_mem _ mem)
    refine ⟨q.pass, more.step (.other (passes e (List.mem_cons_self ..))), .inr ?_⟩
    rcases same with rfl | rfl
    · rfl
    · cases p <;> rfl

/-- The stanza that came last is the one that was heard. -/
theorem accepts_heard (accepts : Accepts (loginMonitor c) (.stanza c x :: rest) (.asked id heard)) :
    Accepts (loginMonitor c) (.stanza c x :: rest) (.asked id (some x)) := by
  cases accepts with
  | @step _ _ p _ before next =>
    have asked : ∃ heard, p = .asked id heard := by
      generalize phase : LoginPhase.asked id heard = q at next
      cases next with
      | hear =>
        cases phase
        exact ⟨_, rfl⟩
      | other _ =>
        cases p with
        | asked id' heard' =>
          cases phase
          exact ⟨_, rfl⟩
        | _ => cases phase
    obtain ⟨heard', rfl⟩ := asked
    exact before.step .hear

/-- After the dispatch of a login answer the phase holds the stanza. -/
theorem accepts_answered (login : e.IsLogin)
    (accepts : Accepts (loginMonitor c) (.dispatched c e :: .stanza c x :: rest) p) :
    p = .answered x := by
  cases accepts with
  | step before next =>
    cases next with
    | @answer _ y _ _ =>
      cases before with
      | @step _ _ p _ _ next =>
        generalize phase : LoginPhase.asked e.id (some y) = q at next
        cases next with
        | hear =>
          cases phase
          rfl
        | other _ => cases p <;> cases phase
    | other passes => exact absurd login (passes rfl)

theorem accepts_loggedIn (accepts : Accepts (loginMonitor c) (.loggedIn c x :: rest) p) :
    p = .loggedIn := by
  cases accepts with
  | step before next =>
    cases next with
    | logIn _ => rfl
    | other passes => exact absurd rfl passes

/-- Past the login request. -/
def LoginPhase.Asked : LoginPhase → Prop
  | .asked _ _ | .answered _ | .loggedIn | .over _ => True
  | _ => False

def LoginPhase.IsOver : LoginPhase → Prop
  | .over _ => True
  | _ => False

theorem LoginPhase.Asked.pass (asked : p.Asked) : p.pass.Asked := by
  cases p <;> trivial

theorem LoginPhase.IsOver.pass (done' : p.IsOver) : p.pass.IsOver := by
  cases p <;> trivial

theorem LoginPhase.not_unasked_pass (asked : ¬p.Unasked) : ¬p.pass.Unasked := by
  cases p <;> simp_all [LoginPhase.pass, LoginPhase.Unasked]

def Ev.queuesLogin (c : ConnPtr) : Ev → Bool
  | .loginQueued d _ => d = c
  | _ => false

def Ev.registersLogin (c : ConnPtr) : Ev → Bool
  | .registered d e => d = c ∧ e.IsLogin
  | _ => false

def Ev.issuesFetch (c : ConnPtr) : Ev → Bool
  | .fetchIssued d => d = c
  | _ => false

theorem Ev.not_passes {ev : Ev} (hit : ev.queuesLogin c = true ∨ ev.registersLogin c = true ∨
    ev.issuesFetch c = true) : ¬ev.Passes c := by
  cases ev <;> simp_all [Ev.queuesLogin, Ev.registersLogin, Ev.issuesFetch, Ev.Passes]

theorem accepts_queued_once (accepts : Accepts (loginMonitor c) trace p) :
    trace.countP (Ev.queuesLogin c) ≤ 1 := by
  refine (accepts.countP_le_one LoginPhase.Asked (fun next hit => ?_)
    fun next asked => ?_).1
  · cases next with
    | queue => exact ⟨id, trivial⟩
    | other passes => exact absurd passes (Ev.not_passes (.inl hit))
    | _ => cases hit
  · cases next with
    | again _ => exact asked.pass
    | other _ => exact asked.pass
    | root => exact asked.elim
    | register _ => exact asked.elim
    | _ => trivial

theorem accepts_registered_once (accepts : Accepts (loginMonitor c) trace p) :
    trace.countP (Ev.registersLogin c) ≤ 1 := by
  refine (accepts.countP_le_one (fun p => ¬p.Unasked) (fun next hit => ?_)
    fun next asked => ?_).1
  · cases next with
    | register _ => exact ⟨not_not.mpr trivial, id⟩
    | other passes => exact absurd passes (Ev.not_passes (.inr (.inl hit)))
    | _ => cases hit
  · cases next with
    | again _ => exact LoginPhase.not_unasked_pass asked
    | other _ => exact LoginPhase.not_unasked_pass asked
    | root => exact absurd trivial asked
    | _ => exact id

theorem accepts_fetched_once (accepts : Accepts (loginMonitor c) trace p) :
    trace.countP (Ev.issuesFetch c) ≤ 1 := by
  refine (accepts.countP_le_one LoginPhase.IsOver (fun next hit => ?_)
    fun next done' => ?_).1
  · cases next with
    | fetch => exact ⟨id, trivial⟩
    | other passes => exact absurd passes (Ev.not_passes (.inr (.inr hit)))
    | _ => cases hit
  · cases next with
    | again _ => exact done'.pass
    | other _ => exact done'.pass
    | kill => trivial
    | _ => exact done'.elim

/-- What the trace holds of the phases before. -/
structure LoginPhase.Past (c : ConnPtr) (trace : List Ev) (p : LoginPhase) : Prop where
  root : p = .fresh ∨ p.IsOver ∨ .root c ∈ trace
  registered : ∀ id, p = .registered id →
    ∃ e : XmlNeedResponse, e.IsLogin ∧ e.id = id ∧ .registered c e ∈ trace
  queued : ∀ id heard, p = .asked id heard → .loginQueued c id ∈ trace
  success : p.success = true → ∃ x, .loggedIn c x ∈ trace
  up : ¬p.IsOver → ∀ site, .killed c site ∉ trace

theorem LoginPhase.Past.pass (past : p.Past c trace) {ev : Ev} (up : ∀ site, ev ≠ .killed c site) :
    p.pass.Past c (ev :: trace) := by
  refine ⟨?_, fun id same => ?_, fun id heard same => ?_, fun success => ?_, fun notOver site mem => ?_⟩
  · rcases past.root with rfl | done' | root
    · exact .inl rfl
    · exact .inr (.inl done'.pass)
    · exact .inr (.inr (List.mem_cons_of_mem _ root))
  · have same' : p = .registered id := by cases p <;> first | exact same | cases same
    obtain ⟨e, login, named, mem⟩ := past.registered id same'
    exact ⟨e, login, named, List.mem_cons_of_mem _ mem⟩
  · obtain ⟨heard', same'⟩ : ∃ heard', p = .asked id heard' := by
      cases p <;> cases same
      exact ⟨_, rfl⟩
    exact List.mem_cons_of_mem _ (past.queued id heard' same')
  · rw [LoginPhase.success_pass] at success
    obtain ⟨x, mem⟩ := past.success success
    exact ⟨x, List.mem_cons_of_mem _ mem⟩
  · rcases List.mem_cons.mp mem with same | before
    · exact up site same.symm
    · exact past.up (fun done' => notOver done'.pass) site before

theorem LoginPhase.Past.rooted (past : p.Past c trace) (begun : p ≠ .fresh) (notOver : ¬p.IsOver) :
    .root c ∈ trace :=
  (past.root.resolve_left begun).resolve_left notOver

theorem accepts_past (accepts : Accepts (loginMonitor c) trace p) : p.Past c trace := by
  have first : LoginPhase.Past c [] .fresh :=
    ⟨.inl rfl, by simp, by simp, by simp [LoginPhase.success], by simp⟩
  refine accepts.induct (K := fun trace p => p.Past c trace) first fun {trace ev p q} past next => ?_
  have up : ∀ {ev}, ¬p.IsOver → (∀ site, ev ≠ Ev.killed c site) → ∀ site,
      .killed c site ∉ ev :: trace := fun notOver other site mem =>
    (List.mem_cons.mp mem).elim (fun same => other site same.symm) (past.up notOver site)
  cases next with
  | root =>
    exact ⟨.inr (.inr (List.mem_cons_self ..)), by simp, by simp, by simp [LoginPhase.success],
      fun _ => up id (by simp)⟩
  | again _ => exact past.pass (by simp)
  | @register e login =>
    refine ⟨.inr (.inr (List.mem_cons_of_mem _ (past.rooted (by simp) id))), fun id same => ?_,
      by simp, by simp [LoginPhase.success], fun _ => up id (by simp)⟩
    cases same
    exact ⟨e, login, rfl, List.mem_cons_self ..⟩
  | queue =>
    refine ⟨.inr (.inr (List.mem_cons_of_mem _ (past.rooted (by simp) id))), by simp,
      fun id heard same => ?_, by simp [LoginPhase.success], fun _ => up id (by simp)⟩
    cases same
    exact List.mem_cons_self ..
  | hear =>
    refine ⟨.inr (.inr (List.mem_cons_of_mem _ (past.rooted (by simp) id))), by simp,
      fun id heard same => ?_, by simp [LoginPhase.success], fun _ => up id (by simp)⟩
    cases same
    exact List.mem_cons_of_mem _ (past.queued _ _ rfl)
  | answer _ _ =>
    exact ⟨.inr (.inr (List.mem_cons_of_mem _ (past.rooted (by simp) id))), by simp, by simp,
      by simp [LoginPhase.success], fun _ => up id (by simp)⟩
  | @logIn x _ =>
    exact ⟨.inr (.inr (List.mem_cons_of_mem _ (past.rooted (by simp) id))), by simp, by simp,
      fun _ => ⟨x, List.mem_cons_self ..⟩, fun _ => up id (by simp)⟩
  | fetch =>
    obtain ⟨x, mem⟩ := past.success rfl
    exact ⟨.inr (.inl trivial), by simp, by simp, fun _ => ⟨x, List.mem_cons_of_mem _ mem⟩,
      fun notOver => absurd trivial notOver⟩
  | kill =>
    refine ⟨.inr (.inl trivial), by simp, by simp, fun success => ?_,
      fun notOver => absurd trivial notOver⟩
    obtain ⟨x, mem⟩ := past.success success
    exact ⟨x, List.mem_cons_of_mem _ mem⟩
  | other passes =>
    refine past.pass fun site same => ?_
    subst same
    exact passes rfl

theorem LoginPhase.pass_ne_answered : p.pass ≠ .answered x := by cases p <;> simp [pass]

theorem LoginPhase.pass_ne_heard : p.pass ≠ .asked id (some x) := by cases p <;> simp [pass]

theorem LoginPhase.pass_ne_loggedIn : p.pass ≠ .loggedIn := by cases p <;> simp [pass]

/-- The last event of an answered login is its dispatch, after its stanza. -/
theorem accepts_answered_inv (accepts : Accepts (loginMonitor c) trace (.answered x)) :
    ∃ e earlier, trace = .dispatched c e :: .stanza c x :: earlier ∧ e.IsLogin ∧
      stanzaId x = some e.id ∧ ∃ heard, Accepts (loginMonitor c) earlier (.asked e.id heard) := by
  generalize phase : LoginPhase.answered x = q at accepts
  cases accepts with
  | start => cases phase
  | step before next =>
    cases next with
    | @answer e y login known =>
      cases phase
      generalize phase : LoginPhase.asked e.id (some x) = q at before
      cases before with
      | start => cases phase
      | @step earlier _ _ _ before next =>
        cases next with
        | hear =>
          cases phase
          exact ⟨e, earlier, rfl, login, known, _, before⟩
        | again _ => exact absurd phase.symm LoginPhase.pass_ne_heard
        | other _ => exact absurd phase.symm LoginPhase.pass_ne_heard
        | _ => cases phase
    | again _ => exact absurd phase.symm LoginPhase.pass_ne_answered
    | other _ => exact absurd phase.symm LoginPhase.pass_ne_answered
    | _ => cases phase

theorem accepts_loggedIn_inv (accepts : Accepts (loginMonitor c) trace .loggedIn) :
    ∃ x earlier, trace = .loggedIn c x :: earlier := by
  generalize phase : LoginPhase.loggedIn = q at accepts
  cases accepts with
  | start => cases phase
  | step before next =>
    cases next with
    | logIn _ => exact ⟨_, _, rfl⟩
    | again _ => exact absurd phase.symm LoginPhase.pass_ne_loggedIn
    | other _ => exact absurd phase.symm LoginPhase.pass_ne_loggedIn
    | _ => cases phase

/-- What came before a login on `c` that the stanza `x` brought about. -/
structure LoggedInBy (c : ConnPtr) (x : XmlNode) (e : XmlNeedResponse) (earlier : List Ev) :
    Prop where
  login : e.IsLogin
  known : stanzaId x = some e.id
  noError : isError x = false
  queued : .loginQueued c e.id ∈ earlier
  up : ∀ site, .killed c site ∉ earlier

/-- A login is the immediate result of a stanza. -/
theorem accepts_logIn (accepts : Accepts (loginMonitor c) trace p)
    (suffix : .loggedIn c x :: rest <:+ trace) :
    ∃ e earlier, rest = .dispatched c e :: .stanza c x :: earlier ∧ LoggedInBy c x e earlier := by
  obtain ⟨p, _, before, next, _⟩ := accepts.of_suffix suffix
  cases next with
  | other passes => exact absurd rfl passes
  | logIn noError =>
    obtain ⟨e, earlier, shape, login, known, heard, asked⟩ := accepts_answered_inv before
    have past := accepts_past asked
    exact ⟨e, earlier, shape, login, known, noError, past.queued _ heard rfl, past.up id⟩

theorem accepts_login (accepts : Accepts (loginMonitor c) trace p)
    (suffix : .loginQueued c id :: rest <:+ trace) :
    .root c ∈ rest ∧ ∃ e : XmlNeedResponse, e.IsLogin ∧ e.id = id ∧ .registered c e ∈ rest := by
  obtain ⟨p, _, before, next, _⟩ := accepts.of_suffix suffix
  cases next with
  | other passes => exact absurd rfl passes
  | queue =>
    have past := accepts_past before
    exact ⟨past.rooted (by simp) fun done' => done'.elim, past.registered _ rfl⟩

theorem accepts_fetch (accepts : Accepts (loginMonitor c) trace p)
    (suffix : .fetchIssued c :: rest <:+ trace) :
    ∃ x earlier, rest = .loggedIn c x :: earlier := by
  obtain ⟨p, _, before, next, _⟩ := accepts.of_suffix suffix
  cases next with
  | other passes => exact absurd rfl passes
  | fetch => exact accepts_loggedIn_inv before

end Order

namespace Session

/-- The identifiers of the login requests that a connection waits for. -/
def awaitedLogins (s : Session) (c : ConnPtr) : List CString :=
  ((s.conn c).xmlNeedResponsesQueue.filter fun e => e.IsLogin).map XmlNeedResponse.id

/-- The phase of a connection agrees with its queue and with its user. -/
structure LoginInv (s : Session) (c : ConnPtr) (p : LoginPhase) : Prop where
  new : s.nextConn ≤ c → p = .fresh
  pending : s.live c → s.awaitedLogins c = p.awaits
  opened : ∀ u, (s.users u).conn = some c → (s.users u).streamOpened = true → p ≠ .fresh
  unasked : ∀ u, (s.users u).conn = some c → (s.users u).state = .canLogin → p.Unasked
  success : ∀ u, (s.users u).conn = some c → (s.users u).state = .loggedIn → p.success = true

def LoginTrack (s : Session) (c : ConnPtr) : Prop :=
  ∃ p, Accepts (loginMonitor c) s.trace p ∧ LoginInv s c p

/-- What a step that is not about the login on `c` leaves alone. -/
structure LoginKept (s t : Session) (c : ConnPtr) : Prop where
  new : t.nextConn ≤ c → s.nextConn ≤ c
  live : t.live c → s.live c
  awaited : t.live c → t.awaitedLogins c = s.awaitedLogins c
  user : ∀ u, (t.users u).conn = some c → (s.users u).conn = some c ∧
    (t.users u).state = (s.users u).state ∧ (t.users u).streamOpened = (s.users u).streamOpened

variable {s t : Session} {c d : ConnPtr} {u : UserPtr} {p : LoginPhase}

theorem LoginInv.pass (inv : LoginInv s c p) : LoginInv s c p.pass := by
  refine ⟨fun new => ?_, fun live => ?_, fun u owner opened => ?_, fun u owner state => ?_,
    fun u owner state => ?_⟩
  · rw [inv.new new]
    rfl
  · rw [LoginPhase.awaits_pass]
    exact inv.pending live
  · rw [ne_eq, LoginPhase.pass_eq_fresh]
    exact inv.opened u owner opened
  · have unasked := inv.unasked u owner state
    rw [LoginPhase.pass_unasked unasked]
    exact unasked
  · rw [LoginPhase.success_pass]
    exact inv.success u owner state

theorem LoginInv.kept (inv : LoginInv s c p) (kept : LoginKept s t c) : LoginInv t c p := by
  refine ⟨fun new => inv.new (kept.new new), fun live => ?_, fun u owner opened => ?_,
    fun u owner state => ?_, fun u owner state => ?_⟩
  · rw [kept.awaited live]
    exact inv.pending (kept.live live)
  · obtain ⟨owner', _, same⟩ := kept.user u owner
    exact inv.opened u owner' (same ▸ opened)
  · obtain ⟨owner', same, _⟩ := kept.user u owner
    exact inv.unasked u owner' (same ▸ state)
  · obtain ⟨owner', same, _⟩ := kept.user u owner
    exact inv.success u owner' (same ▸ state)

/-- A step whose events are not about the login on `c`. -/
theorem LoginTrack.pass (track : LoginTrack s c) (es : List Ev) (trace : t.trace = es ++ s.trace)
    (passes : ∀ e ∈ es, e.Passes c) (kept : LoginKept s t c) : LoginTrack t c := by
  obtain ⟨p, accepts, inv⟩ := track
  obtain ⟨q, more, same⟩ := accepts_passes _ accepts passes
  refine ⟨q, trace ▸ more, ?_⟩
  rcases same with rfl | rfl
  · exact inv.kept kept
  · exact (inv.kept kept).pass

theorem LoginKept.of_linked (linked : Linked s t)
    (awaited : t.awaitedLogins c = s.awaitedLogins c)
    (user : ∀ u, (s.users u).conn = some c → (t.users u).state = (s.users u).state ∧
      (t.users u).streamOpened = (s.users u).streamOpened) : LoginKept s t c := by
  refine ⟨fun new => linked.nextConn ▸ new, (linked.live c).mp, fun _ => awaited, fun u owner => ?_⟩
  rw [linked.owner] at owner
  exact ⟨owner, user u owner⟩

theorem awaitedLogins_of_queue
    (same : (t.conn c).xmlNeedResponsesQueue = (s.conn c).xmlNeedResponsesQueue) :
    t.awaitedLogins c = s.awaitedLogins c := by
  rw [awaitedLogins, awaitedLogins, same]

theorem LoginKept.of_users (linked : Linked s t)
    (queue : (t.conn c).xmlNeedResponsesQueue = (s.conn c).xmlNeedResponsesQueue)
    (users : t.users = s.users) : LoginKept s t c :=
  .of_linked linked (awaitedLogins_of_queue queue) fun u _ => by rw [users]; exact ⟨rfl, rfl⟩

/-- A change of a user that is not about the login. -/
theorem login_updParty (s : Session) (u v : UserPtr) {f : Party → Party}
    (keeps : ∀ p, (f p).state = p.state ∧ (f p).streamOpened = p.streamOpened) :
    ((s.updParty u f).users v).state = (s.users v).state ∧
      ((s.updParty u f).users v).streamOpened = (s.users v).streamOpened := by
  rw [users_updParty]
  split
  · subst v
    exact keeps _
  · exact ⟨rfl, rfl⟩

/-- Registrations of other answers do not touch the awaited logins. -/
theorem awaitedLogins_append (es : List XmlNeedResponse) (plain : ∀ e ∈ es, ¬e.IsLogin)
    (queue : (t.conn c).xmlNeedResponsesQueue = es ++ (s.conn c).xmlNeedResponsesQueue) :
    t.awaitedLogins c = s.awaitedLogins c := by
  have none : es.filter (fun e => e.IsLogin) = [] := List.filter_eq_nil_iff.mpr fun e mem => by
    simpa using plain e mem
  rw [awaitedLogins, queue, List.filter_append, none, List.nil_append, awaitedLogins]

theorem LoginTrack.root (sound : s.Sound) (owner : (s.users u).conn = some d)
    (track : LoginTrack s c) : LoginTrack (s.openStream u d) c := by
  have linked : Linked s (s.openStream u d) := ((Linked.refl s).updParty u (by exact fun _ => rfl)).emit _
  by_cases here : c = d
  · subst d
    obtain ⟨p, accepts, inv⟩ := track
    have old : ¬(s.openStream u c).nextConn ≤ c := Nat.not_le.mpr (sound.old owner)
    have state : ∀ v, ((s.openStream u c).users v).state = (s.users v).state := by
      intro v
      change ((s.updParty u fun p => { p with streamOpened := true }).users v).state = _
      rw [users_updParty]
      split
      · subst v
        rfl
      · rfl
    by_cases fresh : p = .fresh
    · subst p
      refine ⟨.opened, accepts.step .root, fun new => absurd new old, inv.pending,
        fun v _ _ => by simp, fun v _ _ => trivial, fun v owner' logged => ?_⟩
      rw [linked.owner] at owner'
      exact inv.success v owner' (state v ▸ logged)
    · refine ⟨p.pass, accepts.step (.again fresh), fun new => absurd new old, fun live => ?_,
        fun v _ _ => by rwa [ne_eq, LoginPhase.pass_eq_fresh], fun v owner' unasked => ?_,
        fun v owner' logged => ?_⟩
      · rw [LoginPhase.awaits_pass]
        exact inv.pending live
      · rw [linked.owner] at owner'
        exact inv.pass.unasked v owner' (state v ▸ unasked)
      · rw [linked.owner] at owner'
        exact inv.pass.success v owner' (state v ▸ logged)
  · refine track.pass [.root d] rfl (by simpa [Ev.Passes] using Ne.symm here)
      (.of_linked linked rfl fun v owner' => ?_)
    have other : v ≠ u := by
      rintro rfl
      exact here (Option.some.inj (owner'.symm.trans owner))
    change ((s.updParty u fun p => { p with streamOpened := true }).users v).state = _ ∧
      ((s.updParty u fun p => { p with streamOpened := true }).users v).streamOpened = _
    rw [users_updParty, if_neg other]
    exact ⟨rfl, rfl⟩

theorem LoginTrack.ask (track : LoginTrack s c) {text : CString} {es : List XmlNeedResponse}
    (plain : ∀ e ∈ es, ¬e.IsLogin) : LoginTrack (s.ask d text es) c := by
  refine track.pass ((es.map (Ev.registered d)).reverse ++ [.accepted d (some text)]) ?_ ?_
    (.of_linked (((Linked.refl s).accept d _).registers d es) ?_ fun v _ => ?_)
  · rw [trace_ask, List.append_assoc]
    rfl
  · intro e mem
    rw [List.mem_append, List.mem_reverse, List.mem_map, List.mem_singleton] at mem
    rcases mem with ⟨r, member, rfl⟩ | rfl
    · exact fun _ => plain r member
    · trivial
  · by_cases here : c = d
    · refine awaitedLogins_append es.reverse (by simpa using plain) ?_
      rw [conn_ask, if_pos here]
    · refine awaitedLogins_of_queue ?_
      rw [conn_ask, if_neg here]
  · rw [Session.ask, users_registers]
    exact ⟨rfl, rfl⟩

/-- A login request that is in the queue is the one that the phase awaits. -/
theorem awaits_only {before later : List CString} {id : CString}
    (pending : before ++ id :: later = p.awaits) :
    (∃ heard, p = .asked id heard) ∧ before ++ later = [] := by
  cases p with
  | asked id' heard =>
    have length := congrArg List.length pending
    simp only [LoginPhase.awaits, List.length_append, List.length_cons, List.length_nil] at length
    have none : before = [] := List.length_eq_zero_iff.mp (by omega)
    have none' : later = [] := List.length_eq_zero_iff.mp (by omega)
    subst none none'
    cases pending
    exact ⟨⟨heard, rfl⟩, rfl⟩
  | _ => simp [LoginPhase.awaits] at pending

/-- The answer to a login request is dispatched while its stanza is the last event. -/
theorem LoginTrack.dispatch (sound : s.Sound) {x : XmlNode} {id : CString} {e : XmlNeedResponse}
    {queue : List XmlNeedResponse} {rest : List Ev} (owner : (s.users u).conn = some d)
    (last : s.trace = .stanza d x :: rest) (known : stanzaId x = some id)
    (found : xmlNeedResponseNodeGet id (s.conn d).xmlNeedResponsesQueue = (some e, queue))
    (track : LoginTrack s c) : LoginTrack (s.dispatch d e queue) c := by
  have linked : Linked s (s.dispatch d e queue) := ((Linked.refl s).updConn d (by exact fun _ => ⟨rfl, rfl⟩)).emit _
  obtain ⟨same, before, later, queue_eq, rest_eq, _⟩ := xmlNeedResponseNodeGet_eq found
  by_cases mine : c = d ∧ e.IsLogin
  · obtain ⟨rfl, login⟩ := mine
    obtain ⟨p, accepts, inv⟩ := track
    have old : ¬s.nextConn ≤ c := Nat.not_le.mpr (sound.old owner)
    have pending := inv.pending (sound.live_of_conn owner)
    have awaited : s.awaitedLogins c =
        (before.filter fun e => e.IsLogin).map XmlNeedResponse.id ++
          e.id :: (later.filter fun e => e.IsLogin).map XmlNeedResponse.id := by
      simp [awaitedLogins, queue_eq, login]
    have left : (s.dispatch c e queue).awaitedLogins c =
        (before.filter fun e => e.IsLogin).map XmlNeedResponse.id ++
          (later.filter fun e => e.IsLogin).map XmlNeedResponse.id := by
      simp [awaitedLogins, conn_dispatch, rest_eq]
    obtain ⟨⟨heard, rfl⟩, drained⟩ := awaits_only (awaited.symm.trans pending)
    rw [last] at accepts
    have answered := (accepts_heard accepts).step (.answer login (same ▸ known))
    rw [← last] at answered
    refine ⟨.answered x, answered, fun new => absurd new old, fun _ => left.trans drained,
      fun v _ _ => by simp, fun v owner' state => (inv.unasked v owner' state).elim,
      fun v owner' state => ?_⟩
    cases inv.success v owner' state
  · refine track.pass [.dispatched d e] rfl ?_ (.of_linked linked ?_ fun v _ => ⟨rfl, rfl⟩)
    · simpa [Ev.Passes, eq_comm] using mine
    · by_cases here : c = d
      · have plain : ¬e.IsLogin := fun login => mine ⟨here, login⟩
        subst d
        simp [awaitedLogins, conn_dispatch, queue_eq, rest_eq, plain]
      · refine awaitedLogins_of_queue ?_
        rw [conn_dispatch, if_neg here]

theorem LoginTrack.login (sound : s.Sound) {text : CString} {e : XmlNeedResponse}
    (owner : (s.users u).conn = some d) (state : (s.users u).state = .canLogin)
    (opened : (s.users u).streamOpened = true) (login : e.IsLogin) (track : LoginTrack s c) :
    LoginTrack (s.login u d text e) c := by
  have linked : Linked s (s.login u d text e) :=
    (((((Linked.refl s).draw u).emit _).accept d _).register d e |>.updParty u (by exact fun _ => rfl) |>.emit _)
  have users : ∀ v, (s.login u d text e).users v = if v = u then
      { s.users u with tmpid := (s.users u).tmpid + 1, state := .isLogging } else s.users v := by
    intro v
    change (((s.updParty u fun p => { p with tmpid := p.tmpid + 1 }).updParty u
      fun p => { p with state := .isLogging }).users v) = _
    rw [users_updParty, users_updParty_self, users_updParty]
    split <;> rfl
  by_cases here : c = d
  · subst d
    obtain ⟨p, accepts, inv⟩ := track
    have old : ¬s.nextConn ≤ c := Nat.not_le.mpr (sound.old owner)
    obtain rfl : p = .opened := by
      have begun := inv.opened u owner opened
      have unasked := inv.unasked u owner state
      cases p with
      | fresh => exact absurd rfl begun
      | opened => rfl
      | _ => exact unasked.elim
    have noLogins : (s.conn c).xmlNeedResponsesQueue.filter (fun e => e.IsLogin) = [] := by
      have pending := inv.pending (sound.live_of_conn owner)
      exact List.map_eq_nil_iff.mp pending
    have queued : Accepts (loginMonitor c) (s.login u c text e).trace (.asked e.id none) := by
      obtain ⟨q, accepted, same⟩ := accepts_passes [.accepted c (some text),
        .requested c (s.users u).tmpid true (s.conn c).writer.length
          (s.conn c).xmlNeedResponsesQueue, .idDrawn u (s.users u).tmpid] accepts
        (by simp [Ev.Passes])
      obtain rfl : q = .opened := by
        rcases same with same | same
        · exact same
        · exact same
      exact (accepted.step (.register login)).step .queue
    refine ⟨_, queued, fun new => absurd new old, fun _ => ?_, fun v _ _ => by simp,
      fun v owner' state' => ?_, fun v owner' state' => ?_⟩
    · simp [awaitedLogins, conn_login, login, noLogins, LoginPhase.awaits]
    · rw [linked.owner] at owner'
      obtain rfl := sound.only owner owner'
      rw [users, if_pos rfl] at state'
      cases state'
    · rw [linked.owner] at owner'
      obtain rfl := sound.only owner owner'
      rw [users, if_pos rfl] at state'
      cases state'
  · refine track.pass [_, _, _, _, _] rfl ?_ (.of_linked linked ?_ fun v owner' => ?_)
    · simpa [Ev.Passes] using ⟨Ne.symm here, fun same => absurd same.symm here⟩
    · refine awaitedLogins_of_queue ?_
      rw [conn_login, if_neg here]
    · have other : v ≠ u := by
        rintro rfl
        exact here (Option.some.inj (owner'.symm.trans owner))
      rw [users, if_neg other]
      exact ⟨rfl, rfl⟩

theorem LoginTrack.logIn (sound : s.Sound) {x : XmlNode} {e : XmlNeedResponse} {rest : List Ev}
    (owner : (s.users u).conn = some d) (last : s.trace = .dispatched d e :: .stanza d x :: rest)
    (login : e.IsLogin) (noError : isError x = false) (track : LoginTrack s c) :
    LoginTrack (s.logIn u d x) c := by
  have linked : Linked s (s.logIn u d x) := ((Linked.refl s).updParty u (by exact fun _ => rfl)).emit _
  have users : ∀ v, (s.logIn u d x).users v =
      if v = u then { s.users u with state := .loggedIn } else s.users v :=
    fun v => users_updParty s u v fun p => { p with state := .loggedIn }
  by_cases here : c = d
  · subst d
    obtain ⟨p, accepts, inv⟩ := track
    have old : ¬s.nextConn ≤ c := Nat.not_le.mpr (sound.old owner)
    rw [last] at accepts
    obtain rfl := accepts_answered login accepts
    rw [← last] at accepts
    refine ⟨.loggedIn, accepts.step (.logIn noError), fun new => absurd new old, inv.pending,
      fun v _ _ => by simp, fun v owner' state' => ?_, fun v _ _ => rfl⟩
    rw [linked.owner] at owner'
    obtain rfl := sound.only owner owner'
    rw [users, if_pos rfl] at state'
    cases state'
  · refine track.pass [_] rfl (by simpa [Ev.Passes] using Ne.symm here)
      (.of_linked linked rfl fun v owner' => ?_)
    have other : v ≠ u := by
      rintro rfl
      exact here (Option.some.inj (owner'.symm.trans owner))
    rw [users, if_neg other]
    exact ⟨rfl, rfl⟩

theorem LoginTrack.fetch {x : XmlNode} {rest : List Ev} (last : s.trace = .loggedIn d x :: rest)
    (track : LoginTrack s c) : LoginTrack (s.emit (.fetchIssued d)) c := by
  by_cases here : c = d
  · subst d
    obtain ⟨p, accepts, inv⟩ := track
    rw [last] at accepts
    obtain rfl := accepts_loggedIn accepts
    rw [← last] at accepts
    exact ⟨.over true, accepts.step .fetch, fun new => (by cases inv.new new), inv.pending,
      fun v _ _ => (by simp), fun v owner state => (inv.unasked v owner state).elim,
      fun v _ _ => rfl⟩
  · exact track.pass [_] rfl (by simpa [Ev.Passes] using Ne.symm here)
      (.of_users ((Linked.refl s).emit _) rfl rfl)

theorem LoginTrack.rosterRegister {e : XmlNeedResponse} (plain : ¬e.IsLogin)
    (track : LoginTrack s c) : LoginTrack (s.rosterRegister u d e) c := by
  refine track.pass [_, _, _] rfl (by simpa [Ev.Passes] using fun _ => plain)
    (.of_linked ((Linked.refl s).rosterRegister u d e) ?_ fun v _ => ?_)
  · by_cases here : c = d
    · refine awaitedLogins_append [e] (by simpa using plain) ?_
      rw [conn_rosterRegister, if_pos here]
      rfl
    · refine awaitedLogins_of_queue ?_
      rw [conn_rosterRegister, if_neg here]
  · exact login_updParty s u v (f := fun p => { p with tmpid := p.tmpid + 1 }) (by exact fun _ => ⟨rfl, rfl⟩)

theorem LoginTrack.accept (track : LoginTrack s c) (text : Option CString) :
    LoginTrack (s.accept d text) c := by
  refine track.pass [_] rfl (by simp [Ev.Passes]) (.of_users ((Linked.refl s).accept d text) ?_ rfl)
  rw [conn_accept]
  split <;> rfl

theorem LoginTrack.pop (track : LoginTrack s c) (text : CString) (next : List JpolldWriteBuf) :
    LoginTrack (s.pop d text next) c := by
  refine track.pass [_] (trace_pop s d text next) (by simp [Ev.Passes])
    (.of_users ((Linked.refl s).pop d text next) ?_ (users_pop s d text next))
  rw [conn_pop_of]
  split <;> rfl

theorem LoginTrack.note (track : LoginTrack s c) {e : Ev} (isNote : e.IsNote) :
    LoginTrack (s.emit e) c :=
  track.pass [e] rfl (by simpa using isNote.passes) (.of_users ((Linked.refl s).emit e) rfl rfl)

theorem Calm.loginTrack (sound : s.Sound) (step : Calm s t) (track : LoginTrack s c) :
    LoginTrack t c := by
  cases step with
  | note e isNote => exact track.note isNote
  | draw u =>
    refine track.pass [_] rfl (by simp [Ev.Passes]) (.of_linked ((Linked.refl s).draw u) rfl ?_)
    exact fun v _ => login_updParty s u v (f := fun p => { p with tmpid := p.tmpid + 1 }) (by exact fun _ => ⟨rfl, rfl⟩)
  | refill _ =>
    exact track.pass [_] rfl (by simp [Ev.Passes])
      ⟨id, id, fun _ => rfl, fun _ owner => ⟨owner, rfl, rfl⟩⟩
  | write text _ => exact track.accept text
  | ask _ _ plain _ => exact track.ask fun e mem => (plain e mem).1
  | @advance d text next k _ _ _ =>
    refine track.pass [_] rfl (by simp [Ev.Passes])
      (.of_users (((Linked.refl s).emit _).updConn d (by exact fun _ => ⟨rfl, rfl⟩)) ?_ rfl)
    rw [conn_advance]
    split <;> rfl
  | @pop d text next _ _ _ => exact track.pop text next
  | connected d =>
    refine track.pass [] rfl (by simp) (.of_users ((Linked.refl s).updConn d (by exact fun _ => ⟨rfl, rfl⟩)) ?_ rfl)
    rw [conn_updConn]
    split <;> rfl
  | @finish u d _ =>
    refine track.pass [_] rfl (by simp [Ev.Passes])
      (.of_users (((Linked.refl s).emit _).updConn d (by exact fun _ => ⟨rfl, rfl⟩)) ?_ rfl)
    rw [conn_finish]
    split <;> rfl
  | root owner => exact track.root sound owner
  | stanza x _ =>
    exact track.pass [_] rfl (by simp [Ev.Passes]) (.of_users ((Linked.refl s).emit _) rfl rfl)
  | dispatch owner last known found => exact track.dispatch sound owner last known found
  | login owner state opened _ => exact track.login sound owner state opened rfl
  | loggedIn owner last callback noError => exact track.logIn sound owner last callback noError
  | fetch last => exact track.fetch last
  | @rosterAsk u d text time callback _ plain _ _ =>
    have registered : LoginTrack (s.rosterRegister u d
        ⟨jcomId idBufSize (s.users u).tmpid, time, callback⟩) c := track.rosterRegister plain
    exact registered.accept _
  | @rosterCancel u d text time callback _ plain _ =>
    have registered : LoginTrack (s.rosterRegister u d
        ⟨jcomId idBufSize (s.users u).tmpid, time, callback⟩) c := track.rosterRegister plain
    exact registered.note trivial
  | roster count _ =>
    refine track.pass [] rfl (by simp) (.of_linked ((Linked.refl s).updParty _ (by exact fun _ => rfl)) rfl ?_)
    exact fun v _ => login_updParty s _ v (by exact fun _ => ⟨rfl, rfl⟩)
  | privLoaded _ =>
    refine track.pass [] rfl (by simp) (.of_linked ((Linked.refl s).updParty _ (by exact fun _ => rfl)) rfl ?_)
    exact fun v _ => login_updParty s _ v (by exact fun _ => ⟨rfl, rfl⟩)
  | privDeleted u =>
    refine track.pass [] rfl (by simp) (.of_linked ((Linked.refl s).updParty u (by exact fun _ => rfl)) rfl ?_)
    exact fun v _ => login_updParty s u v (by exact fun _ => ⟨rfl, rfl⟩)

theorem LoginTrack.connect (sound : s.Sound) {loc : Nat} {next : List Nat}
    {sstate : SockState} {fd time : Int} {ssl : Bool} (idle : (s.users u).conn = none)
    (track : LoginTrack s c) : LoginTrack (s.connect u loc next sstate fd time ssl) c := by
  have party := (sound.party u).idle idle
  have stranger : ∀ v, (s.users v).conn ≠ some s.nextConn := fun v owner =>
    absurd (sound.old owner) (Nat.lt_irrefl _)
  have users : ∀ v, (s.connect u loc next sstate fd time ssl).users v =
      if v = u then { s.users u with conn := some s.nextConn } else s.users v := by
    intro v
    by_cases same : v = u
    · simp [Session.connect, same]
    · simp [Session.connect, same]
  by_cases new : c = s.nextConn
  · subst c
    obtain ⟨p, accepts, inv⟩ := track
    obtain rfl := inv.new (Nat.le_refl _)
    have created : Accepts (loginMonitor s.nextConn)
        (s.connect u loc next sstate fd time ssl).trace .fresh :=
      accepts.step (.other (by simp [Ev.Passes]))
    refine ⟨.fresh, created, fun _ => rfl, fun _ => ?_, fun v owner opened => ?_,
      fun v _ _ => trivial, fun v owner state => ?_⟩
    · simp [awaitedLogins, conn_connect, LoginPhase.awaits]
    · rw [users] at owner opened
      split at owner
      · rw [if_pos ‹v = u›, party.2.2.1] at opened
        cases opened
      · exact absurd owner (stranger v)
    · rw [users] at owner state
      split at owner
      · rw [if_pos ‹v = u›] at state
        exact absurd state party.2.1
      · exact absurd owner (stranger v)
  · refine track.pass [_] rfl (by simp [Ev.Passes]) ⟨fun later => ?_, fun live => ?_, fun _ => ?_,
      fun v owner => ?_⟩
    · exact Nat.le_of_succ_le later
    · exact ((live_connect s c u loc next sstate fd time ssl).mp live).resolve_left new
    · refine awaitedLogins_of_queue ?_
      rw [conn_connect, if_neg new]
    · rw [users] at owner ⊢
      by_cases same : v = u
      · rw [if_pos same] at owner
        exact absurd (Option.some.inj owner).symm new
      · rw [if_neg same] at owner ⊢
        exact ⟨owner, rfl, rfl⟩

/-- Whatever the phase, a death ends the login on a connection. -/
theorem LoginTrack.death {site : KillSite} (track : LoginTrack s c)
    (trace : t.trace = .killed d site :: s.trace) (old : ¬t.nextConn ≤ d) (sound : t.Sound)
    (dead : ¬t.live d) (kept : c ≠ d → LoginKept s t c) : LoginTrack t c := by
  by_cases here : c = d
  · subst d
    obtain ⟨p, accepts, inv⟩ := track
    have unowned : ∀ u, (t.users u).conn ≠ some c := fun u owner =>
      dead (sound.live_of_conn owner)
    exact ⟨.over p.success, trace ▸ accepts.step .kill, fun new => absurd new old,
      fun live => absurd live dead, fun u owner => absurd owner (unowned u),
      fun u owner => absurd owner (unowned u), fun u owner => absurd owner (unowned u)⟩
  · exact track.pass [_] trace (by simpa [Ev.Passes] using Ne.symm here) (kept here)

theorem LoginTrack.kill (sound : s.Sound) (track : LoginTrack s c) (there : s.live d)
    (site : KillSite) : LoginTrack (s.kill d site) c := by
  obtain ⟨issued, slots⟩ := sound.slots
  refine track.death (trace_kill s d site) ?_ (sound.kill there site) ?_ fun other => ?_
  · rw [nextConn_kill]
    exact Nat.not_le.mpr (slots.fresh d there)
  · simp [live_kill]
  · refine ⟨fun new => by rwa [nextConn_kill] at new, fun live => ((live_kill s d site c).mp live).2,
      fun _ => awaitedLogins_of_queue (by rw [conn_kill]), fun v owner => ?_⟩
    rw [users_kill] at owner ⊢
    split at owner
    · cases owner
    · rw [if_neg ‹_›]
      exact ⟨owner, rfl, rfl⟩

theorem LoginTrack.userKill (sound : s.Sound) (track : LoginTrack s c)
    (owner : (s.users u).conn = some d) (site : KillSite) : LoginTrack (s.userKill u d site) c := by
  have dead : ¬(s.userKill u d site).live d := by simp [live_userKill]
  have nextConn : (s.userKill u d site).nextConn = s.nextConn := by
    change ((s.updConn d _).kill d site).nextConn = _
    rw [nextConn_kill]
    rfl
  refine track.death (trace_userKill s d u site) ?_ (sound.userKill owner site) dead fun other => ?_
  · rw [nextConn]
    exact Nat.not_le.mpr (sound.old owner)
  · refine ⟨fun new => nextConn ▸ new, fun live => ((live_userKill s d c u site).mp live).2,
      fun _ => awaitedLogins_of_queue (by rw [conn_userKill, if_neg other]), fun v owner' => ?_⟩
    simp only [Session.userKill, users_updParty, users_kill, conn_updConn_self, reduceCtorEq,
      if_false] at owner' ⊢
    split at owner'
    · cases owner'
    · rw [if_neg ‹_›]
      exact ⟨owner', rfl, rfl⟩

theorem Act.loginTrack (sound : s.Sound) (step : Act s t) (track : LoginTrack s c) :
    LoginTrack t c := by
  cases step with
  | calm step => exact step.loginTrack sound track
  | connect sstate fd time ssl idle slot => exact track.connect sound idle
  | kill site there _ => exact track.kill sound there site
  | @drained d text there queue closing =>
    exact (track.pop text []).kill (sound.pop d text []) ((live_pop s d d text []).mpr there) _
  | userKill site owner _ => exact track.userKill sound owner site
  | @userReset u idle =>
    refine track.pass [] rfl (by simp) ⟨id, id, fun _ => rfl, fun v owner => ?_⟩
    rw [users_updParty] at owner ⊢
    split at owner
    · cases owner
    · rw [if_neg ‹_›]
      exact ⟨owner, rfl, rfl⟩

end Session

theorem Session.Initial.loginTrack {s : Session} (initial : s.Initial) (c : ConnPtr) :
    s.LoginTrack c := by
  refine ⟨.fresh, ?_, fun _ => rfl, fun live => absurd live (initial.dead c), fun u owner => ?_,
    fun _ _ _ => trivial, fun u owner => ?_⟩
  · rw [initial.trace]
    exact .start
  · rw [initial.users u] at owner
    cases owner
  · rw [initial.users u] at owner
    cases owner

theorem Reachable.loginTrack {w : World} (reach : Reachable w) (c : ConnPtr) :
    w.session.LoginTrack c :=
  reach.induct (K := fun s => s.LoginTrack c) (fun _ initial => initial.loginTrack c)
    fun sound step track => step.loginTrack sound track

/-- On every connection of a run a login request is queued and registered at most
once, after a root. A login comes right after the dispatch of the stanza that
answers the request of the same connection, while that is up. The properties
are fetched at most once, right after it. A user is only logged in so. -/
theorem login_in_order {w : World} (reach : Reachable w) :
    (∀ c, w.trace.countP (Ev.queuesLogin c) ≤ 1 ∧ w.trace.countP (Ev.registersLogin c) ≤ 1 ∧
      ∀ id rest, .loginQueued c id :: rest <:+ w.trace →
        .root c ∈ rest ∧ ∃ e : XmlNeedResponse, e.IsLogin ∧ e.id = id ∧ .registered c e ∈ rest) ∧
    (∀ c x rest, .loggedIn c x :: rest <:+ w.trace →
      ∃ e earlier, rest = .dispatched c e :: .stanza c x :: earlier ∧ LoggedInBy c x e earlier) ∧
    (∀ u, (w.users u).state = .loggedIn →
      ∃ c x, (w.users u).conn = some c ∧ .loggedIn c x ∈ w.trace) ∧
    ∀ c, w.trace.countP (Ev.issuesFetch c) ≤ 1 ∧
      ∀ rest, .fetchIssued c :: rest <:+ w.trace → ∃ x earlier, rest = .loggedIn c x :: earlier := by
  refine ⟨fun c => ?_, fun c x rest suffix => ?_, fun u state => ?_, fun c => ?_⟩
  · obtain ⟨p, accepts, _⟩ := reach.loginTrack c
    exact ⟨accepts_queued_once accepts, accepts_registered_once accepts,
      fun id rest suffix => accepts_login accepts suffix⟩
  · obtain ⟨p, accepts, _⟩ := reach.loginTrack c
    exact accepts_logIn accepts suffix
  · cases owner : (w.users u).conn with
    | none => exact absurd state ((reach.sound.party u).idle owner).2.1
    | some c =>
      obtain ⟨p, accepts, inv⟩ := reach.loginTrack c
      obtain ⟨x, mem⟩ := (accepts_past accepts).success (inv.success u owner state)
      exact ⟨c, x, rfl, mem⟩
  · obtain ⟨p, accepts, _⟩ := reach.loginTrack c
    exact ⟨accepts_fetched_once accepts, fun rest suffix => accepts_fetch accepts suffix⟩

/-- A user whose login is answered. -/
def answeredWorld (answer : XmlNode) : World :=
  (plainWorld [connectEvent]).played (loginScript ++ [hears [.node answer]])

theorem reachable_answeredWorld (answer : XmlNode) : Reachable (answeredWorld answer) :=
  reachable_played (.init (plainWorld_initial [connectEvent])) _

theorem login_in_order_answered :
    ∃ c x, ((answeredWorld (resultFor (cstr "JCOM_0") [])).users 0).conn = some c ∧
      .loggedIn c x ∈ (answeredWorld (resultFor (cstr "JCOM_0") [])).trace :=
  (login_in_order (reachable_answeredWorld _)).2.2.1 0 (by decide +kernel)

/-- An answer that has no identifier, but names the login in a private query. -/
def namelessAnswer : XmlNode :=
  .tag (cstr "iq") [(cstr "type", cstr "result")]
    [.tag (cstr "query") [(cstr "xmlns", iqPrivate)]
      [.tag (cstr "wpmsg") [(cstr "xmlns", cstr "JCOM_0")] []]]

/-- A login that an answer without an identifier brought about. -/
def Ev.isNamelessLogin : Ev → Bool
  | .loggedIn _ x => (xmlnodeGetAttrib (some x) (cstr "id")).isNone
  | _ => false

theorem namelessAnswer_logs_in : ¬∀ w, Reachable w → ∀ c x rest,
    .loggedIn c x :: rest <:+ w.trace →
      ∃ id, .loginQueued c id ∈ rest ∧ xmlnodeGetAttrib (some x) (cstr "id") = some id := by
  intro claim
  have some : (answeredWorld namelessAnswer).trace.any Ev.isNamelessLogin = true := by
    decide +kernel
  obtain ⟨e, mem, hit⟩ := List.any_eq_true.mp some
  cases e with
  | loggedIn c x =>
    obtain ⟨later, rest, split⟩ := List.append_of_mem mem
    obtain ⟨id, _, named⟩ := claim _ (reachable_answeredWorld _) c x rest ⟨later, split.symm⟩
    rw [Ev.isNamelessLogin, named] at hit
    cases hit
  | _ => cases hit

end JabSimul
