import JabSimul.QueueMoves

/-!
The closing tag of a stream. A logout queues it and marks the connection in one
go; the connection then lives while packets wait, and takes more of them until its
queue is drained for the first time.
-/
namespace JabSimul

open Simulation Relation

namespace Session

variable {s t : Session} {c d : ConnPtr}

/-- What a step adds to the trace speaks of acceptance only for a connection that
is alive, and of a kill only for one that is dead afterwards. -/
structure Tidings (s t : Session) (new : List Ev) : Prop where
  trace : t.trace = new ++ s.trace
  accepts : ∀ c text, .accepted c text ∈ new → s.live c ∧ ∀ d site, .killed d site ∉ new
  kills : ∀ c site, .killed c site ∈ new → c < s.nextConn ∧ ¬t.live c

theorem Tidings.quiet {new : List Ev} (trace : t.trace = new ++ s.trace)
    (silent : ∀ c text, .accepted c text ∉ new) (spared : ∀ c site, .killed c site ∉ new) :
    Tidings s t new :=
  ⟨trace, fun c text heard => absurd heard (silent c text),
    fun c site heard => absurd heard (spared c site)⟩

theorem Tidings.accept {new : List Ev} (trace : t.trace = new ++ s.trace) (live : s.live c)
    (only : ∀ d text, .accepted d text ∈ new → d = c) (spared : ∀ c site, .killed c site ∉ new) :
    Tidings s t new := by
  refine ⟨trace, fun d text heard => ⟨?_, spared⟩, fun d site heard => absurd heard (spared d site)⟩
  rw [only d text heard]
  exact live

theorem Calm.tidings (sound : s.Sound) (step : Calm s t) : ∃ new, Tidings s t new := by
  cases step with
  | note e isNote =>
    refine ⟨[e], .quiet rfl ?_ ?_⟩
    · intro c text heard
      rw [List.mem_singleton] at heard
      subst e
      exact isNote
    · intro c site heard
      rw [List.mem_singleton] at heard
      subst e
      exact isNote
  | draw u => exact ⟨[_], .quiet rfl (by simp) (by simp)⟩
  | refill _ => exact ⟨[_], .quiet rfl (by simp) (by simp)⟩
  | @write c text live => exact ⟨[_], .accept (c := c) rfl live (by simp) (by simp)⟩
  | @ask c text es live _ _ _ =>
    refine ⟨(es.map (Ev.registered c)).reverse ++ [.accepted c (some text)],
      .accept (c := c) ?_ live (by simp) (by simp)⟩
    rw [trace_ask, List.append_assoc]
    rfl
  | advance _ _ _ => exact ⟨[_], .quiet rfl (by simp) (by simp)⟩
  | pop _ _ _ => exact ⟨[_], .quiet (trace_pop _ _ _ _) (by simp) (by simp)⟩
  | connected c => exact ⟨[], .quiet rfl (by simp) (by simp)⟩
  | finish _ => exact ⟨[_], .quiet rfl (by simp) (by simp)⟩
  | root _ => exact ⟨[_], .quiet rfl (by simp) (by simp)⟩
  | stanza x _ => exact ⟨[_], .quiet rfl (by simp) (by simp)⟩
  | dispatch _ _ _ _ => exact ⟨[_], .quiet rfl (by simp) (by simp)⟩
  | @login u c text time owner _ _ _ =>
    exact ⟨_, .accept (c := c) (trace_login _ _ _ _ _) (sound.live_of_conn owner) (by simp) (by simp)⟩
  | loggedIn _ _ _ _ => exact ⟨[_], .quiet rfl (by simp) (by simp)⟩
  | fetch _ => exact ⟨[_], .quiet rfl (by simp) (by simp)⟩
  | @rosterAsk u c text time callback owner _ _ _ =>
    exact ⟨[_, _, _, _], .accept (c := c) rfl (sound.live_of_conn owner) (by simp) (by simp)⟩
  | rosterCancel _ _ _ => exact ⟨[_, _, _, _], .quiet rfl (by simp) (by simp)⟩
  | roster _ _ => exact ⟨[], .quiet rfl (by simp) (by simp)⟩
  | privLoaded _ => exact ⟨[], .quiet rfl (by simp) (by simp)⟩
  | privDeleted u => exact ⟨[], .quiet rfl (by simp) (by simp)⟩

theorem Tidings.kill {new : List Ev} (trace : t.trace = new ++ s.trace) (live : s.live c)
    (sound : s.Sound) (dead : ¬t.live c) (only : ∀ d site, .killed d site ∈ new → d = c)
    (silent : ∀ c text, .accepted c text ∉ new) : Tidings s t new := by
  refine ⟨trace, fun d text heard => absurd heard (silent d text), fun d site heard => ?_⟩
  rw [only d site heard]
  exact ⟨sound.fresh live, dead⟩

theorem Act.tidings (sound : s.Sound) (step : Act s t) : ∃ new, Tidings s t new := by
  cases step with
  | calm step => exact step.tidings sound
  | connect _ _ _ _ _ _ => exact ⟨[_], .quiet rfl (by simp) (by simp)⟩
  | @kill c site live _ =>
    refine ⟨[.killed c site], .kill (c := c) (trace_kill s c site) live sound ?_ (by simp) (by simp)⟩
    exact fun alive => ((live_kill s c site c).mp alive).1 rfl
  | @drained c text live _ _ =>
    refine ⟨[.killed c .writeDrained, .sent c text], .kill (c := c) ?_ live sound ?_ (by simp)
      (by simp)⟩
    · rw [trace_kill, trace_pop]
      rfl
    · exact fun alive => ((live_kill _ c _ c).mp alive).1 rfl
  | @userKill u c site owner _ =>
    refine ⟨[.killed c site], .kill (c := c) (trace_userKill _ _ _ _) (sound.live_of_conn owner)
      sound ?_ (by simp) (by simp)⟩
    exact fun alive => ((live_userKill s c c u site).mp alive).1 rfl
  | userReset _ => exact ⟨[], .quiet rfl (by simp) (by simp)⟩

/-- A connection that was once made comes alive no more. -/
theorem Act.live_of_old (step : Act s t) (old : d < s.nextConn) (alive : t.live d) : s.live d := by
  cases step with
  | calm step =>
    rcases step.linked with linked | ⟨_, rfl⟩
    · exact (linked.live d).mp alive
    · exact alive
  | connect _ _ _ _ _ _ =>
    exact ((live_connect ..).mp alive).resolve_left (Nat.ne_of_lt old)
  | @kill c site _ _ => exact ((live_kill s c site d).mp alive).2
  | @drained c text _ _ _ =>
    exact (live_pop s c d text []).mp ((live_kill _ c _ d).mp alive).2
  | @userKill u c site _ _ => exact ((live_userKill s c d u site).mp alive).2
  | userReset _ => exact alive

theorem Act.nextConn_le (step : Act s t) : s.nextConn ≤ t.nextConn := by
  cases step with
  | calm step =>
    rcases step.linked with linked | ⟨_, rfl⟩
    · exact Nat.le_of_eq linked.nextConn.symm
    · exact Nat.le_refl _
  | connect _ _ _ _ _ _ => exact Nat.le_succ _
  | @kill c site _ _ => rw [nextConn_kill]
  | @drained c text _ _ _ =>
    rw [nextConn_kill]
    exact Nat.le_of_eq ((Linked.refl s).pop c text []).nextConn.symm
  | @userKill u c site _ _ =>
    change s.nextConn ≤ ((s.updConn c _).kill c site).nextConn
    rw [nextConn_kill]
    exact Nat.le_refl _
  | userReset _ => exact Nat.le_refl _

/-- Nothing takes back the request to close a connection. -/
theorem Calm.stays_closing (step : Calm s t) (closing : (s.conn d).state = .closing) :
    (t.conn d).state = .closing := by
  cases step with
  | note _ _ => exact closing
  | draw _ => exact closing
  | refill _ => exact closing
  | write _ _ => rw [conn_accept]; split <;> exact closing
  | ask _ _ _ _ => rw [conn_ask]; split <;> exact closing
  | advance _ _ _ => rw [conn_advance]; split <;> exact closing
  | pop _ _ _ => rw [conn_pop_of]; split <;> exact closing
  | connected _ => rw [conn_updConn]; split <;> exact closing
  | finish _ =>
    rw [conn_finish]
    split
    · rfl
    · exact closing
  | root _ => exact closing
  | stanza _ _ => exact closing
  | dispatch _ _ _ _ => rw [conn_dispatch]; split <;> exact closing
  | login _ _ _ _ => rw [conn_login]; split <;> exact closing
  | loggedIn _ _ _ _ => exact closing
  | fetch _ => exact closing
  | rosterAsk _ _ _ _ =>
    rw [conn_accept, conn_rosterRegister]
    split <;> exact closing
  | rosterCancel _ _ _ => rw [conn_emit, conn_rosterRegister]; split <;> exact closing
  | roster _ _ => exact closing
  | privLoaded _ => exact closing
  | privDeleted _ => exact closing

theorem Act.stays_closing (step : Act s t) (old : d < s.nextConn)
    (closing : (s.conn d).state = .closing) : (t.conn d).state = .closing := by
  cases step with
  | calm step => exact step.stays_closing closing
  | connect _ _ _ _ _ _ => rwa [conn_connect, if_neg (Nat.ne_of_lt old)]
  | kill _ _ _ => rwa [conn_kill]
  | drained _ _ _ => rw [conn_kill, conn_pop_of]; split <;> exact closing
  | userKill _ _ _ => rw [conn_userKill]; split <;> exact closing
  | userReset _ => exact closing

/-- Connections that the trace speaks of were made, what was killed is dead, and
nothing is accepted after that. -/
structure Chronicle (s : Session) : Prop where
  accepted : ∀ c text, .accepted c text ∈ s.trace → c < s.nextConn
  killed : ∀ c site, .killed c site ∈ s.trace → c < s.nextConn ∧ ¬s.live c
  order : s.trace.Pairwise fun later earlier =>
    ∀ c text site, later = .accepted c text → earlier ≠ .killed c site

theorem Chronicle.step (sound : s.Sound) (step : Act s t) (chronicle : s.Chronicle) :
    t.Chronicle := by
  obtain ⟨new, tidings⟩ := step.tidings sound
  have grows := step.nextConn_le
  constructor
  · intro c text heard
    rw [tidings.trace] at heard
    rcases List.mem_append.mp heard with now | before
    · exact Nat.lt_of_lt_of_le (sound.fresh (tidings.accepts c text now).1) grows
    · exact Nat.lt_of_lt_of_le (chronicle.accepted c text before) grows
  · intro c site heard
    rw [tidings.trace] at heard
    rcases List.mem_append.mp heard with now | before
    · obtain ⟨old, dead⟩ := tidings.kills c site now
      exact ⟨Nat.lt_of_lt_of_le old grows, dead⟩
    · obtain ⟨old, dead⟩ := chronicle.killed c site before
      exact ⟨Nat.lt_of_lt_of_le old grows, fun alive => dead (step.live_of_old old alive)⟩
  · rw [tidings.trace, List.pairwise_append]
    refine ⟨List.pairwise_of_forall_mem_list ?_, chronicle.order, ?_⟩
    · rintro _ heard _ killed c text site rfl rfl
      exact (tidings.accepts c text heard).2 c site killed
    · rintro _ heard _ killed c text site rfl rfl
      exact (chronicle.killed c site killed).2 (tidings.accepts c text heard).1

theorem Initial.chronicle (initial : s.Initial) : s.Chronicle := by
  constructor <;> simp [initial.trace]

/-- A connection with the closing tag in its queue is closing and has packets. -/
def Leaving (s : Session) : Prop := ∀ c, .accepted c (some closingTag) ∈ s.trace → s.live c →
  (s.conn c).state = .closing ∧ (s.conn c).writer ≠ []

theorem Leaving.step (sound : s.Sound) (chronicle : s.Chronicle) (step : Act s t)
    (leaving : s.Leaving) (untagged : ∀ c, .accepted c (some closingTag) ∈ t.trace →
      .accepted c (some closingTag) ∈ s.trace) : t.Leaving := by
  intro c tagged alive
  have before := untagged c tagged
  have old := chronicle.accepted c _ before
  obtain ⟨closing, queued⟩ := leaving c before (step.live_of_old old alive)
  have still := step.stays_closing old closing
  refine ⟨still, ?_⟩
  cases step.queueStep sound alive with
  | kept _ _ writer _ => exact fun empty => queued (writer.mp empty)
  | accepted _ _ writer => exact writer
  | popped _ _ _ stays => exact stays.resolve_right (not_not.mpr still)
  | finished _ _ writer _ => rwa [writer]
  | opened _ _ state => exact absurd still state

/-- The induction is on the steps; nothing in between accepts a tag either, since
the trace only grows. -/
theorem Leaving.steps (sound : s.Sound) (chronicle : s.Chronicle) (leaving : s.Leaving)
    (steps : ReflTransGen Act s t) (untagged : ∀ c, .accepted c (some closingTag) ∈ t.trace →
      .accepted c (some closingTag) ∈ s.trace) : t.Leaving ∧ t.Chronicle := by
  induction steps with
  | refl => exact ⟨leaving, chronicle⟩
  | @tail b t before step ih =>
    obtain ⟨leaving, chronicle⟩ := ih fun c tagged =>
      untagged c (step.trace_suffix.subset tagged)
    have sound : b.Sound := Abstraction.inv_steps (A := machine) sound before
    exact ⟨leaving.step sound chronicle step fun c tagged => (trace_suffix_steps before).subset (untagged c tagged),
      chronicle.step sound step⟩

end Session

/-- No user sends raw bytes in a step. -/
def NoRawBytes (w : World) (i : Input) : Prop := ∀ u arg, ¬w.SendsRaw i u arg

/-- The connection that logs out gets its tag and its mark in one move. -/
theorem Session.Leaving.logout {s : Session} (leaving : s.Leaving) (c : ConnPtr) :
    ((s.accept c (some closingTag)).finish c).Leaving := by
  intro d tagged alive
  rw [conn_finish, conn_accept]
  by_cases here : d = c
  · rw [if_pos here, if_pos here]
    exact ⟨rfl, by simp⟩
  · rw [if_neg here, if_neg here]
    have before : .accepted d (some closingTag) ∈ s.trace := by
      have accepted := accepted_emit (by simp) tagged
      exact (accepted_accept accepted).resolve_right fun same => here same.1
    rw [finish, live_updConn, live_emit, accept, live_emit, live_updPfd, live_updConn] at alive
    exact leaving d before alive

theorem Move.leaving {k : Concern} {w w' : World} (sound : w.session.Sound)
    (polite : ∀ u arg, k ≠ .raw u arg) (move : Move k w w') (chronicle : w.session.Chronicle)
    (leaving : w.session.Leaving) : w'.session.Leaving ∧ w'.session.Chronicle := by
  have steps := move.session sound
  by_cases untagged : ∀ c, .accepted c (some closingTag) ∈ w'.trace →
      .accepted c (some closingTag) ∈ w.trace
  · exact leaving.steps sound chronicle steps untagged
  · have later := Abstraction.steps_keep (A := machine)
      (fun sound step chronicle => chronicle.step sound step) sound steps chronicle
    refine ⟨?_, later⟩
    simp only [not_forall] at untagged
    obtain ⟨c, tagged, new⟩ := untagged
    rcases move.admits tagged with before | admits
    · exact absurd before new
    · cases admits with
      | opens opens => exact absurd rfl opens.ne_closingTag
      | logout _ closed =>
        rw [closed, session_closeConn, session_acceptPacket]
        exact leaving.logout c
      | raw _ => exact absurd rfl (polite _ _)

/-- Without raw bytes, a connection with the closing tag in its queue is closing
and has packets left to send as long as it lives, and takes none once it is killed. -/
theorem logout_until_drained {w : World} (reach : ReachableWhile NoRawBytes w) (c : ConnPtr)
    (tagged : .accepted c (some closingTag) ∈ w.trace) :
    ((w.heap c).live = true →
      (w.heap c).conn.state = .closing ∧ (w.heap c).conn.writer ≠ []) ∧
    ∀ later site earlier, w.trace = later ++ .killed c site :: earlier →
      ∀ text, .accepted c text ∉ later := by
  obtain ⟨leaving, chronicle⟩ :
      w.session.Leaving ∧ w.session.Chronicle := by
    refine reach.invariant (K := fun w => w.session.Leaving ∧ w.session.Chronicle) ?_ ?_ ?_
    · intro w initial
      refine ⟨fun c tagged => ?_, initial.session.chronicle⟩
      rw [initial.session.trace] at tagged
      cases tagged
    · exact fun _ holds => holds
    · rintro w i polite k v v' sound - mine move ⟨leaving, chronicle⟩
      exact move.leaving sound (fun u arg raw => polite u arg (mine.1 u arg raw)) chronicle leaving
  refine ⟨leaving c tagged, fun later site earlier trace text heard => ?_⟩
  have order := chronicle.order
  rw [trace_session, trace, List.pairwise_append] at order
  exact order.2.2 _ heard _ List.mem_cons_self c text site rfl rfl

instance (er : EventRepeater) (now : Int) : Decidable (er.SendsRaw now) :=
  inferInstanceAs (Decidable (_ ∧ _ ∧ _ ∧ _))

/-- Whether a job makes no raw bytes event due. -/
def Input.spares (w : World) : Input → Prop
  | .job u now => ∀ er ∈ (w.users u).eventsQueue, ¬er.SendsRaw now
  | _ => True

instance (w : World) (i : Input) : Decidable (i.spares w) := by
  cases i <;> unfold Input.spares <;> infer_instance

theorem noRawBytes_iff {w : World} {i : Input} : NoRawBytes w i ↔ i.spares w := by
  constructor
  · intro none
    cases i with
    | job u now => exact fun er mine sends => none u _ ⟨now, rfl, er, mine, sends, rfl⟩
    | _ => trivial
  · rintro spares u arg ⟨now, rfl, er, mine, sends, rfl⟩
    exact spares er mine sends

instance (w : World) (i : Input) : Decidable (NoRawBytes w i) := decidable_of_iff _ noRawBytes_iff.symm

/-- A user logs out and, in the same pass over its events, sends a message. -/
def lateMessageEvents : List EventRepeater :=
  [connectEvent, promptEvent .evLogout (-1) (some .loggedIn) none,
    promptEvent .evSendMessage (-1) (some .loggedIn) (some (.tag (cstr "event") []
      [.tag (cstr "user") [] [.tag (cstr "jid") [] [.cdata (cstr "ola@host")]],
        .tag (cstr "text") [] [.cdata (cstr "hej")]]))]

def lateMessageScript : List (Input × Env) :=
  loginScript ++ [hears [.node (resultFor (cstr "JCOM_0") [])], (.job 0 7, plainEnv)]

def lateMessageWorld : World := (plainWorld lateMessageEvents).played lateMessageScript

theorem reachable_lateMessageWorld : ReachableWhile NoRawBytes lateMessageWorld :=
  reachableWhile_played (.init (plainWorld_initial _)) _ (by decide +kernel)

/-- The text that an event says was accepted for a connection. -/
def Ev.acceptedFor (c : ConnPtr) : Ev → Option (Option CString)
  | .accepted d text => if d = c then some text else none
  | _ => none

theorem Ev.eq_accepted {c : ConnPtr} {e : Ev} {text : Option CString}
    (heard : e.acceptedFor c = some text) : e = .accepted c text := by
  cases e with
  | accepted d text' =>
    by_cases here : d = c
    · rw [Ev.acceptedFor, if_pos here] at heard
      cases heard
      rw [here]
    · rw [Ev.acceptedFor, if_neg here] at heard
      cases heard
  | _ => cases heard

def lateMessage : CString :=
  cstr "<message to=\"ola@host\"><body>hej</body></message>"

theorem lateMessageWorld_texts :
    (lateMessageWorld.trace.filterMap (Ev.acceptedFor 0)).take 2 =
      [some lateMessage, some closingTag] := by decide +kernel

theorem logout_until_drained_late :
    (lateMessageWorld.heap 0).conn.state = .closing ∧
      (lateMessageWorld.heap 0).conn.writer ≠ [] := by
  have member : some closingTag ∈ lateMessageWorld.trace.filterMap (Ev.acceptedFor 0) := by
    apply List.mem_of_mem_take (i := 2)
    rw [lateMessageWorld_texts]
    simp
  obtain ⟨e, heard, tag⟩ := List.mem_filterMap.mp member
  rw [Ev.eq_accepted tag] at heard
  exact (logout_until_drained reachable_lateMessageWorld 0 heard).1 (by decide +kernel)

/-- The message comes behind the closing tag. -/
theorem lateMessageWorld_follows : ¬∀ w, ReachableWhile NoRawBytes w → ∀ c later earlier,
    w.trace = later ++ .accepted c (some closingTag) :: earlier →
      ∀ text, .accepted c text ∉ later := by
  intro claim
  cases texts : lateMessageWorld.trace.filterMap (Ev.acceptedFor 0) with
  | nil =>
    have two := lateMessageWorld_texts
    rw [texts] at two
    cases two
  | cons text rest =>
    have two := lateMessageWorld_texts
    rw [texts] at two
    obtain ⟨last, e, trace, split, -, message, more⟩ := List.filterMap_eq_cons_iff.mp texts
    cases rest with
    | nil => cases two
    | cons tag rest =>
      cases two
      obtain ⟨between, e', earlier, split', -, closing, -⟩ := List.filterMap_eq_cons_iff.mp more
      rw [Ev.eq_accepted message, split', Ev.eq_accepted closing, ← List.cons_append,
        ← List.append_assoc] at split
      exact claim _ reachable_lateMessageWorld 0 _ _ split (some lateMessage) (by simp)

end JabSimul
