import JabSimul.EchoStorm

/-!
Who takes the time of a message. An answer is on its way to the user whose message
reached the one that answers, unless it answers an error; so while no answer is
handed over as an error, each sample is taken by the sender.
-/
namespace JabSimul

open Simulation Relation

/-- An answer that is an error, and that is timed. -/
def StrayAnswer (x : XmlNode) : Prop :=
  isForwarded x = true ∧ isError x = true ∧ IsTimed x

namespace Net

/-- The message `k` reached `v`, and was not bounced. -/
def Reached (net : Net) (k : Nat) (sender v : UserPtr) : Prop :=
  ∃ h ∈ net.handings, h.flight.origin = k ∧ h.flight.hop = 0 ∧ h.flight.sender = sender ∧
    h.bounced = false ∧ h.user = v

/-- A sample was taken by the sender, from an answer of the one that was reached. -/
def OwnSample (net : Net) (h : Handing) : Prop :=
  h.bounced = false ∧ net.Reached h.flight.origin h.user h.flight.sender

structure Route (d : Directory) (net : Net) : Prop where
  answers : ∀ f ∈ net.flights, f.hop = 1 → ∃ y : XmlNode, y.Proper ∧ y.isTag ∧
    f.text = xmlnode2str y ∧ (isError y = true ∨ ∃ u, net.Reached f.origin u f.sender ∧
      xmlnodeGetAttrib (some y) (cstr "to") = some (d.jid u))
  samples : ∀ h ∈ net.handings, h.samples ≠ 0 → net.OwnSample h

variable {d : Directory}

theorem Route.start {net : Net} (silent : net.Silent) : net.Route d := by
  obtain ⟨none, none'⟩ := silent
  constructor
  · simp [none]
  · simp [none']

theorem Route.elsewhere {net : Net} (route : net.Route d) (w : World) :
    Route d { net with world := w } := ⟨route.answers, route.samples⟩

theorem Route.send {net : Net} (route : net.Route d) (u : UserPtr) (w : World) :
    (net.sending u w).Route d := by
  refine ⟨fun f here second => ?_, route.samples⟩
  rcases List.mem_append.mp here with new | old
  · obtain ⟨text, _, rfl⟩ := List.mem_map.mp new
    cases second
  · exact route.answers f old second

theorem Reached.handing {net : Net} {k : Nat} {u v : UserPtr} (reached : net.Reached k u v)
    (f : Flight) (v' : UserPtr) (bounced : Bool) (w : World) :
    (net.handing f v' bounced w).Reached k u v := by
  obtain ⟨h, here, rest⟩ := reached
  exact ⟨h, List.mem_cons_of_mem _ here, rest⟩

theorem isError_of_type {x x' : XmlNode}
    (type : xmlnodeGetAttrib (some x') (cstr "type") = xmlnodeGetAttrib (some x) (cstr "type")) :
    isError x' = isError x := by
  unfold isError
  rw [type]

theorem isError_forwardedCopy {x : XmlNode} (tag : x.isTag) : isError (forwardedCopy x) = isError x := by
  apply isError_of_type
  rw [getAttrib_forwardedCopy x tag, if_neg (by decide), if_neg (by decide), if_neg (by decide)]

/-- An answer goes to the user that its message came from, or it is an error. -/
theorem answer_route {net : Net} {f : Flight} {x x' : XmlNode} {bounced : Bool} {v : UserPtr}
    {w : World} (first : f.hop = 0) (message : Message x') (handed : d.Hands f.sender x bounced x' v) :
    isError (forwardedCopy x') = true ∨ ∃ u, (net.handing f v bounced w).Reached f.origin u v ∧
      xmlnodeGetAttrib (some (forwardedCopy x')) (cstr "to") = some (d.jid u) := by
  cases handed with
  | bounced relayed target source type =>
    left
    rw [isError_forwardedCopy message.isTag, isError, type]
    rfl
  | delivered relayed addressed named target source type =>
    right
    refine ⟨f.sender, ⟨_, List.mem_cons_self, rfl, first, rfl, rfl, rfl⟩, ?_⟩
    rw [getAttrib_forwardedCopy _ message.isTag, if_neg (by decide), if_pos rfl, source]
    rfl

theorem Route.hand {net : Net} (route : net.Route d) (budget : net.Budget) {f : Flight}
    {x x' : XmlNode} {bounced : Bool} {v : UserPtr} {now : Int} {w : World}
    (here : f ∈ net.flights) (spelled : Spells f.text x)
    (handed : d.Hands f.sender x bounced x' v) (allowed : ¬StrayAnswer x')
    (ran : handleUserNode x' v now net.world = .ok ⟨⟩ w) :
    (net.handing f v bounced w).Route d := by
  have mine := mem_messages.mpr (.inl here)
  obtain ⟨message, kind⟩ := (budget.carries f mine).handed spelled
  have relayed := handed.relayed
  have message' := message.relayed relayed
  rw [← isForwarded_relayed relayed] at kind
  obtain ⟨answer, _⟩ := answered message' ran
  constructor
  · intro g there second
    rcases List.mem_append.mp there with new | kept
    · obtain ⟨text, written, rfl⟩ := List.mem_map.mp new
      have first : f.hop = 0 := by
        dsimp only at second
        omega
      rw [answer.wrote] at written
      split at written
      · refine ⟨forwardedCopy x', forwardedCopy_proper relayed.proper, message'.copy.isTag,
          List.mem_singleton.mp written, ?_⟩
        exact answer_route first message' handed
      · cases written
    · obtain ⟨y, proper, tag, text, way⟩ := route.answers g (List.mem_of_mem_erase kept) second
      refine ⟨y, proper, tag, text, way.imp_right ?_⟩
      rintro ⟨u, reached, target⟩
      exact ⟨u, reached.handing f v bounced w, target⟩
  · intro h there sampled
    rcases List.mem_cons.mp there with rfl | old
    · dsimp only at sampled
      rw [answer.samples] at sampled
      have both : IsTimed x' ∧ isForwarded x' = true := by
        by_contra neither
        exact sampled (if_neg neither)
      obtain ⟨timed, forwarded⟩ := both
      have second : f.hop = 1 := by
        rcases kind with ⟨_, plain⟩ | ⟨hop, _⟩
        · cases plain.symm.trans forwarded
        · exact hop
      have right : isError x' = false := by
        by_contra wrong
        exact allowed ⟨forwarded, Bool.eq_true_of_not_eq_false wrong, timed⟩
      cases handed with
      | bounced relayed target source type =>
        rw [isError, type] at right
        cases right
      | delivered relayed addressed named target source type =>
        obtain ⟨y, proper, tag, text, way⟩ := route.answers f here second
        have alike := spelled.alike proper tag text
        have same : isError x' = isError y :=
          (isError_of_type type).trans (isError_of_type (getAttrib_alike alike _))
        rcases way with error | ⟨u, reached, target'⟩
        · cases error.symm.trans (same.symm.trans right)
        · rw [← getAttrib_alike alike, addressed] at target'
          cases target'
          cases d.own named
          exact ⟨rfl, reached.handing f v false w⟩
    · obtain ⟨direct, reached⟩ := route.samples h old sampled
      exact ⟨direct, reached.handing f v bounced w⟩

theorem Route.run {S : World → UserPtr → Option XmlNode → Prop} {start net : Net}
    (silent : start.Silent)
    (run : ReflTransGen (StepWhile d S fun _ _ x => ¬StrayAnswer x) start net) : net.Route d := by
  induction run with
  | refl => exact .start silent
  | tail before step ih =>
    have budget := Budget.run silent before
    cases step with
    | elsewhere same => exact ih.elsewhere _
    | send allowed ran => exact ih.send _ _
    | hand here spelled handed allowed ran => exact ih.hand budget here spelled handed allowed ran

/-- While no answer is handed over as an error, every sample is taken by the user who
sent the message, after it had reached the one that answered. -/
theorem samples_by_sender (d : Directory) {start net : Net} (silent : start.Silent)
    (run : ReflTransGen (StepWhile d (fun _ _ _ => True) fun _ _ x => ¬StrayAnswer x) start net) :
    ∀ h ∈ net.handings, h.samples ≠ 0 → net.OwnSample h :=
  (Route.run silent run).samples

end Net

instance (x : XmlNode) : Decidable (StrayAnswer x) := inferInstanceAs (Decidable (_ ∧ _ ∧ _))

/-- The answer comes back to the one that sent the message. -/
theorem samples_by_sender_chat :
    ∃ h ∈ chatDone.handings, h.samples = 1 ∧ h.user = 0 ∧ chatDone.OwnSample h :=
  ⟨_, List.mem_cons_self, by decide +kernel, rfl,
    Net.samples_by_sender chatDirectory chatNet_silent
      (chat_run trivial (by decide +kernel) (by decide +kernel)) _ List.mem_cons_self
      (by decide +kernel)⟩

/-- The message is bounced to its sender, who answers it as if it were from the other. -/
def chatBounced : Net := chatSent.handing chatFlight 0 true
  (after (handleUserNode (bouncedStanza (cstr "ala@host") chatStanza) 0 5) chatSent.world)

def strayCopy : XmlNode := forwardedCopy (bouncedStanza (cstr "ala@host") chatStanza)

def strayAnswer : Flight := ⟨0, xmlnode2str strayCopy, 0, 1⟩

def chatStray : Net := chatBounced.handing strayAnswer 1 false
  (after (handleUserNode (deliveredStanza (cstr "ala@host") strayCopy) 1 9) chatBounced.world)

theorem stray_run : ReflTransGen (Net.Step chatDirectory) chatNet chatStray := by
  have bounced : chatDirectory.Hands 0 chatStanza true
      (bouncedStanza (cstr "ala@host") chatStanza) 0 :=
    Directory.hands_bounced (originalStanza_proper _ _) rfl rfl
  have proper : strayCopy.Proper := forwardedCopy_proper bounced.relayed.proper
  have delivered : chatDirectory.Hands 0 strayCopy false
      (deliveredStanza (cstr "ala@host") strayCopy) 1 :=
    Directory.hands_delivered proper rfl rfl (.inr ⟨rfl, rfl⟩)
  have sent : Net.Step chatDirectory chatNet chatSent :=
    .send trivial (run_of_returned (a := ()) (by decide +kernel))
  have back : Net.Step chatDirectory chatSent chatBounced :=
    .hand (by decide +kernel) chatFlight_spells bounced trivial
      (run_of_returned (a := ()) (by decide +kernel))
  have there : Net.Step chatDirectory chatBounced chatStray :=
    .hand (by decide +kernel) (.node proper) delivered trivial
      (run_of_returned (a := ()) (by decide +kernel))
  exact ((ReflTransGen.single sent).tail back).tail there

/-- The sample is taken by the user that the message never reached. -/
theorem bounced_sample_astray : ¬∀ (d : Directory) (start net : Net), start.Silent →
    ReflTransGen (Net.Step d) start net →
      ∀ h ∈ net.handings, h.samples ≠ 0 → net.OwnSample h := by
  intro claim
  obtain ⟨_, h, here, _, hop, sender, _⟩ :=
    claim chatDirectory chatNet chatStray chatNet_silent stray_run _ List.mem_cons_self
      (by decide +kernel)
  rcases List.mem_cons.mp here with rfl | earlier
  · cases hop
  · cases List.mem_singleton.mp earlier
    cases sender

end JabSimul
