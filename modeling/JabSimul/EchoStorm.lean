import JabSimul.MessageNet
import JabSimul.ThreadRefinement

/-!
What becomes of a message in any run of the net: it is answered at most once, no
answer is answered, and its way is timed at most once. A budget goes from a message
that was sent first to its answer, and from there to the sample.
-/
namespace JabSimul

open Simulation Relation

section Handed

/-- The text of a flight is a message sent first, or an answer to one. -/
inductive Flight.Carries (f : Flight) : Prop
  | original (jidFull msg : CString) (first : f.hop = 0)
      (text : f.text = messageText jidFull msg)
  | copy (x : XmlNode) (proper : x.Proper) (message : Message x) (second : f.hop = 1)
      (text : f.text = xmlnode2str (forwardedCopy x))

theorem isForwarded_copy (x : XmlNode) (tag : x.isTag) : isForwarded (forwardedCopy x) = true := by
  unfold isForwarded
  rw [getAttrib_forwardedCopy x tag, if_pos rfl]
  rfl

theorem Directory.Hands.relayed {d : Directory} {u v : UserPtr} {x x' : XmlNode} {bounced : Bool}
    (handed : d.Hands u x bounced x' v) : Relayed x x' := by
  cases handed with
  | delivered relayed _ _ _ _ _ => exact relayed
  | bounced relayed _ _ _ => exact relayed

theorem isForwarded_relayed {x x' : XmlNode} (relayed : Relayed x x') :
    isForwarded x' = isForwarded x := by
  unfold isForwarded
  rw [relayed.kept _ (by decide)]

theorem isForwarded_alike {x y : XmlNode} (alike : x.Alike y) : isForwarded y = isForwarded x := by
  unfold isForwarded
  rw [getAttrib_alike alike]

/-- What is handed over for a flight is a message, and shows whether it is an answer. -/
theorem Flight.Carries.handed {f : Flight} {x : XmlNode} (carries : f.Carries)
    (spelled : Spells f.text x) : Message x ∧
      (f.hop = 0 ∧ isForwarded x = false ∨ f.hop = 1 ∧ isForwarded x = true) := by
  cases carries with
  | original jidFull msg first text =>
    obtain ⟨jidTo, body, rfl⟩ := spelled.original text
    exact ⟨originalStanza_message _ _, .inl ⟨first, rfl⟩⟩
  | copy y proper message second text =>
    have alike := spelled.alike (forwardedCopy_proper proper) message.copy.isTag text
    refine ⟨message.copy.alike alike, .inr ⟨second, ?_⟩⟩
    rw [isForwarded_alike alike, isForwarded_copy y message.isTag]

end Handed

namespace Net

variable {x : XmlNode} {v : UserPtr} {now : Int} {w w' : World}

/-- What one message writes, and whether it is timed. -/
structure Answered (x : XmlNode) (v : UserPtr) (w w' : World) : Prop where
  wrote : wrote w w' = if (IsTimed x ∧ isForwarded x = false) ∧ w.Takes v then
    [xmlnode2str (forwardedCopy x)] else []
  samples : ((w'.users v).receivedMsgsCount - (w.users v).receivedMsgsCount).toNat =
    if IsTimed x ∧ isForwarded x = true then 1 else 0

theorem answered (message : Message x) (ran : handleUserNode x v now w = .ok ⟨⟩ w') :
    Answered x v w w' ∧ HandledMessage x v w w' := by
  rw [message.handled] at ran
  obtain ⟨w₁, same, handled⟩ := handleMessage_spec w x v now
  cases same.symm.trans ran
  refine ⟨⟨?_, ?_⟩, handled⟩
  · unfold Net.wrote
    rw [handled.texts, List.length_append, Nat.add_sub_cancel, List.take_left']
    rfl
  · rw [handled.samples v]
    simp only [and_true]
    rw [BitVec.add_comm, BitVec.add_sub_cancel]
    split
    · rfl
    · rfl

theorem wrote_send {u : UserPtr} {arg : Option XmlNode}
    (ran : evSendMessage arg u w = .ok ⟨⟩ w') :
    wrote w w' = [] ∨ ∃ jidFull msg, wrote w w' = [messageText jidFull msg] := by
  unfold Net.wrote
  rcases evSendMessage_spec ran with ⟨same, _⟩ | ⟨_, jidFull, _, _, r, _, _, _, sent⟩
  · left
    rw [same, Nat.sub_self, List.take_zero]
  · rw [sent.texts, List.length_append, Nat.add_sub_cancel, List.take_left' rfl]
    cases r with
    | none => exact .inl rfl
    | some msg =>
      dsimp only
      split
      · exact .inr ⟨jidFull, msg, rfl⟩
      · exact .inl rfl

/-- Messages of one origin and hop that are under way, and that were handed over. -/
def flying (net : Net) (origin hop : Nat) : Nat :=
  net.flights.countP fun f => f.origin = origin ∧ f.hop = hop

def landed (net : Net) (origin hop : Nat) : Nat :=
  net.handings.countP fun h => h.flight.origin = origin ∧ h.flight.hop = hop

/-- What holds of every origin, all the time. -/
structure Budget (net : Net) : Prop where
  carries : ∀ f ∈ net.messages, f.Carries
  known : ∀ f ∈ net.messages, f.origin < net.sends
  copies : ∀ k, net.flying k 0 + net.flying k 1 + net.landed k 1 ≤ 1
  samples : ∀ k, net.flying k 0 + net.flying k 1 + net.samples k ≤ 1

theorem mem_messages {net : Net} {f : Flight} :
    f ∈ net.messages ↔ f ∈ net.flights ∨ ∃ h ∈ net.handings, h.flight = f := by
  simp [messages]

theorem Budget.start {net : Net} (silent : net.Silent) : net.Budget := by
  obtain ⟨none, none'⟩ := silent
  refine ⟨?_, ?_, ?_, ?_⟩
  · simp [messages, none, none']
  · simp [messages, none, none']
  · simp [flying, landed, none, none']
  · simp [flying, Net.samples, none, none']

theorem Budget.elsewhere {net : Net} (budget : net.Budget) (w : World) :
    Budget { net with world := w } :=
  ⟨budget.carries, budget.known, budget.copies, budget.samples⟩

/-- Nothing is there of an origin that is not used yet. -/
theorem Budget.fresh {net : Net} (budget : net.Budget) (hop : Nat) :
    net.flying net.sends hop = 0 ∧ net.landed net.sends hop = 0 ∧ net.samples net.sends = 0 := by
  have old : ∀ f ∈ net.messages, f.origin ≠ net.sends := fun f here =>
    Nat.ne_of_lt (budget.known f here)
  refine ⟨?_, ?_, ?_⟩
  · apply List.countP_eq_zero.mpr
    intro f here
    simp [old f (mem_messages.mpr (.inl here))]
  · apply List.countP_eq_zero.mpr
    intro h here
    simp [old h.flight (mem_messages.mpr (.inr ⟨h, here, rfl⟩))]
  · have none : net.handings.filter (·.flight.origin = net.sends) = [] := by
      apply List.filter_eq_nil_iff.mpr
      intro h here
      simp [old h.flight (mem_messages.mpr (.inr ⟨h, here, rfl⟩))]
    rw [Net.samples, none]
    rfl

theorem flying_cons (net : Net) (w : World) (f : Flight) (n k hop : Nat) :
    flying { net with world := w, flights := f :: net.flights, sends := n } k hop =
      net.flying k hop + if f.origin = k ∧ f.hop = hop then 1 else 0 := by
  simp [flying, List.countP_cons]

theorem Budget.send {net : Net} (budget : net.Budget) {u : UserPtr} {arg : Option XmlNode}
    {w : World} (ran : evSendMessage arg u net.world = .ok ⟨⟩ w) : (net.sending u w).Budget := by
  have later : ∀ f ∈ net.messages, f.origin < net.sends + 1 := fun f here =>
    Nat.lt_succ_of_lt (budget.known f here)
  rcases wrote_send ran with nothing | ⟨jidFull, msg, written⟩
  · have same : net.sending u w = { net with world := w, sends := net.sends + 1 } := by
      simp [sending, nothing]
    rw [same]
    exact ⟨budget.carries, later, budget.copies, budget.samples⟩
  · have same : net.sending u w = { net with
        world := w
        flights := ⟨u, messageText jidFull msg, net.sends, 0⟩ :: net.flights
        sends := net.sends + 1 } := by
      simp [sending, written]
    rw [same]
    refine ⟨?_, ?_, fun k => ?_, fun k => ?_⟩
    · intro f here
      rcases List.mem_cons.mp here with rfl | old
      · exact .original jidFull msg rfl rfl
      · exact budget.carries f old
    · intro f here
      rcases List.mem_cons.mp here with rfl | old
      · exact Nat.lt_succ_self _
      · exact later f old
    · have before := budget.copies k
      rw [flying_cons, flying_cons]
      change _ + _ + net.landed k 1 ≤ 1
      by_cases mine : net.sends = k
      · subst mine
        simp [budget.fresh]
      · simpa [mine] using before
    · have before := budget.samples k
      rw [flying_cons, flying_cons]
      change _ + _ + net.samples k ≤ 1
      by_cases mine : net.sends = k
      · subst mine
        simp [budget.fresh, (budget.fresh 0).2.2]
      · simpa [mine] using before

/-- A message that is handed over is no longer under way. -/
theorem flying_erase {net : Net} {f : Flight} (here : f ∈ net.flights) (k hop : Nat) :
    net.flying k hop = (net.flights.erase f).countP (fun f => f.origin = k ∧ f.hop = hop) +
      if f.origin = k ∧ f.hop = hop then 1 else 0 := by
  rw [flying, (List.perm_cons_erase here).countP_eq, List.countP_cons]
  simp

section Handing

variable (net : Net) (f : Flight) (v : UserPtr) (bounced : Bool) (w : World)

/-- The answers to a message are new, and nothing else is. -/
theorem handing_messages {net : Net} {f : Flight} (here : f ∈ net.flights) {g : Flight}
    (there : g ∈ (net.handing f v bounced w).messages) :
    (∃ text ∈ wrote net.world w, g = ⟨v, text, f.origin, f.hop + 1⟩) ∨ g ∈ net.messages := by
  rcases mem_messages.mp there with flying | ⟨h, handed, rfl⟩
  · rcases List.mem_append.mp flying with new | kept
    · obtain ⟨text, written, rfl⟩ := List.mem_map.mp new
      exact .inl ⟨text, written, rfl⟩
    · exact .inr (mem_messages.mpr (.inl (List.mem_of_mem_erase kept)))
  · rcases List.mem_cons.mp handed with rfl | earlier
    · exact .inr (mem_messages.mpr (.inl here))
    · exact .inr (mem_messages.mpr (.inr ⟨h, earlier, rfl⟩))

theorem handing_landed (k hop : Nat) : (net.handing f v bounced w).landed k hop =
    net.landed k hop + if f.origin = k ∧ f.hop = hop then 1 else 0 := by
  simp [Net.landed, handing, List.countP_cons]

theorem handing_samples (k : Nat) : (net.handing f v bounced w).samples k = net.samples k +
    if f.origin = k then
      ((w.users v).receivedMsgsCount - (net.world.users v).receivedMsgsCount).toNat
    else 0 := by
  by_cases same : f.origin = k
  · simp [Net.samples, handing, same, Nat.add_comm]
  · simp [Net.samples, handing, same]

/-- The message is no longer under way, and its answers are one hop further. -/
theorem handing_flying {net : Net} {f : Flight} (here : f ∈ net.flights) (k hop : Nat) :
    (net.handing f v bounced w).flying k hop + (if f.origin = k ∧ f.hop = hop then 1 else 0) =
      net.flying k hop +
        if f.origin = k ∧ f.hop + 1 = hop then (wrote net.world w).length else 0 := by
  rw [flying_erase here k hop]
  have added : (net.handing f v bounced w).flying k hop =
      ((wrote net.world w).map (Flight.mk v · f.origin (f.hop + 1))).countP
        (fun f => f.origin = k ∧ f.hop = hop) +
      (net.flights.erase f).countP (fun f => f.origin = k ∧ f.hop = hop) :=
    List.countP_append
  have new : ((wrote net.world w).map (Flight.mk v · f.origin (f.hop + 1))).countP
      (fun f => f.origin = k ∧ f.hop = hop) =
        if f.origin = k ∧ f.hop + 1 = hop then (wrote net.world w).length else 0 := by
    rw [List.countP_map]
    split
    · rename_i both
      apply List.countP_eq_length.mpr
      intro text _
      simpa using both
    · rename_i other
      apply List.countP_eq_zero.mpr
      intro text _
      simpa using other
  rw [added, new]
  omega

end Handing

theorem Budget.hand {net : Net} (budget : net.Budget) {d : Directory} {f : Flight}
    {x x' : XmlNode} {bounced : Bool} {v : UserPtr} {now : Int} {w : World}
    (here : f ∈ net.flights) (spelled : Spells f.text x)
    (handed : d.Hands f.sender x bounced x' v)
    (ran : handleUserNode x' v now net.world = .ok ⟨⟩ w) : (net.handing f v bounced w).Budget := by
  obtain ⟨message, kind⟩ := (budget.carries f (mem_messages.mpr (.inl here))).handed spelled
  have relayed := handed.relayed
  have message' := message.relayed relayed
  rw [← isForwarded_relayed relayed] at kind
  obtain ⟨answer, _⟩ := answered message' ran
  have mine : f ∈ net.messages := mem_messages.mpr (.inl here)
  have samples := handing_samples net f v bounced w
  generalize drawn : ((w.users v).receivedMsgsCount -
    (net.world.users v).receivedMsgsCount).toNat = n at answer samples
  have short : (wrote net.world w).length + n ≤ 1 ∧
      (f.hop = 0 → n = 0) ∧ (f.hop = 1 → wrote net.world w = []) := by
    rw [answer.wrote, ← drawn, answer.samples]
    rcases kind with ⟨hop, forwarded⟩ | ⟨hop, forwarded⟩
    · simp [forwarded, hop]
      split <;> simp
    · simp [forwarded, hop]
      split <;> simp
  have hops : f.hop = 0 ∨ f.hop = 1 := kind.imp And.left And.left
  refine ⟨?_, ?_, fun k => ?_, fun k => ?_⟩
  · intro g there
    rcases handing_messages v bounced w here there with ⟨text, written, rfl⟩ | known
    · rw [answer.wrote] at written
      split at written
      · rename_i echoes
        rcases kind with ⟨hop, forwarded⟩ | ⟨hop, forwarded⟩
        · exact .copy x' relayed.proper message' (by rw [hop]) (List.mem_singleton.mp written)
        · cases echoes.1.2.symm.trans forwarded
      · cases written
    · exact budget.carries g known
  · intro g there
    rcases handing_messages v bounced w here there with ⟨text, _, rfl⟩ | known
    · exact budget.known f mine
    · exact budget.known g known
  · have before := budget.copies k
    have none := handing_flying v bounced w here k 0
    have one := handing_flying v bounced w here k 1
    rw [handing_landed]
    by_cases same : f.origin = k
    · rcases hops with hop | hop
      · simp only [same, hop, true_and] at none one ⊢
        simp at none one ⊢
        omega
      · simp only [same, hop, true_and, short.2.2 hop] at none one ⊢
        simp at none one ⊢
        omega
    · simp only [same, false_and, if_false] at none one ⊢
      omega
  · have before := budget.samples k
    have none := handing_flying v bounced w here k 0
    have one := handing_flying v bounced w here k 1
    rw [samples]
    by_cases same : f.origin = k
    · rcases hops with hop | hop
      · simp only [same, hop, true_and] at none one ⊢
        simp [short.2.1 hop] at none one ⊢
        omega
      · simp only [same, hop, true_and, short.2.2 hop] at none one ⊢
        simp at none one ⊢
        omega
    · simp only [same, false_and, if_false] at none one ⊢
      omega

theorem Budget.step {d : Directory} {S : World → UserPtr → Option XmlNode → Prop}
    {H : World → UserPtr → XmlNode → Prop} {net net' : Net} (budget : net.Budget)
    (step : StepWhile d S H net net') : net'.Budget := by
  cases step with
  | elsewhere same => exact budget.elsewhere _
  | send allowed ran => exact budget.send ran
  | hand here spelled handed allowed ran => exact budget.hand here spelled handed ran

theorem Budget.run {d : Directory} {S : World → UserPtr → Option XmlNode → Prop}
    {H : World → UserPtr → XmlNode → Prop} {start net : Net} (silent : start.Silent)
    (run : ReflTransGen (StepWhile d S H) start net) : net.Budget := by
  induction run with
  | refl => exact .start silent
  | tail _ step ih => exact ih.step step

theorem hop_le {f : Flight} (carries : f.Carries) : f.hop ≤ 1 := by
  cases carries with
  | original jidFull msg first text => omega
  | copy x proper message second text => omega

/-- No answer is answered, and of every message that was sent first there is at most
one answer and at most one sample. -/
theorem no_echo_storm (d : Directory) {start net : Net} (silent : start.Silent)
    (run : ReflTransGen (Step d) start net) (origin : Nat) :
    (∀ f ∈ net.messages, f.hop ≤ 1) ∧
      net.messages.countP (fun f => f.origin = origin ∧ f.hop = 1) ≤ 1 ∧
        net.samples origin ≤ 1 := by
  have budget := Budget.run silent run
  refine ⟨fun f here => hop_le (budget.carries f here), ?_, ?_⟩
  · have all : net.messages.countP (fun f => f.origin = origin ∧ f.hop = 1) =
        net.flying origin 1 + net.landed origin 1 := by
      rw [messages, List.countP_append, List.countP_map]
      rfl
    have copies := budget.copies origin
    omega
  · have samples := budget.samples origin
    omega

end Net

section Chat

/-- Two users that know each other by name. -/
def chatDirectory : Directory where
  jid := fun u => if u = 0 then cstr "ala@host" else if u = 1 then cstr "ola@host" else []
  named := fun name v => name = cstr "ala@host" ∧ v = 0 ∨ name = cstr "ola@host" ∧ v = 1
  own := by
    intro u v named
    by_cases first : u = 0
    · subst first
      rcases named with ⟨_, same⟩ | ⟨other, _⟩
      · exact same
      · exact absurd other (by decide)
    by_cases second : u = 1
    · subst second
      rcases named with ⟨other, _⟩ | ⟨_, same⟩
      · exact absurd other (by decide)
      · exact same
    · rcases named with ⟨other, _⟩ | ⟨other, _⟩
      · exact absurd other (by simp [first, second, cstr])
      · exact absurd other (by simp [first, second, cstr])

/-- Both are logged in on connections of their own. -/
def chatWorld : World :=
  { plainWorld [] with
    users := fun u =>
      { plainUser [] with
        idUser := if u = 0 then cstr "ala" else cstr "ola"
        conn := some u
        state := .loggedIn } }

def chatNet : Net := ⟨chatWorld, [], [], 0⟩

def greetEvent : XmlNode :=
  .tag (cstr "event") [] [.tag (cstr "user") [] [.tag (cstr "jid") [] [.cdata (cstr "ola@host")]],
    .tag (cstr "prepend_with_debug_info") [] [], .tag (cstr "text") [] [.cdata (cstr "hi")]]

/-- A message is sent, and is under way. -/
def chatSent : Net := chatNet.sending 0 (after (evSendMessage (some greetEvent) 0) chatWorld)

def chatStanza : XmlNode := originalStanza (cstr "ola@host") (cstr "[0 ala ola] hi")

def chatFlight : Flight := ⟨0, messageText (cstr "ola@host") (cstr "[0 ala ola] hi"), 0, 0⟩

theorem chatFlight_spells : Spells chatFlight.text chatStanza := by
  apply Spells.message
  · exact charData_plain (by decide)
  · exact charData_plain (by decide)

/-- The message reaches the other user, who answers it. -/
def chatHanded : Net := chatSent.handing chatFlight 1 false
  (after (handleUserNode (deliveredStanza (cstr "ala@host") chatStanza) 1 5) chatSent.world)

def chatCopy : XmlNode := forwardedCopy (deliveredStanza (cstr "ala@host") chatStanza)

def chatAnswer : Flight := ⟨1, xmlnode2str chatCopy, 0, 1⟩

/-- The answer comes back. -/
def chatDone : Net := chatHanded.handing chatAnswer 0 false
  (after (handleUserNode (deliveredStanza (cstr "ola@host") chatCopy) 0 9) chatHanded.world)

theorem chatStanza_handed : chatDirectory.Hands 0 chatStanza false
    (deliveredStanza (cstr "ala@host") chatStanza) 1 :=
  Directory.hands_delivered (originalStanza_proper _ _) rfl rfl (.inr ⟨rfl, rfl⟩)

theorem chatCopy_handed : chatDirectory.Hands 1 chatCopy false
    (deliveredStanza (cstr "ola@host") chatCopy) 0 :=
  Directory.hands_delivered (forwardedCopy_proper chatStanza_handed.relayed.proper) rfl rfl
    (.inl ⟨rfl, rfl⟩)

theorem chat_run {S : World → UserPtr → Option XmlNode → Prop}
    {H : World → UserPtr → XmlNode → Prop} (send : S chatWorld 0 (some greetEvent))
    (there : H chatSent.world 1 (deliveredStanza (cstr "ala@host") chatStanza))
    (back : H chatHanded.world 0 (deliveredStanza (cstr "ola@host") chatCopy)) :
    ReflTransGen (Net.StepWhile chatDirectory S H) chatNet chatDone := by
  have sent : Net.StepWhile chatDirectory S H chatNet chatSent :=
    .send send (run_of_returned (a := ()) (by decide +kernel))
  have handed : Net.StepWhile chatDirectory S H chatSent chatHanded :=
    .hand (by decide +kernel) chatFlight_spells chatStanza_handed there
      (run_of_returned (a := ()) (by decide +kernel))
  have done : Net.StepWhile chatDirectory S H chatHanded chatDone :=
    .hand (by decide +kernel) (.node (forwardedCopy_proper chatStanza_handed.relayed.proper)) chatCopy_handed back
      (run_of_returned (a := ()) (by decide +kernel))
  exact ((ReflTransGen.single sent).tail handed).tail done

theorem chatNet_silent : chatNet.Silent := ⟨rfl, rfl⟩

/-- One message, one answer and one sample. -/
theorem no_echo_storm_chat : chatDone.samples 0 = 1 ∧
    (∀ f ∈ chatDone.messages, f.hop ≤ 1) ∧
      chatDone.messages.countP (fun f => f.origin = 0 ∧ f.hop = 1) ≤ 1 ∧ chatDone.samples 0 ≤ 1 :=
  ⟨by decide +kernel, Net.no_echo_storm chatDirectory chatNet_silent
    (chat_run trivial trivial trivial) 0⟩

end Chat

end JabSimul
