import JabSimul.EchoStorm
import JabSimul.WriteQueue
import Mathlib.Data.BitVec
import Mathlib.Tactic.LinearCombination

/-!
The counters of messages along runs in which messages are sent and handled and queues
are drained. They are right as long as every message that is sent has a source and every
answer finds room; the difference that the main loop prints is then what is under way.
-/
namespace JabSimul

open Simulation Relation

/-- The difference that `thread_main` computes. -/
def Globals.messageDiff (g : Globals) : CInt :=
  g.evSendMessageCount + g.forwardedMessagesCount -
    (g.receivedMessagesCount - g.receivedMessagesAdminCount)

section Drains

variable {w : World} {c : ConnPtr}

theorem messages_touch (w : World) (c : ConnPtr) :
    (w.touch c).globals.messages = w.globals.messages := by
  rw [globals_touch]

theorem messages_rosterHashDelete (u : UserPtr) (w : World) :
    (rosterHashDelete u w).globals.messages = w.globals.messages := by
  have deleted : ∀ (l : List (RosterPtr × RosterPtr)) (w : World),
      (l.foldl (fun w kv => rosterItemDelete w kv.2) w).globals.messages = w.globals.messages := by
    intro l
    induction l with
    | nil => exact fun _ => rfl
    | cons kv l ih => exact fun w => ih (rosterItemDelete w kv.2)
  unfold rosterHashDelete
  split
  · rfl
  · exact deleted _ w

theorem messages_resetUser (u : UserPtr) (w : World) :
    (w.resetUser u).globals.messages = w.globals.messages := by
  have dropped : (w.dropSession u).globals.messages = w.globals.messages :=
    messages_rosterHashDelete u _
  unfold World.resetUser
  dsimp only
  split
  · exact dropped
  · unfold World.userDebug
    split
    · exact dropped
    · exact dropped

theorem messages_stripConn (w : World) (c : ConnPtr) (site : KillSite) :
    (w.stripConn c site).globals.messages = w.globals.messages := by
  have released : (((w.emit (.killed c site)).releaseConn c).touch c).globals.messages =
      w.globals.messages := by
    rw [messages_touch]
    exact messages_touch (w.emit (.killed c site)) c
  unfold World.stripConn
  cases (w.heap c).conn.user with
  | none => exact released
  | some u => exact (messages_resetUser u _).trans released

theorem messages_jpolldConnKill {site : KillSite} {w' : World}
    (ran : jpolldConnKill c site w = .ok ⟨⟩ w') : w'.globals.messages = w.globals.messages := by
  rcases jpolldConnKill_apply w c site with ⟨_, run⟩ | ⟨_, u, _, run⟩
  · cases run.symm.trans ran
    exact messages_stripConn w c site
  · cases run.symm.trans ran

/-- A result in which the counters of messages are those of before. -/
def SameMessages (w : World) : EStateM.Result Stop World Unit → Prop
  | .ok _ w' => w'.globals.messages = w.globals.messages
  | .error _ _ => True

theorem messages_wrote : (w.wrote c).globals.messages = w.globals.messages :=
  (messages_touch _ c).trans (messages_touch w c)

theorem messages_popPacket (text : CString) (next : List JpolldWriteBuf) :
    (w.popPacket c text next).globals.messages = w.globals.messages := by
  have popped : (((((w.wrote c).emit (.sent c text)).updGlobals fun g =>
      { g with packetsSent := g.packetsSent + 1 }).touch c).updConn c
        fun conn => { conn with writer := next }).globals.messages = w.globals.messages :=
    (messages_touch _ c).trans messages_wrote
  unfold World.popPacket
  dsimp only
  split
  · exact popped
  · exact popped

/-- Draining a queue counts no message. -/
theorem messages_drain {w' : World} (ran : jpolldConnWrite_ (some c) w = .ok ⟨⟩ w') :
    w'.globals.messages = w.globals.messages := by
  have outcome : SameMessages w (jpolldConnWrite_ (some c) w) := by
    rw [jpolldConnWrite_apply]
    refine writeLoop_rule (K := fun v => v.globals.messages = w.globals.messages) ?_ ?_ ?_ ?_ ?_ ?_
      ?_ _ _ (messages_touch w c) ?_
    · intro v same _
      exact (messages_touch v c).trans same
    · intro v next _ _
      trivial
    · intro v same _
      exact messages_wrote.trans same
    · intro v same _
      cases killed : jpolldConnKill c .writeFailed (v.wrote c) with
      | ok _ v' => exact ((messages_jpolldConnKill killed).trans messages_wrote).trans same
      | error e v' => trivial
    · intro v text next k same _ _
      have advanced : (v.advancePacket c text next k).globals.messages = v.globals.messages :=
        (messages_touch ((v.wrote c).emit (.sent c (text.take k))) c).trans messages_wrote
      exact advanced.trans same
    · intro v text next same _
      exact (messages_popPacket text next).trans same
    · intro v text same _
      generalize (v.heap c).conn.user = owner
      have expected : ((v.popPacket c text []).expectKillOf owner).globals.messages =
          w.globals.messages := by
        have kept : ((v.popPacket c text []).expectKillOf owner).globals =
            (v.popPacket c text []).globals := by cases owner <;> rfl
        rw [kept, messages_popPacket, same]
      cases killed : jpolldConnKill c .writeDrained
        ((v.popPacket c text []).expectKillOf owner) with
      | ok _ v' => exact (messages_jpolldConnKill killed).trans expected
      | error e v' => trivial
    · rw [heap_touch]
      exact Nat.lt_succ_self _
  rw [ran] at outcome
  exact outcome

end Drains

section Runs

/-- Whoever is written to, there is something to write. -/
def Fed (w : World) (u : UserPtr) (arg : Option XmlNode) : Prop :=
  ∀ userNode jidFull w', xmlnodeGetTag arg (cstr "user") = some userNode →
    makeUserNameDefinedInXml 2000 (some userNode) u w = .ok (some jidFull) w' →
      Sourced w.env.files arg

/-- An answer to the message finds room. -/
def Roomy (w : World) (v : UserPtr) (x : XmlNode) : Prop :=
  IsTimed x → isForwarded x = false → w.Takes v

/-- The same for a message that is not taken for one of the administrator. -/
def RoomyUser (w : World) (v : UserPtr) (x : XmlNode) : Prop := isAdmin x = false ∧ Roomy w v x

def FromAdmin (_ : World) (_ : UserPtr) (x : XmlNode) : Prop := isAdmin x = true

namespace Net

/-- A message that nobody has sent was handled; what it made the user write is an answer. -/
def answering (net : Net) (v : UserPtr) (w : World) : Net where
  world := w
  flights := (wrote net.world w).map (⟨v, ·, net.sends, 1⟩) ++ net.flights
  handings := net.handings
  sends := net.sends + 1

/-- Besides the steps of the net a queue may be drained, and a message may come that
nobody has sent, as far as `A` allows. -/
inductive Counting (d : Directory) (S : World → UserPtr → Option XmlNode → Prop)
    (H A : World → UserPtr → XmlNode → Prop) : Net → Net → Prop
  | traffic {net net' : Net} (step : StepWhile d S H net net') : Counting d S H A net net'
  | drain {net : Net} {c : ConnPtr} {env : Env} {w : World}
      (ran : jpolldConnWrite_ (some c) (net.world.withEnv env) = .ok ⟨⟩ w) :
      Counting d S H A net { net with world := w }
  | unasked {net : Net} {x : XmlNode} {v : UserPtr} {now : Int} {w : World} (proper : x.Proper)
      (message : Message x) (allowed : A net.world v x)
      (ran : handleUserNode x v now net.world = .ok ⟨⟩ w) :
      Counting d S H A net (net.answering v w)

/-- The program begins. -/
structure Begins (net : Net) : Prop where
  silent : net.Silent
  zero : net.world.globals.messages = (0, 0, 0, 0)

variable {d : Directory} {S : World → UserPtr → Option XmlNode → Prop}
  {H A : World → UserPtr → XmlNode → Prop} {net net' start : Net} {w w' : World} {u v : UserPtr}

/-- What the step lemmas need of the flights: their texts are messages. -/
def Carrying (net : Net) : Prop := ∀ f ∈ net.flights, f.Carries

/-- What a step that sends does to the counters and to the flights. -/
theorem sent_counts {arg : Option XmlNode} (fed : Fed w u arg)
    (ran : evSendMessage arg u w = .ok ⟨⟩ w') : w'.globals.messages =
      (w.globals.evSendMessageCount + BitVec.ofNat 32 (wrote w w').length,
        w.globals.forwardedMessagesCount, w.globals.receivedMessagesCount,
        w.globals.receivedMessagesAdminCount) := by
  unfold Net.wrote
  rcases evSendMessage_spec ran with ⟨same, messages⟩ |
    ⟨userNode, jidFull, w₁, h, r, node, named, made, sent⟩
  · rw [same, Nat.sub_self, List.take_zero, messages]
    simp [Globals.messages]
  · have some' := made.isSome_iff.mpr (fed userNode jidFull w₁ node named)
    obtain ⟨msg, rfl⟩ := Option.isSome_iff_exists.mp some'
    rw [sent.messages, sent.texts, List.length_append, Nat.add_sub_cancel, List.take_left' rfl]
    by_cases takes : w.Takes u
    · simp [takes]
    · simp [takes]

/-- The same for a step that handles a message. -/
theorem answered_counts {x : XmlNode} {now : Int} (message : Message x) (roomy : Roomy w v x)
    (ran : handleUserNode x v now w = .ok ⟨⟩ w') : w'.globals.messages =
      (w.globals.evSendMessageCount,
        w.globals.forwardedMessagesCount + BitVec.ofNat 32 (wrote w w').length,
        w.globals.receivedMessagesCount + 1,
        w.globals.receivedMessagesAdminCount + (if isAdmin x then 1 else 0)) := by
  obtain ⟨answer, handled⟩ := answered message ran
  rw [handled.messages, answer.wrote]
  by_cases timed : IsTimed x ∧ isForwarded x = false
  · have takes := roomy timed.1 timed.2
    simp [timed, takes]
  · simp [timed]

theorem Carrying.sending (carrying : net.Carrying) {arg : Option XmlNode}
    (ran : evSendMessage arg u net.world = .ok ⟨⟩ w) : (net.sending u w).Carrying := by
  intro f here
  rcases List.mem_append.mp here with new | old
  · obtain ⟨text, written, rfl⟩ := List.mem_map.mp new
    rcases wrote_send ran with nothing | ⟨jidFull, msg, one⟩
    · rw [nothing] at written
      cases written
    · rw [one] at written
      exact .original jidFull msg rfl (List.mem_singleton.mp written)
  · exact carrying f old

/-- Only a message that is no answer is answered, and by a copy. -/
theorem wrote_copy {x : XmlNode} {now : Int} (message : Message x)
    (ran : handleUserNode x v now w = .ok ⟨⟩ w') {text : CString} (written : text ∈ wrote w w') :
    isForwarded x = false ∧ text = xmlnode2str (forwardedCopy x) := by
  rw [(answered message ran).1.wrote] at written
  split at written
  · rename_i echoes
    exact ⟨echoes.1.2, List.mem_singleton.mp written⟩
  · cases written

theorem Carrying.handing (carrying : net.Carrying) {f : Flight} {x x' : XmlNode} {bounced : Bool}
    {now : Int} (here : f ∈ net.flights) (spelled : Spells f.text x)
    (handed : d.Hands f.sender x bounced x' v)
    (ran : handleUserNode x' v now net.world = .ok ⟨⟩ w) :
    Message x' ∧ (net.handing f v bounced w).Carrying := by
  obtain ⟨message, kind⟩ := (carrying f here).handed spelled
  have relayed := handed.relayed
  have message' := message.relayed relayed
  refine ⟨message', ?_⟩
  intro g there
  rcases List.mem_append.mp there with new | old
  · obtain ⟨text, written, rfl⟩ := List.mem_map.mp new
    obtain ⟨plain, copy⟩ := wrote_copy message' ran written
    rw [isForwarded_relayed relayed] at plain
    have first : f.hop = 0 := by
      rcases kind with ⟨hop, _⟩ | ⟨_, forwarded⟩
      · exact hop
      · cases plain.symm.trans forwarded
    exact .copy x' relayed.proper message' (by rw [first]) copy
  · exact carrying g (List.mem_of_mem_erase old)

theorem Carrying.answering (carrying : net.Carrying) {x : XmlNode} {now : Int} (proper : x.Proper)
    (message : Message x) (ran : handleUserNode x v now net.world = .ok ⟨⟩ w) :
    (net.answering v w).Carrying := by
  intro g there
  rcases List.mem_append.mp there with new | old
  · obtain ⟨text, written, rfl⟩ := List.mem_map.mp new
    exact .copy x proper message rfl (wrote_copy message ran written).2
  · exact carrying g old

section Lengths

theorem length_sending : (net.sending u w).messages.length =
    (wrote net.world w).length + net.messages.length := by
  simp [messages, Net.sending]

theorem length_answering : (net.answering v w).messages.length =
    (wrote net.world w).length + net.messages.length := by
  simp [messages, Net.answering]

theorem length_handing {f : Flight} (bounced : Bool) (here : f ∈ net.flights) :
    (net.handing f v bounced w).flights.length + 1 =
      (wrote net.world w).length + net.flights.length := by
  have some' := List.length_pos_of_mem here
  simp only [Net.handing, List.length_append, List.length_map, List.length_erase_of_mem here]
  omega

theorem length_handed {f : Flight} {bounced : Bool} (here : f ∈ net.flights) :
    (net.handing f v bounced w).messages.length =
      (wrote net.world w).length + net.messages.length := by
  have flights := length_handing (v := v) (w := w) bounced here
  have handings : (net.handing f v bounced w).handings.length = net.handings.length + 1 := rfl
  simp only [messages, List.length_append, List.length_map]
  omega

end Lengths

/-- The counters of what was sent count the messages that were put into queues. -/
structure Counted (net : Net) : Prop where
  carrying : net.Carrying
  sent : net.world.globals.evSendMessageCount + net.world.globals.forwardedMessagesCount =
    BitVec.ofNat 32 net.messages.length

theorem Counted.step (counted : net.Counted) (step : Counting d Fed Roomy Roomy net net') :
    net'.Counted := by
  obtain ⟨carrying, sent⟩ := counted
  cases step with
  | traffic step =>
    cases step with
    | elsewhere same =>
      obtain ⟨evs, fwd, _⟩ := (messages_eq_iff _ _).mp same
      refine ⟨carrying, ?_⟩
      dsimp only
      rw [evs, fwd]
      exact sent
    | send fed ran =>
      have counts := sent_counts fed ran
      refine ⟨carrying.sending ran, ?_⟩
      simp only [Globals.messages, Prod.mk.injEq] at counts
      rw [length_sending, BitVec.ofNat_add, ← sent]
      simp only [Net.sending, counts]
      bv_omega
    | hand here spelled handed roomy ran =>
      obtain ⟨message, carrying'⟩ := carrying.handing here spelled handed ran
      have counts := answered_counts message roomy ran
      refine ⟨carrying', ?_⟩
      simp only [Globals.messages, Prod.mk.injEq] at counts
      rw [length_handed here, BitVec.ofNat_add, ← sent]
      simp only [Net.handing, counts]
      bv_omega
  | drain ran =>
    have same := messages_drain ran
    obtain ⟨evs, fwd, _⟩ := (messages_eq_iff _ _).mp same
    refine ⟨carrying, ?_⟩
    dsimp only
    rw [evs, fwd]
    exact sent
  | unasked proper message roomy ran =>
    have counts := answered_counts message roomy ran
    refine ⟨carrying.answering proper message ran, ?_⟩
    simp only [Globals.messages, Prod.mk.injEq] at counts
    rw [length_answering, BitVec.ofNat_add, ← sent]
    simp only [Net.answering, counts]
    bv_omega

/-- The difference is what is under way. -/
structure Balanced (net : Net) : Prop where
  carrying : net.Carrying
  diff : net.world.globals.messageDiff = BitVec.ofNat 32 net.flights.length

/-- A message is handled and gives `k` answers. -/
theorem diff_handled {s f r a k left : CInt} (lengths : left + 1 = k + (s + f - (r - a))) :
    s + (f + k) - (r + 1 - a) = left := by
  linear_combination -lengths

theorem messageDiff_congr {g g' : Globals} (same : g.messages = g'.messages) :
    g.messageDiff = g'.messageDiff := by
  obtain ⟨evs, fwd, received, admins⟩ := (messages_eq_iff _ _).mp same
  rw [Globals.messageDiff, Globals.messageDiff, evs, fwd, received, admins]

/-- A message of the administrator is not answered. -/
theorem wrote_admin {x : XmlNode} {now : Int} (message : Message x) (admin : isAdmin x = true)
    (ran : handleUserNode x v now w = .ok ⟨⟩ w') : wrote w w' = [] := by
  have untimed : ¬IsTimed x := by
    intro timed
    cases admin.symm.trans timed.1
  rw [(answered message ran).1.wrote, if_neg fun both => untimed both.1.1]

theorem Balanced.step (balanced : net.Balanced)
    (step : Counting d Fed RoomyUser FromAdmin net net') : net'.Balanced := by
  obtain ⟨carrying, diff⟩ := balanced
  cases step with
  | traffic step =>
    cases step with
    | elsewhere same => exact ⟨carrying, (messageDiff_congr same).trans diff⟩
    | @send u arg w fed ran =>
      have counts := sent_counts fed ran
      have flights : (net.sending u w).flights.length =
          (wrote net.world w).length + net.flights.length := by simp [Net.sending]
      refine ⟨carrying.sending ran, ?_⟩
      simp only [Globals.messages, Prod.mk.injEq] at counts
      rw [flights, BitVec.ofNat_add, ← diff]
      simp only [Net.sending, Globals.messageDiff, counts]
      bv_omega
    | @hand f x x' bounced v now w here spelled handed allowed ran =>
      obtain ⟨message, carrying'⟩ := carrying.handing here spelled handed ran
      have counts := answered_counts message allowed.2 ran
      have flights := length_handing (v := v) (w := w) bounced here
      refine ⟨carrying', ?_⟩
      have lengths := congrArg (BitVec.ofNat 32) flights
      rw [BitVec.ofNat_add, BitVec.ofNat_add, ← diff] at lengths
      simp only [Globals.messages, Prod.mk.injEq, allowed.1] at counts
      obtain ⟨evs, fwd, received, admins⟩ := counts
      have admins : w.globals.receivedMessagesAdminCount =
          net.world.globals.receivedMessagesAdminCount := by simpa using admins
      rw [← diff_handled lengths]
      change w.globals.messageDiff = _
      rw [Globals.messageDiff, evs, fwd, received, admins]
  | drain ran => exact ⟨carrying, (messageDiff_congr (messages_drain ran)).trans diff⟩
  | @unasked x v now w proper message admin ran =>
    have nothing := wrote_admin message admin ran
    have roomy : Roomy net.world v x := by
      intro timed _
      have admin : isAdmin x = true := admin
      cases admin.symm.trans timed.1
    have counts := answered_counts message roomy ran
    refine ⟨carrying.answering proper message ran, ?_⟩
    have admin : isAdmin x = true := admin
    simp only [Globals.messages, Prod.mk.injEq, nothing, admin, if_true] at counts
    have flights : (net.answering v w).flights.length = net.flights.length := by
      simp [Net.answering, nothing]
    rw [flights, ← diff]
    simp only [Net.answering, Globals.messageDiff, counts]
    simp

theorem Begins.counted (begins : net.Begins) : net.Counted := by
  obtain ⟨⟨flights, handings⟩, zero⟩ := begins
  simp only [Globals.messages, Prod.mk.injEq] at zero
  constructor
  · intro f here
    rw [flights] at here
    cases here
  · simp [zero, messages, flights, handings]

theorem Begins.balanced (begins : net.Begins) : net.Balanced := by
  obtain ⟨⟨flights, handings⟩, zero⟩ := begins
  simp only [Globals.messages, Prod.mk.injEq] at zero
  constructor
  · intro f here
    rw [flights] at here
    cases here
  · simp [zero, Globals.messageDiff, flights]

/-- The counters count the messages that were put into queues, and the difference is
the number of those that are under way when users get only these and messages of the
administrator. -/
theorem messages_counted (d : Directory) {start net : Net} (begins : start.Begins) :
    (ReflTransGen (Counting d Fed Roomy Roomy) start net →
      net.world.globals.evSendMessageCount + net.world.globals.forwardedMessagesCount =
        BitVec.ofNat 32 net.messages.length) ∧
    (ReflTransGen (Counting d Fed RoomyUser FromAdmin) start net →
      net.world.globals.messageDiff = BitVec.ofNat 32 net.flights.length) := by
  constructor
  · intro run
    have counted : net.Counted := by
      induction run with
      | refl => exact begins.counted
      | tail _ step ih => exact ih.step step
    exact counted.sent
  · intro run
    have balanced : net.Balanced := by
      induction run with
      | refl => exact begins.balanced
      | tail _ step ih => exact ih.step step
    exact balanced.diff

end Net

theorem chatNet_begins : chatNet.Begins := ⟨chatNet_silent, rfl⟩

/-- A message and its answer are counted, and nothing is left under way. -/
theorem messages_counted_chat :
    chatDone.world.globals.evSendMessageCount + chatDone.world.globals.forwardedMessagesCount =
        BitVec.ofNat 32 chatDone.messages.length ∧
      chatDone.world.globals.messageDiff = BitVec.ofNat 32 chatDone.flights.length := by
  have fed : Fed chatWorld 0 (some greetEvent) := by
    intro _ _ _ _ _
    exact .inl (by decide)
  have there : RoomyUser chatSent.world 1 (deliveredStanza (cstr "ala@host") chatStanza) :=
    ⟨by decide +kernel, fun _ _ => by decide +kernel⟩
  have back : RoomyUser chatHanded.world 0 (deliveredStanza (cstr "ola@host") chatCopy) :=
    ⟨by decide +kernel, fun _ _ => by decide +kernel⟩
  obtain ⟨sent, diff⟩ :=
    Net.messages_counted chatDirectory chatNet_begins
  constructor
  · exact sent (ReflTransGen.mono (fun _ _ step => .traffic step) _ _
      (chat_run fed there.2 back.2))
  · exact diff (ReflTransGen.mono (fun _ _ step => .traffic step) _ _ (chat_run fed there back))

/-- The message is to be read from a file that cannot be read. -/
def unreadEvent : XmlNode :=
  .tag (cstr "event") [] [.tag (cstr "user") [] [.tag (cstr "jid") [] [.cdata (cstr "ola@host")]],
    .tag (cstr "file") [] [.cdata (cstr "greeting.txt")]]

/-- It is counted although nothing is written. -/
theorem unread_message_counted :
    ¬∀ (d : Directory) (start net : Net), start.Begins →
      ReflTransGen (Net.Counting d (fun _ _ _ => True) (fun _ _ _ => True) fun _ _ _ => True)
        start net →
      net.world.globals.evSendMessageCount + net.world.globals.forwardedMessagesCount =
        BitVec.ofNat 32 net.messages.length := by
  intro claim
  have counted := claim chatDirectory chatNet
    (chatNet.sending 0 (after (evSendMessage (some unreadEvent) 0) chatWorld)) chatNet_begins
    (.single (.traffic (.send trivial (run_of_returned (a := ()) (by decide +kernel)))))
  revert counted
  decide +kernel

end Runs

end JabSimul
