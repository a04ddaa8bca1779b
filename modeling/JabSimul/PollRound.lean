import JabSimul.SlotTable
import JabSimul.SlotAllocator

/-!
A round of the service loop: what `thread_main` does with the slots for which `poll`
reports something. The loop counts down what is left to serve, and its bound is the
highest slot that is in use at the moment.
-/
namespace JabSimul

open Simulation

/-- The bits that `poll` leaves in `revents`; `other` are those the loop has no test for. -/
structure PollEvents where
  pollnval : Bool
  pollhup : Bool
  pollerr : Bool
  pollout : Bool
  pollin : Bool
  other : Bool
  deriving DecidableEq, Repr

def PollEvents.zero : PollEvents := ⟨false, false, false, false, false, false⟩

inductive PollHandler where
  | handlePOLLERR
  | handlePOLLOUT
  | handlePOLLIN
  deriving DecidableEq, Repr

/-- The tests of the loop in their order. -/
def PollEvents.handler (r : PollEvents) : Option PollHandler :=
  if r.pollnval || r.pollhup || r.pollerr then some .handlePOLLERR
  else if r.pollout then some .handlePOLLOUT
  else if r.pollin then some .handlePOLLIN
  else none

/-- What `poll` returns and leaves in `revents`, and what the system answers to the
handler of a slot. -/
structure PollResult where
  nready : Int
  revents : Nat → PollEvents
  falseAlarm : Nat → Bool
  input : Nat → ReadResult

/-- A handler that the loop has called, with `t->conns[j]` at that moment. -/
structure HandlerCall where
  slot : Nat
  handler : PollHandler
  conn : Option ConnPtr
  deriving DecidableEq, Repr

/-- The calls are noted beside the state, the last one behind. -/
abbrev Round := EStateM Stop (World × List HandlerCall)

def Round.run {α : Type} (m : M α) : Round α := fun s =>
  match m s.1 with
  | .ok a w => .ok a (w, s.2)
  | .error e w => .error e (w, s.2)

def PollResult.handle (poll : PollResult) (h : PollHandler) (j : Nat) : M Unit :=
  match h with
  | .handlePOLLERR => handlePOLLERR j (poll.falseAlarm j)
  | .handlePOLLOUT => handlePOLLOUT j
  | .handlePOLLIN => handlePOLLIN j (poll.input j)

/-- The slots with something in `revents`. -/
def PollResult.ready (poll : PollResult) (t : JpolldThread) : List Nat :=
  (List.range' 2 (t.mpfd - 1)).filter fun j => poll.revents j ≠ .zero

/-- A result of `poll`, which passes over negative descriptors, with a bit for the loop
in every slot that is ready. -/
structure PollResult.Reported (poll : PollResult) (t : JpolldThread) : Prop where
  nready : poll.nready = (poll.ready t).length
  ignored : ∀ j, 2 ≤ j → j ≤ t.mpfd → (t.pfds j).fd = -1 → poll.revents j = .zero
  handled : ∀ j ∈ poll.ready t, (poll.revents j).handler.isSome

/-- The right handler for a slot with a live connection in it. -/
def PollResult.Right (poll : PollResult) (w : World) (call : HandlerCall) : Prop :=
  (poll.revents call.slot).handler = some call.handler ∧
    ∃ c, call.conn = some c ∧ (w.heap c).live = true ∧ (w.heap c).conn.loc = call.slot

/-- The calls of a round that ended in `r`: all that are due, or those up to the one
that did not come back. -/
def PollResult.Served (poll : PollResult) (w : World) :
    EStateM.Result Stop (World × List HandlerCall) Unit → Prop
  | .ok _ (_, calls) =>
      calls.map HandlerCall.slot = poll.ready w.thread ∧ ∀ call ∈ calls, poll.Right w call
  | .error e (w', calls) =>
      calls.map HandlerCall.slot <+: poll.ready w.thread ∧ (∀ call ∈ calls, poll.Right w call) ∧
        ∃ call v, calls.getLast? = some call ∧ poll.handle call.handler call.slot v = .error e w'

def PollResult.event (poll : PollResult) (h : PollHandler) (j : Nat) : Revents :=
  match h with
  | .handlePOLLERR => .err (poll.falseAlarm j)
  | .handlePOLLOUT => .pollout
  | .handlePOLLIN => .pollin (poll.input j)

/-- A call for an event that was asked for is the step of a run that serves the slot. -/
theorem handle_step {w : World} {poll : PollResult} {j : Nat} {h : PollHandler} (low : 2 ≤ j)
    (reach : j ≤ w.thread.mpfd) (used : (w.thread.pfds j).fd ≠ -1)
    (room : h = .handlePOLLOUT → (w.thread.pfds j).pollout = true)
    (bytes : h = .handlePOLLIN → (w.thread.pfds j).pollin = true) :
    poll.handle h j w = step (.slot j (poll.event h j)) w := by
  have watched : 2 ≤ j ∧ j < w.thread.mpfd + 1 ∧ (w.thread.pfds j).fd ≠ -1 :=
    ⟨low, Nat.lt_succ_of_le reach, used⟩
  rw [step, serveSlot, bind_apply, get_apply]
  dsimp only
  rw [if_pos watched]
  cases h with
  | handlePOLLERR => rfl
  | handlePOLLOUT =>
    dsimp only [PollResult.event]
    rw [if_pos (room rfl)]
    rfl
  | handlePOLLIN =>
    dsimp only [PollResult.event]
    rw [if_pos (bytes rfl)]
    rfl

/-- From the slot `j` on the table is still what it was. -/
structure SlotTable.Untouched (first t : SlotTable) (j : Nat) : Prop where
  bound : j ≤ first.mpfd → t.mpfd = first.mpfd
  below : t.mpfd ≤ first.mpfd
  fd : ∀ p, j ≤ p → t.fd p = first.fd p
  conns : ∀ p, j ≤ p → t.conns p = first.conns p
  loc : t.loc = first.loc

namespace SlotTable.Untouched

variable {first t : SlotTable} {j : Nat}

theorem refl (t : SlotTable) (j : Nat) : t.Untouched t j :=
  ⟨fun _ => rfl, Nat.le_refl _, fun _ _ => rfl, fun _ _ => rfl, rfl⟩

theorem next (untouched : first.Untouched t j) : first.Untouched t (j + 1) where
  bound reach := untouched.bound (Nat.le_of_succ_le reach)
  below := untouched.below
  fd p behind := untouched.fd p (Nat.le_of_succ_le behind)
  conns p behind := untouched.conns p (Nat.le_of_succ_le behind)
  loc := untouched.loc

/-- A connection that dies in the slot `j` lowers the bound only if nothing is behind. -/
theorem release (untouched : first.Untouched t j) {c : ConnPtr} (home : first.loc c = j) :
    first.Untouched (t.release c) (j + 1) := by
  have here : t.loc c = j := (congrFun untouched.loc c).trans home
  constructor
  · intro reach
    have bound := untouched.bound (Nat.le_of_succ_le reach)
    simp only [SlotTable.release, here]
    rw [if_neg (by omega), bound]
  · have below := untouched.below
    simp only [SlotTable.release]
    split <;> omega
  · intro p behind
    simp only [SlotTable.release, here]
    rw [Function.update_of_ne (by omega)]
    exact untouched.fd p (Nat.le_of_succ_le behind)
  · intro p behind
    simp only [SlotTable.release, here]
    rw [Function.update_of_ne (by omega)]
    exact untouched.conns p (Nat.le_of_succ_le behind)
  · exact untouched.loc

end SlotTable.Untouched

section Loop

variable {poll : PollResult} {w first : World} {issued j fuel : Nat} {nready : Int}
  {calls : List HandlerCall}

/-- The slots from `j` on that are ready. -/
def PollResult.due (poll : PollResult) (t : JpolldThread) (j : Nat) : List Nat :=
  (List.range' j (t.mpfd + 1 - j)).filter fun j => poll.revents j ≠ .zero

end Loop

end JabSimul
