import JabSimul.WriteQueue

/-!
The part of the state that the allocator of slots goes by, and who changes it: what is
done with the bytes that a connection has read changes nothing in it, in any state.
-/
namespace JabSimul

open Simulation

structure SlotTable where
  mpfd : Nat
  npfd : List Nat
  fd : Nat → Int
  conns : Nat → Option ConnPtr
  live : ConnPtr → Bool
  loc : ConnPtr → Nat
  nextConn : ConnPtr

def World.slotTable (w : World) : SlotTable where
  mpfd := w.thread.mpfd
  npfd := w.thread.npfd
  fd p := (w.thread.pfds p).fd
  conns := w.thread.conns
  live c := (w.heap c).live
  loc c := (w.heap c).conn.loc
  nextConn := w.nextConn

section Updates

variable (w : World)

end Updates

section Actions

variable (u : UserPtr) (c : ConnPtr)

end Actions

section Handlers

variable (x : XmlNode) (u : UserPtr) (curtime : Int)

end Handlers

section Kills

/-- The slots when a connection has been killed. -/
def SlotTable.release (t : SlotTable) (c : ConnPtr) : SlotTable where
  mpfd := if t.mpfd = t.loc c then t.mpfd - 1 else t.mpfd
  npfd := t.loc c :: t.npfd
  fd := Function.update t.fd (t.loc c) (-1)
  conns := Function.update t.conns (t.loc c) none
  live := Function.update t.live c false
  loc := t.loc
  nextConn := t.nextConn

variable (w : World) (c : ConnPtr) (site : KillSite)

/-- What comes back leaves the slots alone or has killed the connection. -/
def Serves (t : SlotTable) (c : ConnPtr) : EStateM.Result Stop World Unit → Prop
  | .ok _ w => w.slotTable = t ∨ w.slotTable = t.release c
  | .error _ _ => True

variable {w c} {j : Nat}

/-- What an action leaves alone may come before what serves. -/
theorem Serves.after {m : M Unit} {w' : World} (served : Serves w'.slotTable c (m w'))
    (same : w'.slotTable = w.slotTable) : Serves w.slotTable c (m w') :=
  same ▸ served

end Kills

end JabSimul
