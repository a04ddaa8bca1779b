import JabSimul.ThreadRefinement
import Mathlib.Data.Finset.Max
import Mathlib.Data.Finset.Range

/-!
The end of the program. `exit_app` deletes the users one after the other, and the
deletion of a user that still has its exit flag calls `exit_app` again, from the
middle of the walk over the table.
-/
namespace JabSimul

open Simulation

/-- `exit_app` takes over where `m` calls it, and does not come back. -/
def takeOver (exit : Int → M Unit) (m : M Unit) : M Unit := fun w =>
  match m w with
  | .error (.exitApp code) w' => exit code w'
  | result => result

def userDelete (exit : Int → M Unit) (u : UserPtr) : M Unit := do
  expectKill u
  takeOver exit (userConnKill u .userDelete)
  modify fun w => rosterHashDelete u w
  emit (.userFreed u)

/-- The entries of the table keep their pointers. -/
def deleteUsersProperities (exit : Int → M Unit) : M Unit := do
  (List.range (← get).usersCount).forM (userDelete exit)

/-- The body of `exit_app`. Nothing clears `main_instance` once it is allocated. -/
def exitAppBody (mainInstance : Bool) : Nat → Int → M Unit
  | 0, _ => throw .diverged
  | fuel + 1, code => do
      if mainInstance then
        deleteUsersProperities (exitAppBody mainInstance fuel)
        emit .instanceFreed
      exitApp code

/-- A call of `exit_app`. Every nested call takes back the flag of one user. -/
def exitAppCall (mainInstance : Bool) (code : Int) : M Unit := do
  exitAppBody mainInstance ((← get).usersCount + 1) code

def Ev.freesUser (u : UserPtr) : Ev → Bool
  | .userFreed v => v = u
  | _ => false

def Ev.freesInstance : Ev → Bool
  | .instanceFreed => true
  | _ => false

/-- What the end of the program depends on, and what it gives back. -/
structure Inventory where
  count : Nat
  exits : UserPtr → Bool
  freed : UserPtr → Nat
  instances : Nat

def World.inventory (w : World) : Inventory :=
  ⟨w.usersCount, fun u => (w.users u).flags.exitAfterLogin,
    fun u => w.trace.countP (Ev.freesUser u), w.trace.countP Ev.freesInstance⟩

namespace World

def expectsKill (w : World) (u : UserPtr) : World :=
  w.updUser u fun user => { user with flags := { user.flags with expectKill := true } }

/-- The connection of a user dies, as is expected. -/
def hangUp (w : World) (u : UserPtr) : World :=
  ((w.expectsKill u).detachUser u .userDelete).resetUser u

end World

namespace Inventory

variable (l : Inventory) (u f : UserPtr)

def clear : Inventory := { l with exits := Function.update l.exits f false }

def frees (users : List UserPtr) : Inventory :=
  { l with freed := fun u => l.freed u + users.count u }

/-- The users of the table that still have the flag. -/
def flagged : Finset UserPtr := (Finset.range l.count).filter fun f => l.exits f = true

/-- Those behind `u`. -/
def behind : Finset UserPtr := l.flagged.filter fun f => u < f

theorem mem_flagged : f ∈ l.flagged ↔ f < l.count ∧ l.exits f = true := by
  simp [flagged]

theorem flagged_clear : (l.clear f).flagged = l.flagged.erase f := by
  ext g
  rw [Finset.mem_erase, mem_flagged, mem_flagged]
  by_cases same : g = f
  · subst g
    simp [clear]
  · simp [clear, same]

theorem behind_clear : (l.clear f).behind u = (l.behind u).erase f := by
  rw [behind, flagged_clear, behind, Finset.filter_erase]

theorem frees_frees (users more : List UserPtr) :
    (l.frees users).frees more = l.frees (users ++ more) := by
  simp [frees, Nat.add_assoc]

theorem mem_behind : f ∈ l.behind u ↔ (f < l.count ∧ l.exits f = true) ∧ u < f := by
  simp [behind, mem_flagged]

end Inventory

section Walk

variable {w w' : World} {u f : UserPtr}

theorem inventory_eq (count : w'.usersCount = w.usersCount)
    (flags : ∀ v, (w'.users v).flags.exitAfterLogin = (w.users v).flags.exitAfterLogin)
    (events : ∃ es, w'.trace = es ++ w.trace ∧
      ∀ e ∈ es, (∀ v, e.freesUser v = false) ∧ e.freesInstance = false) :
    w'.inventory = w.inventory := by
  obtain ⟨es, trace, notes⟩ := events
  have users : ∀ v, es.countP (Ev.freesUser v) = 0 := fun v =>
    List.countP_eq_zero.mpr fun e mem => by simp [(notes e mem).1 v]
  have instances : es.countP Ev.freesInstance = 0 :=
    List.countP_eq_zero.mpr fun e mem => by simp [(notes e mem).2]
  simp only [World.inventory, count, flags, trace, List.countP_append, users, instances, Nat.zero_add]

theorem inventory_resetUser (w : World) (u : UserPtr) : (w.resetUser u).inventory = w.inventory := by
  have frame := resetUser_frame w u
  refine inventory_eq frame.usersCount (fun v => ?_) ?_
  · by_cases same : v = u
    · subst v
      rw [frame.flags]
    · rw [frame.others v same]
  · rcases frame.trace with same | report
    · exact ⟨[], same, by simp⟩
    · exact ⟨[_], report, by simp [Ev.freesUser, Ev.freesInstance]⟩

theorem inventory_touch (w : World) (c : ConnPtr) : (w.touch c).inventory = w.inventory := by
  unfold World.touch
  split <;> rfl

theorem inventory_killed (w : World) (c : ConnPtr) (site : KillSite) :
    (w.emit (.killed c site)).inventory = w.inventory :=
  inventory_eq rfl (fun _ => rfl) ⟨[_], rfl, by simp [Ev.freesUser, Ev.freesInstance]⟩

theorem inventory_releaseConn (w : World) (c : ConnPtr) : (w.releaseConn c).inventory = w.inventory := by
  rw [← inventory_touch w c]
  rfl

theorem inventory_killConn (w : World) (c : ConnPtr) (site : KillSite)
    (unowned : (w.heap c).conn.user = none) : (w.killConn c site).inventory = w.inventory := by
  have stripped : (w.killConn c site).inventory =
      (((w.emit (.killed c site)).releaseConn c).touch c).inventory := by
    rw [World.killConn, World.stripConn, unowned]
    rfl
  rw [stripped, inventory_touch, inventory_releaseConn, inventory_killed]

theorem inventory_detachUser (w : World) (u : UserPtr) (site : KillSite) :
    (w.detachUser u site).inventory = w.inventory := by
  unfold World.detachUser
  split
  · rfl
  · rename_i c _
    rw [inventory_killConn _ c site (by simp [World.updConn]), ← inventory_touch w c]
    rfl

theorem inventory_expectsKill (w : World) (u : UserPtr) : (w.expectsKill u).inventory = w.inventory := by
  refine inventory_eq rfl (fun v => ?_) ⟨[], rfl, by simp⟩
  by_cases same : v = u
  · subst v
    rw [World.expectsKill, updUser_users_self]
  · rw [World.expectsKill, updUser_users_of_ne w same]

theorem inventory_hangUp (w : World) (u : UserPtr) : (w.hangUp u).inventory = w.inventory := by
  rw [World.hangUp, inventory_resetUser, inventory_detachUser, inventory_expectsKill]

theorem inventory_clearExit (w : World) (u : UserPtr) : (w.clearExit u).inventory = w.inventory.clear u := by
  simp only [World.inventory, Inventory.clear, World.clearExit, Inventory.mk.injEq]
  refine ⟨rfl, ?_, rfl, rfl⟩
  funext v
  by_cases same : v = u
  · subst v
    rw [updUser_users_self, Function.update_self]
  · rw [updUser_users_of_ne w same, Function.update_of_ne same]

theorem inventory_freeUser (w : World) (u : UserPtr) :
    ((rosterHashDelete u w).emit (.userFreed u)).inventory = w.inventory.frees [u] := by
  have frame := rosterHashDelete_frame w u
  obtain ⟨_, _, _, user⟩ := frame.user
  have exits : ∀ v, ((rosterHashDelete u w).users v).flags = (w.users v).flags := by
    intro v
    by_cases same : v = u
    · subst v
      rw [user]
    · rw [frame.others v same]
  simp only [World.inventory, Inventory.frees, World.emit, exits, frame.usersCount, frame.trace,
    List.countP_cons, Ev.freesUser, Ev.freesInstance, List.count_singleton, beq_iff_eq,
    decide_eq_true_eq]
  rfl

theorem inventory_freeInstance (w : World) : (w.emit .instanceFreed).inventory =
    { w.inventory with instances := w.inventory.instances + 1 } := by
  simp [World.inventory, World.emit, Ev.freesUser, show
    Ev.freesInstance .instanceFreed = true from rfl]

theorem range_split {f n : Nat} (inside : f < n) :
    ∃ rest, List.range n = List.range f ++ f :: rest := by
  obtain ⟨m, rfl⟩ := Nat.exists_eq_add_of_lt inside
  exact ⟨_, by rw [Nat.add_right_comm, List.range_add, List.range_succ, List.append_assoc]; rfl⟩

/-- `exit_app` does not come back. -/
def NoReturn (exit : Int → M Unit) : Prop := ∀ code w w', exit code w ≠ .ok ⟨⟩ w'

variable {exit : Int → M Unit}

theorem userDelete_kill (w : World) (u : UserPtr) :
    userConnKill u .userDelete (w.expectsKill u) = if w.inventory.exits u then
      .error (.exitApp 0) ((w.hangUp u).clearExit u) else .ok ⟨⟩ (w.hangUp u) := by
  have detached : ((w.expectsKill u).detachUser u .userDelete).inventory = w.inventory :=
    (inventory_detachUser _ u _).trans (inventory_expectsKill w u)
  rw [userConnKill_apply, userConnReset_apply, ← detached]
  rfl

/-- The deletion of a user frees it, or ends in `exit_app` without its flag. -/
theorem userDelete_apply (noReturn : NoReturn exit) (w : World) (u : UserPtr) :
    (w.inventory.exits u = false ∧
      ∃ w', userDelete exit u w = .ok ⟨⟩ w' ∧ w'.inventory = w.inventory.frees [u]) ∨
    (w.inventory.exits u = true ∧
      ∃ w', userDelete exit u w = exit 0 w' ∧ w'.inventory = w.inventory.clear u) := by
  have ran : userDelete exit u w = (takeOver exit (userConnKill u .userDelete) >>= fun _ =>
      modify (fun w => rosterHashDelete u w) >>= fun _ => emit (.userFreed u))
      (w.expectsKill u) := rfl
  rw [ran, bind_apply, takeOver, userDelete_kill]
  cases w.inventory.exits u with
  | true =>
    refine .inr ⟨rfl, (w.hangUp u).clearExit u, ?_, by rw [inventory_clearExit, inventory_hangUp]⟩
    simp only [if_true]
    cases exited : exit 0 ((w.hangUp u).clearExit u) with
    | ok _ w' => exact absurd exited (noReturn _ _ _)
    | error _ _ => rfl
  | false =>
    refine .inl ⟨rfl, (rosterHashDelete u (w.hangUp u)).emit (.userFreed u), rfl, ?_⟩
    rw [inventory_freeUser, inventory_hangUp]

/-- A walk over users without the flag frees each of them. -/
theorem walk_calm (noReturn : NoReturn exit) (users : List UserPtr) (w : World)
    (calm : ∀ u ∈ users, w.inventory.exits u = false) :
    ∃ w', users.forM (userDelete exit) w = .ok ⟨⟩ w' ∧ w'.inventory = w.inventory.frees users := by
  induction users generalizing w with
  | nil => exact ⟨w, rfl, by simp [Inventory.frees]⟩
  | cons u users ih =>
    rcases userDelete_apply noReturn w u with ⟨_, w₁, ran, inventory⟩ | ⟨flag, _⟩
    · have exits : w₁.inventory.exits = w.inventory.exits := by rw [inventory]; rfl
      obtain ⟨w₂, rest, inventory'⟩ := ih w₁ fun v mem => by
        rw [exits]
        exact calm v (List.mem_cons_of_mem _ mem)
      refine ⟨w₂, ?_, ?_⟩
      · change (userDelete exit u >>= fun _ => users.forM (userDelete exit)) w = _
        rw [bind_apply, ran]
        exact rest
      · rw [inventory', inventory, Inventory.frees_frees]
        rfl
    · rw [calm u (List.mem_cons_self ..)] at flag
      cases flag

/-- The first user that has the flag ends the walk. -/
theorem walk_stops (noReturn : NoReturn exit) (users rest : List UserPtr) (w : World)
    (calm : ∀ u ∈ users, w.inventory.exits u = false) (flag : w.inventory.exits f = true) :
    ∃ w', (users ++ f :: rest).forM (userDelete exit) w = exit 0 w' ∧
      w'.inventory = (w.inventory.frees users).clear f := by
  obtain ⟨w₁, ran, inventory⟩ := walk_calm noReturn users w calm
  have flag' : w₁.inventory.exits f = true := by rw [inventory]; exact flag
  rcases userDelete_apply noReturn w₁ f with ⟨calm, _⟩ | ⟨_, w₂, exited, inventory'⟩
  · rw [flag'] at calm
    cases calm
  · refine ⟨w₂, ?_, by rw [inventory', inventory]⟩
    have split : (users ++ f :: rest).forM (userDelete exit) = (users.forM (userDelete exit) >>=
        fun _ => userDelete exit f >>= fun _ => rest.forM (userDelete exit)) :=
      List.forM_append ..
    rw [split, bind_apply, ran]
    change (userDelete exit f >>= fun _ => rest.forM (userDelete exit)) w₁ = _
    rw [bind_apply, exited]
    cases last : exit 0 w₂ with
    | ok _ w' => exact absurd last (noReturn _ _ _)
    | error _ _ => rfl

theorem exitAppBody_noReturn (mainInstance : Bool) (fuel : Nat) :
    NoReturn (exitAppBody mainInstance fuel) := by
  intro code w w' back
  cases fuel with
  | zero => cases back
  | succ fuel =>
    cases mainInstance with
    | false => cases back
    | true =>
      simp only [exitAppBody, if_true, bind_apply] at back
      split at back
      · cases back
      · cases back

/-- With enough fuel for the flags that are left, the program ends. A user is
freed once, and once more for every flag behind it. -/
theorem exitAppBody_ends (fuel : Nat) (code : Int) (w : World)
    (enough : w.inventory.flagged.card < fuel) :
    ∃ w', exitAppBody true fuel code w =
        .error (.exitApp (if w.inventory.flagged = ∅ then code else 0)) w' ∧
      (∀ u < w.usersCount, w'.inventory.freed u = w.inventory.freed u + 1 + (w.inventory.behind u).card) ∧
      w'.inventory.instances = w.inventory.instances + 1 := by
  induction fuel generalizing code w with
  | zero => omega
  | succ fuel ih =>
    have noReturn := exitAppBody_noReturn true fuel
    have body : exitAppBody true (fuel + 1) code w =
        ((List.range w.usersCount).forM (userDelete (exitAppBody true fuel)) >>= fun _ =>
          emit .instanceFreed >>= fun _ => exitApp code) w := rfl
    by_cases none : w.inventory.flagged = ∅
    · have calm : ∀ u ∈ List.range w.usersCount, w.inventory.exits u = false := fun u mem => by
        have unflagged : u ∉ w.inventory.flagged := by simp [none]
        simpa [Inventory.mem_flagged, World.inventory, List.mem_range.mp mem] using unflagged
      obtain ⟨w', ran, inventory⟩ := walk_calm noReturn _ w calm
      refine ⟨w'.emit .instanceFreed, ?_, fun u inside => ?_, ?_⟩
      · rw [body, bind_apply, ran, if_pos none]
        rfl
      · have nobody : w.inventory.behind u = ∅ := by simp [Inventory.behind, none]
        rw [inventory_freeInstance, inventory, nobody]
        simp [Inventory.frees, inside]
      · rw [inventory_freeInstance, inventory]
        rfl
    · let f := w.inventory.flagged.min' (Finset.nonempty_of_ne_empty none)
      have mem : f ∈ w.inventory.flagged := Finset.min'_mem _ _
      obtain ⟨inside, flag⟩ := (w.inventory.mem_flagged f).mp mem
      have calm : ∀ u ∈ List.range f, w.inventory.exits u = false := fun u before => by
        have small := List.mem_range.mp before
        have unflagged : u ∉ w.inventory.flagged := fun mem =>
          absurd (Finset.min'_le _ u mem) (Nat.not_le.mpr small)
        simpa [Inventory.mem_flagged, Nat.lt_trans small inside] using unflagged
      obtain ⟨rest, split⟩ := range_split (n := w.usersCount) inside
      obtain ⟨w₁, ran, inventory⟩ := walk_stops noReturn (List.range f) rest w calm flag
      have flagged : w₁.inventory.flagged = w.inventory.flagged.erase f := by
        rw [inventory, Inventory.flagged_clear]
        rfl
      have fewer := Finset.card_erase_lt_of_mem mem
      obtain ⟨w₂, ended, freed, instances⟩ := ih 0 w₁ (by rw [flagged]; omega)
      refine ⟨w₂, ?_, fun u inside => ?_, ?_⟩
      · have whole : (List.range w.usersCount).forM (userDelete (exitAppBody true fuel)) w =
            exitAppBody true fuel 0 w₁ := by
          rw [split, ran]
        rw [body, bind_apply, whole, ended, if_neg none, ite_self]
      · have behind : w₁.inventory.behind u = (w.inventory.behind u).erase f := by
          rw [inventory, Inventory.behind_clear]
          rfl
        have passed : w₁.inventory.freed u = w.inventory.freed u + if u < f then 1 else 0 := by
          rw [inventory]
          simp [Inventory.frees, Inventory.clear]
        have count : w₁.usersCount = w.usersCount := congrArg Inventory.count inventory
        rw [freed u (count ▸ inside), passed, behind]
        by_cases before : u < f
        · have there : f ∈ w.inventory.behind u := (w.inventory.mem_behind u f).mpr ⟨(w.inventory.mem_flagged f).mp mem, before⟩
          have one := Finset.card_erase_add_one there
          rw [if_pos before]
          omega
        · have absent : f ∉ w.inventory.behind u := fun mem =>
            before ((w.inventory.mem_behind u f).mp mem).2
          rw [if_neg before, Finset.erase_eq_of_notMem absent]
      · rw [instances, inventory]
        rfl

/-- At most one call of `exit_app` for each flag is made from inside another. -/
theorem exitAppCall_ends (code : Int) (w : World) :
    ∃ w', exitAppCall true code w =
        .error (.exitApp (if w.inventory.flagged = ∅ then code else 0)) w' ∧
      (∀ u < w.usersCount,
        w'.inventory.freed u = w.inventory.freed u + 1 + (w.inventory.behind u).card) ∧
      w'.inventory.instances = w.inventory.instances + 1 := by
  refine exitAppBody_ends (w.usersCount + 1) code w ?_
  have some : w.inventory.flagged.card ≤ (Finset.range w.usersCount).card :=
    Finset.card_filter_le _ _
  rw [Finset.card_range] at some
  omega

end Walk

/-- The program ends with the given code, and what the instance holds is given
back once. -/
def ExitsOnce (mainInstance : Bool) (code : Int) (w : World) : Prop :=
  ∃ w', exitAppCall mainInstance code w = .error (.exitApp code) w' ∧
    (mainInstance = true → w'.inventory.instances = w.inventory.instances + 1 ∧
      ∀ u < w.usersCount, w'.inventory.freed u = w.inventory.freed u + 1)

/-- Nobody in the table has the exit flag, or only its first user has, and the
code is the one that the nested call of `exit_app` passes. -/
def TearDownOk (mainInstance : Bool) (code : Int) (w : World) : Prop :=
  mainInstance = false ∨ (∀ u < w.usersCount, (w.users u).flags.exitAfterLogin = false) ∨
    code = 0 ∧ ∀ u < w.usersCount, (w.users u).flags.exitAfterLogin = true → u = 0

/-- The tear-down runs once exactly when no flag makes it start again. The walk is
the one of a process that no other signal interrupts: SIGINT and SIGTERM call
`exit_app` too, and a second one would start a walk of its own. -/
theorem exitApp_once_iff (mainInstance : Bool) (code : Int) (w : World) :
    ExitsOnce mainInstance code w ↔ TearDownOk mainInstance code w := by
  cases mainInstance with
  | false => exact iff_of_true ⟨w, rfl, by simp⟩ (.inl rfl)
  | true =>
    obtain ⟨w', ended, freed, instances⟩ := exitAppCall_ends code w
    have flagged : ∀ f, f ∈ w.inventory.flagged ↔
        f < w.usersCount ∧ (w.users f).flags.exitAfterLogin = true := w.inventory.mem_flagged
    constructor
    · rintro ⟨w'', once, returned⟩
      obtain ⟨_, deleted⟩ := returned rfl
      rw [ended, EStateM.Result.error.injEq, Stop.exitApp.injEq] at once
      obtain ⟨exited, rfl⟩ := once
      by_cases none : w.inventory.flagged = ∅
      · refine .inr (.inl fun u inside => ?_)
        have unflagged : u ∉ w.inventory.flagged := by simp [none]
        simpa [flagged, inside] using unflagged
      · rw [if_neg none] at exited
        refine .inr (.inr ⟨exited.symm, fun f inside flag => ?_⟩)
        by_contra later
        have first : 0 < w.usersCount := by omega
        have behind : f ∈ w.inventory.behind 0 :=
          (w.inventory.mem_behind 0 f).mpr ⟨⟨inside, flag⟩, Nat.pos_of_ne_zero later⟩
        have some := Finset.card_pos.mpr ⟨f, behind⟩
        have once := freed 0 first
        rw [deleted 0 first] at once
        omega
    · intro ok
      have exited : (if w.inventory.flagged = ∅ then code else 0) = code := by
        rcases ok with impossible | calm | ⟨zero, _⟩
        · cases impossible
        · refine if_pos (Finset.eq_empty_of_forall_notMem fun f mem => ?_)
          obtain ⟨inside, flag⟩ := (flagged f).mp mem
          rw [calm f inside] at flag
          cases flag
        · rw [zero, ite_self]
      have nobody : ∀ u, w.inventory.behind u = ∅ := fun u =>
        Finset.eq_empty_of_forall_notMem fun f mem => by
          obtain ⟨⟨inside, flag⟩, before⟩ := (w.inventory.mem_behind u f).mp mem
          rcases ok with impossible | calm | ⟨_, first⟩
          · cases impossible
          · exact absurd flag (by simp [World.inventory, calm f inside])
          · rw [first f inside flag] at before
            exact Nat.not_lt_zero u before
      rw [exited] at ended
      exact ⟨w', ended, fun _ => ⟨instances, fun u inside => by rw [freed u inside, nobody]; rfl⟩⟩

/-- Two users, of which the second is there to time its login. -/
def timedWorld : World :=
  { plainWorld [] with
    usersCount := 2
    users := fun u => { plainUser [] with flags := ⟨u = 1, false, false⟩ } }

/-- A signal ends the program, and the first user is freed twice. -/
theorem timedWorld_freed_twice :
    ¬∀ (mainInstance : Bool) (code : Int) (w : World), ExitsOnce mainInstance code w := by
  intro claim
  obtain ⟨w', ended, returned⟩ := claim true 1 timedWorld
  have final : after (exitAppCall true 1) timedWorld = w' := by rw [after, ended]
  have twice : (after (exitAppCall true 1) timedWorld).inventory.freed 0 = 2 := by decide +kernel
  have once := (returned rfl).2 0 (by decide)
  rw [← final, twice] at once
  cases once

end JabSimul
