import Mathlib.Logic.Relation

/-!
Programs that pass a state and may stop early, simulated by an abstract
transition system. An abstraction maps concrete states to abstract ones; a
program is simulated when each of its results is reached by abstract steps.
The rules below follow the shape of the program.
-/
namespace Simulation

open Relation

variable {ε σ τ α β : Type}

theorem bind_apply (m : EStateM ε σ α) (f : α → EStateM ε σ β) (s : σ) :
    (m >>= f) s = match m s with
      | .ok a t => f a t
      | .error e t => .error e t := rfl

/-- A sequence that comes back did so twice. -/
theorem ok_of_bind {m : EStateM ε σ α} {f : α → EStateM ε σ β} {s t : σ} {b : β}
    (ran : (m >>= f) s = .ok b t) : ∃ a s', m s = .ok a s' ∧ f a s' = .ok b t := by
  rw [bind_apply] at ran
  cases first : m s with
  | ok a s' =>
    rw [first] at ran
    exact ⟨a, s', rfl, ran⟩
  | error e s' =>
    rw [first] at ran
    cases ran

theorem pure_apply (a : α) (s : σ) : (pure a : EStateM ε σ α) s = .ok a s := rfl

theorem get_apply (s : σ) : (get : EStateM ε σ σ) s = .ok s s := rfl

theorem set_apply (s t : σ) : (set t : EStateM ε σ PUnit) s = .ok ⟨⟩ t := rfl

theorem modify_apply (f : σ → σ) (s : σ) : (modify f : EStateM ε σ PUnit) s = .ok ⟨⟩ (f s) := rfl

theorem throw_apply (e : ε) (s : σ) : (throw e : EStateM ε σ α) s = .error e s := rfl

/-- An abstraction of states together with the steps of the abstract system, an
invariant that the steps keep, and the reasons for which a program may stop. -/
structure Abstraction (ε σ τ : Type) where
  abs : σ → τ
  Step : τ → τ → Prop
  Inv : τ → Prop
  Allowed : ε → Prop
  inv_step : ∀ {s t}, Inv s → Step s t → Inv t

namespace Abstraction

variable (A : Abstraction ε σ τ)

/-- What a result says that was reached from the abstract state `x`. -/
def Outcome (x : τ) (Q : α → σ → Prop) : EStateM.Result ε σ α → Prop
  | .ok a t => ReflTransGen A.Step x (A.abs t) ∧ Q a t
  | .error e _ => A.Allowed e

def Sim (P : σ → Prop) (m : EStateM ε σ α) (Q : α → σ → Prop) : Prop :=
  ∀ s, A.Inv (A.abs s) → P s → A.Outcome (A.abs s) Q (m s)

/-- The result says that nothing changed that the abstraction sees. -/
def Unseen (x : τ) : EStateM.Result ε σ α → Prop
  | .ok _ t => A.abs t = x
  | .error e _ => A.Allowed e

def Silent (m : EStateM ε σ α) : Prop :=
  ∀ s, A.Unseen (A.abs s) (m s)

variable {A} {P P' : σ → Prop} {Q Q' : α → σ → Prop} {R : β → σ → Prop}
  {m : EStateM ε σ α} {f : α → EStateM ε σ β}

theorem inv_steps {s t : τ} (inv : A.Inv s) (steps : ReflTransGen A.Step s t) : A.Inv t := by
  induction steps with
  | refl => exact inv
  | tail _ step ih => exact A.inv_step ih step

theorem steps_keep {K : τ → Prop} (keeps : ∀ {s t}, A.Inv s → A.Step s t → K s → K t) {s t : τ}
    (inv : A.Inv s) (steps : ReflTransGen A.Step s t) (holds : K s) : K t := by
  induction steps with
  | refl => exact holds
  | tail before step ih => exact keeps (inv_steps inv before) step ih

theorem Outcome.after {x y : τ} {r : EStateM.Result ε σ α} (outcome : A.Outcome y Q r)
    (steps : ReflTransGen A.Step x y) : A.Outcome x Q r := by
  cases r with
  | ok a t => exact ⟨steps.trans outcome.1, outcome.2⟩
  | error e t => exact outcome

theorem Outcome.post {x : τ} {r : EStateM.Result ε σ α} (outcome : A.Outcome x Q r)
    (inv : A.Inv x) (post : ∀ a s, A.Inv (A.abs s) → Q a s → Q' a s) : A.Outcome x Q' r := by
  cases r with
  | ok a t => exact ⟨outcome.1, post a t (inv_steps inv outcome.1) outcome.2⟩
  | error e t => exact outcome

theorem Sim.conseq (sim : A.Sim P m Q) (pre : ∀ s, A.Inv (A.abs s) → P' s → P s)
    (post : ∀ a s, A.Inv (A.abs s) → Q a s → Q' a s) : A.Sim P' m Q' :=
  fun s inv before => (sim s inv (pre s inv before)).post inv post

theorem Sim.pre (sim : A.Sim P m Q) (pre : ∀ s, A.Inv (A.abs s) → P' s → P s) : A.Sim P' m Q :=
  sim.conseq pre fun _ _ _ post => post

theorem Sim.post (sim : A.Sim P m Q) (post : ∀ a s, A.Inv (A.abs s) → Q a s → Q' a s) :
    A.Sim P m Q' :=
  sim.conseq (fun _ _ pre => pre) post

theorem sim_throw {e : ε} (allowed : A.Allowed e) : A.Sim P (throw e : EStateM ε σ α) Q :=
  fun _ _ _ => allowed

theorem Sim.bind (first : A.Sim P m Q) (next : ∀ a, A.Sim (Q a) (f a) R) :
    A.Sim P (m >>= f) R := by
  intro s inv pre
  have outcome := first s inv pre
  rw [bind_apply]
  cases run : m s with
  | error e t =>
    rw [run] at outcome
    exact outcome
  | ok a t =>
    rw [run] at outcome
    exact (next a t (inv_steps inv outcome.1) outcome.2).after outcome.1

theorem sim_ite {c : Prop} [Decidable c] {m' : EStateM ε σ α}
    (yes : c → A.Sim P m Q) (no : ¬c → A.Sim P m' Q) : A.Sim P (if c then m else m') Q := by
  split
  · exact yes ‹_›
  · exact no ‹_›

theorem sim_exists {γ : Type} {P : γ → σ → Prop} (sim : ∀ c, A.Sim (P c) m Q) :
    A.Sim (fun s => ∃ c, P c s) m Q :=
  fun s inv ⟨c, pre⟩ => sim c s inv pre

/-- A pure fact in the precondition can be taken out of it. -/
theorem sim_of_pre {c : Prop} (pure : ∀ s, A.Inv (A.abs s) → P s → c) (sim : c → A.Sim P m Q) :
    A.Sim P m Q :=
  fun s inv pre => sim (pure s inv pre) s inv pre

theorem sim_forM {l : List β} {g : β → EStateM ε σ PUnit}
    (body : ∀ b ∈ l, A.Sim P (g b) fun _ => P) : A.Sim P (l.forM g) fun _ => P := by
  induction l with
  | nil => exact fun _ _ pre => ⟨.refl, pre⟩
  | cons b l ih =>
    refine (body b (by simp)).bind fun _ => ih fun b' member => body b' (by simp [member])

/-- What abstract steps keep is still true after the program. -/
theorem Sim.stable {K : τ → Prop} (keeps : ∀ {s t}, A.Inv s → A.Step s t → K s → K t)
    (sim : A.Sim P m Q) :
    A.Sim (fun s => P s ∧ K (A.abs s)) m (fun a s => Q a s ∧ K (A.abs s)) := by
  intro s inv pre
  have outcome := sim s inv pre.1
  cases run : m s with
  | error e t =>
    rw [run] at outcome
    exact outcome
  | ok a t =>
    rw [run] at outcome
    exact ⟨outcome.1, outcome.2, steps_keep keeps inv outcome.1 pre.2⟩

/-- Simulation by fewer steps is simulation by more. -/
theorem Sim.lift {B : Abstraction ε σ τ} (sim : A.Sim P m Q) (abs : ∀ s, A.abs s = B.abs s)
    (inv : ∀ t, B.Inv t → A.Inv t) (step : ∀ s t, A.Step s t → B.Step s t)
    (allowed : ∀ e, A.Allowed e → B.Allowed e) : B.Sim P m Q := by
  intro s inv' pre
  have outcome := sim s (by rw [abs]; exact inv _ inv') pre
  cases run : m s with
  | error e t =>
    rw [run] at outcome
    exact allowed e outcome
  | ok a t =>
    rw [run] at outcome
    refine ⟨?_, outcome.2⟩
    rw [← abs, ← abs]
    exact ReflTransGen.mono step _ _ outcome.1

theorem Silent.sim (silent : A.Silent m) (K : τ → Prop) :
    A.Sim (fun s => K (A.abs s)) m (fun _ s => K (A.abs s)) := by
  intro s _ pre
  have unseen := silent s
  cases run : m s with
  | error e t =>
    rw [run] at unseen
    exact unseen
  | ok a t =>
    rw [run] at unseen
    change A.abs t = A.abs s at unseen
    refine ⟨by rw [unseen], ?_⟩
    change K (A.abs t)
    rw [unseen]
    exact pre

theorem silent_pure {a : α} : A.Silent (pure a : EStateM ε σ α) := fun _ => rfl

theorem silent_get : A.Silent (get : EStateM ε σ σ) := fun _ => rfl

theorem silent_throw {e : ε} (allowed : A.Allowed e) : A.Silent (throw e : EStateM ε σ α) :=
  fun _ => allowed

theorem Silent.bind (first : A.Silent m) (next : ∀ a, A.Silent (f a)) : A.Silent (m >>= f) := by
  intro s
  have unseen := first s
  rw [bind_apply]
  cases run : m s with
  | error e t =>
    rw [run] at unseen
    exact unseen
  | ok a t =>
    rw [run] at unseen
    have rest := next a t
    change A.abs t = A.abs s at unseen
    rw [unseen] at rest
    exact rest

theorem silent_ite {c : Prop} [Decidable c] {m' : EStateM ε σ α}
    (yes : A.Silent m) (no : A.Silent m') : A.Silent (if c then m else m') := by
  split
  · exact yes
  · exact no

/-- A conditional action in front of the rest of a program. -/
theorem silent_joined {c : Prop} [Decidable c] {m : EStateM ε σ Unit} {rest : Unit → EStateM ε σ β}
    (action : A.Silent m) (next : ∀ r, A.Silent (rest r)) :
    A.Silent (if c then m >>= rest else rest ()) :=
  silent_ite (action.bind next) (next ())

theorem silent_mapM {γ : Type} {g : γ → EStateM ε σ β} (body : ∀ c, A.Silent (g c)) (l : List γ) :
    A.Silent (l.mapM g) := by
  induction l with
  | nil => exact silent_pure
  | cons c l ih =>
    rw [List.mapM_cons]
    exact (body c).bind fun _ => ih.bind fun _ => silent_pure

/-- Simulated from every state of the invariant. -/
def Safe (A : Abstraction ε σ τ) (m : EStateM ε σ α) : Prop :=
  A.Sim (fun _ => True) m (fun _ _ => True)

theorem Safe.sim (safe : A.Safe m) : A.Sim P m (fun _ _ => True) :=
  Sim.pre safe fun _ _ _ => trivial

theorem Safe.keep {K : τ → Prop} (keeps : ∀ {s t}, A.Inv s → A.Step s t → K s → K t)
    (safe : A.Safe m) : A.Sim (fun s => K (A.abs s)) m (fun _ s => K (A.abs s)) :=
  (safe.stable keeps).conseq (fun _ _ holds => ⟨trivial, holds⟩) fun _ _ _ holds => holds.2

theorem Sim.safe (sim : A.Sim P m Q) (pre : ∀ s, A.Inv (A.abs s) → P s) : A.Safe m :=
  sim.conseq (fun s inv _ => pre s inv) fun _ _ _ _ => trivial

theorem Silent.safe (silent : A.Silent m) : A.Safe m :=
  silent.sim fun _ => True

theorem Safe.bind (first : A.Safe m) (next : ∀ a, A.Safe (f a)) : A.Safe (m >>= f) :=
  Sim.bind first next

theorem Sim.bind_safe (first : A.Sim P m Q) (next : ∀ a, A.Safe (f a)) :
    A.Sim P (m >>= f) (fun _ _ => True) :=
  first.bind fun a => (next a).sim

theorem safe_pure {a : α} : A.Safe (pure a : EStateM ε σ α) := silent_pure.safe

theorem safe_mapM {γ : Type} {g : γ → EStateM ε σ β} (body : ∀ c, A.Safe (g c)) (l : List γ) :
    A.Safe (l.mapM g) := by
  induction l with
  | nil => exact safe_pure
  | cons c l ih =>
    rw [List.mapM_cons]
    exact (body c).bind fun _ => ih.bind fun _ => safe_pure

theorem safe_ite {c : Prop} [Decidable c] {m' : EStateM ε σ α}
    (yes : c → A.Safe m) (no : ¬c → A.Safe m') : A.Safe (if c then m else m') :=
  sim_ite yes no

theorem sim_joined {c : Prop} [Decidable c] {m : EStateM ε σ Unit} {rest : Unit → EStateM ε σ β}
    (action : c → A.Sim P m fun _ => P) (next : ∀ r, A.Sim P (rest r) R) :
    A.Sim P (if c then m >>= rest else rest ()) R :=
  sim_ite (fun holds => (action holds).bind next) fun _ => next ()

theorem safe_joined {c : Prop} [Decidable c] {m : EStateM ε σ Unit} {rest : Unit → EStateM ε σ β}
    (action : A.Safe m) (next : ∀ r, A.Safe (rest r)) :
    A.Safe (if c then m >>= rest else rest ()) :=
  sim_joined (fun _ => action) next

/-- A pure update that is one abstract step. -/
theorem sim_modify {g : σ → σ} {Q : PUnit → σ → Prop}
    (step : ∀ s, A.Inv (A.abs s) → P s → A.Step (A.abs s) (A.abs (g s)))
    (post : ∀ s, P s → Q ⟨⟩ (g s)) : A.Sim P (modify g : EStateM ε σ PUnit) Q :=
  fun s inv pre => ⟨.single (step s inv pre), post s pre⟩

end Abstraction

end Simulation
