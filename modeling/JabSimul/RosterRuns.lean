import JabSimul.RosterAccounts
import JabSimul.ThreadMoves

/-!
The rosters along runs of the whole simulator: in every state they are sound tables
whose items are counted.
-/
namespace JabSimul

open Simulation Relation

/-- Programs that free no address. -/
def growing : Abstraction Stop World Nat where
  abs := World.nextPtr
  Step := fun n m => n ≤ m
  Inv := fun _ => True
  Allowed := fun _ => True
  inv_step := fun _ _ => trivial

theorem growing_create (name : Option CString) (exp : Bool) :
    growing.Safe (groupItemCreate name exp) :=
  fun _ _ _ => ⟨.single (Nat.le_succ _), trivial⟩

theorem growing_updPrivRost (u : UserPtr) (f : PrivRost → PrivRost) :
    growing.Silent (modify fun w => w.updPrivRost u f) := fun _ => rfl

theorem growing_privLoadContact (groups : List GroupItem) (cur : XmlNode) :
    growing.Safe (privLoadContact groups cur) :=
  fun _ _ _ => ⟨.single (Nat.le_succ _), trivial⟩

theorem growing_privLoadGroups (u : UserPtr) (gxml : Option XmlNode) :
    growing.Safe (privLoadGroups u gxml) := by
  unfold privLoadGroups
  apply (Abstraction.safe_mapM (fun _ => growing_create _ _) _).bind
  intro items
  apply Abstraction.safe_joined (growing_updPrivRost u _).safe
  intro _
  dsimp only
  split
  · exact (growing_create _ _).bind fun _ => (growing_updPrivRost u _).safe
  · exact (growing_create _ _).bind fun _ => (growing_updPrivRost u _).safe

theorem growing_privRosterFromXml (u : UserPtr) (xml : Option XmlNode) :
    growing.Safe (privRosterFromXml u xml) := by
  have got : growing.Silent (getUser u) := fun _ => rfl
  unfold privRosterFromXml
  apply got.safe.bind
  intro user
  apply Abstraction.safe_joined (growing_updPrivRost u _).safe
  intro _
  apply (growing_privLoadGroups u _).bind
  intro _
  have contacts : ∀ cxml, growing.Safe (privLoadContacts u cxml) := by
    intro cxml
    unfold privLoadContacts
    apply got.safe.bind
    intro user
    apply (Abstraction.safe_mapM (growing_privLoadContact _) _).bind
    intro items
    exact Abstraction.safe_ite (fun _ => (growing_updPrivRost u _).safe)
      fun _ => Abstraction.safe_pure
  apply (contacts _).bind
  intro _
  exact (growing_updPrivRost u _).safe

section Updates

variable {w w' : World} {u : UserPtr}

theorem SameTables.of_same (users : w'.users = w.users) (items : w'.rosterItems = w.rosterItems)
    (next : w.nextPtr ≤ w'.nextPtr) : SameTables w w' :=
  ⟨fun u => by rw [users], fun u => by rw [users], next, fun p _ => by rw [items],
    fun p _ => by rw [items]⟩

theorem SameTables.updUser {f : UserProperities → UserProperities}
    (hash : (f (w.users u)).rosterHash = (w.users u).rosterHash)
    (count : (f (w.users u)).rosterCount = (w.users u).rosterCount) :
    SameTables w (w.updUser u f) := by
  refine ⟨fun v => ?_, fun v => ?_, Nat.le_refl _, fun _ _ => rfl, fun _ _ => rfl⟩
  · by_cases own : v = u
    · subst own
      rw [updUser_users_self, hash]
    · rw [updUser_users_of_ne _ own]
  · by_cases own : v = u
    · subst own
      rw [updUser_users_self, count]
    · rw [updUser_users_of_ne _ own]

theorem SameTables.available (p : RosterPtr) (b : Bool) :
    SameTables w (w.updRosterItem p fun item => { item with available := b }) := by
  have cell : ∀ q, ((w.updRosterItem p fun item => { item with available := b }).rosterItems q).live =
      (w.rosterItems q).live ∧
      { ((w.updRosterItem p fun item => { item with available := b }).rosterItems q).item with
        available := false } = { (w.rosterItems q).item with available := false } := by
    intro q
    by_cases same : q = p
    · subst same
      simp [World.updRosterItem]
    · simp [World.updRosterItem, same]
  exact ⟨fun _ => rfl, fun _ => rfl, Nat.le_refl _, fun q _ => (cell q).1, fun q _ => (cell q).2⟩

theorem SameTables.privRoster {xml : Option XmlNode} (ran : privRosterFromXml u xml w = .ok ⟨⟩ w') :
    SameTables w w' := by
  have hidden := privRosterFromXml_unpriv ran
  have users : ∀ w : World, ∀ v, ((w.unpriv u).users v).rosterHash = (w.users v).rosterHash ∧
      ((w.unpriv u).users v).rosterCount = (w.users v).rosterCount := by
    intro w v
    by_cases own : v = u
    · subst own
      simp [World.unpriv, World.updPrivRost, World.updUser]
    · simp [World.unpriv, World.updPrivRost, World.updUser, own]
  have items : (w'.unpriv u).rosterItems = (w.unpriv u).rosterItems := by rw [hidden]
  have items : w'.rosterItems = w.rosterItems := items
  have next := growing_privRosterFromXml u xml w trivial trivial
  rw [ran] at next
  refine ⟨fun v => ?_, fun v => ?_, ?_, fun p _ => by rw [items], fun p _ => by rw [items]⟩
  · rw [← (users w' v).1, hidden, (users w v).1]
  · rw [← (users w' v).2, hidden, (users w v).2]
  · have grown := next.1
    exact Abstraction.steps_keep (A := growing) (K := fun n => w.nextPtr ≤ n)
      (fun _ step before => Nat.le_trans before step) trivial grown (Nat.le_refl _)

theorem Update.tables {k : Concern} (update : Update k w w') (tables : w.Tables) : w'.Tables := by
  cases update with
  | aside users items next _ =>
    exact ((SameTables.of_same users items (Nat.le_of_eq next.symm)).spec tables).1
  | user u f _ contacts _ =>
    exact ((SameTables.updUser (congrArg Contacts.rosterHash contacts)
      (congrArg Contacts.rosterCount contacts)).spec tables).1
  | mark _ u b => exact ((SameTables.updUser rfl rfl).spec tables).1
  | available p b => exact ((SameTables.available p b).spec tables).1
  | roster u xml delete => exact (rosterHashFromXml_tables xml tables delete).1
  | privRoster _ u xml ran => exact ((SameTables.privRoster ran).spec tables).1
  | rosterDelete u => exact (rosterHashDelete_spec tables).1
  | privDelete u _ => exact ((SameTables.updUser rfl rfl).spec tables).1

theorem World.Updated.tables {k : Concern} (done : w.Updated k w') (tables : w.Tables) : w'.Tables := by
  induction done with
  | refl => exact tables
  | tail _ update ih => exact update.tables ih

theorem Move.tables {k : Concern} (move : Move k w w') (tables : w.Tables) : w'.Tables := by
  by_cases other : k ≠ .timers
  · exact (move.updated other).tables tables
  · cases move with
    | sooner u f tm => exact ((SameTables.updUser rfl rfl).spec tables).1
    | queue u queue => exact ((SameTables.updUser rfl rfl).spec tables).1
    | _ => exact absurd (by simp) other

/-- The rosters are sound tables in every state of a run. -/
theorem Reachable.tables (reach : Reachable w) : w.Tables := by
  refine reach.invariant (K := World.Tables) (fun fresh => fresh.rosters.1.toTables)
    (fun {v} env tables => ?_) fun _ move tables => move.tables tables
  have same : SameTables v (v.withEnv env) := .of_same rfl rfl (Nat.le_refl _)
  exact (same.spec tables).1

end Updates

end JabSimul
