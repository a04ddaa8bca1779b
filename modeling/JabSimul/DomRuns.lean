import JabSimul.DomCopy
import JabSimul.DomPrint

/-!
Runs of the library: any order of operations on nodes and pools that are there. Whatever
the order is, the store keeps the shape of one forest, and no operation stops.
-/
namespace JabSimul.Dom

open Pools SiblingList Fuel

inductive DomOp where
  | heapNew (size : Nat)
  | newTag (name : CString)
  | newTagPool (p : PoolPtr) (name : CString)
  | insertTag (parent : NodePtr) (name : CString)
  | insertCdata (parent : NodePtr) (bytes : CString)
  | putAttrib (owner : NodePtr) (name value : CString)
  | getData (node : NodePtr)
  | getTagData (parent : NodePtr) (name : CString)
  | toStr (node : NodePtr)
  | dup (x : NodePtr)
  | dupPool (p : PoolPtr) (x : NodePtr)
  | free (node : NodePtr)

def DomOp.run (s : Store) (fuel : Nat) : DomOp → Option Store
  | .heapNew size => some { s with mem := (poolHeapNew s.mem size).2 }
  | .newTag name => (xmlnodeNewTag s (some name)).map Prod.snd
  | .newTagPool p name => (xmlnodeNewTagPool s p (some name)).map Prod.snd
  | .insertTag parent name => (xmlnodeInsertTag s (some parent) (some name)).map Prod.snd
  | .insertCdata parent bytes => (xmlnodeInsertCdata s (some parent) (some bytes)).map Prod.snd
  | .putAttrib owner name value => xmlnodePutAttrib s (some owner) (some name) (some value)
  | .getData node => (xmlnodeGetData s (some node)).map Prod.snd
  | .getTagData parent name => (xmlnodeGetTagData s (some parent) name).map Prod.snd
  | .toStr node => (xmlnode2str fuel s (some node)).map Prod.snd
  | .dup x => (xmlnodeDup fuel s (some x)).map Prod.snd
  | .dupPool p x => (xmlnodeDupPool fuel s (some p) (some x)).map Prod.snd
  | .free node => xmlnodeFree s (some node)

def Store.typeOf (s : Store) (n : NodePtr) : Option NodeType := (s.nodes n).map Xmlnode.type

/-- The pointers of an operation are those of tags and pools that are there. -/
def DomOp.Legal (s : Store) : DomOp → Prop
  | .heapNew _ => True
  | .newTag _ => True
  | .newTagPool p _ => (s.mem.pools p).isSome = true
  | .insertTag parent _ => s.typeOf parent = some .tag
  | .insertCdata parent _ => s.typeOf parent = some .tag
  | .putAttrib owner _ _ => s.typeOf owner = some .tag
  | .getData node => s.typeOf node = some .tag
  | .getTagData parent _ => s.typeOf parent = some .tag
  | .toStr node => s.typeOf node = some .tag
  | .dup x => s.typeOf x = some .tag
  | .dupPool p x => (s.mem.pools p).isSome = true ∧ s.typeOf x = some .tag
  | .free node => (s.nodes node).isSome = true

def Store.poolOf (s : Store) (n : NodePtr) : Option PoolPtr := (s.nodes n).map Xmlnode.p

/-- The siblings from a node on, as the pointers have them. -/
def Store.chain (s : Store) : Nat → Option NodePtr → List NodePtr
  | _, none => []
  | 0, some _ => []
  | fuel + 1, some n => n :: s.chain fuel (s.nextOf n)

/-- The forest that is read off the pointers. -/
def Store.forest (s : Store) : Forest where
  label n := (s.nodes n).map Xmlnode.label
  kids n := s.chain s.next ((s.nodes n).bind Xmlnode.firstchild)
  attrs n := s.chain s.next ((s.nodes n).bind Xmlnode.firstattrib)
  next := s.next

def Store.tree (s : Store) (n : NodePtr) : XmlNode := s.forest.tree n

/-- An operation may read everything, but changes and frees nothing that lies in these pools. -/
def DomOp.Spares (s : Store) (P : PoolPtr → Prop) : DomOp → Prop
  | .insertTag parent _ => ∀ p, s.poolOf parent = some p → ¬ P p
  | .insertCdata parent _ => ∀ p, s.poolOf parent = some p → ¬ P p
  | .putAttrib owner _ _ => ∀ p, s.poolOf owner = some p → ¬ P p
  | .free node => ∀ p, s.poolOf node = some p → ¬ P p
  | _ => True

/-- The stores that some order of operations reaches. -/
inductive Store.Reachable : Store → Prop
  | initial : Store.initial.Reachable
  | step {s s' : Store} (before : s.Reachable) (op : DomOp) (legal : op.Legal s)
      (ran : Ends (op.run s · ) s') : s'.Reachable

section Views

variable {s : Store} {F G H : Forest} {P : PoolPtr → Prop} {n m k : NodePtr} {l : Label} {owner : Option NodePtr}

/-- What stays of the tags in some pools: their labels and trees. Only chunks of character
data may be joined. -/
structure Viewed (P : PoolPtr → Prop) (F G : Forest) : Prop where
  label : ∀ n l, F.label n = some l → l.type = .tag → P l.p → G.label n = some l
  tree : ∀ n l, F.label n = some l → l.type = .tag → P l.p → G.tree n = F.tree n
  fewer : ∀ n l, F.label n = some l → l.type = .tag → P l.p → (G.kids n).Sublist (F.kids n)

theorem Viewed.refl (P : PoolPtr → Prop) (F : Forest) : Viewed P F F :=
  ⟨fun _ _ here _ _ => here, fun _ _ _ _ _ => rfl, fun _ _ _ _ _ => .refl _⟩

theorem Viewed.trans (first : Viewed P F G) (second : Viewed P G H) : Viewed P F H where
  label n l here tag inside := second.label n l (first.label n l here tag inside) tag inside
  tree n l here tag inside :=
    (second.tree n l (first.label n l here tag inside) tag inside).trans (first.tree n l here tag inside)
  fewer n l here tag inside :=
    (second.fewer n l (first.label n l here tag inside) tag inside).trans (first.fewer n l here tag inside)

theorem type_of_label (here : F.label n = some l) : F.type n = some l.type := by
  unfold Forest.type
  rw [here]
  rfl

theorem Reread.viewed (read : Reread F G) (P : PoolPtr → Prop) : Viewed P F G := by
  constructor
  · intro n l here tag _
    rw [read.label n (by rw [type_of_label here, tag]; exact nofun), here]
  · exact fun n l here tag _ => read.tree n ((type_of_label here).trans (congrArg some tag))
  · exact fun n _ _ _ _ => read.fewer n

theorem Kept.viewed {t q : NodePtr} (kept : Kept F.next t q F G) (valid : F.Valid) (P : PoolPtr → Prop) :
    Viewed P F G := by
  constructor
  · intro n l here tag _
    rw [kept.label n (valid.lt_next here) (.inl (by rw [type_of_label here, tag]; exact nofun)), here]
  · exact fun n l here tag _ =>
      kept.tree n (valid.lt_next here) (.inl ((type_of_label here).trans (congrArg some tag)))
  · exact fun n _ here _ _ => kept.fewer n (valid.lt_next here)

/-- All that is below a node lies in its pool. -/
theorem Forest.Below.pool (below : F.Below m n) (valid : F.Valid) (here : F.label m = some l) :
    ∃ l', F.label n = some l' ∧ l'.p = l.p := by
  induction below with
  | refl => exact ⟨l, here, rfl⟩
  | tail _ member ih =>
    obtain ⟨l₁, old, pool₁⟩ := ih
    obtain ⟨lm, l', here', there, _, _, _, pool, _⟩ := valid.kid _ _ member
    rw [old] at here'
    obtain rfl := Option.some.inj here'
    exact ⟨l', there, pool.trans pool₁⟩

theorem not_below (valid : F.Valid) (here : F.label m = some l) {l' : Label} (there : F.label n = some l')
    (inside : P l.p) (outside : ¬ P l'.p) : ¬ F.Below m n := by
  intro below
  obtain ⟨l'', there', pool⟩ := below.pool valid here
  rw [there] at there'
  obtain rfl := Option.some.inj there'
  exact outside (pool ▸ inside)

/-- A node is put under one that lies in another pool, or under none. -/
theorem viewed_push (valid : F.Valid) (fits : F.Fits l none)
    (apart : ∀ m lm, l.parent = some m → F.label m = some lm → ¬ P lm.p) : Viewed P F (F.push l none) := by
  have other : ∀ n ln, F.label n = some ln → P ln.p → l.parent ≠ some n :=
    fun n ln here inside parent => apart n ln parent here inside
  constructor
  · intro n ln here _ _
    rw [push_label_old (valid.lt_next here), here]
  · intro n ln here _ inside
    apply tree_push valid fits (valid.lt_next here)
    rintro m (parent | owned)
    · obtain ⟨_, lm, there, _⟩ := fits.parent m parent
      exact not_below valid here there inside (apart m lm parent there)
    · cases owned
  · intro n ln here _ inside
    rw [show (F.push l none).kids n = F.kids n from if_neg (other n ln here inside)]

theorem viewed_child (valid : F.Valid) (fits : F.Fits l none) (parent : l.parent = some n) {ln : Label}
    (here : F.label n = some ln) (outside : ¬ P ln.p) : Viewed P F (F.push l none) := by
  apply viewed_push valid fits
  intro m lm above there
  rw [parent] at above
  obtain rfl := Option.some.inj above
  rw [here] at there
  obtain rfl := Option.some.inj there
  exact outside

theorem viewed_root (valid : F.Valid) (fits : F.Fits l none) (top : l.parent = none) : Viewed P F (F.push l none) := by
  apply viewed_push valid fits
  intro m lm above
  rw [top] at above
  cases above

theorem Attributed.viewed {o : NodePtr} {as : List (CString × CString)} (done : Attributed o F G as)
    (valid : F.Valid) (valid' : G.Valid) (here : F.label o = some l) (outside : ¬ P l.p) : Viewed P F G := by
  have kind : ∀ {n ln}, F.label n = some ln → ln.type = .tag → F.type n ≠ some .attrib := by
    intro n ln there tag
    rw [type_of_label there, tag]
    exact nofun
  constructor
  · intro n ln there tag _
    rw [done.other valid (kind there tag) (valid.lt_next there), there]
  · intro n ln there tag inside
    exact done.tree valid valid' (kind there tag) (valid.lt_next there) (not_below valid there here inside outside)
  · intro n ln _ _ _
    rw [done.kids]

theorem viewed_drop (valid : F.Valid) {p : PoolPtr} (outside : ¬ P p) : Viewed P F (F.drop p) := by
  have other : ∀ {l : Label}, P l.p → l.p ≠ p := by
    rintro l inside rfl
    exact outside inside
  constructor
  · exact fun n l here _ inside => drop_label.mpr ⟨here, other inside⟩
  · exact fun n l here _ inside => tree_drop valid here (other inside)
  · intro n l here _ _
    unfold Forest.drop
    dsimp only
    split
    · exact .refl _
    · exact List.nil_sublist _

end Views

section Steps

variable {s s' : Store} {F G : Forest} {n : NodePtr} {l : Label}

theorem Linked.typeOf (linked : Linked s F) (n : NodePtr) : F.type n = s.typeOf n := by
  unfold Forest.type Store.typeOf
  rw [linked.label, Option.map_map]
  rfl

theorem Forest.Complete.drop (complete : F.Complete) (p : PoolPtr) : (F.drop p).Complete :=
  fun n l here => complete n l (drop_label.mp here).1

/-- The empty forest. -/
def Forest.initial : Forest := ⟨fun _ => none, fun _ => [], fun _ => [], 0⟩

theorem initial_linked : Linked Store.initial Forest.initial ∧ Forest.initial.Complete := by
  have valid : Forest.initial.Valid := by
    constructor
    · exact fun _ _ => rfl
    · exact fun _ _ member => absurd member List.not_mem_nil
    · exact fun _ _ member => absurd member List.not_mem_nil
    · exact fun _ => List.nodup_nil
    · exact fun _ => List.nodup_nil
    · exact fun _ _ _ member => absurd member List.not_mem_nil
    · exact fun _ => List.nodup_nil
    · exact nofun
    · exact nofun
  have gone : ∀ {n x}, ¬ Store.initial.nodes n = some x := nofun
  refine ⟨?_, nofun⟩
  constructor
  · exact fun _ => rfl
  · rfl
  · exact fun _ _ here => absurd here gone
  · exact fun _ _ here => absurd here gone
  · exact fun _ _ here => absurd here gone
  · exact fun _ _ here => absurd here gone
  · exact fun _ => trivial
  · exact fun _ => trivial
  · exact fun _ _ here => absurd here gone
  · exact fun _ _ here => absurd here gone
  · exact fun _ _ here => absurd here gone
  · exact valid
  · exact .initial

/-- What an operation comes to: a store that is that of a forest again. -/
def Comes (s : Store) (F : Forest) (op : DomOp) (s' : Store) (G : Forest) : Prop :=
  Ends (op.run s · ) s' ∧ Linked s' G ∧ G.Complete ∧ ∀ P, op.Spares s P → Viewed P F G

theorem comes_of {op : DomOp} (ran : ∀ fuel, op.run s fuel = some s') (linked : Linked s' G)
    (complete : G.Complete) (viewed : ∀ P, op.Spares s P → Viewed P F G) : Comes s F op s' G :=
  ⟨⟨0, fun fuel _ => ran fuel⟩, linked, complete, viewed⟩

/-- A node is put under a tag. -/
theorem comes_push {op : DomOp} {x : Xmlnode} {r : Option NodePtr} (linked : Linked s F) (complete : F.Complete)
    (here : s.nodes n = some x) (type : x.type = .tag) (parent : l.parent = some n) (pool : l.p = x.p)
    (kind : l.type ≠ .attrib) (named : l.type ≠ .cdata → l.name.isSome = true)
    (given : l.type ≠ .tag → l.data.isSome = true)
    (spares : ∀ P, op.Spares s P → ∀ p, s.poolOf n = some p → ¬ P p)
    (ran : ∀ fuel, op.run s fuel = Option.map Prod.snd (some (r, s')))
    (linked' : Linked s' (F.push l none)) : Comes s F op s' (F.push l none) := by
  apply comes_of ran linked' (complete.push none given)
  intro P spared
  have fits : F.Fits l none := by
    refine ⟨named, fun m above => ?_, nofun⟩
    rw [parent] at above
    obtain rfl := Option.some.inj above
    exact ⟨kind, x.label, linked.label_of here, type, pool⟩
  apply viewed_child linked.valid fits parent (linked.label_of here)
  apply spares P spared x.p
  unfold Store.poolOf
  rw [here]
  rfl

/-- A tag without a parent is made. -/
theorem comes_root {op : DomOp} {p : PoolPtr} {name : CString} {r : Option NodePtr} (linked : Linked s F)
    (complete : F.Complete) (ran : ∀ fuel, op.run s fuel = Option.map Prod.snd (some (r, s')))
    (linked' : Linked s' (F.push ⟨.tag, some name, none, p, none⟩ none)) :
    Comes s F op s' (F.push ⟨.tag, some name, none, p, none⟩ none) := by
  apply comes_of ran linked' (complete.push none fun other => absurd rfl other)
  exact fun P _ => viewed_root linked.valid (isRoot_fits fun _ => rfl) rfl

theorem comes_read {op : DomOp} (ran : ∀ fuel, op.run s fuel = some s') (linked' : Linked s' G)
    (read : Reread F G) : Comes s F op s' G :=
  comes_of ran linked' read.complete fun P _ => read.viewed P

theorem comes_copy {op : DomOp} {t q r : NodePtr} {f : Nat → Option (Option NodePtr × Store)}
    (linked : Linked s F) (same : ∀ fuel, op.run s fuel = (f fuel).map Prod.snd)
    (ends : Ends f (some r, s')) (linked' : Linked s' G) (complete' : G.Complete) (kept : Kept F.next t q F G) :
    Comes s F op s' G := by
  refine ⟨?_, linked', complete', fun P _ => kept.viewed linked.valid P⟩
  obtain ⟨N, ends⟩ := ends
  refine ⟨N, fun fuel enough => ?_⟩
  exact (same fuel).trans (congrArg (Option.map Prod.snd) (ends fuel enough))

/-- Every operation on what is there comes to its end. -/
theorem DomOp.comes (linked : Linked s F) (complete : F.Complete) (op : DomOp) (legal : op.Legal s) :
    ∃ s' G, Comes s F op s' G := by
  have node : ∀ {n}, s.typeOf n = some .tag → ∃ x, s.nodes n = some x ∧ x.type = .tag :=
    fun given => Option.map_eq_some_iff.mp given
  cases op with
  | heapNew size =>
    refine ⟨_, F, comes_of (fun _ => rfl) (linked.grow ?_) complete fun P _ => .refl P F⟩
    exact (poolHeapNew_grown linked.reach size).1
  | newTag name =>
    obtain ⟨s', made, linked', _⟩ := xmlnodeNewTag_eq linked name
    exact ⟨s', _, comes_root linked complete (fun _ => congrArg (Option.map Prod.snd) made) linked'⟩
  | newTagPool p name =>
    obtain ⟨s', made, linked', _⟩ := xmlnodeNewTagPool_eq linked legal name
    exact ⟨s', _, comes_root linked complete (fun _ => congrArg (Option.map Prod.snd) made) linked'⟩
  | insertTag parent name =>
    obtain ⟨x, here, type⟩ := node legal
    obtain ⟨s', made, linked', _⟩ := xmlnodeInsertTag_eq linked here type name
    exact ⟨s', _, comes_push linked complete here type rfl rfl
      (nofun : NodeType.tag ≠ .attrib) (fun _ => rfl) (fun other => absurd rfl other)
      (fun _ spared => spared) (fun _ => congrArg (Option.map Prod.snd) made) linked'⟩
  | insertCdata parent bytes =>
    obtain ⟨x, here, type⟩ := node legal
    obtain ⟨s', made, linked', _⟩ := xmlnodeInsertCdata_eq linked here type bytes
    exact ⟨s', _, comes_push linked complete here type rfl rfl
      (nofun : NodeType.cdata ≠ .attrib) (fun other => absurd rfl other) (fun _ => rfl)
      (fun _ spared => spared) (fun _ => congrArg (Option.map Prod.snd) made) linked'⟩
  | putAttrib owner name value =>
    obtain ⟨x, here, type⟩ := node legal
    obtain ⟨s', made, linked', _⟩ := xmlnodePutAttrib_eq linked here type name value
    refine ⟨s', _, comes_of (fun _ => made) linked' (complete.putAttrib owner x.p name value) ?_⟩
    intro P spared
    apply (putAttrib_attributed linked.valid owner x.p name value).viewed linked.valid linked'.valid
      (linked.label_of here)
    apply spared x.p
    unfold Store.poolOf
    rw [here]
    rfl
  | getData n =>
    obtain ⟨x, here, type⟩ := node legal
    obtain ⟨s', G, made, linked', read, _⟩ := xmlnodeGetData_tag linked complete here type
    exact ⟨s', G, comes_read (fun _ => congrArg (Option.map Prod.snd) made) linked' read⟩
  | getTagData parent name =>
    obtain ⟨x, here, type⟩ := node legal
    obtain ⟨s', G, made, linked', read, _⟩ := xmlnodeGetTagData_eq linked complete here type name
    exact ⟨s', G, comes_read (fun _ => congrArg (Option.map Prod.snd) made) linked' read⟩
  | toStr n =>
    obtain ⟨text, s', G, _, ends, linked', read, _⟩ :=
      xmlnode2str_eq linked complete ((linked.typeOf n).trans legal)
    refine ⟨s', G, ?_, linked', read.complete, fun P _ => read.viewed P⟩
    obtain ⟨N, ends⟩ := ends
    refine ⟨N, fun fuel enough => ?_⟩
    exact congrArg (Option.map Prod.snd) (ends fuel enough)
  | dup x =>
    obtain ⟨s', G, ends, linked', complete', _, _, kept, _⟩ :=
      xmlnodeDup_eq linked complete ((linked.typeOf x).trans legal)
    exact ⟨s', G, comes_copy linked (fun _ => rfl) ends linked' complete' kept⟩
  | dupPool p x =>
    obtain ⟨s', G, ends, linked', complete', _, _, kept, _⟩ :=
      xmlnodeDupPool_eq linked complete legal.1 ((linked.typeOf x).trans legal.2)
    exact ⟨s', G, comes_copy linked (fun _ => rfl) ends linked' complete' kept⟩
  | free n =>
    obtain ⟨x, here⟩ := Option.isSome_iff_exists.mp legal
    obtain ⟨mem, made, linked', _⟩ := xmlnodeFree_eq linked here
    refine ⟨_, _, comes_of (fun _ => made) linked' (complete.drop x.p) ?_⟩
    intro P spared
    apply viewed_drop linked.valid
    apply spared x.p
    unfold Store.poolOf
    rw [here]
    rfl

theorem chain_eq {l : List NodePtr} {before : Option NodePtr} {fuel : Nat}
    (links : Links s.prevOf s.nextOf before l none) (enough : l.length ≤ fuel) : s.chain fuel l.head? = l := by
  induction l generalizing before fuel with
  | nil =>
    cases fuel with
    | zero => rfl
    | succ fuel => rfl
  | cons n l ih =>
    obtain ⟨fuel, rfl⟩ : ∃ f, fuel = f + 1 := ⟨fuel - 1, by rw [List.length_cons] at enough; omega⟩
    obtain ⟨_, next, rest⟩ := links
    rw [start_none] at next
    rw [List.head?_cons, Store.chain, next, ih rest (Nat.le_of_succ_le_succ enough)]

/-- The forest that the pointers of a store are those of can be read off them. -/
theorem Linked.forest (linked : Linked s F) : s.forest = F := by
  have kids : s.forest.kids = F.kids := by
    funext n
    change s.chain s.next ((s.nodes n).bind Xmlnode.firstchild) = F.kids n
    cases here : s.nodes n with
    | none =>
      have none : F.label n = none := by rw [linked.label, here]; rfl
      rw [linked.valid.kids_none none]
      cases s.next <;> rfl
    | some x =>
      rw [Option.bind_some, linked.firstchild n x here]
      exact chain_eq (linked.kids n) (linked.kids_length n)
  have attrs : s.forest.attrs = F.attrs := by
    funext n
    change s.chain s.next ((s.nodes n).bind Xmlnode.firstattrib) = F.attrs n
    cases here : s.nodes n with
    | none =>
      have none : F.label n = none := by rw [linked.label, here]; rfl
      rw [linked.valid.attrs_none none]
      cases s.next <;> rfl
    | some x =>
      rw [Option.bind_some, linked.firstattrib n x here]
      exact chain_eq (linked.attrs n) (linked.attrs_length n)
  have label : s.forest.label = F.label := funext fun n => (linked.label n).symm
  have next : s.forest.next = F.next := linked.next.symm
  calc s.forest = ⟨s.forest.label, s.forest.kids, s.forest.attrs, s.forest.next⟩ := rfl
    _ = ⟨F.label, F.kids, F.attrs, F.next⟩ := by rw [label, kids, attrs, next]
    _ = F := rfl

theorem Store.Reachable.linked (reachable : s.Reachable) : ∃ F, Linked s F ∧ F.Complete := by
  induction reachable with
  | initial => exact ⟨_, initial_linked⟩
  | step before op legal ran ih =>
    obtain ⟨F, linked, complete⟩ := ih
    obtain ⟨s', G, ends, linked', complete', _⟩ := op.comes linked complete legal
    obtain rfl := ran.unique ends
    exact ⟨G, linked', complete'⟩

end Steps

section Results

variable {s s' : Store} {F G : Forest} {P : PoolPtr → Prop} {n : NodePtr} {l : Label}

theorem Linked.tree_eq (linked : Linked s F) (n : NodePtr) : s.tree n = F.tree n := by
  rw [Store.tree, linked.forest]

theorem Store.Reachable.forest (reachable : s.Reachable) : Linked s s.forest ∧ s.forest.Complete := by
  obtain ⟨F, linked, complete⟩ := reachable.linked
  rw [linked.forest]
  exact ⟨linked, complete⟩

theorem Store.Reachable.steps (reachable : s.Reachable) (op : DomOp) (legal : op.Legal s) :
    ∃ s', Ends (op.run s · ) s' ∧ s'.Reachable := by
  obtain ⟨linked, complete⟩ := reachable.forest
  obtain ⟨s', G, ends, _⟩ := op.comes linked complete legal
  exact ⟨s', ends, .step reachable op legal ends⟩

/-- Whatever was done before: the pointers are those of a forest, nothing was read or written
behind its freeing, and everything that may be done next comes to its end. -/
theorem store_forest (reachable : s.Reachable) :
    Linked s s.forest ∧ s.mem.faults = [] ∧
      ∀ op : DomOp, op.Legal s → ∃ s', Ends (op.run s · ) s' ∧ s'.Reachable :=
  ⟨reachable.forest.1, reachable.forest.1.reach.sound.faults, reachable.steps⟩

/-- A tag with a text and another tag, which has an attribute. -/
theorem some_reachable : ∃ s : Store, s.Reachable ∧ s.next = 4 ∧
    s.tree 0 = .tag (cstr "a") [] [.cdata (cstr "x"), .tag (cstr "b") [(cstr "k", cstr "v")] []] ∧
    s.typeOf 0 = some .tag ∧ s.typeOf 2 = some .tag := by
  refine ⟨_, .step (.step (.step (.step .initial (.newTag (cstr "a")) trivial ⟨0, fun _ _ => rfl⟩)
    (.insertCdata 0 (cstr "x")) rfl ⟨0, fun _ _ => rfl⟩) (.insertTag 0 (cstr "b")) rfl ⟨0, fun _ _ => rfl⟩)
    (.putAttrib 2 (cstr "k") (cstr "v")) rfl ⟨0, fun _ _ => rfl⟩, rfl, rfl, rfl, rfl⟩

theorem store_forest_some : ∃ s : Store, s.next = 4 ∧ Linked s s.forest ∧ s.mem.faults = [] ∧
    ∀ op : DomOp, op.Legal s → ∃ s', Ends (op.run s · ) s' ∧ s'.Reachable := by
  obtain ⟨s, reachable, next, _⟩ := some_reachable
  exact ⟨s, next, store_forest reachable⟩

/-- A run that changes and frees nothing in some pools. -/
inductive Store.Runs (P : PoolPtr → Prop) (s : Store) : Store → Prop
  | refl : Runs P s s
  | step {s' s'' : Store} (before : Runs P s s') (op : DomOp) (legal : op.Legal s') (spares : op.Spares s' P)
      (ran : Ends (op.run s' · ) s'') : Runs P s s''

theorem Linked.runs (linked : Linked s F) (complete : F.Complete) (runs : s.Runs P s') :
    ∃ G, Linked s' G ∧ G.Complete ∧ Viewed P F G := by
  induction runs with
  | refl => exact ⟨F, linked, complete, .refl P F⟩
  | step before op legal spares ran ih =>
    obtain ⟨G, linked₁, complete₁, viewed₁⟩ := ih
    obtain ⟨s'', H, ends, linked₂, complete₂, viewed₂⟩ := op.comes linked₁ complete₁ legal
    obtain rfl := ran.unique ends
    exact ⟨H, linked₂, complete₂, viewed₁.trans (viewed₂ P spares)⟩

theorem Viewed.node (viewed : Viewed P F G) (linked : Linked s F) (linked' : Linked s' G) {p : PoolPtr}
    (tag : s.typeOf n = some .tag) (pool : s.poolOf n = some p) (inside : P p) :
    s'.typeOf n = some .tag ∧ s'.poolOf n = some p ∧ s'.tree n = s.tree n := by
  obtain ⟨x, here, type⟩ := Option.map_eq_some_iff.mp tag
  obtain ⟨x', here', rfl⟩ := Option.map_eq_some_iff.mp pool
  rw [here] at here'
  obtain rfl := Option.some.inj here'
  have label := viewed.label n x.label (linked.label_of here) type inside
  obtain ⟨y, there, same⟩ := linked'.node label
  refine ⟨?_, ?_, ?_⟩
  · unfold Store.typeOf
    rw [there]
    exact congrArg some ((congrArg Label.type same).trans type)
  · unfold Store.poolOf
    rw [there]
    exact congrArg some (congrArg Label.p same)
  · rw [linked'.tree_eq, linked.tree_eq]
    exact viewed.tree n x.label (linked.label_of here) type inside

/-- The trees in pools that a run spares are as they were, whatever it reads, prints and copies. -/
theorem runs_spare (reachable : s.Reachable) (runs : s.Runs P s') :
    ∀ n p, s.typeOf n = some .tag → s.poolOf n = some p → P p →
      s'.typeOf n = some .tag ∧ s'.poolOf n = some p ∧ s'.tree n = s.tree n := by
  intro n p tag pool inside
  obtain ⟨F, linked, complete⟩ := reachable.linked
  obtain ⟨G, linked', _, viewed⟩ := linked.runs complete runs
  exact viewed.node linked linked' tag pool inside

theorem runs_spare_some : ∃ s s' : Store, s'.next = s.next + 2 ∧ s.tree 0 = .tag (cstr "a") [] [] ∧
    s'.tree 0 = s.tree 0 := by
  refine ⟨_, _, ?_, ?_, (runs_spare (P := (· = 0))
    (.step .initial (.newTag (cstr "a")) trivial ⟨0, fun _ _ => rfl⟩)
    (.step (.step .refl (.newTag (cstr "b")) trivial trivial ⟨0, fun _ _ => rfl⟩)
      (.newTag (cstr "c")) trivial trivial ⟨0, fun _ _ => rfl⟩) 0 0 rfl rfl rfl).2.2⟩
  · rfl
  · rfl

/-- What the simulator reads of a tag is what the tree of the tag says, and reading changes no tree. -/
theorem reads_tree (reachable : s.Reachable) (tag : s.typeOf n = some .tag) :
    (∀ name, xmlnodeGetAttrib s (some n) name = some (JabSimul.xmlnodeGetAttrib (some (s.tree n)) name)) ∧
      (∀ name, ∃ r, xmlnodeGetTag s (some n) name = some r ∧
        JabSimul.xmlnodeGetTag (some (s.tree n)) name = r.map s.tree) ∧
      (∃ s', xmlnodeGetData s (some n) = some (JabSimul.xmlnodeGetData (some (s.tree n)), s') ∧
        ∀ m, s.typeOf m = some .tag → s'.tree m = s.tree m) ∧
      ∀ name, ∃ s', xmlnodeGetTagData s (some n) name =
          some (JabSimul.xmlnodeGetTagData (some (s.tree n)) name, s') ∧
        ∀ m, s.typeOf m = some .tag → s'.tree m = s.tree m := by
  obtain ⟨F, linked, complete⟩ := reachable.linked
  obtain ⟨x, here, type⟩ := Option.map_eq_some_iff.mp tag
  have trees : ∀ {s' G}, Linked s' G → Reread F G → ∀ m, s.typeOf m = some .tag → s'.tree m = s.tree m := by
    intro s' G linked' read m tag
    rw [linked'.tree_eq, linked.tree_eq]
    exact read.tree m ((linked.typeOf m).trans tag)
  simp only [linked.tree_eq n]
  refine ⟨xmlnodeGetAttrib_eq linked complete here type, ?_, ?_, ?_⟩
  · intro name
    obtain ⟨r, found, same, _⟩ := xmlnodeGetTag_eq linked here type name
    refine ⟨r, found, ?_⟩
    rw [same]
    exact congrArg (r.map ·) (funext linked.tree_eq).symm
  · obtain ⟨s', G, read, linked', reread, _⟩ := xmlnodeGetData_tag linked complete here type
    exact ⟨s', read, trees linked' reread⟩
  · intro name
    obtain ⟨s', G, read, linked', reread, _⟩ := xmlnodeGetTagData_eq linked complete here type name
    exact ⟨s', read, trees linked' reread⟩

theorem reads_tree_some : ∃ s : Store, s.next = 4 ∧ (xmlnodeGetData s (some 0)).map Prod.fst =
    some (some (cstr "x")) := by
  obtain ⟨s, reachable, next, tree, tag, _⟩ := some_reachable
  obtain ⟨_, _, ⟨s', read, _⟩, _⟩ := reads_tree reachable tag
  rw [tree] at read
  exact ⟨s, next, congrArg (Option.map Prod.fst) read⟩

/-- `xmlnode2str` comes to its end, with the text of the tree unless the tag has no children but
siblings behind it. -/
theorem prints_tree (reachable : s.Reachable) (tag : s.typeOf n = some .tag) :
    ∃ text s', Ends (xmlnode2str · s (some n)) (some text, s') ∧ s.forest.Prints n text ∧
      (s.forest.kids n ≠ [] → text = JabSimul.xmlnode2str (s.tree n)) ∧
      ∀ m, s.typeOf m = some .tag → s'.tree m = s.tree m := by
  obtain ⟨linked, complete⟩ := reachable.forest
  obtain ⟨text, s', G, prints, ends, linked', read, _⟩ :=
    xmlnode2str_eq linked complete ((linked.typeOf n).trans tag)
  refine ⟨text, s', ends, prints, prints.whole, fun m tag => ?_⟩
  rw [linked'.tree_eq, linked.tree_eq]
  exact read.tree m ((linked.typeOf m).trans tag)

theorem prints_tree_some : ∃ s s' : Store, s.next = 4 ∧
    Ends (xmlnode2str · s (some 0)) (some (cstr "<a>x<b k='v'/></a>"), s') := by
  obtain ⟨s, reachable, next, tree, tag, _⟩ := some_reachable
  obtain ⟨text, s', ends, _, whole, _⟩ := prints_tree reachable tag
  have linked := reachable.forest.1
  have filled : s.forest.kids 0 ≠ [] := by
    intro none
    have same := tree_tag linked.valid ((linked.typeOf 0).trans tag)
    rw [none] at same
    change s.tree 0 = _ at same
    rw [tree] at same
    cases congrArg XmlNode.children same
  rw [whole filled, tree] at ends
  exact ⟨s, s', next, ends⟩

/-- `xmlnode_dup` makes a tree of its own that is equal to the one it copies: all trees stay as they
were, and from then on a run that spares one of the two leaves it alone, whatever it does to the other. -/
theorem dup_tree (reachable : s.Reachable) (tag : s.typeOf n = some .tag) :
    ∃ s', Ends (xmlnodeDup · s (some n)) (some s.next, s') ∧ s.nodes s.next = none ∧
      s'.tree s.next = s.tree n ∧ (∀ m, s.typeOf m = some .tag → s'.tree m = s.tree m) ∧
      (∀ s'', s'.Runs (· ≠ s.mem.next) s'' → ∀ m, s.typeOf m = some .tag → s''.tree m = s.tree m) ∧
      ∀ s'', s'.Runs (· = s.mem.next) s'' → s''.tree s.next = s.tree n := by
  obtain ⟨F, linked, complete⟩ := reachable.linked
  obtain ⟨s', G, ends, linked', complete', tree, label, kept, _⟩ :=
    xmlnodeDup_eq linked complete ((linked.typeOf n).trans tag)
  have viewed := kept.viewed linked.valid fun _ => True
  have old : ∀ m, s.typeOf m = some .tag → ∃ l, F.label m = some l ∧ l.type = .tag ∧ l.p ≠ s.mem.next := by
    intro m tag
    obtain ⟨x, here, type⟩ := Option.map_eq_some_iff.mp tag
    refine ⟨x.label, linked.label_of here, type, ?_⟩
    intro same
    have alive := linked.alive m x here
    have none := (linked.reach.sound.fresh s.mem.next (Nat.le_refl _)).2
    rw [show x.p = s.mem.next from same, none] at alive
    cases alive
  refine ⟨s', ends, ?_, ?_, ?_, ?_, ?_⟩
  · cases here : s.nodes s.next with
    | none => rfl
    | some x => exact absurd (linked.lt_next here) (Nat.lt_irrefl _)
  · rw [linked'.tree_eq, linked.tree_eq, tree]
  · intro m tag
    obtain ⟨l, here, type, _⟩ := old m tag
    rw [linked'.tree_eq, linked.tree_eq, viewed.tree m l here type trivial]
  · intro s'' runs m tag
    obtain ⟨H, linked'', _, viewed'⟩ := linked'.runs complete' runs
    obtain ⟨l, here, type, other⟩ := old m tag
    have there := viewed.label m l here type trivial
    rw [linked''.tree_eq, linked.tree_eq, viewed'.tree m l there type other, viewed.tree m l here type trivial]
  · intro s'' runs
    obtain ⟨H, linked'', _, viewed'⟩ := linked'.runs complete' runs
    rw [linked''.tree_eq, linked.tree_eq, viewed'.tree s.next _ label rfl rfl, tree]

theorem dup_tree_some : ∃ s s' : Store, s.next = 4 ∧ Ends (xmlnodeDup · s (some 0)) (some 4, s') ∧
    s'.tree 4 = .tag (cstr "a") [] [.cdata (cstr "x"), .tag (cstr "b") [(cstr "k", cstr "v")] []] := by
  obtain ⟨s, reachable, next, tree, tag, _⟩ := some_reachable
  obtain ⟨s', ends, _, copy, _⟩ := dup_tree reachable tag
  rw [next] at ends copy
  exact ⟨s, s', next, ends, copy.trans tree⟩

/-- A tag with one child more. -/
def withKid : XmlNode → XmlNode → XmlNode
  | .tag name as cs, x => .tag name as (addKid cs x)
  | .cdata d, _ => .cdata d

theorem tree_push_kid (linked : Linked s F) (linked' : Linked s' (F.push l none)) (fits : F.Fits l none)
    (parent : l.parent = some n) (tag : F.type n = some .tag) :
    s'.tree n = withKid (s.tree n) ((F.push l none).tree F.next) ∧
      ∀ m, s.typeOf m = some .tag → ¬ F.Below m n → s'.tree m = s.tree m := by
  constructor
  · rw [linked'.tree_eq, linked.tree_eq, tree_push_parent linked.valid fits parent, joined_concat,
      tree_tag linked.valid tag]
    rfl
  · intro m tag apart
    rw [linked'.tree_eq, linked.tree_eq]
    exact tree_push_other linked.valid fits parent (linked.valid.type_lt ((linked.typeOf m).trans tag)) apart

/-- What the library puts into a tag is in the tree of the tag, last among the children or in the
place of the attribute. Only the trees above the tag change with it. -/
theorem builds_tree (reachable : s.Reachable) (tag : s.typeOf n = some .tag) :
    (∀ name, ∃ s', xmlnodeInsertTag s (some n) (some name) = some (some s.next, s') ∧
        s'.tree s.next = .tag name [] [] ∧ s'.tree n = withKid (s.tree n) (.tag name [] []) ∧
        ∀ m, s.typeOf m = some .tag → ¬ s.forest.Below m n → s'.tree m = s.tree m) ∧
      (∀ bytes, ∃ s', xmlnodeInsertCdata s (some n) (some bytes) = some (some s.next, s') ∧
        s'.tree n = withKid (s.tree n) (.cdata bytes) ∧
        ∀ m, s.typeOf m = some .tag → ¬ s.forest.Below m n → s'.tree m = s.tree m) ∧
      ∀ name value, ∃ s', xmlnodePutAttrib s (some n) (some name) (some value) = some s' ∧
        s'.tree n = JabSimul.xmlnodePutAttrib (s.tree n) name (some value) ∧
        ∀ m, s.typeOf m = some .tag → ¬ s.forest.Below m n → s'.tree m = s.tree m := by
  obtain ⟨linked, complete⟩ := reachable.forest
  have tagF : s.forest.type n = some .tag := (linked.typeOf n).trans tag
  obtain ⟨x, here, type⟩ := Option.map_eq_some_iff.mp tag
  refine ⟨fun name => ?_, fun bytes => ?_, fun name value => ?_⟩
  · obtain ⟨s', made, linked', _⟩ := xmlnodeInsertTag_eq linked here type name
    have fits : s.forest.Fits ⟨.tag, some name, none, x.p, some n⟩ none :=
      child_fits linked here type (nofun : NodeType.tag ≠ .attrib) fun _ => rfl
    have tree := tree_push_new linked.valid fits
    obtain ⟨self, others⟩ := tree_push_kid linked linked' fits rfl tagF
    rw [tree] at self
    exact ⟨s', made, (linked'.tree_eq _).trans tree, self, others⟩
  · obtain ⟨s', made, linked', _⟩ := xmlnodeInsertCdata_eq linked here type bytes
    have fits : s.forest.Fits ⟨.cdata, none, some bytes, x.p, some n⟩ none :=
      text_fits (linked.label_of here) type bytes
    obtain ⟨self, others⟩ := tree_push_kid linked linked' fits rfl tagF
    rw [tree_push_new linked.valid fits] at self
    exact ⟨s', made, self, others⟩
  · obtain ⟨s', made, linked', _⟩ := xmlnodePutAttrib_eq linked here type name value
    have done := putAttrib_attributed linked.valid n x.p name value
    refine ⟨s', made, ?_, fun m tag apart => ?_⟩
    · rw [linked'.tree_eq, linked.tree_eq, done.tree_self linked.valid linked'.valid tagF,
        tree_tag linked.valid tagF]
      rfl
    · have tagM := (linked.typeOf m).trans tag
      rw [linked'.tree_eq, linked.tree_eq]
      exact done.tree linked.valid linked'.valid (by rw [tagM]; exact nofun) (linked.valid.type_lt tagM) apart

theorem builds_tree_some : ∃ s s' : Store, s.next = 4 ∧ xmlnodeInsertCdata s (some 0) (some (cstr "y")) =
    some (some 4, s') ∧ s'.tree 0 =
      .tag (cstr "a") [] [.cdata (cstr "x"), .tag (cstr "b") [(cstr "k", cstr "v")] [], .cdata (cstr "y")] := by
  obtain ⟨s, reachable, next, tree, tag, _⟩ := some_reachable
  obtain ⟨_, texts, _⟩ := builds_tree reachable tag
  obtain ⟨s', made, built, _⟩ := texts (cstr "y")
  rw [next] at made
  rw [tree] at built
  exact ⟨s, s', next, made, built⟩

end Results

end JabSimul.Dom
