import JabSimul.DomForest
import JabSimul.PoolSafety
import JabSimul.Lib.SiblingList
import Mathlib.Data.Finset.Card
import Mathlib.Data.Finset.Range
import Mathlib.Data.List.Find

/-!
The pointers of a store are those of an ordered forest: the children and the
attributes of a node are doubly linked lists that the node has at both ends. Each
function of `xmlnode.c` that changes the store is an operation of the forest.
-/
namespace JabSimul.Dom

open Pools SiblingList

namespace Store

def prevOf (s : Store) (n : NodePtr) : Option NodePtr := (s.nodes n).bind Xmlnode.prev

def nextOf (s : Store) (n : NodePtr) : Option NodePtr := (s.nodes n).bind Xmlnode.next

end Store

/-- The pools that were there are there, with more memory taken. -/
structure Grown (m m' : Mem) : Prop where
  alive : ∀ p, (m.pools p).isSome = true → (m'.pools p).isSome = true
  reach : m'.Reachable

structure Linked (s : Store) (F : Forest) : Prop where
  label : ∀ n, F.label n = (s.nodes n).map Xmlnode.label
  next : F.next = s.next
  firstchild : ∀ n x, s.nodes n = some x → x.firstchild = (F.kids n).head?
  lastchild : ∀ n x, s.nodes n = some x → x.lastchild = (F.kids n).getLast?
  firstattrib : ∀ n x, s.nodes n = some x → x.firstattrib = (F.attrs n).head?
  lastattrib : ∀ n x, s.nodes n = some x → x.lastattrib = (F.attrs n).getLast?
  kids : ∀ n, Links s.prevOf s.nextOf none (F.kids n) none
  attrs : ∀ n, Links s.prevOf s.nextOf none (F.attrs n) none
  size : ∀ n x, s.nodes n = some x → x.dataSz = (x.data.getD []).length
  alive : ∀ n x, s.nodes n = some x → (s.mem.pools x.p).isSome = true
  top : ∀ n x, s.nodes n = some x → x.type = .tag → x.parent = none → x.next = none
  valid : F.Valid
  reach : s.mem.Reachable

section Memory

variable {s : Store} {F : Forest} {p : PoolPtr} {m m' m'' : Mem}

theorem Grown.trans (first : Grown m m') (second : Grown m' m'') : Grown m m'' :=
  ⟨fun p here => second.alive p (first.alive p here), second.reach⟩

theorem Grown.refl (reach : m.Reachable) : Grown m m := ⟨fun _ here => here, reach⟩

theorem Linked.grow (linked : Linked s F) (grown : Grown s.mem m) :
    Linked { s with mem := m } F where
  label := linked.label
  next := linked.next
  firstchild := linked.firstchild
  lastchild := linked.lastchild
  firstattrib := linked.firstattrib
  lastattrib := linked.lastattrib
  kids := linked.kids
  attrs := linked.attrs
  size := linked.size
  alive n x here := grown.alive x.p (linked.alive n x here)
  top := linked.top
  valid := linked.valid
  reach := grown.reach

theorem pmalloc_grown (reach : m.Reachable) (alive : (m.pools p).isSome = true) (size : Nat) :
    ∃ b m', Pools.pmalloc m p size = some (b, m') ∧ Grown m m' := by
  obtain ⟨pool, here⟩ := Option.isSome_iff_exists.mp alive
  have served := pmalloc_eq reach.sound here size
  have way := pmallocFrom_served reach.sound here size
  have step := reach.step (.malloc p size) alive
  rw [PoolOp.run, served] at step
  refine ⟨_, _, served, fun q there => ?_, step⟩
  change (Function.update (pmallocFrom m pool size).2.2.pools p _ q).isSome = true
  by_cases same : q = p
  · subst q
    rw [Function.update_self]
    rfl
  · rw [Function.update_of_ne same, way.blocks_eq.2.2]
    exact there

theorem Store.pmalloc_grown (reach : s.mem.Reachable) (alive : (s.mem.pools p).isSome = true)
    (size : Nat) : ∃ m, s.pmalloc p size = some { s with mem := m } ∧ Grown s.mem m := by
  obtain ⟨b, m, served, grown⟩ := Dom.pmalloc_grown reach alive size
  refine ⟨m, ?_, grown⟩
  rw [Store.pmalloc, served]
  rfl

theorem pstrdup_grown (reach : s.mem.Reachable) (alive : (s.mem.pools p).isSome = true)
    (src : Option CString) : ∃ m, pstrdup s p src = some { s with mem := m } ∧ Grown s.mem m := by
  cases src with
  | none => exact ⟨s.mem, rfl, .refl reach⟩
  | some src => exact Store.pmalloc_grown reach alive _

theorem poolHeapNew_grown (reach : m.Reachable) (size : Nat) :
    Grown m (poolHeapNew m size).2 ∧ ((poolHeapNew m size).2.pools (poolHeapNew m size).1).isSome = true := by
  refine ⟨⟨fun q there => ?_, reach.step (.newHeap size) trivial⟩, ?_⟩
  · change (Function.update m.pools m.next _ q).isSome = true
    by_cases same : q = m.next
    · subst q
      rw [Function.update_self]
      rfl
    · rw [Function.update_of_ne same]
      exact there
  · change (Function.update m.pools m.next _ m.next).isSome = true
    rw [Function.update_self]
    rfl

end Memory

section Nodes

variable {s : Store} {F : Forest} {n m k : NodePtr} {x : Xmlnode} {l : Label}

theorem Linked.node (linked : Linked s F) (here : F.label n = some l) :
    ∃ x, s.nodes n = some x ∧ x.label = l := by
  rw [linked.label] at here
  exact Option.map_eq_some_iff.mp here

theorem Linked.label_of (linked : Linked s F) (here : s.nodes n = some x) :
    F.label n = some x.label := by
  rw [linked.label, here]
  rfl

theorem Linked.lt_next (linked : Linked s F) (here : s.nodes n = some x) : n < s.next := by
  rw [← linked.next]
  exact linked.valid.lt_next (linked.label_of here)

theorem Linked.kid_node (linked : Linked s F) (member : k ∈ F.kids m) :
    ∃ y x, s.nodes m = some y ∧ s.nodes k = some x ∧ y.type = .tag ∧ x.type ≠ .attrib ∧
      x.parent = some m ∧ x.p = y.p := by
  obtain ⟨lm, l, here, there, tag, type, parent, pool, _⟩ := linked.valid.kid m k member
  obtain ⟨y, node_m, rfl⟩ := linked.node here
  obtain ⟨x, node_k, rfl⟩ := linked.node there
  exact ⟨y, x, node_m, node_k, tag, type, parent, pool⟩

theorem Linked.attr_node (linked : Linked s F) (member : k ∈ F.attrs m) :
    ∃ y x, s.nodes m = some y ∧ s.nodes k = some x ∧ y.type = .tag ∧ x.type = .attrib ∧
      x.p = y.p := by
  obtain ⟨lm, l, here, there, tag, type, pool, _⟩ := linked.valid.attr m k member
  obtain ⟨y, node_m, rfl⟩ := linked.node here
  obtain ⟨x, node_k, rfl⟩ := linked.node there
  exact ⟨y, x, node_m, node_k, tag, type, pool⟩

theorem Linked.kid_parent (linked : Linked s F) (member : k ∈ F.kids m) (member' : k ∈ F.kids n) :
    m = n := by
  obtain ⟨_, x, _, here, _, _, parent, _⟩ := linked.kid_node member
  obtain ⟨_, x', _, here', _, _, parent', _⟩ := linked.kid_node member'
  rw [here] at here'
  obtain rfl := Option.some.inj here'
  rw [parent] at parent'
  exact Option.some.inj parent'

theorem Linked.kid_not_attr (linked : Linked s F) (member : k ∈ F.kids m) : k ∉ F.attrs n := by
  intro member'
  obtain ⟨_, x, _, here, _, type, _⟩ := linked.kid_node member
  obtain ⟨_, x', _, here', _, type', _⟩ := linked.attr_node member'
  rw [here] at here'
  obtain rfl := Option.some.inj here'
  exact type type'

end Nodes

section Growth

variable {s : Store} {F : Forest} {l : Label} {owner last : Option NodePtr} {mem : Mem}

/-- The node behind which a new one comes. -/
def Forest.lastOf (F : Forest) (l : Label) (owner : Option NodePtr) : Option NodePtr :=
  (l.parent.bind fun m => (F.kids m).getLast?).or (owner.bind fun m => (F.attrs m).getLast?)

/-- The store in which a new node is linked behind `last`. -/
def Store.push (s : Store) (l : Label) (owner last : Option NodePtr) (mem : Mem) : Store where
  nodes n :=
    if n = s.next then
      some ⟨l.name, l.type, none, 0, l.p, l.parent, none, none, last, none, none, none⟩
    else (s.nodes n).map fun x => { x with
      firstchild := if l.parent = some n then x.firstchild.or (some s.next) else x.firstchild
      lastchild := if l.parent = some n then some s.next else x.lastchild
      next := if last = some n then some s.next else x.next
      firstattrib := if owner = some n then x.firstattrib.or (some s.next) else x.firstattrib
      lastattrib := if owner = some n then some s.next else x.lastattrib }
  next := s.next + 1
  mem := mem

theorem last_mem (fits : F.Fits l owner) {y : NodePtr} (here : F.lastOf l owner = some y) :
    (∃ m, l.parent = some m ∧ (F.kids m).getLast? = some y ∧ owner = none) ∨
    (∃ m, owner = some m ∧ (F.attrs m).getLast? = some y ∧ l.parent = none) := by
  unfold Forest.lastOf at here
  cases parent : l.parent with
  | some m =>
    left
    have none : owner = none := by
      cases owned : owner with
      | none => rfl
      | some o => exact absurd (fits.owner o owned).1 (fits.parent m parent).1
    rw [parent, none] at here
    refine ⟨m, rfl, ?_, none⟩
    simpa using here
  | none =>
    right
    rw [parent] at here
    cases owned : owner with
    | none =>
      rw [owned] at here
      cases here
    | some o =>
      rw [owned] at here
      exact ⟨o, rfl, here, rfl⟩

theorem push_new : (s.push l owner last mem).nodes s.next =
    some ⟨l.name, l.type, none, 0, l.p, l.parent, none, none, last, none, none, none⟩ := if_pos rfl

/-- An old node with the pointers that a new node behind `last` changes. -/
def Xmlnode.tied (x : Xmlnode) (n new : NodePtr) (l : Label) (owner last : Option NodePtr) : Xmlnode :=
  { x with
    firstchild := if l.parent = some n then x.firstchild.or (some new) else x.firstchild
    lastchild := if l.parent = some n then some new else x.lastchild
    next := if last = some n then some new else x.next
    firstattrib := if owner = some n then x.firstattrib.or (some new) else x.firstattrib
    lastattrib := if owner = some n then some new else x.lastattrib }

theorem push_old {n : NodePtr} (old : n ≠ s.next) : (s.push l owner last mem).nodes n =
    (s.nodes n).map fun x => x.tied n s.next l owner last := if_neg old

theorem push_prevOf {n : NodePtr} (old : n ≠ s.next) :
    (s.push l owner last mem).prevOf n = s.prevOf n := by
  unfold Store.prevOf
  rw [push_old old]
  cases s.nodes n with
  | none => rfl
  | some x => rfl

theorem push_nextOf {n : NodePtr} (old : n ≠ s.next) (other : last ≠ some n) :
    (s.push l owner last mem).nextOf n = s.nextOf n := by
  unfold Store.nextOf
  rw [push_old old]
  cases s.nodes n with
  | none => rfl
  | some x => exact if_neg other

theorem push_nextOf_last {n : NodePtr} {x : Xmlnode} (old : n ≠ s.next) (here : s.nodes n = some x)
    (same : last = some n) : (s.push l owner last mem).nextOf n = some s.next := by
  unfold Store.nextOf
  rw [push_old old, here]
  exact if_pos same

theorem head?_concat (l : List NodePtr) (x : NodePtr) : (l ++ [x]).head? = l.head?.or (some x) := by
  cases l with
  | nil => rfl
  | cons y l => rfl

theorem mem_of_last {l : List NodePtr} {y : NodePtr} (here : l.getLast? = some y) : y ∈ l :=
  List.mem_of_getLast? here

/-- Among the children of a node only the last one can get a new neighbour, and only if the
new node is a child, too. -/
theorem Linked.push_kids (linked : Linked s F) (fits : F.Fits l owner) (n : NodePtr) :
    Links (s.push l owner (F.lastOf l owner) mem).prevOf (s.push l owner (F.lastOf l owner) mem).nextOf
      none ((F.push l owner).kids n) none := by
  have old : ∀ y ∈ F.kids n, y ≠ s.next := by
    rintro y member rfl
    have low := linked.valid.kid_lt_next member
    rw [linked.next] at low
    exact Nat.lt_irrefl _ low
  change Links _ _ none (if l.parent = some n then F.kids n ++ [F.next] else F.kids n) none
  rw [linked.next]
  by_cases parent : l.parent = some n
  · rw [if_pos parent]
    have none : owner = none := by
      cases owned : owner with
      | none => rfl
      | some o => exact absurd (fits.owner o owned).1 (fits.parent n parent).1
    have ends : F.lastOf l owner = (F.kids n).getLast? := by
      unfold Forest.lastOf
      rw [parent, none]
      exact Option.or_none
    apply (linked.kids n).snoc
    · exact fun y member => push_prevOf (old y member)
    · intro y member other
      exact push_nextOf (old y member) (ends ▸ Ne.symm other)
    · exact linked.valid.kids_nodup n
    · intro y last
      obtain ⟨_, x, _, here, _⟩ := linked.kid_node (mem_of_last last)
      exact push_nextOf_last (old y (mem_of_last last)) here (ends.trans last)
    · unfold Store.prevOf
      rw [push_new, ends]
      exact Option.or_none.symm
    · unfold Store.nextOf
      rw [push_new]
      rfl
  · rw [if_neg parent]
    apply (linked.kids n).congr
    · exact fun y member => push_prevOf (old y member)
    · intro y member
      apply push_nextOf (old y member)
      intro last
      rcases last_mem fits last with ⟨m, parent', ends, _⟩ | ⟨m, _, ends, _⟩
      · rw [linked.kid_parent (mem_of_last ends) member] at parent'
        exact parent parent'
      · exact linked.kid_not_attr member (mem_of_last ends)

theorem Linked.push_attrs (linked : Linked s F) (fits : F.Fits l owner) (n : NodePtr) :
    Links (s.push l owner (F.lastOf l owner) mem).prevOf (s.push l owner (F.lastOf l owner) mem).nextOf
      none ((F.push l owner).attrs n) none := by
  have old : ∀ y ∈ F.attrs n, y ≠ s.next := by
    rintro y member rfl
    have low := linked.valid.attr_lt_next member
    rw [linked.next] at low
    exact Nat.lt_irrefl _ low
  change Links _ _ none (if owner = some n then F.attrs n ++ [F.next] else F.attrs n) none
  rw [linked.next]
  by_cases owned : owner = some n
  · rw [if_pos owned]
    have none : l.parent = none := by
      cases parent : l.parent with
      | none => rfl
      | some m => exact absurd (fits.owner n owned).1 (fits.parent m parent).1
    have ends : F.lastOf l owner = (F.attrs n).getLast? := by
      unfold Forest.lastOf
      rw [none, owned]
      rfl
    apply (linked.attrs n).snoc
    · exact fun y member => push_prevOf (old y member)
    · intro y member other
      exact push_nextOf (old y member) (ends ▸ Ne.symm other)
    · exact linked.valid.attrs_nodup n
    · intro y last
      obtain ⟨_, x, _, here, _⟩ := linked.attr_node (mem_of_last last)
      exact push_nextOf_last (old y (mem_of_last last)) here (ends.trans last)
    · unfold Store.prevOf
      rw [push_new, ends]
      exact Option.or_none.symm
    · unfold Store.nextOf
      rw [push_new]
      rfl
  · rw [if_neg owned]
    apply (linked.attrs n).congr
    · exact fun y member => push_prevOf (old y member)
    · intro y member
      apply push_nextOf (old y member)
      intro last
      rcases last_mem fits last with ⟨m, _, ends, _⟩ | ⟨m, owned', ends, _⟩
      · exact linked.kid_not_attr (mem_of_last ends) member
      · rw [linked.valid.attr_owner m n y (mem_of_last ends) member] at owned'
        exact owned owned'

section Push

variable (linked : Linked s F)
include linked

theorem Linked.fresh_node : s.nodes s.next = none := by
  cases here : s.nodes s.next with
  | none => rfl
  | some x => exact absurd (linked.lt_next here) (Nat.lt_irrefl _)

theorem Linked.fresh_label : F.label s.next = none := by
  rw [linked.label, linked.fresh_node]
  rfl

omit linked in
/-- A node is the new one, or an old one that was tied to it. -/
theorem push_cases {n : NodePtr} {x : Xmlnode}
    (here : (s.push l owner (F.lastOf l owner) mem).nodes n = some x) :
    (n = s.next ∧ x = ⟨l.name, l.type, none, 0, l.p, l.parent, none, none, F.lastOf l owner, none, none, none⟩) ∨
    (n ≠ s.next ∧ ∃ x₀, s.nodes n = some x₀ ∧ x = x₀.tied n s.next l owner (F.lastOf l owner)) := by
  by_cases new : n = s.next
  · subst n
    rw [push_new] at here
    exact .inl ⟨rfl, (Option.some.inj here).symm⟩
  · rw [push_old new] at here
    obtain ⟨x₀, old, rfl⟩ := Option.map_eq_some_iff.mp here
    exact .inr ⟨new, x₀, old, rfl⟩

theorem Linked.push_no_kids (fits : F.Fits l owner) : (F.push l owner).kids s.next = [] := by
  change (if l.parent = some s.next then _ else F.kids s.next) = []
  rw [if_neg, linked.valid.kids_none linked.fresh_label]
  intro parent
  obtain ⟨_, lm, here, _⟩ := fits.parent s.next parent
  rw [linked.fresh_label] at here
  cases here

theorem Linked.push_no_attrs (fits : F.Fits l owner) : (F.push l owner).attrs s.next = [] := by
  change (if owner = some s.next then _ else F.attrs s.next) = []
  rw [if_neg, linked.valid.attrs_none linked.fresh_label]
  intro owned
  obtain ⟨_, ⟨lm, here, _⟩, _⟩ := fits.owner s.next owned
  rw [linked.fresh_label] at here
  cases here

theorem Linked.push_label (empty : l.data = none) (n : NodePtr) : (F.push l owner).label n =
    ((s.push l owner (F.lastOf l owner) mem).nodes n).map Xmlnode.label := by
  by_cases new : n = s.next
  · subst n
    rw [push_new]
    change Function.update F.label F.next (some l) s.next = _
    rw [linked.next, Function.update_self]
    change some l = some ⟨l.type, l.name, none, l.p, l.parent⟩
    rw [← empty]
  · rw [push_old new]
    change Function.update F.label F.next (some l) n = _
    rw [linked.next, Function.update_of_ne new, linked.label n]
    cases s.nodes n with
    | none => rfl
    | some x => rfl

/-- A tag without a parent is not the last sibling of the new node. -/
theorem Linked.last_ne_top (fits : F.Fits l owner) {n : NodePtr} {x : Xmlnode}
    (here : s.nodes n = some x) (type : x.type = .tag) (parent : x.parent = none) :
    F.lastOf l owner ≠ some n := by
  intro last
  rcases last_mem fits last with ⟨m, _, ends, _⟩ | ⟨m, _, ends, _⟩
  · obtain ⟨_, y, _, there, _, _, parent', _⟩ := linked.kid_node (mem_of_last ends)
    rw [here] at there
    obtain rfl := Option.some.inj there
    rw [parent] at parent'
    cases parent'
  · obtain ⟨_, y, _, there, _, type', _⟩ := linked.attr_node (mem_of_last ends)
    rw [here] at there
    obtain rfl := Option.some.inj there
    rw [type] at type'
    cases type'

/-- A new node that is linked where it fits keeps everything linked. -/
theorem Linked.push (fits : F.Fits l owner) (empty : l.data = none)
    (grown : Grown s.mem mem) (alive : (mem.pools l.p).isSome = true) :
    Linked (s.push l owner (F.lastOf l owner) mem) (F.push l owner) := by
  have no_kids := linked.push_no_kids fits
  have no_attrs := linked.push_no_attrs fits
  constructor
  · exact linked.push_label empty
  · change F.next + 1 = s.next + 1
    rw [linked.next]
  · intro n x here
    rcases push_cases here with ⟨rfl, rfl⟩ | ⟨old, x₀, here₀, rfl⟩
    · rw [no_kids]
      rfl
    · change (if l.parent = some n then x₀.firstchild.or (some s.next) else x₀.firstchild) =
        (if l.parent = some n then F.kids n ++ [F.next] else F.kids n).head?
      rw [linked.firstchild n x₀ here₀, linked.next]
      split
      · exact (head?_concat _ _).symm
      · rfl
  · intro n x here
    rcases push_cases here with ⟨rfl, rfl⟩ | ⟨old, x₀, here₀, rfl⟩
    · rw [no_kids]
      rfl
    · change (if l.parent = some n then some s.next else x₀.lastchild) =
        (if l.parent = some n then F.kids n ++ [F.next] else F.kids n).getLast?
      rw [linked.lastchild n x₀ here₀, linked.next]
      split
      · exact List.getLast?_concat.symm
      · rfl
  · intro n x here
    rcases push_cases here with ⟨rfl, rfl⟩ | ⟨old, x₀, here₀, rfl⟩
    · rw [no_attrs]
      rfl
    · change (if owner = some n then x₀.firstattrib.or (some s.next) else x₀.firstattrib) =
        (if owner = some n then F.attrs n ++ [F.next] else F.attrs n).head?
      rw [linked.firstattrib n x₀ here₀, linked.next]
      split
      · exact (head?_concat _ _).symm
      · rfl
  · intro n x here
    rcases push_cases here with ⟨rfl, rfl⟩ | ⟨old, x₀, here₀, rfl⟩
    · rw [no_attrs]
      rfl
    · change (if owner = some n then some s.next else x₀.lastattrib) =
        (if owner = some n then F.attrs n ++ [F.next] else F.attrs n).getLast?
      rw [linked.lastattrib n x₀ here₀, linked.next]
      split
      · exact List.getLast?_concat.symm
      · rfl
  · exact linked.push_kids fits
  · exact linked.push_attrs fits
  · intro n x here
    rcases push_cases here with ⟨rfl, rfl⟩ | ⟨old, x₀, here₀, rfl⟩
    · rfl
    · exact linked.size n x₀ here₀
  · intro n x here
    rcases push_cases here with ⟨rfl, rfl⟩ | ⟨old, x₀, here₀, rfl⟩
    · exact alive
    · exact grown.alive x₀.p (linked.alive n x₀ here₀)
  · intro n x here type parent
    rcases push_cases here with ⟨rfl, rfl⟩ | ⟨old, x₀, here₀, rfl⟩
    · rfl
    · change (if F.lastOf l owner = some n then some s.next else x₀.next) = none
      rw [if_neg (linked.last_ne_top fits here₀ type parent)]
      exact linked.top n x₀ here₀ type parent
  · exact linked.valid.push fits
  · exact grown.reach

end Push

end Growth

section Builders

variable {s : Store} {F : Forest} {m n : NodePtr} {x y : Xmlnode} {name : Option CString}
  {type : NodeType} {p : PoolPtr}

theorem write_eq (here : s.nodes n = some x) (f : Xmlnode → Xmlnode) :
    s.write (some n) f = some { s with nodes := Function.update s.nodes n (some (f x)) } := by
  unfold Store.write
  rw [Option.bind_some, here]
  rfl

theorem write_at {node : Option NodePtr} (same : node = some n) (here : s.nodes n = some x)
    (f : Xmlnode → Xmlnode) :
    s.write node f = some { s with nodes := Function.update s.nodes n (some (f x)) } :=
  same ▸ write_eq here f

theorem tied_none (x : Xmlnode) (n new : NodePtr) {l : Label} (parent : l.parent = none) :
    x.tied n new l none none = x := by
  unfold Xmlnode.tied
  rw [parent]
  simp

/-- The label that `_xmlnode_new` gives. -/
def newLabel (p : PoolPtr) (name : Option CString) (type : NodeType) (parent : Option NodePtr) : Label :=
  ⟨type, if type = .cdata then none else name, none, p, parent⟩

theorem push_update (l : Label) (parent : l.parent = none) (mem : Mem) :
    s.push l none none mem = { s with
      nodes := Function.update s.nodes s.next
        (some ⟨l.name, l.type, none, 0, l.p, none, none, none, none, none, none, none⟩)
      next := s.next + 1
      mem := mem } := by
  have nodes : (s.push l none none mem).nodes = Function.update s.nodes s.next
      (some ⟨l.name, l.type, none, 0, l.p, none, none, none, none, none, none, none⟩) := by
    funext n
    by_cases new : n = s.next
    · subst n
      rw [push_new, Function.update_self, parent]
    · rw [push_old new, Function.update_of_ne new]
      cases s.nodes n with
      | none => rfl
      | some x => exact congrArg some (tied_none x n s.next parent)
  rw [← nodes]
  rfl

theorem xmlnodeNew_eq (reach : s.mem.Reachable) (alive : (s.mem.pools p).isSome = true)
    (named : type ≠ .cdata → name.isSome = true) :
    ∃ mem, xmlnodeNew s (some p) name type =
      some (some s.next, s.push (newLabel p name type none) none none mem) ∧ Grown s.mem mem := by
  obtain ⟨mem₁, first, grown₁⟩ := Store.pmalloc_grown (s := s) reach alive sizeofXmlnode
  obtain ⟨mem₂, second, grown₂⟩ := pstrdup_grown (s := { s with mem := mem₁ }) grown₁.reach
    (grown₁.alive p alive) (if type = .cdata then none else name)
  refine ⟨mem₂, ?_, grown₁.trans grown₂⟩
  have given : ¬ (type ≠ .cdata ∧ name = none) := by
    rintro ⟨other, none⟩
    have some_ := named other
    rw [none] at some_
    cases some_
  rw [xmlnodeNew, if_neg given, push_update _ rfl]
  dsimp only
  rw [first]
  simp only [Option.bind_eq_bind, Option.bind_some, second]
  rfl

/-- A node with a pool of its own. -/
theorem xmlnodeNew_heap_eq (reach : s.mem.Reachable) (named : name.isSome = true) :
    ∃ mem, xmlnodeNew s none name .tag =
      some (some s.next, s.push (newLabel s.mem.next name .tag none) none none mem) ∧
      Grown s.mem mem ∧ (mem.pools s.mem.next).isSome = true := by
  obtain ⟨grown, alive⟩ := poolHeapNew_grown reach (1 * 1024)
  have always : NodeType.tag ≠ .cdata → name.isSome = true := fun _ => named
  obtain ⟨mem, made, more⟩ := xmlnodeNew_eq (s := { s with mem := (poolHeapNew s.mem (1 * 1024)).2 })
    grown.reach alive always
  have given : ¬ (NodeType.tag ≠ .cdata ∧ name = none) := by
    rintro ⟨_, none⟩
    rw [none] at named
    cases named
  have same : xmlnodeNew s none name .tag =
      xmlnodeNew { s with mem := (poolHeapNew s.mem (1 * 1024)).2 } (some (poolHeapNew s.mem (1 * 1024)).1)
        name .tag := by
    rw [xmlnodeNew, xmlnodeNew, if_neg given, if_neg given]
  exact ⟨mem, same.trans made, grown.trans more, more.alive _ alive⟩

theorem isRoot_fits (named : type ≠ .cdata → name.isSome = true) :
    F.Fits (newLabel p name type none) none := by
  constructor
  · intro other
    have other : type ≠ .cdata := other
    change (if type = .cdata then none else name).isSome = true
    rw [if_neg other]
    exact named other
  · intro m parent
    cases parent
  · intro m owned
    cases owned

/-- The two pointers between a new node and the sibling in front of it. -/
theorem push_behind (old : m ≠ s.next) (here : s.nodes m = some y) {l : Label}
    (parent : l.parent = none) (mem : Mem) :
    Function.update (Function.update (s.push l none none mem).nodes s.next
        (some ⟨l.name, l.type, none, 0, l.p, l.parent, none, none, some m, none, none, none⟩)) m
        (some { y with next := some s.next }) =
      (s.push l none (some m) mem).nodes := by
  funext n
  by_cases same : n = m
  · subst n
    rw [Function.update_self, push_old old, here]
    unfold Xmlnode.tied
    rw [parent]
    simp
  · rw [Function.update_of_ne same]
    by_cases new : n = s.next
    · subst n
      rw [Function.update_self, push_new]
    · rw [Function.update_of_ne new, push_old new, push_old new]
      unfold Xmlnode.tied
      rw [parent]
      simp [Ne.symm same]

/-- A new node behind a sibling. -/
theorem appendSibling_eq (reach : s.mem.Reachable) (old : m < s.next) (here : s.nodes m = some y)
    (alive : (s.mem.pools y.p).isSome = true) (named : type ≠ .cdata → name.isSome = true) :
    ∃ mem, appendSibling s (some m) name type =
      some (some s.next, s.push (newLabel y.p name type none) none (some m) mem) ∧
      Grown s.mem mem := by
  obtain ⟨mem, made, grown⟩ := xmlnodeNew_eq reach alive named
  refine ⟨mem, ?_, grown⟩
  have other : m ≠ s.next := Nat.ne_of_lt old
  have pool : xmlnodePool s (some m) = some (some y.p) := by
    unfold xmlnodePool Store.get
    dsimp only
    rw [here]
    rfl
  have there : (s.push (newLabel y.p name type none) none none mem).nodes m = some y := by
    rw [push_old other, here]
    exact congrArg some (tied_none y m s.next rfl)
  rw [appendSibling, pool]
  simp only [Option.bind_eq_bind, Option.bind_some]
  rw [made]
  simp only [Option.bind_some, Option.isSome_some, if_true]
  rw [write_eq push_new]
  simp only [Option.bind_some]
  rw [write_eq ((Function.update_of_ne other _ _).trans there)]
  simp only [Option.bind_some]
  rw [push_behind other here rfl]
  rfl

/-- What `_xmlnode_insert` writes for a new node behind `last`, a child of the parent. -/
theorem push_child (old : m ≠ s.next) (here : s.nodes m = some y) (l : Label) (parent : l.parent = none)
    {last first : Option NodePtr} (other : last ≠ some m) (mem : Mem)
    (front : y.firstchild.or (some s.next) = first) :
    Function.update (Function.update (s.push l none last mem).nodes s.next
        (some ⟨l.name, l.type, none, 0, l.p, some m, none, none, last, none, none, none⟩)) m
        (some { y with firstchild := first, lastchild := some s.next }) =
      (s.push { l with parent := some m } none last mem).nodes := by
  funext n
  by_cases same : n = m
  · subst n
    rw [Function.update_self, push_old old, here, ← front]
    unfold Xmlnode.tied
    simp [other]
  · rw [Function.update_of_ne same]
    by_cases new : n = s.next
    · subst n
      rw [Function.update_self, push_new]
    · rw [Function.update_of_ne new, push_old new, push_old new]
      unfold Xmlnode.tied
      rw [parent]
      simp [Ne.symm same]

theorem push_apart (old : m ≠ s.next) (here : s.nodes m = some y) {l : Label} (parent : l.parent = none)
    {last : Option NodePtr} (other : last ≠ some m) (mem : Mem) :
    (s.push l none last mem).nodes m = some y := by
  rw [push_old old, here]
  unfold Xmlnode.tied
  rw [parent]
  simp [other]

theorem child_fits (linked : Linked s F) (here : s.nodes m = some y) (tag : y.type = .tag)
    (kind : type ≠ .attrib) (named : type ≠ .cdata → name.isSome = true) :
    F.Fits (newLabel y.p name type (some m)) none := by
  constructor
  · exact (isRoot_fits (F := F) (p := y.p) named).named
  · intro m' parent
    obtain rfl := Option.some.inj parent
    exact ⟨kind, y.label, linked.label_of here, tag, rfl⟩
  · intro m' owned
    cases owned

/-- `_xmlnode_insert` makes a child, the last one. -/
theorem xmlnodeInsert_eq (linked : Linked s F) (here : s.nodes m = some y)
    (named : type ≠ .cdata → name.isSome = true) :
    ∃ mem, xmlnodeInsert s (some m) name type = some (some s.next,
        s.push (newLabel y.p name type (some m)) none
          (F.lastOf (newLabel y.p name type (some m)) none) mem) ∧
      Grown s.mem mem := by
  have low := linked.lt_next here
  have old : m ≠ s.next := Nat.ne_of_lt low
  have alive := linked.alive m y here
  have given : ¬ (type ≠ .cdata ∧ name = none) := by
    rintro ⟨other, none⟩
    have some_ := named other
    rw [none] at some_
    cases some_
  have ends : F.lastOf (newLabel y.p name type (some m)) none = (F.kids m).getLast? := Option.or_none
  have first := linked.firstchild m y here
  have last := linked.lastchild m y here
  rw [ends, xmlnodeInsert]
  dsimp only
  rw [if_neg given, here]
  simp only [Option.bind_eq_bind, Option.bind_some]
  rcases List.eq_nil_or_concat (F.kids m) with empty | ⟨front, k, kids⟩
  · obtain ⟨mem, made, grown⟩ := xmlnodeNew_eq linked.reach alive named
    refine ⟨mem, ?_, grown⟩
    rw [empty, List.head?_nil] at first
    have apart : (none : Option NodePtr) ≠ some m := nofun
    rw [empty, List.getLast?_nil, if_pos first, insertFirst, made]
    simp only [Option.bind_eq_bind, Option.bind_some]
    rw [write_eq (push_apart old here rfl apart mem)]
    simp only [Option.bind_some]
    rw [write_eq ((Function.update_of_ne (Ne.symm old) _ _).trans push_new)]
    simp only [Option.bind_some]
    rw [write_eq ((Function.update_of_ne old _ _).trans (Function.update_self _ _ _))]
    simp only [Option.bind_some]
    rw [Function.update_comm old, Function.update_idem]
    have nodes := push_child old here (newLabel y.p name type none) rfl apart mem
      (congrArg (Option.or · (some s.next)) first)
    exact congrArg (fun nodes => some (some s.next, Store.mk nodes (s.next + 1) mem)) nodes
  · rw [List.concat_eq_append] at kids
    have member : k ∈ F.kids m := by
      rw [kids]
      exact List.mem_append_right _ (List.mem_singleton.mpr rfl)
    have tail : (F.kids m).getLast? = some k := by
      rw [kids]
      exact List.getLast?_concat
    obtain ⟨z, x, there, there', _, _, _, pool⟩ := linked.kid_node member
    rw [here] at there
    obtain rfl := Option.some.inj there
    have later := linked.valid.kid_lt member
    have apart : some k ≠ some m := fun same => Nat.ne_of_gt later (Option.some.inj same)
    obtain ⟨mem, made, grown⟩ := appendSibling_eq linked.reach (linked.lt_next there') there'
      (linked.alive k x there') named
    rw [pool] at made
    refine ⟨mem, ?_, grown⟩
    have some_ : y.firstchild ≠ none := by
      rw [first, kids]
      cases front with
      | nil => exact nofun
      | cons z front => exact nofun
    rw [if_neg some_, last, tail, made]
    simp only [Option.bind_some]
    rw [write_eq push_new]
    simp only [Option.bind_some]
    rw [write_eq ((Function.update_of_ne old _ _).trans (push_apart old here rfl apart mem))]
    simp only [Option.bind_some]
    have front_ : y.firstchild.or (some s.next) = y.firstchild := by
      cases given : y.firstchild with
      | none => exact absurd given some_
      | some z => rfl
    have nodes := push_child old here (newLabel y.p name type none) rfl apart mem front_
    exact congrArg (fun nodes => some (some s.next, Store.mk nodes (s.next + 1) mem)) nodes

end Builders

section Data

variable {s : Store} {F : Forest} {m n k : NodePtr} {x : Xmlnode}

/-- The text of a node is written. -/
theorem Linked.setData (linked : Linked s F) (here : s.nodes n = some x) (d : CString) :
    Linked { s with
      nodes := Function.update s.nodes n (some { x with data := some d, dataSz := d.length }) }
      (F.setData n d) := by
  have nodes : ∀ k y, Function.update s.nodes n (some { x with data := some d, dataSz := d.length }) k = some y →
      ∃ y₀, s.nodes k = some y₀ ∧ (y = y₀ ∨ y = { y₀ with data := some d, dataSz := d.length }) := by
    intro k y there
    by_cases same : k = n
    · subst k
      rw [Function.update_self] at there
      exact ⟨x, here, .inr (Option.some.inj there).symm⟩
    · rw [Function.update_of_ne same] at there
      exact ⟨y, there, .inl rfl⟩
  have fields : ∀ {α : Type} (f : Xmlnode → Option α) (k : NodePtr),
      (∀ y, f { y with data := some d, dataSz := d.length } = f y) →
      (Function.update s.nodes n (some { x with data := some d, dataSz := d.length }) k).bind f =
        (s.nodes k).bind f := by
    intro α f k same_field
    by_cases same : k = n
    · subst k
      rw [Function.update_self, here]
      exact same_field x
    · rw [Function.update_of_ne same]
  constructor
  · intro k
    change Function.update F.label n _ k = (Function.update s.nodes n _ k).map Xmlnode.label
    by_cases same : k = n
    · subst k
      rw [Function.update_self, Function.update_self, linked.label, here]
      rfl
    · rw [Function.update_of_ne same, Function.update_of_ne same]
      exact linked.label k
  · exact linked.next
  · intro k y there
    obtain ⟨y₀, old, rfl | rfl⟩ := nodes k y there
    · exact linked.firstchild k y old
    · exact linked.firstchild k y₀ old
  · intro k y there
    obtain ⟨y₀, old, rfl | rfl⟩ := nodes k y there
    · exact linked.lastchild k y old
    · exact linked.lastchild k y₀ old
  · intro k y there
    obtain ⟨y₀, old, rfl | rfl⟩ := nodes k y there
    · exact linked.firstattrib k y old
    · exact linked.firstattrib k y₀ old
  · intro k y there
    obtain ⟨y₀, old, rfl | rfl⟩ := nodes k y there
    · exact linked.lastattrib k y old
    · exact linked.lastattrib k y₀ old
  · intro m
    apply (linked.kids m).congr
    · exact fun k _ => fields Xmlnode.prev k fun _ => rfl
    · exact fun k _ => fields Xmlnode.next k fun _ => rfl
  · intro m
    apply (linked.attrs m).congr
    · exact fun k _ => fields Xmlnode.prev k fun _ => rfl
    · exact fun k _ => fields Xmlnode.next k fun _ => rfl
  · intro k y there
    obtain ⟨y₀, old, rfl | rfl⟩ := nodes k y there
    · exact linked.size k y old
    · rfl
  · intro k y there
    obtain ⟨y₀, old, rfl | rfl⟩ := nodes k y there
    · exact linked.alive k y old
    · exact linked.alive k y₀ old
  · intro k y there
    obtain ⟨y₀, old, rfl | rfl⟩ := nodes k y there
    · exact linked.top k y old
    · exact linked.top k y₀ old
  · exact linked.valid.setData n d
  · exact linked.reach

theorem setData_push {l : Label} {owner : Option NodePtr} (d : CString) :
    (F.push l owner).setData F.next d = F.push { l with data := some d } owner := by
  unfold Forest.setData Forest.push
  dsimp only
  rw [Function.update_self, Function.update_idem]
  rfl

/-- A chunk of character data becomes the last child. -/
theorem xmlnodeInsertCdata_eq (linked : Linked s F) (here : s.nodes m = some x) (tag : x.type = .tag)
    (bytes : CString) : ∃ s', xmlnodeInsertCdata s (some m) (some bytes) = some (some s.next, s') ∧
      Linked s' (F.push ⟨.cdata, none, some bytes, x.p, some m⟩ none) ∧ Grown s.mem s'.mem := by
  have named : NodeType.cdata ≠ .cdata → (none : Option CString).isSome = true := fun other => absurd rfl other
  obtain ⟨s₁, made, grown, linked', new⟩ : ∃ s₁,
      xmlnodeInsert s (some m) none .cdata = some (some s.next, s₁) ∧ Grown s.mem s₁.mem ∧
      Linked s₁ (F.push ⟨.cdata, none, none, x.p, some m⟩ none) ∧
      s₁.nodes s.next = some ⟨none, .cdata, none, 0, x.p, some m, none, none,
        F.lastOf ⟨.cdata, none, none, x.p, some m⟩ none, none, none, none⟩ := by
    obtain ⟨mem, made, grown⟩ := xmlnodeInsert_eq linked here named
    have fits := child_fits linked here tag (nofun : NodeType.cdata ≠ .attrib) named
    have alive := grown.alive x.p (linked.alive m x here)
    exact ⟨_, made, grown, linked.push fits rfl grown alive, push_new⟩
  have alive := grown.alive x.p (linked.alive m x here)
  obtain ⟨mem', taken, grown'⟩ := Store.pmalloc_grown linked'.reach alive (bytes.length + 1)
  have written := (linked'.grow grown').setData new bytes
  rw [← linked.next, setData_push] at written
  refine ⟨_, ?_, written, grown.trans grown'⟩
  unfold xmlnodeInsertCdata
  dsimp only
  rw [made]
  simp only [Option.bind_eq_bind, Option.bind_some]
  rw [new]
  simp only [Option.bind_some]
  rw [taken]
  simp only [Option.bind_some]
  rw [write_eq (s := { s₁ with mem := mem' }) new, linked.next]
  rfl

theorem xmlnodeInsertTag_eq (linked : Linked s F) (here : s.nodes m = some x) (tag : x.type = .tag)
    (name : CString) : ∃ s', xmlnodeInsertTag s (some m) (some name) = some (some s.next, s') ∧
      Linked s' (F.push ⟨.tag, some name, none, x.p, some m⟩ none) ∧ Grown s.mem s'.mem := by
  have named : NodeType.tag ≠ .cdata → (some name).isSome = true := fun _ => rfl
  obtain ⟨mem, made, grown⟩ := xmlnodeInsert_eq linked here named
  have fits := child_fits linked here tag (nofun : NodeType.tag ≠ .attrib) named
  exact ⟨_, made, linked.push fits rfl grown (grown.alive x.p (linked.alive m x here)), grown⟩

/-- A tag of its own in a pool that is there. -/
theorem xmlnodeNewTagPool_eq (linked : Linked s F) {p : PoolPtr} (alive : (s.mem.pools p).isSome = true)
    (name : CString) : ∃ s', xmlnodeNewTagPool s p (some name) = some (some s.next, s') ∧
      Linked s' (F.push ⟨.tag, some name, none, p, none⟩ none) ∧ Grown s.mem s'.mem := by
  have named : NodeType.tag ≠ .cdata → (some name).isSome = true := fun _ => rfl
  obtain ⟨mem, made, grown⟩ := xmlnodeNew_eq linked.reach alive named
  exact ⟨_, made, linked.push (isRoot_fits named) rfl grown (grown.alive p alive), grown⟩

theorem xmlnodeNewTag_eq (linked : Linked s F) (name : CString) :
    ∃ s', xmlnodeNewTag s (some name) = some (some s.next, s') ∧
      Linked s' (F.push ⟨.tag, some name, none, s.mem.next, none⟩ none) ∧ Grown s.mem s'.mem := by
  have named : NodeType.tag ≠ .cdata → (some name).isSome = true := fun _ => rfl
  obtain ⟨mem, made, grown, alive⟩ := xmlnodeNew_heap_eq (s := s) linked.reach (rfl : (some name).isSome = true)
  exact ⟨_, made, linked.push (isRoot_fits named) rfl grown alive, grown⟩

end Data

section Readers

variable {s : Store} {F : Forest} {m n k : NodePtr} {x : Xmlnode}

/-- Siblings are as few as there are nodes. -/
theorem length_le_next {l : List NodePtr} {b : Nat} (nodup : l.Nodup) (low : ∀ k ∈ l, k < b) :
    l.length ≤ b := by
  rw [← List.toFinset_card_of_nodup nodup, ← Finset.card_range b]
  apply Finset.card_le_card
  intro k member
  exact Finset.mem_range.mpr (low k (List.mem_toFinset.mp member))

/-- A loop over siblings ends at the first one that passes the test. -/
theorem walk_eq {test : Xmlnode → Bool} {l : List NodePtr} {before : Option NodePtr} {fuel : Nat}
    (links : Links s.prevOf s.nextOf before l none) (live : ∀ k ∈ l, (s.nodes k).isSome = true)
    (enough : l.length ≤ fuel) :
    s.walk test fuel l.head? = some (l.find? fun k => (s.nodes k).any test) := by
  induction l generalizing before fuel with
  | nil => rw [List.head?_nil, Store.walk, List.find?_nil]
  | cons k l ih =>
    obtain ⟨fuel, rfl⟩ : ∃ f, fuel = f + 1 := ⟨fuel - 1, by rw [List.length_cons] at enough; omega⟩
    obtain ⟨x, here⟩ := Option.isSome_iff_exists.mp (live k List.mem_cons_self)
    obtain ⟨_, next, rest⟩ := links
    unfold Store.nextOf at next
    rw [here, start_none] at next
    have next : x.next = l.head? := next
    rw [List.head?_cons, Store.walk, here]
    simp only [Option.bind_eq_bind, Option.bind_some]
    have any : (s.nodes k).any test = test x := by rw [here]; rfl
    by_cases pass : test x = true
    · rw [if_pos pass, List.find?_cons_of_pos (p := fun k => (s.nodes k).any test) (any.trans pass)]
    · have fail : ¬ (s.nodes k).any test = true := by rwa [any]
      rw [if_neg pass, List.find?_cons_of_neg (p := fun k => (s.nodes k).any test) fail, next]
      apply ih rest
      · exact fun y member => live y (List.mem_cons_of_mem _ member)
      · rw [List.length_cons] at enough
        omega

theorem Linked.kids_live (linked : Linked s F) (n : NodePtr) : ∀ k ∈ F.kids n, (s.nodes k).isSome = true := by
  intro k member
  obtain ⟨_, x, _, here, _⟩ := linked.kid_node member
  exact Option.isSome_iff_exists.mpr ⟨x, here⟩

theorem Linked.attrs_live (linked : Linked s F) (n : NodePtr) : ∀ k ∈ F.attrs n, (s.nodes k).isSome = true := by
  intro k member
  obtain ⟨_, x, _, here, _⟩ := linked.attr_node member
  exact Option.isSome_iff_exists.mpr ⟨x, here⟩

theorem Linked.kids_length (linked : Linked s F) (n : NodePtr) : (F.kids n).length ≤ s.next := by
  rw [← linked.next]
  exact length_le_next (linked.valid.kids_nodup n) fun k member => linked.valid.kid_lt_next member

theorem Linked.attrs_length (linked : Linked s F) (n : NodePtr) : (F.attrs n).length ≤ s.next := by
  rw [← linked.next]
  exact length_le_next (linked.valid.attrs_nodup n) fun k member => linked.valid.attr_lt_next member

/-- A getter of a node that is there. -/
theorem get_eq {α : Type} (here : s.nodes n = some x) (f : Xmlnode → Option α) :
    s.get (some n) f = some (f x) := by
  unfold Store.get
  dsimp only
  rw [here]
  rfl

theorem name_eq (linked : Linked s F) (here : s.nodes n = some x) (named : x.name.isSome = true) :
    x.name = some (F.name n) := by
  obtain ⟨name, given⟩ := Option.isSome_iff_exists.mp named
  have label : (some x.label).bind Label.name = some name := given
  unfold Forest.name
  rw [linked.label_of here, label, given]
  rfl

theorem jStrcmp_some (a b : CString) : jStrcmp (some a) (some b) = 0 ↔ a = b := by
  rw [jStrcmp_eq_zero_iff]
  constructor
  · rintro ⟨c, left, right⟩
    exact (Option.some.inj left).trans (Option.some.inj right).symm
  · rintro rfl
    exact ⟨a, rfl, rfl⟩

/-- Where an attribute with a name is. -/
def Forest.findAttr (F : Forest) (o : NodePtr) (name : CString) : Option NodePtr :=
  (F.attrs o).find? fun a => F.name a = name

theorem xmlnodeSearch_attr (linked : Linked s F) (o : NodePtr) (name : CString) :
    xmlnodeSearch s (F.attrs o).head? (some name) .attrib = some (F.findAttr o name) := by
  rw [xmlnodeSearch, walk_eq (linked.attrs o) (linked.attrs_live o) (linked.attrs_length o)]
  unfold Forest.findAttr
  congr 1
  apply List.find?_congr
  intro a member
  obtain ⟨_, x, _, here, _, type, _⟩ := linked.attr_node member
  have named := linked.valid.named a x.label (linked.label_of here) (by
    change x.type ≠ .cdata
    rw [type]
    exact nofun)
  have given := name_eq linked here named
  rw [here, Option.any_some, given]
  simp [type, jStrcmp_some]

theorem xmlnodeSearch_tag (linked : Linked s F) (m : NodePtr) (name : CString) :
    xmlnodeSearch s (F.kids m).head? (some name) .tag =
      some ((F.kids m).find? fun k => F.type k = some .tag ∧ F.name k = name) := by
  rw [xmlnodeSearch, walk_eq (linked.kids m) (linked.kids_live m) (linked.kids_length m)]
  congr 1
  apply List.find?_congr
  intro k member
  obtain ⟨_, x, _, here, _⟩ := linked.kid_node member
  have type : F.type k = some x.type := by
    unfold Forest.type
    rw [linked.label_of here]
    rfl
  rw [here, Option.any_some, type]
  by_cases tag : x.type = .tag
  · have named := linked.valid.named k x.label (linked.label_of here) (by
      change x.type ≠ .cdata
      rw [tag]
      exact nofun)
    rw [name_eq linked here named]
    simp [tag, jStrcmp_some]
  · simp [tag]

end Readers

section Attributes

variable {s : Store} {F : Forest} {o : NodePtr} {x : Xmlnode}

/-- What `xmlnode_put_attrib` writes into the owner of a new attribute. -/
theorem push_owner (old : o ≠ s.next) (here : s.nodes o = some x) (l : Label)
    {last first : Option NodePtr} (other : last ≠ some o) (mem : Mem) (parent : l.parent = none)
    (front : x.firstattrib.or (some s.next) = first) :
    Function.update (s.push l none last mem).nodes o
        (some { x with firstattrib := first, lastattrib := some s.next }) =
      (s.push l (some o) last mem).nodes := by
  funext n
  by_cases same : n = o
  · subst n
    rw [Function.update_self, push_old old, here, ← front]
    unfold Xmlnode.tied
    rw [parent]
    simp [other]
  · rw [Function.update_of_ne same]
    by_cases new : n = s.next
    · subst n
      rw [push_new, push_new]
    · rw [push_old new, push_old new]
      unfold Xmlnode.tied
      simp [Ne.symm same]

theorem attr_fits (linked : Linked s F) (here : s.nodes o = some x) (tag : x.type = .tag) {name : CString}
    (absent : F.findAttr o name = none) :
    F.Fits (newLabel x.p (some name) .attrib none) (some o) := by
  constructor
  · exact fun _ => rfl
  · intro m parent
    cases parent
  · intro m owned
    obtain rfl := Option.some.inj owned
    refine ⟨rfl, ⟨x.label, linked.label_of here, tag, rfl⟩, ?_⟩
    intro member
    obtain ⟨a, inside, same⟩ := List.mem_map.mp member
    have differs := List.find?_eq_none.mp absent a inside
    exact differs (decide_eq_true same)

/-- The node that `xmlnode_put_attrib` writes: the attribute with the name, or a new one. -/
theorem putAttribNode_eq (linked : Linked s F) (here : s.nodes o = some x) (tag : x.type = .tag)
    (name : CString) :
    (∃ a, F.findAttr o name = some a ∧ putAttribNode s o x name = some (some a, s)) ∨
    (F.findAttr o name = none ∧ ∃ s', putAttribNode s o x name = some (some s.next, s') ∧
      Linked s' (F.push (newLabel x.p (some name) .attrib none) (some o)) ∧
      s'.nodes s.next = some ⟨some name, .attrib, none, 0, x.p, none, none, none,
        F.lastOf (newLabel x.p (some name) .attrib none) (some o), none, none, none⟩ ∧
      Grown s.mem s'.mem) := by
  have low := linked.lt_next here
  have old : o ≠ s.next := Nat.ne_of_lt low
  have alive := linked.alive o x here
  have named : NodeType.attrib ≠ .cdata → (some name).isSome = true := fun _ => rfl
  have first := linked.firstattrib o x here
  have last := linked.lastattrib o x here
  have ends : F.lastOf (newLabel x.p (some name) .attrib none) (some o) = (F.attrs o).getLast? := rfl
  have finish : ∀ {s' : Store} {mem : Mem}, Grown s.mem mem →
      putAttribNode s o x name = some (some s.next, s') → F.findAttr o name = none →
      s' = s.push (newLabel x.p (some name) .attrib none) (some o) (F.attrs o).getLast? mem →
      F.findAttr o name = none ∧ ∃ s', putAttribNode s o x name = some (some s.next, s') ∧
        Linked s' (F.push (newLabel x.p (some name) .attrib none) (some o)) ∧
        s'.nodes s.next = some ⟨some name, .attrib, none, 0, x.p, none, none, none,
          F.lastOf (newLabel x.p (some name) .attrib none) (some o), none, none, none⟩ ∧
        Grown s.mem s'.mem := by
    rintro s' mem grown made absent rfl
    have fits := attr_fits linked here tag absent
    exact ⟨absent, _, made, linked.push fits rfl grown (grown.alive x.p alive), push_new, grown⟩
  unfold putAttribNode at *
  rcases List.eq_nil_or_concat (F.attrs o) with empty | ⟨front, k, attrs⟩
  · right
    have absent : F.findAttr o name = none := by
      unfold Forest.findAttr
      rw [empty]
      rfl
    obtain ⟨mem, made, grown⟩ := xmlnodeNew_eq linked.reach alive named
    have apart : (none : Option NodePtr) ≠ some o := nofun
    rw [empty, List.head?_nil] at first
    refine finish grown ?_ absent rfl
    rw [if_pos first, made]
    simp only [Option.bind_eq_bind, Option.bind_some]
    rw [write_eq (push_apart old here rfl apart mem)]
    simp only [Option.bind_some]
    have nodes := push_owner old here (newLabel x.p (some name) .attrib none) apart mem rfl
      (congrArg (Option.or · (some s.next)) first)
    rw [empty, List.getLast?_nil]
    exact congrArg (fun nodes => some (some s.next, Store.mk nodes (s.next + 1) mem)) nodes
  · rw [List.concat_eq_append] at attrs
    have some_ : x.firstattrib ≠ none := by
      rw [first, attrs]
      cases front with
      | nil => exact nofun
      | cons z front => exact nofun
    have search := xmlnodeSearch_attr linked o name
    rw [← first] at search
    rw [if_neg some_, search]
    simp only [Option.bind_eq_bind, Option.bind_some]
    cases found : F.findAttr o name with
    | some a =>
      left
      refine ⟨a, rfl, ?_⟩
      rw [if_neg nofun]
    | none =>
      right
      have member : k ∈ F.attrs o := by
        rw [attrs]
        exact List.mem_append_right _ (List.mem_singleton.mpr rfl)
      have tail : (F.attrs o).getLast? = some k := by
        rw [attrs]
        exact List.getLast?_concat
      obtain ⟨z, y, there, there', _, _, pool⟩ := linked.attr_node member
      rw [here] at there
      obtain rfl := Option.some.inj there
      obtain ⟨_, _, _, _, _, _, _, later⟩ := linked.valid.attr o k member
      have apart : some k ≠ some o := fun same => Nat.ne_of_gt later (Option.some.inj same)
      obtain ⟨mem, made, grown⟩ := appendSibling_eq linked.reach (linked.lt_next there') there'
        (linked.alive k y there') named
      rw [pool] at made
      rw [if_neg some_, search] at finish
      simp only [Option.bind_eq_bind, Option.bind_some] at finish
      rw [found] at finish
      refine finish grown ?_ rfl rfl
      rw [if_pos rfl, last, tail, made]
      simp only [Option.bind_some]
      rw [write_eq (push_apart old here rfl apart mem)]
      simp only [Option.bind_some]
      have front_ : x.firstattrib.or (some s.next) = x.firstattrib := by
        cases given : x.firstattrib with
        | none => exact absurd given some_
        | some z => rfl
      have nodes := push_owner old here (newLabel x.p (some name) .attrib none) apart mem rfl front_
      exact congrArg (fun nodes => some (some s.next, Store.mk nodes (s.next + 1) mem)) nodes

/-- An attribute gets a value. -/
def Forest.putAttrib (F : Forest) (o : NodePtr) (p : PoolPtr) (name value : CString) : Forest :=
  match F.findAttr o name with
  | some a => F.setData a value
  | none => F.push ⟨.attrib, some name, some value, p, none⟩ (some o)

theorem xmlnodePutAttrib_eq (linked : Linked s F) (here : s.nodes o = some x) (tag : x.type = .tag)
    (name value : CString) :
    ∃ s', xmlnodePutAttrib s (some o) (some name) (some value) = some s' ∧
      Linked s' (F.putAttrib o x.p name value) ∧ Grown s.mem s'.mem := by
  unfold xmlnodePutAttrib Forest.putAttrib
  dsimp only
  rw [here]
  simp only [Option.bind_eq_bind, Option.bind_some]
  rcases putAttribNode_eq linked here tag name with ⟨a, found, made⟩ | ⟨absent, s', made, linked', new, grown⟩
  · rw [made, found]
    simp only [Option.bind_some]
    obtain ⟨mem, taken, grown⟩ := pstrdup_grown linked.reach (linked.alive o x here) (some value)
    obtain ⟨_, y, _, there, _⟩ := linked.attr_node (List.mem_of_find?_eq_some found)
    rw [taken]
    simp only [Option.bind_some]
    rw [write_eq (s := { s with mem := mem }) there]
    exact ⟨_, rfl, (linked.grow grown).setData there value, grown⟩
  · rw [made, absent]
    simp only [Option.bind_some]
    obtain ⟨mem, taken, grown'⟩ := pstrdup_grown linked'.reach (grown.alive x.p (linked.alive o x here))
      (some value)
    rw [taken]
    simp only [Option.bind_some]
    rw [write_eq (s := { s' with mem := mem }) new]
    have written := (linked'.grow grown').setData new value
    rw [← linked.next, setData_push] at written
    rw [← linked.next]
    exact ⟨_, rfl, written, grown.trans grown'⟩

end Attributes

end JabSimul.Dom
