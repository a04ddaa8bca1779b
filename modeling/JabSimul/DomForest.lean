import JabSimul.Dom
import Mathlib.Data.List.Nodup
import Mathlib.Logic.Relation

/-!
What a store of nodes is for: an ordered forest. A node has a list of children and a
list of attributes, and the tree of a node is what its readers can see of it, where
chunks of character data that follow each other are one text.
-/
namespace JabSimul.Dom

open Pools

section Texts

/-- A node in front of siblings: a chunk becomes one with the text behind it. -/
def joinFront : XmlNode → List XmlNode → List XmlNode
  | .cdata d, .cdata d' :: l => .cdata (d ++ d') :: l
  | x, l => x :: l

def joined (l : List XmlNode) : List XmlNode := l.foldr joinFront []

@[simp]
theorem joined_nil : joined [] = [] := rfl

theorem joined_cons (x : XmlNode) (l : List XmlNode) : joined (x :: l) = joinFront x (joined l) := rfl

theorem joined_append_congr (l : List XmlNode) {l₁ l₂ : List XmlNode} (same : joined l₁ = joined l₂) :
    joined (l ++ l₁) = joined (l ++ l₂) := by
  induction l with
  | nil => exact same
  | cons x l ih => rw [List.cons_append, List.cons_append, joined_cons, joined_cons, ih]

theorem joinFront_tag {x : XmlNode} (tag : x.isTag = true) (l : List XmlNode) :
    joinFront x l = x :: l := by
  cases x with
  | tag n as cs => rfl
  | cdata d => cases tag

theorem joinFront_cdata (d e : CString) (l : List XmlNode) :
    joinFront (.cdata d) (joinFront (.cdata e) l) = joinFront (.cdata (d ++ e)) l := by
  cases l with
  | nil => rfl
  | cons x l =>
    cases x with
    | tag n as cs => rfl
    | cdata d' =>
      change XmlNode.cdata (d ++ (e ++ d')) :: l = .cdata (d ++ e ++ d') :: l
      rw [List.append_assoc]

/-- A run of chunks is as good as one chunk with all of their text. -/
theorem joined_chunks (d : CString) (ds : List CString) (l : List XmlNode) :
    joined (.cdata d :: (ds.map XmlNode.cdata ++ l)) = joined (.cdata (d ++ ds.flatten) :: l) := by
  induction ds generalizing d with
  | nil => rw [List.map_nil, List.nil_append, List.flatten_nil, List.append_nil]
  | cons e ds ih =>
    rw [List.map_cons, List.cons_append, joined_cons, joined_cons, joinFront_cdata, ← joined_cons, ih,
      List.flatten_cons, List.append_assoc]

def addText : List XmlNode → CString → List XmlNode
  | [], d => [.cdata d]
  | [.cdata e], d => [.cdata (e ++ d)]
  | x :: l, d => x :: addText l d

/-- A child behind others: a text goes on a text in front of it. -/
def addKid (l : List XmlNode) : XmlNode → List XmlNode
  | .tag n as cs => l ++ [.tag n as cs]
  | .cdata d => addText l d

theorem joinFront_addText (x : XmlNode) (l : List XmlNode) (d : CString) :
    joinFront x (addText l d) = addText (joinFront x l) d := by
  cases x with
  | tag n as cs =>
    rw [joinFront_tag rfl, joinFront_tag rfl]
    rfl
  | cdata e =>
    cases l with
    | nil => rfl
    | cons y l =>
      cases y with
      | tag n as cs => rfl
      | cdata g =>
        cases l with
        | nil =>
          change [XmlNode.cdata (e ++ (g ++ d))] = [.cdata (e ++ g ++ d)]
          rw [List.append_assoc]
        | cons z l => rfl

theorem joinFront_concat (x : XmlNode) (l : List XmlNode) {y : XmlNode} (tag : y.isTag = true) :
    joinFront x (l ++ [y]) = joinFront x l ++ [y] := by
  cases x with
  | tag n as cs =>
    rw [joinFront_tag rfl, joinFront_tag rfl]
    rfl
  | cdata d =>
    cases l with
    | nil =>
      cases y with
      | tag n as cs => rfl
      | cdata e => cases tag
    | cons z l =>
      cases z with
      | tag n as cs => rfl
      | cdata e => rfl

/-- Children that come one after the other are joined as if they came at once. -/
theorem joined_concat (l : List XmlNode) (x : XmlNode) : joined (l ++ [x]) = addKid (joined l) x := by
  induction l with
  | nil =>
    cases x with
    | tag n as cs => rfl
    | cdata d => rfl
  | cons y l ih =>
    rw [List.cons_append, joined_cons, joined_cons, ih]
    cases x with
    | tag n as cs => exact joinFront_concat y (joined l) rfl
    | cdata d => exact joinFront_addText y (joined l) d

theorem foldl_addKid (l l' : List XmlNode) : l'.foldl addKid (joined l) = joined (l ++ l') := by
  induction l' generalizing l with
  | nil => rw [List.append_nil]; rfl
  | cons x l' ih =>
    rw [List.foldl_cons, ← joined_concat, ih, List.append_assoc]
    rfl

theorem joined_concat_tag {x : XmlNode} (tag : x.isTag = true) (l : List XmlNode) :
    joined (l ++ [x]) = joined l ++ [x] := by
  rw [joined_concat]
  cases x with
  | tag n as cs => rfl
  | cdata d => cases tag

end Texts

structure Label where
  type : NodeType
  name : Option CString
  data : Option CString
  p : PoolPtr
  parent : Option NodePtr

def Xmlnode.label (x : Xmlnode) : Label := ⟨x.type, x.name, x.data, x.p, x.parent⟩

structure Forest where
  label : NodePtr → Option Label
  kids : NodePtr → List NodePtr
  attrs : NodePtr → List NodePtr
  next : NodePtr

namespace Forest

def type (F : Forest) (n : NodePtr) : Option NodeType := (F.label n).map Label.type

def name (F : Forest) (n : NodePtr) : CString := ((F.label n).bind Label.name).getD []

def data (F : Forest) (n : NodePtr) : CString := ((F.label n).bind Label.data).getD []

def attribs (F : Forest) (n : NodePtr) : List (CString × CString) :=
  (F.attrs n).map fun a => (F.name a, F.data a)

/-- A value of each node, from the values of its children. -/
def foldIn {α : Type} (F : Forest) (leaf : NodePtr → α) (branch : NodePtr → List α → α) :
    Nat → NodePtr → α
  | 0, n => leaf n
  | fuel + 1, n =>
      if F.type n = some .tag then branch n ((F.kids n).map (F.foldIn leaf branch fuel)) else leaf n

/-- No path down is longer than there are nodes. -/
def fold {α : Type} (F : Forest) (leaf : NodePtr → α) (branch : NodePtr → List α → α)
    (n : NodePtr) : α := F.foldIn leaf branch F.next n

def treeLeaf (F : Forest) (n : NodePtr) : XmlNode := .cdata (F.data n)

def treeBranch (F : Forest) (n : NodePtr) (l : List XmlNode) : XmlNode :=
  .tag (F.name n) (F.attribs n) (joined l)

def tree (F : Forest) : NodePtr → XmlNode := F.fold F.treeLeaf F.treeBranch

/-- Children and attributes are newer than the node that has them and lie in its pool. Only
chunks of character data can lose their place among the children of their parent. -/
structure Valid (F : Forest) : Prop where
  bound : ∀ n, F.next ≤ n → F.label n = none
  kid : ∀ m k, k ∈ F.kids m → ∃ lm l, F.label m = some lm ∧ F.label k = some l ∧ lm.type = .tag ∧
    l.type ≠ .attrib ∧ l.parent = some m ∧ l.p = lm.p ∧ m < k
  attr : ∀ m k, k ∈ F.attrs m → ∃ lm l, F.label m = some lm ∧ F.label k = some l ∧ lm.type = .tag ∧
    l.type = .attrib ∧ l.p = lm.p ∧ m < k
  kids_nodup : ∀ m, (F.kids m).Nodup
  attrs_nodup : ∀ m, (F.attrs m).Nodup
  attr_owner : ∀ m m' k, k ∈ F.attrs m → k ∈ F.attrs m' → m = m'
  keys : ∀ m, ((F.attrs m).map F.name).Nodup
  child : ∀ n l m, F.label n = some l → l.type = .tag → l.parent = some m → n ∈ F.kids m
  named : ∀ n l, F.label n = some l → l.type ≠ .cdata → l.name.isSome = true

/-- Every chunk and every attribute has a text. -/
def Complete (F : Forest) : Prop :=
  ∀ n l, F.label n = some l → l.type ≠ .tag → l.data.isSome = true

end Forest

section Trees

variable {F G : Forest} {m n k : NodePtr}

theorem Forest.Valid.kid_lt (valid : F.Valid) (member : k ∈ F.kids m) : m < k := by
  obtain ⟨_, _, _, _, _, _, _, _, lt⟩ := valid.kid m k member
  exact lt

theorem Forest.Valid.lt_next (valid : F.Valid) {l : Label} (here : F.label n = some l) :
    n < F.next := by
  by_contra high
  rw [valid.bound n (Nat.not_lt.mp high)] at here
  cases here

theorem Forest.Valid.kid_lt_next (valid : F.Valid) (member : k ∈ F.kids m) : k < F.next := by
  obtain ⟨_, _, _, here, _⟩ := valid.kid m k member
  exact valid.lt_next here

/-- The induction is on the steps that are left; where there is no step left there is no node. -/
theorem foldIn_stable {α : Type} {leaf : NodePtr → α} {branch : NodePtr → List α → α}
    (valid : F.Valid) {fuel fuel' : Nat} (enough : F.next ≤ n + fuel) (more : fuel ≤ fuel') :
    F.foldIn leaf branch fuel' n = F.foldIn leaf branch fuel n := by
  induction fuel generalizing n fuel' with
  | zero =>
    have none := valid.bound n enough
    cases fuel' with
    | zero => rfl
    | succ fuel' =>
      have type : ¬ F.type n = some .tag := by
        unfold Forest.type
        rw [none]
        exact nofun
      simp only [Forest.foldIn, if_neg type]
  | succ fuel ih =>
    obtain ⟨fuel', rfl⟩ : ∃ f, fuel' = f + 1 := ⟨fuel' - 1, by omega⟩
    rw [Forest.foldIn, Forest.foldIn]
    congr 2
    apply List.map_congr_left
    intro k member
    have later : n + 1 ≤ k := valid.kid_lt member
    apply ih
    · exact Nat.le_trans enough (by
        have := Nat.add_le_add_right later fuel
        rwa [Nat.add_assoc, Nat.add_comm 1 fuel] at this)
    · exact Nat.le_of_succ_le_succ more

theorem fold_eq {α : Type} (leaf : NodePtr → α) (branch : NodePtr → List α → α) (valid : F.Valid)
    (n : NodePtr) : F.fold leaf branch n =
      if F.type n = some .tag then branch n ((F.kids n).map (F.fold leaf branch)) else leaf n := by
  have one : F.foldIn leaf branch (F.next + 1) n = F.foldIn leaf branch F.next n :=
    foldIn_stable valid (Nat.le_add_left _ _) (Nat.le_succ _)
  rw [Forest.fold, ← one, Forest.foldIn]
  rfl

theorem tree_eq (valid : F.Valid) (n : NodePtr) :
    F.tree n = if F.type n = some .tag then
        .tag (F.name n) (F.attribs n) (joined ((F.kids n).map F.tree))
      else .cdata (F.data n) := fold_eq _ _ valid n

theorem tree_tag (valid : F.Valid) (tag : F.type n = some .tag) :
    F.tree n = .tag (F.name n) (F.attribs n) (joined ((F.kids n).map F.tree)) := by
  rw [tree_eq valid, if_pos tag]

theorem tree_text (valid : F.Valid) (text : F.type n ≠ some .tag) : F.tree n = .cdata (F.data n) := by
  rw [tree_eq valid, if_neg text]

theorem text_trees (valid : F.Valid) {l : List NodePtr} (text : ∀ k ∈ l, F.type k = some .cdata) :
    l.map F.tree = (l.map F.data).map XmlNode.cdata := by
  rw [List.map_map]
  apply List.map_congr_left
  intro k member
  apply tree_text valid
  rw [text k member]
  exact nofun

theorem values_congr {l : List NodePtr} (same : ∀ a ∈ l, G.label a = F.label a) :
    (l.map fun a => (G.name a, G.data a)) = l.map fun a => (F.name a, F.data a) := by
  apply List.map_congr_left
  intro a member
  unfold Forest.name Forest.data
  rw [same a member]

/-- A set of nodes that has the children of its nodes, and where two forests are alike. -/
structure Alike (S : NodePtr → Prop) (F G : Forest) : Prop where
  closed : ∀ m, S m → ∀ k ∈ F.kids m, S k
  label : ∀ m, S m → G.label m = F.label m
  kids : ∀ m, S m → G.kids m = F.kids m
  attribs : ∀ m, S m → G.attribs m = F.attribs m

theorem Alike.foldIn {S : NodePtr → Prop} {α : Type} {leaf leaf' : NodePtr → α}
    {branch branch' : NodePtr → List α → α} (alike : Alike S F G) (leaves : ∀ m, S m → leaf' m = leaf m)
    (branches : ∀ m, S m → branch' m = branch m) (fuel : Nat) (inside : S n) :
    G.foldIn leaf' branch' fuel n = F.foldIn leaf branch fuel n := by
  induction fuel generalizing n with
  | zero => exact leaves n inside
  | succ fuel ih =>
    have type : G.type n = F.type n := by
      unfold Forest.type
      rw [alike.label n inside]
    rw [Forest.foldIn, Forest.foldIn, type, branches n inside, leaves n inside, alike.kids n inside]
    congr 2
    apply List.map_congr_left
    exact fun k member => ih (alike.closed n inside k member)

theorem Alike.tree {S : NodePtr → Prop} (alike : Alike S F G) (valid : F.Valid) (valid' : G.Valid)
    (inside : S n) : G.tree n = F.tree n := by
  have left : G.foldIn G.treeLeaf G.treeBranch (G.next + F.next) n = G.tree n :=
    foldIn_stable valid' (Nat.le_add_left _ _) (Nat.le_add_right _ _)
  have right : F.foldIn F.treeLeaf F.treeBranch (G.next + F.next) n = F.tree n :=
    foldIn_stable valid (Nat.le_add_left _ _) (Nat.le_add_left _ _)
  rw [← left, ← right]
  apply alike.foldIn _ _ _ inside
  · intro m here
    unfold Forest.treeLeaf Forest.data
    rw [alike.label m here]
  · intro m here
    funext l
    unfold Forest.treeBranch Forest.name
    rw [alike.label m here, alike.attribs m here]

theorem Forest.Valid.parent_unique (valid : F.Valid) {m' : NodePtr} (member : k ∈ F.kids m)
    (member' : k ∈ F.kids m') : m = m' := by
  obtain ⟨_, l, _, here, _, _, parent, _⟩ := valid.kid m k member
  obtain ⟨_, l', _, here', _, _, parent', _⟩ := valid.kid m' k member'
  rw [here] at here'
  obtain rfl := Option.some.inj here'
  rw [parent] at parent'
  exact Option.some.inj parent'

/-- A node and the nodes below it. -/
def Forest.Below (F : Forest) : NodePtr → NodePtr → Prop :=
  Relation.ReflTransGen fun m k => k ∈ F.kids m

theorem Forest.Below.le (below : F.Below m n) (valid : F.Valid) : m ≤ n := by
  induction below with
  | refl => exact Nat.le_refl _
  | tail _ member ih => exact Nat.le_trans ih (Nat.le_of_lt (valid.kid_lt member))

theorem Forest.Below.parent (below : F.Below m k) (valid : F.Valid) (member : k ∈ F.kids n) :
    m = k ∨ F.Below m n := by
  cases below with
  | refl => exact .inl rfl
  | tail below member' =>
    rw [valid.parent_unique member member']
    exact .inr below

/-- The nodes below two siblings are others. -/
theorem siblings_apart (valid : F.Valid) {c d : NodePtr} (member : c ∈ F.kids m) (member' : d ∈ F.kids m)
    (other : d ≠ c) (below : F.Below c n) : ¬ F.Below d n := by
  induction below with
  | refl =>
    intro below
    rcases below.parent valid member with same | above
    · exact other same
    · exact Nat.not_le_of_lt (valid.kid_lt member') (above.le valid)
  | tail inside step ih =>
    intro below
    rcases below.parent valid step with rfl | above
    · rw [valid.parent_unique step member'] at inside
      exact Nat.not_le_of_lt (valid.kid_lt member) (Forest.Below.le inside valid)
    · exact ih above

/-- A tree is read off the nodes below its root. -/
theorem tree_of_below (valid : F.Valid) (valid' : G.Valid)
    (same : ∀ n, F.Below m n → G.label n = F.label n ∧ G.kids n = F.kids n ∧ G.attribs n = F.attribs n) :
    G.tree m = F.tree m := by
  have alike : Alike (F.Below m) F G := by
    constructor
    · exact fun n below k member => below.tail member
    · exact fun n below => (same n below).1
    · exact fun n below => (same n below).2.1
    · exact fun n below => (same n below).2.2
  exact alike.tree valid valid' .refl

end Trees

section Growth

variable {F : Forest} {m n k : NodePtr} {l : Label} {owner : Option NodePtr}

/-- A new node, behind the children of its parent or the attributes of its owner. -/
def Forest.push (F : Forest) (l : Label) (owner : Option NodePtr) : Forest where
  label := Function.update F.label F.next (some l)
  kids m := if l.parent = some m then F.kids m ++ [F.next] else F.kids m
  attrs m := if owner = some m then F.attrs m ++ [F.next] else F.attrs m
  next := F.next + 1

/-- Where a new node may be put. -/
structure Forest.Fits (F : Forest) (l : Label) (owner : Option NodePtr) : Prop where
  named : l.type ≠ .cdata → l.name.isSome = true
  parent : ∀ m, l.parent = some m →
    l.type ≠ .attrib ∧ ∃ lm, F.label m = some lm ∧ lm.type = .tag ∧ l.p = lm.p
  owner : ∀ m, owner = some m →
    l.type = .attrib ∧ (∃ lm, F.label m = some lm ∧ lm.type = .tag ∧ l.p = lm.p) ∧
    l.name.getD [] ∉ (F.attrs m).map F.name

theorem push_label_old (low : n < F.next) : (F.push l owner).label n = F.label n :=
  Function.update_of_ne (Nat.ne_of_lt low) _ _

theorem push_label_new : (F.push l owner).label F.next = some l := Function.update_self _ _ _

theorem Forest.Valid.attr_lt_next (valid : F.Valid) (member : k ∈ F.attrs m) : k < F.next := by
  obtain ⟨_, _, _, here, _⟩ := valid.attr m k member
  exact valid.lt_next here

theorem Forest.Valid.kids_none (valid : F.Valid) (none : F.label m = none) : F.kids m = [] := by
  apply List.eq_nil_iff_forall_not_mem.mpr
  intro k member
  obtain ⟨_, _, here, _⟩ := valid.kid m k member
  rw [none] at here
  cases here

theorem Forest.Valid.attrs_none (valid : F.Valid) (none : F.label m = none) : F.attrs m = [] := by
  apply List.eq_nil_iff_forall_not_mem.mpr
  intro k member
  obtain ⟨_, _, here, _⟩ := valid.attr m k member
  rw [none] at here
  cases here

theorem mem_push_kids : k ∈ (F.push l owner).kids m ↔
    k ∈ F.kids m ∨ l.parent = some m ∧ k = F.next := by
  unfold Forest.push
  dsimp only
  by_cases here : l.parent = some m
  · rw [if_pos here, List.mem_append, List.mem_singleton]
    simp [here]
  · rw [if_neg here]
    simp [here]

theorem mem_push_attrs : k ∈ (F.push l owner).attrs m ↔
    k ∈ F.attrs m ∨ owner = some m ∧ k = F.next := by
  unfold Forest.push
  dsimp only
  by_cases here : owner = some m
  · rw [if_pos here, List.mem_append, List.mem_singleton]
    simp [here]
  · rw [if_neg here]
    simp [here]

theorem push_name_old (low : n < F.next) : (F.push l owner).name n = F.name n := by
  unfold Forest.name
  rw [push_label_old low]

theorem push_data_old (low : n < F.next) : (F.push l owner).data n = F.data n := by
  unfold Forest.data
  rw [push_label_old low]

theorem push_data_new : (F.push l owner).data F.next = l.data.getD [] := by
  unfold Forest.data
  rw [push_label_new]
  rfl

theorem push_type_new : (F.push l owner).type F.next = some l.type := by
  unfold Forest.type
  rw [push_label_new]
  rfl

theorem Forest.Valid.push (valid : F.Valid) (fits : F.Fits l owner) : (F.push l owner).Valid := by
  have old : ∀ {n l₀}, F.label n = some l₀ → (F.push l owner).label n = some l₀ := by
    intro n l₀ here
    rw [push_label_old (valid.lt_next here)]
    exact here
  constructor
  · intro n high
    have later : F.next < n := high
    exact (Function.update_of_ne (Nat.ne_of_gt later) _ _).trans (valid.bound n (Nat.le_of_lt later))
  · intro m k member
    rcases mem_push_kids.mp member with member | ⟨parent, rfl⟩
    · obtain ⟨lm, lk, here, there, rest⟩ := valid.kid m k member
      exact ⟨lm, lk, old here, old there, rest⟩
    · obtain ⟨type, lm, here, tag, pool⟩ := fits.parent m parent
      exact ⟨lm, l, old here, push_label_new, tag, type, parent, pool, valid.lt_next here⟩
  · intro m k member
    rcases mem_push_attrs.mp member with member | ⟨owned, rfl⟩
    · obtain ⟨lm, lk, here, there, rest⟩ := valid.attr m k member
      exact ⟨lm, lk, old here, old there, rest⟩
    · obtain ⟨type, ⟨lm, here, tag, pool⟩, _⟩ := fits.owner m owned
      exact ⟨lm, l, old here, push_label_new, tag, type, pool, valid.lt_next here⟩
  · intro m
    change (if l.parent = some m then F.kids m ++ [F.next] else F.kids m).Nodup
    split
    · rw [← List.concat_eq_append]
      apply (valid.kids_nodup m).concat
      exact fun member => Nat.lt_irrefl _ (valid.kid_lt_next member)
    · exact valid.kids_nodup m
  · intro m
    change (if owner = some m then F.attrs m ++ [F.next] else F.attrs m).Nodup
    split
    · rw [← List.concat_eq_append]
      apply (valid.attrs_nodup m).concat
      exact fun member => Nat.lt_irrefl _ (valid.attr_lt_next member)
    · exact valid.attrs_nodup m
  · intro m m' k member member'
    rcases mem_push_attrs.mp member with member | ⟨owned, rfl⟩
    · rcases mem_push_attrs.mp member' with member' | ⟨owned', rfl⟩
      · exact valid.attr_owner m m' k member member'
      · exact absurd (valid.attr_lt_next member) (Nat.lt_irrefl _)
    · rcases mem_push_attrs.mp member' with member' | ⟨owned', _⟩
      · exact absurd (valid.attr_lt_next member') (Nat.lt_irrefl _)
      · rw [owned] at owned'
        exact Option.some.inj owned'
  · intro m
    have names : (F.attrs m).map (F.push l owner).name = (F.attrs m).map F.name :=
      List.map_congr_left fun k member => push_name_old (valid.attr_lt_next member)
    change ((if owner = some m then F.attrs m ++ [F.next] else F.attrs m).map _).Nodup
    split
    · rename_i owned
      have new : (F.push l owner).name F.next = l.name.getD [] := by
        unfold Forest.name
        rw [push_label_new]
        rfl
      rw [List.map_append, List.map_singleton, names, new, ← List.concat_eq_append]
      exact (valid.keys m).concat (fits.owner m owned).2.2
    · rw [names]
      exact valid.keys m
  · intro n l₀ m here type parent
    by_cases new : n = F.next
    · subst n
      rw [push_label_new] at here
      obtain rfl := Option.some.inj here
      exact mem_push_kids.mpr (.inr ⟨parent, rfl⟩)
    · have here' : F.label n = some l₀ := (Function.update_of_ne new _ _).symm.trans here
      exact mem_push_kids.mpr (.inl (valid.child n l₀ m here' type parent))
  · intro n l₀ here type
    by_cases new : n = F.next
    · subst n
      rw [push_label_new] at here
      obtain rfl := Option.some.inj here
      exact fits.named type
    · have here' : F.label n = some l₀ := (Function.update_of_ne new _ _).symm.trans here
      exact valid.named n l₀ here' type

/-- A new node changes the trees above it. -/
theorem tree_push (valid : F.Valid) (fits : F.Fits l owner) (low : m < F.next)
    (apart : ∀ n, l.parent = some n ∨ owner = some n → ¬ F.Below m n) :
    (F.push l owner).tree m = F.tree m := by
  apply tree_of_below valid (valid.push fits)
  intro n below
  have old : n < F.next := by
    cases below with
    | refl => exact low
    | tail _ member => exact valid.kid_lt_next member
  refine ⟨push_label_old old, if_neg fun parent => apart n (.inl parent) below, ?_⟩
  have attrs : (F.push l owner).attrs n = F.attrs n := if_neg fun owned => apart n (.inr owned) below
  unfold Forest.attribs
  rw [attrs]
  exact values_congr fun a member => push_label_old (valid.attr_lt_next member)

theorem tree_push_other (valid : F.Valid) (fits : F.Fits l none) (parent : l.parent = some n) (low : m < F.next)
    (apart : ¬ F.Below m n) : (F.push l none).tree m = F.tree m := by
  apply tree_push valid fits low
  rintro k (above | owned)
  · rw [parent] at above
    obtain rfl := Option.some.inj above
    exact apart
  · cases owned

/-- A node that has children has none of them above it. -/
theorem not_below_kid (valid : F.Valid) (member : k ∈ F.kids m) : ¬ F.Below k m :=
  fun below => Nat.not_le_of_lt (valid.kid_lt member) (below.le valid)

theorem tree_push_new (valid : F.Valid) (fits : F.Fits l owner) : (F.push l owner).tree F.next =
    if l.type = .tag then .tag (l.name.getD []) [] [] else .cdata (l.data.getD []) := by
  have unlabelled : F.label F.next = none := valid.bound F.next (Nat.le_refl _)
  have valid' := valid.push fits
  have no_kids : (F.push l owner).kids F.next = [] := by
    apply List.eq_nil_iff_forall_not_mem.mpr
    intro k member
    exact Nat.not_le_of_lt (valid'.kid_lt member) (Nat.le_of_lt_succ (valid'.kid_lt_next member))
  have no_attrs : (F.push l owner).attrs F.next = [] := by
    apply List.eq_nil_iff_forall_not_mem.mpr
    intro k member
    obtain ⟨_, _, _, _, _, _, _, lt⟩ := valid'.attr F.next k member
    exact Nat.not_le_of_lt lt (Nat.le_of_lt_succ (valid'.attr_lt_next member))
  by_cases tag : l.type = .tag
  · have name : (F.push l owner).name F.next = l.name.getD [] := by
      unfold Forest.name
      rw [push_label_new]
      rfl
    rw [if_pos tag, tree_tag valid' (push_type_new.trans (congrArg some tag)), name, no_kids]
    unfold Forest.attribs
    rw [no_attrs]
    rfl
  · rw [if_neg tag, tree_text valid', push_data_new]
    rw [push_type_new]
    exact fun same => tag (Option.some.inj same)

theorem attribs_new (valid : F.Valid) (fits : F.Fits l none) (tag : l.type = .tag) :
    (F.push l none).attribs F.next = [] := by
  have tree := tree_push_new valid fits
  rw [if_pos tag, tree_tag (valid.push fits) (push_type_new.trans (congrArg some tag))] at tree
  exact (XmlNode.tag.inj tree).2.1

theorem text_fits (here : F.label n = some l) (tag : l.type = .tag) (bytes : CString) :
    F.Fits ⟨.cdata, none, some bytes, l.p, some n⟩ none := by
  refine ⟨fun other => absurd rfl other, fun m parent => ?_, nofun⟩
  obtain rfl := Option.some.inj parent
  exact ⟨nofun, l, here, tag, rfl⟩

/-- The tree of a tag that gets a child. -/
theorem tree_push_parent (valid : F.Valid) (fits : F.Fits l none) (parent : l.parent = some m) :
    (F.push l none).tree m =
      .tag (F.name m) (F.attribs m) (joined ((F.kids m).map F.tree ++ [(F.push l none).tree F.next])) := by
  obtain ⟨_, lm, here, tag, _⟩ := fits.parent m parent
  have low := valid.lt_next here
  have label : (F.push l none).label m = F.label m := push_label_old low
  have type : (F.push l none).type m = some .tag := by
    unfold Forest.type
    rw [label, here, Option.map_some, tag]
  have kids : (F.push l none).kids m = F.kids m ++ [F.next] := if_pos parent
  have trees : (F.kids m).map (F.push l none).tree = (F.kids m).map F.tree := by
    apply List.map_congr_left
    intro k member
    exact tree_push_other valid fits parent (valid.kid_lt_next member) (not_below_kid valid member)
  have attribs : (F.push l none).attribs m = F.attribs m :=
    values_congr fun a member => push_label_old (valid.attr_lt_next member)
  rw [tree_tag (valid.push fits) type, push_name_old low, attribs, kids, List.map_append, trees]
  rfl

end Growth

section Changes

variable {F : Forest} {m n k x : NodePtr}

/-- The data of a node are written. -/
def Forest.setData (F : Forest) (n : NodePtr) (d : CString) : Forest :=
  { F with
    label := Function.update F.label n ((F.label n).map fun l => { l with data := some d }) }

theorem setData_label (k : NodePtr) (d : CString) : ∃ d' : Label → Option CString,
    (F.setData n d).label k = (F.label k).map fun l => { l with data := d' l } := by
  by_cases same : k = n
  · subst k
    exact ⟨fun _ => some d, Function.update_self _ _ _⟩
  · refine ⟨Label.data, (Function.update_of_ne same _ _).trans ?_⟩
    cases F.label k with
    | none => rfl
    | some l => rfl

/-- What a forest with other data has in common with the old one. -/
theorem setData_some {d : CString} {l : Label} (here : (F.setData n d).label k = some l) :
    ∃ l₀, F.label k = some l₀ ∧ l₀.type = l.type ∧ l₀.name = l.name ∧ l₀.p = l.p ∧
      l₀.parent = l.parent := by
  obtain ⟨d', same⟩ := setData_label (F := F) (n := n) k d
  rw [same] at here
  obtain ⟨l₀, old, rfl⟩ := Option.map_eq_some_iff.mp here
  exact ⟨l₀, old, rfl, rfl, rfl, rfl⟩

theorem some_setData {l₀ : Label} (d : CString) (here : F.label k = some l₀) :
    ∃ l, (F.setData n d).label k = some l ∧ l₀.type = l.type ∧ l₀.name = l.name ∧ l₀.p = l.p ∧
      l₀.parent = l.parent := by
  obtain ⟨d', same⟩ := setData_label (F := F) (n := n) k d
  rw [here] at same
  exact ⟨_, same, rfl, rfl, rfl, rfl⟩

theorem setData_name (k : NodePtr) (d : CString) : (F.setData n d).name k = F.name k := by
  obtain ⟨d', same⟩ := setData_label (F := F) (n := n) k d
  unfold Forest.name
  rw [same]
  cases F.label k with
  | none => rfl
  | some l => rfl

theorem setData_type (k : NodePtr) (d : CString) : (F.setData n d).type k = F.type k := by
  obtain ⟨d', same⟩ := setData_label (F := F) (n := n) k d
  unfold Forest.type
  rw [same]
  cases F.label k with
  | none => rfl
  | some l => rfl

theorem setData_data_self {l : Label} (here : F.label n = some l) (d : CString) :
    (F.setData n d).data n = d := by
  unfold Forest.data Forest.setData
  dsimp only
  rw [Function.update_self, here]
  rfl

theorem setData_data_other (other : k ≠ n) (d : CString) : (F.setData n d).data k = F.data k := by
  unfold Forest.data Forest.setData
  dsimp only
  rw [Function.update_of_ne other]

theorem Forest.Valid.setData (valid : F.Valid) (n : NodePtr) (d : CString) : (F.setData n d).Valid := by
  constructor
  · intro k high
    obtain ⟨d', same⟩ := setData_label (F := F) (n := n) k d
    rw [same, valid.bound k high]
    rfl
  · intro m k member
    obtain ⟨lm, l, here, there, tag, type, parent, pool, lt⟩ := valid.kid m k member
    obtain ⟨lm', here', type_m, _, pool_m, _⟩ := some_setData (n := n) d here
    obtain ⟨l', there', type_k, _, pool_k, parent_k⟩ := some_setData (n := n) d there
    exact ⟨lm', l', here', there', type_m ▸ tag, type_k ▸ type, parent_k ▸ parent,
      pool_k ▸ pool_m ▸ pool, lt⟩
  · intro m k member
    obtain ⟨lm, l, here, there, tag, type, pool, lt⟩ := valid.attr m k member
    obtain ⟨lm', here', type_m, _, pool_m, _⟩ := some_setData (n := n) d here
    obtain ⟨l', there', type_k, _, pool_k, _⟩ := some_setData (n := n) d there
    exact ⟨lm', l', here', there', type_m ▸ tag, type_k ▸ type, pool_k ▸ pool_m ▸ pool, lt⟩
  · exact valid.kids_nodup
  · exact valid.attrs_nodup
  · exact valid.attr_owner
  · intro m
    have names : (F.attrs m).map (F.setData n d).name = (F.attrs m).map F.name :=
      List.map_congr_left fun k _ => setData_name k d
    change ((F.attrs m).map (F.setData n d).name).Nodup
    rw [names]
    exact valid.keys m
  · intro k l m here type parent
    obtain ⟨l₀, here, type₀, _, _, parent₀⟩ := setData_some here
    exact valid.child k l₀ m here (type₀.trans type) (parent₀.trans parent)
  · intro k l here type
    obtain ⟨l₀, here, type₀, name₀, _⟩ := setData_some here
    rw [← name₀]
    exact valid.named k l₀ here (type₀ ▸ type)

/-- The chunks `mid` behind a chunk become one with it. -/
def Forest.join (F : Forest) (m x : NodePtr) (l₁ mid l₂ : List NodePtr) : Forest :=
  { F.setData x (F.data x ++ mid.flatMap F.data) with
    kids := Function.update F.kids m (l₁ ++ x :: l₂) }

/-- Where chunks follow each other. -/
structure Forest.Run (F : Forest) (m x : NodePtr) (l₁ mid l₂ : List NodePtr) : Prop where
  kids : F.kids m = l₁ ++ x :: (mid ++ l₂)
  text : ∀ k ∈ x :: mid, F.type k = some .cdata

variable {l₁ mid l₂ : List NodePtr}

theorem Forest.Run.sublist (run : F.Run m x l₁ mid l₂) (n : NodePtr) :
    ((F.join m x l₁ mid l₂).kids n).Sublist (F.kids n) := by
  change (Function.update F.kids m _ n).Sublist _
  by_cases same : n = m
  · subst n
    rw [Function.update_self, run.kids]
    apply List.Sublist.append_left
    apply List.Sublist.cons_cons
    exact List.sublist_append_right mid l₂
  · rw [Function.update_of_ne same]

theorem Forest.Valid.join (valid : F.Valid) (run : F.Run m x l₁ mid l₂) :
    (F.join m x l₁ mid l₂).Valid := by
  have valid' := valid.setData x (F.data x ++ mid.flatMap F.data)
  constructor
  · exact valid'.bound
  · exact fun m' k member => valid'.kid m' k ((run.sublist m').subset member)
  · exact valid'.attr
  · exact fun m' => (run.sublist m').nodup (valid.kids_nodup m')
  · exact valid'.attrs_nodup
  · exact valid'.attr_owner
  · exact valid'.keys
  · intro k l m' here type parent
    have old := valid'.child k l m' here type parent
    change k ∈ Function.update F.kids m _ m'
    by_cases same : m' = m
    · subst m'
      change k ∈ F.kids m at old
      rw [run.kids] at old
      rw [Function.update_self]
      rcases List.mem_append.mp old with old | old
      · exact List.mem_append_left _ old
      · apply List.mem_append_right
        rcases List.mem_cons.mp old with rfl | old
        · exact List.mem_cons_self
        · apply List.mem_cons_of_mem
          rcases List.mem_append.mp old with old | old
          · have text := run.text k (List.mem_cons_of_mem _ old)
            have type' := setData_type (F := F) (n := x) k (F.data x ++ mid.flatMap F.data)
            unfold Forest.type at text type'
            have here' : (F.setData x (F.data x ++ mid.flatMap F.data)).label k = some l := here
            rw [here', text, Option.map_some, type] at type'
            cases type'
          · exact old
    · rw [Function.update_of_ne same]
      exact old
  · exact valid'.named

/-- Joined chunks are read as the chunks were. The induction is on the way down; a chunk
has one parent, so that the other lists do not change. -/
theorem tree_join (valid : F.Valid) (run : F.Run m x l₁ mid l₂) (tag : F.type n = some .tag) :
    (F.join m x l₁ mid l₂).tree n = F.tree n := by
  have valid' := valid.join run
  have types : ∀ k, (F.join m x l₁ mid l₂).type k = F.type k := fun k => setData_type k _
  have names : ∀ k, (F.join m x l₁ mid l₂).name k = F.name k := fun k => setData_name k _
  have datas : ∀ k, k ≠ x → (F.join m x l₁ mid l₂).data k = F.data k :=
    fun k other => setData_data_other other _
  have apart : ∀ k, F.type k ≠ some .cdata → k ≠ x := by
    rintro k type rfl
    exact type (run.text k List.mem_cons_self)
  have not_tag : ∀ k ∈ x :: mid, F.type k ≠ some .tag := by
    intro k member
    rw [run.text k member]
    exact nofun
  have inside : x ∈ F.kids m := by
    rw [run.kids]
    exact List.mem_append_right _ List.mem_cons_self
  obtain ⟨_, lx, _, here_x, _, _, parent_x, _⟩ := valid.kid m x inside
  have attribs : ∀ n, (F.join m x l₁ mid l₂).attribs n = F.attribs n := by
    intro n
    apply List.map_congr_left
    intro a member
    obtain ⟨_, l, _, there, _, type, _⟩ := valid.attr n a member
    have other : a ≠ x := by
      apply apart
      unfold Forest.type
      rw [there, Option.map_some, type]
      exact nofun
    rw [names, datas a other]
  generalize depth : F.next - n = fuel
  induction fuel using Nat.strong_induction_on generalizing n with
  | _ fuel ih =>
    have same : ∀ k ∈ F.kids n, k ≠ x → (F.join m x l₁ mid l₂).tree k = F.tree k := by
      intro k member other
      by_cases type : F.type k = some .tag
      · apply ih (F.next - k) _ type rfl
        rw [← depth]
        exact Nat.sub_lt_sub_left (Nat.lt_trans (valid.kid_lt member) (valid.kid_lt_next member))
          (valid.kid_lt member)
      · rw [tree_text valid type, tree_text valid' ((types k).symm ▸ type), datas k other]
    have kids : joined (((F.join m x l₁ mid l₂).kids n).map (F.join m x l₁ mid l₂).tree) =
        joined ((F.kids n).map F.tree) := by
      by_cases at_m : n = m
      · subst n
        have nodup := valid.kids_nodup m
        rw [run.kids] at nodup
        have left : ∀ k ∈ l₁, (F.join m x l₁ mid l₂).tree k = F.tree k := by
          intro k member
          apply same
          · rw [run.kids]
            exact List.mem_append_left _ member
          · exact (List.nodup_append.mp nodup).2.2 k member x List.mem_cons_self
        have right : ∀ k ∈ l₂, (F.join m x l₁ mid l₂).tree k = F.tree k := by
          intro k member
          apply same
          · rw [run.kids]
            exact List.mem_append_right _ (List.mem_cons_of_mem _ (List.mem_append_right _ member))
          · rintro rfl
            have after := (List.nodup_cons.mp (List.nodup_append.mp nodup).2.1).1
            exact after (List.mem_append_right _ member)
        have new : (F.join m x l₁ mid l₂).kids m = l₁ ++ x :: l₂ := Function.update_self _ _ _
        have text : (F.join m x l₁ mid l₂).tree x = .cdata (F.data x ++ (mid.map F.data).flatten) := by
          rw [tree_text valid', ← List.flatMap_def]
          · exact congrArg _ (setData_data_self here_x _)
          · rw [types]
            exact not_tag x List.mem_cons_self
        have first : F.tree x = .cdata (F.data x) := tree_text valid (not_tag x List.mem_cons_self)
        have chunks : mid.map F.tree = (mid.map F.data).map XmlNode.cdata :=
          text_trees valid fun k member => run.text k (List.mem_cons_of_mem _ member)
        rw [new, run.kids, List.map_append, List.map_append, List.map_cons, List.map_cons, List.map_append,
          text, first, chunks, List.map_congr_left left, List.map_congr_left right]
        exact joined_append_congr _ (joined_chunks _ _ _).symm
      · have old : (F.join m x l₁ mid l₂).kids n = F.kids n := Function.update_of_ne at_m _ _
        rw [old]
        apply congrArg
        apply List.map_congr_left
        intro k member
        apply same k member
        rintro rfl
        obtain ⟨_, l, _, here, _, _, parent, _⟩ := valid.kid n k member
        rw [here_x] at here
        obtain rfl := Option.some.inj here
        rw [parent_x] at parent
        exact at_m (Option.some.inj parent).symm
    rw [tree_tag valid tag, tree_tag valid' (types n ▸ tag), names, attribs, kids]

theorem tree_join_other (valid : F.Valid) (run : F.Run m x l₁ mid l₂) (other : k ≠ x) :
    (F.join m x l₁ mid l₂).tree k = F.tree k := by
  by_cases tag : F.type k = some .tag
  · exact tree_join valid run tag
  · have types : (F.join m x l₁ mid l₂).type k = F.type k := setData_type k _
    rw [tree_text valid tag, tree_text (valid.join run) (types.symm ▸ tag)]
    exact congrArg _ (setData_data_other other _)

/-- The nodes of a pool are gone. -/
def Forest.drop (F : Forest) (p : PoolPtr) : Forest where
  label n := (F.label n).filter fun l => l.p ≠ p
  kids n := if (F.label n).any fun l => l.p ≠ p then F.kids n else []
  attrs n := if (F.label n).any fun l => l.p ≠ p then F.attrs n else []
  next := F.next

theorem drop_label {p : PoolPtr} {l : Label} :
    (F.drop p).label n = some l ↔ F.label n = some l ∧ l.p ≠ p := by
  unfold Forest.drop
  dsimp only
  rw [Option.filter_eq_some_iff]
  simp

theorem mem_drop_kids {p : PoolPtr} :
    k ∈ (F.drop p).kids n ↔ k ∈ F.kids n ∧ ∃ l, (F.drop p).label n = some l := by
  simp only [drop_label]
  unfold Forest.drop
  dsimp only
  cases here : F.label n with
  | none => simp
  | some l => by_cases same : l.p = p <;> simp [same]

theorem mem_drop_attrs {p : PoolPtr} :
    k ∈ (F.drop p).attrs n ↔ k ∈ F.attrs n ∧ ∃ l, (F.drop p).label n = some l := by
  simp only [drop_label]
  unfold Forest.drop
  dsimp only
  cases here : F.label n with
  | none => simp
  | some l => by_cases same : l.p = p <;> simp [same]

theorem Forest.Valid.drop (valid : F.Valid) (p : PoolPtr) : (F.drop p).Valid := by
  have kids : ∀ m, (F.drop p).kids m = F.kids m ∨ (F.drop p).kids m = [] := by
    intro m
    unfold Forest.drop
    dsimp only
    split
    · exact .inl rfl
    · exact .inr rfl
  have attrs : ∀ m, (F.drop p).attrs m = F.attrs m ∨ (F.drop p).attrs m = [] := by
    intro m
    unfold Forest.drop
    dsimp only
    split
    · exact .inl rfl
    · exact .inr rfl
  constructor
  · intro n high
    change (F.label n).filter _ = none
    rw [valid.bound n high]
    rfl
  · intro m k member
    obtain ⟨member, lm, here⟩ := mem_drop_kids.mp member
    obtain ⟨lm', l, here', there, tag, type, parent, pool, lt⟩ := valid.kid m k member
    rw [(drop_label.mp here).1] at here'
    obtain rfl := Option.some.inj here'
    exact ⟨lm, l, here, drop_label.mpr ⟨there, pool ▸ (drop_label.mp here).2⟩, tag, type, parent, pool, lt⟩
  · intro m k member
    obtain ⟨member, lm, here⟩ := mem_drop_attrs.mp member
    obtain ⟨lm', l, here', there, tag, type, pool, lt⟩ := valid.attr m k member
    rw [(drop_label.mp here).1] at here'
    obtain rfl := Option.some.inj here'
    exact ⟨lm, l, here, drop_label.mpr ⟨there, pool ▸ (drop_label.mp here).2⟩, tag, type, pool, lt⟩
  · intro m
    rcases kids m with same | same
    · rw [same]
      exact valid.kids_nodup m
    · rw [same]
      exact List.nodup_nil
  · intro m
    rcases attrs m with same | same
    · rw [same]
      exact valid.attrs_nodup m
    · rw [same]
      exact List.nodup_nil
  · exact fun m m' k member member' =>
      valid.attr_owner m m' k (mem_drop_attrs.mp member).1 (mem_drop_attrs.mp member').1
  · intro m
    rcases attrs m with same | same
    · have names : (F.attrs m).map (F.drop p).name = (F.attrs m).map F.name := by
        apply List.map_congr_left
        intro k member
        rw [← same] at member
        obtain ⟨member, lm, here⟩ := mem_drop_attrs.mp member
        obtain ⟨lm', l, here', there, _, _, pool, _⟩ := valid.attr m k member
        rw [(drop_label.mp here).1] at here'
        obtain rfl := Option.some.inj here'
        unfold Forest.name
        rw [drop_label.mpr ⟨there, pool ▸ (drop_label.mp here).2⟩, there]
      rw [same, names]
      exact valid.keys m
    · rw [same]
      exact List.nodup_nil
  · intro n l m here type parent
    obtain ⟨here, other⟩ := drop_label.mp here
    have member := valid.child n l m here type parent
    obtain ⟨lm, l', here_m, there, _, _, _, pool, _⟩ := valid.kid m n member
    rw [here] at there
    obtain rfl := Option.some.inj there
    exact mem_drop_kids.mpr ⟨member, lm, drop_label.mpr ⟨here_m, pool ▸ other⟩⟩
  · intro n l here type
    exact valid.named n l (drop_label.mp here).1 type

end Changes

end JabSimul.Dom
