import JabSimul.DomLinked
import Mathlib.Data.List.TakeWhile

/-!
What the readers of `xmlnode.c` see is the tree of the node. A reader of character data
puts the chunks of a run together, which changes the store and no tree.
-/
namespace JabSimul.Dom

open Pools SiblingList

section Merging

variable {s : Store} {F : Forest} {m n k x : NodePtr} {l₁ mid l₂ : List NodePtr}

theorem type_eq (linked : Linked s F) {y : Xmlnode} (here : s.nodes n = some y) :
    F.type n = some y.type := by
  unfold Forest.type
  rw [linked.label_of here]
  rfl

theorem data_eq (linked : Linked s F) {y : Xmlnode} (here : s.nodes n = some y) :
    F.data n = y.data.getD [] := by
  unfold Forest.data
  rw [linked.label_of here]
  rfl

/-- The run of chunks from a node on. -/
theorem chunks_eq {l : List NodePtr} {before : Option NodePtr} {fuel : Nat}
    (links : Links s.prevOf s.nextOf before (l ++ l₂) none)
    (text : ∀ k ∈ l, ∃ y, s.nodes k = some y ∧ y.type = .cdata)
    (stop : ∀ k, l₂.head? = some k → ∃ y, s.nodes k = some y ∧ y.type ≠ .cdata)
    (enough : (l ++ l₂).length ≤ fuel) :
    chunks s fuel (l ++ l₂).head? = some (l.filterMap s.nodes, l₂.head?) := by
  induction l generalizing before fuel with
  | nil =>
    rw [List.nil_append, List.filterMap_nil]
    cases l₂ with
    | nil => rw [List.head?_nil, chunks]
    | cons k l₂ =>
      obtain ⟨fuel, rfl⟩ : ∃ f, fuel = f + 1 := ⟨fuel - 1, by simp at enough; omega⟩
      obtain ⟨y, here, type⟩ := stop k rfl
      rw [List.head?_cons, chunks, here]
      simp only [Option.bind_eq_bind, Option.bind_some]
      rw [if_neg type]
  | cons k l ih =>
    obtain ⟨fuel, rfl⟩ : ∃ f, fuel = f + 1 := ⟨fuel - 1, by simp at enough; omega⟩
    obtain ⟨y, here, type⟩ := text k List.mem_cons_self
    rw [List.cons_append] at links enough ⊢
    obtain ⟨_, next, rest⟩ := links
    unfold Store.nextOf at next
    rw [here, start_none] at next
    have next : y.next = (l ++ l₂).head? := next
    rw [List.head?_cons, chunks, here]
    simp only [Option.bind_eq_bind, Option.bind_some]
    rw [if_pos type, next, ih rest (fun y member => text y (List.mem_cons_of_mem _ member))]
    · rw [List.filterMap_cons_some here]
      rfl
    · rw [List.length_cons] at enough
      omega

/-- A node of a store in which the chunks behind `x` are merged. -/
def Xmlnode.merged (y : Xmlnode) (n m x : NodePtr) (d : CString) (after : Option NodePtr) : Xmlnode :=
  { y with
    next := if n = x then after else y.next
    data := if n = x then some d else y.data
    dataSz := if n = x then d.length else y.dataSz
    lastchild := if after = none ∧ n = m then some x else y.lastchild
    prev := if after = some n then some x else y.prev }

def Store.merged (s : Store) (m x : NodePtr) (d : CString) (after : Option NodePtr) (mem : Mem) : Store where
  nodes n := (s.nodes n).map fun y => y.merged n m x d after
  next := s.next
  mem := mem

theorem merged_prevOf {d : CString} {after : Option NodePtr} {mem : Mem} (other : after ≠ some n) :
    (s.merged m x d after mem).prevOf n = s.prevOf n := by
  unfold Store.prevOf Store.merged
  dsimp only
  cases s.nodes n with
  | none => rfl
  | some y => exact if_neg other

theorem merged_nextOf {d : CString} {after : Option NodePtr} {mem : Mem} (other : n ≠ x) :
    (s.merged m x d after mem).nextOf n = s.nextOf n := by
  unfold Store.nextOf Store.merged
  dsimp only
  cases s.nodes n with
  | none => rfl
  | some y => exact if_neg other

/-- The facts about the members of a run. -/
theorem Forest.Run.mem (run : F.Run m x l₁ mid l₂) : x ∈ F.kids m := by
  rw [run.kids]
  exact List.mem_append_right _ List.mem_cons_self

theorem Forest.Run.mem_after (run : F.Run m x l₁ mid l₂) (member : k ∈ l₂) : k ∈ F.kids m := by
  rw [run.kids]
  exact List.mem_append_right _ (List.mem_cons_of_mem _ (List.mem_append_right _ member))

theorem Forest.Run.apart (valid : F.Valid) (run : F.Run m x l₁ mid l₂) (member : k ∈ l₂) : k ≠ x := by
  have nodup := valid.kids_nodup m
  rw [run.kids] at nodup
  rintro rfl
  exact (List.nodup_cons.mp (List.nodup_append.mp nodup).2.1).1 (List.mem_append_right _ member)

theorem Forest.Run.apart_front (valid : F.Valid) (run : F.Run m x l₁ mid l₂) (member : k ∈ l₁) :
    k ≠ x ∧ k ∉ l₂ := by
  have nodup := valid.kids_nodup m
  rw [run.kids] at nodup
  have apart := (List.nodup_append.mp nodup).2.2 k member
  constructor
  · exact apart x List.mem_cons_self
  · intro member'
    exact apart k (List.mem_cons_of_mem _ (List.mem_append_right _ member')) rfl

/-- The children of the parent are linked without the chunks in the middle. -/
theorem Linked.merged_kids (linked : Linked s F) (run : F.Run m x l₁ mid l₂) (d : CString) (mem : Mem) :
    Links (s.merged m x d l₂.head? mem).prevOf (s.merged m x d l₂.head? mem).nextOf none
      (l₁ ++ x :: l₂) none := by
  have links := linked.kids m
  rw [run.kids] at links
  obtain ⟨y, node, _, here, _⟩ := linked.kid_node run.mem
  have front : ∀ k ∈ l₁, l₂.head? ≠ some k := by
    intro k member head
    exact (run.apart_front linked.valid member).2 (List.mem_of_mem_head? head)
  have nodup := linked.valid.kids_nodup m
  rw [run.kids] at nodup
  have tail : l₂.Nodup := (List.nodup_append.mp (List.nodup_cons.mp (List.nodup_append.mp nodup).2.1).2).2.1
  apply links.relink
  · exact fun k member => merged_prevOf (front k member)
  · exact fun k member => merged_nextOf (run.apart_front linked.valid member).1
  · apply merged_prevOf
    intro head
    exact run.apart linked.valid (List.mem_of_mem_head? head) rfl
  · unfold Store.nextOf Store.merged
    dsimp only
    rw [here, start_none]
    exact if_pos rfl
  · have rest := ((links_append mid l₂).mp ((links_append l₁ _).mp links).2.2.2).2
    cases l₂ with
    | nil => trivial
    | cons c l₂ =>
      obtain ⟨_, next, rest⟩ := rest
      obtain ⟨_, z, _, there, _⟩ := linked.kid_node (run.mem_after List.mem_cons_self)
      refine ⟨?_, ?_, ?_⟩
      · unfold Store.prevOf Store.merged
        dsimp only
        rw [there]
        exact if_pos rfl
      · rw [merged_nextOf (run.apart linked.valid List.mem_cons_self)]
        exact next
      · apply rest.congr
        · intro k member
          apply merged_prevOf
          intro head
          obtain rfl := Option.some.inj head
          exact (List.nodup_cons.mp tail).1 member
        · exact fun k member => merged_nextOf (run.apart linked.valid (List.mem_cons_of_mem _ member))

section Merged

variable {d : CString} {mem : Mem}

theorem merged_cases {after : Option NodePtr} {n : NodePtr} {y : Xmlnode}
    (here : (s.merged m x d after mem).nodes n = some y) :
    ∃ y₀, s.nodes n = some y₀ ∧ y = y₀.merged n m x d after := by
  obtain ⟨y₀, old, rfl⟩ := Option.map_eq_some_iff.mp here
  exact ⟨y₀, old, rfl⟩

theorem join_kids_self : (F.join m x l₁ mid l₂).kids m = l₁ ++ x :: l₂ := Function.update_self _ _ _

theorem join_kids_other {n : NodePtr} (other : n ≠ m) :
    (F.join m x l₁ mid l₂).kids n = F.kids n := Function.update_of_ne other _ _

variable (linked : Linked s F) (run : F.Run m x l₁ mid l₂)
include linked run

theorem Linked.merged_label (n : NodePtr) : (F.join m x l₁ mid l₂).label n =
    ((s.merged m x (F.data x ++ mid.flatMap F.data) l₂.head? mem).nodes n).map Xmlnode.label := by
  change Function.update F.label x _ n = ((s.nodes n).map _).map Xmlnode.label
  by_cases same : n = x
  · subst n
    obtain ⟨_, y, _, here, _⟩ := linked.kid_node run.mem
    rw [Function.update_self, linked.label, here]
    simp [Xmlnode.label, Xmlnode.merged]
  · rw [Function.update_of_ne same, linked.label]
    cases s.nodes n with
    | none => rfl
    | some y => simp [Xmlnode.label, Xmlnode.merged, same]

/-- The last child stays, or it is the chunk that all others went into. -/
theorem Linked.merged_lastchild {n : NodePtr} {y : Xmlnode} (old : s.nodes n = some y) :
    (if l₂.head? = none ∧ n = m then some x else y.lastchild) =
      ((F.join m x l₁ mid l₂).kids n).getLast? := by
  rw [linked.lastchild n y old]
  by_cases same : n = m
  · subst n
    rw [join_kids_self, run.kids]
    cases l₂ with
    | nil => simp
    | cons c l₂ =>
      have left : l₁ ++ x :: (mid ++ c :: l₂) = (l₁ ++ x :: mid) ++ c :: l₂ := by simp
      have right : l₁ ++ x :: c :: l₂ = (l₁ ++ [x]) ++ c :: l₂ := by simp
      have ends : ∀ l : List NodePtr, (l ++ c :: l₂).getLast? = (c :: l₂).getLast? := by
        intro l
        rw [List.getLast?_append, List.getLast?_cons]
        rfl
      rw [if_neg (fun both => Option.some_ne_none _ both.1), left, right, ends, ends]
  · rw [join_kids_other same, if_neg (fun both => same both.2)]

theorem Linked.merged_links (n : NodePtr) : Links (s.merged m x d l₂.head? mem).prevOf
    (s.merged m x d l₂.head? mem).nextOf none ((F.join m x l₁ mid l₂).kids n) none := by
  by_cases same : n = m
  · subst n
    rw [join_kids_self]
    exact linked.merged_kids run d mem
  · have elsewhere : ∀ k ∈ F.kids n, k ∉ F.kids m :=
      fun k member member' => same (linked.kid_parent member member')
    rw [join_kids_other same]
    apply (linked.kids n).congr
    · intro k member
      apply merged_prevOf
      intro head
      exact elsewhere k member (run.mem_after (List.mem_of_mem_head? head))
    · intro k member
      apply merged_nextOf
      rintro rfl
      exact elsewhere k member run.mem

theorem Linked.merged (grown : Grown s.mem mem) :
    Linked (s.merged m x (F.data x ++ mid.flatMap F.data) l₂.head? mem) (F.join m x l₁ mid l₂) := by
  constructor
  · exact linked.merged_label run
  · exact linked.next
  · intro n y here
    obtain ⟨y₀, old, rfl⟩ := merged_cases here
    change y₀.firstchild = _
    rw [linked.firstchild n y₀ old]
    by_cases same : n = m
    · subst n
      rw [join_kids_self, run.kids]
      cases l₁ with
      | nil => rfl
      | cons k l₁ => rfl
    · rw [join_kids_other same]
  · intro n y here
    obtain ⟨y₀, old, rfl⟩ := merged_cases here
    exact linked.merged_lastchild run old
  · intro n y here
    obtain ⟨y₀, old, rfl⟩ := merged_cases here
    exact linked.firstattrib n y₀ old
  · intro n y here
    obtain ⟨y₀, old, rfl⟩ := merged_cases here
    exact linked.lastattrib n y₀ old
  · exact linked.merged_links run
  · intro n
    apply (linked.attrs n).congr
    · intro k member
      apply merged_prevOf
      intro head
      exact linked.kid_not_attr (run.mem_after (List.mem_of_mem_head? head)) member
    · intro k member
      apply merged_nextOf
      rintro rfl
      exact linked.kid_not_attr run.mem member
  · intro n y here
    obtain ⟨y₀, old, rfl⟩ := merged_cases here
    by_cases same : n = x
    · simp [Xmlnode.merged, same]
    · simp only [Xmlnode.merged, if_neg same]
      exact linked.size n y₀ old
  · intro n y here
    obtain ⟨y₀, old, rfl⟩ := merged_cases here
    exact grown.alive y₀.p (linked.alive n y₀ old)
  · intro n y here type parent
    obtain ⟨y₀, old, rfl⟩ := merged_cases here
    have other : n ≠ x := by
      rintro rfl
      have text := run.text n List.mem_cons_self
      rw [type_eq linked old] at text
      have type : y₀.type = .tag := type
      rw [type] at text
      cases text
    change (if n = x then l₂.head? else y₀.next) = none
    rw [if_neg other]
    exact linked.top n y₀ old type parent
  · exact linked.valid.join run
  · exact grown.reach

end Merged

theorem Linked.run_nodes (linked : Linked s F) (run : F.Run m x l₁ mid l₂) :
    ∀ k ∈ x :: mid, ∃ y, s.nodes k = some y ∧ y.type = .cdata := by
  intro k member
  have inside : k ∈ F.kids m := by
    rw [run.kids, ← List.cons_append]
    exact List.mem_append_right _ (List.mem_append_left _ member)
  obtain ⟨_, y, _, here, _⟩ := linked.kid_node inside
  have type := run.text k member
  rw [type_eq linked here] at type
  exact ⟨y, here, Option.some.inj type⟩

/-- The text that is copied together is that of the run. -/
theorem Linked.run_text (linked : Linked s F) {l : List NodePtr} (live : ∀ k ∈ l, (s.nodes k).isSome = true) :
    (l.filterMap s.nodes).flatMap (fun y => (y.data.getD []).take y.dataSz) = l.flatMap F.data := by
  induction l with
  | nil => rfl
  | cons k l ih =>
    obtain ⟨y, here⟩ := Option.isSome_iff_exists.mp (live k List.mem_cons_self)
    rw [List.filterMap_cons_some here, List.flatMap_cons, List.flatMap_cons, data_eq linked here,
      linked.size k y here, List.take_length, ih fun y member => live y (List.mem_cons_of_mem _ member)]

theorem Linked.run_size (linked : Linked s F) {l : List NodePtr} (live : ∀ k ∈ l, (s.nodes k).isSome = true) :
    ((l.filterMap s.nodes).map Xmlnode.dataSz).sum = (l.flatMap F.data).length := by
  induction l with
  | nil => rfl
  | cons k l ih =>
    obtain ⟨y, here⟩ := Option.isSome_iff_exists.mp (live k List.mem_cons_self)
    rw [List.filterMap_cons_some here, List.map_cons, List.sum_cons, List.flatMap_cons, List.length_append,
      data_eq linked here, linked.size k y here, ih fun y member => live y (List.mem_cons_of_mem _ member)]

/-- Where a run of chunks ends there is no chunk. -/
def Forest.Stops (F : Forest) (l₂ : List NodePtr) : Prop :=
  ∀ k, l₂.head? = some k → F.type k ≠ some .cdata

/-- Once the pointers are set, the text in the first node is all that is missing. -/
theorem merged_write {m : NodePtr} {node : Xmlnode} {mem : Mem} {nodes : NodePtr → Option Xmlnode}
    {d : CString} {next : Option NodePtr} (here : s.nodes x = some node) (apart : m ≠ x)
    (fresh : next ≠ some x) (at_x : nodes x = some { node with next := next })
    (others : ∀ n, n ≠ x → nodes n = (s.nodes n).map fun y => y.merged n m x d next) :
    Store.write { s with nodes := nodes, mem := mem } (some x)
      (fun x => { x with data := some d, dataSz := d.length }) = some (s.merged m x d next mem) := by
  rw [write_eq (s := { s with nodes := nodes, mem := mem }) at_x]
  have same : Function.update nodes x (some { node with next := next, data := some d, dataSz := d.length }) =
      (s.merged m x d next mem).nodes := by
    funext n
    change _ = (s.nodes n).map _
    by_cases at_n : n = x
    · subst n
      rw [Function.update_self, here, Option.map_some]
      unfold Xmlnode.merged
      rw [if_pos rfl, if_pos rfl, if_pos rfl, if_neg fresh, if_neg (fun both => apart both.2.symm)]
    · rw [Function.update_of_ne at_n, others n at_n]
  exact congrArg (fun nodes => some (Store.mk nodes s.next mem)) same

theorem xmlnodeMerge_eq (linked : Linked s F) (run : F.Run m x l₁ mid l₂) (stops : F.Stops l₂) :
    ∃ mem, xmlnodeMerge s x = some (s.merged m x (F.data x ++ mid.flatMap F.data) l₂.head? mem) ∧
      Grown s.mem mem := by
  obtain ⟨y, node, here_m, here, _, _, parent, _⟩ := linked.kid_node run.mem
  have links := linked.kids m
  have length := linked.kids_length m
  rw [run.kids] at links length
  have right := ((links_append l₁ _).mp links).2
  have behind : ∀ k, l₂.head? = some k → ∃ z, s.nodes k = some z ∧ z.type ≠ .cdata := by
    intro k head
    obtain ⟨_, z, _, there, _⟩ := linked.kid_node (run.mem_after (List.mem_of_mem_head? head))
    refine ⟨z, there, fun type => stops k head ?_⟩
    rw [type_eq linked there, type]
  have read : chunks s s.next (some x) = some ((x :: mid).filterMap s.nodes, l₂.head?) := by
    apply chunks_eq (l := x :: mid) right (linked.run_nodes run) behind
    rw [List.length_append] at length
    exact Nat.le_trans (Nat.le_add_left _ _) length
  have live : ∀ k ∈ x :: mid, (s.nodes k).isSome = true := by
    intro k member
    obtain ⟨z, there, _⟩ := linked.run_nodes run k member
    exact Option.isSome_iff_exists.mpr ⟨z, there⟩
  obtain ⟨mem, taken, grown⟩ := Store.pmalloc_grown linked.reach (linked.alive x node here)
    (((x :: mid).flatMap F.data).length + 1)
  have apart : m ≠ x := Nat.ne_of_lt (linked.valid.kid_lt run.mem)
  refine ⟨mem, ?_, grown⟩
  unfold xmlnodeMerge
  rw [here]
  simp only [Option.bind_eq_bind, Option.bind_some]
  rw [read]
  simp only [Option.bind_some]
  rw [linked.run_size live, linked.run_text live, taken]
  simp only [Option.bind_some]
  rw [write_eq (s := { s with mem := mem }) here]
  simp only [Option.bind_some]
  rw [List.flatMap_cons]
  generalize F.data x ++ mid.flatMap F.data = d
  have fresh : l₂.head? ≠ some x := fun head =>
    run.apart linked.valid (List.mem_of_mem_head? head) rfl
  cases head : l₂.head? with
  | none =>
    rw [if_pos rfl]
    rw [write_at (s := { s with
      nodes := Function.update s.nodes x (some { node with next := none }), mem := mem })
      parent ((Function.update_of_ne apart _ _).trans here_m)]
    simp only [Option.bind_some]
    rw [← head]
    apply merged_write here apart fresh
    · rw [Function.update_of_ne (Ne.symm apart), Function.update_self]
    · intro n other
      unfold Xmlnode.merged
      by_cases at_m : n = m
      · subst n
        rw [Function.update_self, here_m, Option.map_some, head]
        simp [other]
      · rw [Function.update_of_ne at_m, Function.update_of_ne other, head]
        cases s.nodes n with
        | none => rfl
        | some z => simp [other, at_m]
  | some c =>
    obtain ⟨z, there, _⟩ := behind c head
    have other_c : c ≠ x := run.apart linked.valid (List.mem_of_mem_head? head)
    rw [if_neg nofun]
    rw [write_eq (s := { s with
      nodes := Function.update s.nodes x (some { node with next := some c }), mem := mem })
      ((Function.update_of_ne other_c _ _).trans there)]
    simp only [Option.bind_some]
    rw [← head]
    apply merged_write here apart fresh
    · rw [Function.update_of_ne (Ne.symm other_c), Function.update_self]
    · intro n other
      unfold Xmlnode.merged
      by_cases at_c : n = c
      · subst n
        rw [Function.update_self, there, Option.map_some, head]
        simp [other]
      · rw [Function.update_of_ne at_c, Function.update_of_ne other, head]
        cases s.nodes n with
        | none => rfl
        | some z => simp [other, Ne.symm at_c]


end Merging

section Reading

variable {s : Store} {F G H : Forest} {m n k x : NodePtr} {l₁ mid l₂ : List NodePtr}

/-- What is left of a forest after it was read: runs of chunks may be one chunk, and every
tag has the tree that it had. -/
structure Reread (F G : Forest) : Prop where
  next : G.next = F.next
  attrs : G.attrs = F.attrs
  type : ∀ n, G.type n = F.type n
  label : ∀ n, F.type n ≠ some .cdata → G.label n = F.label n
  tree : ∀ n, F.type n = some .tag → G.tree n = F.tree n
  fewer : ∀ n, (G.kids n).Sublist (F.kids n)
  valid : G.Valid
  complete : G.Complete

theorem Reread.refl (valid : F.Valid) (complete : F.Complete) : Reread F F :=
  ⟨rfl, rfl, fun _ => rfl, fun _ _ => rfl, fun _ _ => rfl, fun _ => .refl _, valid, complete⟩

theorem Reread.trans (first : Reread F G) (second : Reread G H) : Reread F H where
  next := second.next.trans first.next
  attrs := second.attrs.trans first.attrs
  type n := (second.type n).trans (first.type n)
  label n other := (second.label n (by rwa [first.type])).trans (first.label n other)
  tree n tag := (second.tree n (by rwa [first.type])).trans (first.tree n tag)
  fewer n := (second.fewer n).trans (first.fewer n)
  valid := second.valid
  complete := second.complete

theorem Reread.join (valid : F.Valid) (complete : F.Complete) (run : F.Run m x l₁ mid l₂) :
    Reread F (F.join m x l₁ mid l₂) where
  next := rfl
  attrs := rfl
  type n := setData_type n _
  label n other := by
    apply Function.update_of_ne
    rintro rfl
    exact other (run.text n List.mem_cons_self)
  tree n tag := tree_join valid run tag
  fewer := run.sublist
  valid := valid.join run
  complete := by
    intro n l here type
    by_cases same : n = x
    · subst n
      change Function.update F.label x _ x = some l at here
      rw [Function.update_self] at here
      obtain ⟨l₀, _, rfl⟩ := Option.map_eq_some_iff.mp here
      rfl
    · have here' : F.label n = some l := (Function.update_of_ne same _ _).symm.trans here
      exact complete n l here' type

/-- A chunk stands in front of a run of chunks that ends where there is no chunk. -/
theorem run_exists {l : List NodePtr} (text : F.type x = some .cdata) (kids : F.kids m = l₁ ++ x :: l) :
    ∃ mid l₂, l = mid ++ l₂ ∧ F.Run m x l₁ mid l₂ ∧ F.Stops l₂ := by
  have split : l = l.takeWhile (fun k => F.type k = some .cdata) ++
      l.dropWhile (fun k => F.type k = some .cdata) := List.takeWhile_append_dropWhile.symm
  refine ⟨_, _, split, ⟨?_, ?_⟩, ?_⟩
  · rw [← split, kids]
  · intro k inside
    rcases List.mem_cons.mp inside with rfl | inside
    · exact text
    · have passed := List.mem_takeWhile_imp (p := fun k => decide (F.type k = some .cdata)) inside
      exact of_decide_eq_true passed
  · intro k head type
    have fails := List.head?_dropWhile_not (fun k => decide (F.type k = some .cdata)) l
    rw [head] at fails
    simp [type] at fails

/-- Nothing is joined with a chunk that stands alone. -/
theorem join_alone (complete : F.Complete) (run : F.Run m x l₁ [] l₂) : F.join m x l₁ [] l₂ = F := by
  have labels : Function.update F.label x ((F.label x).map fun l => { l with data := some (F.data x ++ []) }) =
      F.label := by
    have text := run.text x List.mem_cons_self
    unfold Forest.type at text
    obtain ⟨l, here, type⟩ := Option.map_eq_some_iff.mp text
    obtain ⟨d, data⟩ := Option.isSome_iff_exists.mp (complete x l here (by rw [type]; exact nofun))
    apply Function.update_eq_self_iff.mpr
    unfold Forest.data
    rw [here, List.append_nil]
    change some { l with data := some (l.data.getD []) } = some l
    rw [data, Option.getD_some, ← data]
  have kids : Function.update F.kids m (l₁ ++ x :: l₂) = F.kids := by
    apply Function.update_eq_self_iff.mpr
    rw [run.kids]
    rfl
  unfold Forest.join Forest.setData
  rw [List.flatMap_nil, labels, kids]

/-- The first chunk of a run is read with the text of the whole run. -/
theorem assemble_eq (linked : Linked s F) (complete : F.Complete) (run : F.Run m x l₁ mid l₂)
    (stops : F.Stops l₂) :
    ∃ y s', assemble s x = some (y, s') ∧ Linked s' (F.join m x l₁ mid l₂) ∧ Grown s.mem s'.mem ∧
      y.data = some (F.data x ++ mid.flatMap F.data) ∧
      y.dataSz = (F.data x ++ mid.flatMap F.data).length ∧ s'.nodes x = some y := by
  obtain ⟨_, node, _, here, _⟩ := linked.kid_node run.mem
  have next : node.next = (mid ++ l₂).head? := by
    have links := linked.kids m
    rw [run.kids] at links
    have next := links.next_eq
    unfold Store.nextOf at next
    rw [here, start_none] at next
    exact next
  have type : ∀ k, (mid ++ l₂).head? = some k → xmlnodeGetType s (some k) = some (F.type k) := by
    intro k head
    have member : k ∈ F.kids m := by
      rw [run.kids]
      exact List.mem_append_right _ (List.mem_cons_of_mem _ (List.mem_of_mem_head? head))
    obtain ⟨_, z, _, there, _⟩ := linked.kid_node member
    rw [xmlnodeGetType, get_eq there, type_eq linked there]
  unfold assemble
  rw [here]
  simp only [Option.bind_eq_bind, Option.bind_some]
  rw [next]
  cases mid with
  | nil =>
    have still : ∃ t, xmlnodeGetType s ([] ++ l₂).head? = some t ∧ t ≠ some .cdata := by
      cases head : ([] ++ l₂).head? with
      | none => exact ⟨none, rfl, nofun⟩
      | some k => exact ⟨_, type k head, stops k head⟩
    obtain ⟨t, found, other⟩ := still
    rw [found, join_alone complete run]
    simp only [Option.bind_some]
    rw [if_neg other]
    have some_ : node.data = some (F.data x) := by
      obtain ⟨d, data⟩ := Option.isSome_iff_exists.mp (complete x node.label (linked.label_of here) (by
        have text := run.text x List.mem_cons_self
        rw [type_eq linked here] at text
        rw [show node.label.type = .cdata from Option.some.inj text]
        exact nofun))
      have data : node.data = some d := data
      rw [data_eq linked here, data]
      rfl
    have back : (s.nodes x).bind (fun x => some (x, s)) = some (node, s) := by
      rw [here]
      rfl
    refine ⟨node, s, back, linked, .refl linked.reach, ?_, ?_, here⟩
    · rw [List.flatMap_nil, List.append_nil]
      exact some_
    · rw [List.flatMap_nil, List.append_nil, data_eq linked here]
      exact linked.size x node here
  | cons k mid =>
    rw [List.cons_append, List.head?_cons, type k rfl, run.text k (List.mem_cons_of_mem _ List.mem_cons_self)]
    simp only [Option.bind_some, if_true]
    obtain ⟨mem, merged, grown⟩ := xmlnodeMerge_eq linked run stops
    rw [merged]
    simp only [Option.bind_some]
    have new : (s.merged m x (F.data x ++ (k :: mid).flatMap F.data) l₂.head? mem).nodes x =
        some (node.merged x m x (F.data x ++ (k :: mid).flatMap F.data) l₂.head?) := by
      unfold Store.merged
      dsimp only
      rw [here]
      rfl
    rw [new]
    refine ⟨_, _, rfl, linked.merged run grown, grown, ?_, ?_, new⟩
    · exact if_pos rfl
    · exact if_pos rfl

end Reading

section Texts

theorem joinFront_isTag (p : XmlNode → Bool) (text : ∀ d, p (.cdata d) = false) (x : XmlNode) (l : List XmlNode) :
    (joinFront x l).find? p = (x :: l).find? p := by
  cases x with
  | tag n as cs => rw [joinFront_tag rfl]
  | cdata d =>
    cases l with
    | nil => rfl
    | cons y l =>
      cases y with
      | tag n as cs => rfl
      | cdata d' =>
        change (XmlNode.cdata (d ++ d') :: l).find? p = (XmlNode.cdata d :: .cdata d' :: l).find? p
        simp [text]

/-- Joining chunks does not change which tag is found. -/
theorem find?_joined (p : XmlNode → Bool) (text : ∀ d, p (.cdata d) = false) (l : List XmlNode) :
    (joined l).find? p = l.find? p := by
  induction l with
  | nil => rfl
  | cons x l ih => rw [joined_cons, joinFront_isTag p text, List.find?_cons, List.find?_cons, ih]

theorem leadingData_joinFront (d : CString) (l : List XmlNode) :
    leadingData (joinFront (.cdata d) l) = d ++ leadingData l := by
  cases l with
  | nil => rfl
  | cons y l =>
    cases y with
    | tag n as cs => rfl
    | cdata d' =>
      change (d ++ d') ++ leadingData l = d ++ (d' ++ leadingData l)
      exact List.append_assoc _ _ _

theorem leadingData_joined (l : List XmlNode) : leadingData (joined l) = leadingData l := by
  induction l with
  | nil => rfl
  | cons x l ih =>
    cases x with
    | tag n as cs =>
      rw [joined_cons, joinFront_tag rfl]
      rfl
    | cdata d =>
      rw [joined_cons, leadingData_joinFront, ih]
      rfl

theorem childData_joined (l : List XmlNode) : childData (joined l) = childData l := by
  induction l with
  | nil => rfl
  | cons x l ih =>
    cases x with
    | tag n as cs =>
      rw [joined_cons, joinFront_tag rfl]
      exact ih
    | cdata d =>
      have rest := leadingData_joined l
      rw [joined_cons]
      cases joint : joined l with
      | nil =>
        rw [joint] at rest
        change some (d ++ leadingData []) = some (d ++ leadingData l)
        rw [← rest]
      | cons y l' =>
        rw [joint] at rest
        cases y with
        | tag n as cs =>
          change some (d ++ leadingData (.tag n as cs :: l')) = some (d ++ leadingData l)
          rw [← rest]
        | cdata d' =>
          change some (d ++ d' ++ leadingData l') = some (d ++ leadingData l)
          rw [← rest, List.append_assoc]
          rfl

/-- The first chunk among the children is in front of a run. -/
theorem childData_split {l₁ l₂ : List XmlNode} (d : CString) (ds : List CString)
    (tags : ∀ x ∈ l₁, x.isTag = true) (stop : ∀ x, l₂.head? = some x → x.isTag = true) :
    childData (l₁ ++ .cdata d :: (ds.map XmlNode.cdata ++ l₂)) = some (d ++ ds.flatten) := by
  have lead : leadingData (ds.map XmlNode.cdata ++ l₂) = ds.flatten := by
    induction ds with
    | nil =>
      cases l₂ with
      | nil => rfl
      | cons y l₂ =>
        cases y with
        | tag n as cs => rfl
        | cdata d' => cases stop (.cdata d') rfl
    | cons e ds ih =>
      change e ++ leadingData (ds.map XmlNode.cdata ++ l₂) = e ++ ds.flatten
      rw [ih]
  induction l₁ with
  | nil =>
    change some (d ++ leadingData _) = _
    rw [lead]
  | cons x l₁ ih =>
    have tag := tags x List.mem_cons_self
    cases x with
    | tag n as cs => exact ih fun y member => tags y (List.mem_cons_of_mem _ member)
    | cdata d' => cases tag

theorem childData_none {l : List XmlNode} (tags : ∀ x ∈ l, x.isTag = true) : childData l = none := by
  induction l with
  | nil => rfl
  | cons x l ih =>
    have tag := tags x List.mem_cons_self
    cases x with
    | tag n as cs => exact ih fun y member => tags y (List.mem_cons_of_mem _ member)
    | cdata d' => cases tag

end Texts

section Getters

variable {s : Store} {F : Forest} {m n o k x : NodePtr} {y : Xmlnode}

theorem Linked.isTag_tree (linked : Linked s F) (k : NodePtr) :
    (F.tree k).isTag = decide (F.type k = some .tag) := by
  by_cases tag : F.type k = some .tag
  · rw [tree_tag linked.valid tag, decide_eq_true tag]
    rfl
  · rw [tree_text linked.valid tag, decide_eq_false tag]
    rfl

/-- `xmlnode_get_attrib` finds the attribute of the tree. -/
theorem xmlnodeGetAttrib_eq (linked : Linked s F) (complete : F.Complete) (here : s.nodes o = some y)
    (tag : y.type = .tag) (name : CString) :
    xmlnodeGetAttrib s (some o) name = some (JabSimul.xmlnodeGetAttrib (some (F.tree o)) name) := by
  have type : F.type o = some .tag := by rw [type_eq linked here, tag]
  have attribs : JabSimul.xmlnodeGetAttrib (some (F.tree o)) name = (F.findAttr o name).map F.data := by
    rw [tree_tag linked.valid type]
    change ((F.attribs o).find? _).map Prod.snd = _
    unfold Forest.attribs Forest.findAttr
    rw [List.find?_map, Option.map_map]
    rfl
  have first : xmlnodeGetFirstattrib s (some o) = some (F.attrs o).head? := by
    rw [xmlnodeGetFirstattrib, get_eq here, linked.firstattrib o y here]
  rw [attribs, xmlnodeGetAttrib, first]
  simp only [Option.bind_eq_bind, Option.bind_some]
  rw [xmlnodeSearch_attr linked]
  simp only [Option.bind_some]
  cases found : F.findAttr o name with
  | none => rfl
  | some a =>
    obtain ⟨_, z, _, there, _, type, _⟩ := linked.attr_node (List.mem_of_find?_eq_some found)
    have some_ := complete a z.label (linked.label_of there) (by
      change z.type ≠ .tag
      rw [type]
      exact nofun)
    obtain ⟨d, data⟩ := Option.isSome_iff_exists.mp some_
    have data : z.data = some d := data
    rw [get_eq there, data, Option.map_some, data_eq linked there, data]
    rfl

/-- `xmlnode_get_tag` finds the child that the tree has. -/
theorem xmlnodeGetTag_eq (linked : Linked s F) (here : s.nodes m = some y) (tag : y.type = .tag)
    (name : CString) :
    ∃ r : Option NodePtr, xmlnodeGetTag s (some m) name = some r ∧
      JabSimul.xmlnodeGetTag (some (F.tree m)) name = r.map F.tree ∧
      ∀ k, r = some k → k ∈ F.kids m ∧ F.type k = some .tag := by
  have type : F.type m = some .tag := by rw [type_eq linked here, tag]
  have first : xmlnodeGetFirstchild s (some m) = some (F.kids m).head? := by
    rw [xmlnodeGetFirstchild, get_eq here, linked.firstchild m y here]
  refine ⟨(F.kids m).find? fun k => F.type k = some .tag ∧ F.name k = name, ?_, ?_, ?_⟩
  · rw [xmlnodeGetTag, first]
    simp only [Option.bind_eq_bind, Option.bind_some]
    exact xmlnodeSearch_tag linked m name
  · rw [tree_tag linked.valid type]
    change (joined ((F.kids m).map F.tree)).find? _ = _
    rw [find?_joined _ (fun _ => rfl), List.find?_map]
    congr 2
    funext k
    change ((F.tree k).isTag && decide ((F.tree k).name = some name)) = _
    rw [linked.isTag_tree k]
    by_cases tag : F.type k = some .tag
    · rw [tree_tag linked.valid tag]
      simp [tag, XmlNode.name]
    · simp [tag]
  · intro k found
    have passed := List.find?_some found
    exact ⟨List.mem_of_find?_eq_some found, (of_decide_eq_true passed).1⟩

/-- The data of an attribute are read as they are: no chunk follows it. -/
theorem xmlnodeGetData_attr (linked : Linked s F) (complete : F.Complete) (member : k ∈ F.attrs o) :
    xmlnodeGetData s (some k) = some (some (F.data k), s) := by
  obtain ⟨_, z, _, here, _, type, _⟩ := linked.attr_node member
  have some_ := complete k z.label (linked.label_of here) (by
    change z.type ≠ .tag
    rw [type]
    exact nofun)
  obtain ⟨d, data⟩ := Option.isSome_iff_exists.mp some_
  have data : z.data = some d := data
  have still : ∃ t, xmlnodeGetType s z.next = some t ∧ t ≠ some .cdata := by
    obtain ⟨l₁, l₂, attrs⟩ := List.append_of_mem member
    have links := linked.attrs o
    rw [attrs] at links
    have next := links.next_eq
    unfold Store.nextOf at next
    rw [here, start_none] at next
    have next : z.next = l₂.head? := next
    rw [next]
    cases head : l₂.head? with
    | none => exact ⟨none, rfl, nofun⟩
    | some b =>
      have behind : b ∈ F.attrs o := by
        rw [attrs]
        exact List.mem_append_right _ (List.mem_cons_of_mem _ (List.mem_of_mem_head? head))
      obtain ⟨_, w, _, there, _, type', _⟩ := linked.attr_node behind
      refine ⟨some w.type, get_eq there _, ?_⟩
      rw [type']
      exact nofun
  obtain ⟨t, found, other⟩ := still
  rw [xmlnodeGetData, xmlnodeGetType, get_eq here, type]
  simp only [Option.bind_eq_bind, Option.bind_some]
  rw [if_neg nofun]
  rw [assemble, here]
  simp only [Option.bind_eq_bind, Option.bind_some]
  rw [found]
  simp only [Option.bind_some]
  rw [if_neg other, here, data_eq linked here, data]
  simp only [Option.bind_some]
  exact congrArg (fun d => some (d, s)) data

/-- The data of a chunk are those of the run that it begins. -/
theorem xmlnodeGetData_text (linked : Linked s F) (complete : F.Complete) {l₁ mid l₂ : List NodePtr}
    (run : F.Run m x l₁ mid l₂) (stops : F.Stops l₂) :
    ∃ s', xmlnodeGetData s (some x) = some (some (F.data x ++ mid.flatMap F.data), s') ∧
      Linked s' (F.join m x l₁ mid l₂) ∧ Grown s.mem s'.mem := by
  obtain ⟨z, here, type⟩ := linked.run_nodes run x List.mem_cons_self
  obtain ⟨w, s', made, linked', grown, data, _⟩ := assemble_eq linked complete run stops
  refine ⟨s', ?_, linked', grown⟩
  rw [xmlnodeGetData, xmlnodeGetType, get_eq here, type]
  simp only [Option.bind_eq_bind, Option.bind_some]
  rw [if_neg nofun]
  simp only [made, Option.bind_some, data]

theorem xmlnodeGetDatasz_text (linked : Linked s F) (complete : F.Complete) {l₁ mid l₂ : List NodePtr}
    (run : F.Run m x l₁ mid l₂) (stops : F.Stops l₂) :
    ∃ s', xmlnodeGetDatasz s (some x) = some ((F.data x ++ mid.flatMap F.data).length, s') ∧
      Linked s' (F.join m x l₁ mid l₂) ∧ Grown s.mem s'.mem := by
  obtain ⟨z, here, type⟩ := linked.run_nodes run x List.mem_cons_self
  obtain ⟨w, s', made, linked', grown, _, size, _⟩ := assemble_eq linked complete run stops
  refine ⟨s', ?_, linked', grown⟩
  rw [xmlnodeGetDatasz, xmlnodeGetType, get_eq here, type]
  simp only [Option.bind_eq_bind, Option.bind_some]
  rw [if_neg (not_not_intro rfl)]
  simp only [made, Option.bind_some, size]

/-- The first chunk among the children. -/
theorem xmlnodeGetData_walk (linked : Linked s F) (here : s.nodes m = some y) :
    s.walk (fun z => z.type = .cdata) s.next y.firstchild =
      some ((F.kids m).find? fun k => F.type k = some .cdata) := by
  rw [linked.firstchild m y here, walk_eq (linked.kids m) (linked.kids_live m) (linked.kids_length m)]
  congr 1
  apply List.find?_congr
  intro k member
  obtain ⟨_, z, _, there, _⟩ := linked.kid_node member
  rw [there, type_eq linked there, Option.any_some]
  simp

/-- A child is a tag or a chunk of character data. -/
theorem Linked.kid_type (linked : Linked s F) (member : k ∈ F.kids m) (other : F.type k ≠ some .cdata) :
    F.type k = some .tag := by
  obtain ⟨_, z, _, there, _, type, _⟩ := linked.kid_node member
  rw [type_eq linked there] at other ⊢
  cases given : z.type with
  | tag => rfl
  | attrib => exact absurd given type
  | cdata =>
    rw [given] at other
    exact absurd rfl other

/-- `xmlnode_get_data` of a tag is the first text among its children, as the tree has it. -/
theorem xmlnodeGetData_tag (linked : Linked s F) (complete : F.Complete) (here : s.nodes m = some y)
    (tag : y.type = .tag) :
    ∃ s' G, xmlnodeGetData s (some m) = some (JabSimul.xmlnodeGetData (some (F.tree m)), s') ∧
      Linked s' G ∧ Reread F G ∧ Grown s.mem s'.mem := by
  have type : F.type m = some .tag := by rw [type_eq linked here, tag]
  have tree : JabSimul.xmlnodeGetData (some (F.tree m)) = childData ((F.kids m).map F.tree) := by
    rw [tree_tag linked.valid type]
    exact childData_joined _
  have walk := xmlnodeGetData_walk linked here
  rw [tree, xmlnodeGetData, xmlnodeGetType, get_eq here, tag]
  simp only [Option.bind_eq_bind, Option.bind_some, if_true]
  rw [xmlnodeGetFirstchild, get_eq here]
  simp only [Option.bind_some]
  rw [walk]
  simp only [Option.bind_some]
  cases found : (F.kids m).find? fun k => F.type k = some .cdata with
  | none =>
    have tags : ∀ t ∈ (F.kids m).map F.tree, t.isTag = true := by
      intro t member
      obtain ⟨k, inside, rfl⟩ := List.mem_map.mp member
      have other := List.find?_eq_none.mp found k inside
      rw [linked.isTag_tree k]
      exact decide_eq_true (linked.kid_type inside fun text => other (decide_eq_true text))
    refine ⟨s, F, ?_, linked, .refl linked.valid complete, .refl linked.reach⟩
    rw [childData_none tags]
  | some x =>
    have text : F.type x = some .cdata :=
      of_decide_eq_true (List.find?_some (p := fun k => decide (F.type k = some .cdata)) found)
    obtain ⟨l₁, l, kids, before⟩ : ∃ l₁ l, F.kids m = l₁ ++ x :: l ∧ ∀ k ∈ l₁, F.type k ≠ some .cdata := by
      obtain ⟨_, l₁, l, kids, before⟩ := List.find?_eq_some_iff_append.mp found
      refine ⟨l₁, l, kids, fun k member text => ?_⟩
      have other := before k member
      rw [decide_eq_true text] at other
      cases other
    obtain ⟨mid, l₂, rfl, run, stops⟩ := run_exists text kids
    obtain ⟨w, s', made, linked', grown, data, _⟩ := assemble_eq linked complete run stops
    refine ⟨s', _, ?_, linked', .join linked.valid complete run, grown⟩
    have first : F.tree x = .cdata (F.data x) := by
      apply tree_text linked.valid
      rw [text]
      exact nofun
    have chunks : mid.map F.tree = (mid.map F.data).map XmlNode.cdata :=
      text_trees linked.valid fun k member => run.text k (List.mem_cons_of_mem _ member)
    have tags : ∀ t ∈ l₁.map F.tree, t.isTag = true := by
      intro t member
      obtain ⟨k, inside, rfl⟩ := List.mem_map.mp member
      have in_kids : k ∈ F.kids m := by
        rw [kids]
        exact List.mem_append_left _ inside
      rw [linked.isTag_tree k]
      exact decide_eq_true (linked.kid_type in_kids (before k inside))
    have stop : ∀ t, (l₂.map F.tree).head? = some t → t.isTag = true := by
      intro t head
      rw [List.head?_map] at head
      obtain ⟨k, front, rfl⟩ := Option.map_eq_some_iff.mp head
      rw [linked.isTag_tree k]
      exact decide_eq_true (linked.kid_type (run.mem_after (List.mem_of_mem_head? front)) (stops k front))
    dsimp only
    rw [made, run.kids, List.map_append, List.map_cons, List.map_append, first, chunks,
      childData_split _ _ tags stop, ← List.flatMap_def]
    simp only [Option.bind_some, data]

/-- `xmlnode_get_tag_data` reads what the tree has. -/
theorem xmlnodeGetTagData_eq (linked : Linked s F) (complete : F.Complete) (here : s.nodes m = some y)
    (tag : y.type = .tag) (name : CString) :
    ∃ s' G, xmlnodeGetTagData s (some m) name =
        some (JabSimul.xmlnodeGetTagData (some (F.tree m)) name, s') ∧
      Linked s' G ∧ Reread F G ∧ Grown s.mem s'.mem := by
  obtain ⟨r, found, tree, inside⟩ := xmlnodeGetTag_eq linked here tag name
  rw [xmlnodeGetTagData, found, JabSimul.xmlnodeGetTagData, tree]
  simp only [Option.bind_eq_bind, Option.bind_some]
  cases r with
  | none => exact ⟨s, F, rfl, linked, .refl linked.valid complete, .refl linked.reach⟩
  | some k =>
    obtain ⟨member, type⟩ := inside k rfl
    obtain ⟨_, z, _, there, _⟩ := linked.kid_node member
    rw [type_eq linked there] at type
    rw [if_neg nofun]
    exact xmlnodeGetData_tag linked complete there (Option.some.inj type)


end Getters

section Freeing

variable {s : Store} {F : Forest} {n : NodePtr} {x : Xmlnode}

/-- The store without the nodes of a pool. -/
def Store.dropped (s : Store) (p : PoolPtr) (mem : Mem) : Store where
  nodes m := (s.nodes m).filter fun y => y.p ≠ p
  next := s.next
  mem := mem

theorem dropped_some {p : PoolPtr} {mem : Mem} {y : Xmlnode} :
    (s.dropped p mem).nodes n = some y ↔ s.nodes n = some y ∧ y.p ≠ p := by
  unfold Store.dropped
  dsimp only
  rw [Option.filter_eq_some_iff]
  simp

theorem dropped_links {p : PoolPtr} {mem : Mem} {l : List NodePtr} {before after : Option NodePtr}
    (links : Links s.prevOf s.nextOf before l after)
    (kept : ∀ k ∈ l, ∃ y, (s.dropped p mem).nodes k = some y) :
    Links (s.dropped p mem).prevOf (s.dropped p mem).nextOf before l after := by
  apply links.congr
  · intro k member
    obtain ⟨y, here⟩ := kept k member
    unfold Store.prevOf
    rw [here, (dropped_some.mp here).1]
  · intro k member
    obtain ⟨y, here⟩ := kept k member
    unfold Store.nextOf
    rw [here, (dropped_some.mp here).1]

theorem Linked.drop (linked : Linked s F) {p : PoolPtr} {mem : Mem}
    (alive : ∀ q, q ≠ p → (s.mem.pools q).isSome = true → (mem.pools q).isSome = true)
    (reach : mem.Reachable) : Linked (s.dropped p mem) (F.drop p) := by
  have label : ∀ m, (F.drop p).label m = ((s.dropped p mem).nodes m).map Xmlnode.label := by
    intro m
    unfold Forest.drop Store.dropped
    dsimp only
    rw [linked.label]
    cases s.nodes m with
    | none => rfl
    | some y =>
      rw [Option.map_some, Option.filter_some, Option.filter_some]
      change (if decide (y.p ≠ p) = true then some y.label else none) =
        (if decide (y.p ≠ p) = true then some y else none).map Xmlnode.label
      split
      · rfl
      · rfl
  have kids : ∀ m y, (s.dropped p mem).nodes m = some y → (F.drop p).kids m = F.kids m := by
    intro m y here
    obtain ⟨here, other⟩ := dropped_some.mp here
    unfold Forest.drop
    dsimp only
    rw [linked.label_of here, if_pos]
    exact decide_eq_true other
  have attrs : ∀ m y, (s.dropped p mem).nodes m = some y → (F.drop p).attrs m = F.attrs m := by
    intro m y here
    obtain ⟨here, other⟩ := dropped_some.mp here
    unfold Forest.drop
    dsimp only
    rw [linked.label_of here, if_pos]
    exact decide_eq_true other
  have gone : ∀ m, (s.dropped p mem).nodes m = none → (F.drop p).label m = none := by
    intro m none
    rw [label, none]
    rfl
  have valid := linked.valid.drop p
  constructor
  · exact label
  · exact linked.next
  · intro m y here
    rw [kids m y here]
    exact linked.firstchild m y (dropped_some.mp here).1
  · intro m y here
    rw [kids m y here]
    exact linked.lastchild m y (dropped_some.mp here).1
  · intro m y here
    rw [attrs m y here]
    exact linked.firstattrib m y (dropped_some.mp here).1
  · intro m y here
    rw [attrs m y here]
    exact linked.lastattrib m y (dropped_some.mp here).1
  · intro m
    cases here : (s.dropped p mem).nodes m with
    | none =>
      rw [valid.kids_none (gone m here)]
      trivial
    | some y =>
      have same := kids m y here
      rw [same]
      apply dropped_links (linked.kids m)
      intro k member
      rw [← same] at member
      obtain ⟨_, l, _, there, _⟩ := valid.kid m k member
      rw [label] at there
      obtain ⟨z, there, _⟩ := Option.map_eq_some_iff.mp there
      exact ⟨z, there⟩
  · intro m
    cases here : (s.dropped p mem).nodes m with
    | none =>
      rw [valid.attrs_none (gone m here)]
      trivial
    | some y =>
      have same := attrs m y here
      rw [same]
      apply dropped_links (linked.attrs m)
      intro k member
      rw [← same] at member
      obtain ⟨_, l, _, there, _⟩ := valid.attr m k member
      rw [label] at there
      obtain ⟨z, there, _⟩ := Option.map_eq_some_iff.mp there
      exact ⟨z, there⟩
  · exact fun m y here => linked.size m y (dropped_some.mp here).1
  · intro m y here
    obtain ⟨here, other⟩ := dropped_some.mp here
    exact alive y.p other (linked.alive m y here)
  · exact fun m y here => linked.top m y (dropped_some.mp here).1
  · exact valid
  · exact reach

/-- `xmlnode_free` takes the whole tree away and leaves what lies in other pools. -/
theorem xmlnodeFree_eq (linked : Linked s F) (here : s.nodes n = some x) :
    ∃ mem, xmlnodeFree s (some n) = some (s.dropped x.p mem) ∧
      Linked (s.dropped x.p mem) (F.drop x.p) ∧ mem.pools x.p = none := by
  obtain ⟨pool, there⟩ := Option.isSome_iff_exists.mp (linked.alive n x here)
  have step := linked.reach.step (.free x.p) (linked.alive n x here)
  have freed := poolFree_eq linked.reach.sound there
  refine ⟨poolFree s.mem x.p, ?_, linked.drop ?_ step, ?_⟩
  · unfold xmlnodeFree
    dsimp only
    rw [here]
    rfl
  · intro q other alive
    rw [freed]
    change (Function.update s.mem.pools x.p none q).isSome = true
    rw [Function.update_of_ne other]
    exact alive
  · rw [freed]
    exact Function.update_self _ _ _

/-- A tree of another pool stays what it was. -/
theorem tree_drop (valid : F.Valid) {p : PoolPtr} {l : Label} (here : F.label n = some l) (other : l.p ≠ p) :
    (F.drop p).tree n = F.tree n := by
  have alike : Alike (fun m => ∃ l, F.label m = some l ∧ l.p ≠ p) F (F.drop p) := by
    have kept : ∀ m l, F.label m = some l → l.p ≠ p → (F.drop p).label m = F.label m := by
      intro m l here other
      rw [here]
      exact drop_label.mpr ⟨here, other⟩
    constructor
    · rintro m ⟨l, here, other⟩ k member
      obtain ⟨lm, lk, here', there, _, _, _, pool, _⟩ := valid.kid m k member
      rw [here] at here'
      obtain rfl := Option.some.inj here'
      exact ⟨lk, there, pool ▸ other⟩
    · rintro m ⟨l, here, other⟩
      exact kept m l here other
    · rintro m ⟨l, here, other⟩
      unfold Forest.drop
      dsimp only
      rw [here, if_pos]
      exact decide_eq_true other
    · rintro m ⟨l, here, other⟩
      have attrs : (F.drop p).attrs m = F.attrs m := by
        unfold Forest.drop
        dsimp only
        rw [here, if_pos]
        exact decide_eq_true other
      unfold Forest.attribs
      rw [attrs]
      apply List.map_congr_left
      intro a member
      obtain ⟨lm, la, here', there, _, _, pool, _⟩ := valid.attr m a member
      rw [here] at here'
      obtain rfl := Option.some.inj here'
      unfold Forest.name Forest.data
      rw [kept a la there (pool ▸ other)]
  exact alike.tree valid (valid.drop p) ⟨l, here, other⟩

end Freeing

end JabSimul.Dom
