import JabSimul.DomAttribs
import JabSimul.Lib.Fuel

/-!
`xmlnode_dup`: a copy of a tree under a new node. The copy is made behind everything that
was there, and the nodes that are copied are only read, so that at most their chunks of
character data are joined.
-/
namespace JabSimul.Dom

open Pools SiblingList Fuel

section Frames

variable {F G H : Forest} {b t q q' n c : NodePtr} {l : Label}

/-- No child of a node below a bound lies above it. -/
def Forest.Closed (F : Forest) (b : NodePtr) : Prop := ∀ n, n < b → ∀ k ∈ F.kids n, k < b

/-- What is kept while a copy is made under `q`, from `b` on: the trees below `b`. Only
below `t` chunks of character data may be joined. -/
structure Kept (b t q : NodePtr) (F G : Forest) : Prop where
  next : F.next ≤ G.next
  type : ∀ n, n < F.next → G.type n = F.type n
  label : ∀ n, n < F.next → (F.type n ≠ some .cdata ∨ b ≤ n) → G.label n = F.label n
  attrs : ∀ n, n < F.next → n ≠ q → G.attrs n = F.attrs n
  fewer : ∀ n, n < b → (G.kids n).Sublist (F.kids n)
  kids : ∀ n, n < F.next → n ≠ q → (n < t ∨ b ≤ n) → G.kids n = F.kids n
  tree : ∀ n, n < b → (F.type n = some .tag ∨ ∃ m, m < t ∧ n ∈ F.kids m) → G.tree n = F.tree n

/-- Where a copy is made. -/
structure Place (b t q : NodePtr) (F : Forest) : Prop where
  top : t ≤ b
  low : b ≤ q
  bound : b ≤ F.next
  closed : F.Closed b

theorem Kept.closed (kept : Kept b t q F G) (closed : F.Closed b) : G.Closed b :=
  fun n low k member => closed n low k ((kept.fewer n low).subset member)

theorem Kept.place (kept : Kept b t q F G) (place : Place b t q F) (high : b ≤ q') : Place b t q' G :=
  ⟨place.top, high, Nat.le_trans place.bound kept.next, kept.closed place.closed⟩

theorem Kept.trans (first : Kept b t q F G) (second : Kept b t q' G H) (place : Place b t q F)
    (new : q' = q ∨ F.next ≤ q') : Kept b t q F H := by
  have apart : ∀ n, n < F.next → n ≠ q → n ≠ q' := by
    rintro n low other rfl
    rcases new with same | high
    · exact other same
    · exact Nat.lt_irrefl _ (Nat.lt_of_lt_of_le low high)
  have later : ∀ n, n < F.next → n < G.next := fun n low => Nat.lt_of_lt_of_le low first.next
  constructor
  · exact Nat.le_trans first.next second.next
  · exact fun n low => (second.type n (later n low)).trans (first.type n low)
  · intro n low kind
    rw [second.label n (later n low) (first.type n low ▸ kind), first.label n low kind]
  · exact fun n low other => (second.attrs n (later n low) (apart n low other)).trans (first.attrs n low other)
  · exact fun n low => (second.fewer n low).trans (first.fewer n low)
  · intro n low other here
    rw [second.kids n (later n low) (apart n low other) here, first.kids n low other here]
  · intro n low kind
    have old : n < F.next := Nat.lt_of_lt_of_le low place.bound
    rw [second.tree n low, first.tree n low kind]
    rcases kind with tag | ⟨m, above, member⟩
    · exact .inl ((first.type n old).trans tag)
    · have below : m < b := Nat.lt_of_lt_of_le above place.top
      refine .inr ⟨m, above, ?_⟩
      rw [first.kids m (Nat.lt_of_lt_of_le below place.bound)
        (Nat.ne_of_lt (Nat.lt_of_lt_of_le below place.low)) (.inl above)]
      exact member

theorem Kept.above (kept : Kept b t q F G) {t' : NodePtr} (le : t' ≤ t) : Kept b t' q F G where
  next := kept.next
  type := kept.type
  label := kept.label
  attrs := kept.attrs
  fewer := kept.fewer
  kids n low other here := kept.kids n low other (here.imp_left fun below => Nat.lt_of_lt_of_le below le)
  tree n low kind := kept.tree n low
    (kind.imp_right fun ⟨m, below, member⟩ => ⟨m, Nat.lt_of_lt_of_le below le, member⟩)

/-- A tree that is already there behind the node that grows stays as it is. -/
theorem Kept.tree_new (kept : Kept b t q G H) (valid : G.Valid) (valid' : H.Valid) (high : b ≤ c)
    (behind : q < c) (low : c < G.next) : H.tree c = G.tree c := by
  have alike : Alike (fun n => c ≤ n ∧ n < G.next) G H := by
    constructor
    · intro m ⟨here, _⟩ k member
      exact ⟨Nat.le_of_lt (Nat.lt_of_le_of_lt here (valid.kid_lt member)), valid.kid_lt_next member⟩
    · exact fun m ⟨here, below⟩ => kept.label m below (.inr (Nat.le_trans high here))
    · exact fun m ⟨here, below⟩ => kept.kids m below (Nat.ne_of_gt (Nat.lt_of_lt_of_le behind here))
        (.inr (Nat.le_trans high here))
    · intro m ⟨here, below⟩
      unfold Forest.attribs
      rw [kept.attrs m below (Nat.ne_of_gt (Nat.lt_of_lt_of_le behind here))]
      apply values_congr
      intro a member
      obtain ⟨_, _, _, _, _, _, _, later⟩ := valid.attr m a member
      exact kept.label a (valid.attr_lt_next member)
        (.inr (Nat.le_trans high (Nat.le_of_lt (Nat.lt_of_le_of_lt here later))))
  exact alike.tree valid valid' ⟨Nat.le_refl _, low⟩

/-- Changes that are all made from `b` on. -/
theorem kept_of_behind (place : Place b t q F) (valid : F.Valid) (valid' : G.Valid) (next : F.next ≤ G.next)
    (label : ∀ n, n < F.next → G.label n = F.label n) (attrs : ∀ n, n < F.next → n ≠ q → G.attrs n = F.attrs n)
    (kids : ∀ n, n < F.next → n ≠ q → G.kids n = F.kids n) : Kept b t q F G := by
  have apart : ∀ n, n < b → n ≠ q := fun n low => Nat.ne_of_lt (Nat.lt_of_lt_of_le low place.low)
  have old : ∀ n, n < b → n < F.next := fun n low => Nat.lt_of_lt_of_le low place.bound
  have alike : Alike (fun n => n < b) F G := by
    constructor
    · exact place.closed
    · exact fun n low => label n (old n low)
    · exact fun n low => kids n (old n low) (apart n low)
    · intro n low
      unfold Forest.attribs
      rw [attrs n (old n low) (apart n low)]
      apply values_congr
      exact fun a member => label a (valid.attr_lt_next member)
  constructor
  · exact next
  · intro n low
    unfold Forest.type
    rw [label n low]
  · exact fun n low _ => label n low
  · exact attrs
  · intro n low
    rw [kids n (old n low) (apart n low)]
  · exact fun n low other _ => kids n low other
  · exact fun n low _ => alike.tree valid valid' low

theorem kept_push (place : Place b t q F) (valid : F.Valid) (fits : F.Fits l none) (parent : l.parent = some q) :
    Kept b t q F (F.push l none) := by
  apply kept_of_behind place valid (valid.push fits) (Nat.le_succ _)
  · exact fun n low => push_label_old low
  · exact fun n low other => rfl
  · intro n low other
    apply if_neg
    rw [parent]
    exact fun same => other (Option.some.inj same).symm

theorem kept_attributed {as : List (CString × CString)} (place : Place b t q F) (valid : F.Valid)
    (valid' : G.Valid) (done : Attributed q F G as) (empty : F.attrs q = []) : Kept b t q F G := by
  apply kept_of_behind place valid valid' done.next
  · intro n low
    apply done.label n low
    rw [empty]
    exact List.not_mem_nil
  · exact fun n _ other => done.attrs n other
  · exact fun n _ _ => congrFun done.kids n

theorem kept_join {m x : NodePtr} {l₁ mid l₂ : List NodePtr} (place : Place b m q F) (valid : F.Valid)
    (run : F.Run m x l₁ mid l₂) (low : m < b) : Kept b m q F (F.join m x l₁ mid l₂) := by
  have member := run.mem
  have below : x < b := place.closed m low x member
  constructor
  · exact Nat.le_refl _
  · exact fun n _ => setData_type n _
  · intro n _ kind
    apply Function.update_of_ne
    rintro rfl
    rcases kind with other | high
    · exact other (run.text n List.mem_cons_self)
    · exact Nat.lt_irrefl _ (Nat.lt_of_lt_of_le below high)
  · exact fun n _ _ => rfl
  · exact fun n _ => run.sublist n
  · intro n _ _ here
    apply Function.update_of_ne
    rintro rfl
    rcases here with here | here
    · exact Nat.lt_irrefl _ here
    · exact Nat.lt_irrefl _ (Nat.lt_of_lt_of_le low here)
  · intro n _ kind
    apply tree_join_other valid run
    rintro rfl
    rcases kind with tag | ⟨m', above, member'⟩
    · rw [run.text n List.mem_cons_self] at tag
      cases tag
    · obtain ⟨_, l, _, here, _, _, parent, _⟩ := valid.kid m n member
      obtain ⟨_, l', _, here', _, _, parent', _⟩ := valid.kid m' n member'
      rw [here] at here'
      obtain rfl := Option.some.inj here'
      rw [parent] at parent'
      obtain rfl := Option.some.inj parent'
      exact Nat.lt_irrefl _ above

end Frames

section Copies

variable {F G H : Forest} {b t q k : NodePtr} {ts ts' : List XmlNode}

theorem joined_joined (l : List XmlNode) : joined (joined l) = joined l := by
  induction l with
  | nil => rfl
  | cons x l ih =>
    cases x with
    | tag n as cs => rw [joined_cons, joinFront_tag rfl, joined_cons, joinFront_tag rfl, ih]
    | cdata d =>
      rw [joined_cons]
      cases rest : joined l with
      | nil => rfl
      | cons y l' =>
        rw [rest] at ih
        cases y with
        | tag n as cs =>
          change joined (.cdata d :: .tag n as cs :: l') = _
          rw [joined_cons, ih]
        | cdata e =>
          change joined (.cdata (d ++ e) :: l') = .cdata (d ++ e) :: l'
          rw [joined_cons, ← joinFront_cdata, ← joined_cons (.cdata e), ih]
          rfl

/-- Trees that are new behind the children of `q`. -/
structure Copied (b t q : NodePtr) (F G : Forest) (ts : List XmlNode) : Prop where
  kept : Kept b t q F G
  attrs : G.attrs q = F.attrs q
  new : ∃ l, G.kids q = F.kids q ++ l ∧ (∀ c ∈ l, F.next ≤ c) ∧ l.map G.tree = ts

theorem Copied.trans (first : Copied b t q F G ts) (second : Copied b t q G H ts') (place : Place b t q F)
    (low : q < F.next) (valid : G.Valid) (valid' : H.Valid) : Copied b t q F H (ts ++ ts') := by
  obtain ⟨l, kids, high, trees⟩ := first.new
  obtain ⟨l', kids', high', trees'⟩ := second.new
  refine ⟨first.kept.trans second.kept place (.inl rfl), second.attrs.trans first.attrs, l ++ l', ?_, ?_, ?_⟩
  · rw [kids', kids, List.append_assoc]
  · intro c member
    rcases List.mem_append.mp member with member | member
    · exact high c member
    · exact Nat.le_trans first.kept.next (high' c member)
  · rw [List.map_append, trees', ← trees]
    congr 1
    apply List.map_congr_left
    intro c member
    have new := high c member
    have inside : c ∈ G.kids q := by
      rw [kids]
      exact List.mem_append_right _ member
    apply second.kept.tree_new valid valid'
    · exact Nat.le_trans place.bound new
    · exact Nat.lt_of_lt_of_le low new
    · exact valid.kid_lt_next inside

theorem Copied.refl (place : Place b t q F) (valid : F.Valid) : Copied b t q F F [] where
  kept := kept_of_behind place valid valid (Nat.le_refl _) (fun _ _ => rfl) (fun _ _ _ => rfl) fun _ _ _ => rfl
  attrs := rfl
  new := ⟨[], (List.append_nil _).symm, fun _ member => absurd member List.not_mem_nil, rfl⟩

/-- Chunks among the nodes that are copied are joined. -/
theorem copied_join {m x : NodePtr} {l₁ mid l₂ : List NodePtr} (place : Place b m q F) (valid : F.Valid)
    (run : F.Run m x l₁ mid l₂) (low : m < b) : Copied b m q F (F.join m x l₁ mid l₂) [] where
  kept := kept_join place valid run low
  attrs := rfl
  new := by
    refine ⟨[], ?_, fun _ member => absurd member List.not_mem_nil, rfl⟩
    rw [List.append_nil]
    exact Function.update_of_ne (Nat.ne_of_gt (Nat.lt_of_lt_of_le low place.low)) _ _

/-- A new node without children of its own. -/
theorem copied_push {l : Label} (place : Place b t q F) (valid : F.Valid) (fits : F.Fits l none)
    (parent : l.parent = some q) : Copied b t q F (F.push l none) [(F.push l none).tree F.next] where
  kept := kept_push place valid fits parent
  attrs := rfl
  new := by
    refine ⟨[F.next], if_pos parent, ?_, rfl⟩
    intro c member
    rw [List.mem_singleton.mp member]

/-- A new tag gets its attributes and then its children. -/
theorem filled {name : CString} {p : PoolPtr} {parent : Option NodePtr} {as : List (CString × CString)} {t' : NodePtr}
    (place : Place b t q F) (valid : F.Valid) (label : F.label q = some ⟨.tag, some name, none, p, parent⟩)
    (no_attrs : F.attrs q = []) (no_kids : F.kids q = []) (valid' : G.Valid) (done : Attributed q F G as)
    (above : t ≤ t') (valid'' : H.Valid) (copied : Copied b t' q G H ts) :
    Kept b t q F H ∧ H.tree q = .tag name as (joined ts) := by
  have first := kept_attributed place valid valid' done no_attrs
  have second := copied.kept.above above
  have low := valid.lt_next label
  have low' : q < G.next := Nat.lt_of_lt_of_le low first.next
  refine ⟨first.trans second place (.inl rfl), ?_⟩
  obtain ⟨l, kids, _, trees⟩ := copied.new
  have label' : H.label q = some ⟨.tag, some name, none, p, parent⟩ := by
    rw [second.label q low' (.inr place.low), first.label q low (.inr place.low), label]
  have tag : H.type q = some .tag := by
    unfold Forest.type
    rw [label']
    rfl
  have called : H.name q = name := by
    unfold Forest.name
    rw [label']
    rfl
  have attribs : H.attribs q = as := by
    rw [← done.attribs]
    unfold Forest.attribs
    rw [copied.attrs]
    apply values_congr
    intro a member
    obtain ⟨_, _, _, _, _, _, _, later⟩ := valid'.attr q a member
    exact second.label a (valid'.attr_lt_next member) (.inr (Nat.le_trans place.low (Nat.le_of_lt later)))
  rw [tree_tag valid'' tag, called, attribs, kids, done.kids, no_kids, List.nil_append, trees]

/-- The same for a tag that is made under `q`. -/
theorem copied_tag {name : CString} {p : PoolPtr} {as : List (CString × CString)} {t' : NodePtr}
    (place : Place b t q F) (valid : F.Valid) (low : q < F.next)
    (fits : F.Fits ⟨.tag, some name, none, p, some q⟩ none) (valid' : G.Valid)
    (done : Attributed F.next (F.push ⟨.tag, some name, none, p, some q⟩ none) G as)
    (above : t ≤ t') (valid'' : H.Valid) (copied : Copied b t' F.next G H ts) :
    Copied b t q F H [.tag name as (joined ts)] := by
  have unlabelled : F.label F.next = none := valid.bound F.next (Nat.le_refl _)
  have other : q ≠ F.next := Nat.ne_of_lt low
  have first := copied_push place valid fits rfl
  have place' : Place b t F.next (F.push ⟨.tag, some name, none, p, some q⟩ none) :=
    first.kept.place place place.bound
  have no_kids : (F.push ⟨.tag, some name, none, p, some q⟩ none).kids F.next = [] :=
    (if_neg fun same => other (Option.some.inj same)).trans (valid.kids_none unlabelled)
  have later : q < (F.push ⟨.tag, some name, none, p, some q⟩ none).next := Nat.lt_succ_of_lt low
  obtain ⟨second, tree⟩ := filled place' (valid.push fits) push_label_new (valid.attrs_none unlabelled) no_kids
    valid' done above valid'' copied
  refine ⟨first.kept.trans second place (.inr (Nat.le_refl _)), ?_, [F.next], ?_, ?_, ?_⟩
  · rw [second.attrs q later other]
    rfl
  · rw [second.kids q later other (.inr place.low)]
    exact if_pos rfl
  · intro c member
    rw [List.mem_singleton.mp member]
  · rw [List.map_singleton, tree]

end Copies

section Code

variable {s : Store} {F : Forest} {b m k q c : NodePtr} {x y : Xmlnode}

theorem nextsibling_attr (linked : Linked s F) {l₁ l : List NodePtr} (attrs : F.attrs m = l₁ ++ k :: l) :
    xmlnodeGetNextsibling s (some k) = some l.head? := by
  have links := linked.attrs m
  rw [attrs] at links
  have next := links.next_eq
  have member : k ∈ F.attrs m := by
    rw [attrs]
    exact List.mem_append_right _ List.mem_cons_self
  obtain ⟨_, y, _, here, _⟩ := linked.attr_node member
  rw [xmlnodeGetNextsibling, get_eq here]
  unfold Store.nextOf at next
  rw [here, start_none] at next
  exact congrArg some next

theorem nextsibling_kid (linked : Linked s F) {l₁ l : List NodePtr} (kids : F.kids m = l₁ ++ k :: l) :
    xmlnodeGetNextsibling s (some k) = some l.head? := by
  have links := linked.kids m
  rw [kids] at links
  have next := links.next_eq
  have member : k ∈ F.kids m := by
    rw [kids]
    exact List.mem_append_right _ List.mem_cons_self
  obtain ⟨_, y, _, here, _⟩ := linked.kid_node member
  rw [xmlnodeGetNextsibling, get_eq here]
  unfold Store.nextOf at next
  rw [here, start_none] at next
  exact congrArg some next

theorem insertNode_nil (s : Store) (parent : Option NodePtr) :
    Ends (fun fuel => xmlnodeInsertNode fuel s parent none) s := by
  apply (Ends.always s).succ
  intro fuel
  rw [xmlnodeInsertNode, if_pos (.inl rfl)]

/-- The copy of one node, then the siblings behind it. -/
theorem insertNode_attr (here : s.nodes k = some y) (type : y.type = .attrib) (fuel : Nat) :
    xmlnodeInsertNode (fuel + 1) s (some q) (some k) =
      (xmlnodeGetData s (some k)).bind fun r => (xmlnodePutAttrib r.2 (some q) y.name r.1).bind fun s' =>
        (xmlnodeGetNextsibling s' (some k)).bind fun next => xmlnodeInsertNode fuel s' (some q) next := by
  rw [xmlnodeInsertNode, if_neg (by rintro (none | none) <;> cases none), xmlnodeGetType, get_eq here]
  simp only [Option.bind_eq_bind, Option.bind_some]
  rw [type, xmlnodeGetName, get_eq here]
  rfl

theorem insertNode_tag (here : s.nodes k = some y) (type : y.type = .tag) (fuel : Nat) :
    xmlnodeInsertNode (fuel + 1) s (some q) (some k) =
      (xmlnodeInsertTagNode fuel s (some q) (some k)).bind fun r =>
        (xmlnodeGetNextsibling r.2 (some k)).bind fun next => xmlnodeInsertNode fuel r.2 (some q) next := by
  rw [xmlnodeInsertNode, if_neg (by rintro (none | none) <;> cases none), xmlnodeGetType, get_eq here]
  simp only [Option.bind_eq_bind, Option.bind_some]
  rw [type]

theorem insertNode_text (here : s.nodes k = some y) (type : y.type = .cdata) (fuel : Nat) :
    xmlnodeInsertNode (fuel + 1) s (some q) (some k) =
      (xmlnodeGetData s (some k)).bind fun r => (xmlnodeGetDatasz r.2 (some k)).bind fun z =>
        (xmlnodeInsertCdata z.2 (some q) (r.1.map (List.take z.1))).bind fun w =>
          (xmlnodeGetNextsibling w.2 (some k)).bind fun next => xmlnodeInsertNode fuel w.2 (some q) next := by
  rw [xmlnodeInsertNode, if_neg (by rintro (none | none) <;> cases none), xmlnodeGetType, get_eq here]
  simp only [Option.bind_eq_bind, Option.bind_some]
  rw [type]

/-- The attributes of a node are written to another one. The induction is on those that are left. -/
theorem insertNode_attrs (linked : Linked s F) (complete : F.Complete) {l₁ l : List NodePtr}
    (attrs : F.attrs k = l₁ ++ l) (tag : F.type c = some .tag) (other : k ≠ c) :
    ∃ s' G, Ends (fun fuel => xmlnodeInsertNode fuel s (some c) l.head?) s' ∧ Linked s' G ∧ G.Complete ∧
      Attributed c F G (putAttribs (F.attribs c) (l.map fun a => (F.name a, F.data a))) ∧
      Grown s.mem s'.mem := by
  induction l generalizing s F l₁ with
  | nil => exact ⟨s, F, insertNode_nil s _, linked, complete, .refl c F, .refl linked.reach⟩
  | cons a l ih =>
    have member : a ∈ F.attrs k := by
      rw [attrs]
      exact List.mem_append_right _ List.mem_cons_self
    obtain ⟨_, y, _, here, _, type, _⟩ := linked.attr_node member
    have named := name_eq linked here (linked.valid.named a y.label (linked.label_of here) (by
      change y.type ≠ .cdata
      rw [type]
      exact nofun))
    obtain ⟨lc, here_c, type_c⟩ := Option.map_eq_some_iff.mp tag
    obtain ⟨x, node, rfl⟩ := linked.node here_c
    obtain ⟨s₁, made, linked₁, grown₁⟩ := xmlnodePutAttrib_eq linked node type_c (F.name a) (F.data a)
    have done := putAttrib_attributed linked.valid c x.p (F.name a) (F.data a)
    have attrs₀ : (F.putAttrib c x.p (F.name a) (F.data a)).attrs k = l₁ ++ a :: l :=
      (done.attrs k other).trans attrs
    have attrs₁ : (F.putAttrib c x.p (F.name a) (F.data a)).attrs k = (l₁ ++ [a]) ++ l := by
      rw [attrs₀, List.append_assoc]
      rfl
    obtain ⟨s', G, ends, linked', complete', done', grown'⟩ := ih linked₁
      (complete.putAttrib c x.p (F.name a) (F.data a)) attrs₁ (done.tag linked.valid tag)
    refine ⟨s', G, ?_, linked', complete', ?_, grown₁.trans grown'⟩
    · apply ends.succ
      intro fuel
      have next : xmlnodeGetNextsibling s₁ (some a) = some l.head? := nextsibling_attr linked₁ attrs₀
      rw [List.head?_cons, insertNode_attr here type, xmlnodeGetData_attr linked complete member, named]
      simp only [Option.bind_some]
      rw [made]
      simp only [Option.bind_some]
      rw [next]
      rfl
    · have values : (l.map fun a' => ((F.putAttrib c x.p (F.name a) (F.data a)).name a',
          (F.putAttrib c x.p (F.name a) (F.data a)).data a')) = l.map fun a' => (F.name a', F.data a') := by
        apply values_congr
        intro a' inside
        have member' : a' ∈ F.attrs k := by
          rw [attrs]
          exact List.mem_append_right _ (List.mem_cons_of_mem _ inside)
        exact done.label a' (linked.valid.attr_lt_next member')
          (fun mine => other (linked.valid.attr_owner k c a' member' mine))
      rw [done.attribs, values] at done'
      exact done.trans done'

/-- The attributes and the children of a node go to its copy. -/
def fill (fuel : Nat) (s : Store) (child node : Option NodePtr) : Option Store := do
  let s ← if ← xmlnodeHasAttribs s node then
      xmlnodeInsertNode fuel s child (← xmlnodeGetFirstattrib s node)
    else some s
  if ← xmlnodeHasChildren s node then
    xmlnodeInsertNode fuel s child (← xmlnodeGetFirstchild s node)
  else some s

theorem fill_bind {α : Type} (fuel : Nat) (s : Store) (child node : Option NodePtr) (f : Store → Option α) :
    (fill fuel s child node).bind f = (do
      let s ← if ← xmlnodeHasAttribs s node then
          xmlnodeInsertNode fuel s child (← xmlnodeGetFirstattrib s node)
        else some s
      let s ← if ← xmlnodeHasChildren s node then
          xmlnodeInsertNode fuel s child (← xmlnodeGetFirstchild s node)
        else some s
      f s) := by
  simp only [fill, Option.bind_eq_bind, Option.bind_assoc]
  congr
  funext has
  split
  · simp only [Option.bind_assoc]
    congr
    funext first
    congr
    funext s'
    congr
    funext has'
    split
    · simp only [Option.bind_assoc]
    · simp only [Option.bind_some]
  · simp only [Option.bind_some, Option.bind_assoc]
    congr
    funext has'
    split
    · simp only [Option.bind_assoc]
    · simp only [Option.bind_some]

theorem insertTagNode_fill (fuel : Nat) (s : Store) (parent node : Option NodePtr) :
    xmlnodeInsertTagNode (fuel + 1) s parent node =
      (xmlnodeGetName s node).bind fun name => (xmlnodeInsertTag s parent name).bind fun r =>
        (fill fuel r.2 r.1 node).bind fun s' => some (r.1, s') := by
  rw [xmlnodeInsertTagNode]
  simp only [fill_bind, Option.bind_eq_bind]

theorem dupPool_fill (fuel : Nat) (s : Store) (p : Option PoolPtr) (k : NodePtr) :
    xmlnodeDupPool fuel s p (some k) =
      (xmlnodeGetName s (some k)).bind fun name => (xmlnodeNew s p name .tag).bind fun r =>
        (fill fuel r.2 r.1 (some k)).bind fun s' => some (r.1, s') := by
  rw [xmlnodeDupPool, if_neg nofun]
  simp only [fill_bind, Option.bind_eq_bind]

/-- Where there is nothing to copy, the code does not call the copying. -/
theorem insertNode_if {child first : Option NodePtr} {s' : Store}
    (ends : Ends (fun fuel => xmlnodeInsertNode fuel s child first) s') :
    Ends (fun fuel => if first.isSome = true then xmlnodeInsertNode fuel s child first else some s) s' := by
  cases first with
  | some k => exact ends
  | none =>
    obtain ⟨N, ends⟩ := ends
    have last : xmlnodeInsertNode (N + 1) s child none = some s' := ends (N + 1) (Nat.le_succ N)
    rw [xmlnodeInsertNode, if_pos (.inl rfl)] at last
    obtain rfl := Option.some.inj last
    exact .always s

theorem fill_ends {child : Option NodePtr} {s₁ s₂ : Store} (here : s.nodes k = some x) (there : s₁.nodes k = some y)
    (first : Ends (fun fuel => xmlnodeInsertNode fuel s child x.firstattrib) s₁)
    (second : Ends (fun fuel => xmlnodeInsertNode fuel s₁ child y.firstchild) s₂) :
    Ends (fun fuel => fill fuel s child (some k)) s₂ := by
  obtain ⟨N, first⟩ := insertNode_if first
  obtain ⟨M, second⟩ := insertNode_if second
  refine ⟨max N M, fun fuel enough => ?_⟩
  have first := first fuel (Nat.le_trans (Nat.le_max_left N M) enough)
  have second := second fuel (Nat.le_trans (Nat.le_max_right N M) enough)
  dsimp only at first second
  simp only [fill, xmlnodeHasAttribs, xmlnodeGetFirstattrib, xmlnodeHasChildren, xmlnodeGetFirstchild,
    get_eq here, Option.map_some, Option.bind_eq_bind, Option.bind_some]
  split at first
  · rename_i some_
    rw [if_pos some_, first]
    simp only [Option.bind_some, get_eq there, Option.map_some]
    exact second
  · rename_i none
    obtain rfl := Option.some.inj first
    rw [here] at there
    obtain rfl := Option.some.inj there
    rw [if_neg none]
    exact second

end Code

section Runs

variable {s : Store} {F : Forest} {b m k q : NodePtr} {l₁ mid l₂ : List NodePtr}

/-- The copy of the children of a node, of all or of the last ones. -/
def Copies (b m : NodePtr) : Prop :=
  ∀ (s : Store) (F : Forest) (l₁ l : List NodePtr) (q : NodePtr), Linked s F → F.Complete → Place b m q F →
    m < b → F.kids m = l₁ ++ l → F.type q = some .tag →
    ∃ s' G, Ends (fun fuel => xmlnodeInsertNode fuel s (some q) l.head?) s' ∧ Linked s' G ∧ G.Complete ∧
      Copied b m q F G (joined (l.map F.tree)) ∧ Grown s.mem s'.mem

theorem Linked.of_type (linked : Linked s F) {type : NodeType} (given : F.type k = some type) :
    ∃ y, s.nodes k = some y ∧ y.type = type := by
  obtain ⟨l, here, kind⟩ := Option.map_eq_some_iff.mp given
  obtain ⟨y, node, rfl⟩ := linked.node here
  exact ⟨y, node, kind⟩

theorem Linked.named_tag (linked : Linked s F) {y : Xmlnode} (here : s.nodes k = some y) (type : y.type = .tag) :
    y.name = some (F.name k) := by
  apply name_eq linked here
  apply linked.valid.named k y.label (linked.label_of here)
  change y.type ≠ .cdata
  rw [type]
  exact nofun

theorem fill_eq (deeper : Copies b k) (linked : Linked s F) (complete : F.Complete) (place : Place b k q F)
    (low : k < b) (source : F.type k = some .tag) (tag : F.type q = some .tag) (no_attrs : F.attrs q = []) :
    ∃ s' G H, Ends (fun fuel => fill fuel s (some q) (some k)) s' ∧ Linked s' H ∧ H.Complete ∧ G.Valid ∧
      Attributed q F G (F.attribs k) ∧ Copied b k q G H (joined ((F.kids k).map F.tree)) ∧
      Grown s.mem s'.mem := by
  obtain ⟨x, here, type⟩ := linked.of_type source
  have other : k ≠ q := Nat.ne_of_lt (Nat.lt_of_lt_of_le low place.low)
  obtain ⟨s₁, G, first, linked₁, complete₁, done, grown₁⟩ :=
    insertNode_attrs linked complete (List.nil_append (F.attrs k)).symm tag other
  have wide : Place b b q F := ⟨Nat.le_refl _, place.low, place.bound, place.closed⟩
  have kept := kept_attributed wide linked.valid linked₁.valid done no_attrs
  have kids : (G.kids k).map G.tree = (F.kids k).map F.tree := by
    rw [done.kids]
    apply List.map_congr_left
    exact fun c member => kept.tree c (place.closed k low c member) (.inr ⟨k, low, member⟩)
  obtain ⟨s', H, second, linked', complete', copied, grown'⟩ := deeper s₁ G [] (G.kids k) q linked₁ complete₁
    ((kept.above place.top).place place place.low) low rfl (done.tag linked.valid tag)
  obtain ⟨y, there, _⟩ := linked₁.of_type (done.tag linked.valid source)
  refine ⟨s', G, H, ?_, linked', complete', linked₁.valid, ?_, kids ▸ copied, grown₁.trans grown'⟩
  · apply fill_ends here there
    · rw [linked.firstattrib k x here]
      exact first
    · rw [linked₁.firstchild k y there]
      exact second
  · have own : F.attribs q = [] := by
      unfold Forest.attribs
      rw [no_attrs]
      rfl
    have values : putAttribs (F.attribs q) (F.attribs k) = F.attribs k := by
      rw [own, putAttribs_distinct, List.nil_append]
      rw [List.nil_append]
      unfold Forest.attribs
      rw [List.map_map]
      exact linked.valid.keys k
    rw [← values]
    exact done

/-- The copy of a tag with all that is below it. -/
theorem insertTagNode_eq (deeper : Copies b k) (linked : Linked s F) (complete : F.Complete) (place : Place b k q F)
    (low : k < b) (source : F.type k = some .tag) (tag : F.type q = some .tag) :
    ∃ s' G, Ends (fun fuel => xmlnodeInsertTagNode fuel s (some q) (some k)) (some s.next, s') ∧ Linked s' G ∧
      G.Complete ∧ Copied b k q F G [F.tree k] ∧ Grown s.mem s'.mem := by
  obtain ⟨x, here, type⟩ := linked.of_type source
  obtain ⟨y, there, type_q⟩ := linked.of_type tag
  obtain ⟨s₁, made, linked₁, grown₁⟩ := xmlnodeInsertTag_eq linked there type_q (F.name k)
  have fits : F.Fits ⟨.tag, some (F.name k), none, y.p, some q⟩ none :=
    child_fits linked there type_q (nofun : NodeType.tag ≠ .attrib) fun _ => rfl
  have low_q := linked.valid.type_lt tag
  have low_k := linked.valid.type_lt source
  have wide : Place b b q F := ⟨Nat.le_refl _, place.low, place.bound, place.closed⟩
  have kept := kept_push wide linked.valid fits rfl
  have other : q ≠ k := Nat.ne_of_gt (Nat.lt_of_lt_of_le low place.low)
  have place₁ : Place b k F.next (F.push ⟨.tag, some (F.name k), none, y.p, some q⟩ none) :=
    (kept.above place.top).place place place.bound
  have source₁ := (kept.type k low_k).trans source
  have new : (F.push ⟨.tag, some (F.name k), none, y.p, some q⟩ none).type F.next = some .tag := push_type_new
  obtain ⟨s', G, H, ends, linked', complete', valid₂, done, copied, grown'⟩ := fill_eq deeper linked₁
    (complete.push none fun tag => absurd rfl tag) place₁ low source₁ new
    (linked.valid.attrs_none (linked.valid.bound F.next (Nat.le_refl _)))
  refine ⟨s', H, ?_, linked', complete', ?_, grown₁.trans grown'⟩
  · apply Ends.succ _ fun fuel => insertTagNode_fill fuel s (some q) (some k)
    rw [xmlnodeGetName, get_eq here, linked.named_tag here type]
    simp only [Option.bind_some]
    rw [made]
    simp only [Option.bind_some]
    rw [← linked.next]
    exact ends.bind (.always _)
  · have kids : (F.push ⟨.tag, some (F.name k), none, y.p, some q⟩ none).kids k = F.kids k :=
      if_neg fun same => other (Option.some.inj same)
    have trees : (F.kids k).map (F.push ⟨.tag, some (F.name k), none, y.p, some q⟩ none).tree =
        (F.kids k).map F.tree := by
      apply List.map_congr_left
      exact fun c member => kept.tree c (place.closed k low c member) (.inr ⟨k, low, member⟩)
    have attribs : (F.push ⟨.tag, some (F.name k), none, y.p, some q⟩ none).attribs k = F.attribs k :=
      values_congr fun a member => push_label_old (linked.valid.attr_lt_next member)
    rw [kids, trees] at copied
    rw [attribs] at done
    rw [tree_tag linked.valid source, ← joined_joined]
    exact copied_tag place linked.valid low_q fits valid₂ done (Nat.le_refl _) linked'.valid copied

theorem joined_stop {d : CString} {l : List XmlNode} (stop : ∀ x, l.head? = some x → x.isTag = true) :
    joined (.cdata d :: l) = .cdata d :: joined l := by
  cases l with
  | nil => rfl
  | cons x l =>
    have tag := stop x rfl
    rw [joined_cons, joined_cons, joinFront_tag tag]
    cases x with
    | tag n as cs => rfl
    | cdata e => cases tag

/-- A chunk is copied with the text of its whole run, which it has itself from then on. -/
theorem insertText_eq (linked : Linked s F) (complete : F.Complete) (place : Place b m q F) (low : m < b)
    (tag : F.type q = some .tag) (run : F.Run m k l₁ mid l₂) (stops : F.Stops l₂) :
    ∃ s' G, Linked s' G ∧ G.Complete ∧ Copied b m q F G [.cdata (F.data k ++ mid.flatMap F.data)] ∧
      G.kids m = l₁ ++ k :: l₂ ∧ (∀ c ∈ l₂, G.tree c = F.tree c) ∧ Grown s.mem s'.mem ∧
      ∀ fuel, xmlnodeInsertNode (fuel + 1) s (some q) (some k) = xmlnodeInsertNode fuel s' (some q) l₂.head? := by
  obtain ⟨y, here, type⟩ := linked.run_nodes run k List.mem_cons_self
  obtain ⟨s₁, read, linked₁, grown₁⟩ := xmlnodeGetData_text linked complete run stops
  have valid₁ := linked₁.valid
  have place₁ : Place b m q (F.join m k l₁ mid l₂) :=
    (kept_join place linked.valid run low).place place place.low
  have complete₁ := (Reread.join linked.valid complete run).complete
  have run₁ : (F.join m k l₁ mid l₂).Run m k l₁ [] l₂ := by
    refine ⟨Function.update_self _ _ _, ?_⟩
    intro c member
    rw [List.mem_singleton.mp member]
    exact (setData_type k _).trans (run.text k List.mem_cons_self)
  have stops₁ : (F.join m k l₁ mid l₂).Stops l₂ := by
    intro c first
    have same : (F.join m k l₁ mid l₂).type c = F.type c := setData_type c _
    rw [same]
    exact stops c first
  obtain ⟨_, lk, _, here_k, _⟩ := linked.valid.kid m k run.mem
  have data : (F.join m k l₁ mid l₂).data k = F.data k ++ mid.flatMap F.data := setData_data_self here_k _
  obtain ⟨s₂, sized, linked₂, grown₂⟩ := xmlnodeGetDatasz_text linked₁ complete₁ run₁ stops₁
  rw [join_alone complete₁ run₁] at linked₂
  rw [List.flatMap_nil, List.append_nil, data] at sized
  have tag₁ : (F.join m k l₁ mid l₂).type q = some .tag := (setData_type q _).trans tag
  obtain ⟨x, there, type_q⟩ := linked₂.of_type tag₁
  obtain ⟨s₃, made, linked₃, grown₃⟩ := xmlnodeInsertCdata_eq linked₂ there type_q
    ((F.data k ++ mid.flatMap F.data).take (F.data k ++ mid.flatMap F.data).length)
  rw [List.take_length] at made linked₃
  have fits : (F.join m k l₁ mid l₂).Fits
      ⟨.cdata, none, some (F.data k ++ mid.flatMap F.data), x.p, some q⟩ none := by
    constructor
    · exact fun other => absurd rfl other
    · intro m' parent
      obtain rfl := Option.some.inj parent
      exact ⟨nofun, x.label, linked₂.label_of there, type_q, rfl⟩
    · exact nofun
  have wide : Place b b q (F.join m k l₁ mid l₂) := ⟨Nat.le_refl _, place₁.low, place₁.bound, place₁.closed⟩
  have pushed := copied_push wide valid₁ fits rfl
  have leaf : ((F.join m k l₁ mid l₂).push
      ⟨.cdata, none, some (F.data k ++ mid.flatMap F.data), x.p, some q⟩ none).tree
        (F.join m k l₁ mid l₂).next = .cdata (F.data k ++ mid.flatMap F.data) := by
    rw [tree_text linked₃.valid, push_data_new]
    · rfl
    · rw [push_type_new]
      exact nofun
  have low_q := linked₂.valid.type_lt tag₁
  have kids : ((F.join m k l₁ mid l₂).push
      ⟨.cdata, none, some (F.data k ++ mid.flatMap F.data), x.p, some q⟩ none).kids m = l₁ ++ k :: l₂ := by
    have other : q ≠ m := Nat.ne_of_gt (Nat.lt_of_lt_of_le low place.low)
    exact (if_neg fun same => other (Option.some.inj same)).trans run₁.kids
  refine ⟨s₃, _, linked₃, complete₁.push none fun _ => rfl, ?_, kids, ?_, (grown₁.trans grown₂).trans grown₃, ?_⟩
  · have first := copied_join place linked.valid run low
    have second : Copied b m q (F.join m k l₁ mid l₂) _ [_] :=
      ⟨pushed.kept.above place.top, pushed.attrs, pushed.new⟩
    rw [leaf] at second
    exact first.trans second place (linked.valid.type_lt tag) valid₁ linked₃.valid
  · intro c member
    rw [pushed.kept.tree c (place.closed m low c (run.mem_after member)) (.inr ⟨m, low, run₁.mem_after member⟩)]
    exact tree_join_other linked.valid run (run.apart linked.valid member)
  · intro fuel
    rw [insertNode_text here type, read]
    simp only [Option.bind_some]
    rw [sized]
    simp only [Option.bind_some, Option.map_some, List.take_length]
    rw [made]
    simp only [Option.bind_some]
    rw [nextsibling_kid linked₃ kids]
    rfl

/-- The first induction goes down the tree that is copied, the second one along the children that are left. -/
theorem copies (b m : NodePtr) : Copies b m := by
  generalize depth : b - m = d
  induction d using Nat.strong_induction_on generalizing m with
  | _ d down =>
    intro s F l₁ l q linked complete place low kids tag
    generalize size : l.length = w
    induction w using Nat.strong_induction_on generalizing s F l₁ l with
    | _ w along =>
      cases l with
      | nil => exact ⟨s, F, insertNode_nil s _, linked, complete, .refl place linked.valid, .refl linked.reach⟩
      | cons k l =>
        have member : k ∈ F.kids m := by
          rw [kids]
          exact List.mem_append_right _ List.mem_cons_self
        have below := place.closed m low k member
        have low_q := linked.valid.type_lt tag
        have later : ∀ c ∈ l, c ∈ F.kids m := by
          intro c inside
          rw [kids]
          exact List.mem_append_right _ (List.mem_cons_of_mem _ inside)
        by_cases source : F.type k = some .cdata
        · obtain ⟨mid, l₂, rfl, run, stops⟩ := run_exists source kids
          obtain ⟨s₁, G, linked₁, complete₁, copied, kids₁, trees, grown₁, round⟩ :=
            insertText_eq linked complete place low tag run stops
          have shorter : l₂.length < w := by
            rw [← size, List.length_cons, List.length_append]
            omega
          have rest : G.kids m = (l₁ ++ [k]) ++ l₂ := by
            rw [kids₁, List.append_assoc]
            rfl
          obtain ⟨s', H, ends, linked', complete', copied', grown'⟩ := along l₂.length shorter s₁ G (l₁ ++ [k]) l₂
            linked₁ complete₁ (copied.kept.place place place.low) rest
            ((copied.kept.type q low_q).trans tag) rfl
          refine ⟨s', H, ends.succ round, linked', complete', ?_, grown₁.trans grown'⟩
          have both := copied.trans copied' place low_q linked₁.valid linked'.valid
          have text : F.tree k = .cdata (F.data k) := tree_text linked.valid (by rw [source]; exact nofun)
          have chunks : mid.map F.tree = (mid.map F.data).map XmlNode.cdata :=
            text_trees linked.valid fun c inside => run.text c (List.mem_cons_of_mem _ inside)
          have stop : ∀ x, (l₂.map F.tree).head? = some x → x.isTag = true := by
            intro x first
            rw [List.head?_map] at first
            obtain ⟨c, head, rfl⟩ := Option.map_eq_some_iff.mp first
            rw [linked.isTag_tree]
            apply decide_eq_true
            apply linked.kid_type (m := m) _ (stops c head)
            exact later c (List.mem_append_right _ (List.mem_of_head? head))
          rw [List.map_cons, List.map_append, text, chunks, joined_chunks, joined_stop stop, ← List.flatMap_def,
            ← List.map_congr_left trees]
          exact both
        · have source := linked.kid_type member source
          have deeper : Copies b k := by
            apply down (b - k) _ k rfl
            rw [← depth]
            exact Nat.sub_lt_sub_left low (linked.valid.kid_lt member)
          have above : m < k := linked.valid.kid_lt member
          obtain ⟨y, here, type⟩ := linked.of_type source
          obtain ⟨s₁, G, ends₁, linked₁, complete₁, copied, grown₁⟩ := insertTagNode_eq deeper linked complete
            ⟨Nat.le_of_lt below, place.low, place.bound, place.closed⟩ below source tag
          have kids₁ : G.kids m = l₁ ++ k :: l := by
            rw [copied.kept.kids m (Nat.lt_of_lt_of_le low place.bound)
              (Nat.ne_of_lt (Nat.lt_of_lt_of_le low place.low)) (.inl above), kids]
          have rest : G.kids m = (l₁ ++ [k]) ++ l := by
            rw [kids₁, List.append_assoc]
            rfl
          have shorter : l.length < w := by
            rw [← size, List.length_cons]
            exact Nat.lt_succ_self _
          obtain ⟨s', H, ends, linked', complete', copied', grown'⟩ := along l.length shorter s₁ G (l₁ ++ [k]) l
            linked₁ complete₁ ((copied.kept.above (Nat.le_of_lt above)).place place place.low) rest
            ((copied.kept.type q low_q).trans tag) rfl
          refine ⟨s', H, ?_, linked', complete', ?_, grown₁.trans grown'⟩
          · apply Ends.succ _ fun fuel => insertNode_tag here type fuel
            apply ends₁.bind
            rw [nextsibling_kid linked₁ kids₁]
            exact ends
          · have first : Copied b m q F G [F.tree k] :=
              ⟨copied.kept.above (Nat.le_of_lt above), copied.attrs, copied.new⟩
            have both := first.trans copied' place low_q linked₁.valid linked'.valid
            have trees : l.map G.tree = l.map F.tree := by
              apply List.map_congr_left
              intro c inside
              exact copied.kept.tree c (place.closed m low c (later c inside)) (.inr ⟨m, above, later c inside⟩)
            have front : (F.tree k).isTag = true := by
              rw [linked.isTag_tree]
              exact decide_eq_true source
            rw [List.map_cons, joined_cons, joinFront_tag front, ← trees]
            exact both

/-- The copy under a tag that was just made for it. -/
theorem dup_eq {p : Option PoolPtr} {pool : PoolPtr} {s₁ : Store} (linked : Linked s F) (complete : F.Complete)
    (source : F.type k = some .tag)
    (made : xmlnodeNew s p (some (F.name k)) .tag = some (some s.next, s₁))
    (linked₁ : Linked s₁ (F.push ⟨.tag, some (F.name k), none, pool, none⟩ none)) :
    ∃ s' G, Ends (fun fuel => xmlnodeDupPool fuel s p (some k)) (some s.next, s') ∧ Linked s' G ∧
      G.Complete ∧ G.tree s.next = F.tree k ∧
      G.label s.next = some ⟨.tag, some (F.name k), none, pool, none⟩ ∧ Kept F.next k F.next F G ∧
      Grown s₁.mem s'.mem := by
  obtain ⟨x, here, type⟩ := linked.of_type source
  have valid₁ := linked₁.valid
  have low := linked.valid.type_lt source
  have closed : F.Closed F.next := fun n _ c member => linked.valid.kid_lt_next member
  have place : Place F.next k F.next F := ⟨Nat.le_of_lt low, Nat.le_refl _, Nat.le_refl _, closed⟩
  have first : Kept F.next F.next F.next F (F.push ⟨.tag, some (F.name k), none, pool, none⟩ none) := by
    apply kept_of_behind ⟨Nat.le_refl _, Nat.le_refl _, Nat.le_refl _, closed⟩ linked.valid valid₁ (Nat.le_succ _)
    · exact fun n below => push_label_old below
    · exact fun _ _ _ => rfl
    · exact fun _ _ _ => rfl
  have place₁ : Place F.next k F.next (F.push ⟨.tag, some (F.name k), none, pool, none⟩ none) :=
    (first.above (Nat.le_of_lt low)).place place (Nat.le_refl _)
  have unlabelled : F.label F.next = none := linked.valid.bound F.next (Nat.le_refl _)
  have no_attrs := linked.valid.attrs_none unlabelled
  obtain ⟨s', G, H, ends, linked', complete', valid', done, copied, grown⟩ := fill_eq (copies F.next k) linked₁
    (complete.push none fun tag => absurd rfl tag) place₁ low ((first.type k low).trans source) push_type_new no_attrs
  obtain ⟨second, tree⟩ := filled place₁ valid₁ push_label_new no_attrs (linked.valid.kids_none unlabelled) valid' done
    (Nat.le_refl _) linked'.valid copied
  have kept := (first.above (Nat.le_of_lt low)).trans second place (.inl rfl)
  have trees : ((F.push ⟨.tag, some (F.name k), none, pool, none⟩ none).kids k).map
      (F.push ⟨.tag, some (F.name k), none, pool, none⟩ none).tree = (F.kids k).map F.tree := by
    apply List.map_congr_left
    exact fun c member => first.tree c (closed k low c member) (.inr ⟨k, low, member⟩)
  have attribs : (F.push ⟨.tag, some (F.name k), none, pool, none⟩ none).attribs k = F.attribs k :=
    values_congr fun a member => push_label_old (linked.valid.attr_lt_next member)
  refine ⟨s', H, ?_, linked', complete', ?_, ?_, kept, grown⟩
  · obtain ⟨N, ends⟩ := ends.bind (h := fun _ s' => some (some s.next, s')) (.always (some s.next, s'))
    refine ⟨N, fun fuel enough => ?_⟩
    have done := ends fuel enough
    dsimp only at done ⊢
    rw [dupPool_fill, xmlnodeGetName, get_eq here, linked.named_tag here type]
    simp only [Option.bind_some]
    rw [made]
    simp only [Option.bind_some]
    rw [linked.next] at done
    exact done
  · rw [← linked.next, tree, trees, attribs, joined_joined, tree_tag linked.valid source]
  · rw [← linked.next, second.label F.next (Nat.lt_succ_self _) (.inr (Nat.le_refl _)), push_label_new]

/-- `xmlnode_dup_pool`: the copy has the tree of the node, and the trees that were there stay. -/
theorem xmlnodeDupPool_eq (linked : Linked s F) (complete : F.Complete) {p : PoolPtr}
    (alive : (s.mem.pools p).isSome = true) (source : F.type k = some .tag) :
    ∃ s' G, Ends (fun fuel => xmlnodeDupPool fuel s (some p) (some k)) (some s.next, s') ∧ Linked s' G ∧
      G.Complete ∧ G.tree s.next = F.tree k ∧ G.label s.next = some ⟨.tag, some (F.name k), none, p, none⟩ ∧
      Kept F.next k F.next F G ∧ Grown s.mem s'.mem := by
  obtain ⟨s₁, made, linked₁, grown₁⟩ := xmlnodeNewTagPool_eq linked alive (F.name k)
  obtain ⟨s', G, ends, linked', complete', tree, label, kept, grown⟩ := dup_eq linked complete source made linked₁
  exact ⟨s', G, ends, linked', complete', tree, label, kept, grown₁.trans grown⟩

theorem xmlnodeDup_eq (linked : Linked s F) (complete : F.Complete) (source : F.type k = some .tag) :
    ∃ s' G, Ends (fun fuel => xmlnodeDup fuel s (some k)) (some s.next, s') ∧ Linked s' G ∧
      G.Complete ∧ G.tree s.next = F.tree k ∧
      G.label s.next = some ⟨.tag, some (F.name k), none, s.mem.next, none⟩ ∧
      Kept F.next k F.next F G ∧ Grown s.mem s'.mem := by
  obtain ⟨s₁, made, linked₁, grown₁⟩ := xmlnodeNewTag_eq linked (F.name k)
  obtain ⟨s', G, ends, linked', complete', tree, label, kept, grown⟩ := dup_eq linked complete source made linked₁
  exact ⟨s', G, ends, linked', complete', tree, label, kept, grown₁.trans grown⟩

end Runs

end JabSimul.Dom
