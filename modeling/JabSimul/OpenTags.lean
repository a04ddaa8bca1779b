import JabSimul.DomRuns
import JabSimul.Xstream

/-!
The open tags of a stream as they lie in the forest: a chain of parents, each with the one
below it as its last child. What is put in at the lower end stays below all of them, and what
is done in other pools does not reach them.
-/
namespace JabSimul.Dom

open Pools

section Grafts

variable {F G : Forest} {c m n k o : NodePtr} {l : Label} {as bs : List (CString × CString)}

/-- Something changed in one node or below it. -/
structure Grafted (c : NodePtr) (F G : Forest) : Prop where
  label : ∀ m, m < F.next → F.type m ≠ some .attrib → G.label m = F.label m
  kids : ∀ m, m < c → G.kids m = F.kids m
  attribs : ∀ m, m < c → G.attribs m = F.attribs m
  tree : ∀ k, k < F.next → F.type k ≠ some .attrib → ¬ F.Below k c → G.tree k = F.tree k

theorem Grafted.push (valid : F.Valid) (fits : F.Fits l none) (parent : l.parent = some c) :
    Grafted c F (F.push l none) := by
  constructor
  · exact fun m low _ => push_label_old low
  · intro m low
    apply if_neg
    intro same
    rw [parent] at same
    exact Nat.ne_of_gt low (Option.some.inj same)
  · exact fun m _ => values_congr fun a member => push_label_old (valid.attr_lt_next member)
  · exact fun k low _ apart => tree_push_other valid fits parent low apart

theorem Attributed.grafted (done : Attributed o F G as) (valid : F.Valid) (valid' : G.Valid) : Grafted o F G := by
  constructor
  · exact fun m low kind => done.other valid kind low
  · exact fun m _ => congrFun done.kids m
  · exact fun m low => done.attribs_other valid (Nat.ne_of_lt low)
  · exact fun k low kind apart => done.tree valid valid' kind low apart

theorem Attributed.tree_of (done : Attributed o F G as) (valid : F.Valid) (valid' : G.Valid)
    (tag : F.type o = some .tag) {name : CString} {kids : List XmlNode} (tree : F.tree o = .tag name bs kids) :
    G.tree o = .tag name as kids := by
  rw [tree_tag valid tag] at tree
  obtain ⟨same, _, same'⟩ := XmlNode.tag.inj tree
  rw [done.tree_self valid valid' tag, same, same']

theorem isTag_of_type (valid : F.Valid) (tag : F.type k = some .tag) : (F.tree k).isTag = true := by
  rw [tree_tag valid tag]
  rfl

theorem kids_last (valid : F.Valid) {ks : List NodePtr} (last : F.kids m = ks ++ [k]) : k ∈ F.kids m ∧ k ∉ ks := by
  have nodup := valid.kids_nodup m
  rw [last] at nodup ⊢
  refine ⟨List.mem_append_right _ List.mem_cons_self, fun twice => ?_⟩
  exact (List.nodup_append.mp nodup).2.2 k twice k List.mem_cons_self rfl

theorem Grafted.tag (graft : Grafted c F G) (valid : F.Valid) (tag : F.type m = some .tag) :
    G.label m = F.label m := by
  apply graft.label m (valid.type_lt tag)
  rw [tag]
  exact nofun

/-- A tag whose last child has the change in it. -/
theorem Grafted.above (graft : Grafted c F G) (valid : F.Valid) (valid' : G.Valid) (tag : F.type m = some .tag)
    (tagK : F.type k = some .tag) {ks : List NodePtr} (last : F.kids m = ks ++ [k]) (below : F.Below k c)
    {name : CString} {kids : List XmlNode} (tree : F.tree m = .tag name as (kids ++ [F.tree k])) :
    G.tree m = .tag name as (kids ++ [G.tree k]) := by
  obtain ⟨member, once⟩ := kids_last valid last
  have low : m < c := Nat.lt_of_lt_of_le (valid.kid_lt member) (below.le valid)
  have kept : ∀ {n}, F.type n = some .tag → G.type n = some .tag := by
    intro n kind
    unfold Forest.type
    rw [graft.tag valid kind]
    exact kind
  have named : G.name m = F.name m := by
    unfold Forest.name
    rw [graft.tag valid tag]
  have others : ks.map G.tree = ks.map F.tree := by
    apply List.map_congr_left
    intro d inside
    have member' : d ∈ F.kids m := by
      rw [last]
      exact List.mem_append_left _ inside
    have other : d ≠ k := by
      rintro rfl
      exact once inside
    obtain ⟨_, ld, _, here, _, kind, _⟩ := valid.kid m d member'
    apply graft.tree d (valid.lt_next here) _ (siblings_apart valid member member' other below)
    rw [type_of_label here]
    exact fun same => kind (Option.some.inj same)
  rw [tree_tag valid tag, last, List.map_append, List.map_singleton,
    joined_concat_tag (isTag_of_type valid tagK)] at tree
  obtain ⟨first, second, third⟩ := XmlNode.tag.inj tree
  rw [tree_tag valid' (kept tag), graft.kids m low, last, List.map_append, List.map_singleton,
    joined_concat_tag (isTag_of_type valid' (kept tagK)), graft.attribs m low, named, others, first, second,
    List.append_cancel_right third]

end Grafts

section Spines

variable {F G : Forest} {P : PoolPtr → Prop} {p : PoolPtr} {c n k : NodePtr} {node child : Option NodePtr} {l : Label}
  {f : Frame} {stack : List Frame}

/-- A node is that of an open tag, and the last child is the open one if there is one. -/
structure OpenTag (F : Forest) (p : PoolPtr) (f : Frame) (n : NodePtr) (l : Label) (child : Option NodePtr) :
    Prop where
  here : F.label n = some l
  tag : l.type = .tag
  pool : l.p = p
  tree : F.tree n = .tag f.name f.attribs (f.kids ++ (child.map F.tree).toList)
  last : ∀ k, child = some k → ∃ ks, F.kids n = ks ++ [k]

theorem OpenTag.type (opened : OpenTag F p f n l child) : F.type n = some .tag :=
  (type_of_label opened.here).trans (congrArg some opened.tag)

/-- The open tags from a node on upwards. -/
def Spine (F : Forest) (p : PoolPtr) : List Frame → Option NodePtr → Option NodePtr → Prop
  | [], node, _ => node = none
  | f :: above, node, child => ∃ n l, node = some n ∧ OpenTag F p f n l child ∧ Spine F p above l.parent (some n)

/-- A change below the last open tag stays below all of them. -/
theorem Spine.graft (graft : Grafted c F G) (valid : F.Valid) (valid' : G.Valid)
    (spine : Spine F p stack node (some k)) (tag : F.type k = some .tag) (below : F.Below k c) :
    Spine G p stack node (some k) := by
  induction stack generalizing node k with
  | nil => exact spine
  | cons f above ih =>
    obtain ⟨n, l, rfl, opened, rest⟩ := spine
    obtain ⟨ks, last⟩ := opened.last k rfl
    obtain ⟨member, _⟩ := kids_last valid last
    have low : n < c := Nat.lt_of_lt_of_le (valid.kid_lt member) (below.le valid)
    refine ⟨n, l, rfl, ?_, ih rest opened.type (.head member below)⟩
    constructor
    · rw [graft.tag valid opened.type, opened.here]
    · exact opened.tag
    · exact opened.pool
    · exact graft.above valid valid' opened.type tag last below opened.tree
    · intro k' same
      obtain rfl := Option.some.inj same
      exact ⟨ks, (graft.kids n low).trans last⟩

theorem last_of_sublist {l ks : List NodePtr} (fewer : l.Sublist (ks ++ [k])) (member : k ∈ l) (apart : k ∉ ks) :
    ∃ ks', l = ks' ++ [k] := by
  obtain ⟨l₁, l₂, rfl, inside, rest⟩ := List.sublist_append_iff.mp fewer
  rcases List.sublist_singleton.mp rest with rfl | rfl
  · rw [List.append_nil] at member
    exact absurd (inside.subset member) apart
  · exact ⟨l₁, rfl⟩

/-- What happens in other pools leaves the open tags as they are. -/
theorem Spine.viewed (viewed : Viewed P F G) (valid : F.Valid) (valid' : G.Valid) (inside : P p)
    (spine : Spine F p stack node child)
    (under : ∀ k, child = some k → ∃ lk, F.label k = some lk ∧ lk.type = .tag ∧ lk.p = p ∧ lk.parent = node) :
    Spine G p stack node child := by
  induction stack generalizing node child with
  | nil => exact spine
  | cons f above ih =>
    obtain ⟨n, l, rfl, opened, rest⟩ := spine
    have within : P l.p := by
      rw [opened.pool]
      exact inside
    refine ⟨n, l, rfl, ?_, ih rest ?_⟩
    · constructor
      · exact viewed.label n l opened.here opened.tag within
      · exact opened.tag
      · exact opened.pool
      · rw [viewed.tree n l opened.here opened.tag within, opened.tree]
        cases child with
        | none => rfl
        | some k =>
          obtain ⟨lk, here, tag, rfl, _⟩ := under k rfl
          rw [Option.map_some, Option.map_some, viewed.tree k lk here tag inside]
      · rintro k rfl
        obtain ⟨lk, here, tag, rfl, parent⟩ := under k rfl
        obtain ⟨ks, last⟩ := opened.last k rfl
        have fewer := viewed.fewer n l opened.here opened.tag within
        rw [last] at fewer
        exact last_of_sublist fewer (valid'.child k lk n (viewed.label k lk here tag inside) tag parent)
          (kids_last valid last).2
    · rintro k same
      obtain rfl := Option.some.inj same
      exact ⟨l, opened.here, opened.tag, opened.pool, rfl⟩

/-- The tree of an open tag that gets a child. -/
theorem OpenTag.push (opened : OpenTag F p f n l none) (valid : F.Valid) {l' : Label} (fits : F.Fits l' none)
    (parent : l'.parent = some n) :
    (F.push l' none).tree n = .tag f.name f.attribs (addKid f.kids ((F.push l' none).tree F.next)) := by
  have tree := opened.tree
  rw [tree_tag valid opened.type] at tree
  obtain ⟨first, second, third⟩ := XmlNode.tag.inj tree
  rw [Option.map_none, Option.toList_none, List.append_nil] at third
  rw [tree_push_parent valid fits parent, joined_concat, first, second, third]

/-- A tag is opened in the last one that is open. -/
theorem Spine.opens (spine : Spine F p (f :: stack) (some n) none) (valid : F.Valid) {name : CString}
    (fits : F.Fits ⟨.tag, some name, none, p, some n⟩ none) :
    Spine (F.push ⟨.tag, some name, none, p, some n⟩ none) p (⟨name, [], []⟩ :: f :: stack) (some F.next) none := by
  obtain ⟨_, l, same, opened, rest⟩ := spine
  obtain rfl := Option.some.inj same
  have graft := Grafted.push valid fits rfl
  have valid' := valid.push fits
  have tree : (F.push ⟨.tag, some name, none, p, some n⟩ none).tree F.next = .tag name [] [] :=
    tree_push_new valid fits
  refine ⟨F.next, _, rfl, ⟨push_label_new, rfl, rfl, tree, nofun⟩, n, l, rfl, ?_,
    rest.graft graft valid valid' opened.type .refl⟩
  constructor
  · rw [push_label_old (valid.lt_next opened.here), opened.here]
  · exact opened.tag
  · exact opened.pool
  · rw [opened.push valid fits rfl, tree]
    change _ = XmlNode.tag _ _ (f.kids ++ [(F.push _ none).tree F.next])
    rw [tree]
    rfl
  · intro k same
    obtain rfl := Option.some.inj same
    exact ⟨F.kids n, if_pos rfl⟩

/-- A text is put into the last tag that is open. -/
theorem Spine.text (spine : Spine F p (f :: stack) (some n) none) (valid : F.Valid) {bytes : CString}
    (fits : F.Fits ⟨.cdata, none, some bytes, p, some n⟩ none) :
    Spine (F.push ⟨.cdata, none, some bytes, p, some n⟩ none) p (f.add (.cdata bytes) :: stack) (some n) none := by
  obtain ⟨_, l, same, opened, rest⟩ := spine
  obtain rfl := Option.some.inj same
  have tree : (F.push ⟨.cdata, none, some bytes, p, some n⟩ none).tree F.next = .cdata bytes :=
    tree_push_new valid fits
  refine ⟨n, l, rfl, ?_, rest.graft (.push valid fits rfl) valid (valid.push fits) opened.type .refl⟩
  constructor
  · rw [push_label_old (valid.lt_next opened.here), opened.here]
  · exact opened.tag
  · exact opened.pool
  · rw [opened.push valid fits rfl, tree]
    change _ = XmlNode.tag _ _ (addText f.kids bytes ++ [])
    rw [List.append_nil]
    rfl
  · exact nofun

/-- The last open tag gets its attributes. -/
theorem Spine.attributed {name : CString} {as : List (CString × CString)}
    (spine : Spine F p (⟨name, [], []⟩ :: stack) (some n) none) (done : Attributed n F G as) (valid : F.Valid)
    (valid' : G.Valid) : Spine G p (⟨name, as, []⟩ :: stack) (some n) none := by
  obtain ⟨_, l, same, opened, rest⟩ := spine
  obtain rfl := Option.some.inj same
  have graft := done.grafted valid valid'
  refine ⟨n, l, rfl, ?_, rest.graft graft valid valid' opened.type .refl⟩
  constructor
  · rw [graft.tag valid opened.type, opened.here]
  · exact opened.tag
  · exact opened.pool
  · exact done.tree_of valid valid' opened.type opened.tree
  · exact nofun

/-- The last open tag is closed. -/
theorem Spine.close {g : Frame} (spine : Spine F p (f :: g :: stack) (some n) none) :
    ∃ l, F.label n = some l ∧ Spine F p (g.add f.tree :: stack) l.parent none := by
  obtain ⟨_, l, same, opened, m, lm, parent, above, rest⟩ := spine
  obtain rfl := Option.some.inj same
  refine ⟨l, opened.here, m, lm, parent, ⟨above.here, above.tag, above.pool, ?_, nofun⟩, rest⟩
  have tree : F.tree n = f.tree := by
    rw [opened.tree, Option.map_none, Option.toList_none, List.append_nil]
    rfl
  rw [above.tree, Option.map_some, tree, Option.map_none, Option.toList_none, List.append_nil]
  rfl

theorem Spine.tree_top (spine : Spine F p [f] (some n) none) :
    ∃ l, F.label n = some l ∧ l.parent = none ∧ F.tree n = f.tree := by
  obtain ⟨_, l, same, opened, parent⟩ := spine
  obtain rfl := Option.some.inj same
  refine ⟨l, opened.here, parent, ?_⟩
  rw [opened.tree, Option.map_none, Option.toList_none, List.append_nil]
  rfl

end Spines

end JabSimul.Dom
