import JabSimul.DomReaders

/-!
The attributes of a node over several writes. `xmlnode_put_attrib` keeps a list with
one value for each name, as `putAttrib` has it for the trees.
-/
namespace JabSimul.Dom

open Pools SiblingList

section Lists

variable {name value : CString}

theorem putAttrib_absent {as : List (CString × CString)} (absent : name ∉ as.map Prod.fst) :
    putAttrib name value as = as ++ [(name, value)] := by
  induction as with
  | nil => rfl
  | cons a as ih =>
    rw [List.map_cons, List.mem_cons, not_or] at absent
    rw [putAttrib, if_neg (Ne.symm absent.1), ih absent.2]
    rfl

/-- The first attribute with the name is the only one that changes. -/
theorem putAttrib_map {l : List NodePtr} {g d d' : NodePtr → CString} {a : NodePtr}
    (nodup : (l.map g).Nodup) (found : l.find? (fun b => g b = name) = some a) (new : d' a = value)
    (others : ∀ b ∈ l, b ≠ a → d' b = d b) :
    (l.map fun b => (g b, d' b)) = putAttrib name value (l.map fun b => (g b, d b)) := by
  induction l with
  | nil => cases found
  | cons b l ih =>
    rw [List.map_cons, List.nodup_cons] at nodup
    rw [List.map_cons, List.map_cons, putAttrib]
    by_cases same : g b = name
    · rw [List.find?_cons, decide_eq_true same] at found
      obtain rfl := Option.some.inj found
      rw [if_pos same, new, same]
      congr 1
      apply List.map_congr_left
      intro c member
      rw [others c (List.mem_cons_of_mem _ member)]
      rintro rfl
      exact nodup.1 (List.mem_map_of_mem member)
    · have found : l.find? (fun b => g b = name) = some a := by
        rwa [List.find?_cons, decide_eq_false same] at found
      rw [if_neg same, others b List.mem_cons_self]
      · congr 1
        exact ih nodup.2 found fun c member => others c (List.mem_cons_of_mem _ member)
      · rintro rfl
        have passed := List.find?_some found
        exact same (of_decide_eq_true passed)

/-- Attributes are written one after the other. -/
def putAttribs (as new : List (CString × CString)) : List (CString × CString) :=
  new.foldl (fun as a => putAttrib a.1 a.2 as) as

theorem putAttribs_distinct {as new : List (CString × CString)} (distinct : ((as ++ new).map Prod.fst).Nodup) :
    putAttribs as new = as ++ new := by
  induction new generalizing as with
  | nil => exact (List.append_nil as).symm
  | cons a new ih =>
    have absent : a.1 ∉ as.map Prod.fst := by
      rw [List.map_append, List.map_cons] at distinct
      intro member
      exact (List.nodup_append.mp distinct).2.2 a.1 member a.1 List.mem_cons_self rfl
    rw [putAttribs, List.foldl_cons, putAttrib_absent absent]
    have rest : as ++ a :: new = (as ++ [(a.1, a.2)]) ++ new := by rw [List.append_assoc]; rfl
    rw [rest] at distinct ⊢
    exact ih distinct

end Lists

section Owners

variable {s : Store} {F G H : Forest} {o n : NodePtr} {x : Xmlnode} {as bs : List (CString × CString)}

/-- One node has other attributes than before. -/
structure Attributed (o : NodePtr) (F G : Forest) (as : List (CString × CString)) : Prop where
  next : F.next ≤ G.next
  label : ∀ n, n < F.next → n ∉ F.attrs o → G.label n = F.label n
  kids : G.kids = F.kids
  attrs : ∀ n, n ≠ o → G.attrs n = F.attrs n
  old : ∀ a ∈ G.attrs o, a ∈ F.attrs o ∨ F.next ≤ a
  attribs : G.attribs o = as

theorem Attributed.refl (o : NodePtr) (F : Forest) : Attributed o F F (F.attribs o) :=
  ⟨Nat.le_refl _, fun _ _ _ => rfl, rfl, fun _ _ => rfl, fun _ member => .inl member, rfl⟩

theorem Attributed.trans (first : Attributed o F G as) (second : Attributed o G H bs) :
    Attributed o F H bs where
  next := Nat.le_trans first.next second.next
  label n low other := by
    rw [second.label n (Nat.lt_of_lt_of_le low first.next), first.label n low other]
    intro member
    rcases first.old n member with member | high
    · exact other member
    · exact Nat.lt_irrefl _ (Nat.lt_of_lt_of_le low high)
  kids := second.kids.trans first.kids
  attrs n other := (second.attrs n other).trans (first.attrs n other)
  old a member := by
    rcases second.old a member with member | high
    · exact first.old a member
    · exact .inr (Nat.le_trans first.next high)
  attribs := second.attribs

/-- No attribute is a tag or a text. -/
theorem Attributed.other (done : Attributed o F G as) (valid : F.Valid) (type : F.type n ≠ some .attrib)
    (low : n < F.next) : G.label n = F.label n := by
  apply done.label n low
  intro member
  obtain ⟨_, l, _, here, _, attrib, _⟩ := valid.attr o n member
  apply type
  unfold Forest.type
  rw [here, Option.map_some, attrib]

theorem Forest.Valid.type_lt (valid : F.Valid) {type : NodeType} (tag : F.type n = some type) : n < F.next := by
  obtain ⟨l, here, _⟩ := Option.map_eq_some_iff.mp tag
  exact valid.lt_next here

theorem Attributed.tag (done : Attributed o F G as) (valid : F.Valid) (tag : F.type n = some .tag) :
    G.type n = some .tag := by
  unfold Forest.type
  rw [done.other valid (by rw [tag]; exact nofun) (valid.type_lt tag)]
  exact tag

theorem Attributed.attribs_other (done : Attributed o F G as) (valid : F.Valid) (other : n ≠ o) :
    G.attribs n = F.attribs n := by
  unfold Forest.attribs
  rw [done.attrs n other]
  apply values_congr
  intro a member
  apply done.label a (valid.attr_lt_next member)
  exact fun member' => other (valid.attr_owner n o a member member')

/-- Other attributes change the trees above them. -/
theorem Attributed.tree (done : Attributed o F G as) (valid : F.Valid) (valid' : G.Valid)
    (type : F.type n ≠ some .attrib) (low : n < F.next) (apart : ¬ F.Below n o) : G.tree n = F.tree n := by
  apply tree_of_below valid valid'
  intro k below
  have other : k ≠ o := by
    rintro rfl
    exact apart below
  have kind : F.type k ≠ some .attrib ∧ k < F.next := by
    cases below with
    | refl => exact ⟨type, low⟩
    | tail _ member =>
      obtain ⟨_, l, _, here, _, kind, _⟩ := valid.kid _ k member
      refine ⟨?_, valid.lt_next here⟩
      unfold Forest.type
      rw [here]
      exact fun same => kind (Option.some.inj same)
  exact ⟨done.other valid kind.1 kind.2, congrFun done.kids k, done.attribs_other valid other⟩

/-- The tree of the tag that gets the attributes. -/
theorem Attributed.tree_self (done : Attributed o F G as) (valid : F.Valid) (valid' : G.Valid)
    (tag : F.type o = some .tag) : G.tree o = .tag (F.name o) as (joined ((F.kids o).map F.tree)) := by
  have low := valid.type_lt tag
  have label := done.other valid (by rw [tag]; exact nofun) low
  have name : G.name o = F.name o := by
    unfold Forest.name
    rw [label]
  have trees : (F.kids o).map G.tree = (F.kids o).map F.tree := by
    apply List.map_congr_left
    intro k member
    obtain ⟨_, l, _, here, _, kind, _⟩ := valid.kid o k member
    apply done.tree valid valid' _ (valid.lt_next here) (not_below_kid valid member)
    unfold Forest.type
    rw [here]
    exact fun same => kind (Option.some.inj same)
  rw [tree_tag valid' (done.tag valid tag), name, done.attribs, done.kids, trees]

theorem Forest.Complete.push (complete : F.Complete) {l : Label} (owner : Option NodePtr)
    (given : l.type ≠ .tag → l.data.isSome = true) : (F.push l owner).Complete := by
  intro n l' here type
  change Function.update F.label F.next (some l) n = some l' at here
  by_cases new : n = F.next
  · subst n
    rw [Function.update_self] at here
    obtain rfl := Option.some.inj here
    exact given type
  · rw [Function.update_of_ne new] at here
    exact complete n l' here type

theorem Forest.Complete.setData (complete : F.Complete) (n : NodePtr) (d : CString) :
    (F.setData n d).Complete := by
  intro k l here type
  change Function.update F.label n _ k = some l at here
  by_cases same : k = n
  · subst k
    rw [Function.update_self] at here
    obtain ⟨l₀, _, rfl⟩ := Option.map_eq_some_iff.mp here
    rfl
  · rw [Function.update_of_ne same] at here
    exact complete k l here type

theorem Forest.Complete.putAttrib (complete : F.Complete) (o : NodePtr) (p : PoolPtr) (name value : CString) :
    (F.putAttrib o p name value).Complete := by
  unfold Forest.putAttrib
  split
  · exact complete.setData _ value
  · exact complete.push _ fun _ => rfl

/-- One write is that of `putAttrib` in the list of the names and values. -/
theorem putAttrib_attributed (valid : F.Valid) (o : NodePtr) (p : PoolPtr) (name value : CString) :
    Attributed o F (F.putAttrib o p name value) (putAttrib name value (F.attribs o)) := by
  unfold Forest.putAttrib
  cases found : F.findAttr o name with
  | some a =>
    have member : a ∈ F.attrs o := List.mem_of_find?_eq_some found
    obtain ⟨_, l, _, here, _⟩ := valid.attr o a member
    refine ⟨Nat.le_refl _, ?_, rfl, fun _ _ => rfl, fun _ member => .inl member, ?_⟩
    · rintro n _ other
      apply Function.update_of_ne
      rintro rfl
      exact other member
    · have names : ∀ b, (F.setData a value).name b = F.name b := fun b => setData_name b value
      change ((F.attrs o).map fun b => ((F.setData a value).name b, (F.setData a value).data b)) = _
      simp only [names]
      apply putAttrib_map (valid.keys o) found (setData_data_self here value)
      exact fun b _ other => setData_data_other other value
  | none =>
    refine ⟨Nat.le_succ _, fun n low _ => push_label_old low, ?_, ?_, ?_, ?_⟩
    · rfl
    · intro n other
      exact if_neg fun same => other (Option.some.inj same).symm
    · intro a member
      rcases mem_push_attrs.mp member with member | ⟨_, rfl⟩
      · exact .inl member
      · exact .inr (Nat.le_refl _)
    · have absent : name ∉ (F.attribs o).map Prod.fst := by
        intro member
        obtain ⟨_, given, rfl⟩ := List.mem_map.mp member
        obtain ⟨a, inside, rfl⟩ := List.mem_map.mp given
        exact List.find?_eq_none.mp found a inside (decide_eq_true rfl)
      rw [putAttrib_absent absent]
      have attrs : (F.push ⟨.attrib, some name, some value, p, none⟩ (some o)).attrs o =
          F.attrs o ++ [F.next] := if_pos rfl
      unfold Forest.attribs
      rw [attrs, List.map_append, List.map_singleton]
      congr 1
      · apply List.map_congr_left
        intro a member
        rw [push_name_old (valid.attr_lt_next member), push_data_old (valid.attr_lt_next member)]
      · unfold Forest.name Forest.data
        rw [push_label_new]
        rfl

/-- The attributes that the parser names with a tag, whether it names one twice or not. -/
theorem xmlnodePutExpatAttribs_eq (linked : Linked s F) (complete : F.Complete) (tag : F.type o = some .tag)
    (atts : List (CString × CString)) :
    ∃ s' G, xmlnodePutExpatAttribs s (some o) atts = some s' ∧ Linked s' G ∧ G.Complete ∧
      Attributed o F G (putAttribs (F.attribs o) atts) ∧ Grown s.mem s'.mem := by
  induction atts generalizing s F with
  | nil => exact ⟨s, F, rfl, linked, complete, .refl o F, .refl linked.reach⟩
  | cons a atts ih =>
    obtain ⟨l, here, type⟩ := Option.map_eq_some_iff.mp tag
    obtain ⟨x, node, rfl⟩ := linked.node here
    obtain ⟨s₁, made, linked₁, grown₁⟩ := xmlnodePutAttrib_eq linked node type a.1 a.2
    have done := putAttrib_attributed linked.valid o x.p a.1 a.2
    obtain ⟨s', G, rest, linked', complete', done', grown'⟩ := ih linked₁ (complete.putAttrib o x.p a.1 a.2)
      (done.tag linked.valid tag)
    refine ⟨s', G, ?_, linked', complete', ?_, grown₁.trans grown'⟩
    · rw [xmlnodePutExpatAttribs, made]
      exact rest
    · rw [done.attribs] at done'
      exact done.trans done'

end Owners

end JabSimul.Dom
