import JabSimul.DomReaders
import JabSimul.Lib.Fuel

/-!
`_xmlnode2spool` goes through a tree without a stack, by the pointers to parents and
siblings, and merges chunks of character data while it does so. It ends, and what it
prints is the text of the tree.
-/
namespace JabSimul.Dom

open Pools SiblingList Fuel

section Spools

variable {s : Store} {sp : Spool} {p : PoolPtr} {t : CString}

/-- What is in a spool. -/
structure Spool.Holds (sp : Spool) (p : PoolPtr) (t : CString) : Prop where
  pool : sp.p = p
  text : sp.nodes.flatten = t
  len : sp.len = t.length

theorem spoolAdd_eq (reach : s.mem.Reachable) (alive : (s.mem.pools p).isSome = true)
    (holds : sp.Holds p t) (str : Option CString) :
    ∃ sp' mem, spoolAdd s sp str = some (sp', { s with mem := mem }) ∧
      sp'.Holds p (t ++ str.getD []) ∧ Grown s.mem mem := by
  unfold spoolAdd
  cases str with
  | none =>
    refine ⟨sp, s.mem, rfl, ?_, .refl reach⟩
    rw [Option.getD_none, List.append_nil]
    exact holds
  | some str =>
    dsimp only
    by_cases empty : str.length = 0
    · rw [if_pos empty]
      refine ⟨sp, s.mem, rfl, ?_, .refl reach⟩
      rw [Option.getD_some, List.length_eq_zero_iff.mp empty, List.append_nil]
      exact holds
    · rw [if_neg empty, holds.pool]
      obtain ⟨mem₁, first, grown₁⟩ := Store.pmalloc_grown reach alive sizeofSpoolNode
      obtain ⟨mem₂, second, grown₂⟩ := pstrdup_grown (s := { s with mem := mem₁ }) grown₁.reach
        (grown₁.alive p alive) (some str)
      rw [first]
      simp only [Option.bind_eq_bind, Option.bind_some]
      rw [second]
      refine ⟨_, mem₂, rfl, ⟨rfl, ?_, ?_⟩, grown₁.trans grown₂⟩
      · change (sp.nodes ++ [str]).flatten = t ++ str
        rw [List.flatten_append, holds.text]
        exact congrArg _ (List.append_nil str)
      · change sp.len + str.length = (t ++ str).length
        rw [holds.len, List.length_append]

theorem spooler_eq (reach : s.mem.Reachable) (alive : (s.mem.pools p).isSome = true)
    (holds : sp.Holds p t) (ap : List (Option CString)) :
    ∃ sp' mem, spooler s sp ap = some (sp', { s with mem := mem }) ∧
      sp'.Holds p (t ++ (ap.map fun a => a.getD []).flatten) ∧ Grown s.mem mem := by
  induction ap generalizing s sp t with
  | nil =>
    refine ⟨sp, s.mem, rfl, ?_, .refl reach⟩
    rw [List.map_nil, List.flatten_nil, List.append_nil]
    exact holds
  | cons arg ap ih =>
    obtain ⟨sp₁, mem₁, first, holds₁, grown₁⟩ := spoolAdd_eq reach alive holds arg
    obtain ⟨sp₂, mem₂, second, holds₂, grown₂⟩ := ih (s := { s with mem := mem₁ }) grown₁.reach
      (grown₁.alive p alive) holds₁
    refine ⟨sp₂, mem₂, ?_, ?_, grown₁.trans grown₂⟩
    · rw [spooler, first]
      exact second
    · rw [List.map_cons, List.flatten_cons, ← List.append_assoc]
      exact holds₂

theorem escapeChar_plain {c : Char} (plain : escapeGrowth c = 0) : escapeChar c = [c] := by
  unfold escapeGrowth at plain
  unfold escapeChar
  split at plain
  · cases plain
  · split at plain
    · cases plain
    · split at plain
      · cases plain
      · split at plain
        · cases plain
        · split at plain
          · cases plain
          · rename_i a b c d e
            rw [if_neg a, if_neg b, if_neg c, if_neg d, if_neg e]

/-- Nothing to escape is nothing to copy. -/
theorem strescape_plain {buf : CString} (plain : (buf.map escapeGrowth).sum = 0) :
    JabSimul.strescape buf = buf := by
  induction buf with
  | nil => rfl
  | cons c buf ih =>
    rw [List.map_cons, List.sum_cons] at plain
    change escapeChar c ++ JabSimul.strescape buf = c :: buf
    rw [escapeChar_plain (Nat.eq_zero_of_add_eq_zero_right plain),
      ih (Nat.eq_zero_of_add_eq_zero_left plain)]
    rfl

theorem strescape_eq (reach : s.mem.Reachable) (alive : (s.mem.pools p).isSome = true) (buf : CString) :
    ∃ mem, strescape s (some p) (some buf) =
      some (some (JabSimul.strescape buf), { s with mem := mem }) ∧ Grown s.mem mem := by
  unfold strescape
  dsimp only
  by_cases plain : buf.length = buf.length + (buf.map escapeGrowth).sum
  · rw [if_pos plain, strescape_plain (by omega)]
    exact ⟨s.mem, rfl, .refl reach⟩
  · rw [if_neg plain]
    obtain ⟨mem, taken, grown⟩ := Store.pmalloc_grown reach alive
      (buf.length + (buf.map escapeGrowth).sum + 1)
    rw [taken]
    exact ⟨mem, rfl, grown⟩

end Spools

section Tags

variable {s : Store} {F : Forest} {sp : Spool} {p : PoolPtr} {n : NodePtr} {x : Xmlnode} {t : CString}

/-- The loop over the attributes. The induction is on those that are left. -/
theorem tag2strAttribs_eq (linked : Linked s F) (complete : F.Complete)
    (alive : (s.mem.pools p).isSome = true) (holds : sp.Holds p t) {l₁ l : List NodePtr}
    (attrs : F.attrs n = l₁ ++ l) {fuel : Nat} (enough : l.length ≤ fuel) :
    ∃ sp' mem, tag2strAttribs (some p) fuel s sp l.head? = some (sp', { s with mem := mem }) ∧
      sp'.Holds p (t ++ attribsStr (l.map fun a => (F.name a, F.data a))) ∧ Grown s.mem mem := by
  induction l generalizing s sp t l₁ fuel with
  | nil =>
    refine ⟨sp, s.mem, ?_, ?_, .refl linked.reach⟩
    · rw [List.head?_nil, tag2strAttribs]
    · rw [List.map_nil]
      change sp.Holds p (t ++ [])
      rw [List.append_nil]
      exact holds
  | cons a l ih =>
    obtain ⟨fuel, rfl⟩ : ∃ f, fuel = f + 1 := ⟨fuel - 1, by rw [List.length_cons] at enough; omega⟩
    have member : a ∈ F.attrs n := by
      rw [attrs]
      exact List.mem_append_right _ List.mem_cons_self
    obtain ⟨_, y, _, here, _, type, _⟩ := linked.attr_node member
    have next : y.next = l.head? := by
      have links := linked.attrs n
      rw [attrs] at links
      have next := links.next_eq
      unfold Store.nextOf at next
      rw [here, start_none] at next
      exact next
    have named := linked.valid.named a y.label (linked.label_of here) (by
      change y.type ≠ .cdata
      rw [type]
      exact nofun)
    have data := xmlnodeGetData_attr linked complete member
    obtain ⟨mem₁, escaped, grown₁⟩ := strescape_eq (s := s) linked.reach alive (F.data a)
    have alive₁ := grown₁.alive p alive
    obtain ⟨sp₂, mem₂, printed, holds₂, grown₂⟩ := spooler_eq (s := { s with mem := mem₁ }) grown₁.reach
      alive₁ holds [some (cstr " "), some (F.name a), some (cstr "='"),
        some (JabSimul.strescape (F.data a)), some (cstr "'")]
    have grown := grown₁.trans grown₂
    have attrs' : F.attrs n = (l₁ ++ [a]) ++ l := by rw [attrs, List.append_assoc]; rfl
    have enough' : l.length ≤ fuel := Nat.le_of_succ_le_succ enough
    obtain ⟨sp₃, mem₃, rest, holds₃, grown₃⟩ := ih (s := { s with mem := mem₂ }) (linked.grow grown)
      (grown.alive p alive) holds₂ attrs' enough'
    refine ⟨sp₃, mem₃, ?_, ?_, grown.trans grown₃⟩
    · rw [List.head?_cons, tag2strAttribs, xmlnodeGetName, get_eq here, name_eq linked here named]
      simp only [Option.bind_eq_bind, Option.bind_some]
      rw [data]
      simp only [Option.bind_some]
      rw [escaped]
      simp only [Option.bind_some]
      rw [printed]
      simp only [Option.bind_some]
      rw [xmlnodeGetNextsibling, get_eq (s := { s with mem := mem₂ }) here, next]
      exact rest
    · have text : attribsStr ((a :: l).map fun a => (F.name a, F.data a)) =
          ([some (cstr " "), some (F.name a), some (cstr "='"), some (JabSimul.strescape (F.data a)),
            some (cstr "'")].map fun a => a.getD []).flatten ++
          attribsStr (l.map fun a => (F.name a, F.data a)) := by
        rw [List.map_cons]
        unfold attribsStr
        rw [List.flatMap_cons]
        simp
      rw [text, ← List.append_assoc]
      exact holds₃

/-- What `_xmlnode_tag2str` prints. -/
def tagText (F : Forest) (n : NodePtr) (flag : Nat) : CString :=
  if flag = 0 ∨ flag = 1 then
    cstr "<" ++ F.name n ++ attribsStr (F.attribs n) ++ (if flag = 0 then cstr "/>" else cstr ">")
  else cstr "</" ++ F.name n ++ cstr ">"

theorem tag2str_eq (linked : Linked s F) (complete : F.Complete) (here : s.nodes n = some x)
    (tag : x.type = .tag) (holds : sp.Holds x.p t) (flag : Nat) :
    ∃ sp' mem, tag2str s sp (some n) flag = some (sp', { s with mem := mem }) ∧
      sp'.Holds x.p (t ++ tagText F n flag) ∧ Grown s.mem mem := by
  have alive := linked.alive n x here
  have named := linked.valid.named n x.label (linked.label_of here) (by
    change x.type ≠ .cdata
    rw [tag]
    exact nofun)
  have name : xmlnodeGetName s (some n) = some (some (F.name n)) := by
    rw [xmlnodeGetName, get_eq here, name_eq linked here named]
  unfold tag2str tagText
  by_cases opening : flag = 0 ∨ flag = 1
  · rw [if_pos opening, if_pos opening, name]
    simp only [Option.bind_eq_bind, Option.bind_some]
    obtain ⟨sp₁, mem₁, first, holds₁, grown₁⟩ := spooler_eq (s := s) linked.reach alive holds
      [some (cstr "<"), some (F.name n)]
    have linked₁ := linked.grow grown₁
    obtain ⟨sp₂, mem₂, second, holds₂, grown₂⟩ := tag2strAttribs_eq (s := { s with mem := mem₁ }) linked₁
      complete (grown₁.alive _ alive) holds₁ (l := F.attrs n) (List.nil_append _).symm (linked.attrs_length n)
    obtain ⟨sp₃, mem₃, third, holds₃, grown₃⟩ := spoolAdd_eq (s := { s with mem := mem₂ }) grown₂.reach
      (grown₂.alive _ (grown₁.alive _ alive)) holds₂ (some (if flag = 0 then cstr "/>" else cstr ">"))
    refine ⟨sp₃, mem₃, ?_, ?_, (grown₁.trans grown₂).trans grown₃⟩
    · rw [first]
      simp only [Option.bind_some]
      rw [xmlnodePool, get_eq (s := { s with mem := mem₁ }) here]
      simp only [Option.bind_some]
      rw [xmlnodeGetFirstattrib, get_eq (s := { s with mem := mem₁ }) here, linked.firstattrib n x here]
      simp only [Option.bind_some]
      rw [second]
      exact third
    · have text : t ++ (cstr "<" ++ F.name n ++ attribsStr (F.attribs n) ++
          (if flag = 0 then cstr "/>" else cstr ">")) =
          t ++ ([some (cstr "<"), some (F.name n)].map fun a => a.getD []).flatten ++
            attribsStr ((F.attrs n).map fun a => (F.name a, F.data a)) ++
            (some (if flag = 0 then cstr "/>" else cstr ">")).getD [] := by
        simp [Forest.attribs]
      rw [text]
      exact holds₃
  · rw [if_neg opening, if_neg opening, name]
    simp only [Option.bind_eq_bind, Option.bind_some]
    obtain ⟨sp₁, mem₁, first, holds₁, grown₁⟩ := spooler_eq (s := s) linked.reach alive holds
      [some (cstr "</"), some (F.name n), some (cstr ">")]
    refine ⟨sp₁, mem₁, first, ?_, grown₁⟩
    have text : cstr "</" ++ F.name n ++ cstr ">" =
        ([some (cstr "</"), some (F.name n), some (cstr ">")].map fun a => a.getD []).flatten := by
      simp
    rw [text]
    exact holds₁

end Tags

section Measures

variable {F : Forest} {m n k x : NodePtr} {l₁ mid l₂ : List NodePtr}

theorem strescape_append (d e : CString) :
    JabSimul.strescape (d ++ e) = JabSimul.strescape d ++ JabSimul.strescape e := List.flatMap_append

theorem xmlnodes2str_joinFront (x : XmlNode) (l : List XmlNode) :
    xmlnodes2str (joinFront x l) = JabSimul.xmlnode2str x ++ xmlnodes2str l := by
  cases x with
  | tag n as cs => rw [joinFront_tag rfl, xmlnodes2str]
  | cdata d =>
    cases l with
    | nil =>
      change xmlnodes2str [.cdata d] = _
      simp only [xmlnodes2str]
    | cons y l =>
      cases y with
      | tag n as cs =>
        change xmlnodes2str (.cdata d :: .tag n as cs :: l) = _
        rw [xmlnodes2str]
      | cdata d' =>
        change xmlnodes2str (.cdata (d ++ d') :: l) = _
        rw [xmlnodes2str, xmlnodes2str, JabSimul.xmlnode2str, JabSimul.xmlnode2str, JabSimul.xmlnode2str,
          strescape_append, List.append_assoc]

/-- Joined chunks are printed as the chunks are. -/
theorem xmlnodes2str_joined (l : List XmlNode) : xmlnodes2str (joined l) = xmlnodes2str l := by
  induction l with
  | nil => rfl
  | cons x l ih => rw [joined_cons, xmlnodes2str_joinFront, ih, xmlnodes2str]

theorem joined_ne_nil {l : List XmlNode} (some_ : l ≠ []) : joined l ≠ [] := by
  cases l with
  | nil => exact absurd rfl some_
  | cons x l =>
    rw [joined_cons]
    cases x with
    | tag n as cs =>
      rw [joinFront_tag rfl]
      exact nofun
    | cdata d =>
      cases joined l with
      | nil => exact nofun
      | cons y l =>
        cases y with
        | tag n as cs => exact nofun
        | cdata d' => exact nofun

/-- The text of a tag without children. -/
theorem str_leaf (valid : F.Valid) (tag : F.type n = some .tag) (empty : F.kids n = []) :
    JabSimul.xmlnode2str (F.tree n) = tagText F n 0 := by
  rw [tree_tag valid tag, empty, List.map_nil, joined_nil, JabSimul.xmlnode2str]
  rfl

/-- The text of a tag with children. -/
theorem str_branch (valid : F.Valid) (tag : F.type n = some .tag) (some_ : F.kids n ≠ []) :
    JabSimul.xmlnode2str (F.tree n) =
      tagText F n 1 ++ xmlnodes2str ((F.kids n).map F.tree) ++ tagText F n 2 := by
  rw [tree_tag valid tag, ← xmlnodes2str_joined]
  have more : joined ((F.kids n).map F.tree) ≠ [] := joined_ne_nil (List.map_eq_nil_iff.not.mpr some_)
  cases joint : joined ((F.kids n).map F.tree) with
  | nil => exact absurd joint more
  | cons c cs =>
    rw [JabSimul.xmlnode2str, xmlnodes2str]
    unfold tagText
    rw [if_pos (Or.inr rfl), if_neg Nat.one_ne_zero, if_neg (by omega)]
    simp only [List.append_assoc]

theorem str_text (valid : F.Valid) (text : F.type n ≠ some .tag) :
    JabSimul.xmlnode2str (F.tree n) = JabSimul.strescape (F.data n) := by
  rw [tree_text valid text, JabSimul.xmlnode2str]

/-- How often the loop goes round for a node at most. -/
def Forest.weight (F : Forest) : NodePtr → Nat := F.fold (fun _ => 1) fun _ l => 2 + l.sum

theorem weight_tag (valid : F.Valid) (tag : F.type n = some .tag) :
    F.weight n = 2 + ((F.kids n).map F.weight).sum := by
  unfold Forest.weight
  rw [fold_eq _ _ valid, if_pos tag]

theorem weight_text (valid : F.Valid) (text : F.type n ≠ some .tag) : F.weight n = 1 := by
  unfold Forest.weight
  rw [fold_eq _ _ valid, if_neg text]

theorem sum_sublist {l l' : List NodePtr} {f g : NodePtr → Nat} (sub : l'.Sublist l)
    (le : ∀ k ∈ l, g k ≤ f k) : (l'.map g).sum ≤ (l.map f).sum := by
  induction sub with
  | slnil => exact Nat.le_refl _
  | cons a sub ih =>
    rw [List.map_cons, List.sum_cons]
    exact Nat.le_trans (ih fun k member => le k (List.mem_cons_of_mem _ member)) (Nat.le_add_left _ _)
  | cons_cons a sub ih =>
    rw [List.map_cons, List.map_cons, List.sum_cons, List.sum_cons]
    exact Nat.add_le_add (le a List.mem_cons_self) (ih fun k member => le k (List.mem_cons_of_mem _ member))

/-- Where chunks are joined the loop has less to do. -/
theorem weight_join (valid : F.Valid) (run : F.Run m x l₁ mid l₂) (n : NodePtr) :
    (F.join m x l₁ mid l₂).weight n ≤ F.weight n := by
  have valid' := valid.join run
  have types : ∀ k, (F.join m x l₁ mid l₂).type k = F.type k := fun k => setData_type k _
  generalize depth : F.next - n = fuel
  induction fuel using Nat.strong_induction_on generalizing n with
  | _ fuel ih =>
    by_cases tag : F.type n = some .tag
    · rw [weight_tag valid tag, weight_tag valid' (types n ▸ tag)]
      apply Nat.add_le_add_left
      apply sum_sublist (run.sublist n)
      intro k member
      apply ih (F.next - k) _ k rfl
      rw [← depth]
      exact Nat.sub_lt_sub_left (Nat.lt_trans (valid.kid_lt member) (valid.kid_lt_next member))
        (valid.kid_lt member)
    · rw [weight_text valid tag, weight_text valid' ((types n).symm ▸ tag)]

theorem tagText_join (valid : F.Valid) (run : F.Run m x l₁ mid l₂) (n : NodePtr) (flag : Nat) :
    tagText (F.join m x l₁ mid l₂) n flag = tagText F n flag := by
  have names : ∀ k, (F.join m x l₁ mid l₂).name k = F.name k := fun k => setData_name k _
  have attribs : (F.join m x l₁ mid l₂).attribs n = F.attribs n := by
    apply List.map_congr_left
    intro a member
    obtain ⟨_, l, _, there, _, type, _⟩ := valid.attr n a member
    have other : a ≠ x := by
      rintro rfl
      have text := run.text a List.mem_cons_self
      unfold Forest.type at text
      rw [there, Option.map_some, type] at text
      cases text
    rw [names]
    exact congrArg _ (setData_data_other other _)
  unfold tagText
  rw [names, attribs]

/-- What the loop has to print behind a node, and how often it goes round for that at most.
The number is the level of the node below the one with which the loop began. -/
inductive Rest (F : Forest) : Nat → NodePtr → CString → Nat → Prop
  | root {k : NodePtr} : Rest F 0 k [] 0
  | kid {m k : NodePtr} {l₁ l₂ : List NodePtr} {level w : Nat} {t : CString}
      (kids : F.kids m = l₁ ++ k :: l₂) (rest : Rest F level m t w) :
      Rest F (level + 1) k (xmlnodes2str (l₂.map F.tree) ++ tagText F m 2 ++ t)
        ((l₂.map F.weight).sum + 1 + w)

/-- Chunks that are joined below a node change nothing of what comes behind it. -/
theorem Rest.join (valid : F.Valid) (run : F.Run m x l₁ mid l₂) {level w : Nat} {t : CString}
    (rest : Rest F level k t w) (above : k ≤ m) :
    ∃ w', w' ≤ w ∧ Rest (F.join m x l₁ mid l₂) level k t w' := by
  induction rest with
  | root => exact ⟨0, Nat.le_refl _, .root⟩
  | @kid m₂ k l₃ l₄ level t w kids rest ih =>
    have lt : m₂ < k := by
      apply valid.kid_lt
      rw [kids]
      exact List.mem_append_right _ List.mem_cons_self
    have lower : m₂ < m := Nat.lt_of_lt_of_le lt above
    obtain ⟨w', le, rest'⟩ := ih (Nat.le_of_lt lower)
    have same : (F.join m x l₁ mid l₂).kids m₂ = l₃ ++ k :: l₄ :=
      (Function.update_of_ne (Nat.ne_of_lt lower) _ _).trans kids
    have trees : l₄.map (F.join m x l₁ mid l₂).tree = l₄.map F.tree := by
      apply List.map_congr_left
      intro c member
      apply tree_join_other valid run
      rintro rfl
      have inside : c ∈ F.kids m₂ := by
        rw [kids]
        exact List.mem_append_right _ (List.mem_cons_of_mem _ member)
      obtain ⟨_, l, _, here, _, _, parent, _⟩ := valid.kid m₂ c inside
      obtain ⟨_, l', _, here', _, _, parent', _⟩ := valid.kid m c run.mem
      rw [here] at here'
      obtain rfl := Option.some.inj here'
      rw [parent] at parent'
      exact Nat.ne_of_lt lower (Option.some.inj parent')
    have result := Rest.kid same rest'
    rw [trees, tagText_join valid run] at result
    refine ⟨_, ?_, result⟩
    have sums := sum_sublist (List.Sublist.refl l₄) fun c _ => weight_join valid run c
    omega

end Measures

section Loop

variable {s : Store} {F : Forest} {sp : Spool} {p : PoolPtr} {k : NodePtr} {x : Xmlnode}
  {t out : CString} {level w : Nat}

theorem xmlnodes2str_append (l l' : List XmlNode) :
    xmlnodes2str (l ++ l') = xmlnodes2str l ++ xmlnodes2str l' := by
  induction l with
  | nil => rw [List.nil_append, xmlnodes2str, List.nil_append]
  | cons x l ih => rw [List.cons_append, xmlnodes2str, xmlnodes2str, ih, List.append_assoc]

/-- The chunks of a run are printed as their text is. -/
theorem strs_run (valid : F.Valid) {m x : NodePtr} {l₁ mid l₂ : List NodePtr} (run : F.Run m x l₁ mid l₂) :
    xmlnodes2str (mid.map F.tree) = JabSimul.strescape (mid.flatMap F.data) := by
  have texts : ∀ c ∈ mid, F.type c ≠ some .tag := by
    intro c member
    rw [run.text c (List.mem_cons_of_mem _ member)]
    exact nofun
  clear run
  induction mid with
  | nil => rw [List.map_nil, xmlnodes2str, List.flatMap_nil, JabSimul.strescape, List.flatMap_nil]
  | cons c mid ih =>
    rw [List.map_cons, xmlnodes2str, List.flatMap_cons, strescape_append,
      str_text valid (texts c List.mem_cons_self), ih fun d member => texts d (List.mem_cons_of_mem _ member)]

/-- The node of the first chunk is where it was. -/
theorem join_node {s₁ : Store} {m : NodePtr} {l₁ mid l₂ : List NodePtr} (linked : Linked s F)
    (linked₁ : Linked s₁ (F.join m k l₁ mid l₂)) (here : s.nodes k = some x) :
    ∃ x₁, s₁.nodes k = some x₁ ∧ x₁.p = x.p := by
  obtain ⟨l, there, _, _, pool, _⟩ := some_setData (n := k) (F.data k ++ mid.flatMap F.data)
    (linked.label_of here)
  obtain ⟨x₁, node, label⟩ := linked₁.node there
  refine ⟨x₁, node, ?_⟩
  rw [← label] at pool
  exact pool.symm

/-- What the loop comes to: the text is printed, and the store was only read. -/
def Printed (F : Forest) (s : Store) (p : PoolPtr) (text : CString) (r : Option (Spool × Store)) : Prop :=
  ∃ sp s' G, r = some (sp, s') ∧ sp.Holds p text ∧ Linked s' G ∧ Reread F G ∧ Grown s.mem s'.mem

theorem Printed.trans {F' : Forest} {s' : Store} {text : CString} {r : Option (Spool × Store)}
    (printed : Printed F' s' p text r) (read : Reread F F') (grown : Grown s.mem s'.mem) :
    Printed F s p text r := by
  obtain ⟨sp, s'', G, done, holds, linked, read', grown'⟩ := printed
  exact ⟨sp, s'', G, done, holds, linked, read.trans read', grown.trans grown'⟩

/-- The loop from a node that it did not see yet. -/
def Down (fuel : Nat) : Prop :=
  ∀ (s : Store) (F : Forest) (sp : Spool) (k : NodePtr) (x : Xmlnode) (level w : Nat) (t out : CString),
    Linked s F → F.Complete → s.nodes k = some x → (level = 0 → x.type = .tag) →
    (level = 0 → F.kids k = [] → x.next = none) → Rest F level k t w →
    sp.Holds x.p out → F.weight k + w ≤ fuel →
    Printed F s x.p (out ++ JabSimul.xmlnode2str (F.tree k) ++ t) (spoolLoop fuel s sp (some k) true level)

/-- The loop from a tag of which everything is printed. -/
def Up (fuel : Nat) : Prop :=
  ∀ (s : Store) (F : Forest) (sp : Spool) (k : NodePtr) (x : Xmlnode) (level w : Nat) (t out : CString),
    Linked s F → F.Complete → s.nodes k = some x → (level = 0 → x.next = none) → Rest F level k t w →
    sp.Holds x.p out → 1 + w ≤ fuel →
    Printed F s x.p (out ++ t) (spoolLoop fuel s sp (some k) false level)

/-- The second half of the loop: to the next sibling, or back to the parent. -/
def leave (fuel : Nat) (s : Store) (sp : Spool) (node : Option NodePtr) (level : Int) :
    Option (Spool × Store) := do
  let tmp ← xmlnodeGetNextsibling s node
  if tmp = none then
    let node ← xmlnodeGetParent s node
    let (sp, s) ← if 0 ≤ level - 1 then tag2str s sp node 2 else some (sp, s)
    if level - 1 < 1 then some (sp, s) else spoolLoop fuel s sp node false (level - 1)
  else spoolLoop fuel s sp tmp true level

theorem leave_printed {fuel : Nat} (down : Down fuel) (up : Up fuel) (linked : Linked s F)
    (complete : F.Complete) (here : s.nodes k = some x) (alone : level = 0 → x.next = none)
    (rest : Rest F level k t w) (holds : sp.Holds x.p out) (enough : w ≤ fuel) :
    Printed F s x.p (out ++ t) (leave fuel s sp (some k) level) := by
  unfold leave
  rw [xmlnodeGetNextsibling, get_eq here]
  simp only [Option.bind_eq_bind, Option.bind_some]
  cases rest with
  | root =>
    rw [alone rfl, if_pos rfl, xmlnodeGetParent, get_eq here]
    simp only [Option.bind_some]
    rw [if_neg (by decide), if_pos (by decide), List.append_nil]
    exact ⟨sp, s, F, rfl, holds, linked, .refl linked.valid complete, .refl linked.reach⟩
  | @kid m _ l₁ l₂ level w t kids rest =>
    have member : k ∈ F.kids m := by
      rw [kids]
      exact List.mem_append_right _ List.mem_cons_self
    obtain ⟨y, x', here_m, here', tag, _, parent, pool⟩ := linked.kid_node member
    rw [here] at here'
    obtain rfl := Option.some.inj here'
    have next : x.next = l₂.head? := by
      have links := linked.kids m
      rw [kids] at links
      have next := links.next_eq
      unfold Store.nextOf at next
      rw [here, start_none] at next
      exact next
    rw [next]
    cases l₂ with
    | nil =>
      rw [List.head?_nil, if_pos rfl, xmlnodeGetParent, get_eq here, parent]
      simp only [Option.bind_some]
      rw [if_pos (by omega)]
      have holds' : sp.Holds y.p out := pool ▸ holds
      obtain ⟨sp₁, mem, closed, holds₁, grown⟩ := tag2str_eq linked complete here_m tag holds' 2
      rw [closed]
      simp only [Option.bind_some]
      have text : out ++ (xmlnodes2str (([] : List NodePtr).map F.tree) ++ tagText F m 2 ++ t) =
          out ++ tagText F m 2 ++ t := by
        rw [List.map_nil, xmlnodes2str, List.nil_append, List.append_assoc]
      rw [text, pool]
      have back : ((level + 1 : Nat) : Int) - 1 = level := by omega
      rw [back]
      by_cases last : (level : Int) < 1
      · rw [if_pos last]
        obtain rfl : level = 0 := by omega
        cases rest with
        | root =>
          rw [List.append_nil]
          exact ⟨sp₁, _, F, rfl, holds₁, linked.grow grown, .refl linked.valid complete, grown⟩
      · rw [if_neg last]
        have enough' : 1 + w ≤ fuel := by
          rw [List.map_nil, List.sum_nil] at enough
          omega
        have printed := up { s with mem := mem } F sp₁ m y level w t (out ++ tagText F m 2) (linked.grow grown)
          complete here_m (fun zero => absurd (zero ▸ Int.zero_lt_one) last) rest holds₁ enough'
        exact printed.trans (.refl linked.valid complete) grown
    | cons c l₂ =>
      have member_c : c ∈ F.kids m := by
        rw [kids]
        exact List.mem_append_right _ (List.mem_cons_of_mem _ List.mem_cons_self)
      obtain ⟨y', z, here_m', here_c, _, _, _, pool_c⟩ := linked.kid_node member_c
      rw [here_m] at here_m'
      obtain rfl := Option.some.inj here_m'
      rw [List.head?_cons, if_neg nofun]
      have kids' : F.kids m = (l₁ ++ [k]) ++ c :: l₂ := by rw [kids, List.append_assoc]; rfl
      have text : out ++ (xmlnodes2str ((c :: l₂).map F.tree) ++ tagText F m 2 ++ t) =
          out ++ JabSimul.xmlnode2str (F.tree c) ++ (xmlnodes2str (l₂.map F.tree) ++ tagText F m 2 ++ t) := by
        rw [List.map_cons, xmlnodes2str]
        simp only [List.append_assoc]
      rw [text, pool, ← pool_c]
      have holds' : sp.Holds z.p out := by
        rw [pool_c, ← pool]
        exact holds
      apply down s F sp c z (level + 1) _ _ out linked complete here_c (fun zero => absurd zero (Nat.succ_ne_zero _))
        (fun zero => absurd zero (Nat.succ_ne_zero _)) (.kid kids' rest) holds'
      rw [List.map_cons, List.sum_cons] at enough
      omega

theorem spoolLoop_up {fuel : Nat} (here : s.nodes k = some x) (sp : Spool) (level : Int) :
    spoolLoop (fuel + 1) s sp (some k) false level = leave fuel s sp (some k) level := by
  rw [spoolLoop, leave, xmlnodeGetType, get_eq here]
  simp only [Option.bind_eq_bind, Option.bind_some]
  rw [xmlnodeHasChildren, xmlnodeGetFirstchild, get_eq here]
  simp only [Option.map_some, Option.bind_some]
  rw [if_neg (fun all => Bool.false_ne_true all.1), if_neg Bool.false_ne_true]

theorem spoolLoop_leaf {fuel : Nat} (here : s.nodes k = some x)
    (leaf : ¬ (x.type = .tag ∧ x.firstchild.isSome = true)) (sp : Spool) (level : Int) :
    spoolLoop (fuel + 1) s sp (some k) true level =
      (spoolLeaf s sp (some k)).bind fun r => leave fuel r.2 r.1 (some k) level := by
  rw [spoolLoop, xmlnodeGetType, get_eq here]
  simp only [Option.bind_eq_bind, Option.bind_some]
  rw [xmlnodeHasChildren, xmlnodeGetFirstchild, get_eq here]
  simp only [Option.map_some, Option.bind_some]
  rw [if_neg, if_pos trivial]
  · rfl
  · rintro ⟨_, type, some_⟩
    exact leaf ⟨Option.some.inj type, some_⟩

theorem spoolLoop_branch {fuel : Nat} (here : s.nodes k = some x) (type : x.type = .tag)
    (some_ : x.firstchild.isSome = true) (sp : Spool) (level : Int) :
    spoolLoop (fuel + 1) s sp (some k) true level =
      (tag2str s sp (some k) 1).bind fun r => (xmlnodeGetFirstchild r.2 (some k)).bind fun c =>
        spoolLoop fuel r.2 r.1 c true (level + 1) := by
  rw [spoolLoop, xmlnodeGetType, get_eq here]
  simp only [Option.bind_eq_bind, Option.bind_some]
  rw [xmlnodeHasChildren, xmlnodeGetFirstchild, get_eq here]
  simp only [Option.map_some, Option.bind_some]
  rw [if_pos ⟨trivial, congrArg some type, some_⟩]

/-- A tag into which the loop does not go down. -/
theorem spoolLeaf_tag (linked : Linked s F) (complete : F.Complete) (here : s.nodes k = some x) (type : x.type = .tag)
    (empty : F.kids k = []) (holds : sp.Holds x.p out) :
    ∃ sp' mem, spoolLeaf s sp (some k) = some (sp', { s with mem := mem }) ∧
      sp'.Holds x.p (out ++ JabSimul.xmlnode2str (F.tree k)) ∧ Grown s.mem mem := by
  have tag : F.type k = some .tag := by rw [type_eq linked here, type]
  obtain ⟨sp', mem, printed, holds', grown⟩ := tag2str_eq linked complete here type holds 0
  rw [str_leaf linked.valid tag empty]
  refine ⟨sp', mem, ?_, holds', grown⟩
  rw [spoolLeaf, xmlnodeGetType, get_eq here, type]
  simp only [Option.bind_eq_bind, Option.bind_some, if_true]
  exact printed

/-- A chunk, with those behind it. -/
theorem spoolLeaf_text {m : NodePtr} {l₁ mid l₂ : List NodePtr} (linked : Linked s F) (complete : F.Complete)
    (here : s.nodes k = some x) (run : F.Run m k l₁ mid l₂) (stops : F.Stops l₂) (holds : sp.Holds x.p out) :
    ∃ sp' s' x', spoolLeaf s sp (some k) = some (sp', s') ∧ s'.nodes k = some x' ∧ x'.p = x.p ∧
      sp'.Holds x.p (out ++ (JabSimul.xmlnode2str (F.tree k) ++ xmlnodes2str (mid.map F.tree))) ∧
      Linked s' (F.join m k l₁ mid l₂) ∧ Grown s.mem s'.mem := by
  have cdata := run.text k List.mem_cons_self
  have text : F.type k ≠ some .tag := by
    rw [cdata]
    exact nofun
  have type : ¬ some x.type = some NodeType.tag := by
    rw [← type_eq linked here]
    exact text
  obtain ⟨s₁, data, linked₁, grown₁⟩ := xmlnodeGetData_text linked complete run stops
  obtain ⟨x₁, here₁, pool₁⟩ := join_node linked linked₁ here
  obtain ⟨mem₂, escaped, grown₂⟩ := strescape_eq (s := s₁) linked₁.reach (linked₁.alive k x₁ here₁)
    (F.data k ++ mid.flatMap F.data)
  have alive₂ := grown₂.alive _ (linked₁.alive k x₁ here₁)
  obtain ⟨sp₃, mem₃, added, holds₃, grown₃⟩ := spoolAdd_eq (s := { s₁ with mem := mem₂ }) grown₂.reach
    alive₂ (pool₁ ▸ holds) (some (JabSimul.strescape (F.data k ++ mid.flatMap F.data)))
  have grown : Grown s₁.mem mem₃ := grown₂.trans grown₃
  refine ⟨sp₃, { s₁ with mem := mem₃ }, x₁, ?_, here₁, pool₁, ?_, linked₁.grow grown, grown₁.trans grown⟩
  · rw [spoolLeaf, xmlnodeGetType, get_eq here]
    simp only [Option.bind_eq_bind, Option.bind_some]
    rw [if_neg type, data]
    simp only [Option.bind_some]
    rw [xmlnodePool, get_eq here₁]
    simp only [Option.bind_some]
    rw [escaped]
    simp only [Option.bind_some]
    exact added
  · rw [str_text linked.valid text, strs_run linked.valid run, ← strescape_append, ← pool₁]
    exact holds₃

/-- One round of the loop. The cases are those of the code: down to the first child, a tag
without children, a chunk with those behind it, and back from below. -/
theorem loop_round {fuel : Nat} (down : Down fuel) (up : Up fuel) : Down (fuel + 1) ∧ Up (fuel + 1) := by
  constructor
  · intro s F sp k x level w t out linked complete here root alone rest holds enough
    by_cases type : x.type = .tag
    · have tag : F.type k = some .tag := by rw [type_eq linked here, type]
      by_cases empty : F.kids k = []
      · have first : x.firstchild = none := by rw [linked.firstchild k x here, empty]; rfl
        rw [spoolLoop_leaf here (fun both => by rw [first] at both; cases both.2)]
        obtain ⟨sp₁, mem, printed, holds₁, grown⟩ := spoolLeaf_tag linked complete here type empty holds
        rw [printed, Option.bind_some]
        have enough' : w ≤ fuel := by
          rw [weight_tag linked.valid tag] at enough
          omega
        have left := leave_printed down up (linked.grow grown) complete here (fun zero => alone zero empty)
          rest holds₁ enough'
        exact left.trans (.refl linked.valid complete) grown
      · obtain ⟨c, cs, kids⟩ := List.exists_cons_of_ne_nil empty
        have first : x.firstchild = some c := by rw [linked.firstchild k x here, kids]; rfl
        rw [spoolLoop_branch here type (by rw [first]; rfl)]
        obtain ⟨sp₁, mem, printed, holds₁, grown⟩ := tag2str_eq linked complete here type holds 1
        rw [printed, Option.bind_some, xmlnodeGetFirstchild, get_eq (s := { s with mem := mem }) here, first,
          Option.bind_some, str_branch linked.valid tag empty, kids, List.map_cons, xmlnodes2str]
        have member : c ∈ F.kids k := by
          rw [kids]
          exact List.mem_cons_self
        obtain ⟨y, z, here_k, here_c, _, _, _, pool⟩ := linked.kid_node member
        rw [here] at here_k
        obtain rfl := Option.some.inj here_k
        have text : out ++ (tagText F k 1 ++ (JabSimul.xmlnode2str (F.tree c) ++ xmlnodes2str (cs.map F.tree)) ++
            tagText F k 2) ++ t = (out ++ tagText F k 1) ++ JabSimul.xmlnode2str (F.tree c) ++
            (xmlnodes2str (cs.map F.tree) ++ tagText F k 2 ++ t) := by
          simp only [List.append_assoc]
        have enough' : F.weight c + ((cs.map F.weight).sum + 1 + w) ≤ fuel := by
          rw [weight_tag linked.valid tag, kids, List.map_cons, List.sum_cons] at enough
          omega
        have kids' : F.kids k = [] ++ c :: cs := kids
        rw [text, ← pool]
        have printed' := down { s with mem := mem } F sp₁ c z (level + 1) _ _ (out ++ tagText F k 1)
          (linked.grow grown) complete here_c (fun zero => absurd zero (Nat.succ_ne_zero _))
          (fun zero => absurd zero (Nat.succ_ne_zero _)) (.kid kids' rest) (pool ▸ holds₁) enough'
        exact printed'.trans (.refl linked.valid complete) grown
    · have text : F.type k ≠ some .tag := by
        rw [type_eq linked here]
        exact fun same => type (Option.some.inj same)
      rw [spoolLoop_leaf here (fun both => type both.1)]
      cases rest with
      | root => exact absurd (root rfl) type
      | @kid m _ l₁ l level w t kids rest =>
        have member : k ∈ F.kids m := by
          rw [kids]
          exact List.mem_append_right _ List.mem_cons_self
        have cdata : F.type k = some .cdata := by
          by_contra other
          exact text (linked.kid_type member other)
        obtain ⟨mid, l₂, rfl, run, stops⟩ := run_exists cdata kids
        obtain ⟨sp₁, s₁, x₁, printed, here₁, pool₁, holds₁, linked₁, grown⟩ :=
          spoolLeaf_text linked complete here run stops holds
        rw [printed, Option.bind_some]
        obtain ⟨w', le, rest'⟩ := rest.join linked.valid run (Nat.le_refl m)
        have kids' : (F.join m k l₁ mid l₂).kids m = l₁ ++ k :: l₂ := Function.update_self _ _ _
        have behind := Rest.kid kids' rest'
        have complete' := (Reread.join linked.valid complete run).complete
        have sums : (l₂.map (F.join m k l₁ mid l₂).weight).sum ≤ (l₂.map F.weight).sum :=
          sum_sublist (List.Sublist.refl l₂) fun c _ => weight_join linked.valid run c
        have enough' : (l₂.map (F.join m k l₁ mid l₂).weight).sum + 1 + w' ≤ fuel := by
          rw [weight_text linked.valid text, List.map_append, List.sum_append] at enough
          omega
        have texts : out ++ JabSimul.xmlnode2str (F.tree k) ++
            (xmlnodes2str ((mid ++ l₂).map F.tree) ++ tagText F m 2 ++ t) =
            out ++ (JabSimul.xmlnode2str (F.tree k) ++ xmlnodes2str (mid.map F.tree)) ++
            (xmlnodes2str (l₂.map (F.join m k l₁ mid l₂).tree) ++ tagText (F.join m k l₁ mid l₂) m 2 ++ t) := by
          have same : l₂.map (F.join m k l₁ mid l₂).tree = l₂.map F.tree :=
            List.map_congr_left fun c member => tree_join_other linked.valid run (run.apart linked.valid member)
          rw [List.map_append, xmlnodes2str_append, same, tagText_join linked.valid run]
          simp only [List.append_assoc]
        rw [texts, ← pool₁]
        have left := leave_printed down up linked₁ complete' here₁
          (fun zero => absurd zero (Nat.succ_ne_zero _)) behind (pool₁ ▸ holds₁) enough'
        exact left.trans (.join linked.valid complete run) grown
  · intro s F sp k x level w t out linked complete here alone rest holds enough
    rw [spoolLoop_up here]
    exact leave_printed down up linked complete here alone rest holds (by omega)

/-- The loop comes to the same end with a round more. -/
def Steady (fuel : Nat) : Prop :=
  ∀ (s : Store) (sp : Spool) (node : Option NodePtr) (down : Bool) (level : Int) (r : Spool × Store),
    spoolLoop fuel s sp node down level = some r → spoolLoop (fuel + 1) s sp node down level = some r

theorem leave_succ {fuel : Nat} {s : Store} {sp : Spool} {node : Option NodePtr} {level : Int} {r : Spool × Store}
    (steady : Steady fuel) (ran : leave fuel s sp node level = some r) :
    leave (fuel + 1) s sp node level = some r := by
  have close : ∀ (s : Store) (sp : Spool) (node : Option NodePtr),
      (if level - 1 < 1 then some (sp, s) else spoolLoop fuel s sp node false (level - 1)) = some r →
      (if level - 1 < 1 then some (sp, s) else spoolLoop (fuel + 1) s sp node false (level - 1)) = some r := by
    intro s sp node ran
    split at ran
    · rename_i out
      rw [if_pos out]
      exact ran
    · rename_i further
      rw [if_neg further]
      exact steady _ _ _ _ _ _ ran
  unfold leave at ran ⊢
  obtain ⟨next, read, ran⟩ := Option.bind_eq_some_iff.mp ran
  refine Option.bind_eq_some_iff.mpr ⟨next, read, ?_⟩
  by_cases last : next = none
  · rw [if_pos last] at ran ⊢
    obtain ⟨parent, above, ran⟩ := Option.bind_eq_some_iff.mp ran
    refine Option.bind_eq_some_iff.mpr ⟨parent, above, ?_⟩
    by_cases closing : 0 ≤ level - 1
    · rw [if_pos closing] at ran ⊢
      obtain ⟨printed, done, ran⟩ := Option.bind_eq_some_iff.mp ran
      exact Option.bind_eq_some_iff.mpr ⟨printed, done, close _ _ _ ran⟩
    · rw [if_neg closing] at ran ⊢
      exact close _ _ _ ran
  · rw [if_neg last] at ran ⊢
    exact steady _ _ _ _ _ _ ran

theorem steady (fuel : Nat) : Steady fuel := by
  induction fuel with
  | zero =>
    intro s sp node down level r ran
    cases ran
  | succ fuel ih =>
    intro s sp node down level r ran
    rw [spoolLoop] at ran ⊢
    obtain ⟨type, typed, ran⟩ := Option.bind_eq_some_iff.mp ran
    refine Option.bind_eq_some_iff.mpr ⟨type, typed, ?_⟩
    obtain ⟨has, read, ran⟩ := Option.bind_eq_some_iff.mp ran
    refine Option.bind_eq_some_iff.mpr ⟨has, read, ?_⟩
    by_cases branch : down = true ∧ type = some .tag ∧ has = true
    · rw [if_pos branch] at ran ⊢
      obtain ⟨printed, here, ran⟩ := Option.bind_eq_some_iff.mp ran
      refine Option.bind_eq_some_iff.mpr ⟨printed, here, ?_⟩
      obtain ⟨first, child, ran⟩ := Option.bind_eq_some_iff.mp ran
      exact Option.bind_eq_some_iff.mpr ⟨first, child, ih _ _ _ _ _ _ ran⟩
    · rw [if_neg branch] at ran ⊢
      by_cases fresh : down = true
      · rw [if_pos fresh] at ran ⊢
        obtain ⟨printed, here, ran⟩ := Option.bind_eq_some_iff.mp ran
        exact Option.bind_eq_some_iff.mpr ⟨printed, here, leave_succ ih ran⟩
      · rw [if_neg fresh] at ran ⊢
        exact leave_succ ih ran

theorem weight_pos (valid : F.Valid) (k : NodePtr) : 0 < F.weight k := by
  by_cases tag : F.type k = some .tag
  · rw [weight_tag valid tag]
    omega
  · rw [weight_text valid tag]
    exact Nat.one_pos

/-- The induction is on the rounds that the loop may still make. -/
theorem loop_rounds (fuel : Nat) : Down fuel ∧ Up fuel := by
  induction fuel with
  | zero =>
    constructor
    · intro s F sp k x level w t out linked _ _ _ _ _ enough
      have some_ := weight_pos linked.valid k
      omega
    · intro s F sp k x level w t out _ _ _ _ _ _ enough
      omega
  | succ fuel ih => exact loop_round ih.1 ih.2

/-- What the loop prints of siblings at the level where it began: it stops behind the first one
that has children. -/
def Forest.trail (F : Forest) : List NodePtr → CString
  | [] => []
  | k :: l => JabSimul.xmlnode2str (F.tree k) ++ if F.kids k = [] then F.trail l else []

theorem trail_empty (empty : F.kids k = []) (l : List NodePtr) :
    F.trail (k :: l) = JabSimul.xmlnode2str (F.tree k) ++ F.trail l := by
  rw [Forest.trail, if_pos empty]

theorem trail_some (some_ : F.kids k ≠ []) (l : List NodePtr) :
    F.trail (k :: l) = JabSimul.xmlnode2str (F.tree k) := by
  rw [Forest.trail, if_neg some_, List.append_nil]

theorem kids_of_text (valid : F.Valid) (text : F.type k ≠ some .tag) : F.kids k = [] := by
  apply List.eq_nil_iff_forall_not_mem.mpr
  intro c member
  obtain ⟨lk, _, here, _, tag, _⟩ := valid.kid k c member
  apply text
  unfold Forest.type
  rw [here, Option.map_some, tag]

theorem trail_append (valid : F.Valid) {l l' : List NodePtr} (texts : ∀ c ∈ l, F.type c = some .cdata) :
    F.trail (l ++ l') = xmlnodes2str (l.map F.tree) ++ F.trail l' := by
  induction l with
  | nil => rw [List.nil_append, List.map_nil, xmlnodes2str, List.nil_append]
  | cons c l ih =>
    have text : F.type c ≠ some .tag := by
      rw [texts c List.mem_cons_self]
      exact nofun
    rw [List.cons_append, trail_empty (kids_of_text valid text), List.map_cons, xmlnodes2str,
      ih fun c' member => texts c' (List.mem_cons_of_mem _ member), List.append_assoc]

theorem trail_join (valid : F.Valid) {m x : NodePtr} {l₁ mid l₂ : List NodePtr} (run : F.Run m x l₁ mid l₂)
    {l : List NodePtr} (behind : ∀ c ∈ l, m < c ∧ c ≠ x) : (F.join m x l₁ mid l₂).trail l = F.trail l := by
  induction l with
  | nil => rfl
  | cons c l ih =>
    obtain ⟨later, other⟩ := behind c List.mem_cons_self
    have kids : (F.join m x l₁ mid l₂).kids c = F.kids c := Function.update_of_ne (Nat.ne_of_gt later) _ _
    rw [Forest.trail, Forest.trail, kids, tree_join_other valid run other,
      ih fun c' member => behind c' (List.mem_cons_of_mem _ member)]

/-- The end of a round at the level where the loop began. -/
theorem leave_top {m : NodePtr} {l₁ l : List NodePtr} (linked : Linked s F) (kids : F.kids m = l₁ ++ k :: l)
    (fuel : Nat) (sp : Spool) :
    leave fuel s sp (some k) 0 = l.head?.elim (some (sp, s)) fun c => spoolLoop fuel s sp (some c) true 0 := by
  have member : k ∈ F.kids m := by
    rw [kids]
    exact List.mem_append_right _ List.mem_cons_self
  obtain ⟨y, x, _, here, _, _, parent, _⟩ := linked.kid_node member
  have next : x.next = l.head? := by
    have links := linked.kids m
    rw [kids] at links
    have next := links.next_eq
    unfold Store.nextOf at next
    rw [here, start_none] at next
    exact next
  rw [leave, xmlnodeGetNextsibling, get_eq here, next]
  cases l with
  | nil =>
    rw [List.head?_nil]
    simp only [Option.bind_eq_bind, Option.bind_some]
    rw [if_pos trivial, xmlnodeGetParent, get_eq here, parent]
    simp only [Option.bind_some]
    rw [if_neg (by decide), if_pos (by decide)]
    rfl
  | cons c l =>
    rw [List.head?_cons]
    simp only [Option.bind_eq_bind, Option.bind_some]
    rw [if_neg nofun]
    rfl

/-- The children of a node lie in one pool. -/
theorem Linked.sibling {m c : NodePtr} (linked : Linked s F) (here : s.nodes k = some x)
    (member : k ∈ F.kids m) (member' : c ∈ F.kids m) : ∃ z, s.nodes c = some z ∧ x.p = z.p := by
  obtain ⟨y, z, parent, here', _, _, _, pool'⟩ := linked.kid_node member'
  obtain ⟨y', x', parent', known, _, _, _, pool⟩ := linked.kid_node member
  rw [here] at known
  obtain rfl := Option.some.inj known
  rw [parent] at parent'
  obtain rfl := Option.some.inj parent'
  exact ⟨z, here', pool.trans pool'.symm⟩

/-- The loop from a child, when it begins there. The induction is on the siblings that are left. -/
theorem loop_trail {m : NodePtr} {l₁ l : List NodePtr} (linked : Linked s F) (complete : F.Complete)
    (here : s.nodes k = some x) (kids : F.kids m = l₁ ++ k :: l) (holds : sp.Holds x.p out) {fuel : Nat}
    (enough : ((k :: l).map F.weight).sum ≤ fuel) :
    Printed F s x.p (out ++ F.trail (k :: l)) (spoolLoop fuel s sp (some k) true 0) := by
  generalize size : l.length = w
  induction w using Nat.strong_induction_on generalizing s F sp k x l₁ l out fuel with
  | _ w ih =>
    have member : k ∈ F.kids m := by
      rw [kids]
      exact List.mem_append_right _ List.mem_cons_self
    have positive := weight_pos linked.valid k
    rw [List.map_cons, List.sum_cons] at enough
    obtain ⟨fuel, rfl⟩ : ∃ n, fuel = n + 1 := ⟨fuel - 1, by omega⟩
    by_cases type : x.type = .tag
    · by_cases empty : F.kids k = []
      · have first : x.firstchild = none := by rw [linked.firstchild k x here, empty]; rfl
        rw [spoolLoop_leaf here (fun both => by rw [first] at both; cases both.2), trail_empty empty]
        obtain ⟨sp₁, mem, printed, holds₁, grown⟩ := spoolLeaf_tag linked complete here type empty holds
        have linked₁ := linked.grow grown
        rw [printed, Option.bind_some, leave_top linked₁ kids, ← List.append_assoc]
        cases l with
        | nil =>
          refine ⟨sp₁, _, F, rfl, ?_, linked₁, .refl linked.valid complete, grown⟩
          rw [Forest.trail, List.append_nil]
          exact holds₁
        | cons c l =>
          have kids' : F.kids m = (l₁ ++ [k]) ++ c :: l := by rw [kids, List.append_assoc]; rfl
          have member_c : c ∈ F.kids m := by
            rw [kids']
            exact List.mem_append_right _ List.mem_cons_self
          obtain ⟨z, here_c, same⟩ := linked.sibling here member member_c
          have shorter : l.length < w := by
            rw [← size]
            exact Nat.lt_succ_self _
          have enough' : ((c :: l).map F.weight).sum ≤ fuel := by omega
          have left := ih l.length shorter linked₁ complete here_c kids' (same ▸ holds₁) enough' rfl
          rw [same]
          exact left.trans (.refl linked.valid complete) grown
      · rw [trail_some empty]
        have all := (loop_rounds (fuel + 1)).1 s F sp k x 0 0 [] out linked complete here (fun _ => type)
          (fun _ none => absurd none empty) .root holds (by omega)
        rw [List.append_nil] at all
        exact all
    · have text : F.type k ≠ some .tag := by
        rw [type_eq linked here]
        exact fun same => type (Option.some.inj same)
      have cdata : F.type k = some .cdata := by
        by_contra other
        exact text (linked.kid_type member other)
      obtain ⟨mid, l₂, rfl, run, stops⟩ := run_exists cdata kids
      rw [spoolLoop_leaf here (fun both => type both.1), trail_empty (kids_of_text linked.valid text),
        trail_append linked.valid fun c inside => run.text c (List.mem_cons_of_mem _ inside)]
      obtain ⟨sp₁, s₁, x₁, printed, here₁, pool₁, holds₁, linked₁, grown⟩ :=
        spoolLeaf_text linked complete here run stops holds
      have kids₁ : (F.join m k l₁ mid l₂).kids m = l₁ ++ k :: l₂ := Function.update_self _ _ _
      have complete₁ := (Reread.join linked.valid complete run).complete
      have behind : (F.join m k l₁ mid l₂).trail l₂ = F.trail l₂ := by
        apply trail_join linked.valid run
        exact fun c inside => ⟨linked.valid.kid_lt (run.mem_after inside), run.apart linked.valid inside⟩
      rw [printed, Option.bind_some, leave_top linked₁ kids₁, ← List.append_assoc, ← List.append_assoc,
        List.append_assoc out, ← behind]
      cases l₂ with
      | nil =>
        refine ⟨sp₁, _, _, rfl, ?_, linked₁, .join linked.valid complete run, grown⟩
        rw [Forest.trail, List.append_nil]
        exact holds₁
      | cons c l₂ =>
        have kids' : (F.join m k l₁ mid (c :: l₂)).kids m = (l₁ ++ [k]) ++ c :: l₂ := by
          rw [kids₁, List.append_assoc]
          rfl
        have member_c : c ∈ (F.join m k l₁ mid (c :: l₂)).kids m := by
          rw [kids']
          exact List.mem_append_right _ List.mem_cons_self
        have member_k : k ∈ (F.join m k l₁ mid (c :: l₂)).kids m := by
          rw [kids₁]
          exact List.mem_append_right _ List.mem_cons_self
        obtain ⟨z, here_c, pool⟩ := linked₁.sibling here₁ member_k member_c
        have shorter : l₂.length < w := by
          rw [← size, List.length_append, List.length_cons]
          omega
        have same : x.p = z.p := pool₁.symm.trans pool
        have sums : ((c :: l₂).map (F.join m k l₁ mid (c :: l₂)).weight).sum ≤ ((c :: l₂).map F.weight).sum :=
          sum_sublist (List.Sublist.refl _) fun c _ => weight_join linked.valid run c
        have enough' : ((c :: l₂).map (F.join m k l₁ mid (c :: l₂)).weight).sum ≤ fuel := by
          rw [List.map_append, List.sum_append] at enough
          omega
        have left := ih l₂.length shorter linked₁ complete₁ here_c kids' (same ▸ holds₁) enough' rfl
        rw [same]
        exact left.trans (.join linked.valid complete run) grown

theorem str_ne_nil (valid : F.Valid) (tag : F.type k = some .tag) : JabSimul.xmlnode2str (F.tree k) ≠ [] := by
  by_cases empty : F.kids k = []
  · rw [str_leaf valid tag empty]
    exact nofun
  · rw [str_branch valid tag empty]
    exact nofun

/-- What `xmlnode2str` prints of a tag: the text of its tree, and if it has no children, also
what is behind it, up to the first sibling that has some. -/
inductive Forest.Prints (F : Forest) (k : NodePtr) : CString → Prop
  | root (l : Label) (here : F.label k = some l) (top : l.parent = none) :
      Prints F k (JabSimul.xmlnode2str (F.tree k))
  | kid (m : NodePtr) (l₁ l : List NodePtr) (kids : F.kids m = l₁ ++ k :: l) : Prints F k (F.trail (k :: l))

theorem Forest.Prints.whole {text : CString} (prints : F.Prints k text) (some_ : F.kids k ≠ []) :
    text = JabSimul.xmlnode2str (F.tree k) := by
  cases prints with
  | root l here top => rfl
  | kid m l₁ l kids => exact trail_some some_ l

theorem Forest.Prints.ne_nil {text : CString} (prints : F.Prints k text) (valid : F.Valid)
    (tag : F.type k = some .tag) : text ≠ [] := by
  have front := str_ne_nil valid tag
  cases prints with
  | root l here top => exact front
  | kid m l₁ l kids =>
    rw [Forest.trail]
    exact fun none => front (List.append_eq_nil_iff.mp none).1

/-- The loop comes to its end, wherever it begins. -/
theorem spoolLoop_prints (linked : Linked s F) (complete : F.Complete) (here : s.nodes k = some x)
    (type : x.type = .tag) (holds : sp.Holds x.p []) :
    ∃ text fuel, F.Prints k text ∧ Printed F s x.p text (spoolLoop fuel s sp (some k) true 0) := by
  cases parent : x.parent with
  | none =>
    refine ⟨_, F.weight k, .root x.label (linked.label_of here) parent, ?_⟩
    have all := (loop_rounds (F.weight k)).1 s F sp k x 0 0 [] [] linked complete here (fun _ => type)
      (fun _ _ => linked.top k x here type parent) .root holds (Nat.le_refl _)
    rw [List.nil_append, List.append_nil] at all
    exact all
  | some m =>
    have member := linked.valid.child k x.label m (linked.label_of here) type parent
    obtain ⟨l₁, l, kids⟩ := List.append_of_mem member
    refine ⟨_, ((k :: l).map F.weight).sum, .kid m l₁ l kids, ?_⟩
    have all := loop_trail linked complete here kids holds (Nat.le_refl _)
    rw [List.nil_append] at all
    exact all

/-- `xmlnode2str` ends, whichever chunks of character data were merged before, and every tree of
the store is as it was. -/
theorem xmlnode2str_eq (linked : Linked s F) (complete : F.Complete) (tag : F.type k = some .tag) :
    ∃ text s' G, F.Prints k text ∧ Ends (fun fuel => xmlnode2str fuel s (some k)) (some text, s') ∧
      Linked s' G ∧ Reread F G ∧ Grown s.mem s'.mem := by
  obtain ⟨l, label, type⟩ := Option.map_eq_some_iff.mp tag
  obtain ⟨x, here, rfl⟩ := linked.node label
  have type : x.type = .tag := type
  obtain ⟨mem, taken, grown⟩ := Store.pmalloc_grown linked.reach (linked.alive k x here) sizeofSpool
  have empty : Spool.Holds ⟨x.p, 0, []⟩ x.p [] := ⟨rfl, rfl, rfl⟩
  obtain ⟨text, N, prints, sp, s₁, G, done, holds, linked₁, read, grown₁⟩ :=
    spoolLoop_prints (linked.grow grown) complete here type empty
  have ends : Ends (fun fuel => spoolLoop fuel { s with mem := mem } ⟨x.p, 0, []⟩ (some k) true 0) (sp, s₁) :=
    .of_steady (fun fuel r ran => steady fuel _ _ _ _ _ r ran) done
  have grown₂ := grown.trans grown₁
  obtain ⟨mem', taken', grown'⟩ := Store.pmalloc_grown linked₁.reach (grown₂.alive _ (linked.alive k x here))
    (sp.len + 1)
  refine ⟨text, { s₁ with mem := mem' }, G, prints, ?_, linked₁.grow grown', read, grown₂.trans grown'⟩
  have some_ : ¬ (sp.len = 0 ∨ sp.nodes = []) := by
    have filled := prints.ne_nil linked.valid tag
    rintro (zero | none)
    · rw [holds.len] at zero
      exact filled (List.length_eq_zero_iff.mp zero)
    · have flat := holds.text
      rw [none] at flat
      exact filled flat.symm
  obtain ⟨N, ends⟩ := ends
  refine ⟨N, fun fuel enough => ?_⟩
  have printed := ends fuel enough
  dsimp only at printed ⊢
  rw [xmlnode2str, xmlnode2spool, xmlnodeGetType, get_eq here]
  simp only [Option.bind_eq_bind, Option.bind_some]
  rw [if_neg (not_not_intro (congrArg some type)), xmlnodePool, get_eq here]
  simp only [Option.bind_some]
  rw [spoolNew, taken]
  simp only [Option.bind_eq_bind, Option.bind_some]
  rw [printed]
  simp only [Option.bind_some]
  rw [spoolPrint, if_neg some_, holds.pool, taken']
  simp only [Option.bind_eq_bind, Option.bind_some]
  rw [holds.text]

end Loop

end JabSimul.Dom
