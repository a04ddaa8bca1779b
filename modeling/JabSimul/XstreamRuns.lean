import JabSimul.OpenTags

/-!
Streams at work. Any number of them build their nodes in one store, while handlers and the
rest of the program work on other nodes in any order. What a stream passes on is what the
reader without pointers passes on for the same reports of the parser.
-/
namespace JabSimul.Dom

open Pools Fuel

section Serving

variable {s s' : Store} {F G : Forest} {p q : PoolPtr} {xs : Xstream} {r : Reader} {stack : List Frame} {f : Frame}
  {n : NodePtr} {node : Option NodePtr}

/-- A stream is where a reader is. -/
structure Agrees (F : Forest) (p : PoolPtr) (xs : Xstream) (r : Reader) : Prop where
  status : xs.status = r.status
  fresh : r.status = .root → r.stack = [] ∧ xs.depth = 0
  depth : r.status = .node → xs.depth = r.stack.length + 1
  spine : Spine F p r.stack xs.node none

/-- A node that is handed over lies in a pool where the stream has no open tag. -/
def Handed (G : Forest) (fresh q : PoolPtr) (xs : Xstream) (d : Option (Delivery NodePtr)) : Prop :=
  ∀ n, d.bind Delivery.about = some n →
    ∃ l, G.label n = some l ∧ l.type = .tag ∧ (l.p = q ∨ l.p = fresh) ∧ (xs.node ≠ none → l.p ≠ q)

theorem handed_nothing {d : Option (Delivery NodePtr)} (nothing : d.bind Delivery.about = none) (G : Forest)
    (fresh q : PoolPtr) (xs : Xstream) : Handed G fresh q xs d := by
  intro n given
  rw [nothing] at given
  cases given

/-- A call of the library comes to what the reader does, and disturbs only one pool and a new one. -/
def Serves (F : Forest) (fresh q : PoolPtr) (called : Option Called) (out : Option (Delivery XmlNode) × Reader) :
    Prop :=
  ∃ d xs s G, called = some (d, xs, s) ∧ Linked s G ∧ G.Complete ∧ Agrees G q xs out.2 ∧
    d.map (Delivery.map G.tree) = out.1 ∧ Handed G fresh q xs d ∧
    ∀ P : PoolPtr → Prop, ¬ P q → ¬ P fresh → Viewed P F G

theorem Agrees.move (agrees : Agrees F p xs r) (same : r.stack ≠ [] → q = p) : Agrees F q xs r := by
  refine ⟨agrees.status, agrees.fresh, agrees.depth, ?_⟩
  have spine := agrees.spine
  revert spine
  cases here : r.stack with
  | nil => exact id
  | cons f above =>
    rw [same (by rw [here]; exact List.cons_ne_nil _ _)]
    exact id

theorem Agrees.idle (agrees : Agrees F p xs r) (empty : r.stack = []) : xs.node = none := by
  have spine := agrees.spine
  rw [empty] at spine
  exact spine

theorem serves_same (linked : Linked s F) (complete : F.Complete) (agrees : Agrees F p xs r)
    (same : r.stack ≠ [] → q = p) (fresh : PoolPtr) : Serves F fresh q (some (none, xs, s)) (none, r) :=
  ⟨none, xs, s, F, rfl, linked, complete, agrees.move same, rfl, handed_nothing rfl F _ _ _, fun P _ _ => .refl P F⟩

/-- A tag without a parent, in a pool of its own. -/
theorem rootTag_eq (linked : Linked s F) (complete : F.Complete) (name : CString)
    (atts : List (CString × CString)) :
    ∃ s₁ s' G, xmlnodeNewTagPool { s with mem := (poolHeapNew s.mem (5 * 1024)).2 }
        (poolHeapNew s.mem (5 * 1024)).1 (some name) = some (some F.next, s₁) ∧
      xmlnodePutExpatAttribs s₁ (some F.next) atts = some s' ∧ Linked s' G ∧ G.Complete ∧
      Spine G s.mem.next [⟨name, putAttribs [] atts, []⟩] (some F.next) none ∧
      ∀ P : PoolPtr → Prop, ¬ P s.mem.next → Viewed P F G := by
  have grown := poolHeapNew_grown linked.reach (5 * 1024)
  obtain ⟨s₁, made, linked₁, _⟩ := xmlnodeNewTagPool_eq (linked.grow grown.1) grown.2 name
  change Linked s₁ (F.push ⟨.tag, some name, none, s.mem.next, none⟩ none) at linked₁
  have fits : F.Fits ⟨.tag, some name, none, s.mem.next, none⟩ none := isRoot_fits fun _ => rfl
  have tree := tree_push_new linked.valid fits
  rw [if_pos rfl] at tree
  have complete₁ : (F.push ⟨.tag, some name, none, s.mem.next, none⟩ none).Complete :=
    complete.push none fun other => absurd rfl other
  have spine : Spine (F.push ⟨.tag, some name, none, s.mem.next, none⟩ none) s.mem.next [⟨name, [], []⟩]
      (some F.next) none := ⟨F.next, _, rfl, ⟨push_label_new, rfl, rfl, tree, nofun⟩, rfl⟩
  obtain ⟨s', G, put, linked', complete', done, _⟩ :=
    xmlnodePutExpatAttribs_eq linked₁ complete₁ push_type_new atts
  rw [attribs_new linked.valid fits rfl] at done
  refine ⟨s₁, s', G, ?_, put, linked', complete', spine.attributed done linked₁.valid linked'.valid, ?_⟩
  · rw [made, linked.next]
  · intro P outside
    exact (viewed_root linked.valid fits rfl).trans
      (done.viewed linked₁.valid linked'.valid push_label_new outside)

/-- A tag inside the last open one. -/
theorem childTag_eq (linked : Linked s F) (complete : F.Complete) (spine : Spine F p (f :: stack) (some n) none)
    (name : CString) (atts : List (CString × CString)) :
    ∃ s₁ s' G, xmlnodeInsertTag s (some n) (some name) = some (some F.next, s₁) ∧
      xmlnodePutExpatAttribs s₁ (some F.next) atts = some s' ∧ Linked s' G ∧ G.Complete ∧
      Spine G p (⟨name, putAttribs [] atts, []⟩ :: f :: stack) (some F.next) none ∧
      ∀ P : PoolPtr → Prop, ¬ P p → Viewed P F G := by
  obtain ⟨_, l, same, opened, rest⟩ := spine
  obtain rfl := Option.some.inj same
  obtain ⟨x, here, rfl⟩ := linked.node opened.here
  obtain ⟨s₁, made, linked₁, _⟩ := xmlnodeInsertTag_eq linked here opened.tag name
  have pool : x.p = p := opened.pool
  subst pool
  have fits : F.Fits ⟨.tag, some name, none, x.p, some n⟩ none :=
    child_fits linked here opened.tag (nofun : NodeType.tag ≠ .attrib) fun _ => rfl
  have complete₁ : (F.push ⟨.tag, some name, none, x.p, some n⟩ none).Complete :=
    complete.push none fun other => absurd rfl other
  have spine := Spine.opens ⟨n, _, rfl, opened, rest⟩ linked.valid fits
  obtain ⟨s', G, put, linked', complete', done, _⟩ :=
    xmlnodePutExpatAttribs_eq linked₁ complete₁ push_type_new atts
  rw [attribs_new linked.valid fits rfl] at done
  refine ⟨s₁, s', G, ?_, put, linked', complete', spine.attributed done linked₁.valid linked'.valid, ?_⟩
  · rw [made, linked.next]
  · intro P outside
    exact (viewed_child linked.valid fits rfl opened.here outside).trans
      (done.viewed linked₁.valid linked'.valid push_label_new outside)

/-- The depth check is that of the number of open tags. -/
theorem Agrees.deepen (spine : Spine G q (f :: stack) node none) {depth : Int} (deep : depth = stack.length + 1) :
    Agrees G q (Xstream.deepen ⟨.node, node, depth⟩)
      ⟨if stack.length + 2 > 100 then .err else .node, f :: stack⟩ := by
  subst deep
  have check : ((stack.length : Int) + 1 + 1 > xstreamMaxdepth) = (stack.length + 2 > 100) := by
    rw [xstreamMaxdepth]
    apply propext
    omega
  constructor
  · unfold Xstream.deepen
    dsimp only
    simp only [check]
  · intro root
    dsimp only at root
    split at root <;> cases root
  · intro _
    unfold Xstream.deepen
    rw [List.length_cons, Nat.cast_add]
    rfl
  · exact spine

theorem startElement_serves (linked : Linked s F) (complete : F.Complete) (agrees : Agrees F p xs r)
    (name : CString) (atts : List (CString × CString)) :
    Serves F s.mem.next (if r.stack = [] then s.mem.next else p) (startElement s xs name atts)
      (r.start ⟨name, putAttribs [] atts, []⟩) := by
  obtain ⟨_, stack⟩ := r
  obtain ⟨status, node, depth⟩ := xs
  obtain rfl : status = _ := agrees.status
  have same : stack ≠ [] → (if stack = [] then s.mem.next else p) = p := fun filled => if_neg filled
  cases status with
  | close => exact serves_same linked complete agrees same _
  | err => exact serves_same linked complete agrees same _
  | root =>
    obtain ⟨rfl, rfl⟩ : stack = [] ∧ depth = 0 := agrees.fresh rfl
    obtain rfl : node = none := agrees.spine
    obtain ⟨s₁, s', G, made, put, linked', complete', spine, viewed⟩ := rootTag_eq linked complete name atts
    obtain ⟨l, _, _, tree⟩ := spine.tree_top
    refine ⟨some (.root F.next), ⟨.node, none, 1⟩, s', G, ?_, linked', complete', ?_, ?_, ?_, fun P _ => viewed P⟩
    · unfold startElement
      rw [if_neg nofun, if_pos rfl]
      dsimp only
      rw [made]
      simp only [Option.bind_eq_bind, Option.bind_some, put]
      rfl
    · exact ⟨rfl, nofun, fun _ => rfl, rfl⟩
    · exact congrArg (fun x => some (Delivery.root x)) tree
    · intro n given
      obtain rfl : F.next = n := Option.some.inj given
      obtain ⟨_, l, same, opened, _⟩ := spine
      obtain rfl := Option.some.inj same
      exact ⟨l, opened.here, opened.tag, .inr opened.pool, fun other => absurd rfl other⟩
  | node =>
    have deep : depth = stack.length + 1 := agrees.depth rfl
    cases stack with
    | nil =>
      obtain rfl : node = none := agrees.spine
      obtain ⟨s₁, s', G, made, put, linked', complete', spine, viewed⟩ := rootTag_eq linked complete name atts
      refine ⟨none, Xstream.deepen ⟨.node, some F.next, depth⟩, s', G, ?_, linked', complete', ?_, rfl,
        handed_nothing rfl G _ _ _, fun P _ => viewed P⟩
      · unfold startElement
        rw [if_neg nofun, if_pos rfl]
        dsimp only
        rw [made]
        simp only [Option.bind_eq_bind, Option.bind_some, put]
        rfl
      · exact .deepen spine deep
    | cons f above =>
      obtain ⟨n, l, rfl, opened, rest⟩ := agrees.spine
      obtain ⟨s₁, s', G, made, put, linked', complete', spine, viewed⟩ :=
        childTag_eq linked complete (f := f) (p := p) ⟨n, l, rfl, opened, rest⟩ name atts
      refine ⟨none, Xstream.deepen ⟨.node, some F.next, depth⟩, s', G, ?_, linked', complete', ?_, rfl,
        handed_nothing rfl G _ _ _, fun P outside _ => viewed P outside⟩
      · unfold startElement
        rw [if_neg nofun, if_neg nofun]
        dsimp only
        rw [made]
        simp only [Option.bind_eq_bind, Option.bind_some, put]
      · exact .deepen spine deep

theorem charData_serves (linked : Linked s F) (complete : F.Complete) (agrees : Agrees F p xs r) (bytes : CString) :
    Serves F s.mem.next (if r.stack = [] then s.mem.next else p) (charData s xs bytes) (r.text bytes) := by
  obtain ⟨_, stack⟩ := r
  obtain ⟨status, node, depth⟩ := xs
  obtain rfl : status = _ := agrees.status
  have same : stack ≠ [] → (if stack = [] then s.mem.next else p) = p := fun filled => if_neg filled
  unfold charData Reader.text
  dsimp only
  cases bad : status.bad with
  | true =>
    rw [if_pos rfl]
    exact serves_same linked complete agrees same _
  | false =>
    rw [if_neg (nofun : ¬ false = true)]
    cases stack with
    | nil =>
      obtain rfl : node = none := agrees.spine
      rw [if_pos (rfl : (none : Option NodePtr) = none)]
      exact serves_same linked complete agrees same _
    | cons f above =>
      obtain ⟨n, l, rfl, opened, rest⟩ := agrees.spine
      obtain ⟨x, here, rfl⟩ := linked.node opened.here
      obtain ⟨s', made, linked', _⟩ := xmlnodeInsertCdata_eq linked here opened.tag bytes
      have pool : x.p = p := opened.pool
      subst pool
      have fits := text_fits opened.here opened.tag bytes
      have spine := Spine.text ⟨n, _, rfl, opened, rest⟩ linked.valid fits
      refine ⟨none, ⟨status, some n, depth⟩, s', _, ?_, linked', complete.push none fun _ => rfl, ?_, rfl,
        handed_nothing rfl _ _ _ _, ?_⟩
      · rw [if_neg (nofun : ¬ some n = none), made]
        rfl
      · exact ⟨rfl, fun root => absurd (agrees.fresh root).1 (List.cons_ne_nil _ _), agrees.depth, spine⟩
      · exact fun P outside _ => viewed_child linked.valid fits rfl opened.here outside

theorem endElement_serves (linked : Linked s F) (complete : F.Complete) (agrees : Agrees F p xs r) :
    Serves F s.mem.next (if r.stack = [] then s.mem.next else p) (endElement s xs) r.stop := by
  obtain ⟨_, stack⟩ := r
  obtain ⟨status, node, depth⟩ := xs
  obtain rfl : status = _ := agrees.status
  have same : stack ≠ [] → (if stack = [] then s.mem.next else p) = p := fun filled => if_neg filled
  unfold endElement Reader.stop
  dsimp only
  cases bad : status.bad with
  | true =>
    rw [if_pos rfl]
    exact serves_same linked complete agrees same _
  | false =>
    rw [if_neg (nofun : ¬ false = true)]
    have parent : ∀ {n l}, F.label n = some l → xmlnodeGetParent s (some n) = some l.parent := by
      intro n l here
      obtain ⟨x, there, rfl⟩ := linked.node here
      exact get_eq there _
    cases stack with
    | nil =>
      obtain rfl : node = none := agrees.spine
      exact ⟨some .close, _, s, F, rfl, linked, complete, ⟨rfl, nofun, nofun, rfl⟩, rfl,
        handed_nothing rfl F _ _ _, fun P _ _ => .refl P F⟩
    | cons f above =>
      have running : status = .node := by
        cases status with
        | root => cases (agrees.fresh rfl).1
        | node => rfl
        | close => cases bad
        | err => cases bad
      subst running
      obtain ⟨n, l, rfl, opened, rest⟩ := agrees.spine
      dsimp only
      rw [parent opened.here]
      simp only [Option.bind_eq_bind, Option.bind_some]
      cases above with
      | nil =>
        obtain ⟨l', here, top, tree⟩ := Spine.tree_top (f := f) (p := p) ⟨n, l, rfl, opened, rest⟩
        have none_above : l.parent = none := rest
        rw [none_above]
        refine ⟨some (.node n), _, s, F, rfl, linked, complete, ⟨rfl, nofun, ?_, rfl⟩, ?_, ?_,
          fun P _ _ => .refl P F⟩
        · intro _
          have deep := agrees.depth rfl
          dsimp only at deep ⊢
          rw [deep]
          rfl
        · exact congrArg (fun x => some (Delivery.node x)) tree
        · intro n' given
          obtain rfl : n = n' := Option.some.inj given
          exact ⟨l, opened.here, opened.tag, .inl (opened.pool.trans (same (List.cons_ne_nil _ _)).symm),
            fun other => absurd rfl other⟩
      | cons g above =>
        obtain ⟨l', here, spine⟩ := Spine.close (f := f) (p := p) ⟨n, l, rfl, opened, rest⟩
        rw [opened.here] at here
        obtain rfl := Option.some.inj here
        obtain ⟨m, _, up, _⟩ := rest
        refine ⟨none, ⟨.node, l.parent, depth - 1⟩, s, F, ?_, linked, complete, ⟨rfl, nofun, ?_, ?_⟩, rfl,
          handed_nothing rfl F _ _ _, fun P _ _ => .refl P F⟩
        · rw [up, if_neg (nofun : ¬ some m = none)]
        · intro _
          have deep := agrees.depth rfl
          dsimp only at deep ⊢
          rw [deep]
          simp only [List.length_cons, Nat.cast_add, Nat.cast_one]
          omega
        · rw [same (List.cons_ne_nil _ _)]
          exact spine

theorem xstreamEvent_serves (linked : Linked s F) (complete : F.Complete) (agrees : Agrees F p xs r) (e : XmlEvent) :
    Serves F s.mem.next (if r.stack = [] then s.mem.next else p) (xstreamEvent s xs e) (r.step (.event e)) := by
  cases e with
  | start name atts => exact startElement_serves linked complete agrees name atts
  | text bytes => exact charData_serves linked complete agrees bytes
  | stop => exact endElement_serves linked complete agrees

/-- The pool of an open tag is an old one. -/
theorem Spine.old (linked : Linked s F) (spine : Spine F p stack node none) (filled : stack ≠ []) :
    p ≠ s.mem.next ∧ ∃ n, node = some n ∧ s.poolOf n = some p := by
  cases stack with
  | nil => exact absurd rfl filled
  | cons f above =>
    obtain ⟨n, l, rfl, opened, _⟩ := spine
    obtain ⟨x, here, rfl⟩ := linked.node opened.here
    obtain rfl : x.p = p := opened.pool
    refine ⟨?_, n, rfl, ?_⟩
    · intro same
      have alive := linked.alive n x here
      rw [same, (linked.reach.sound.fresh s.mem.next (Nat.le_refl _)).2] at alive
      cases alive
    · unfold Store.poolOf
      rw [here]
      rfl

theorem Agrees.viewed {P : PoolPtr → Prop} (agrees : Agrees F p xs r) (viewed : Viewed P F G) (valid : F.Valid)
    (valid' : G.Valid) (inside : r.stack ≠ [] → P p) : Agrees G p xs r := by
  refine ⟨agrees.status, agrees.fresh, agrees.depth, ?_⟩
  have spine := agrees.spine
  cases here : r.stack with
  | nil =>
    rw [here] at spine
    exact spine
  | cons f above =>
    rw [here] at spine
    exact spine.viewed viewed valid valid' (inside (by rw [here]; exact List.cons_ne_nil _ _)) nofun

theorem parserFault_some (linked : Linked s F) (agrees : Agrees F p xs r) (parserError : Option CString) :
    ∃ fault, parserFault s xs parserError = some fault := by
  cases parserError with
  | some err => exact ⟨some err, rfl⟩
  | none =>
    by_cases empty : r.stack = []
    · unfold parserFault
      rw [agrees.idle empty]
      exact ⟨_, rfl⟩
    · obtain ⟨_, n, same, pool⟩ := agrees.spine.old linked empty
      obtain ⟨x, here, _⟩ := Option.map_eq_some_iff.mp pool
      unfold parserFault
      rw [same]
      unfold xmlnodePool
      rw [get_eq here]
      exact ⟨_, rfl⟩

/-- The text of an error is put into a tag of its own. -/
theorem errorTag_eq (linked : Linked s F) (complete : F.Complete) (err : CString) :
    ∃ s₁ r s' G, xmlnodeNewTag s (some (cstr "error")) = some (some F.next, s₁) ∧
      xmlnodeInsertCdata s₁ (some F.next) (some err) = some (r, s') ∧ Linked s' G ∧ G.Complete ∧
      G.tree F.next = .tag (cstr "error") [] [.cdata err] ∧
      G.label F.next = some ⟨.tag, some (cstr "error"), none, s.mem.next, none⟩ ∧
      ∀ P : PoolPtr → Prop, ¬ P s.mem.next → Viewed P F G := by
  obtain ⟨s₁, made, linked₁, _⟩ := xmlnodeNewTag_eq linked (cstr "error")
  have fits : F.Fits ⟨.tag, some (cstr "error"), none, s.mem.next, none⟩ none := isRoot_fits fun _ => rfl
  obtain ⟨x, here, label⟩ := linked₁.node push_label_new
  have tag : x.type = .tag := congrArg Label.type label
  obtain ⟨s', put, linked', _⟩ := xmlnodeInsertCdata_eq linked₁ here tag err
  rw [show x.p = s.mem.next from congrArg Label.p label] at linked'
  have fits' : (F.push ⟨.tag, some (cstr "error"), none, s.mem.next, none⟩ none).Fits
      ⟨.cdata, none, some err, s.mem.next, some F.next⟩ none := text_fits push_label_new rfl err
  have opened : OpenTag (F.push ⟨.tag, some (cstr "error"), none, s.mem.next, none⟩ none) s.mem.next
      ⟨cstr "error", [], []⟩ F.next _ none := ⟨push_label_new, rfl, rfl, tree_push_new linked.valid fits, nofun⟩
  refine ⟨s₁, _, s', _, ?_, put, linked', ?_, ?_, ?_, ?_⟩
  · rw [made, linked.next]
  · exact (complete.push none fun other => absurd rfl other).push none fun _ => rfl
  · rw [opened.push linked₁.valid fits' rfl, tree_push_new linked₁.valid fits']
    rfl
  · rw [push_label_old (linked₁.valid.lt_next opened.here), push_label_new]
  · intro P outside
    exact (viewed_root linked.valid fits rfl).trans (viewed_child linked₁.valid fits' rfl push_label_new outside)

theorem eaten_serves (linked : Linked s F) (complete : F.Complete) (agrees : Agrees F p xs r)
    {parserError fault : Option CString} (found : parserFault s xs parserError = some fault) :
    Serves F s.mem.next (if r.stack = [] then s.mem.next else p) (eaten s xs parserError) (r.fault fault) := by
  have same : r.stack ≠ [] → (if r.stack = [] then s.mem.next else p) = p := fun filled => if_neg filled
  unfold eaten Reader.fault
  rw [found, Option.bind_eq_bind, Option.bind_some, agrees.status]
  cases faultOf r.status fault with
  | none => exact serves_same linked complete agrees same _
  | some err =>
    obtain ⟨s₁, made, s', G, new, put, linked', complete', tree, label, viewed⟩ := errorTag_eq linked complete err
    refine ⟨some (.err F.next), ⟨.err, xs.node, xs.depth⟩, s', G, ?_, linked', complete', ?_, ?_, ?_,
      fun P _ => viewed P⟩
    · dsimp only
      rw [new]
      simp only [Option.bind_eq_bind, Option.bind_some, put]
      rfl
    · have there : Agrees G p xs r := by
        apply agrees.viewed (viewed (fun q => q = p ∧ r.stack ≠ []) ?_) linked.valid linked'.valid
        · exact fun filled => ⟨rfl, filled⟩
        · rintro ⟨new, filled⟩
          exact (agrees.spine.old linked filled).1 new.symm
      exact ⟨rfl, nofun, nofun, (there.move same).spine⟩
    · exact congrArg (fun x => some (Delivery.err x)) tree
    · intro n given
      obtain rfl : F.next = n := Option.some.inj given
      refine ⟨_, label, rfl, .inr rfl, fun node => ?_⟩
      have filled : r.stack ≠ [] := fun empty => node (agrees.idle empty)
      rw [same filled]
      exact (agrees.spine.old linked filled).1.symm

/-- Only what is left over of an open tag goes with a stream. -/
theorem xstreamCleanup_some (linked : Linked s F) (agrees : Agrees F p xs r) :
    ∃ s', xstreamCleanup s xs = some s' := by
  by_cases empty : r.stack = []
  · unfold xstreamCleanup
    rw [agrees.idle empty]
    exact ⟨s, rfl⟩
  · obtain ⟨_, n, same, pool⟩ := agrees.spine.old linked empty
    obtain ⟨x, here, _⟩ := Option.map_eq_some_iff.mp pool
    obtain ⟨mem, freed, _⟩ := xmlnodeFree_eq linked here
    unfold xstreamCleanup
    rw [same]
    exact ⟨_, freed⟩

theorem xstreamCleanup_serves (linked : Linked s F) (complete : F.Complete) (agrees : Agrees F p xs r)
    (ran : xstreamCleanup s xs = some s') :
    Serves F s.mem.next (if r.stack = [] then s.mem.next else p) (some (none, xstreamNew, s')) (none, .initial) := by
  have fresh : ∀ {G q}, Agrees G q xstreamNew .initial := ⟨rfl, fun _ => ⟨rfl, rfl⟩, nofun, rfl⟩
  by_cases empty : r.stack = []
  · unfold xstreamCleanup at ran
    rw [agrees.idle empty] at ran
    obtain rfl := Option.some.inj ran
    exact ⟨none, xstreamNew, s, F, rfl, linked, complete, fresh, rfl, handed_nothing rfl F _ _ _,
      fun P _ _ => .refl P F⟩
  · obtain ⟨_, n, same, pool⟩ := agrees.spine.old linked empty
    obtain ⟨x, here, rfl⟩ := Option.map_eq_some_iff.mp pool
    obtain ⟨mem, freed, linked', _⟩ := xmlnodeFree_eq linked here
    unfold xstreamCleanup at ran
    rw [same, freed] at ran
    obtain rfl := Option.some.inj ran
    rw [if_neg empty]
    exact ⟨none, xstreamNew, _, _, rfl, linked', complete.drop x.p, fresh, rfl, handed_nothing rfl _ _ _ _,
      fun P outside _ => viewed_drop linked.valid outside⟩

end Serving

section Runs

variable {ι : Type} [DecidableEq ι]

structure Streams (ι : Type) where
  store : Store
  xs : ι → Xstream

/-- Pools in which a stream has an open tag. -/
def Streams.Busy (S : Streams ι) (p : PoolPtr) : Prop :=
  ∃ i n, (S.xs i).node = some n ∧ S.store.poolOf n = some p

def note {α : Type} (h : ι → List α) (i : ι) (l : List α) : ι → List α := Function.update h i (h i ++ l)

/-- What any order of events of the streams and of other work leads to, with all that the streams were
fed and all that they passed on. Other work leaves open tags alone. A stream may end at any time, and a
new one takes its place. -/
inductive Streams.Reachable : Streams ι → (ι → List Feed) → (ι → List (Delivery XmlNode)) → Prop
  | initial : Streams.Reachable ⟨.initial, fun _ => xstreamNew⟩ (fun _ => []) (fun _ => [])
  | event {S : Streams ι} {fed : ι → List Feed} {given : ι → List (Delivery XmlNode)}
      (before : S.Reachable fed given) (i : ι) (e : XmlEvent) {d : Option (Delivery NodePtr)} {xs : Xstream}
      {s : Store} (ran : xstreamEvent S.store (S.xs i) e = some (d, xs, s)) :
      Streams.Reachable ⟨s, Function.update S.xs i xs⟩ (note fed i [.event e])
        (note given i (d.map (Delivery.map s.tree)).toList)
  | eaten {S : Streams ι} {fed : ι → List Feed} {given : ι → List (Delivery XmlNode)}
      (before : S.Reachable fed given) (i : ι) (parserError : Option CString) {fault : Option CString}
      {d : Option (Delivery NodePtr)} {xs : Xstream} {s : Store}
      (found : parserFault S.store (S.xs i) parserError = some fault)
      (ran : eaten S.store (S.xs i) parserError = some (d, xs, s)) :
      Streams.Reachable ⟨s, Function.update S.xs i xs⟩ (note fed i [.eaten fault])
        (note given i (d.map (Delivery.map s.tree)).toList)
  | renew {S : Streams ι} {fed : ι → List Feed} {given : ι → List (Delivery XmlNode)}
      (before : S.Reachable fed given) (i : ι) {s : Store} (ran : xstreamCleanup S.store (S.xs i) = some s) :
      Streams.Reachable ⟨s, Function.update S.xs i xstreamNew⟩ (Function.update fed i [])
        (Function.update given i [])
  | work {S : Streams ι} {fed : ι → List Feed} {given : ι → List (Delivery XmlNode)}
      (before : S.Reachable fed given) (op : DomOp) (legal : op.Legal S.store) (spares : op.Spares S.store S.Busy)
      {s : Store} (ran : Ends (op.run S.store ·) s) : Streams.Reachable ⟨s, S.xs⟩ fed given

structure Streams.Sound (S : Streams ι) (F : Forest) (pools : ι → PoolPtr) (readers : ι → Reader) : Prop where
  linked : Linked S.store F
  complete : F.Complete
  agrees : ∀ i, Agrees F (pools i) (S.xs i) (readers i)
  apart : ∀ i j, (readers i).stack ≠ [] → (readers j).stack ≠ [] → pools i = pools j → i = j

variable {S : Streams ι} {F : Forest} {pools : ι → PoolPtr} {readers : ι → Reader} {fed : ι → List Feed}
  {given : ι → List (Delivery XmlNode)}

omit [DecidableEq ι] in
theorem Streams.Sound.busy (sound : S.Sound F pools readers) {p : PoolPtr} (busy : S.Busy p) :
    ∃ i, (S.xs i).node ≠ none ∧ (readers i).stack ≠ [] ∧ pools i = p := by
  obtain ⟨i, n, node, pool⟩ := busy
  have filled : (readers i).stack ≠ [] := by
    intro empty
    rw [(sound.agrees i).idle empty] at node
    cases node
  obtain ⟨_, n', node', pool'⟩ := (sound.agrees i).spine.old sound.linked filled
  rw [node] at node'
  obtain rfl := Option.some.inj node'
  rw [pool] at pool'
  refine ⟨i, ?_, filled, (Option.some.inj pool').symm⟩
  rw [node]
  exact nofun

/-- A call of the library for one stream leaves the others where they are. -/
theorem Streams.Sound.serve (sound : S.Sound F pools readers) (i : ι) {d : Option (Delivery NodePtr)} {xs : Xstream}
    {s : Store} {out : Option (Delivery XmlNode) × Reader}
    (serves : Serves F S.store.mem.next (if (readers i).stack = [] then S.store.mem.next else pools i)
      (some (d, xs, s)) out) :
    ∃ G pools', Streams.Sound ⟨s, Function.update S.xs i xs⟩ G pools' (Function.update readers i out.2) ∧
      d.map (Delivery.map s.tree) = out.1 ∧
      ∀ n, d.bind Delivery.about = some n → s.typeOf n = some .tag ∧
        ∀ p, s.poolOf n = some p → ¬ Streams.Busy ⟨s, Function.update S.xs i xs⟩ p := by
  obtain ⟨d, xs, s, G, ran, linked', complete', agrees', same, handed, viewed⟩ := serves
  cases ran
  have old : ∀ j, (readers j).stack ≠ [] → pools j ≠ S.store.mem.next :=
    fun j filled => ((sound.agrees j).spine.old sound.linked filled).1
  have other : ∀ j, j ≠ i → (readers j).stack ≠ [] →
      pools j ≠ if (readers i).stack = [] then S.store.mem.next else pools i := by
    intro j other filled
    split
    · exact old j filled
    · exact fun same => other (sound.apart j i filled ‹_› same)
  have sound' : Streams.Sound ⟨s, Function.update S.xs i xs⟩ G
      (Function.update pools i (if (readers i).stack = [] then S.store.mem.next else pools i))
      (Function.update readers i out.2) := by
    refine ⟨linked', complete', ?_, ?_⟩
    · intro j
      by_cases here : j = i
      · subst j
        simp only [Function.update_self]
        exact agrees'
      · simp only [Function.update_of_ne here]
        apply (sound.agrees j).viewed (viewed (fun p => ∃ j, j ≠ i ∧ (readers j).stack ≠ [] ∧ pools j = p) ?_ ?_)
          sound.linked.valid linked'.valid
        · exact fun filled => ⟨j, here, filled, rfl⟩
        · rintro ⟨k, away, filled, same⟩
          exact other k away filled same
        · rintro ⟨k, _, filled, same⟩
          exact old k filled same
    · intro j k filled filled' same
      by_cases here : j = i
      · by_cases there : k = i
        · rw [here, there]
        · subst j
          rw [Function.update_of_ne there] at filled' same
          rw [Function.update_self] at same
          exact absurd same.symm (other k there filled')
      · by_cases there : k = i
        · subst k
          rw [Function.update_of_ne here] at filled same
          rw [Function.update_self] at same
          exact absurd same (other j here filled)
        · rw [Function.update_of_ne here] at filled same
          rw [Function.update_of_ne there] at filled' same
          exact sound.apart j k filled filled' same
  refine ⟨G, _, sound', ?_, fun n given => ?_⟩
  · rw [← same]
    exact congrArg (fun g => d.map (Delivery.map g)) (funext linked'.tree_eq)
  · obtain ⟨l, here, tag, pool, away⟩ := handed n given
    refine ⟨(linked'.typeOf n).symm.trans ((type_of_label here).trans (congrArg some tag)), fun p inside busy => ?_⟩
    obtain ⟨x, there, rfl⟩ := linked'.node here
    obtain rfl : x.p = p := by
      unfold Store.poolOf at inside
      rw [there] at inside
      exact Option.some.inj inside
    obtain ⟨j, node, filled, same'⟩ := sound'.busy busy
    by_cases at_i : j = i
    · subst j
      simp only [Function.update_self] at node same'
      exact away node same'.symm
    · simp only [Function.update_of_ne at_i] at filled same'
      rcases pool with pool | pool
      · exact other j at_i filled (same'.trans pool)
      · exact old j filled (same'.trans pool)

theorem note_run (read : ∀ j, Reader.initial.run (fed j) = (given j, readers j)) (i : ι) (f : Feed) (j : ι) :
    Reader.initial.run (note fed i [f] j) =
      (note given i ((readers i).step f).1.toList j, Function.update readers i ((readers i).step f).2 j) := by
  unfold note
  by_cases here : j = i
  · subst j
    simp only [Function.update_self]
    rw [Reader.run_concat, read]
  · simp only [Function.update_of_ne here]
    exact read j

/-- The induction is on the run; each stream is always where the reader is that was fed the same. -/
theorem Streams.Reachable.sound (reachable : S.Reachable fed given) :
    ∃ F pools readers, S.Sound F pools readers ∧ ∀ i, Reader.initial.run (fed i) = (given i, readers i) := by
  induction reachable with
  | initial =>
    refine ⟨Forest.initial, fun _ => 0, fun _ => .initial, ?_, fun _ => rfl⟩
    exact ⟨initial_linked.1, initial_linked.2, fun _ => ⟨rfl, fun _ => ⟨rfl, rfl⟩, nofun, rfl⟩,
      fun _ _ filled => absurd rfl filled⟩
  | event before i e ran ih =>
    obtain ⟨F, pools, readers, sound, read⟩ := ih
    have serves := xstreamEvent_serves sound.linked sound.complete (sound.agrees i) e
    rw [ran] at serves
    obtain ⟨G, pools', sound', same, _⟩ := sound.serve i serves
    refine ⟨G, pools', _, sound', fun j => ?_⟩
    rw [same]
    exact note_run read i (.event e) j
  | @eaten S fed given before i parserError fault d xs s found ran ih =>
    obtain ⟨F, pools, readers, sound, read⟩ := ih
    have serves := eaten_serves sound.linked sound.complete (sound.agrees i) found
    rw [ran] at serves
    obtain ⟨G, pools', sound', same, _⟩ := sound.serve i serves
    refine ⟨G, pools', _, sound', fun j => ?_⟩
    rw [same]
    exact note_run read i (.eaten fault) j
  | renew before i ran ih =>
    obtain ⟨F, pools, readers, sound, read⟩ := ih
    have serves := xstreamCleanup_serves sound.linked sound.complete (sound.agrees i) ran
    obtain ⟨G, pools', sound', _⟩ := sound.serve i serves
    refine ⟨G, pools', _, sound', fun j => ?_⟩
    by_cases here : j = i
    · subst j
      simp only [Function.update_self]
      rfl
    · simp only [Function.update_of_ne here]
      exact read j
  | work before op legal spares ran ih =>
    obtain ⟨F, pools, readers, sound, read⟩ := ih
    obtain ⟨s', G, ends, linked', complete', viewed⟩ := op.comes sound.linked sound.complete legal
    obtain rfl := ran.unique ends
    refine ⟨G, pools, readers, ⟨linked', complete', fun i => ?_, sound.apart⟩, read⟩
    apply (sound.agrees i).viewed (viewed _ spares) sound.linked.valid linked'.valid
    intro filled
    obtain ⟨_, n, node, pool⟩ := (sound.agrees i).spine.old sound.linked filled
    exact ⟨i, n, node, pool⟩

/-- Whatever the order was in which streams and other work took turns: each stream has passed on what
the reader makes of its own feed alone, and every next call of the parser comes to its end. -/
theorem streams_deliver (reachable : S.Reachable fed given) :
    S.store.mem.faults = [] ∧
      (∀ i, given i = (Reader.initial.run (fed i)).1 ∧
        (S.xs i).status = (Reader.initial.run (fed i)).2.status) ∧
      ∀ i, (∀ e, ∃ called, xstreamEvent S.store (S.xs i) e = some called) ∧
        (∀ parserError, ∃ called, eaten S.store (S.xs i) parserError = some called) ∧
        ∃ s, xstreamCleanup S.store (S.xs i) = some s := by
  obtain ⟨F, pools, readers, sound, read⟩ := reachable.sound
  refine ⟨sound.linked.reach.sound.faults, fun i => ?_, fun i => ⟨fun e => ?_, fun parserError => ?_, ?_⟩⟩
  · rw [read i]
    exact ⟨rfl, (sound.agrees i).status⟩
  · obtain ⟨d, xs, s, G, ran, _⟩ := xstreamEvent_serves sound.linked sound.complete (sound.agrees i) e
    exact ⟨_, ran⟩
  · obtain ⟨fault, found⟩ := parserFault_some sound.linked (sound.agrees i) parserError
    obtain ⟨d, xs, s, G, ran, _⟩ := eaten_serves sound.linked sound.complete (sound.agrees i) found
    exact ⟨_, ran⟩
  · exact xstreamCleanup_some sound.linked (sound.agrees i)

/-- Two streams open at once; the first then gets a tag with a text. -/
theorem two_streams : ∃ (S : Streams Bool) (fed : Bool → List Feed) (given : Bool → List (Delivery XmlNode)),
    S.Reachable fed given ∧ S.store.next = 4 ∧
      fed true = [.event (.start (cstr "s") []), .event (.start (cstr "a") []), .event (.text (cstr "x")),
        .event .stop] := by
  exact ⟨_, _, _, .event (.event (.event (.event (.event .initial true (.start (cstr "s") []) rfl)
    false (.start (cstr "s") []) rfl) true (.start (cstr "a") []) rfl) true (.text (cstr "x")) rfl) true .stop rfl,
    rfl, rfl⟩

theorem streams_deliver_two : ∃ (S : Streams Bool) (given : Bool → List (Delivery XmlNode)), S.store.next = 4 ∧
    given true = [.root (.tag (cstr "s") [] []), .node (.tag (cstr "a") [] [.cdata (cstr "x")])] ∧
    S.store.mem.faults = [] := by
  obtain ⟨S, fed, given, reachable, next, same⟩ := two_streams
  obtain ⟨faults, all, _⟩ := streams_deliver reachable
  refine ⟨S, given, next, ?_, faults⟩
  rw [(all true).1, same]
  rfl

/-- A node that was handed over is the handler's: no stream has an open tag in its pool, and the
handler may free it. -/
theorem handed_over (reachable : S.Reachable fed given) (i : ι) {d : Delivery NodePtr} {xs : Xstream} {s : Store}
    (ran : (∃ e, xstreamEvent S.store (S.xs i) e = some (some d, xs, s)) ∨
      ∃ parserError, eaten S.store (S.xs i) parserError = some (some d, xs, s)) {n : NodePtr}
    (handed : d.about = some n) : s.typeOf n = some .tag ∧
      (DomOp.free n).Spares s (Streams.Busy ⟨s, Function.update S.xs i xs⟩) ∧
      ∃ s', xmlnodeFree s (some n) = some s' := by
  obtain ⟨F, pools, readers, sound, read⟩ := reachable.sound
  have serves : ∃ out, Serves F S.store.mem.next
      (if (readers i).stack = [] then S.store.mem.next else pools i) (some (some d, xs, s)) out := by
    rcases ran with ⟨e, ran⟩ | ⟨parserError, ran⟩
    · have serves := xstreamEvent_serves sound.linked sound.complete (sound.agrees i) e
      rw [ran] at serves
      exact ⟨_, serves⟩
    · obtain ⟨fault, found⟩ := parserFault_some sound.linked (sound.agrees i) parserError
      have serves := eaten_serves sound.linked sound.complete (sound.agrees i) found
      rw [ran] at serves
      exact ⟨_, serves⟩
  obtain ⟨out, serves⟩ := serves
  obtain ⟨G, pools', sound', _, free⟩ := sound.serve i serves
  obtain ⟨tag, apart⟩ := free n handed
  obtain ⟨x, here, _⟩ := Option.map_eq_some_iff.mp tag
  obtain ⟨mem, freed, _⟩ := xmlnodeFree_eq sound'.linked here
  exact ⟨tag, apart, _, freed⟩

theorem handed_over_stanza : ∃ (S : Streams Bool) (xs : Xstream) (s : Store), S.store.next = 4 ∧
    xstreamEvent S.store (S.xs true) .stop = some (some (.node 2), xs, s) ∧ s.typeOf 2 = some .tag ∧
    ∃ s', xmlnodeFree s (some 2) = some s' := by
  obtain ⟨S, fed, given, reachable, next, xs, s, ran⟩ : ∃ (S : Streams Bool) (fed : Bool → List Feed)
      (given : Bool → List (Delivery XmlNode)), S.Reachable fed given ∧ S.store.next = 4 ∧
      ∃ xs s, xstreamEvent S.store (S.xs true) .stop = some (some (.node 2), xs, s) :=
    ⟨_, _, _, .event (.event (.event (.event .initial true (.start (cstr "s") []) rfl)
      false (.start (cstr "s") []) rfl) true (.start (cstr "a") []) rfl) true (.text (cstr "x")) rfl, rfl, _, _, rfl⟩
  obtain ⟨tag, _, freed⟩ := handed_over reachable true (.inl ⟨.stop, ran⟩) rfl
  exact ⟨S, xs, s, next, ran, tag, freed⟩

/-- A stream passes on its root and then every tag that the parser reports, whole and in order, however
texts and bytes were cut and whatever else was done meanwhile. -/
theorem stanzas_arrive (reachable : S.Reachable fed given) (i : ι) {l : List XmlNode} {reports : List Feed}
    (spelled : Spells 99 l reports) (name : CString) (atts : List (CString × CString)) :
    (fed i = .event (.start name atts) :: reports →
      given i = .root (.tag name (putAttribs [] atts) []) :: (l.filter XmlNode.isTag).map .node) ∧
    (fed i = .event (.start name atts) :: reports ++ [.event .stop] →
      given i = .root (.tag name (putAttribs [] atts) []) :: (l.filter XmlNode.isTag).map .node ++ [.close]) := by
  obtain ⟨F, pools, readers, sound, read⟩ := reachable.sound
  have whole : Reader.initial.run (.event (.start name atts) :: reports) =
      (.root (.tag name (putAttribs [] atts) []) :: (l.filter XmlNode.isTag).map .node, ⟨.node, []⟩) := by
    rw [Reader.run]
    change ([_] ++ ((⟨.node, []⟩ : Reader).run reports).1, ((⟨.node, []⟩ : Reader).run reports).2) = _
    rw [spelled.run [] (Nat.le_refl _)]
    rfl
  constructor
  · intro same
    have all := read i
    rw [same, whole] at all
    exact (congrArg Prod.fst all).symm
  · intro same
    have all := read i
    rw [same, Reader.run_concat, whole] at all
    exact (congrArg Prod.fst all).symm

theorem stanzas_arrive_two : ∃ (S : Streams Bool) (given : Bool → List (Delivery XmlNode)), S.store.next = 4 ∧
    given true = [.root (.tag (cstr "s") [] []), .node (.tag (cstr "a") [] [.cdata (cstr "x")])] := by
  obtain ⟨S, fed, given, reachable, next, same⟩ := two_streams
  have spelled : Spells 99 [.tag (cstr "a") [] [.cdata (cstr "x")]] _ :=
    .tag (cstr "a") [] (.text (cstr "x") (.nil 98)) (.nil 99)
  exact ⟨S, given, next, (stanzas_arrive reachable true spelled (cstr "s") []).1 same⟩

/-- A stream passes on one root at most, tags only behind it, its end once at most, and errors last. -/
theorem calls_ordered (reachable : S.Reachable fed given) (i : ι) :
    ∃ root nodes closed errs, given i = calls root nodes closed errs ∧ (root = none → nodes = []) := by
  obtain ⟨F, pools, readers, sound, read⟩ := reachable.sound
  have phase := Reader.run_phase (fed i)
  rw [read i] at phase
  exact phase.ordered

theorem calls_ordered_two : ∃ (S : Streams Bool) (given : Bool → List (Delivery XmlNode)), S.store.next = 4 ∧
    ∃ root nodes closed errs, given true = calls root nodes closed errs ∧ (root = none → nodes = []) := by
  obtain ⟨S, fed, given, reachable, next, _⟩ := two_streams
  exact ⟨S, given, next, calls_ordered reachable true⟩

/-- Every error call names what was wrong. A stream that failed takes no event any more, and fails again at
the end of every later call. -/
theorem errors_named (reachable : S.Reachable fed given) (i : ι) :
    (∀ x, .err x ∈ given i → ∃ err, x = .tag (cstr "error") [] [.cdata err] ∧
        (.eaten (some err) ∈ fed i ∨ err = deeperr)) ∧
      ((S.xs i).status = .err → (∀ e, xstreamEvent S.store (S.xs i) e = some (none, S.xs i, S.store)) ∧
        ∀ parserError, ∃ n s, eaten S.store (S.xs i) parserError = some (some (.err n), S.xs i, s)) := by
  obtain ⟨F, pools, readers, sound, read⟩ := reachable.sound
  refine ⟨fun x member => ?_, fun failed => ⟨fun e => ?_, fun parserError => ?_⟩⟩
  · apply Reader.run_errs
    rw [read i]
    exact member
  · have bad : (S.xs i).status.bad = true := by
      rw [failed]
      rfl
    cases e with
    | start name atts => exact if_pos bad
    | text bytes => exact if_pos bad
    | stop => exact if_pos bad
  · obtain ⟨fault, found⟩ := parserFault_some sound.linked (sound.agrees i) parserError
    obtain ⟨err, named⟩ : ∃ err, faultOf (S.xs i).status fault = some err := by
      rw [failed]
      cases fault with
      | none => exact ⟨deeperr, rfl⟩
      | some err => exact ⟨err, rfl⟩
    obtain ⟨s₁, made, s', G, new, put, _⟩ := errorTag_eq sound.linked sound.complete err
    refine ⟨F.next, s', ?_⟩
    unfold eaten
    rw [found, Option.bind_eq_bind, Option.bind_some, named]
    dsimp only
    rw [new]
    simp only [Option.bind_eq_bind, Option.bind_some, put]
    rw [← failed]
    rfl

theorem failed_stream : ∃ (S : Streams Bool) (fed : Bool → List Feed) (given : Bool → List (Delivery XmlNode)),
    S.Reachable fed given ∧ S.store.next = 3 ∧ (S.xs true).status = .err :=
  ⟨_, _, _, .eaten (.event .initial true (.start (cstr "s") []) rfl) true (some (cstr "syntax error")) rfl rfl, rfl, rfl⟩

theorem errors_named_syntax : ∃ S : Streams Bool, S.store.next = 3 ∧
    (∀ e, xstreamEvent S.store (S.xs true) e = some (none, S.xs true, S.store)) ∧
    ∀ parserError, ∃ n s, eaten S.store (S.xs true) parserError = some (some (.err n), S.xs true, s) := by
  obtain ⟨S, fed, given, reachable, next, failed⟩ := failed_stream
  exact ⟨S, next, (errors_named reachable true).2 failed⟩

end Runs

end JabSimul.Dom
