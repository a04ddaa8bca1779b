import JabSimul.DomAttribs

/-!
The streams of `xstream.c`: what the library makes of the calls of the parser, with the
nodes as they lie in memory, and beside it a reader that keeps the open tags on a stack and
knows no pointers.
-/
namespace JabSimul.Dom

open Pools

inductive XmlEvent where
  | start (name : CString) (atts : List (CString × CString))
  | text (bytes : CString)
  | stop

/-- What the handler of a stream is called with. -/
inductive Delivery (α : Type) where
  | root (x : α)
  | node (x : α)
  | close
  | err (x : α)

def Delivery.map {α β : Type} (f : α → β) : Delivery α → Delivery β
  | .root x => .root (f x)
  | .node x => .node (f x)
  | .close => .close
  | .err x => .err (f x)

/-- The node that a call hands over. -/
def Delivery.about {α : Type} : Delivery α → Option α
  | .root x => some x
  | .node x => some x
  | .close => none
  | .err x => some x

inductive XstreamStatus where
  | root
  | node
  | close
  | err
  deriving DecidableEq, Repr

/-- `status > XSTREAM_NODE` -/
def XstreamStatus.bad : XstreamStatus → Bool
  | .root => false
  | .node => false
  | .close => true
  | .err => true

def xstreamMaxnode : Int := 1000000
def xstreamMaxdepth : Int := 100

structure Xstream where
  status : XstreamStatus
  node : Option NodePtr
  depth : Int

def xstreamNew : Xstream := ⟨.root, none, 0⟩

/-- The depth check. -/
def Xstream.deepen (xs : Xstream) : Xstream :=
  { xs with
    depth := xs.depth + 1
    status := if xs.depth + 1 > xstreamMaxdepth then .err else xs.status }

/-- The call that a function makes, the stream and the store behind it. The handler works behind the
function: the code reads nothing of the node after the call. -/
abbrev Called := Option (Delivery NodePtr) × Xstream × Store

/-- `_xstream_startElement` -/
def startElement (s : Store) (xs : Xstream) (name : CString) (atts : List (CString × CString)) :
    Option Called :=
  if xs.status.bad then some (none, xs, s)
  else if xs.node = none then do
    let p := poolHeapNew s.mem (5 * 1024)
    let (node, s) ← xmlnodeNewTagPool { s with mem := p.2 } p.1 (some name)
    let s ← xmlnodePutExpatAttribs s node atts
    if xs.status = .root then
      some (node.map .root, Xstream.deepen { xs with status := .node }, s)
    else some (none, Xstream.deepen { xs with node := node }, s)
  else do
    let (node, s) ← xmlnodeInsertTag s xs.node (some name)
    let s ← xmlnodePutExpatAttribs s node atts
    some (none, Xstream.deepen { xs with node := node }, s)

/-- `_xstream_endElement` -/
def endElement (s : Store) (xs : Xstream) : Option Called :=
  if xs.status.bad then some (none, xs, s)
  else
    match xs.node with
    | none => some (some .close, { xs with status := .close, depth := xs.depth - 1 }, s)
    | some n => do
        let parent ← xmlnodeGetParent s (some n)
        some (if parent = none then some (.node n) else none,
          { xs with node := parent, depth := xs.depth - 1 }, s)

/-- `_xstream_charData` -/
def charData (s : Store) (xs : Xstream) (bytes : CString) : Option Called :=
  if xs.status.bad then some (none, xs, s)
  else if xs.node = none then some (none, xs, s)
  else do
    let (_, s) ← xmlnodeInsertCdata s xs.node (some bytes)
    some (none, xs, s)

def xstreamEvent (s : Store) (xs : Xstream) : XmlEvent → Option Called
  | .start name atts => startElement s xs name atts
  | .text bytes => charData s xs bytes
  | .stop => endElement s xs

def maxerr : CString := cstr "maximum node size reached"
def deeperr : CString := cstr "maximum node depth reached"

/-- What is wrong behind a call of the parser, which says so itself or left a node that is too large.
Nothing ever sets `cdata_len`. -/
def parserFault (s : Store) (xs : Xstream) : Option CString → Option (Option CString)
  | some err => some (some err)
  | none => do
      let p ← xmlnodePool s xs.node
      some (if (p.map (poolSize s.mem)).getD 0 > xstreamMaxnode then some maxerr else none)

def faultOf (status : XstreamStatus) (fault : Option CString) : Option CString :=
  fault.or (if status = .err then some deeperr else none)

/-- `xstream_eat` behind the call of the parser. -/
def eaten (s : Store) (xs : Xstream) (parserError : Option CString) : Option Called := do
  let fault ← parserFault s xs parserError
  match faultOf xs.status fault with
  | none => some (none, xs, s)
  | some err => do
      let (xerr, s) ← xmlnodeNewTag s (some (cstr "error"))
      let (_, s) ← xmlnodeInsertCdata s xerr (some err)
      some (xerr.map .err, { xs with status := .err }, s)

/-- `_xstream_cleanup` -/
def xstreamCleanup (s : Store) (xs : Xstream) : Option Store := xmlnodeFree s xs.node

/-- An open tag: its children so far. -/
structure Frame where
  name : CString
  attribs : List (CString × CString)
  kids : List XmlNode

namespace Frame

def tree (f : Frame) : XmlNode := .tag f.name f.attribs f.kids

def add (f : Frame) (x : XmlNode) : Frame := { f with kids := addKid f.kids x }

end Frame

/-- The last open tag stands first. -/
structure Reader where
  status : XstreamStatus
  stack : List Frame

/-- What a reader is given: a report of the parser, or the end of a call of it, with a fault or not. -/
inductive Feed where
  | event (e : XmlEvent)
  | eaten (fault : Option CString)

namespace Reader

def initial : Reader := ⟨.root, []⟩

def start (r : Reader) (f : Frame) : Option (Delivery XmlNode) × Reader :=
  match r.status with
  | .root => (some (.root f.tree), { r with status := .node })
  | .node => (none, ⟨if r.stack.length + 2 > 100 then .err else .node, f :: r.stack⟩)
  | .close => (none, r)
  | .err => (none, r)

def text (r : Reader) (bytes : CString) : Option (Delivery XmlNode) × Reader :=
  match r.status.bad, r.stack with
  | false, f :: rest => (none, { r with stack := f.add (.cdata bytes) :: rest })
  | _, _ => (none, r)

def stop (r : Reader) : Option (Delivery XmlNode) × Reader :=
  match r.status.bad, r.stack with
  | true, _ => (none, r)
  | false, [] => (some .close, { r with status := .close })
  | false, [f] => (some (.node f.tree), { r with stack := [] })
  | false, f :: g :: rest => (none, { r with stack := g.add f.tree :: rest })

def fault (r : Reader) (fault : Option CString) : Option (Delivery XmlNode) × Reader :=
  match faultOf r.status fault with
  | none => (none, r)
  | some err => (some (.err (.tag (cstr "error") [] [.cdata err])), { r with status := .err })

def step (r : Reader) : Feed → Option (Delivery XmlNode) × Reader
  | .event (.start name atts) => r.start ⟨name, putAttribs [] atts, []⟩
  | .event (.text bytes) => r.text bytes
  | .event .stop => r.stop
  | .eaten f => r.fault f

def run (r : Reader) : List Feed → List (Delivery XmlNode) × Reader
  | [] => ([], r)
  | f :: fed => ((r.step f).1.toList ++ ((r.step f).2.run fed).1, ((r.step f).2.run fed).2)

end Reader

section Reading

variable {r : Reader} {l : List XmlNode} {fed : List Feed} {d : Nat}

theorem Reader.run_append (r : Reader) (fed fed' : List Feed) : r.run (fed ++ fed') =
    ((r.run fed).1 ++ ((r.run fed).2.run fed').1, ((r.run fed).2.run fed').2) := by
  induction fed generalizing r with
  | nil => rfl
  | cons f fed ih =>
    rw [List.cons_append, Reader.run, ih]
    simp only [Reader.run, List.append_assoc]

theorem Reader.run_concat (r : Reader) (fed : List Feed) (f : Feed) : r.run (fed ++ [f]) =
    ((r.run fed).1 ++ ((r.run fed).2.step f).1.toList, ((r.run fed).2.step f).2) := by
  rw [Reader.run_append]
  simp only [Reader.run, List.append_nil]

/-- The parser's report of some nodes in a row, in which tags stand in each other at most as often
as the number says. It may cut texts anywhere and come to the end of a call anywhere. -/
inductive Spells : Nat → List XmlNode → List Feed → Prop
  | nil (d : Nat) : Spells d [] []
  | eaten {d : Nat} {l : List XmlNode} {fed : List Feed} (rest : Spells d l fed) :
      Spells d l (.eaten none :: fed)
  | text {d : Nat} {l : List XmlNode} {fed : List Feed} (bytes : CString) (rest : Spells d l fed) :
      Spells d (.cdata bytes :: l) (.event (.text bytes) :: fed)
  | tag {d : Nat} {cs l : List XmlNode} {fed fed' : List Feed} (name : CString)
      (atts : List (CString × CString)) (inside : Spells d cs fed) (rest : Spells (d + 1) l fed') :
      Spells (d + 1) (.tag name (putAttribs [] atts) (joined cs) :: l)
        (.event (.start name atts) :: (fed ++ .event .stop :: fed'))

/-- What a reader has when it has read some nodes: it passes them on, or puts them into the tag that
is open. -/
def Reader.reads (l : List XmlNode) : List Frame → List (Delivery XmlNode) × Reader
  | [] => ((l.filter XmlNode.isTag).map .node, ⟨.node, []⟩)
  | f :: rest => ([], ⟨.node, { f with kids := l.foldl addKid f.kids } :: rest⟩)

/-- The induction is on the report; a tag is read with one frame more on the stack. -/
theorem Spells.run (spelled : Spells d l fed) (stack : List Frame) (shallow : stack.length + 1 + d ≤ 100) :
    (⟨.node, stack⟩ : Reader).run fed = Reader.reads l stack := by
  induction spelled generalizing stack with
  | nil d =>
    cases stack with
    | nil => rfl
    | cons f rest => rfl
  | eaten rest ih => exact ih stack shallow
  | text bytes rest ih =>
    cases stack with
    | nil => exact ih [] shallow
    | cons f above => exact ih (f.add (.cdata bytes) :: above) shallow
  | @tag d cs l fed fed' name atts inside rest ihInside ihRest =>
    have low : ¬ stack.length + 2 > 100 := by omega
    have opened : (⟨.node, stack⟩ : Reader).step (.event (.start name atts)) =
        (none, ⟨.node, ⟨name, putAttribs [] atts, []⟩ :: stack⟩) := by
      change (none, (⟨if stack.length + 2 > 100 then .err else .node, _⟩ : Reader)) = _
      rw [if_neg low]
    have within := ihInside (⟨name, putAttribs [] atts, []⟩ :: stack) (by rw [List.length_cons]; omega)
    have kids : cs.foldl addKid [] = joined cs := foldl_addKid [] cs
    rw [Reader.run, opened, Reader.run_append, within, Reader.reads]
    dsimp only
    rw [kids]
    cases stack with
    | nil =>
      rw [Reader.run]
      change (_ ++ ([Delivery.node _] ++ ((⟨.node, []⟩ : Reader).run fed').1), ((⟨.node, []⟩ : Reader).run fed').2) = _
      rw [ihRest [] shallow]
      rfl
    | cons f above =>
      rw [Reader.run]
      change (_ ++ ([] ++ ((⟨.node, f.add _ :: above⟩ : Reader).run fed').1),
        ((⟨.node, f.add _ :: above⟩ : Reader).run fed').2) = _
      rw [ihRest (f.add _ :: above) shallow]
      rfl

end Reading

section Order

variable {r : Reader} {given : List (Delivery XmlNode)}

/-- A root, tags behind it, the end of the stream, errors. -/
def calls {α : Type} (root : Option α) (nodes : List α) (closed : Bool) (errs : List α) : List (Delivery α) :=
  (root.map .root).toList ++ nodes.map .node ++ (if closed then [.close] else []) ++ errs.map .err

/-- How far a reader has come. -/
inductive Reader.Phase : Reader → List (Delivery XmlNode) → Prop
  | root : Phase .initial []
  | node (stack : List Frame) (x : XmlNode) (nodes : List XmlNode) : Phase ⟨.node, stack⟩ (calls (some x) nodes false [])
  | close (stack : List Frame) (root : Option XmlNode) (nodes : List XmlNode) (first : root = none → nodes = []) :
      Phase ⟨.close, stack⟩ (calls root nodes true [])
  | err (stack : List Frame) (root : Option XmlNode) (nodes errs : List XmlNode) (closed : Bool)
      (first : root = none → nodes = []) : Phase ⟨.err, stack⟩ (calls root nodes closed errs)

theorem Reader.Phase.ordered (phase : Phase r given) :
    ∃ root nodes closed errs, given = calls root nodes closed errs ∧ (root = none → nodes = []) := by
  cases phase with
  | root => exact ⟨none, [], false, [], rfl, fun _ => rfl⟩
  | node stack x nodes => exact ⟨some x, nodes, false, [], rfl, nofun⟩
  | close stack root nodes first => exact ⟨root, nodes, true, [], rfl, first⟩
  | err stack root nodes errs closed first => exact ⟨root, nodes, closed, errs, rfl, first⟩

theorem calls_err {α : Type} (root : Option α) (nodes : List α) (closed : Bool) (errs : List α) (x : α) :
    calls root nodes closed errs ++ [.err x] = calls root nodes closed (errs ++ [x]) := by
  unfold calls
  rw [List.map_append, List.append_assoc]
  rfl

theorem calls_close {α : Type} (root : Option α) (nodes : List α) :
    calls root nodes false [] ++ [.close] = calls root nodes true [] := by
  unfold calls
  simp

theorem calls_node {α : Type} (root : Option α) (nodes : List α) (x : α) :
    calls root nodes false [] ++ [.node x] = calls root (nodes ++ [x]) false [] := by
  unfold calls
  simp

/-- Nothing but an error changes a stream that has come to an end. -/
theorem Reader.step_bad (bad : r.status.bad = true) (e : XmlEvent) : r.step (.event e) = (none, r) := by
  obtain ⟨status, stack⟩ := r
  cases status with
  | root => cases bad
  | node => cases bad
  | close => cases e <;> rfl
  | err => cases e <;> rfl

theorem Reader.Phase.fault (phase : Phase r given) (fault : Option CString) :
    Phase (r.fault fault).2 (given ++ (r.fault fault).1.toList) := by
  unfold Reader.fault
  cases faultOf r.status fault with
  | none =>
    rw [Option.toList_none, List.append_nil]
    exact phase
  | some err =>
    obtain ⟨root, nodes, closed, errs, rfl, first⟩ := phase.ordered
    rw [Option.toList_some, calls_err]
    exact .err r.stack root nodes _ closed first

/-- One step of the reader, by how far it has come and what it is given. -/
theorem Reader.Phase.step (phase : Phase r given) (f : Feed) :
    Phase (r.step f).2 (given ++ (r.step f).1.toList) := by
  cases f with
  | eaten fault => exact phase.fault fault
  | event e =>
    cases phase with
    | close stack root nodes first =>
      rw [Reader.step_bad rfl, Option.toList_none, List.append_nil]
      exact .close stack root nodes first
    | err stack root nodes errs closed first =>
      rw [Reader.step_bad rfl, Option.toList_none, List.append_nil]
      exact .err stack root nodes errs closed first
    | root =>
      cases e with
      | start name atts => exact .node [] _ []
      | text bytes => exact .root
      | stop => exact .close [] none [] fun _ => rfl
    | node stack x nodes =>
      cases e with
      | start name atts =>
        change Phase ⟨if stack.length + 2 > 100 then .err else .node, _⟩ (_ ++ [])
        rw [List.append_nil]
        split
        · exact .err _ (some x) nodes [] false nofun
        · exact .node _ x nodes
      | text bytes =>
        cases stack with
        | nil =>
          change Phase ⟨.node, []⟩ (_ ++ [])
          rw [List.append_nil]
          exact .node [] x nodes
        | cons f above =>
          change Phase ⟨.node, _⟩ (_ ++ [])
          rw [List.append_nil]
          exact .node _ x nodes
      | stop =>
        cases stack with
        | nil =>
          change Phase ⟨.close, _⟩ (_ ++ [Delivery.close])
          rw [calls_close]
          exact .close [] (some x) nodes nofun
        | cons f above =>
          cases above with
          | nil =>
            change Phase ⟨.node, _⟩ (_ ++ [Delivery.node f.tree])
            rw [calls_node]
            exact .node [] x _
          | cons g above =>
            change Phase ⟨.node, _⟩ (_ ++ [])
            rw [List.append_nil]
            exact .node _ x nodes

/-- The induction is on what was fed last. -/
theorem Reader.run_phase (fed : List Feed) : Phase (Reader.initial.run fed).2 (Reader.initial.run fed).1 := by
  induction fed using List.reverseRecOn with
  | nil => exact .root
  | append_singleton fed f ih =>
    rw [Reader.run_concat]
    exact ih.step f

/-- An event alone never makes an error call. -/
theorem Reader.step_event (r : Reader) (e : XmlEvent) (x : XmlNode) : (r.step (.event e)).1 ≠ some (.err x) := by
  obtain ⟨status, stack⟩ := r
  cases status with
  | close =>
    rw [Reader.step_bad rfl]
    exact nofun
  | err =>
    rw [Reader.step_bad rfl]
    exact nofun
  | root =>
    cases e with
    | start name atts => exact nofun
    | text bytes => cases stack <;> exact nofun
    | stop => rcases stack with _ | ⟨f, _ | ⟨g, above⟩⟩ <;> exact nofun
  | node =>
    cases e with
    | start name atts => exact nofun
    | text bytes => cases stack <;> exact nofun
    | stop => rcases stack with _ | ⟨f, _ | ⟨g, above⟩⟩ <;> exact nofun

/-- An error call names its cause. -/
theorem Reader.run_errs (fed : List Feed) (x : XmlNode) (member : .err x ∈ (Reader.initial.run fed).1) :
    ∃ err, x = .tag (cstr "error") [] [.cdata err] ∧ (.eaten (some err) ∈ fed ∨ err = deeperr) := by
  induction fed using List.reverseRecOn with
  | nil => cases member
  | append_singleton fed f ih =>
    rw [Reader.run_concat] at member
    rcases List.mem_append.mp member with before | now
    · obtain ⟨err, same, cause⟩ := ih before
      exact ⟨err, same, cause.imp_left (List.mem_append_left _)⟩
    · have made := Option.mem_toList.mp now
      cases f with
      | event e => exact absurd made (Reader.step_event _ e x)
      | eaten fault =>
        change (Reader.fault _ fault).1 = some (.err x) at made
        unfold Reader.fault at made
        cases found : faultOf (Reader.initial.run fed).2.status fault with
        | none =>
          rw [found] at made
          cases made
        | some err =>
          rw [found] at made
          refine ⟨err, (Delivery.err.inj (Option.some.inj made)).symm, ?_⟩
          cases fault with
          | some err' =>
            obtain rfl : err' = err := Option.some.inj found
            exact .inl (List.mem_append_right _ List.mem_cons_self)
          | none =>
            change (if _ then some deeperr else none) = some err at found
            split at found
            · exact .inr (Option.some.inj found).symm
            · cases found

end Order

end JabSimul.Dom
