import JabSimul.Pools
import JabSimul.XmlNode

/-!
The nodes of `xmlnode.c` as they lie in memory, with every pointer that the library
keeps. A function gives nothing where the program stops: at NULL, at a node whose pool
was freed, or in a loop that has no end. `prev` is never read, since nothing hides a
node. Loops over siblings get as many steps as there are nodes.
-/
namespace JabSimul.Dom

open Pools

abbrev NodePtr := Nat

def sizeofXmlnode : Nat := 96
def sizeofSpool : Nat := 32
def sizeofSpoolNode : Nat := 16

inductive NodeType where
  | tag
  | attrib
  | cdata
  deriving DecidableEq, Repr

structure Xmlnode where
  name : Option CString
  type : NodeType
  data : Option CString
  dataSz : Nat
  p : PoolPtr
  parent : Option NodePtr
  firstchild : Option NodePtr
  lastchild : Option NodePtr
  prev : Option NodePtr
  next : Option NodePtr
  firstattrib : Option NodePtr
  lastattrib : Option NodePtr

/-- Nodes get new numbers, in the order in which they are made. -/
structure Store where
  nodes : NodePtr → Option Xmlnode
  next : NodePtr
  mem : Mem

namespace Store

def initial : Store := ⟨fun _ => none, 0, Mem.initial⟩

/-- A getter: NULL gives NULL. -/
def get {α : Type} (s : Store) (node : Option NodePtr) (f : Xmlnode → Option α) :
    Option (Option α) :=
  match node with
  | none => some none
  | some n => (s.nodes n).map f

def write (s : Store) (node : Option NodePtr) (f : Xmlnode → Xmlnode) : Option Store :=
  node.bind fun n => (s.nodes n).map fun x =>
    { s with nodes := Function.update s.nodes n (some (f x)) }

def pmalloc (s : Store) (p : PoolPtr) (size : Nat) : Option Store :=
  (Pools.pmalloc s.mem p size).map fun r => { s with mem := r.2 }

/-- `for(; cur != NULL; cur = cur->next) if(test) break;` -/
def walk (s : Store) (test : Xmlnode → Bool) : Nat → Option NodePtr → Option (Option NodePtr)
  | _, none => some none
  | 0, some _ => none
  | fuel + 1, some cur => do
      let x ← s.nodes cur
      if test x then some (some cur) else s.walk test fuel x.next

end Store

def xmlnodePool (s : Store) (node : Option NodePtr) : Option (Option PoolPtr) :=
  s.get node fun x => some x.p

/-- Nothing stands for `NTYPE_UNDEF`. -/
def xmlnodeGetType (s : Store) (node : Option NodePtr) : Option (Option NodeType) :=
  s.get node fun x => some x.type

def xmlnodeGetName (s : Store) (node : Option NodePtr) : Option (Option CString) :=
  s.get node Xmlnode.name

def xmlnodeGetFirstattrib (s : Store) (parent : Option NodePtr) : Option (Option NodePtr) :=
  s.get parent Xmlnode.firstattrib

def xmlnodeGetFirstchild (s : Store) (parent : Option NodePtr) : Option (Option NodePtr) :=
  s.get parent Xmlnode.firstchild

def xmlnodeGetNextsibling (s : Store) (sibling : Option NodePtr) : Option (Option NodePtr) :=
  s.get sibling Xmlnode.next

def xmlnodeGetParent (s : Store) (node : Option NodePtr) : Option (Option NodePtr) :=
  s.get node Xmlnode.parent

def xmlnodeHasChildren (s : Store) (node : Option NodePtr) : Option Bool :=
  (xmlnodeGetFirstchild s node).map Option.isSome

def xmlnodeHasAttribs (s : Store) (node : Option NodePtr) : Option Bool :=
  (xmlnodeGetFirstattrib s node).map Option.isSome

def pstrdup (s : Store) (p : PoolPtr) : Option CString → Option Store
  | none => some s
  | some src => s.pmalloc p (src.length + 1)

/-- `_xmlnode_new` -/
def xmlnodeNew (s : Store) (p : Option PoolPtr) (name : Option CString) (type : NodeType) :
    Option (Option NodePtr × Store) :=
  if type ≠ .cdata ∧ name = none then some (none, s)
  else do
    let (p, mem) := match p with
      | some p => (p, s.mem)
      | none => poolHeapNew s.mem (1 * 1024)
    let s ← ({ s with mem := mem } : Store).pmalloc p sizeofXmlnode
    let name := if type = .cdata then none else name
    let s ← pstrdup s p name
    some (some s.next, { s with
      nodes := Function.update s.nodes s.next
        (some ⟨name, type, none, 0, p, none, none, none, none, none, none, none⟩)
      next := s.next + 1 })

/-- `_xmlnode_append_sibling` -/
def appendSibling (s : Store) (lastsibling : Option NodePtr) (name : Option CString)
    (type : NodeType) : Option (Option NodePtr × Store) := do
  let (result, s) ← xmlnodeNew s (← xmlnodePool s lastsibling) name type
  if result.isSome then
    let s ← s.write result fun x => { x with prev := lastsibling }
    let s ← s.write lastsibling fun x => { x with next := result }
    some (result, s)
  else some (none, s)

/-- The node that `_xmlnode_insert` makes, and the first pointer to it. -/
def insertFirst (s : Store) (parent : NodePtr) (p : PoolPtr) (name : Option CString)
    (type : NodeType) : Option (Option NodePtr × Store) := do
  let (result, s) ← xmlnodeNew s (some p) name type
  let s ← s.write (some parent) fun x => { x with firstchild := result }
  some (result, s)

/-- `_xmlnode_insert` -/
def xmlnodeInsert (s : Store) (parent : Option NodePtr) (name : Option CString)
    (type : NodeType) : Option (Option NodePtr × Store) :=
  match parent with
  | none => some (none, s)
  | some n =>
      if type ≠ .cdata ∧ name = none then some (none, s)
      else do
        let x ← s.nodes n
        let (result, s) ←
          if x.firstchild = none then insertFirst s n x.p name type
          else appendSibling s x.lastchild name type
        let s ← s.write result fun x => { x with parent := parent }
        let s ← s.write parent fun x => { x with lastchild := result }
        some (result, s)

/-- `_xmlnode_search` -/
def xmlnodeSearch (s : Store) (firstsibling : Option NodePtr) (name : Option CString)
    (type : NodeType) : Option (Option NodePtr) :=
  s.walk (fun x => x.type = type ∧ jStrcmp x.name name = 0) s.next firstsibling

/-- The chunks of character data from a node on, and the node behind them. -/
def chunks (s : Store) : Nat → Option NodePtr → Option (List Xmlnode × Option NodePtr)
  | _, none => some ([], none)
  | 0, some _ => none
  | fuel + 1, some cur => do
      let x ← s.nodes cur
      if x.type = .cdata then
        let (l, cur) ← chunks s fuel x.next
        some (x :: l, cur)
      else some ([], some cur)

/-- `_xmlnode_merge` -/
def xmlnodeMerge (s : Store) (data : NodePtr) : Option Store := do
  let x ← s.nodes data
  let (l, cur) ← chunks s s.next (some data)
  let imerge := (l.map Xmlnode.dataSz).sum
  let s ← s.pmalloc x.p (imerge + 1)
  let merge := l.flatMap fun y => (y.data.getD []).take y.dataSz
  let s ← s.write (some data) fun x => { x with next := cur }
  let s ←
    if cur = none then s.write x.parent fun y => { y with lastchild := some data }
    else s.write cur fun y => { y with prev := some data }
  s.write (some data) fun x => { x with data := some merge, dataSz := imerge }

/-- What `xmlnode_get_data` and `xmlnode_get_datasz` do with a dirty node. -/
def assemble (s : Store) (n : NodePtr) : Option (Xmlnode × Store) := do
  let x ← s.nodes n
  let s ← if (← xmlnodeGetType s x.next) = some .cdata then xmlnodeMerge s n else some s
  let x ← s.nodes n
  some (x, s)

def xmlnodeGetData (s : Store) (node : Option NodePtr) : Option (Option CString × Store) := do
  let node ←
    if (← xmlnodeGetType s node) = some .tag then
      s.walk (fun x => x.type = .cdata) s.next (← xmlnodeGetFirstchild s node)
    else some node
  match node with
  | none => some (none, s)
  | some n => do
      let (x, s) ← assemble s n
      some (x.data, s)

def xmlnodeGetDatasz (s : Store) (node : Option NodePtr) : Option (Nat × Store) := do
  if (← xmlnodeGetType s node) ≠ some .cdata then some (0, s)
  else
    let (x, s) ← assemble s (← node)
    some (x.dataSz, s)

def xmlnodeNewTag (s : Store) (name : Option CString) : Option (Option NodePtr × Store) :=
  xmlnodeNew s none name .tag

def xmlnodeNewTagPool (s : Store) (p : PoolPtr) (name : Option CString) :
    Option (Option NodePtr × Store) := xmlnodeNew s (some p) name .tag

def xmlnodeInsertTag (s : Store) (parent : Option NodePtr) (name : Option CString) :
    Option (Option NodePtr × Store) := xmlnodeInsert s parent name .tag

/-- The bytes are as many as the size says, or all if it is -1. -/
def xmlnodeInsertCdata (s : Store) (parent : Option NodePtr) (CDATA : Option CString) :
    Option (Option NodePtr × Store) :=
  match CDATA, parent with
  | some bytes, some _ => do
      let (result, s) ← xmlnodeInsert s parent none .cdata
      match result with
      | none => some (none, s)
      | some r => do
          let x ← s.nodes r
          let s ← s.pmalloc x.p (bytes.length + 1)
          let s ← s.write result fun x => { x with data := some bytes, dataSz := bytes.length }
          some (result, s)
  | _, _ => some (none, s)

/-- Every name that the simulator looks up is a plain one. -/
def xmlnodeGetTag (s : Store) (parent : Option NodePtr) (name : CString) :
    Option (Option NodePtr) := do
  xmlnodeSearch s (← xmlnodeGetFirstchild s parent) (some name) .tag

def xmlnodeGetTagData (s : Store) (parent : Option NodePtr) (name : CString) :
    Option (Option CString × Store) := do
  let tag ← xmlnodeGetTag s parent name
  if tag = none then some (none, s) else xmlnodeGetData s tag

/-- The attribute that `xmlnode_put_attrib` writes, which it makes if there is none. -/
def putAttribNode (s : Store) (o : NodePtr) (x : Xmlnode) (name : CString) :
    Option (Option NodePtr × Store) := do
  if x.firstattrib = none then
    let (attrib, s) ← xmlnodeNew s (some x.p) (some name) .attrib
    let s ← s.write (some o) fun x => { x with firstattrib := attrib, lastattrib := attrib }
    some (attrib, s)
  else
    let attrib ← xmlnodeSearch s x.firstattrib (some name) .attrib
    if attrib = none then
      let (attrib, s) ← appendSibling s x.lastattrib (some name) .attrib
      let s ← s.write (some o) fun x => { x with lastattrib := attrib }
      some (attrib, s)
    else some (attrib, s)

def xmlnodePutAttrib (s : Store) (owner : Option NodePtr) (name value : Option CString) :
    Option Store :=
  match owner, name, value with
  | some o, some name, some v => do
      let x ← s.nodes o
      let (attrib, s) ← putAttribNode s o x name
      let s ← pstrdup s x.p value
      s.write attrib fun y => { y with data := some v, dataSz := v.length }
  | _, _, _ => some s

def xmlnodeGetAttrib (s : Store) (owner : Option NodePtr) (name : CString) :
    Option (Option CString) := do
  let attrib ← xmlnodeSearch s (← xmlnodeGetFirstattrib s owner) (some name) .attrib
  s.get attrib Xmlnode.data

/-- `atts` has the names and values in turns. -/
def xmlnodePutExpatAttribs (s : Store) (owner : Option NodePtr) :
    List (CString × CString) → Option Store
  | [] => some s
  | a :: atts => do
      let s ← xmlnodePutAttrib s owner (some a.1) (some a.2)
      xmlnodePutExpatAttribs s owner atts

/-- `xmlnode_free` gives back the pool and with it all nodes that lie there. -/
def xmlnodeFree (s : Store) (node : Option NodePtr) : Option Store :=
  match node with
  | none => some s
  | some n => do
      let x ← s.nodes n
      some { s with
        nodes := fun m => (s.nodes m).filter fun y => y.p ≠ x.p
        mem := poolFree s.mem x.p }

section Copies

mutual

def xmlnodeInsertTagNode : Nat → Store → Option NodePtr → Option NodePtr →
    Option (Option NodePtr × Store)
  | 0, _, _, _ => none
  | fuel + 1, s, parent, node => do
      let (child, s) ← xmlnodeInsertTag s parent (← xmlnodeGetName s node)
      let s ← if ← xmlnodeHasAttribs s node then
          xmlnodeInsertNode fuel s child (← xmlnodeGetFirstattrib s node)
        else some s
      let s ← if ← xmlnodeHasChildren s node then
          xmlnodeInsertNode fuel s child (← xmlnodeGetFirstchild s node)
        else some s
      some (child, s)

/-- A copy of the node and of the siblings behind it. -/
def xmlnodeInsertNode : Nat → Store → Option NodePtr → Option NodePtr → Option Store
  | 0, _, _, _ => none
  | fuel + 1, s, parent, node =>
      if node = none ∨ parent = none then some s
      else do
        let s ← match ← xmlnodeGetType s node with
          | some .attrib => do
              let name ← xmlnodeGetName s node
              let (data, s) ← xmlnodeGetData s node
              xmlnodePutAttrib s parent name data
          | some .tag => do
              let (_, s) ← xmlnodeInsertTagNode fuel s parent node
              some s
          | some .cdata => do
              let (data, s) ← xmlnodeGetData s node
              let (size, s) ← xmlnodeGetDatasz s node
              let (_, s) ← xmlnodeInsertCdata s parent (data.map (List.take size))
              some s
          | none => some s
        xmlnodeInsertNode fuel s parent (← xmlnodeGetNextsibling s node)

end

/-- `xmlnode_dup_pool`, and `xmlnode_dup` where there is no pool. -/
def xmlnodeDupPool (fuel : Nat) (s : Store) (p : Option PoolPtr) (x : Option NodePtr) :
    Option (Option NodePtr × Store) :=
  if x = none then some (none, s)
  else do
    let (x2, s) ← xmlnodeNew s p (← xmlnodeGetName s x) .tag
    let s ← if ← xmlnodeHasAttribs s x then
        xmlnodeInsertNode fuel s x2 (← xmlnodeGetFirstattrib s x)
      else some s
    let s ← if ← xmlnodeHasChildren s x then
        xmlnodeInsertNode fuel s x2 (← xmlnodeGetFirstchild s x)
      else some s
    some (x2, s)

def xmlnodeDup (fuel : Nat) (s : Store) (x : Option NodePtr) : Option (Option NodePtr × Store) :=
  xmlnodeDupPool fuel s none x

end Copies

section Printing

structure Spool where
  p : PoolPtr
  len : Nat
  nodes : List CString

def spoolNew (s : Store) (p : PoolPtr) : Option (Spool × Store) := do
  let s ← s.pmalloc p sizeofSpool
  some (⟨p, 0, []⟩, s)

def spoolAdd (s : Store) (sp : Spool) (str : Option CString) : Option (Spool × Store) :=
  match str with
  | none => some (sp, s)
  | some str =>
      if str.length = 0 then some (sp, s)
      else do
        let s ← s.pmalloc sp.p sizeofSpoolNode
        let s ← pstrdup s sp.p (some str)
        some ({ sp with len := sp.len + str.length, nodes := sp.nodes ++ [str] }, s)

def spooler (s : Store) (sp : Spool) : List (Option CString) → Option (Spool × Store)
  | [] => some (sp, s)
  | arg :: ap => do
      let (sp, s) ← spoolAdd s sp arg
      spooler s sp ap

def spoolPrint (s : Store) (sp : Option Spool) : Option (Option CString × Store) :=
  match sp with
  | none => some (none, s)
  | some sp =>
      if sp.len = 0 ∨ sp.nodes = [] then some (none, s)
      else do
        let s ← s.pmalloc sp.p (sp.len + 1)
        some (some sp.nodes.flatten, s)

/-- By how much `strescape` makes the buffer longer for a character. -/
def escapeGrowth (c : Char) : Nat :=
  if c = '&' then 5
  else if c = Char.ofNat 39 then 6
  else if c = Char.ofNat 34 then 6
  else if c = '<' then 4
  else if c = '>' then 4
  else 0

def strescape (s : Store) (p : Option PoolPtr) (buf : Option CString) :
    Option (Option CString × Store) :=
  match p, buf with
  | some p, some buf => do
      let newlen := buf.length + (buf.map escapeGrowth).sum
      if buf.length = newlen then some (some buf, s)
      else
        let s ← s.pmalloc p (newlen + 1)
        some (some (JabSimul.strescape buf), s)
  | _, _ => some (none, s)

/-- The loop of `_xmlnode_tag2str` over the attributes. -/
def tag2strAttribs (p : Option PoolPtr) : Nat → Store → Spool → Option NodePtr →
    Option (Spool × Store)
  | _, s, sp, none => some (sp, s)
  | 0, _, _, some _ => none
  | fuel + 1, s, sp, some n => do
      let tmp := some n
      let name ← xmlnodeGetName s tmp
      let (data, s) ← xmlnodeGetData s tmp
      let (value, s) ← strescape s p data
      let (sp, s) ← spooler s sp [some (cstr " "), name, some (cstr "='"), value, some (cstr "'")]
      tag2strAttribs p fuel s sp (← xmlnodeGetNextsibling s tmp)

/-- `_xmlnode_tag2str` -/
def tag2str (s : Store) (sp : Spool) (node : Option NodePtr) (flag : Nat) :
    Option (Spool × Store) := do
  if flag = 0 ∨ flag = 1 then
    let (sp, s) ← spooler s sp [some (cstr "<"), ← xmlnodeGetName s node]
    let (sp, s) ← tag2strAttribs (← xmlnodePool s node) s.next s sp (← xmlnodeGetFirstattrib s node)
    spoolAdd s sp (some (if flag = 0 then cstr "/>" else cstr ">"))
  else spooler s sp [some (cstr "</"), ← xmlnodeGetName s node, some (cstr ">")]

/-- What `_xmlnode2spool` prints of a node into which it does not go down. -/
def spoolLeaf (s : Store) (sp : Spool) (node : Option NodePtr) : Option (Spool × Store) := do
  if (← xmlnodeGetType s node) = some .tag then tag2str s sp node 0
  else
    let (data, s) ← xmlnodeGetData s node
    let (text, s) ← strescape s (← xmlnodePool s node) data
    spoolAdd s sp text

/-- The loop of `_xmlnode2spool`; `down` says that `dir` is 0. -/
def spoolLoop : Nat → Store → Spool → Option NodePtr → Bool → Int → Option (Spool × Store)
  | 0, _, _, _, _, _ => none
  | fuel + 1, s, sp, node, down, level => do
      if down ∧ (← xmlnodeGetType s node) = some .tag ∧ (← xmlnodeHasChildren s node) then
        let (sp, s) ← tag2str s sp node 1
        spoolLoop fuel s sp (← xmlnodeGetFirstchild s node) true (level + 1)
      else
        let (sp, s) ← if down then spoolLeaf s sp node else some (sp, s)
        let tmp ← xmlnodeGetNextsibling s node
        if tmp = none then
          let node ← xmlnodeGetParent s node
          let (sp, s) ← if 0 ≤ level - 1 then tag2str s sp node 2 else some (sp, s)
          if level - 1 < 1 then some (sp, s) else spoolLoop fuel s sp node false (level - 1)
        else spoolLoop fuel s sp tmp true level

/-- `_xmlnode2spool` -/
def xmlnode2spool (fuel : Nat) (s : Store) (node : Option NodePtr) :
    Option (Option Spool × Store) := do
  if (← xmlnodeGetType s node) ≠ some .tag then some (none, s)
  else
    let (sp, s) ← spoolNew s (← (← xmlnodePool s node))
    let (sp, s) ← spoolLoop fuel s sp node true 0
    some (some sp, s)

def xmlnode2str (fuel : Nat) (s : Store) (node : Option NodePtr) :
    Option (Option CString × Store) := do
  let (sp, s) ← xmlnode2spool fuel s node
  spoolPrint s sp

end Printing

end JabSimul.Dom
