import JabSimul.CString

/-!
The xmlnode trees of the jabberd library. A possibly NULL node is an option.
Every tag name that the simulator looks up is a plain name, so `xmlnodeGetTag`
models the branch of `xmlnode_get_tag` without `/`, `?` and `=`. Chunks of
character data that follow each other are one text, as `_xmlnode_merge` makes
them before they are read.
-/
namespace JabSimul

inductive XmlNode where
  | tag (name : CString) (attribs : List (CString × CString)) (children : List XmlNode)
  | cdata (data : CString)
  deriving Inhabited

mutual
def XmlNode.decEq : (x y : XmlNode) → Decidable (x = y)
  | .tag n as cs, .tag n' as' cs' =>
      letI := XmlNode.decEqList cs cs'
      decidable_of_iff (n = n' ∧ as = as' ∧ cs = cs') (by simp)
  | .cdata d, .cdata d' => decidable_of_iff (d = d') (by simp)
  | .tag _ _ _, .cdata _ => isFalse nofun
  | .cdata _, .tag _ _ _ => isFalse nofun

def XmlNode.decEqList : (xs ys : List XmlNode) → Decidable (xs = ys)
  | [], [] => isTrue rfl
  | x :: xs, y :: ys =>
      letI := XmlNode.decEq x y
      letI := XmlNode.decEqList xs ys
      decidable_of_iff (x = y ∧ xs = ys) (by simp)
  | [], _ :: _ => isFalse nofun
  | _ :: _, [] => isFalse nofun
end

instance : DecidableEq XmlNode := XmlNode.decEq

namespace XmlNode

def isTag : XmlNode → Bool
  | .tag _ _ _ => true
  | .cdata _ => false

def name : XmlNode → Option CString
  | .tag n _ _ => some n
  | .cdata _ => none

def attribs : XmlNode → List (CString × CString)
  | .tag _ as _ => as
  | .cdata _ => []

def children : XmlNode → List XmlNode
  | .tag _ _ cs => cs
  | .cdata _ => []

end XmlNode

def xmlnodeGetName (x : Option XmlNode) : Option CString := x.bind XmlNode.name

def xmlnodeGetFirstchild (x : Option XmlNode) : List XmlNode :=
  match x with
  | none => []
  | some n => n.children

def xmlnodeGetAttrib (x : Option XmlNode) (name : CString) : Option CString :=
  match x with
  | none => none
  | some n => (n.attribs.find? (fun a => a.1 = name)).map Prod.snd

def xmlnodeGetTag (parent : Option XmlNode) (name : CString) : Option XmlNode :=
  (xmlnodeGetFirstchild parent).find? (fun n => n.isTag && n.name = some name)

/-- The text of a run of character data chunks. -/
def leadingData : List XmlNode → CString
  | .cdata d :: rest => d ++ leadingData rest
  | _ => []

/-- The first character data among the children of a tag. -/
def childData : List XmlNode → Option CString
  | [] => none
  | .cdata d :: rest => some (d ++ leadingData rest)
  | .tag _ _ _ :: rest => childData rest

def xmlnodeGetData (x : Option XmlNode) : Option CString :=
  match x with
  | none => none
  | some (.tag _ _ cs) => childData cs
  | some (.cdata d) => some d

def xmlnodeGetTagData (parent : Option XmlNode) (name : CString) : Option CString :=
  xmlnodeGetData (xmlnodeGetTag parent name)

def putAttrib (name value : CString) : List (CString × CString) → List (CString × CString)
  | [] => [(name, value)]
  | a :: rest => if a.1 = name then (name, value) :: rest else a :: putAttrib name value rest

/-- A NULL value leaves the node as it is. -/
def xmlnodePutAttrib (x : XmlNode) (name : CString) (value : Option CString) : XmlNode :=
  match value, x with
  | some v, .tag n as cs => .tag n (putAttrib name v as) cs
  | _, x => x

theorem putAttrib_isTag (x : XmlNode) (key : CString) (value : Option CString) :
    (xmlnodePutAttrib x key value).isTag = x.isTag := by
  cases value <;> cases x <;> rfl

theorem putAttrib_name (x : XmlNode) (key : CString) (value : Option CString) :
    (xmlnodePutAttrib x key value).name = x.name := by
  cases value <;> cases x <;> rfl

theorem putAttrib_children (x : XmlNode) (key : CString) (value : Option CString) :
    (xmlnodePutAttrib x key value).children = x.children := by
  cases value <;> cases x <;> rfl

/-- `jutil_tofrom`: both values are read before either attribute is written. -/
def jutilTofrom (x : XmlNode) : XmlNode :=
  let toJid := xmlnodeGetAttrib (some x) (cstr "to")
  let fromJid := xmlnodeGetAttrib (some x) (cstr "from")
  xmlnodePutAttrib (xmlnodePutAttrib x (cstr "from") toJid) (cstr "to") fromJid

/-- `tag_iter_init` with all of `tag_iter_get_next`. -/
def tagIter (x : Option XmlNode) (name : CString) : List XmlNode :=
  (xmlnodeGetFirstchild x).filter (fun n => n.isTag && n.name = some name)

def xmlnodeCountTags (x : Option XmlNode) : Nat :=
  (xmlnodeGetFirstchild x).countP XmlNode.isTag

def escapeChar (c : Char) : CString :=
  if c = '&' then cstr "&amp;"
  else if c = Char.ofNat 39 then cstr "&apos;"
  else if c = Char.ofNat 34 then cstr "&quot;"
  else if c = '<' then cstr "&lt;"
  else if c = '>' then cstr "&gt;"
  else [c]

def strescape (s : CString) : CString := s.flatMap escapeChar

def attribsStr (as : List (CString × CString)) : CString :=
  as.flatMap fun a => cstr " " ++ a.1 ++ cstr "='" ++ strescape a.2 ++ cstr "'"

mutual

def xmlnode2str : XmlNode → CString
  | .cdata d => strescape d
  | .tag n as [] => cstr "<" ++ n ++ attribsStr as ++ cstr "/>"
  | .tag n as (c :: cs) =>
      cstr "<" ++ n ++ attribsStr as ++ cstr ">" ++ (xmlnode2str c ++ xmlnodes2str cs) ++
        cstr "</" ++ n ++ cstr ">"

def xmlnodes2str : List XmlNode → CString
  | [] => []
  | c :: cs => xmlnode2str c ++ xmlnodes2str cs

end

end JabSimul
