import JabSimul.XmlNode
import Mathlib.Data.BitVec

/-!
The chained hash table of the jabberd library. A node holds pointers: the key
points into storage owned by the caller, so every lookup reads the keys through
`str`, the text found at a pointer. Zapping a node only clears its key, and a
later `xhash_put` may use the node again.
-/
namespace JabSimul

/-- One step of the ELF hash on an `unsigned long` of 64 bits. -/
def xhasherStep (h : BitVec 64) (c : Char) : BitVec 64 :=
  let h := (h <<< 4) + BitVec.ofNat 64 (c.toNat % 256)
  let g := h &&& 0xF0000000#64
  let h := if g = 0 then h else h ^^^ (g >>> 24)
  h &&& ~~~g

def xhasher (s : CString) : Int := ((s.foldl xhasherStep 0).truncate 32).toInt

structure Xhn (κ ν : Type) where
  key : Option κ
  val : Option ν

structure Xht (κ ν : Type) where
  prime : Nat
  zen : List (List (Xhn κ ν))

section Table
variable {κ ν : Type} (str : κ → CString)

/-- `j_strcmp(key, n->key) == 0`, where a NULL key matches nothing. -/
def Xhn.matchesKey (key : CString) (n : Xhn κ ν) : Bool :=
  jStrcmp (some key) (n.key.map str) = 0

def Xhn.entry (n : Xhn κ ν) : Option (κ × ν) :=
  match n.key, n.val with
  | some k, some v => some (k, v)
  | _, _ => none

def Xht.slot (h : Xht κ ν) (key : CString) : Nat := ((xhasher key).tmod h.prime).toNat

def Xht.chain (h : Xht κ ν) (key : CString) : List (Xhn κ ν) := (h.zen[h.slot key]?).getD []

def Xht.onChain (h : Xht κ ν) (key : CString) (f : List (Xhn κ ν) → List (Xhn κ ν)) :
    Xht κ ν :=
  ⟨h.prime, h.zen.modify (h.slot key) f⟩

def updateFirst {α : Type} (p : α → Bool) (f : α → α) : List α → List α
  | [] => []
  | a :: rest => if p a then f a :: rest else a :: updateFirst p f rest

/-- `_xhash_node_new` and the two assignments after it: an emptied node of the
chain is used again, else a new one is linked behind the head. -/
def linkNode (node : Xhn κ ν) : List (Xhn κ ν) → List (Xhn κ ν)
  | [] => [node]
  | n :: rest =>
      if (n :: rest).any (fun m => m.key.isNone) then
        updateFirst (fun m => m.key.isNone) (fun _ => node) (n :: rest)
      else n :: node :: rest

def xhashNew (prime : Nat) : Xht κ ν := ⟨prime, List.replicate prime [⟨none, none⟩]⟩

def xhashNodeGet (h : Xht κ ν) (key : CString) : Option (Xhn κ ν) :=
  (h.chain key).find? (Xhn.matchesKey str key)

def xhashGet (h : Xht κ ν) (key : CString) : Option ν :=
  (xhashNodeGet str h key).bind Xhn.val

def xhashPut (h : Xht κ ν) (key : κ) (val : ν) : Xht κ ν :=
  let node : Xhn κ ν := ⟨some key, some val⟩
  match xhashNodeGet str h (str key) with
  | some _ => h.onChain (str key) (updateFirst (Xhn.matchesKey str (str key)) fun _ => node)
  | none => h.onChain (str key) (linkNode node)

def xhashZap (h : Xht κ ν) (key : CString) : Xht κ ν :=
  h.onChain key (updateFirst (Xhn.matchesKey str key) fun n => { n with key := none })

/-- The entries in the order of `xhash_walk`, which visits no emptied node. -/
def xhashWalk (h : Xht κ ν) : List (κ × ν) := h.zen.flatten.filterMap Xhn.entry

def xhashGetNth (h : Xht κ ν) (num : Int) : Option ν :=
  if num < 0 then none else ((xhashWalk h)[num.toNat]?).map Prod.snd

theorem mem_chain {h : Xht κ ν} {key : CString} {n : Xhn κ ν} (mem : n ∈ h.chain key) :
    n ∈ h.zen.flatten := by
  unfold Xht.chain at mem
  cases found : h.zen[h.slot key]? with
  | none => simp [found] at mem
  | some chain =>
    rw [found] at mem
    exact List.mem_flatten.mpr ⟨chain, List.mem_of_getElem? found, mem⟩

theorem xhashGet_of_emptied {h : Xht κ ν} (emptied : h.zen.flatten.all fun n => n.key.isNone)
    (key : CString) : xhashGet str h key = none := by
  have missed : xhashNodeGet str h key = none := by
    refine List.find?_eq_none.mpr fun n mem hit => ?_
    have empty : n.key = none := by simpa using List.all_eq_true.mp emptied n (mem_chain mem)
    simp [Xhn.matchesKey, empty, jStrcmp] at hit
  rw [xhashGet, missed]
  rfl

end Table

def primeNumbers : List Nat :=
  [5, 11, 19, 53, 107, 223, 463, 983, 1979, 3907, 7963, 16229, 32531, 65407, 130987, 262237,
    524521, 1048793, 2097397, 4194103, 8388857, 16777447, 33554201, 67108961, 134217487,
    268435697, 536870683, 1073741621, 2147483399]

/-- The read past the end of the table, which needs a stanza of more than two
billion tags, is taken as its last entry. -/
def fitPrime (size : Nat) : Nat :=
  (primeNumbers.find? (fun p => size ≤ p)).getD 2147483399

end JabSimul
