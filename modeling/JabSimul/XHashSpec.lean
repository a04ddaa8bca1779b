import JabSimul.XHash
import Mathlib.Data.List.Nodup
import Mathlib.Data.List.Pairwise
import Mathlib.Data.List.Perm.Basic

/-!
The hash table as the list of its live entries. In a sound table every entry is
on the chain of its text and no two entries have the same text, so a lookup, a
zap and the put of a new key act on that list alone.
-/
namespace JabSimul

/-- The bits that the hash clears in every round stay clear. -/
theorem xhasherStep_clear (h : BitVec 64) (c : Char) :
    xhasherStep h c &&& 0xF0000000#64 = 0 := by
  unfold xhasherStep
  generalize (h <<< 4) + BitVec.ofNat 64 (c.toNat % 256) = x
  have apart : ∀ i < 64, (0xF0000000#64).getLsbD i = true →
      (0xF0000000#64).getLsbD (24 + i) = false := by decide
  refine BitVec.eq_of_getLsbD_eq fun i bound => ?_
  by_cases masked : (0xF0000000#64).getLsbD i = true
  · have lower := apart i bound masked
    by_cases clear : x &&& 0xF0000000#64 = 0
    · have bit := congrArg (fun y => y.getLsbD i) clear
      have out : x.getLsbD i = false := by simpa [masked] using bit
      simp [clear, out]
    · simp only [clear, if_false, BitVec.getLsbD_and, BitVec.getLsbD_xor, BitVec.getLsbD_not,
        BitVec.getLsbD_ushiftRight, lower, masked]
      simp [bound]
  · simp [masked]

theorem xhasher_clear (s : CString) : s.foldl xhasherStep 0 &&& 0xF0000000#64 = 0 := by
  induction s using List.reverseRecOn with
  | nil => rfl
  | append_singleton s c ih =>
    rw [List.foldl_append]
    exact xhasherStep_clear _ c

/-- No index is negative. -/
theorem xhasher_nonneg (s : CString) : 0 ≤ xhasher s := by
  unfold xhasher
  generalize same : s.foldl xhasherStep 0 = x
  have clear : x &&& 0xF0000000#64 = 0 := same ▸ xhasher_clear s
  have high : x.getLsbD 31 = false := by
    have bit := congrArg (fun y => y.getLsbD 31) clear
    rw [BitVec.getLsbD_and, show (0xF0000000#64).getLsbD 31 = true from rfl, Bool.and_true] at bit
    exact bit
  have msb : (x.truncate 32).msb = false := by
    rw [BitVec.msb_eq_getLsbD_last]
    simpa using high
  rw [BitVec.toInt_eq_toNat_of_msb msb]
  exact Int.natCast_nonneg _

section Chains

variable {α β : Type}

theorem mem_updateFirst {p : α → Bool} {f : α → α} {xs : List α} {y : α}
    (mem : y ∈ updateFirst p f xs) : y ∈ xs ∨ ∃ x ∈ xs, p x = true ∧ y = f x := by
  induction xs with
  | nil => exact .inl mem
  | cons x xs ih =>
    unfold updateFirst at mem
    split at mem
    · rename_i hit
      rcases List.mem_cons.mp mem with rfl | later
      · exact .inr ⟨x, List.mem_cons_self, hit, rfl⟩
      · exact .inl (List.mem_cons_of_mem _ later)
    · rcases List.mem_cons.mp mem with rfl | later
      · exact .inl List.mem_cons_self
      · rcases ih later with old | ⟨z, inside, hit, rfl⟩
        · exact .inl (List.mem_cons_of_mem _ old)
        · exact .inr ⟨z, List.mem_cons_of_mem _ inside, hit, rfl⟩

/-- An update of the first hit that nothing is read from only drops what was read
from that hit. -/
theorem filterMap_updateFirst_of_none {p : α → Bool} {f : α → α} {g : α → Option β}
    (drops : ∀ x, p x = true → g (f x) = none) (xs : List α)
    (once : xs.Pairwise fun x y => p x = true → p y = false) :
    (updateFirst p f xs).filterMap g = (xs.filter fun x => !p x).filterMap g := by
  induction once with
  | nil => rfl
  | @cons x xs head _ ih =>
    unfold updateFirst
    by_cases hit : p x = true
    · have rest : xs.filter (fun y => !p y) = xs :=
        List.filter_eq_self.mpr fun y mem => by simp [head y mem hit]
      rw [if_pos hit, List.filterMap_cons_none (drops x hit), List.filter_cons_of_neg (by simp [hit]),
        rest]
    · rw [if_neg hit, List.filter_cons_of_pos (by simpa using hit)]
      simp only [List.filterMap_cons, ih]

end Chains

section Table

variable {κ ν : Type} (str : κ → CString)

def Xhn.text (n : Xhn κ ν) : Option CString := n.key.map str

theorem matchesKey_iff {key : CString} {n : Xhn κ ν} :
    n.matchesKey str key = true ↔ n.text str = some key := by
  rw [Xhn.matchesKey, decide_eq_true_iff, jStrcmp_eq_zero_iff]
  constructor
  · rintro ⟨_, same, text⟩
    rwa [same]
  · exact fun text => ⟨key, rfl, text⟩

structure Xht.Sound (h : Xht κ ν) : Prop where
  size : h.zen.length = h.prime
  room : 0 < h.prime
  filled : ∀ n ∈ h.zen.flatten, n.key.isSome → n.val.isSome
  placed : ∀ i chain, h.zen[i]? = some chain → ∀ n ∈ chain, ∀ text, n.text str = some text →
    h.slot text = i
  apart : (h.zen.flatten.filterMap (Xhn.text str)).Nodup

variable {str} {h : Xht κ ν} {key : CString}

theorem sound_xhashNew {prime : Nat} (room : 0 < prime) : (xhashNew prime : Xht κ ν).Sound str := by
  have empty : ∀ n ∈ (xhashNew prime : Xht κ ν).zen.flatten, n = ⟨none, none⟩ := by
    simp [xhashNew, List.mem_replicate]
  refine ⟨by simp [xhashNew], room, fun n mem some => ?_, fun i chain at' n mem text same => ?_, ?_⟩
  · rw [empty n mem] at some
    cases some
  · rw [empty n (List.mem_flatten.mpr ⟨chain, List.mem_of_getElem? at', mem⟩)] at same
    cases same
  · rw [List.filterMap_eq_nil_iff.mpr fun n mem => by rw [empty n mem]; rfl]
    exact List.nodup_nil

theorem xhashWalk_new (prime : Nat) : xhashWalk (xhashNew prime : Xht κ ν) = [] := by
  refine List.filterMap_eq_nil_iff.mpr fun n mem => ?_
  have empty : n = ⟨none, none⟩ := by
    simp [xhashNew, List.mem_replicate] at mem
    exact mem.2
  rw [empty]
  rfl

namespace Xht.Sound

theorem slot_lt (sound : h.Sound str) (key : CString) : h.slot key < h.zen.length := by
  rw [sound.size]
  have room := sound.room
  have index := Int.emod_lt_of_pos (xhasher key) (Int.natCast_pos.mpr room)
  unfold Xht.slot
  rw [Int.tmod_eq_emod_of_nonneg (xhasher_nonneg key)]
  have low := Int.emod_nonneg (xhasher key) (Int.natCast_ne_zero.mpr (Nat.ne_of_gt room))
  omega

/-- The chain of a key, with the chains before and after it. -/
theorem split (sound : h.Sound str) (key : CString) :
    h.zen = h.zen.take (h.slot key) ++ h.chain key :: h.zen.drop (h.slot key + 1) := by
  have bound := sound.slot_lt key
  have chain : h.chain key = h.zen[h.slot key] := by
    simp [Xht.chain, List.getElem?_eq_getElem bound]
  rw [chain, List.getElem_cons_drop, List.take_append_drop]

theorem split_onChain (sound : h.Sound str) (key : CString) (f : List (Xhn κ ν) → List (Xhn κ ν)) :
    (h.onChain key f).zen =
      h.zen.take (h.slot key) ++ f (h.chain key) :: h.zen.drop (h.slot key + 1) := by
  have bound := sound.slot_lt key
  have chain : h.chain key = h.zen[h.slot key] := by
    simp [Xht.chain, List.getElem?_eq_getElem bound]
  rw [Xht.onChain, List.modify_eq_take_cons_drop bound, chain]

/-- A node with the text of a key is on the chain of that key. -/
theorem mem_chain_of_text (sound : h.Sound str) {n : Xhn κ ν} (mem : n ∈ h.zen.flatten)
    (text : n.text str = some key) : n ∈ h.chain key := by
  obtain ⟨chain, inside, mem⟩ := List.mem_flatten.mp mem
  obtain ⟨i, at'⟩ := List.getElem?_of_mem inside
  have slot := sound.placed i chain at' n mem key text
  rw [Xht.chain, slot, at']
  exact mem

theorem pairwise (sound : h.Sound str) : h.zen.flatten.Pairwise fun m n =>
    ∀ text, m.text str = some text → n.text str ≠ some text :=
  (List.pairwise_filterMap.mp sound.apart).imp fun differ text same same' =>
    differ text same text same' rfl

theorem unique (sound : h.Sound str) {m n : Xhn κ ν} (mem : m ∈ h.zen.flatten)
    (mem' : n ∈ h.zen.flatten) (text : m.text str = some key) (text' : n.text str = some key) :
    m = n := by
  by_contra different
  have : Std.Symm fun m n : Xhn κ ν => ∀ text, m.text str = some text → n.text str ≠ some text :=
    ⟨fun m n differ t same same' => differ t same' same⟩
  exact sound.pairwise.forall mem mem' different key text text'

/-- No node of another chain has the text of a key. -/
theorem elsewhere (sound : h.Sound str) {n : Xhn κ ν}
    (mem : n ∈ (h.zen.take (h.slot key)).flatten ∨ n ∈ (h.zen.drop (h.slot key + 1)).flatten) :
    n.text str ≠ some key := by
  intro text
  rcases mem with before | after
  · obtain ⟨chain, inside, mem⟩ := List.mem_flatten.mp before
    obtain ⟨i, bound, at'⟩ := List.mem_take_iff_getElem.mp inside
    have slot := sound.placed i chain (List.getElem?_eq_some_iff.mpr ⟨by omega, at'⟩) n mem key text
    omega
  · obtain ⟨chain, inside, mem⟩ := List.mem_flatten.mp after
    obtain ⟨i, bound, at'⟩ := List.mem_drop_iff_getElem.mp inside
    have slot := sound.placed _ chain (List.getElem?_eq_some_iff.mpr ⟨by omega, at'⟩) n mem key text
    omega

/-- Nodes of another shape on one chain keep the table sound. -/
theorem onChain (sound : h.Sound str) {f : List (Xhn κ ν) → List (Xhn κ ν)}
    (nodes : ∀ n ∈ f (h.chain key), n ∈ h.chain key ∨
      (n.key.isSome → n.val.isSome) ∧ ∀ text, n.text str = some text → text = key)
    (apart : ((h.onChain key f).zen.flatten.filterMap (Xhn.text str)).Nodup) :
    (h.onChain key f).Sound str := by
  have bound := sound.slot_lt key
  have found : h.zen[h.slot key]? = some (h.chain key) := by
    simp [Xht.chain, List.getElem?_eq_getElem bound]
  refine ⟨(List.length_modify ..).trans sound.size, sound.room, fun n mem => ?_,
    fun i chain at' n mem text same => ?_, apart⟩
  · rw [sound.split_onChain, List.flatten_append, List.flatten_cons] at mem
    have old : n ∈ h.zen.flatten → n.key.isSome → n.val.isSome := sound.filled n
    rw [sound.split key, List.flatten_append, List.flatten_cons] at old
    simp only [List.mem_append] at mem old
    rcases mem with before | here | after
    · exact old (.inl before)
    · rcases nodes n here with kept | ⟨filled, _⟩
      · exact old (.inr (.inl kept))
      · exact filled
    · exact old (.inr (.inr after))
  · rw [Xht.onChain, List.getElem?_modify] at at'
    split at at'
    · rename_i here
      subst here
      rw [found] at at'
      cases at'
      rcases nodes n mem with kept | ⟨_, only⟩
      · exact sound.placed _ _ found n kept text same
      · rw [only text same]
        rfl
    · rw [id_map'] at at'
      exact sound.placed i chain at' n mem text same

end Xht.Sound

theorem entry_iff {n : Xhn κ ν} {e : κ × ν} :
    n.entry = some e ↔ n.key = some e.1 ∧ n.val = some e.2 := by
  obtain ⟨k, v⟩ := e
  unfold Xhn.entry
  split
  · rename_i k' v' key val
    rw [key, val, Option.some_inj, Option.some_inj, Option.some_inj, Prod.mk.injEq]
  · rename_i none
    refine iff_of_false nofun fun ⟨key, val⟩ => none k v key val

theorem mem_xhashWalk {e : κ × ν} : e ∈ xhashWalk h ↔ ∃ n ∈ h.zen.flatten, n.entry = some e :=
  List.mem_filterMap

/-- A lookup finds the one live entry with the text. -/
theorem Xht.Sound.get_iff (sound : h.Sound str) {v : ν} :
    xhashGet str h key = some v ↔ ∃ k, (k, v) ∈ xhashWalk h ∧ str k = key := by
  constructor
  · intro got
    obtain ⟨n, found, val⟩ := Option.bind_eq_some_iff.mp got
    have text := (matchesKey_iff str).mp (List.find?_some found)
    obtain ⟨k, key', same⟩ := Option.map_eq_some_iff.mp text
    exact ⟨k, mem_xhashWalk.mpr ⟨n, mem_chain (List.mem_of_find?_eq_some found),
      entry_iff.mpr ⟨key', val⟩⟩, same⟩
  · rintro ⟨k, mem, rfl⟩
    obtain ⟨n, inside, entry⟩ := mem_xhashWalk.mp mem
    obtain ⟨key', val⟩ := entry_iff.mp entry
    have text : n.text str = some (str k) := by rw [Xhn.text, key']; rfl
    have onChain := sound.mem_chain_of_text inside text
    obtain ⟨m, found⟩ := Option.isSome_iff_exists.mp
      (List.find?_isSome.mpr ⟨n, onChain, (matchesKey_iff str).mpr text⟩)
    have same := sound.unique (mem_chain (List.mem_of_find?_eq_some found)) inside
      ((matchesKey_iff str).mp (List.find?_some found)) text
    rw [xhashGet, xhashNodeGet, found, Option.bind_some, same, val]

theorem Xht.Sound.get_eq_none (sound : h.Sound str) :
    xhashGet str h key = none ↔ ∀ e ∈ xhashWalk h, str e.1 ≠ key := by
  rw [Option.eq_none_iff_forall_ne_some]
  constructor
  · intro absent e mem text
    exact absent e.2 (sound.get_iff.mpr ⟨e.1, mem, text⟩)
  · intro absent v got
    obtain ⟨k, mem, text⟩ := sound.get_iff.mp got
    exact absent _ mem text

/-- The live entries have different texts. -/
theorem Xht.Sound.texts_nodup (sound : h.Sound str) :
    ((xhashWalk h).map fun e => str e.1).Nodup := by
  have texts : (xhashWalk h).map (fun e => str e.1) = h.zen.flatten.filterMap (Xhn.text str) := by
    rw [xhashWalk, List.map_filterMap]
    refine List.filterMap_congr fun n mem => ?_
    cases key' : n.key with
    | none => simp [Xhn.entry, Xhn.text, key']
    | some k =>
      obtain ⟨v, val⟩ := Option.isSome_iff_exists.mp (sound.filled n mem (by rw [key']; rfl))
      simp [Xhn.entry, Xhn.text, key', val]
  rw [texts]
  exact sound.apart

section Zap

/-- What is read from the nodes that have a key, after one key was emptied. -/
theorem Xht.Sound.filterMap_zap (sound : h.Sound str) (key : CString) {β : Type}
    {g : Xhn κ ν → Option β} (drops : ∀ n, n.key = none → g n = none) :
    (xhashZap str h key).zen.flatten.filterMap g =
      (h.zen.flatten.filter fun n => !n.matchesKey str key).filterMap g := by
  have once : (h.chain key).Pairwise fun m n =>
      m.matchesKey str key = true → n.matchesKey str key = false := by
    have inside : h.chain key ∈ h.zen := by
      rw [sound.split key]
      simp
    refine (sound.pairwise.sublist (List.sublist_flatten_of_mem inside)).imp fun differ hit => ?_
    exact Bool.eq_false_iff.mpr fun hit' =>
      differ key ((matchesKey_iff str).mp hit) ((matchesKey_iff str).mp hit')
  have kept : ∀ chains : List (Xhn κ ν), (∀ n ∈ chains, n.text str ≠ some key) →
      chains.filter (fun n => !n.matchesKey str key) = chains := fun chains other =>
    List.filter_eq_self.mpr fun n mem => by
      rw [Bool.not_eq_true', Bool.eq_false_iff]
      exact fun hit => other n mem ((matchesKey_iff str).mp hit)
  have before := kept (h.zen.take (h.slot key)).flatten fun n mem => sound.elsewhere (.inl mem)
  have after := kept (h.zen.drop (h.slot key + 1)).flatten fun n mem => sound.elsewhere (.inr mem)
  have split := congrArg List.flatten (sound.split key)
  rw [xhashZap, sound.split_onChain, split]
  simp only [List.flatten_append, List.flatten_cons, List.filter_append, List.filterMap_append,
    before, after]
  rw [filterMap_updateFirst_of_none (fun n _ => drops _ rfl) _ once]

/-- Zapping a key drops its entry. -/
theorem Xht.Sound.xhashWalk_zap (sound : h.Sound str) (key : CString) :
    xhashWalk (xhashZap str h key) = (xhashWalk h).filter fun e => str e.1 ≠ key := by
  rw [xhashWalk, sound.filterMap_zap key fun n none => by simp [Xhn.entry, none], xhashWalk,
    List.filterMap_filter, List.filter_filterMap]
  refine List.filterMap_congr fun n mem => ?_
  cases entry : n.entry with
  | none => simp
  | some e =>
    have text : n.text str = some (str e.1) := by
      rw [Xhn.text, (entry_iff.mp entry).1]
      rfl
    by_cases same : str e.1 = key
    · have hit : n.matchesKey str key = true := (matchesKey_iff str).mpr (same ▸ text)
      simp [hit, same, Option.filter]
    · have miss : ¬n.matchesKey str key = true := fun hit =>
        same (Option.some_inj.mp (text.symm.trans ((matchesKey_iff str).mp hit)))
      simp [miss, same, Option.filter]

theorem Xht.Sound.zap (sound : h.Sound str) (key : CString) : (xhashZap str h key).Sound str := by
  refine sound.onChain (fun n mem => ?_) ?_
  · rcases mem_updateFirst mem with old | ⟨m, _, _, rfl⟩
    · exact .inl old
    · exact .inr ⟨nofun, nofun⟩
  · refine List.Nodup.sublist ?_ sound.apart
    change ((xhashZap str h key).zen.flatten.filterMap (Xhn.text str)).Sublist _
    rw [sound.filterMap_zap key fun n none => by rw [Xhn.text, none]; rfl]
    exact List.filter_sublist.filterMap _

end Zap

section Put

theorem updateFirst_perm {α β : Type} {p : α → Bool} {y : α} {g : α → Option β}
    (drops : ∀ x, p x = true → g x = none) {xs : List α} (some : xs.any p = true) :
    ((updateFirst p (fun _ => y) xs).filterMap g).Perm ((y :: xs).filterMap g) := by
  induction xs with
  | nil => cases some
  | cons x xs ih =>
    unfold updateFirst
    by_cases hit : p x = true
    · rw [if_pos hit, List.filterMap_cons, List.filterMap_cons, List.filterMap_cons_none (drops x hit)]
    · rw [List.any_cons, eq_false_of_ne_true hit, Bool.false_or] at some
      rw [if_neg hit]
      refine .trans ?_ ((List.Perm.swap y x xs).filterMap g)
      simp only [List.filterMap_cons (a := x)]
      cases g x with
      | none => exact ih some
      | some b => exact (ih some).cons b

theorem linkNode_perm {node : Xhn κ ν} {β : Type} {g : Xhn κ ν → Option β}
    (drops : ∀ n, n.key = none → g n = none) (chain : List (Xhn κ ν)) :
    ((linkNode node chain).filterMap g).Perm ((node :: chain).filterMap g) := by
  cases chain with
  | nil => exact .refl _
  | cons n rest =>
    rw [linkNode]
    split
    · rename_i emptied
      exact updateFirst_perm (fun n none => drops n (Option.isNone_iff_eq_none.mp none)) emptied
    · exact (List.Perm.swap node n rest).filterMap g

theorem mem_linkNode {m node : Xhn κ ν} {chain : List (Xhn κ ν)} (mem : m ∈ linkNode node chain) :
    m ∈ chain ∨ m = node := by
  cases chain with
  | nil => exact .inr (List.mem_singleton.mp mem)
  | cons n rest =>
    rw [linkNode] at mem
    split at mem
    · rcases mem_updateFirst mem with old | ⟨_, _, _, new⟩
      · exact .inl old
      · exact .inr new
    · rcases List.mem_cons.mp mem with rfl | later
      · exact .inl List.mem_cons_self
      · exact (List.mem_cons.mp later).symm.imp_left (List.mem_cons_of_mem _)

variable {k : κ}

theorem Xht.Sound.xhashPut_fresh (sound : h.Sound str) (v : ν)
    (absent : xhashGet str h (str k) = none) :
    xhashPut str h k v = h.onChain (str k) (linkNode ⟨some k, some v⟩) := by
  unfold xhashPut
  cases found : xhashNodeGet str h (str k) with
  | none => rfl
  | some n =>
    have text := (matchesKey_iff str).mp (List.find?_some found)
    obtain ⟨_, key', _⟩ := Option.map_eq_some_iff.mp text
    have filled := sound.filled n (mem_chain (List.mem_of_find?_eq_some found)) (by rw [key']; rfl)
    rw [xhashGet, found, Option.bind_some] at absent
    rw [absent] at filled
    cases filled

/-- What is read from the nodes that have a key, after a new key was put. -/
theorem Xht.Sound.filterMap_put (sound : h.Sound str) (v : ν)
    (absent : xhashGet str h (str k) = none) {β : Type} {g : Xhn κ ν → Option β}
    (drops : ∀ n, n.key = none → g n = none) :
    ((xhashPut str h k v).zen.flatten.filterMap g).Perm
      ((⟨some k, some v⟩ :: h.zen.flatten).filterMap g) := by
  have split := congrArg List.flatten (sound.split (str k))
  rw [sound.xhashPut_fresh v absent, sound.split_onChain, split]
  simp only [List.flatten_append, List.flatten_cons, List.filterMap_append]
  refine ((linkNode_perm drops _).append_right _ |>.append_left _).trans ?_
  simp only [← List.filterMap_append]
  exact List.perm_middle.filterMap g

/-- Putting a new key adds its entry. -/
theorem Xht.Sound.xhashWalk_put (sound : h.Sound str) (v : ν)
    (absent : xhashGet str h (str k) = none) :
    (xhashWalk (xhashPut str h k v)).Perm ((k, v) :: xhashWalk h) :=
  sound.filterMap_put v absent fun n none => by simp [Xhn.entry, none]

theorem Xht.Sound.put (sound : h.Sound str) (v : ν) (absent : xhashGet str h (str k) = none) :
    (xhashPut str h k v).Sound str := by
  have texts := sound.filterMap_put v absent (g := Xhn.text str)
    fun n none => by rw [Xhn.text, none]; rfl
  rw [sound.xhashPut_fresh v absent] at texts ⊢
  refine sound.onChain (fun n mem => ?_) (texts.nodup_iff.mpr (List.nodup_cons.mpr ⟨?_, sound.apart⟩))
  · rcases mem_linkNode mem with old | rfl
    · exact .inl old
    · exact .inr ⟨fun _ => rfl, fun text same => (Option.some_inj.mp same).symm⟩
  · intro mem
    obtain ⟨n, inside, text⟩ := List.mem_filterMap.mp mem
    obtain ⟨k', key', same⟩ := Option.map_eq_some_iff.mp text
    obtain ⟨v', val⟩ := Option.isSome_iff_exists.mp (sound.filled n inside (by rw [key']; rfl))
    exact sound.get_eq_none.mp absent (k', v')
      (mem_xhashWalk.mpr ⟨n, inside, entry_iff.mpr ⟨key', val⟩⟩) same

end Put

section Lookup

variable {t : CString} {v w : ν} {k : κ}

theorem Xht.Sound.get_zap (sound : h.Sound str) :
    xhashGet str (xhashZap str h key) t = if t = key then none else xhashGet str h t := by
  refine Option.ext fun v => ?_
  rw [(sound.zap key).get_iff, sound.xhashWalk_zap]
  split
  · subst t
    refine iff_of_false (fun ⟨k, mem, text⟩ => ?_) nofun
    simp [text] at mem
  · rename_i other
    rw [sound.get_iff]
    refine exists_congr fun k => and_congr_left fun text => ?_
    simp [text, other]

theorem Xht.Sound.length_zap (sound : h.Sound str) (got : xhashGet str h key = some v) :
    (xhashWalk (xhashZap str h key)).length + 1 = (xhashWalk h).length := by
  obtain ⟨k, mem, text⟩ := sound.get_iff.mp got
  have once : (xhashWalk h).countP (fun e => str e.1 = key) = 1 := by
    have one := List.count_eq_one_of_mem sound.texts_nodup
      (List.mem_map.mpr ⟨(k, v), mem, text⟩)
    rw [List.count, List.countP_map] at one
    rw [← one]
    exact List.countP_congr fun e _ => by simp
  have all := List.length_eq_countP_add_countP (fun e : κ × ν => decide (str e.1 = key)) (l := xhashWalk h)
  rw [sound.xhashWalk_zap, ← List.countP_eq_length_filter, all, once, Nat.add_comm]
  simp

theorem Xht.Sound.get_put (sound : h.Sound str) (absent : xhashGet str h (str k) = none) :
    xhashGet str (xhashPut str h k w) t = if t = str k then some w else xhashGet str h t := by
  refine Option.ext fun v => ?_
  rw [(sound.put w absent).get_iff]
  have mem : ∀ k', (k', v) ∈ xhashWalk (xhashPut str h k w) ↔ k' = k ∧ v = w ∨ (k', v) ∈ xhashWalk h :=
    fun k' => by rw [(sound.xhashWalk_put w absent).mem_iff, List.mem_cons, Prod.mk.injEq]
  simp only [mem]
  split
  · subst t
    constructor
    · rintro ⟨k', ⟨rfl, rfl⟩ | old, text⟩
      · rfl
      · exact absurd text (sound.get_eq_none.mp absent _ old)
    · rintro ⟨⟩
      exact ⟨k, .inl ⟨rfl, rfl⟩, rfl⟩
  · rename_i other
    rw [sound.get_iff]
    refine exists_congr fun k' => and_congr_left fun text => or_iff_right ?_
    rintro ⟨rfl, _⟩
    exact other text.symm

end Lookup

section Texts

variable {str' : κ → CString}

/-- A table only reads the texts of its keys. -/
theorem Xht.Sound.congr (sound : h.Sound str) (same : ∀ e ∈ xhashWalk h, str' e.1 = str e.1) :
    h.Sound str' := by
  have text : ∀ n ∈ h.zen.flatten, n.text str' = n.text str := fun n mem =>
    Option.map_congr fun k key' => by
      obtain ⟨v, val⟩ := Option.isSome_iff_exists.mp (sound.filled n mem (by rw [key']; rfl))
      exact same (k, v) (mem_xhashWalk.mpr ⟨n, mem, entry_iff.mpr ⟨key', val⟩⟩)
  refine ⟨sound.size, sound.room, sound.filled, fun i chain at' n mem t same => ?_, ?_⟩
  · rw [text n (List.mem_flatten.mpr ⟨chain, List.mem_of_getElem? at', mem⟩)] at same
    exact sound.placed i chain at' n mem t same
  · rw [List.filterMap_congr text]
    exact sound.apart

theorem Xht.Sound.get_congr (sound : h.Sound str)
    (same : ∀ e ∈ xhashWalk h, str' e.1 = str e.1) (t : CString) :
    xhashGet str' h t = xhashGet str h t := by
  refine Option.ext fun v => ?_
  rw [(sound.congr same).get_iff, sound.get_iff]
  refine exists_congr fun k => and_congr_right fun mem => ?_
  rw [same _ mem]

end Texts

end Table

theorem fitPrime_pos (size : Nat) : 0 < fitPrime size := by
  unfold fitPrime
  cases found : primeNumbers.find? fun p => size ≤ p with
  | none => exact Nat.zero_lt_succ _
  | some p =>
    have positive : ∀ q ∈ primeNumbers, 0 < q := by decide
    exact positive p (List.mem_of_find?_eq_some found)

end JabSimul
