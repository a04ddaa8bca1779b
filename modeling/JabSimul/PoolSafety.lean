import JabSimul.Pools
import Mathlib.Data.List.Perm.Basic

/-!
What the callers of the memory pools rely on: the memory that they get is theirs
alone, the size that `pool_size` tells is the size of the memory, and `pool_free`
gives everything back once, behind the cleaners of the callers.
-/
namespace JabSimul.Pools

/-- The regions of a pool: its structure and where its trackers lie. -/
def Pool.memory (pool : Pool) (p : PoolPtr) : List RegionPtr := p :: pool.cleanup.map Pfree.region

/-- The regions of which something can be given away. -/
def Pool.stores (pool : Pool) (p : PoolPtr) : List RegionPtr :=
  p :: (pool.cleanup.filter Pfree.heap).map Pfree.region

def Region.payload (r : Region) : Nat := r.size - r.head - r.tail

/-- No byte belongs to both. -/
def Block.Apart (b b' : Block) : Prop :=
  b.region = b'.region → b.offset + b.size ≤ b'.offset ∨ b'.offset + b'.size ≤ b.offset

/-- A block lies between the structures of the library. -/
structure Block.Inside (b : Block) (m : Mem) : Prop where
  front : (m.regions b.region).head ≤ b.offset
  back : b.offset + b.size + (m.regions b.region).tail ≤ (m.regions b.region).size
  aligned : 4 ≤ b.size → b.offset % 8 = 0

/-- A tracker frees the region in which it lies, or it is one of a caller. -/
inductive Pfree.Kind : Pfree → Prop
  | memory {r f} (frees : f = .poolFree r ∨ f = .heapFree r) : Kind ⟨r, f, true⟩
  | caller (r f) : Kind ⟨r, .caller f, false⟩

def Pfree.cleaner (t : Pfree) : Option Nat :=
  match t.f with
  | .caller f => some f
  | _ => none

def MemEv.cleanerOf (p : PoolPtr) : MemEv → Option Nat
  | .registered q f => if q = p then some f else none
  | _ => none

def MemEv.callOf (p : PoolPtr) : MemEv → Option Nat
  | .called q f => if q = p then some f else none
  | _ => none

def MemEv.freedRegion : MemEv → Option RegionPtr
  | .freed r => some r
  | _ => none

/-- The cleaners that were registered for a pool, the newest first. -/
def Mem.registered (m : Mem) (p : PoolPtr) : List Nat := m.trace.filterMap (MemEv.cleanerOf p)

/-- The calls of the cleaners of a pool, the newest first. -/
def Mem.called (m : Mem) (p : PoolPtr) : List Nat := m.trace.filterMap (MemEv.callOf p)

/-- The heap of a pool and what was given away of it. -/
structure Pheap.Valid (m : Mem) (stores : List RegionPtr) (blocks : List Block) (h : Pheap) :
    Prop where
  known : h.region ∈ stores
  head : (m.regions h.region).head = h.offset
  room : h.offset + h.size + (m.regions h.region).tail = (m.regions h.region).size
  aligned : h.offset % 8 = 0
  used : ∀ b ∈ blocks, b.region = h.region → b.offset + b.size ≤ h.offset + h.used

structure Pool.Valid (m : Mem) (p : PoolPtr) (pool : Pool) : Prop where
  nodup : (pool.memory p).Nodup
  kinds : ∀ t ∈ pool.cleanup, t.Kind
  order : pool.cleanup.Pairwise fun s t => t.heap = false → s.heap = false
  heap : ∀ h, pool.heap = some h → h.Valid m (pool.stores p) pool.blocks
  known : ∀ b ∈ pool.blocks, b.region ∈ pool.stores p
  inside : ∀ b ∈ pool.blocks, b.Inside m
  apart : pool.blocks.Pairwise Block.Apart
  size : pool.size =
    BitVec.ofNat 32 ((pool.memory p).map fun r => (m.regions r).payload).sum
  cleaners : pool.cleanup.filterMap Pfree.cleaner = m.registered p

structure Mem.Sound (m : Mem) : Prop where
  fresh : ∀ r, m.next ≤ r → (m.regions r).live = false ∧ m.pools r = none
  later : ∀ r, m.next ≤ r → m.registered r = [] ∧ .freed r ∉ m.trace
  live : ∀ r, (m.regions r).live = true ↔ ∃ p pool, m.pools p = some pool ∧ r ∈ pool.memory p
  valid : ∀ p pool, m.pools p = some pool → pool.Valid m p
  apart : ∀ p q pool pool', m.pools p = some pool → m.pools q = some pool' → p ≠ q →
    ∀ r ∈ pool.memory p, r ∉ pool'.memory q
  faults : m.faults = []
  gone : ∀ r, .freed r ∈ m.trace → (m.regions r).live = false
  kept : ∀ r, r < m.next → (m.regions r).live = true ∨ .freed r ∈ m.trace
  once : (m.trace.filterMap MemEv.freedRegion).Nodup

section Accesses

variable {m : Mem} {r : RegionPtr}

theorem touch_of_live (live : (m.regions r).live = true) : m.touch r = m := if_pos live

theorem touches_of_live {l : List Pfree} (live : ∀ t ∈ l, (m.regions t.region).live = true) :
    l.foldl (fun m cur => m.touch cur.region) m = m := by
  induction l with
  | nil => rfl
  | cons t l ih =>
    rw [List.foldl_cons, touch_of_live (live t List.mem_cons_self)]
    exact ih fun t member => live t (List.mem_cons_of_mem _ member)

theorem Pool.mem_memory (pool : Pool) (p : PoolPtr) : p ∈ pool.memory p := List.mem_cons_self

theorem Pool.memory_of_tracker {pool : Pool} {t : Pfree} (member : t ∈ pool.cleanup) (p : PoolPtr) :
    t.region ∈ pool.memory p :=
  List.mem_cons_of_mem _ (List.mem_map_of_mem member)

theorem Pool.memory_of_store {pool : Pool} {p : PoolPtr} (member : r ∈ pool.stores p) :
    r ∈ pool.memory p := by
  rcases List.mem_cons.mp member with rfl | member
  · exact pool.mem_memory _
  · obtain ⟨t, inside, rfl⟩ := List.mem_map.mp member
    exact memory_of_tracker (List.mem_filter.mp inside).1 p

theorem Mem.Sound.live_of_mem (sound : m.Sound) {p : PoolPtr} {pool : Pool}
    (here : m.pools p = some pool) (member : r ∈ pool.memory p) : (m.regions r).live = true :=
  (sound.live r).mpr ⟨p, pool, here, member⟩

theorem Mem.Sound.lt_of_mem (sound : m.Sound) {p : PoolPtr} {pool : Pool}
    (here : m.pools p = some pool) (member : r ∈ pool.memory p) : r < m.next := by
  by_contra high
  have dead := (sound.fresh r (Nat.not_lt.mp high)).1
  rw [sound.live_of_mem here member] at dead
  cases dead

end Accesses

section Steps

variable {m m' : Mem} {p q : PoolPtr} {pool pool' : Pool}

theorem Block.Inside.congr {b : Block} (inside : b.Inside m)
    (same : m'.regions b.region = m.regions b.region) : b.Inside m' := by
  constructor
  · rw [same]
    exact inside.front
  · rw [same]
    exact inside.back
  · exact inside.aligned

theorem Pheap.Valid.congr {h : Pheap} {stores stores' : List RegionPtr} {blocks : List Block}
    (valid : h.Valid m stores blocks) (same : m'.regions h.region = m.regions h.region)
    (known : h.region ∈ stores') : h.Valid m' stores' blocks := by
  constructor
  · exact known
  · rw [same]
    exact valid.head
  · rw [same]
    exact valid.room
  · exact valid.aligned
  · exact valid.used

/-- What is valid stays valid where the regions of the pool are not changed. -/
theorem Pool.Valid.congr (valid : pool.Valid m p)
    (regions : ∀ r ∈ pool.memory p, m'.regions r = m.regions r)
    (registered : m'.registered p = m.registered p) : pool.Valid m' p := by
  constructor
  · exact valid.nodup
  · exact valid.kinds
  · exact valid.order
  · intro h here
    have old := valid.heap h here
    exact old.congr (regions h.region (Pool.memory_of_store old.known)) old.known
  · exact valid.known
  · intro b member
    exact (valid.inside b member).congr (regions b.region (Pool.memory_of_store (valid.known b member)))
  · exact valid.apart
  · have payloads : (pool.memory p).map (fun r => (m'.regions r).payload) =
        (pool.memory p).map fun r => (m.regions r).payload :=
      List.map_congr_left fun r member => congrArg Region.payload (regions r member)
    rw [payloads]
    exact valid.size
  · rw [registered]
    exact valid.cleaners

/-- The regions that a pool has, none if there is no such pool. -/
def Mem.memoryOf (m : Mem) (p : PoolPtr) : List RegionPtr :=
  ((m.pools p).map fun pool => pool.memory p).getD []

theorem Mem.mem_memoryOf {r : RegionPtr} (member : r ∈ m.memoryOf p) :
    ∃ pool, m.pools p = some pool ∧ r ∈ pool.memory p := by
  unfold Mem.memoryOf at member
  cases found : m.pools p with
  | none => simp [found] at member
  | some pool =>
    rw [found] at member
    exact ⟨pool, rfl, member⟩

/-- There is one region more, which is the pool's, and the trace tells of nothing but
cleaners of the pool. -/
structure Mem.Grown (m m' : Mem) (p : PoolPtr) (pool' : Pool) (es : List MemEv) : Prop where
  regions : ∀ r, r ≠ m.next → m'.regions r = m.regions r
  fresh : (m'.regions m.next).live = true
  next : m'.next = m.next + 1
  pools : ∀ q, q ≠ p → m'.pools q = m.pools q
  here : m'.pools p = some pool'
  trace : m'.trace = es ++ m.trace
  faults : m'.faults = m.faults
  members : ∀ r, r ∈ pool'.memory p ↔ r = m.next ∨ r ∈ m.memoryOf p
  quiet : ∀ e ∈ es, ∃ f, e = .registered p f

namespace Mem.Grown

variable {es : List MemEv}

theorem of_eq {head size tail : Nat} (memory : (pool'.memory p).Perm (m.next :: m.memoryOf p))
    (quiet : ∀ e ∈ es, ∃ f, e = .registered p f)
    (grown : m' = { (m.malloc head size tail).setPool p (some pool') with trace := es ++ m.trace }) :
    m.Grown m' p pool' es := by
  subst grown
  refine ⟨fun r other => Function.update_of_ne other _ _, ?_, rfl,
    fun q other => Function.update_of_ne other _ _, Function.update_self _ _ _, rfl, rfl, ?_, quiet⟩
  · change (Function.update m.regions m.next _ m.next).live = true
    rw [Function.update_self]
  · intro r
    rw [memory.mem_iff, List.mem_cons]

variable (grown : m.Grown m' p pool' es)
include grown

theorem registered (other : q ≠ p) : m'.registered q = m.registered q := by
  have none : es.filterMap (MemEv.cleanerOf q) = [] := by
    apply List.filterMap_eq_nil_iff.mpr
    intro e member
    obtain ⟨f, rfl⟩ := grown.quiet e member
    exact if_neg (Ne.symm other)
  unfold Mem.registered
  rw [grown.trace, List.filterMap_append, none]
  rfl

theorem freed (r : RegionPtr) : .freed r ∈ m'.trace ↔ .freed r ∈ m.trace := by
  rw [grown.trace, List.mem_append]
  apply or_iff_right
  intro member
  obtain ⟨f, same⟩ := grown.quiet _ member
  cases same

theorem freedRegions :
    m'.trace.filterMap MemEv.freedRegion = m.trace.filterMap MemEv.freedRegion := by
  have none : es.filterMap MemEv.freedRegion = [] := by
    apply List.filterMap_eq_nil_iff.mpr
    intro e member
    obtain ⟨f, rfl⟩ := grown.quiet e member
    rfl
  rw [grown.trace, List.filterMap_append, none]
  rfl

/-- No other pool has a region of the one that has grown. -/
theorem apart (sound : m.Sound) (there : m.pools q = some pool) (other : q ≠ p) :
    ∀ r ∈ pool.memory q, r ∉ pool'.memory p := by
  intro r member inside
  rcases (grown.members r).mp inside with rfl | inside
  · exact Nat.lt_irrefl _ (sound.lt_of_mem there member)
  · obtain ⟨pool₀, here₀, member₀⟩ := m.mem_memoryOf inside
    exact sound.apart q p pool pool₀ there here₀ other r member member₀

theorem live_iff (sound : m.Sound) (r : RegionPtr) :
    (m'.regions r).live = true ↔ ∃ q pool, m'.pools q = some pool ∧ r ∈ pool.memory q := by
  by_cases new : r = m.next
  · subst new
    exact iff_of_true grown.fresh ⟨p, pool', grown.here, (grown.members _).mpr (.inl rfl)⟩
  rw [grown.regions r new, sound.live r]
  constructor
  · rintro ⟨q, pool, there, member⟩
    by_cases same : q = p
    · subst q
      refine ⟨p, pool', grown.here, (grown.members r).mpr (.inr ?_)⟩
      rw [Mem.memoryOf, there]
      exact member
    · exact ⟨q, pool, (grown.pools q same).trans there, member⟩
  · rintro ⟨q, pool, there, member⟩
    by_cases same : q = p
    · subst q
      rw [grown.here] at there
      obtain rfl := Option.some.inj there
      obtain ⟨pool₀, here₀, member₀⟩ := m.mem_memoryOf (((grown.members r).mp member).resolve_left new)
      exact ⟨p, pool₀, here₀, member₀⟩
    · rw [grown.pools q same] at there
      exact ⟨q, pool, there, member⟩

theorem all_valid (sound : m.Sound) (valid : pool'.Valid m' p) (there : m'.pools q = some pool) :
    pool.Valid m' q := by
  by_cases same : q = p
  · subst q
    rw [grown.here] at there
    obtain rfl := Option.some.inj there
    exact valid
  · rw [grown.pools q same] at there
    apply (sound.valid q pool there).congr
    · intro r member
      exact grown.regions r (Nat.ne_of_lt (sound.lt_of_mem there member))
    · exact grown.registered same

theorem all_apart (sound : m.Sound) {q' : PoolPtr} {pool₁ : Pool} (there : m'.pools q = some pool)
    (there' : m'.pools q' = some pool₁) (other : q ≠ q') :
    ∀ r ∈ pool.memory q, r ∉ pool₁.memory q' := by
  intro r member
  by_cases same : q = p
  · subst q
    rw [grown.here] at there
    obtain rfl := Option.some.inj there
    rw [grown.pools q' (Ne.symm other)] at there'
    intro inside
    exact grown.apart sound there' (Ne.symm other) r inside member
  · rw [grown.pools q same] at there
    by_cases same' : q' = p
    · subst q'
      rw [grown.here] at there'
      obtain rfl := Option.some.inj there'
      exact grown.apart sound there same r member
    · rw [grown.pools q' same'] at there'
      exact sound.apart q q' pool pool₁ there there' other r member

end Mem.Grown

/-- A pool gets one region more, or is made in it. -/
theorem Mem.Sound.extend (sound : m.Sound) {head size tail : Nat} {es : List MemEv}
    (known : p ≤ m.next) (memory : (pool'.memory p).Perm (m.next :: m.memoryOf p))
    (quiet : ∀ e ∈ es, ∃ f, e = .registered p f)
    (grown : m' = { (m.malloc head size tail).setPool p (some pool') with trace := es ++ m.trace })
    (valid : pool'.Valid m' p) : m'.Sound := by
  have grown : m.Grown m' p pool' es := .of_eq memory quiet grown
  constructor
  · intro r high
    rw [grown.next] at high
    have later : m.next < r := high
    rw [grown.regions r (Nat.ne_of_gt later),
      grown.pools r (Nat.ne_of_gt (Nat.lt_of_le_of_lt known later))]
    exact sound.fresh r (Nat.le_of_lt later)
  · intro r high
    rw [grown.next] at high
    have later : m.next < r := high
    rw [grown.registered (Nat.ne_of_gt (Nat.lt_of_le_of_lt known later)), grown.freed r]
    exact sound.later r (Nat.le_of_lt later)
  · exact grown.live_iff sound
  · exact fun q pool there => grown.all_valid sound valid there
  · exact fun q q' pool pool₁ there there' other => grown.all_apart sound there there' other
  · rw [grown.faults]
    exact sound.faults
  · intro r member
    rw [grown.freed] at member
    have old : r ≠ m.next := by
      rintro rfl
      exact (sound.later m.next (Nat.le_refl _)).2 member
    rw [grown.regions r old]
    exact sound.gone r member
  · intro r below
    rw [grown.next] at below
    rw [grown.freed]
    by_cases new : r = m.next
    · rw [new]
      exact .inl grown.fresh
    · rw [grown.regions r new]
      exact sound.kept r (Nat.lt_of_le_of_ne (Nat.le_of_lt_succ below) new)
  · rw [grown.freedRegions]
    exact sound.once

theorem setPool_self (o : Option Pool) : (m.setPool p o).pools p = o := Function.update_self _ _ _

theorem setPool_other (other : q ≠ p) (o : Option Pool) : (m.setPool p o).pools q = m.pools q :=
  Function.update_of_ne other _ _

/-- A pool is written back with the regions that it had. -/
theorem Mem.Sound.refit (sound : m.Sound) (here : m.pools p = some pool)
    (cleanup : pool'.cleanup = pool.cleanup) (valid : pool'.Valid m p) :
    (m.setPool p (some pool')).Sound := by
  have memory : pool'.memory p = pool.memory p := by rw [Pool.memory, cleanup, Pool.memory]
  have pools : ∀ q pool₁, (m.setPool p (some pool')).pools q = some pool₁ →
      ∃ pool₀, m.pools q = some pool₀ ∧ pool₁.memory q = pool₀.memory q ∧ pool₁.Valid m q := by
    intro q pool₁ there
    by_cases same : q = p
    · subst q
      rw [setPool_self] at there
      obtain rfl := Option.some.inj there
      exact ⟨pool, here, memory, valid⟩
    · rw [setPool_other same] at there
      exact ⟨pool₁, there, rfl, sound.valid q pool₁ there⟩
  have back : ∀ q pool₀, m.pools q = some pool₀ →
      ∃ pool₁, (m.setPool p (some pool')).pools q = some pool₁ ∧ pool₁.memory q = pool₀.memory q := by
    intro q pool₀ there
    by_cases same : q = p
    · subst q
      rw [here] at there
      obtain rfl := Option.some.inj there
      exact ⟨pool', Function.update_self _ _ _, memory⟩
    · exact ⟨pool₀, (Function.update_of_ne same _ _).trans there, rfl⟩
  constructor
  · intro r high
    refine ⟨(sound.fresh r high).1, ?_⟩
    have other : r ≠ p := by
      rintro rfl
      rw [(sound.fresh r high).2] at here
      cases here
    exact (Function.update_of_ne other _ _).trans (sound.fresh r high).2
  · exact sound.later
  · intro r
    constructor
    · intro live
      obtain ⟨q, pool₀, there, member⟩ := (sound.live r).mp live
      obtain ⟨pool₁, there', same⟩ := back q pool₀ there
      exact ⟨q, pool₁, there', same ▸ member⟩
    · rintro ⟨q, pool₁, there, member⟩
      obtain ⟨pool₀, there', same, _⟩ := pools q pool₁ there
      exact (sound.live r).mpr ⟨q, pool₀, there', same ▸ member⟩
  · intro q pool₁ there
    obtain ⟨_, _, _, valid₁⟩ := pools q pool₁ there
    exact valid₁.congr (fun _ _ => rfl) rfl
  · intro q q' pool₁ pool₂ there there' other r member
    obtain ⟨pool₀, old, same, _⟩ := pools q pool₁ there
    obtain ⟨pool₀', old', same', _⟩ := pools q' pool₂ there'
    rw [same] at member
    rw [same']
    exact sound.apart q q' pool₀ pool₀' old old' other r member
  · exact sound.faults
  · exact sound.gone
  · exact sound.kept
  · exact sound.once

/-- The region of a fresh tracker is one more. -/
theorem memory_append (t : Pfree) (cleanup : pool'.cleanup = pool.cleanup ++ [t])
    (here : m.pools p = some pool) : (pool'.memory p).Perm (t.region :: m.memoryOf p) := by
  rw [Mem.memoryOf, here, Pool.memory, cleanup, List.map_append]
  have perm : ((p :: pool.cleanup.map Pfree.region) ++ t.region :: []).Perm
      (t.region :: ((p :: pool.cleanup.map Pfree.region) ++ [])) := List.perm_middle
  rw [List.append_nil] at perm
  exact perm

theorem Pfree.Kind.cleaner_of_heap {t : Pfree} (kind : t.Kind) (mark : t.heap = true) :
    t.cleaner = none := by
  cases kind with
  | memory frees =>
    rcases frees with rfl | rfl
    · rfl
    · rfl
  | caller r f => cases mark

section Appended

variable {t : Pfree} {head room size : Nat} (sound : m.Sound) (here : m.pools p = some pool)
  (place : t.region = m.next) (mark : t.heap = true) (cleanup : pool'.cleanup = pool.cleanup ++ [t])
include sound here

theorem store_below {r : RegionPtr} (member : r ∈ pool.stores p) : r < m.next :=
  sound.lt_of_mem here (Pool.memory_of_store member)

theorem kept_malloc (tail : Nat) : pool.Valid ((m.malloc head room tail).setPool p (some pool')) p :=
  (sound.valid p pool here).congr
    (fun _ member => Function.update_of_ne (Nat.ne_of_lt (sound.lt_of_mem here member)) _ _) rfl

omit sound here in
include place mark cleanup in
theorem mem_stores_append {r : RegionPtr} :
    r ∈ pool'.stores p ↔ r ∈ pool.stores p ∨ r = m.next := by
  have stores : pool'.stores p = pool.stores p ++ [m.next] := by
    rw [Pool.stores, cleanup, List.filter_append, List.filter_cons_of_pos mark, List.map_append, ← place]
    rfl
  rw [stores, List.mem_append, List.mem_singleton]

include place mark cleanup in
/-- The heap is the old one, or lies in the new region. -/
theorem appended_heap (blocks : pool'.blocks = ⟨m.next, head, size⟩ :: pool.blocks)
    (aligned : head % 8 = 0)
    (heap : pool'.heap = pool.heap ∨ pool'.heap = some ⟨m.next, head, room, size⟩) {h : Pheap}
    (given : pool'.heap = some h) :
    h.Valid ((m.malloc head room sizeofPfree).setPool p (some pool')) (pool'.stores p)
      pool'.blocks := by
  have stores := @mem_stores_append m p pool pool' t place mark cleanup
  have new : ((m.malloc head room sizeofPfree).setPool p (some pool')).regions m.next =
      ⟨head + room + sizeofPfree, head, sizeofPfree, true⟩ := Function.update_self _ _ _
  rw [blocks]
  rcases heap with same | same
  · rw [same] at given
    have kept : pool.Valid ((m.malloc head room sizeofPfree).setPool p (some pool')) p :=
      kept_malloc sound here sizeofPfree
    have old := kept.heap h given
    refine ⟨stores.mpr (.inl old.known), old.head, old.room, old.aligned, ?_⟩
    intro b member inside
    rcases List.mem_cons.mp member with rfl | member
    · exact absurd inside (Nat.ne_of_gt (store_below sound here old.known))
    · exact old.used b member inside
  · rw [same] at given
    obtain rfl := Option.some.inj given
    refine ⟨stores.mpr (.inr rfl), by rw [new], by rw [new], aligned, ?_⟩
    intro b member inside
    rcases List.mem_cons.mp member with rfl | member
    · exact Nat.le_refl _
    · have known := (sound.valid p pool here).known b member
      exact absurd inside (Nat.ne_of_lt (store_below sound here known))

include place mark cleanup in
/-- A region is appended and the block at its front is given away. -/
theorem appended_valid (kind : t.Kind)
    (blocks : pool'.blocks = ⟨m.next, head, size⟩ :: pool.blocks) (fits : size ≤ room)
    (aligned : head % 8 = 0)
    (heap : pool'.heap = pool.heap ∨ pool'.heap = some ⟨m.next, head, room, size⟩)
    (total : pool'.size = pool.size + BitVec.ofNat 32 room) :
    pool'.Valid ((m.malloc head room sizeofPfree).setPool p (some pool')) p := by
  have valid := sound.valid p pool here
  have kept : pool.Valid ((m.malloc head room sizeofPfree).setPool p (some pool')) p :=
    kept_malloc sound here sizeofPfree
  have stores := @mem_stores_append m p pool pool' t place mark cleanup
  have perm := memory_append t cleanup here
  have old : m.memoryOf p = pool.memory p := by
    rw [Mem.memoryOf, here]
    rfl
  rw [old, place] at perm
  have new : ((m.malloc head room sizeofPfree).setPool p (some pool')).regions m.next =
      ⟨head + room + sizeofPfree, head, sizeofPfree, true⟩ := Function.update_self _ _ _
  constructor
  · rw [perm.nodup_iff, List.nodup_cons]
    exact ⟨fun member => Nat.lt_irrefl _ (sound.lt_of_mem here member), valid.nodup⟩
  · rw [cleanup]
    intro s member
    rcases List.mem_append.mp member with member | member
    · exact valid.kinds s member
    · rw [List.mem_singleton.mp member]
      exact kind
  · rw [cleanup, List.pairwise_append]
    refine ⟨valid.order, List.pairwise_singleton _ _, ?_⟩
    intro s _ t' member front
    rw [List.mem_singleton.mp member, mark] at front
    cases front
  · exact fun h given => appended_heap sound here place mark cleanup blocks aligned heap given
  · rw [blocks]
    intro b member
    rcases List.mem_cons.mp member with rfl | member
    · exact stores.mpr (.inr rfl)
    · exact stores.mpr (.inl (valid.known b member))
  · rw [blocks]
    intro b member
    rcases List.mem_cons.mp member with rfl | member
    · constructor
      · rw [new]
      · rw [new]
        change head + size + sizeofPfree ≤ head + room + sizeofPfree
        omega
      · exact fun _ => aligned
    · exact kept.inside b member
  · rw [blocks, List.pairwise_cons]
    refine ⟨?_, valid.apart⟩
    intro b member same
    exact absurd same (Nat.ne_of_gt (store_below sound here (valid.known b member)))
  · rw [(perm.map _).sum_nat, List.map_cons, List.sum_cons, BitVec.ofNat_add, ← kept.size, new, total]
    have payload : Region.payload ⟨head + room + sizeofPfree, head, sizeofPfree, true⟩ = room := by
      change head + room + sizeofPfree - head - sizeofPfree = room
      omega
    rw [payload, BitVec.add_comm]
  · rw [cleanup, List.filterMap_append, List.filterMap_cons_none (kind.cleaner_of_heap mark),
      List.filterMap_nil, List.append_nil]
    exact kept.cleaners

end Appended

end Steps

section Requests

variable {m : Mem} {p : PoolPtr} {pool : Pool} {size : Nat}

/-- Every access of `pmalloc` is one to living memory. -/
theorem cleanupAppend_eq (sound : m.Sound) (here : m.pools p = some pool) (head room tail : Nat)
    (pool' : Pool) (cleanup : pool'.cleanup = pool.cleanup) (pf : Pfree) :
    cleanupAppend (m.malloc head room tail) pool' pf =
      ({ pool' with cleanup := pool.cleanup ++ [pf] }, m.malloc head room tail) := by
  rw [cleanupAppend, cleanup]
  congr 1
  apply touches_of_live
  intro t member
  have there := Pool.memory_of_tracker member p
  have below := sound.lt_of_mem here there
  change (Function.update m.regions m.next _ t.region).live = true
  rw [Function.update_of_ne (Nat.ne_of_lt below)]
  exact sound.live_of_mem here there

/-- What `pmalloc` can do: a region of its own, a new heap, or what the heap still has. -/
inductive Served (m : Mem) (pool : Pool) (size : Nat) : Block × Pool × Mem → Prop
  | raw : Served m pool size (⟨m.next, 0, size⟩,
      { pool with
        size := pool.size + BitVec.ofNat 32 size
        cleanup := pool.cleanup ++ [⟨m.next, .poolFree m.next, true⟩] },
      m.malloc 0 size sizeofPfree)
  | fresh {h : Pheap} (fits : size ≤ h.size) : Served m pool size (⟨m.next, sizeofPheap, size⟩,
      { pool with
        size := pool.size + BitVec.ofNat 32 h.size
        cleanup := pool.cleanup ++ [⟨m.next, .heapFree m.next, true⟩]
        heap := some ⟨m.next, sizeofPheap, h.size, size⟩ },
      m.malloc sizeofPheap h.size sizeofPfree)
  | taken {h : Pheap} {used : Nat} (heap : pool.heap = some h) (later : h.used ≤ used)
      (even : 4 ≤ size → used % 8 = 0) (fits : used + size ≤ h.size) :
      Served m pool size (⟨h.region, h.offset + used, size⟩,
        { pool with heap := some { h with used := used + size } }, m)

theorem le_aligned (used : Nat) : used ≤ aligned used := by
  unfold aligned
  omega

theorem aligned_mod (used : Nat) : aligned used % 8 = 0 := Nat.mul_mod_left _ _

/-- What a heap still has is given away behind everything else in it. -/
theorem Pool.Valid.take (valid : pool.Valid m p) {h : Pheap} (heap : pool.heap = some h) {used : Nat}
    (later : h.used ≤ used) (even : 4 ≤ size → used % 8 = 0) (fits : used + size ≤ h.size) :
    ({ pool with
        heap := some { h with used := used + size }
        blocks := ⟨h.region, h.offset + used, size⟩ :: pool.blocks } : Pool).Valid m p := by
  have old := valid.heap h heap
  constructor
  · exact valid.nodup
  · exact valid.kinds
  · exact valid.order
  · intro h' given
    obtain rfl := Option.some.inj given
    constructor
    · exact old.known
    · exact old.head
    · exact old.room
    · exact old.aligned
    · intro b member inside
      change b.offset + b.size ≤ h.offset + (used + size)
      rcases List.mem_cons.mp member with rfl | member
      · exact Nat.le_of_eq (Nat.add_assoc _ _ _)
      · have before := old.used b member inside
        omega
  · intro b member
    rcases List.mem_cons.mp member with rfl | member
    · exact old.known
    · exact valid.known b member
  · intro b member
    rcases List.mem_cons.mp member with rfl | member
    · have room := old.room
      constructor
      · change (m.regions h.region).head ≤ h.offset + used
        rw [old.head]
        exact Nat.le_add_right _ _
      · change h.offset + used + size + (m.regions h.region).tail ≤ (m.regions h.region).size
        omega
      · intro big
        change (h.offset + used) % 8 = 0
        have start := old.aligned
        have mult := even big
        omega
    · exact valid.inside b member
  · apply List.pairwise_cons.mpr
    refine ⟨?_, valid.apart⟩
    intro b member same
    have before := old.used b member same.symm
    right
    change b.offset + b.size ≤ h.offset + used
    omega
  · exact valid.size
  · exact valid.cleaners

theorem pmallocRaw_served (sound : m.Sound) (here : m.pools p = some pool) (size : Nat) :
    Served m pool size (pmallocRaw m pool size) := by
  rw [pmallocRaw, cleanupAppend_eq sound here _ _ _ { pool with size := pool.size + BitVec.ofNat 32 size } rfl]
  exact .raw

theorem pmallocHeap_served (sound : m.Sound) (here : m.pools p = some pool) {h : Pheap}
    (heap : pool.heap = some h) (half : size ≤ h.size / 2) :
    Served m pool size (pmallocHeap m pool h size) := by
  have live := sound.live_of_mem here
    (Pool.memory_of_store ((sound.valid p pool here).heap h heap).known)
  have later : h.used ≤ if 4 ≤ size then aligned h.used else h.used := by
    split
    · exact le_aligned _
    · exact Nat.le_refl _
  have even : 4 ≤ size → (if 4 ≤ size then aligned h.used else h.used) % 8 = 0 := by
    intro big
    rw [if_pos big]
    exact aligned_mod _
  rw [pmallocHeap, touch_of_live live]
  generalize (if 4 ≤ size then aligned h.used else h.used) = used at later even ⊢
  dsimp only
  split
  · rw [poolHeap]
    dsimp only
    rw [cleanupAppend_eq sound here _ _ _ { pool with size := pool.size + BitVec.ofNat 32 h.size } rfl]
    exact .fresh (by omega)
  · rename_i fits
    exact .taken heap later even (Nat.not_lt.mp fits)

theorem pmallocFrom_served (sound : m.Sound) (here : m.pools p = some pool) (size : Nat) :
    Served m pool size (pmallocFrom m pool size) := by
  unfold pmallocFrom
  split
  · exact pmallocRaw_served sound here size
  · rename_i h heap
    split
    · exact pmallocRaw_served sound here size
    · rename_i half
      exact pmallocHeap_served sound here heap (Nat.not_lt.mp half)

/-- The block becomes one of the pool. -/
def given (p : PoolPtr) (served : Block × Pool × Mem) : Mem :=
  served.2.2.setPool p (some { served.2.1 with blocks := served.1 :: served.2.1.blocks })

theorem given_sound (sound : m.Sound) (here : m.pools p = some pool) {served : Block × Pool × Mem}
    (way : Served m pool size served) : (given p served).Sound := by
  have valid := sound.valid p pool here
  have known : p ≤ m.next := Nat.le_of_lt (sound.lt_of_mem here (pool.mem_memory p))
  cases way with
  | raw =>
    apply sound.extend known _ (List.forall_mem_nil _) rfl
    · exact appended_valid sound here rfl rfl rfl (.memory (.inl rfl)) rfl (Nat.le_refl _) rfl (.inl rfl) rfl
    · exact memory_append ⟨m.next, .poolFree m.next, true⟩ rfl here
  | fresh fits =>
    apply sound.extend known _ (List.forall_mem_nil _) rfl
    · exact appended_valid sound here rfl rfl rfl (.memory (.inr rfl)) rfl fits rfl (.inr rfl) rfl
    · exact memory_append ⟨m.next, .heapFree m.next, true⟩ rfl here
  | taken heap later even fits => exact sound.refit here rfl (valid.take heap later even fits)

theorem pmalloc_eq (sound : m.Sound) (here : m.pools p = some pool) (size : Nat) :
    pmalloc m p size =
      some ((pmallocFrom m pool size).1, given p (pmallocFrom m pool size)) := by
  unfold pmalloc
  rw [here, Option.map_some, touch_of_live (sound.live_of_mem here (pool.mem_memory p))]
  rfl

theorem pmalloc_sound (sound : m.Sound) (here : m.pools p = some pool) (size : Nat) :
    ∃ b m', pmalloc m p size = some (b, m') ∧ m'.Sound :=
  ⟨_, _, pmalloc_eq sound here size, given_sound sound here (pmallocFrom_served sound here size)⟩

end Requests

section Pools

variable {m : Mem} {p : PoolPtr} {pool : Pool}

/-- A pool that is made has one region and gave nothing away. -/
theorem made_valid (sound : m.Sound) {head room : Nat} {heap : Option Pheap}
    (given : ∀ h, heap = some h → h = ⟨m.next, head, room, 0⟩) (aligned : head % 8 = 0) :
    ({ size := BitVec.ofNat 32 room, cleanup := [], heap := heap, blocks := [] } : Pool).Valid
      ((m.malloc head room 0).setPool m.next
        (some { size := BitVec.ofNat 32 room, cleanup := [], heap := heap, blocks := [] })) m.next := by
  have new : ((m.malloc head room 0).setPool m.next
      (some { size := BitVec.ofNat 32 room, cleanup := [], heap := heap, blocks := [] })).regions m.next =
      ⟨head + room + 0, head, 0, true⟩ := Function.update_self _ _ _
  constructor
  · exact List.nodup_singleton _
  · nofun
  · exact List.Pairwise.nil
  · intro h some_
    rw [given h some_]
    constructor
    · exact List.mem_cons_self
    · rw [new]
    · rw [new]
    · exact aligned
    · nofun
  · nofun
  · nofun
  · exact List.Pairwise.nil
  · change _ = BitVec.ofNat 32 (List.sum [Region.payload _])
    rw [new, List.sum_singleton]
    change _ = BitVec.ofNat 32 (head + room + 0 - head - 0)
    rw [show head + room + 0 - head - 0 = room by omega]
  · exact (sound.later m.next (Nat.le_refl _)).1.symm

theorem make_sound (sound : m.Sound) {head room : Nat} {heap : Option Pheap}
    (given : ∀ h, heap = some h → h = ⟨m.next, head, room, 0⟩) (aligned : head % 8 = 0) :
    ((m.malloc head room 0).setPool m.next
      (some { size := BitVec.ofNat 32 room, cleanup := [], heap := heap, blocks := [] })).Sound := by
  apply sound.extend (Nat.le_refl _) _ (List.forall_mem_nil _) rfl (made_valid sound given aligned)
  have none : m.memoryOf m.next = [] := by
    rw [Mem.memoryOf, (sound.fresh m.next (Nat.le_refl _)).2]
    rfl
  rw [none]
  exact .refl _

theorem poolNew_sound (sound : m.Sound) : (poolNew m).2.Sound :=
  make_sound sound nofun rfl

theorem poolHeapNew_sound (sound : m.Sound) (size : Nat) : (poolHeapNew m size).2.Sound := by
  apply make_sound sound _ rfl
  intro h some_
  exact (Option.some.inj some_).symm

/-- The new tracker stands in front, and so does its cleaner. -/
theorem poolCleanup_sound (sound : m.Sound) (here : m.pools p = some pool) (f : Nat) :
    (poolCleanup m p f).Sound := by
  have valid := sound.valid p pool here
  have below : ∀ r ∈ pool.memory p, r < m.next := fun r member => sound.lt_of_mem here member
  have known : p < m.next := below p (pool.mem_memory p)
  have alive : ((m.malloc sizeofPfree 0 0).regions p).live = true := by
    change (Function.update m.regions m.next _ p).live = true
    rw [Function.update_of_ne (Nat.ne_of_lt known)]
    exact sound.live_of_mem here (pool.mem_memory p)
  let clean : Pfree := ⟨m.next, .caller f, false⟩
  let pool' : Pool := { pool with cleanup := clean :: pool.cleanup }
  have result : poolCleanup m p f =
      { (m.malloc sizeofPfree 0 0).setPool p (some pool') with trace := [.registered p f] ++ m.trace } := by
    rw [poolCleanup, here]
    dsimp only
    rw [touch_of_live alive]
    rfl
  have memory : pool'.memory p = p :: m.next :: pool.cleanup.map Pfree.region := rfl
  have old : m.memoryOf p = pool.memory p := by
    rw [Mem.memoryOf, here]
    rfl
  have perm : (pool'.memory p).Perm (m.next :: pool.memory p) := by
    rw [memory]
    exact .swap _ _ _
  apply sound.extend (Nat.le_of_lt known) (old ▸ perm) _ result
  · rw [result]
    let m' : Mem :=
      { (m.malloc sizeofPfree 0 0).setPool p (some pool') with trace := [.registered p f] ++ m.trace }
    have regions : ∀ r ∈ pool.memory p, m'.regions r = m.regions r :=
      fun r member => Function.update_of_ne (Nat.ne_of_lt (below r member)) _ _
    have new : m'.regions m.next = ⟨sizeofPfree, sizeofPfree, 0, true⟩ := Function.update_self _ _ _
    have registered : m'.registered p = f :: m.registered p := by
      have first : (MemEv.registered p f).cleanerOf p = some f := if_pos rfl
      change (MemEv.registered p f :: m.trace).filterMap _ = _
      rw [List.filterMap_cons_some first]
      rfl
    change pool'.Valid m' p
    constructor
    · rw [perm.nodup_iff, List.nodup_cons]
      exact ⟨fun member => Nat.lt_irrefl _ (below _ member), valid.nodup⟩
    · intro t member
      rcases List.mem_cons.mp member with rfl | member
      · exact .caller _ _
      · exact valid.kinds t member
    · exact List.pairwise_cons.mpr ⟨fun _ _ _ => rfl, valid.order⟩
    · intro h given
      have old := valid.heap h given
      exact old.congr (regions h.region (Pool.memory_of_store old.known)) old.known
    · exact valid.known
    · intro b member
      exact (valid.inside b member).congr (regions b.region (Pool.memory_of_store (valid.known b member)))
    · exact valid.apart
    · rw [(perm.map _).sum_nat, List.map_cons, List.sum_cons, new]
      have payloads : (pool.memory p).map (fun r => (m'.regions r).payload) =
          (pool.memory p).map fun r => (m.regions r).payload :=
        List.map_congr_left fun r member => congrArg Region.payload (regions r member)
      rw [payloads]
      have none : Region.payload ⟨sizeofPfree, sizeofPfree, 0, true⟩ = 0 := rfl
      rw [none, Nat.zero_add]
      exact valid.size
    · rw [registered]
      change f :: pool.cleanup.filterMap Pfree.cleaner = _
      rw [valid.cleaners]
  · intro e member
    exact ⟨f, List.mem_singleton.mp member⟩

end Pools

section Freeing

variable {m : Mem} {p : PoolPtr} {pool : Pool}

/-- What `pool_free` does for a tracker. -/
def Pfree.events (p : PoolPtr) (t : Pfree) : List MemEv :=
  match t.f with
  | .caller f => [.called p f, .freed t.region]
  | _ => [.freed t.region]

/-- The regions of a list are gone. -/
def Mem.kill (m : Mem) (l : List RegionPtr) : RegionPtr → Region :=
  fun r => if r ∈ l then { m.regions r with live := false } else m.regions r

theorem kill_nil (m : Mem) : m.kill [] = m.regions := by
  funext r
  exact if_neg (List.not_mem_nil)

theorem free_eq (live : (m.regions r).live = true) :
    m.free r = { m with regions := m.kill [r], trace := .freed r :: m.trace } := by
  unfold Mem.free
  rw [touch_of_live live]
  have killed : Function.update m.regions r { m.regions r with live := false } = m.kill [r] := by
    funext r'
    by_cases same : r' = r
    · subst r'
      rw [Function.update_self, Mem.kill, if_pos (List.mem_singleton.mpr rfl)]
    · rw [Function.update_of_ne same, Mem.kill, if_neg (List.mem_singleton.not.mpr same)]
  rw [killed]
  rfl

/-- A tracker is still there when it is read, and its region goes behind its cleaner. -/
theorem freeOne_eq {t : Pfree} (kind : t.Kind) (live : (m.regions t.region).live = true) :
    (if t.heap then runCleaner (m.touch t.region) p t.f
      else (runCleaner (m.touch t.region) p t.f).free t.region) =
      { m with regions := m.kill [t.region], trace := (t.events p).reverse ++ m.trace } := by
  rw [touch_of_live live]
  cases kind with
  | memory frees =>
    rcases frees with rfl | rfl
    · exact free_eq live
    · exact free_eq live
  | caller r f => exact free_eq (m := m.emit (.called p f)) live

/-- The induction is on the trackers. Those behind are not touched before their turn,
as no two of them lie in one region. -/
theorem poolFreeLoop_eq {l : List Pfree} (kinds : ∀ t ∈ l, t.Kind) (nodup : (l.map Pfree.region).Nodup)
    (live : ∀ t ∈ l, (m.regions t.region).live = true) :
    poolFreeLoop p l m =
      { m with
        regions := m.kill (l.map Pfree.region)
        trace := (l.flatMap (Pfree.events p)).reverse ++ m.trace } := by
  induction l generalizing m with
  | nil =>
    rw [List.map_nil, kill_nil]
    rfl
  | cons t l ih =>
    rw [List.map_cons, List.nodup_cons] at nodup
    rw [poolFreeLoop]
    rw [freeOne_eq (kinds t List.mem_cons_self) (live t List.mem_cons_self), ih]
    · congr 1
      · funext r
        unfold Mem.kill
        by_cases first : r = t.region
        · subst r
          simp [nodup.1]
        · simp [first]
      · rw [List.flatMap_cons, List.reverse_append, List.append_assoc]
    · exact fun t member => kinds t (List.mem_cons_of_mem _ member)
    · exact nodup.2
    · intro s member
      have other : s.region ≠ t.region := by
        intro same
        exact nodup.1 (same ▸ List.mem_map_of_mem member)
      change (m.kill [t.region] s.region).live = true
      rw [Mem.kill, if_neg (List.mem_singleton.not.mpr other)]
      exact live s (List.mem_cons_of_mem _ member)

/-- `pool_free` as a whole: the cleaners, the memory and last the pool itself. -/
theorem poolFree_eq (sound : m.Sound) (here : m.pools p = some pool) :
    poolFree m p =
      { m with
        regions := m.kill (pool.memory p)
        pools := Function.update m.pools p none
        trace := .freed p :: (pool.cleanup.flatMap (Pfree.events p)).reverse ++ m.trace } := by
  have valid := sound.valid p pool here
  have alive := sound.live_of_mem here (pool.mem_memory p)
  have nodup := List.nodup_cons.mp valid.nodup
  have looped := poolFreeLoop_eq (m := m) (p := p) valid.kinds nodup.2
    (fun t member => sound.live_of_mem here (Pool.memory_of_tracker member p))
  rw [poolFree, here]
  dsimp only
  rw [touch_of_live alive, looped, free_eq]
  · unfold Mem.setPool
    congr 1
    funext r
    unfold Mem.kill Pool.memory
    by_cases first : r = p
    · subst r
      simp [nodup.1]
    · simp [first]
  · change (m.kill _ p).live = true
    rw [Mem.kill, if_neg nodup.1]
    exact alive

theorem freedRegion_events (p : PoolPtr) (l : List Pfree) (kinds : ∀ t ∈ l, t.Kind) :
    (l.flatMap (Pfree.events p)).filterMap MemEv.freedRegion = l.map Pfree.region := by
  induction l with
  | nil => rfl
  | cons t l ih =>
    have rest := ih fun s member => kinds s (List.mem_cons_of_mem _ member)
    rw [List.flatMap_cons, List.filterMap_append, rest]
    cases kinds t List.mem_cons_self with
    | memory frees =>
      rcases frees with rfl | rfl
      · rfl
      · rfl
    | caller r f => rfl

theorem callOf_events (p : PoolPtr) (l : List Pfree) :
    (l.flatMap (Pfree.events p)).filterMap (MemEv.callOf p) = l.filterMap Pfree.cleaner := by
  induction l with
  | nil => rfl
  | cons t l ih =>
    rw [List.flatMap_cons, List.filterMap_append, ih]
    obtain ⟨r, f, heap⟩ := t
    cases f with
    | poolFree r' => rfl
    | heapFree r' => rfl
    | caller f =>
      have call : (MemEv.called p f).callOf p = some f := if_pos rfl
      change List.filterMap _ [MemEv.called p f, MemEv.freed r] ++ _ = f :: _
      rw [List.filterMap_cons_some call]
      rfl

theorem cleanerOf_events (p q : PoolPtr) (l : List Pfree) :
    (l.flatMap (Pfree.events p)).filterMap (MemEv.cleanerOf q) = [] := by
  apply List.filterMap_eq_nil_iff.mpr
  intro e member
  obtain ⟨⟨r, f, heap⟩, _, here⟩ := List.mem_flatMap.mp member
  cases f with
  | poolFree r' =>
    rw [List.mem_singleton.mp here]
    rfl
  | heapFree r' =>
    rw [List.mem_singleton.mp here]
    rfl
  | caller f =>
    rcases List.mem_cons.mp here with rfl | here
    · rfl
    · rw [List.mem_singleton.mp here]
      rfl

/-- What `pool_free` frees is the memory of the pool, every region once. -/
theorem freedRegion_poolFree (sound : m.Sound) (here : m.pools p = some pool) :
    (poolFree m p).trace.filterMap MemEv.freedRegion =
      (p :: (pool.cleanup.map Pfree.region).reverse) ++ m.trace.filterMap MemEv.freedRegion := by
  rw [poolFree_eq sound here]
  change (.freed p :: (pool.cleanup.flatMap (Pfree.events p)).reverse ++ m.trace).filterMap _ = _
  have own : (MemEv.freed p).freedRegion = some p := rfl
  rw [List.cons_append, List.filterMap_cons_some own, List.filterMap_append, List.filterMap_reverse,
    freedRegion_events p _ (sound.valid p pool here).kinds]
  rfl

theorem mem_freedRegion {l : List MemEv} {r : RegionPtr} :
    r ∈ l.filterMap MemEv.freedRegion ↔ .freed r ∈ l := by
  rw [List.mem_filterMap]
  constructor
  · rintro ⟨e, member, freed⟩
    cases e with
    | freed r' =>
      rw [← Option.some.inj freed]
      exact member
    | registered q f => cases freed
    | called q f => cases freed
  · intro member
    exact ⟨_, member, rfl⟩

theorem count_freed (l : List MemEv) (r : RegionPtr) :
    l.count (.freed r) = (l.filterMap MemEv.freedRegion).count r := by
  rw [List.count_filterMap, List.count]
  apply List.countP_congr
  intro e _
  cases e with
  | freed r' => simp [MemEv.freedRegion]
  | registered q f => simp [MemEv.freedRegion]
  | called q f => simp [MemEv.freedRegion]

/-- The pool is gone with its regions, and the trace tells so. -/
structure Mem.Shrunk (m m' : Mem) (p : PoolPtr) (pool : Pool) : Prop where
  next : m'.next = m.next
  registered : ∀ q, m'.registered q = m.registered q
  gone : ∀ r, .freed r ∈ m'.trace ↔ r ∈ pool.memory p ∨ .freed r ∈ m.trace
  regions : ∀ r, r ∉ pool.memory p → m'.regions r = m.regions r
  dead : ∀ r ∈ pool.memory p, (m'.regions r).live = false
  pools : ∀ q pool', m'.pools q = some pool' ↔ q ≠ p ∧ m.pools q = some pool'

theorem poolFree_shrunk (sound : m.Sound) (here : m.pools p = some pool) :
    m.Shrunk (poolFree m p) p pool := by
  have freed := freedRegion_poolFree sound here
  constructor
  · rw [poolFree_eq sound here]
  · intro q
    rw [poolFree_eq sound here]
    change (.freed p :: (pool.cleanup.flatMap (Pfree.events p)).reverse ++ m.trace).filterMap _ = _
    have own : (MemEv.freed p).cleanerOf q = none := rfl
    rw [List.cons_append, List.filterMap_cons_none own, List.filterMap_append, List.filterMap_reverse,
      cleanerOf_events]
    rfl
  · intro r
    rw [← mem_freedRegion, freed, List.mem_append, mem_freedRegion, Pool.memory, List.mem_cons,
      List.mem_cons, List.mem_reverse]
  · intro r other
    rw [poolFree_eq sound here]
    exact if_neg other
  · intro r member
    rw [poolFree_eq sound here]
    change (m.kill _ r).live = false
    rw [Mem.kill, if_pos member]
  · intro q pool'
    rw [poolFree_eq sound here]
    change Function.update m.pools p none q = some pool' ↔ _
    by_cases same : q = p
    · subst q
      simp
    · rw [Function.update_of_ne same]
      exact (and_iff_right same).symm

/-- Every region of another pool is left. -/
theorem Mem.Shrunk.live_iff {m' : Mem} (shrunk : m.Shrunk m' p pool) (sound : m.Sound)
    (here : m.pools p = some pool) (r : RegionPtr) :
    (m'.regions r).live = true ↔ ∃ q pool', m'.pools q = some pool' ∧ r ∈ pool'.memory q := by
  constructor
  · intro live
    have other : r ∉ pool.memory p := by
      intro member
      rw [shrunk.dead r member] at live
      cases live
    rw [shrunk.regions r other] at live
    obtain ⟨q, pool', there, member⟩ := (sound.live r).mp live
    have apart : q ≠ p := by
      rintro rfl
      rw [here] at there
      obtain rfl := Option.some.inj there
      exact other member
    exact ⟨q, pool', (shrunk.pools q pool').mpr ⟨apart, there⟩, member⟩
  · rintro ⟨q, pool', there, member⟩
    obtain ⟨apart, there⟩ := (shrunk.pools q pool').mp there
    rw [shrunk.regions r (sound.apart q p pool' pool there here apart r member)]
    exact sound.live_of_mem there member

/-- No region is freed again. -/
theorem poolFree_once (sound : m.Sound) (here : m.pools p = some pool) :
    ((poolFree m p).trace.filterMap MemEv.freedRegion).Nodup := by
  have nodup := List.nodup_cons.mp (sound.valid p pool here).nodup
  rw [freedRegion_poolFree sound here, List.nodup_append]
  refine ⟨?_, sound.once, ?_⟩
  · exact List.nodup_cons.mpr ⟨fun member => nodup.1 (List.mem_reverse.mp member),
      List.nodup_reverse.mpr nodup.2⟩
  · rintro r member r' old rfl
    have inside : r ∈ pool.memory p := by
      rcases List.mem_cons.mp member with rfl | member
      · exact pool.mem_memory _
      · exact List.mem_cons_of_mem _ (List.mem_reverse.mp member)
    have gone := sound.gone r (mem_freedRegion.mp old)
    rw [sound.live_of_mem here inside] at gone
    cases gone

theorem poolFree_sound (sound : m.Sound) (here : m.pools p = some pool) : (poolFree m p).Sound := by
  have shrunk := poolFree_shrunk sound here
  have below : ∀ r ∈ pool.memory p, r < m.next := fun r member => sound.lt_of_mem here member
  constructor
  · intro r high
    rw [shrunk.next] at high
    have other : r ∉ pool.memory p := fun member => Nat.not_lt.mpr high (below r member)
    rw [shrunk.regions r other]
    refine ⟨(sound.fresh r high).1, Option.eq_none_iff_forall_ne_some.mpr fun pool' there => ?_⟩
    have old := ((shrunk.pools r pool').mp there).2
    rw [(sound.fresh r high).2] at old
    cases old
  · intro r high
    rw [shrunk.next] at high
    rw [shrunk.registered r, shrunk.gone r]
    refine ⟨(sound.later r high).1, ?_⟩
    rintro (member | old)
    · exact Nat.not_lt.mpr high (below r member)
    · exact (sound.later r high).2 old
  · exact shrunk.live_iff sound here
  · intro q pool' there
    obtain ⟨apart, there⟩ := (shrunk.pools q pool').mp there
    apply (sound.valid q pool' there).congr
    · intro r member
      exact shrunk.regions r (sound.apart q p pool' pool there here apart r member)
    · exact shrunk.registered q
  · intro q q' pool₁ pool₂ there there' other
    exact sound.apart q q' pool₁ pool₂ ((shrunk.pools q pool₁).mp there).2
      ((shrunk.pools q' pool₂).mp there').2 other
  · rw [poolFree_eq sound here]
    exact sound.faults
  · intro r member
    by_cases inside : r ∈ pool.memory p
    · exact shrunk.dead r inside
    · rw [shrunk.regions r inside]
      exact sound.gone r (((shrunk.gone r).mp member).resolve_left inside)
  · intro r below'
    rw [shrunk.next] at below'
    rw [shrunk.gone r]
    by_cases inside : r ∈ pool.memory p
    · exact .inr (.inl inside)
    · rw [shrunk.regions r inside]
      exact (sound.kept r below').imp_right .inr
  · exact poolFree_once sound here

end Freeing

section Runs

/-- A pool that is named is one that was made and not freed. -/
def PoolOp.Ready (m : Mem) : PoolOp → Prop
  | .new | .newHeap _ => True
  | .malloc p _ | .cleanup p _ | .free p => (m.pools p).isSome

/-- What any calls of the library in any order lead to. -/
inductive Mem.Reachable : Mem → Prop
  | initial : Reachable .initial
  | step {m} (before : Reachable m) (op : PoolOp) (ready : op.Ready m) : Reachable (op.run m)

theorem Mem.Sound.initial : Mem.initial.Sound := by
  constructor
  · exact fun _ _ => ⟨rfl, rfl⟩
  · exact fun _ _ => ⟨rfl, List.not_mem_nil⟩
  · intro r
    constructor
    · nofun
    · rintro ⟨_, _, there, _⟩
      cases there
  · nofun
  · nofun
  · rfl
  · nofun
  · exact fun r below => absurd below (Nat.not_lt_zero r)
  · exact List.nodup_nil

theorem PoolOp.run_sound {m : Mem} (sound : m.Sound) (op : PoolOp) (ready : op.Ready m) :
    (op.run m).Sound := by
  cases op with
  | new => exact poolNew_sound sound
  | newHeap size => exact poolHeapNew_sound sound size
  | malloc p size =>
    obtain ⟨pool, here⟩ := Option.isSome_iff_exists.mp ready
    obtain ⟨b, m', served, sound'⟩ := pmalloc_sound sound here size
    rw [PoolOp.run, served]
    exact sound'
  | cleanup p f =>
    obtain ⟨pool, here⟩ := Option.isSome_iff_exists.mp ready
    exact poolCleanup_sound sound here f
  | free p =>
    obtain ⟨pool, here⟩ := Option.isSome_iff_exists.mp ready
    exact poolFree_sound sound here

theorem Mem.Reachable.sound {m : Mem} (reach : m.Reachable) : m.Sound := by
  induction reach with
  | initial => exact .initial
  | step _ op ready ih => exact op.run_sound ih ready

/-- A cleaner is called when its pool is freed, the newest first, and never before. -/
structure Mem.Settled (m : Mem) : Prop where
  here : ∀ p, (m.pools p).isSome = true → m.called p = []
  gone : ∀ p, m.pools p = none → m.called p = (m.registered p).reverse

theorem callOf_other {p q : PoolPtr} (other : q ≠ p) (l : List Pfree) :
    (l.flatMap (Pfree.events p)).filterMap (MemEv.callOf q) = [] := by
  apply List.filterMap_eq_nil_iff.mpr
  intro e member
  obtain ⟨⟨r, f, heap⟩, _, here⟩ := List.mem_flatMap.mp member
  cases f with
  | poolFree r' =>
    rw [List.mem_singleton.mp here]
    rfl
  | heapFree r' =>
    rw [List.mem_singleton.mp here]
    rfl
  | caller f =>
    rcases List.mem_cons.mp here with rfl | here
    · exact if_neg (Ne.symm other)
    · rw [List.mem_singleton.mp here]
      rfl

theorem none_of_isSome {o o' : Option Pool} (same : o'.isSome = o.isSome) (gone : o' = none) :
    o = none := by
  cases o with
  | none => rfl
  | some pool =>
    rw [gone] at same
    cases same

/-- A step that calls no cleaner: a pool that it makes has none, the others keep theirs. -/
theorem Mem.Settled.keep {m m' : Mem} (settled : m.Settled) (sound : m.Sound)
    (trace : m'.trace = m.trace)
    (pools : ∀ q, (m'.pools q).isSome = (m.pools q).isSome ∨ q = m.next) : m'.Settled := by
  have called : ∀ q, m'.called q = m.called q := fun q => congrArg (List.filterMap _) trace
  have registered : ∀ q, m'.registered q = m.registered q := fun q => congrArg (List.filterMap _) trace
  have none := settled.gone m.next (sound.fresh m.next (Nat.le_refl _)).2
  rw [(sound.later m.next (Nat.le_refl _)).1] at none
  constructor
  · intro q here
    rw [called]
    rcases pools q with same | rfl
    · exact settled.here q (same ▸ here)
    · exact none
  · intro q gone
    rw [called, registered]
    rcases pools q with same | rfl
    · exact settled.gone q (none_of_isSome same gone)
    · rw [none, (sound.later m.next (Nat.le_refl _)).1]

theorem isSome_update {m : Mem} {p : PoolPtr} {pool : Pool} (here : m.pools p = some pool)
    (pool' : Pool) (q : PoolPtr) :
    (Function.update m.pools p (some pool') q).isSome = (m.pools q).isSome := by
  by_cases same : q = p
  · subst q
    rw [Function.update_self, here]
    rfl
  · rw [Function.update_of_ne same]

theorem isSome_made {m : Mem} (pool : Pool) (q : PoolPtr) :
    (Function.update m.pools m.next (some pool) q).isSome = (m.pools q).isSome ∨ q = m.next := by
  by_cases same : q = m.next
  · exact .inr same
  · rw [Function.update_of_ne same]
    exact .inl rfl

theorem poolCleanup_settled {m : Mem} {p : PoolPtr} {pool : Pool} (sound : m.Sound)
    (settled : m.Settled) (here : m.pools p = some pool) (f : Nat) :
    (poolCleanup m p f).Settled := by
  have below := sound.lt_of_mem here (pool.mem_memory p)
  have touched : ((m.malloc sizeofPfree 0 0).touch p) = m.malloc sizeofPfree 0 0 := by
    apply touch_of_live
    change (Function.update m.regions m.next _ p).live = true
    rw [Function.update_of_ne (Nat.ne_of_lt below)]
    exact sound.live_of_mem here (pool.mem_memory p)
  have pools : ∀ q, ((poolCleanup m p f).pools q).isSome = (m.pools q).isSome := by
    intro q
    rw [poolCleanup, here]
    dsimp only
    rw [touched]
    exact isSome_update here _ q
  have trace : (poolCleanup m p f).trace = .registered p f :: m.trace := by
    rw [poolCleanup, here]
    dsimp only
    rw [touched]
    rfl
  have called : ∀ q, (poolCleanup m p f).called q = m.called q := by
    intro q
    unfold Mem.called
    rw [trace]
    exact List.filterMap_cons_none rfl
  constructor
  · intro q there
    rw [called]
    exact settled.here q (pools q ▸ there)
  · intro q gone
    have gone' := none_of_isSome (pools q) gone
    have other : p ≠ q := by
      rintro rfl
      rw [here] at gone'
      cases gone'
    have none : (MemEv.registered p f).cleanerOf q = none := if_neg other
    rw [called, settled.gone q gone']
    unfold Mem.registered
    rw [trace, List.filterMap_cons_none none]

theorem poolFree_settled {m : Mem} {p : PoolPtr} {pool : Pool} (sound : m.Sound)
    (settled : m.Settled) (here : m.pools p = some pool) : (poolFree m p).Settled := by
  have freed := poolFree_eq sound here
  have called : ∀ q, (poolFree m p).called q =
      ((pool.cleanup.flatMap (Pfree.events p)).filterMap (MemEv.callOf q)).reverse ++ m.called q := by
    intro q
    have own : (MemEv.freed p).callOf q = none := rfl
    unfold Mem.called
    rw [freed]
    dsimp only
    rw [List.cons_append, List.filterMap_cons_none own, List.filterMap_append, List.filterMap_reverse]
  have registered : ∀ q, (poolFree m p).registered q = m.registered q := by
    intro q
    have own : (MemEv.freed p).cleanerOf q = none := rfl
    unfold Mem.registered
    rw [freed]
    dsimp only
    rw [List.cons_append, List.filterMap_cons_none own, List.filterMap_append, List.filterMap_reverse,
      cleanerOf_events]
    rfl
  have pools : ∀ q, (poolFree m p).pools q = Function.update m.pools p none q := by
    intro q
    rw [freed]
  constructor
  · intro q there
    have other : q ≠ p := by
      rintro rfl
      rw [pools, Function.update_self] at there
      cases there
    rw [pools, Function.update_of_ne other] at there
    rw [called, callOf_other other]
    exact settled.here q there
  · intro q gone
    rw [called, registered]
    by_cases same : q = p
    · subst q
      rw [callOf_events, (sound.valid p pool here).cleaners,
        settled.here p (Option.isSome_iff_exists.mpr ⟨pool, here⟩)]
      exact List.append_nil _
    · rw [pools, Function.update_of_ne same] at gone
      rw [callOf_other same]
      exact settled.gone q gone

theorem PoolOp.run_settled {m : Mem} (sound : m.Sound) (settled : m.Settled) (op : PoolOp)
    (ready : op.Ready m) : (op.run m).Settled := by
  cases op with
  | new => exact settled.keep sound rfl (isSome_made _)
  | newHeap size => exact settled.keep sound rfl (isSome_made _)
  | malloc p size =>
    obtain ⟨pool, here⟩ := Option.isSome_iff_exists.mp ready
    have way := pmallocFrom_served sound here size
    rw [PoolOp.run, pmalloc_eq sound here size]
    generalize pmallocFrom m pool size = result at way
    change (given p result).Settled
    cases way with
    | raw => exact settled.keep sound rfl fun q => .inl (isSome_update here _ q)
    | fresh fits => exact settled.keep sound rfl fun q => .inl (isSome_update here _ q)
    | taken heap later even fits => exact settled.keep sound rfl fun q => .inl (isSome_update here _ q)
  | cleanup p f =>
    obtain ⟨pool, here⟩ := Option.isSome_iff_exists.mp ready
    exact poolCleanup_settled sound settled here f
  | free p =>
    obtain ⟨pool, here⟩ := Option.isSome_iff_exists.mp ready
    exact poolFree_settled sound settled here

theorem Mem.Reachable.settled {m : Mem} (reach : m.Reachable) : m.Settled := by
  induction reach with
  | initial =>
    constructor
    · exact fun _ _ => rfl
    · exact fun _ _ => rfl
  | step before op ready ih => exact op.run_settled before.sound ih ready

end Runs

section Results

variable {m : Mem} {p : PoolPtr} {pool : Pool}

theorem Served.blocks_eq {size : Nat} {served : Block × Pool × Mem}
    (way : Served m pool size served) :
    served.1.size = size ∧ served.2.1.blocks = pool.blocks ∧ served.2.2.pools = m.pools := by
  cases way with
  | raw => exact ⟨rfl, rfl, rfl⟩
  | fresh fits => exact ⟨rfl, rfl, rfl⟩
  | taken heap later even fits => exact ⟨rfl, rfl, rfl⟩

/-- Blocks of two pools lie in different regions. -/
theorem Mem.Sound.blocks_apart (sound : m.Sound) {q : PoolPtr} {pool' : Pool}
    (here : m.pools p = some pool) (there : m.pools q = some pool') (other : p ≠ q)
    {b b' : Block} (mine : b ∈ pool.blocks) (theirs : b' ∈ pool'.blocks) : b.region ≠ b'.region := by
  intro same
  have member := Pool.memory_of_store ((sound.valid p pool here).known b mine)
  apply sound.apart p q pool pool' here there other b.region member
  rw [same]
  exact Pool.memory_of_store ((sound.valid q pool' there).known b' theirs)

/-- Whatever was called before, `pmalloc` gives memory of the size that is asked for. It
belongs to the pool and shares no byte with what any pool gave away and was not freed, and none with the
structures of the library. -/
theorem pmalloc_apart (reach : m.Reachable) (here : m.pools p = some pool) (size : Nat) :
    ∃ b m' pool', pmalloc m p size = some (b, m') ∧ m'.Reachable ∧ m'.pools p = some pool' ∧
      pool'.blocks = b :: pool.blocks ∧ b.size = size ∧ b.region ∈ pool'.memory p ∧
      (∀ q, q ≠ p → m'.pools q = m.pools q) ∧
      (∀ q poolq, m.pools q = some poolq → ∀ b' ∈ poolq.blocks, b.Apart b') ∧
      (∀ q poolq, m'.pools q = some poolq → ∀ b' ∈ poolq.blocks,
        (m'.regions b'.region).live = true ∧ b'.Inside m') ∧
      m'.faults = [] := by
  have sound := reach.sound
  have served := pmalloc_eq sound here size
  have way := pmallocFrom_served sound here size
  generalize pmallocFrom m pool size = result at served way
  obtain ⟨length, blocks, others⟩ := way.blocks_eq
  have sound' := given_sound sound here way
  have step : (given p result).Reachable := by
    have stepped := reach.step (.malloc p size) (Option.isSome_iff_exists.mpr ⟨pool, here⟩)
    rw [PoolOp.run, served] at stepped
    exact stepped
  have mine : (given p result).pools p = some { result.2.1 with blocks := result.1 :: result.2.1.blocks } :=
    Function.update_self _ _ _
  have kept : ∀ q, q ≠ p → (given p result).pools q = m.pools q := by
    intro q other
    exact (Function.update_of_ne other _ _).trans (congrFun others q)
  have own := (sound'.valid p _ mine).known result.1 List.mem_cons_self
  refine ⟨result.1, given p result, _, served, step, mine, ?_, length, Pool.memory_of_store own,
    kept, ?_, ?_, sound'.faults⟩
  · change result.1 :: result.2.1.blocks = _
    rw [blocks]
  · intro q poolq there b' member
    by_cases same : q = p
    · subst q
      rw [here] at there
      obtain rfl := Option.some.inj there
      have apart := List.pairwise_cons.mp (sound'.valid p _ mine).apart
      exact apart.1 b' (blocks ▸ member)
    · intro region
      have there' := (kept q same).trans there
      exact absurd region (sound'.blocks_apart mine there' (Ne.symm same) List.mem_cons_self member)
  · intro q poolq there b' member
    have valid := sound'.valid q poolq there
    exact ⟨sound'.live_of_mem there (Pool.memory_of_store (valid.known b' member)), valid.inside b' member⟩

/-- A tracker of a caller. -/
def Pfree.Called (t : Pfree) : Bool := !t.heap

/-- A heap of 100 bytes gives 7 and then 16 bytes. -/
theorem pmalloc_apart_second :
    ∃ m b m' pool', m.Reachable ∧ pmalloc m 0 16 = some (b, m') ∧ m'.pools 0 = some pool' ∧
      pool'.blocks = [b, ⟨0, 40, 7⟩] ∧ b.size = 16 ∧ b.region ∈ pool'.memory 0 ∧
      b.Apart ⟨0, 40, 7⟩ ∧ m'.faults = [] := by
  have made : ((PoolOp.newHeap 100).run .initial).Reachable := .step .initial _ trivial
  have first := made.step (.malloc 0 7) rfl
  obtain ⟨b, m', pool', served, _, here, blocks, size, own, _, apart, _, faults⟩ :=
    pmalloc_apart first (p := 0) rfl 16
  have second := apart 0 _ rfl _ List.mem_cons_self
  exact ⟨_, b, m', pool', first, served, here, blocks, size, own, second, faults⟩

/-- The trackers of the callers stand in front. -/
theorem trackers_split {l : List Pfree}
    (order : l.Pairwise fun s t => t.heap = false → s.heap = false) :
    l = l.filter Pfree.Called ++ l.filter Pfree.heap := by
  induction l with
  | nil => rfl
  | cons t l ih =>
    have order := List.pairwise_cons.mp order
    cases mark : t.heap with
    | false =>
      have front : t.Called = true := by rw [Pfree.Called, mark, Bool.not_false]
      have back : ¬ t.heap = true := by rw [mark]; exact Bool.false_ne_true
      rw [List.filter_cons_of_pos front, List.filter_cons_of_neg back, List.cons_append, ← ih order.2]
    | true =>
      have all : ∀ s ∈ l, s.heap = true := by
        intro s member
        cases mark' : s.heap with
        | true => rfl
        | false =>
          rw [order.1 s member mark'] at mark
          cases mark
      have none : ∀ s ∈ t :: l, ¬ s.Called = true := by
        intro s member
        have mark' : s.heap = true := by
          rcases List.mem_cons.mp member with rfl | member
          · exact mark
          · exact all s member
        rw [Pfree.Called, mark', Bool.not_true]
        exact Bool.false_ne_true
      rw [List.filter_eq_nil_iff.mpr none, List.filter_cons_of_pos mark, List.filter_eq_self.mpr all,
        List.nil_append]

theorem Pfree.Kind.events_memory {t : Pfree} (kind : t.Kind) (mark : t.heap = true) :
    t.events p = [.freed t.region] := by
  cases kind with
  | memory frees =>
    rcases frees with rfl | rfl
    · rfl
    · rfl
  | caller r f => cases mark

/-- The trackers of the memory free it, and that is all. -/
theorem events_memory {l : List Pfree} (kinds : ∀ t ∈ l, t.Kind) (marks : ∀ t ∈ l, t.heap = true) :
    l.flatMap (Pfree.events p) = l.map fun t => .freed t.region := by
  induction l with
  | nil => rfl
  | cons t l ih =>
    rw [List.flatMap_cons, (kinds t List.mem_cons_self).events_memory (marks t List.mem_cons_self), ih]
    · rfl
    · exact fun s member => kinds s (List.mem_cons_of_mem _ member)
    · exact fun s member => marks s (List.mem_cons_of_mem _ member)

/-- When a pool is freed, all its cleaners are called before any of its blocks is gone. Then
the memory of the pool goes, every region once, and no other pool sees it, as long as
the cleaners themselves free none. -/
theorem poolFree_order (reach : m.Reachable) (here : m.pools p = some pool) :
    ∃ calls frees, (poolFree m p).trace = frees ++ calls ++ m.trace ∧
      calls.filterMap (MemEv.callOf p) = (m.registered p).reverse ∧
      frees.filterMap (MemEv.callOf p) = [] ∧
      (∀ b ∈ pool.blocks, .freed b.region ∉ calls ∧ frees.count (.freed b.region) = 1) ∧
      (∀ r, .freed r ∈ frees ++ calls ↔ r ∈ pool.memory p) ∧
      (poolFree m p).pools p = none ∧ (∀ q, q ≠ p → (poolFree m p).pools q = m.pools q) ∧
      (∀ r, r ∉ pool.memory p → (poolFree m p).regions r = m.regions r) ∧
      (poolFree m p).faults = [] := by
  have sound := reach.sound
  have valid := sound.valid p pool here
  have freed := poolFree_eq sound here
  have split := trackers_split valid.order
  have nodup := List.nodup_cons.mp valid.nodup
  set front := pool.cleanup.filter Pfree.Called with front_def
  set back := pool.cleanup.filter Pfree.heap with back_def
  have backs : back.flatMap (Pfree.events p) = back.map fun t => .freed t.region := by
    apply events_memory
    · exact fun t member => valid.kinds t (List.mem_filter.mp member).1
    · exact fun t member => (List.mem_filter.mp member).2
  have cleaners : (front.flatMap (Pfree.events p)).filterMap (MemEv.callOf p) = m.registered p := by
    have all := callOf_events p pool.cleanup
    have none : (back.map fun t => MemEv.freed t.region).filterMap (MemEv.callOf p) = [] := by
      rw [List.filterMap_map]
      exact List.filterMap_eq_nil_iff.mpr fun t _ => rfl
    rw [valid.cleaners, split, List.flatMap_append, List.filterMap_append, backs, none,
      List.append_nil] at all
    exact all
  have fronts : ∀ r, .freed r ∈ front.flatMap (Pfree.events p) ↔ r ∈ front.map Pfree.region := by
    intro r
    have kinds : ∀ t ∈ front, t.Kind := fun t member => valid.kinds t (List.mem_filter.mp member).1
    rw [← freedRegion_events p _ kinds, mem_freedRegion]
  have backs_mem : ∀ r, .freed r ∈ (p :: (back.map Pfree.region).reverse).map MemEv.freed ↔
      r ∈ p :: back.map Pfree.region := by
    intro r
    rw [List.mem_map_of_injective (fun _ _ => MemEv.freed.inj), List.mem_cons, List.mem_reverse,
      List.mem_cons]
  have regions : (p :: (front.map Pfree.region ++ back.map Pfree.region)).Nodup := by
    rw [← List.map_append, ← split]
    exact valid.nodup
  have apart := List.nodup_cons.mp regions
  have halves := List.nodup_append.mp apart.2
  refine ⟨(front.flatMap (Pfree.events p)).reverse,
    (p :: (back.map Pfree.region).reverse).map .freed, ?_, ?_, ?_, ?_, ?_, ?_, ?_, ?_, ?_⟩
  · rw [freed]
    conv_lhs => rw [split]
    dsimp only
    rw [List.flatMap_append, backs, List.reverse_append, List.map_cons, List.map_reverse, List.map_map]
    simp only [List.cons_append, List.append_assoc]
    rfl
  · rw [List.filterMap_reverse, cleaners]
  · rw [List.filterMap_map]
    exact List.filterMap_eq_nil_iff.mpr fun r _ => rfl
  · intro b given
    have store : b.region ∈ p :: back.map Pfree.region := valid.known b given
    constructor
    · intro gone
      have inside := (fronts b.region).mp (List.mem_reverse.mp gone)
      rcases List.mem_cons.mp store with same | store
      · exact apart.1 (List.mem_append_left _ (same ▸ inside))
      · exact halves.2.2 b.region inside b.region store rfl
    · apply List.count_eq_one_of_mem
      · apply List.Nodup.map (fun _ _ => MemEv.freed.inj)
        apply List.nodup_cons.mpr
        refine ⟨?_, List.nodup_reverse.mpr halves.2.1⟩
        exact fun inside => apart.1 (List.mem_append_right _ (List.mem_reverse.mp inside))
      · exact (backs_mem b.region).mpr store
  · intro r
    rw [List.mem_append, backs_mem, List.mem_reverse, fronts]
    unfold Pool.memory
    rw [split, List.map_append, List.mem_cons, List.mem_cons, List.mem_append, or_assoc,
      or_comm (a := r ∈ back.map Pfree.region)]
  · rw [freed]
    exact Function.update_self _ _ _
  · intro q other
    rw [freed]
    exact Function.update_of_ne other _ _
  · intro r other
    rw [freed]
    exact if_neg other
  · exact (poolFree_sound sound here).faults

/-- Of two cleaners the second one is called first. -/
theorem poolFree_order_two :
    ∃ m calls frees, m.Reachable ∧ m.registered 0 = [9, 5] ∧
      (poolFree m 0).trace = frees ++ calls ++ m.trace ∧
      calls.filterMap (MemEv.callOf 0) = [5, 9] ∧ (poolFree m 0).faults = [] := by
  have made : (PoolOp.new.run .initial).Reachable := .step .initial _ trivial
  have first := made.step (.cleanup 0 5) rfl
  have second := first.step (.cleanup 0 9) rfl
  obtain ⟨calls, frees, trace, called, _, _, _, _, _, _, faults⟩ := poolFree_order second (p := 0) rfl
  exact ⟨_, calls, frees, second, rfl, trace, called, faults⟩

/-- Over any run, a region that was taken is either in one pool that lives, or it was freed
once. The cleaners of a pool were called if and only if the pool is gone; they are assumed
to leave the pools alone. -/
theorem regions_accounted (reach : m.Reachable) :
    (∀ r, r < m.next →
      (∃! p, ∃ pool, m.pools p = some pool ∧ r ∈ pool.memory p) ∧ m.trace.count (.freed r) = 0 ∨
      (∀ p pool, m.pools p = some pool → r ∉ pool.memory p) ∧ m.trace.count (.freed r) = 1) ∧
    (∀ p, m.called p = if (m.pools p).isSome then [] else (m.registered p).reverse) ∧
    (∀ p pool, m.pools p = some pool → poolSize m p =
      (BitVec.ofNat 32 ((pool.memory p).map fun r => (m.regions r).payload).sum).toInt) ∧
    m.faults = [] := by
  have sound := reach.sound
  have settled := reach.settled
  refine ⟨?_, ?_, ?_, sound.faults⟩
  · intro r below
    by_cases gone : .freed r ∈ m.trace
    · right
      constructor
      · intro p pool here member
        have dead := sound.gone r gone
        rw [sound.live_of_mem here member] at dead
        cases dead
      · rw [count_freed]
        exact List.count_eq_one_of_mem sound.once (mem_freedRegion.mpr gone)
    · left
      have live : (m.regions r).live = true := (sound.kept r below).resolve_right gone
      obtain ⟨p, pool, here, member⟩ := (sound.live r).mp live
      refine ⟨⟨p, ⟨pool, here, member⟩, ?_⟩, List.count_eq_zero_of_not_mem gone⟩
      rintro q ⟨pool', there, member'⟩
      by_contra other
      exact sound.apart q p pool' pool there here other r member' member
  · intro p
    cases here : m.pools p with
    | none => exact settled.gone p here
    | some pool => exact settled.here p (Option.isSome_iff_exists.mpr ⟨pool, here⟩)
  · intro p pool here
    rw [poolSize, here, Option.map_some, Option.getD_some, (sound.valid p pool here).size]

/-- A pool with a cleaner that was freed. -/
theorem regions_accounted_freed :
    ∃ m : Mem, m.Reachable ∧ m.next = 2 ∧ m.registered 0 = [5] ∧ m.called 0 = [5] ∧
      m.faults = [] := by
  have made : (PoolOp.new.run .initial).Reachable := .step .initial _ trivial
  have first := made.step (.cleanup 0 5) rfl
  have freed := first.step (.free 0) rfl
  have accounted := regions_accounted freed
  exact ⟨_, freed, rfl, rfl, accounted.2.1 0, accounted.2.2.2⟩

end Results

end JabSimul.Pools
