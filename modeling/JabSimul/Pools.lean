import Mathlib.Data.BitVec
import Mathlib.Data.List.Nodup
import Mathlib.Logic.Function.Basic

/-!
The memory pools of the jabberd library, as they are compiled with `FAST_POOL`. A
region is what one call of `malloc` gives; the structures of a pool lie in regions
together with the memory that they give away. `malloc` is taken to give memory at
once, since the library waits until it does. Sizes are not negative, and the functions
that callers register leave the pools alone. That is an assumption: `_xstream_cleanup`
and `xhash_free`, which free a pool of their own, do not keep to it.
-/
namespace JabSimul.Pools

abbrev RegionPtr := Nat

/-- A pool is where its structure lies. -/
abbrev PoolPtr := RegionPtr

def sizeofPool : Nat := 24
def sizeofPheap : Nat := 16
def sizeofPfree : Nat := 32

/-- `head` and `tail` are the bytes of the library's own structures at both ends. -/
structure Region where
  size : Nat
  head : Nat
  tail : Nat
  live : Bool

/-- Memory that a caller got. -/
structure Block where
  region : RegionPtr
  offset : Nat
  size : Nat
  deriving DecidableEq, Repr

/-- `block` lies at `offset` in the region of the structure. -/
structure Pheap where
  region : RegionPtr
  offset : Nat
  size : Nat
  used : Nat
  deriving DecidableEq, Repr

/-- `_pool__free` and `_pool_heap_free` with the region that they free, or a function
of a caller with its argument, which is assumed to call nothing of the library. -/
inductive Cleaner where
  | poolFree (r : RegionPtr)
  | heapFree (r : RegionPtr)
  | caller (f : Nat)
  deriving DecidableEq, Repr

/-- `heap` says that the field is set. -/
structure Pfree where
  region : RegionPtr
  f : Cleaner
  heap : Bool
  deriving DecidableEq, Repr

/-- Nothing in the library reads `blocks`, the memory that was given away, the
newest first. -/
structure Pool where
  size : BitVec 32
  cleanup : List Pfree
  heap : Option Pheap
  blocks : List Block

inductive MemEv where
  | registered (p : PoolPtr) (f : Nat)
  | called (p : PoolPtr) (f : Nat)
  | freed (r : RegionPtr)
  deriving DecidableEq, Repr

/-- An access to memory that is freed already is kept in `faults`. -/
structure Mem where
  regions : RegionPtr → Region
  next : RegionPtr
  pools : PoolPtr → Option Pool
  trace : List MemEv
  faults : List RegionPtr

def Mem.initial : Mem := ⟨fun _ => ⟨0, 0, 0, false⟩, 0, fun _ => none, [], []⟩

namespace Mem

def malloc (m : Mem) (head size tail : Nat) : Mem :=
  { m with
    regions := Function.update m.regions m.next ⟨head + size + tail, head, tail, true⟩
    next := m.next + 1 }

def touch (m : Mem) (r : RegionPtr) : Mem :=
  if (m.regions r).live then m else { m with faults := r :: m.faults }

def emit (m : Mem) (e : MemEv) : Mem := { m with trace := e :: m.trace }

def free (m : Mem) (r : RegionPtr) : Mem :=
  ({ m.touch r with
    regions := Function.update m.regions r { m.regions r with live := false } }).emit (.freed r)

def setPool (m : Mem) (p : PoolPtr) (pool : Option Pool) : Mem :=
  { m with pools := Function.update m.pools p pool }

end Mem

def poolNew (m : Mem) : PoolPtr × Mem :=
  (m.next, (m.malloc sizeofPool 0 0).setPool m.next (some ⟨0, [], none, []⟩))

/-- `_pool_new_heap`: the first heap lies behind the structure of the pool. -/
def poolHeapNew (m : Mem) (size : Nat) : PoolPtr × Mem :=
  (m.next, (m.malloc (sizeofPool + sizeofPheap) size 0).setPool m.next
    (some ⟨BitVec.ofNat 32 size, [], some ⟨m.next, sizeofPool + sizeofPheap, size, 0⟩, []⟩))

/-- `_pool_cleanup_append` goes through all the trackers. -/
def cleanupAppend (m : Mem) (pool : Pool) (pf : Pfree) : Pool × Mem :=
  ({ pool with cleanup := pool.cleanup ++ [pf] },
    pool.cleanup.foldl (fun m cur => m.touch cur.region) m)

/-- `_pool_heap` -/
def poolHeap (m : Mem) (pool : Pool) (size : Nat) : Pheap × Pool × Mem :=
  let pool := { pool with size := pool.size + BitVec.ofNat 32 size }
  (⟨m.next, sizeofPheap, size, 0⟩,
    cleanupAppend (m.malloc sizeofPheap size sizeofPfree) pool ⟨m.next, .heapFree m.next, true⟩)

/-- A request of its own: there is no heap, or the request is a big one. -/
def pmallocRaw (m : Mem) (pool : Pool) (size : Nat) : Block × Pool × Mem :=
  let pool := { pool with size := pool.size + BitVec.ofNat 32 size }
  (⟨m.next, 0, size⟩,
    cleanupAppend (m.malloc 0 size sizeofPfree) pool ⟨m.next, .poolFree m.next, true⟩)

/-- What `while(p->heap->used&7) p->heap->used++` makes of `used`. -/
def aligned (used : Nat) : Nat := (used + 7) / 8 * 8

/-- A request that the heap of the pool serves, or one that takes its place. -/
def pmallocHeap (m : Mem) (pool : Pool) (heap : Pheap) (size : Nat) : Block × Pool × Mem :=
  let m := m.touch heap.region
  let used := if 4 ≤ size then aligned heap.used else heap.used
  if heap.size < used + size then
    let (ret, pool, m) := poolHeap m pool heap.size
    (⟨ret.region, ret.offset, size⟩, { pool with heap := some { ret with used := size } }, m)
  else
    (⟨heap.region, heap.offset + used, size⟩,
      { pool with heap := some { heap with used := used + size } }, m)

def pmallocFrom (m : Mem) (pool : Pool) (size : Nat) : Block × Pool × Mem :=
  match pool.heap with
  | none => pmallocRaw m pool size
  | some heap =>
      if heap.size / 2 < size then pmallocRaw m pool size else pmallocHeap m pool heap size

/-- The program stops where the pool is NULL. -/
def pmalloc (m : Mem) (p : PoolPtr) (size : Nat) : Option (Block × Mem) :=
  (m.pools p).map fun pool =>
    let (block, pool, m) := pmallocFrom (m.touch p) pool size
    (block, m.setPool p (some { pool with blocks := block :: pool.blocks }))

def poolSize (m : Mem) (p : PoolPtr) : Int := ((m.pools p).map fun pool => pool.size.toInt).getD 0

/-- The tracker of a cleaner has its own memory and stands in front of the others. -/
def poolCleanup (m : Mem) (p : PoolPtr) (f : Nat) : Mem :=
  match m.pools p with
  | none => m
  | some pool =>
      let clean : Pfree := ⟨m.next, .caller f, false⟩
      (((m.malloc sizeofPfree 0 0).touch p).setPool p
        (some { pool with cleanup := clean :: pool.cleanup })).emit (.registered p f)

/-- All that is seen of a function of a caller is that it was called. -/
def runCleaner (m : Mem) (p : PoolPtr) : Cleaner → Mem
  | .poolFree r => m.free r
  | .heapFree r => m.free r
  | .caller f => m.emit (.called p f)

/-- The loop of `pool_free`. A tracker is read before its cleaner runs. -/
def poolFreeLoop (p : PoolPtr) : List Pfree → Mem → Mem
  | [], m => m
  | cur :: stub, m =>
      let m := runCleaner (m.touch cur.region) p cur.f
      poolFreeLoop p stub (if cur.heap then m else m.free cur.region)

def poolFree (m : Mem) (p : PoolPtr) : Mem :=
  match m.pools p with
  | none => m
  | some pool => ((poolFreeLoop p pool.cleanup (m.touch p)).free p).setPool p none

/-- The calls of the library. -/
inductive PoolOp where
  | new
  | newHeap (size : Nat)
  | malloc (p : PoolPtr) (size : Nat)
  | cleanup (p : PoolPtr) (f : Nat)
  | free (p : PoolPtr)

def PoolOp.run (m : Mem) : PoolOp → Mem
  | .new => (poolNew m).2
  | .newHeap size => (poolHeapNew m size).2
  | .malloc p size => ((pmalloc m p size).map Prod.snd).getD m
  | .cleanup p f => poolCleanup m p f
  | .free p => poolFree m p

end JabSimul.Pools
