import HyperRpc.Lib.Heap
import HyperRpc.Lib.Refinement
import HyperRpc.Model.Types

/-!
# `EndpointList`

The list of endpoints with its inline cache and its part in the heap, function by function, and
programs over any number of such objects. An access outside the cache or a buffer, or through a
null pointer, is the error `invalid`. So is the use of a name that has no object, because it has
none yet or because the destructor has run.
-/
namespace HyperRpc

open Lib

def kListCacheSize : ℕ := 3
def kListInHeapInitSize : UInt64 := (1 : UInt64) <<< 2

/-- `new Endpoint[n]` refuses arrays of more than `PTRDIFF_MAX` bytes, and an `Endpoint` has
eight. -/
def maxEndpoints : ℕ := (2 ^ 63 - 1) / 8

/-- An `Endpoint` is the IP address and the port of an `Addr`. -/
structure EndpointList where
  size : UInt64
  listCache : Fin kListCacheSize → Option Addr
  listInHeap : Option ℕ

namespace EndpointList

/-- The default constructor, which leaves the cache uninitialized. -/
def default : EndpointList := ⟨0, fun _ => none, none⟩

variable (this : EndpointList) (heap : Heap Addr)

def empty : Bool := this.size == 0

/-- `Clear`, which is all that the destructor does. -/
def clear : Except HeapError (EndpointList × Heap Addr) :=
  match this.listInHeap with
  | some list => do
    let heap ← heap.delete list
    return ({ this with listInHeap := none, size := 0 }, heap)
  | none => return ({ this with size := 0 }, heap)

/-- The buffer that `PushBack` writes to, when `listInHeapSize` endpoints are in the heap. -/
def reserve (listInHeapSize : UInt64) : Except HeapError (ℕ × Heap Addr) :=
  if listInHeapSize = 0 then heap.alloc maxEndpoints kListInHeapInitSize.toNat
  else if listInHeapSize ≥ kListInHeapInitSize ∧ listInHeapSize &&& (listInHeapSize - 1) = 0 then do
    let listInHeapOld ← deref this.listInHeap
    let (listInHeap, heap) ← heap.alloc maxEndpoints (listInHeapSize <<< 1).toNat
    let heap ← heap.memcpy listInHeap listInHeapOld listInHeapSize.toNat
    let heap ← heap.delete listInHeapOld
    return (listInHeap, heap)
  else do
    let listInHeap ← deref this.listInHeap
    return (listInHeap, heap)

def pushBack (endpoint : Addr) : Except HeapError (EndpointList × Heap Addr) :=
  if h : this.size.toNat < kListCacheSize then
    return ({ this with
      listCache := Function.update this.listCache ⟨this.size.toNat, h⟩ (some endpoint)
      size := this.size + 1 }, heap)
  else do
    let listInHeapSize := this.size - .ofNat kListCacheSize
    let (listInHeap, heap) ← this.reserve heap listInHeapSize
    let heap ← heap.write listInHeap listInHeapSize.toNat endpoint
    return ({ this with listInHeap := some listInHeap, size := this.size + 1 }, heap)

def getEndpoint (index : UInt64) : Except HeapError Addr :=
  if index < this.size then
    if h : index.toNat < kListCacheSize then deref (this.listCache ⟨index.toNat, h⟩)
    else do
      let heapIndex := index - .ofNat kListCacheSize
      let list ← deref this.listInHeap
      heap.read list heapIndex.toNat
  else .error .invalid

/-- The cache after the loop `for (i = 0; i < other.size_ && i < kListCacheSize; i++)`. -/
def copyCache (other : EndpointList) : Fin kListCacheSize → Option Addr :=
  fun i => if i < other.size.toNat then other.listCache i else none

/-- The loop `while (capacity < list_in_heap_size) capacity <<= 1` of the copy constructor. A
capacity that has been doubled 64 times is zero, and the loop would not end. -/
def roundUp (listInHeapSize : UInt64) : ℕ → UInt64 → Except HeapError UInt64
  | 0, _ => .error .invalid
  | fuel + 1, capacity =>
    if capacity < listInHeapSize then roundUp listInHeapSize fuel (capacity <<< 1)
    else .ok capacity

/-- The body of the copy constructor, which has set the size to zero and the pointer to null. -/
def copyFrom (other : EndpointList) : Except HeapError (EndpointList × Heap Addr) :=
  if other.size.toNat > kListCacheSize then do
    let listInHeapSize := other.size - .ofNat kListCacheSize
    let capacity ← roundUp listInHeapSize 64 kListInHeapInitSize
    let (listInHeap, heap) ← heap.alloc maxEndpoints capacity.toNat
    let otherListInHeap ← deref other.listInHeap
    let heap ← heap.memcpy listInHeap otherListInHeap listInHeapSize.toNat
    return (⟨other.size, copyCache other, some listInHeap⟩, heap)
  else return (⟨other.size, copyCache other, none⟩, heap)

end EndpointList

/-! ## Programs -/

/-- The objects of a program by their names, and the heap they share. -/
structure EndpointStore where
  objects : ℕ → Option EndpointList
  heap : Heap Addr

inductive ListOp
  | construct (x : ℕ)
  | pushBack (x : ℕ) (endpoint : Addr)
  | clear (x : ℕ)
  | copyConstruct (x y : ℕ)
  | moveConstruct (x y : ℕ)
  | destroy (x : ℕ)
  | copyAssign (x y : ℕ)
  | moveAssign (x y : ℕ)
  deriving DecidableEq, Repr

namespace EndpointStore

def initial : EndpointStore := ⟨fun _ => none, .empty⟩

variable (s : EndpointStore)

def put (x : ℕ) (object : EndpointList) : EndpointStore :=
  { s with objects := Function.update s.objects x (some object) }

def call (x : ℕ) (f : EndpointList → Heap Addr → Except HeapError (EndpointList × Heap Addr)) :
    Except HeapError EndpointStore := do
  let this ← deref (s.objects x)
  let (this, heap) ← f this s.heap
  return { s.put x this with heap := heap }

/-- The copy constructor at `x`, where no object lives yet. -/
def copyConstruct (x y : ℕ) : Except HeapError EndpointStore := do
  let other ← deref (s.objects y)
  let s := s.put x .default
  s.call x fun _ heap => EndpointList.copyFrom heap other

def moveConstruct (x y : ℕ) : Except HeapError EndpointStore := do
  let other ← deref (s.objects y)
  let s := s.put x ⟨other.size, EndpointList.copyCache other, other.listInHeap⟩
  s.call y fun other heap => .ok ({ other with listInHeap := none, size := 0 }, heap)

/-- The destructor. The object's life is over; what it held may not be read again. -/
def destroy (x : ℕ) : Except HeapError EndpointStore := do
  let s ← s.call x EndpointList.clear
  return { s with objects := Function.update s.objects x none }

/-- `operator=(const EndpointList&)`: the destructor, then the copy constructor in place. If `x`
and `y` are one object, the constructor reads an object that is no more. -/
def copyAssign (x y : ℕ) : Except HeapError EndpointStore := do
  let s ← s.destroy x
  s.copyConstruct x y

def moveAssign (x y : ℕ) : Except HeapError EndpointStore := do
  let s ← s.destroy x
  s.moveConstruct x y

/-- A new object needs a name that is not in use. -/
def construct (x : ℕ) (init : EndpointStore → Except HeapError EndpointStore) :
    Except HeapError EndpointStore :=
  if (s.objects x).isNone then init s else .error .invalid

def step : ListOp → Except HeapError EndpointStore
  | .construct x => s.construct x fun s => .ok (s.put x .default)
  | .pushBack x endpoint => s.call x fun this heap => this.pushBack heap endpoint
  | .clear x => s.call x EndpointList.clear
  | .copyConstruct x y => s.construct x fun s => s.copyConstruct x y
  | .moveConstruct x y => s.construct x fun s => s.moveConstruct x y
  | .destroy x => s.destroy x
  | .copyAssign x y => s.copyAssign x y
  | .moveAssign x y => s.moveAssign x y

end EndpointStore

end HyperRpc
