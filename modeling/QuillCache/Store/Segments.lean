import QuillCache.Lib.Binary64
import QuillCache.Store.Types

/-!
# Segments and the allocation strategies

The mounted segments with their allocators (`SegmentState`, `master_service.rs`) and the two
strategies that choose on which segments an object's replicas are placed.
The strategies are generic in the allocator, as the trait objects of the source are. A stable sort
is `List.insertionSort`.

Source: `allocation_strategy.rs`.
-/

namespace QuillCache.Store

open Lib

section strategy

variable {A : Type} [BufferAllocator A]

def onAllocator {α : Type} (i : ℕ) (m : Exec A α) : Exec (List A) α := fun allocators =>
  match allocators[i]? with
  | none => none
  | some a => (m a).map fun r => (r.1, allocators.set i r.2)

def candidatesAmong (allocators : List A) (size : ℕ) (excluded : List String) :
    List ℕ → Option (List ℕ)
  | [] => some []
  | i :: is => do
    let a ← allocators[i]?
    let largest ← BufferAllocator.largestFreeRegion a
    let rest ← candidatesAmong allocators size excluded is
    return if size ≤ largest ∧ BufferAllocator.segmentName a ∉ excluded then i :: rest else rest

/-- Segment indices that are not excluded and can fit `size`. -/
def candidates (allocators : List A) (size : ℕ) (excluded : List String) : Option (List ℕ) :=
  candidatesAmong allocators size excluded (List.range allocators.length)

/-- The free share of a segment. No segment hands out more than its capacity, so the source's
subtraction does not underflow. -/
def freeRatio (a : A) : F64 :=
  if BufferAllocator.capacity a = 0 then 0
  else F64.div (F64.ofUInt (BufferAllocator.capacity a - BufferAllocator.allocated a))
    (F64.ofUInt (BufferAllocator.capacity a))

def placeLoop (size : ℕ) : List ℕ → Exec (List A) (Except ErrorCode (List AllocatedBuffer))
  | [] => pure (.ok [])
  | i :: is => do
    match ← onAllocator i (BufferAllocator.allocate size) with
    | none => return .error .noAvailableSegment
    | some b =>
      match ← placeLoop size is with
      | .error e => return .error e
      | .ok bs => return .ok (b :: bs)

/-- Allocate one buffer of `size` on the first `replicaNum` of `ordered`. -/
def place (ordered : List ℕ) (size replicaNum : ℕ) :
    Exec (List A) (Except ErrorCode (List AllocatedBuffer)) :=
  if ordered.length < replicaNum then pure (.error .noAvailableSegment)
  else placeLoop size (ordered.take replicaNum)

/-- Whether the segment at index `i` is not the preferred one: the sort key of the strategies. -/
def notPreferred (allocators : List A) (pref : SegmentName) (i : ℕ) : Bool :=
  allocators[i]?.map BufferAllocator.segmentName != some pref

def preferredFirst (allocators : List A) : Option SegmentName → List ℕ → List ℕ
  | none, order => order
  | some pref, order =>
    order.insertionSort fun i j => notPreferred allocators pref i ≤ notPreferred allocators pref j

def freeRatioAt (allocators : List A) (i : ℕ) : F64 := (allocators[i]?.map freeRatio).getD 0

def emptiestFirst (allocators : List A) (order : List ℕ) : List ℕ :=
  order.insertionSort fun i j => freeRatioAt allocators j ≤ freeRatioAt allocators i

end strategy

/-- The two strategies of the store.
Source: `RandomAllocationStrategy`, `FreeRatioFirstAllocationStrategy`. -/
inductive AllocationStrategy where
  | random
  | freeRatioFirst
  deriving DecidableEq

namespace AllocationStrategy

variable {A : Type} [BufferAllocator A]

def order (strategy : AllocationStrategy) (allocators : List A) (preferred : Option SegmentName)
    (candidates : List ℕ) : List ℕ :=
  match strategy with
  | .random => preferredFirst allocators preferred candidates
  | .freeRatioFirst => preferredFirst allocators preferred (emptiestFirst allocators candidates)

def allocate (strategy : AllocationStrategy) (size replicaNum : ℕ) (preferred : Option SegmentName)
    (excluded : List String) : Exec (List A) (Except ErrorCode (List AllocatedBuffer)) :=
  fun allocators =>
    match candidates allocators size excluded with
    | none => none
    | some is => place (strategy.order allocators preferred is) size replicaNum allocators

/-- Source: `create_allocation_strategy` -/
def create (name : String) : AllocationStrategy :=
  if name = "free_ratio_first" then .freeRatioFirst else .random

end AllocationStrategy

/-- Allocator and segment state behind the segments mutex.
Source: `master_service.rs` `SegmentState`. -/
structure SegmentState where
  allocators : List OffsetBufferAllocator
  strategy : AllocationStrategy
  nextReplicaId : ReplicaId

namespace SegmentState

def onAllocators {α : Type} (m : Exec (List OffsetBufferAllocator) α) : Exec SegmentState α :=
  focus allocators (fun s as => { s with allocators := as }) m

def sumChecked : List ℕ → Option ℕ
  | [] => some 0
  | n :: ns => do
    let rest ← sumChecked ns
    if n + rest < 2 ^ 64 then some (n + rest) else none

def capacity (s : SegmentState) : Option ℕ := sumChecked (s.allocators.map BufferAllocator.capacity)

def allocated (s : SegmentState) : Option ℕ :=
  sumChecked (s.allocators.map BufferAllocator.allocated)

def freeBuffer (buffer : AllocatedBuffer) : Exec (List OffsetBufferAllocator) Unit := fun as =>
  match as.findIdx? fun a => BufferAllocator.segmentName a = buffer.segmentName with
  | none => some ((), as)
  | some i => onAllocator i (BufferAllocator.deallocate buffer) as

def freeData : ReplicaData → Exec (List OffsetBufferAllocator) Unit
  | .memory buffer => freeBuffer buffer
  | .disk _ _ => pure ()

def freeEach : List Replica → Exec (List OffsetBufferAllocator) Unit
  | [] => pure ()
  | r :: rs => do
    freeData r.data
    freeEach rs

def freeReplicas (replicas : ReplicaList) : Exec SegmentState Unit :=
  onAllocators (freeEach replicas.values)

end SegmentState

end QuillCache.Store
