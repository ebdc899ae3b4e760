import QuillCache.Lib.Table
import QuillCache.Store.Alloc.Core

/-!
# The byte-addressed allocators

`OffsetAllocator` scales byte sizes down to the 32-bit core; `OffsetBufferAllocator` is the store's
per-segment `BufferAllocator`, which remembers the core handle of every live offset. `u64` values
are `ℕ` with checked additions; a shift to the left drops the bits above 64, as in the source.

Source: `offset_allocator.rs`.
-/

namespace QuillCache.Store

open Lib SmallFloat

abbrev SegmentName := String

/-- A buffer allocated from a segment. Source: `allocator.rs` `AllocatedBuffer`. -/
structure AllocatedBuffer where
  segmentName : SegmentName
  offset : ℕ
  size : ℕ
  deriving DecidableEq

/-- A per-segment buffer allocator. A method that only reads may still panic (`none`).
Source: `allocator.rs` `BufferAllocator`. -/
class BufferAllocator (A : Type) where
  segmentName : A → SegmentName
  capacity : A → ℕ
  allocated : A → ℕ
  allocate : ℕ → Exec A (Option AllocatedBuffer)
  deallocate : AllocatedBuffer → Exec A Unit
  largestFreeRegion : A → Option ℕ
  reserve : ℕ → ℕ → Exec A Bool

def multiplierLoop (size : ℕ) : ℕ → ℕ → Option ℕ
  | 0, _ => none
  | fuel + 1, multiplierBits =>
    if maxBinSize < size >>> multiplierBits then multiplierLoop size fuel (multiplierBits + 1)
    else some multiplierBits

/-- Number of times `size` must be halved to fit under `maxBinSize`. -/
def calculateMultiplier (size : ℕ) : Option ℕ := multiplierLoop size 64 0

/-- One allocation handed out by an `OffsetAllocator`. -/
structure Allocation where
  offset : ℕ
  size : ℕ
  core : OffsetAllocation
  deriving DecidableEq

structure OffsetAllocator where
  core : CoreAllocator
  base : ℕ
  multiplierBits : ℕ
  capacity : ℕ
  allocatedSize : ℕ
  allocatedNum : ℕ

namespace OffsetAllocator

def onCore {α : Type} (m : Exec CoreAllocator α) : Exec OffsetAllocator α :=
  focus core (fun a c => { a with core := c }) m

def new (base size initCapacity maxCapacity : ℕ) : Option OffsetAllocator := do
  let multiplierBits ← calculateMultiplier size
  let core ← CoreAllocator.new (size >>> multiplierBits % 2 ^ 32) initCapacity maxCapacity
  return { core, base, multiplierBits, capacity := size, allocatedSize := 0, allocatedNum := 0 }

/-- The size in core units, rounded up: `fake_size` of `allocate`. -/
def fakeSize (size : ℕ) : Exec OffsetAllocator ℕ := do
  let a ← get
  if 0 < a.multiplierBits then
    let sum ← addChecked 64 size (1 <<< a.multiplierBits)
    return (sum - 1) >>> a.multiplierBits
  return size

def record (size : ℕ) : Exec OffsetAllocator Unit := do
  let a ← get
  let allocatedSize ← addChecked 64 a.allocatedSize size
  let allocatedNum ← addChecked 64 a.allocatedNum 1
  set { a with allocatedSize, allocatedNum }

def allocate (size : ℕ) : Exec OffsetAllocator (Option Allocation) :=
  if size = 0 then pure none
  else do
    let fake ← fakeSize size
    if maxBinSize < fake then return none
    else
      let allocation ← onCore (CoreAllocator.allocate (fake % 2 ^ 32))
      if allocation.isNoSpace then return none
      else
        record size
        let a ← get
        let offset ← addChecked 64 a.base (allocation.offset <<< a.multiplierBits % 2 ^ 64)
        return some ⟨offset, size, allocation⟩

def free (allocation : Allocation) : Exec OffsetAllocator Unit := do
  onCore (CoreAllocator.free allocation.core)
  modify fun a => { a with
    allocatedSize := a.allocatedSize - allocation.size
    allocatedNum := a.allocatedNum - 1 }

def reserveExact (offset size : ℕ) : Exec OffsetAllocator (Option Allocation) := do
  let a ← get
  if size = 0 ∨ offset < a.base ∨ a.multiplierBits ≠ 0 then return none
  else if 2 ^ 32 ≤ offset - a.base ∨ 2 ^ 32 ≤ size then return none
  else
    match ← onCore (CoreAllocator.reserveExact (offset - a.base) size) with
    | none => return none
    | some core =>
      record size
      return some ⟨offset, size, core⟩

/-- Total free space and largest free region, in bytes. -/
def storageReport (a : OffsetAllocator) : Option (ℕ × ℕ) := do
  let (r, _) ← CoreAllocator.storageReport a.core
  return (r.totalFreeSpace <<< a.multiplierBits % 2 ^ 64,
    r.largestFreeRegion <<< a.multiplierBits % 2 ^ 64)

end OffsetAllocator

structure OffsetBufferAllocator where
  segmentName : SegmentName
  inner : OffsetAllocator
  live : Table ℕ Allocation

namespace OffsetBufferAllocator

def onInner {α : Type} (m : Exec OffsetAllocator α) : Exec OffsetBufferAllocator α :=
  focus inner (fun b a => { b with inner := a }) m

def new (segmentName : SegmentName) (capacity : ℕ) : Option OffsetBufferAllocator := do
  let inner ← OffsetAllocator.new 0 capacity 256 (1 <<< 22)
  return { segmentName, inner, live := ∅ }

def allocate (size : ℕ) : Exec OffsetBufferAllocator (Option AllocatedBuffer) := do
  match ← onInner (OffsetAllocator.allocate size) with
  | none => return none
  | some a =>
    modify fun b => { b with live := b.live.insert a.offset a }
    let b ← get
    return some ⟨b.segmentName, a.offset, size⟩

def deallocate (buffer : AllocatedBuffer) : Exec OffsetBufferAllocator Unit := do
  let b ← get
  match b.live.lookup buffer.offset with
  | none => return ()
  | some a =>
    set { b with live := b.live.erase buffer.offset }
    onInner (OffsetAllocator.free a)

def reserve (offset size : ℕ) : Exec OffsetBufferAllocator Bool := do
  match ← onInner (OffsetAllocator.reserveExact offset size) with
  | none => return false
  | some a =>
    modify fun b => { b with live := b.live.insert a.offset a }
    return true

/-- Source: `impl BufferAllocator for OffsetBufferAllocator`. -/
instance : BufferAllocator OffsetBufferAllocator where
  segmentName b := b.segmentName
  capacity b := b.inner.capacity
  allocated b := b.inner.allocatedSize
  allocate := allocate
  deallocate := deallocate
  largestFreeRegion b := b.inner.storageReport.map Prod.snd
  reserve := reserve

end OffsetBufferAllocator

end QuillCache.Store
