import QuillCache.Lib.Exec
import QuillCache.Store.Alloc.SmallFloat

/-!
# `CoreAllocator`: the model of the offset allocator's core

A method on `&mut self` is an `Exec CoreAllocator`: an index outside a `Vec` or array, an underflowing subtraction, an
overflowing `u32` addition and a failed `debug_assert!` all panic. Vectors and arrays are lists, `u32` values are `ℕ`
with checked additions, and the two bitmap levels are `BitVec`s (`trailing_zeros` is `ctz`, `leading_zeros` is `clz`).

The two loops that follow pointers (`ensure_capacity`, the bin walk of `reserve_exact`) are bounded by fuel; running
out of fuel is a panic too, so "never panics" includes that they end.

Source: `offset_allocator.rs`.
-/

namespace QuillCache.Store

open Lib SmallFloat

def numTopBins : ℕ := 32

def topBinsIndexShift : ℕ := 3

def leafBinsIndexMask : ℕ := 0x7

def numLeafBins : ℕ := 256

def unused : ℕ := 0xffffffff

/-- Lowest set bit at or after `startBitIndex`, or `unused` if there is none. -/
def findLowestSetBitAfter (bitMask : BitVec 32) (startBitIndex : ℕ) : ℕ :=
  if 32 ≤ startBitIndex then unused
  else
    let maskBeforeStart := (1#32 <<< startBitIndex) - 1#32
    let bitsAfter := bitMask &&& ~~~maskBeforeStart
    if bitsAfter = 0 then unused else bitsAfter.ctz.toNat

/-- The result of an allocation: its offset and the node that owns it. -/
structure OffsetAllocation where
  offset : ℕ
  metadata : ℕ
  deriving DecidableEq

/-- The value returned when there is no space. Source: `offset_allocator.rs`. -/
def OffsetAllocation.noSpace : OffsetAllocation := ⟨unused, unused⟩

def OffsetAllocation.isNoSpace (a : OffsetAllocation) : Bool := a.metadata = unused

/-- A free or allocated region with its four intrusive links. -/
structure Node where
  dataOffset : ℕ := 0
  dataSize : ℕ := 0
  binListPrev : ℕ := unused
  binListNext : ℕ := unused
  neighborPrev : ℕ := unused
  neighborNext : ℕ := unused
  used : Bool := false
  deriving DecidableEq, Inhabited

/-- The core allocator over `[0, size)`. -/
structure CoreAllocator where
  size : ℕ
  currentCapacity : ℕ
  maxCapacity : ℕ
  freeStorage : ℕ
  usedBinsTop : BitVec 32
  usedBins : List (BitVec 8)
  binIndices : List ℕ
  nodes : List Node
  freeNodes : List ℕ
  freeOffset : ℕ
  deriving DecidableEq

structure StorageReport where
  totalFreeSpace : ℕ
  largestFreeRegion : ℕ
  deriving DecidableEq

namespace CoreAllocator

/-! ## Indexing -/

def node (s : CoreAllocator) (i : ℕ) : Node := s.nodes.getD i {}

def bin (s : CoreAllocator) (b : ℕ) : ℕ := s.binIndices.getD b unused

def leaf (s : CoreAllocator) (t : ℕ) : BitVec 8 := s.usedBins.getD t 0

def setNode (s : CoreAllocator) (i : ℕ) (n : Node) : CoreAllocator :=
  { s with nodes := s.nodes.set i n }

def setBin (s : CoreAllocator) (b v : ℕ) : CoreAllocator :=
  { s with binIndices := s.binIndices.set b v }

def setLeaf (s : CoreAllocator) (t : ℕ) (v : BitVec 8) : CoreAllocator :=
  { s with usedBins := s.usedBins.set t v }

def setTop (s : CoreAllocator) (v : BitVec 32) : CoreAllocator := { s with usedBinsTop := v }

def setFreeNode (s : CoreAllocator) (k v : ℕ) : CoreAllocator :=
  { s with freeNodes := s.freeNodes.set k v }

def setFreeOffset (s : CoreAllocator) (k : ℕ) : CoreAllocator := { s with freeOffset := k }

def setFreeStorage (s : CoreAllocator) (k : ℕ) : CoreAllocator := { s with freeStorage := k }

def grown (s : CoreAllocator) : CoreAllocator :=
  { s with freeNodes := s.freeNodes ++ [s.currentCapacity], nodes := s.nodes ++ [{}],
           currentCapacity := s.currentCapacity + 1 }

def readNode (i : ℕ) : Exec CoreAllocator Node := fun s =>
  if i < s.nodes.length then some (s.node i, s) else none

def writeNode (i : ℕ) (f : Node → Node) : Exec CoreAllocator Unit := fun s =>
  if i < s.nodes.length then some ((), s.setNode i (f (s.node i))) else none

def readBin (b : ℕ) : Exec CoreAllocator ℕ := fun s =>
  if b < s.binIndices.length then some (s.bin b, s) else none

def writeBin (b v : ℕ) : Exec CoreAllocator Unit := fun s =>
  if b < s.binIndices.length then some ((), s.setBin b v) else none

def readLeaf (t : ℕ) : Exec CoreAllocator (BitVec 8) := fun s =>
  if t < s.usedBins.length then some (s.leaf t, s) else none

def writeLeaf (t : ℕ) (v : BitVec 8) : Exec CoreAllocator Unit := fun s =>
  if t < s.usedBins.length then some ((), s.setLeaf t v) else none

def readFreeNode (k : ℕ) : Exec CoreAllocator ℕ := fun s =>
  if k < s.freeNodes.length then some (s.freeNodes.getD k 0, s) else none

def writeFreeNode (k v : ℕ) : Exec CoreAllocator Unit := fun s =>
  if k < s.freeNodes.length then some ((), s.setFreeNode k v) else none

/-! ## Bins -/

/-- `node_index = free_nodes[free_offset]; free_offset += 1`.
Source: `insert_node_into_bin`, `reserve_exact`. -/
def popFreeNode : Exec CoreAllocator ℕ := do
  let nodeIndex ← readFreeNode (← get).freeOffset
  let freeOffset ← addChecked 32 (← get).freeOffset 1
  modify fun s => s.setFreeOffset freeOffset
  return nodeIndex

/-- `free_offset -= 1; free_nodes[free_offset] = node_index`.
Source: `free`, `remove_node_from_bin`. -/
def pushFreeNode (nodeIndex : ℕ) : Exec CoreAllocator Unit := do
  let freeOffset ← subChecked (← get).freeOffset 1
  modify fun s => s.setFreeOffset freeOffset
  writeFreeNode freeOffset nodeIndex

/-- Bin emptied? Clear its leaf bit, and the top bit if all leaves are gone.
Source: `allocate`, `remove_node_from_bin` (the same lines in both). -/
def clearIfEmpty (binIndex topBinIndex leafBinIndex : ℕ) : Exec CoreAllocator Unit := do
  if (← readBin binIndex) = unused then
    writeLeaf topBinIndex ((← readLeaf topBinIndex) &&& ~~~(1#8 <<< leafBinIndex))
    if (← readLeaf topBinIndex) = 0 then
      modify fun s => s.setTop (s.usedBinsTop &&& ~~~(1#32 <<< topBinIndex))

/-- Bin was empty? Set its leaf bit and its top bit.
Source: `insert_node_into_bin`. -/
def markIfEmpty (binIndex topBinIndex leafBinIndex : ℕ) : Exec CoreAllocator Unit := do
  if (← readBin binIndex) = unused then
    writeLeaf topBinIndex ((← readLeaf topBinIndex) ||| (1#8 <<< leafBinIndex))
    modify fun s => s.setTop (s.usedBinsTop ||| (1#32 <<< topBinIndex))

/-- Store `n` in the slot `nodeIndex` and put it in front of `topNodeIndex`, the head of its bin.
Source: `insert_node_into_bin`. -/
def linkFront (binIndex topNodeIndex nodeIndex : ℕ) (n : Node) : Exec CoreAllocator Unit := do
  writeNode nodeIndex fun _ => n
  if topNodeIndex ≠ unused then
    writeNode topNodeIndex fun n => { n with binListPrev := nodeIndex }
  writeBin binIndex nodeIndex

/-- Insert a free region into the bin of its rounded-down size; its node is popped from the
free-node stack. -/
def insertNodeIntoBin (size dataOffset : ℕ) : Exec CoreAllocator ℕ := do
  let binIndex := uintToFloatRoundDown size
  let topBinIndex := binIndex >>> topBinsIndexShift
  let leafBinIndex := binIndex &&& leafBinsIndexMask
  markIfEmpty binIndex topBinIndex leafBinIndex
  let topNodeIndex ← readBin binIndex
  let nodeIndex ← popFreeNode
  linkFront binIndex topNodeIndex nodeIndex
    { dataOffset, dataSize := size, binListPrev := unused, binListNext := topNodeIndex,
      neighborPrev := unused, neighborNext := unused, used := false }
  let freeStorage ← addChecked 32 (← get).freeStorage size
  modify fun s => s.setFreeStorage freeStorage
  return nodeIndex

/-- Make `binListNext` the head of bin `binIndex`.
Source: `allocate`, `remove_node_from_bin` (the same lines in both). -/
def unlinkHead (binIndex binListNext : ℕ) : Exec CoreAllocator Unit := do
  writeBin binIndex binListNext
  if binListNext ≠ unused then
    writeNode binListNext fun n => { n with binListPrev := unused }

/-- Link the two bin neighbours of an inner node to each other.
Source: `remove_node_from_bin`. -/
def unlinkInner (binListPrev binListNext : ℕ) : Exec CoreAllocator Unit := do
  writeNode binListPrev fun n => { n with binListNext }
  if binListNext ≠ unused then
    writeNode binListNext fun n => { n with binListPrev }

/-- Unlink the node `n` from its bin list.
Source: `remove_node_from_bin`. -/
def unlinkNode (n : Node) : Exec CoreAllocator Unit := do
  if n.binListPrev ≠ unused then
    unlinkInner n.binListPrev n.binListNext
  else
    let binIndex := uintToFloatRoundDown n.dataSize
    let topBinIndex := binIndex >>> topBinsIndexShift
    let leafBinIndex := binIndex &&& leafBinsIndexMask
    unlinkHead binIndex n.binListNext
    clearIfEmpty binIndex topBinIndex leafBinIndex

/-- Unlink a free region from its bin and push its node on the free-node stack. -/
def removeNodeFromBin (nodeIndex : ℕ) : Exec CoreAllocator Unit := do
  unlinkNode (← readNode nodeIndex)
  pushFreeNode nodeIndex
  let freeStorage ← subChecked (← get).freeStorage (← readNode nodeIndex).dataSize
  modify fun s => s.setFreeStorage freeStorage

/-! ## The public operations -/

/-- The state `reset` builds before it inserts the one big free node: every node default, the free
stack `0, 1, …`.
Source: `new`, `reset`. -/
def blank (size initCapacity maxCapacity : ℕ) : CoreAllocator where
  size
  currentCapacity := initCapacity
  maxCapacity := max initCapacity maxCapacity
  freeStorage := 0
  usedBinsTop := 0
  usedBins := List.replicate numTopBins 0
  binIndices := List.replicate numLeafBins unused
  nodes := List.replicate initCapacity {}
  freeNodes := List.range initCapacity
  freeOffset := 0

/-- `none` when the construction panics (no initial node slot). -/
def new (size initCapacity maxCapacity : ℕ) : Option CoreAllocator :=
  (insertNodeIntoBin size 0 (blank size initCapacity maxCapacity)).map Prod.snd

/-- Grow the node pool by one slot: `free_nodes.push(cap); nodes.push(default); cap += 1`.
Source: `allocate`, `ensure_capacity`. -/
def growOne : Exec CoreAllocator Unit := do
  let _ ← addChecked 32 (← get).currentCapacity 1
  modify grown

/-- If top bin `topBinIndex` has any leaves, scan them from `minLeafBinIndex`.
Source: `allocate` (bin search) -/
def scanLeaf (topBinIndex minLeafBinIndex : ℕ) : Exec CoreAllocator ℕ := do
  if (← get).usedBinsTop &&& (1#32 <<< topBinIndex) ≠ 0 then
    let leaves ← readLeaf topBinIndex
    return findLowestSetBitAfter (leaves.setWidth 32) minLeafBinIndex
  return unused

/-- The bin an allocation of the rounded-up bin `minBinIndex` is served from: the smallest
non-empty bin at or above it, found through the two bitmap levels.
Source: `allocate` (bin search) -/
def findBin (minBinIndex : ℕ) : Exec CoreAllocator (Option (ℕ × ℕ)) := do
  let minTopBinIndex := minBinIndex >>> topBinsIndexShift
  let minLeafBinIndex := minBinIndex &&& leafBinsIndexMask
  let usedBinsTop := (← get).usedBinsTop
  let leafBinIndex ← scanLeaf minTopBinIndex minLeafBinIndex
  if leafBinIndex = unused then
    let topBinIndex := findLowestSetBitAfter usedBinsTop (minTopBinIndex + 1)
    if topBinIndex = unused then return none
    let leaves ← readLeaf topBinIndex
    return some (topBinIndex, (leaves.setWidth 32).ctz.toNat)
  return some (minTopBinIndex, leafBinIndex)

/-- Mark the head `nodeIndex` of a bin, with contents `n`, used with the bin-rounded size, and pop it.
Source: `allocate` (pop the bin's head) -/
def popHead (topBinIndex leafBinIndex nodeIndex roundupSize : ℕ) (n : Node) :
    Exec CoreAllocator Unit := do
  let binIndex := (topBinIndex <<< topBinsIndexShift) ||| leafBinIndex
  writeNode nodeIndex fun n => { n with dataSize := roundupSize, used := true }
  unlinkHead binIndex n.binListNext
  let freeStorage ← subChecked (← get).freeStorage n.dataSize
  modify fun s => s.setFreeStorage freeStorage
  clearIfEmpty binIndex topBinIndex leafBinIndex

/-- Link the remainder after its node and before the old next neighbour.
Source: `allocate` (remainder) -/
def relinkRemainder (nodeIndex newNodeIndex neighborNext : ℕ) : Exec CoreAllocator Unit := do
  if neighborNext ≠ unused then
    writeNode neighborNext fun m => { m with neighborPrev := newNodeIndex }
  writeNode newNodeIndex fun m => { m with neighborPrev := nodeIndex }
  writeNode newNodeIndex fun m => { m with neighborNext }
  writeNode nodeIndex fun m => { m with neighborNext := newNodeIndex }

/-- Cut `roundupSize` units off the head `nodeIndex` of a bin; the rest goes back as a free region.
Source: `allocate` (from the popped head on) -/
def takeHead (topBinIndex leafBinIndex nodeIndex roundupSize : ℕ) :
    Exec CoreAllocator OffsetAllocation := do
  let n ← readNode nodeIndex
  popHead topBinIndex leafBinIndex nodeIndex roundupSize n
  let reminderSize ← subChecked n.dataSize roundupSize
  if 0 < reminderSize then
    let newNodeIndex ← insertNodeIntoBin reminderSize (← addChecked 32 n.dataOffset roundupSize)
    relinkRemainder nodeIndex newNodeIndex n.neighborNext
  return ⟨n.dataOffset, nodeIndex⟩

/-- Serve a request of the rounded-up bin `minBinIndex` once a node handle is poppable.
Source: `allocate` (after the handle checks) -/
def serve (minBinIndex : ℕ) : Exec CoreAllocator OffsetAllocation := do
  match ← findBin minBinIndex with
  | none => return .noSpace
  | some (topBinIndex, leafBinIndex) =>
    let nodeIndex ← readBin ((topBinIndex <<< topBinsIndexShift) ||| leafBinIndex)
    takeHead topBinIndex leafBinIndex nodeIndex (floatToUint minBinIndex)

/-- Allocate `size` units, storing the bin-rounded size; `noSpace` on failure. -/
def allocate (size : ℕ) : Exec CoreAllocator OffsetAllocation := do
  if (← get).freeOffset = (← get).maxCapacity then return .noSpace
  if (← get).freeOffset = (← get).currentCapacity then growOne
  serve (uintToFloatRoundUp size)

/-- Merge with the previous physical neighbour if it is free: the new offset and size.
Source: `free` (previous neighbour) -/
def mergePrev (nodeIndex offset size : ℕ) : Exec CoreAllocator (ℕ × ℕ) := do
  let neighborPrev := (← readNode nodeIndex).neighborPrev
  if neighborPrev = unused then return (offset, size)
  let p ← readNode neighborPrev
  if p.used then return (offset, size)
  let size ← addChecked 32 size p.dataSize
  removeNodeFromBin neighborPrev
  let p' ← readNode neighborPrev
  writeNode nodeIndex fun n => { n with neighborPrev := p'.neighborPrev }
  return (p.dataOffset, size)

/-- Merge with the next physical neighbour if it is free: the new size.
Source: `free` (next neighbour) -/
def mergeNext (nodeIndex size : ℕ) : Exec CoreAllocator ℕ := do
  let neighborNext := (← readNode nodeIndex).neighborNext
  if neighborNext = unused then return size
  let q ← readNode neighborNext
  if q.used then return size
  let size ← addChecked 32 size q.dataSize
  removeNodeFromBin neighborNext
  let q' ← readNode neighborNext
  writeNode nodeIndex fun n => { n with neighborNext := q'.neighborNext }
  return size

/-- Relink the combined node with the surviving neighbours.
Source: `free` (relinking) -/
def relinkCombined (combinedNodeIndex finalNeighborPrev finalNeighborNext : ℕ) :
    Exec CoreAllocator Unit := do
  if finalNeighborNext ≠ unused then
    writeNode combinedNodeIndex fun n => { n with neighborNext := finalNeighborNext }
    writeNode finalNeighborNext fun n => { n with neighborPrev := combinedNodeIndex }
  if finalNeighborPrev ≠ unused then
    writeNode combinedNodeIndex fun n => { n with neighborPrev := finalNeighborPrev }
    writeNode finalNeighborPrev fun n => { n with neighborNext := combinedNodeIndex }

/-- Free a prior allocation, coalescing with free physical neighbours. -/
def free (allocation : OffsetAllocation) : Exec CoreAllocator Unit := do
  check (allocation.metadata ≠ unused)
  if (← get).nodes = [] then return ()
  let nodeIndex := allocation.metadata
  check ((← readNode nodeIndex).used = true)
  let offset := (← readNode nodeIndex).dataOffset
  let size := (← readNode nodeIndex).dataSize
  let (offset, size) ← mergePrev nodeIndex offset size
  let size ← mergeNext nodeIndex size
  let finalNeighborNext := (← readNode nodeIndex).neighborNext
  let finalNeighborPrev := (← readNode nodeIndex).neighborPrev
  pushFreeNode nodeIndex
  let combinedNodeIndex ← insertNodeIntoBin size offset
  relinkCombined combinedNodeIndex finalNeighborPrev finalNeighborNext

def storageReport : Exec CoreAllocator StorageReport := do
  let s ← get
  if s.freeOffset < s.maxCapacity then
    if s.usedBinsTop ≠ 0 then
      let topBinIndex ← subChecked 31 s.usedBinsTop.clz.toNat
      let leaves ← readLeaf topBinIndex
      let leafBinIndex ← subChecked 31 (leaves.setWidth 32).clz.toNat
      return ⟨s.freeStorage,
        floatToUint ((topBinIndex <<< topBinsIndexShift) ||| leafBinIndex)⟩
    return ⟨s.freeStorage, 0⟩
  return ⟨0, 0⟩

def ensureCapacityLoop (n : ℕ) : ℕ → Exec CoreAllocator Bool
  | 0 => abort
  | fuel + 1 => do
    let room ← subChecked (← get).currentCapacity (← get).freeOffset
    if room < n then
      if (← get).currentCapacity = (← get).maxCapacity then return false
      growOne
      ensureCapacityLoop n fuel
    else return true

/-- Grow the node pool so that at least `n` slots can be popped; `false` if the cap is reached. Each
round adds one slot, so `n + 1` rounds are enough. -/
def ensureCapacity (n : ℕ) : Exec CoreAllocator Bool := ensureCapacityLoop n (n + 1)

/-- `n.data_offset <= offset && n.data_offset + n.data_size >= end`.
Source: `reserve_exact`. -/
def covers (offset stop : ℕ) (n : Node) : Exec CoreAllocator Bool := do
  if n.dataOffset ≤ offset then
    let regionStop ← addChecked 32 n.dataOffset n.dataSize
    return stop ≤ regionStop
  return false

/-- Walk one bin list from `idx` for a free region covering `[offset, stop)`.
Source: `reserve_exact` (inner loop) -/
def walkBin (offset stop : ℕ) : ℕ → ℕ → Exec CoreAllocator ℕ
  | 0, _ => abort
  | fuel + 1, idx => do
    if idx = unused then return unused
    let n ← readNode idx
    if ← covers offset stop n then return idx
    walkBin offset stop fuel n.binListNext

/-- Walk the bins in order until one has a covering region. A bin list visits each node at most
once, so `nodes.len() + 1` rounds are enough.
Source: `reserve_exact` (outer loop) -/
def findCovering (offset stop : ℕ) : List ℕ → Exec CoreAllocator ℕ
  | [] => return unused
  | b :: bins => do
    let idx ← readBin b
    let covering ← walkBin offset stop ((← get).nodes.length + 1) idx
    if covering ≠ unused then return covering
    findCovering offset stop bins

/-- Thread the nodes `curs` after `prev` in the neighbour list; returns the last of them.
Source: `reserve_exact` (re-threading loop) -/
def rethread (prev : ℕ) : List ℕ → Exec CoreAllocator ℕ
  | [] => return prev
  | cur :: curs => do
    writeNode cur fun n => { n with neighborPrev := prev }
    if prev ≠ unused then
      writeNode prev fun n => { n with neighborNext := cur }
    rethread cur curs

/-- Link the last re-threaded node with the old next neighbour.
Source: `reserve_exact` (after the re-threading loop) -/
def closeChain (last neighborNext : ℕ) : Exec CoreAllocator Unit := do
  writeNode last fun n => { n with neighborNext }
  if neighborNext ≠ unused then
    writeNode neighborNext fun n => { n with neighborPrev := last }

/-- Insert the free region `[start, stop)` unless it is empty; the node it got, if any.
Source: `reserve_exact` (`before`, `after`) -/
def carve (start stop : ℕ) : Exec CoreAllocator (List ℕ) := do
  if start < stop then
    return [← insertNodeIntoBin (← subChecked stop start) start]
  return []

/-- A used region `[offset, offset + size)`, popped from the free-node stack and kept out of every bin.
Source: `reserve_exact` (`used`) -/
def insertUsed (size offset : ℕ) : Exec CoreAllocator ℕ := do
  let used ← popFreeNode
  writeNode used fun _ =>
    { dataOffset := offset, dataSize := size, binListPrev := unused, binListNext := unused,
      neighborPrev := unused, neighborNext := unused, used := true }
  return used

/-- Carve `[offset, offset + size)` out of the free region `covering`: a free region before it, the
used one, a free region after it, all threaded between the old neighbours.
Source: `reserve_exact` (from the covering region on) -/
def carveOut (covering offset size : ℕ) : Exec CoreAllocator OffsetAllocation := do
  let stop := offset + size
  let c ← readNode covering
  removeNodeFromBin covering
  let before ← carve c.dataOffset offset
  let used ← insertUsed size offset
  let regionStop ← addChecked 32 c.dataOffset c.dataSize
  let after ← carve stop regionStop
  let last ← rethread c.neighborPrev (before ++ used :: after)
  closeChain last c.neighborNext
  return ⟨offset, used⟩

/-- Reserve the exact range `[offset, offset + size)` and return its handle; `none` if it is not
entirely free. -/
def reserveExact (offset size : ℕ) : Exec CoreAllocator (Option OffsetAllocation) := do
  if size = 0 then return none
  if 2 ^ 32 ≤ offset + size then return none
  if (← ensureCapacity 3) = false then return none
  let covering ← findCovering offset (offset + size) (List.range numLeafBins)
  if covering = unused then return none
  return some (← carveOut covering offset size)

end CoreAllocator

end QuillCache.Store
