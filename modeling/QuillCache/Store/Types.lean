import QuillCache.Lib.Table
import QuillCache.Store.Alloc.Offset

/-!
# The store's data model

Identities and the reuse guard (`quillcache-core`), error codes, replication configurations
(`types.rs`) and replicas. Strings are opaque keys and names, as in the source.

Source: `replica.rs`.
-/

namespace QuillCache.Store

open Lib

abbrev ObjectKey := String

abbrev ReplicaId := ℕ

structure IdentityScope where
  modelId : String
  tokenizerId : String
  adapterId : Option String
  tenantId : String
  deriving DecidableEq

inductive ReuseViolation where
  | model
  | tokenizer
  | adapter
  | tenant
  deriving DecidableEq

def IdentityScope.reuseViolationAgainst (self other : IdentityScope) : Option ReuseViolation :=
  if self.modelId ≠ other.modelId then some .model
  else if self.tokenizerId ≠ other.tokenizerId then some .tokenizer
  else if self.adapterId ≠ other.adapterId then some .adapter
  else if self.tenantId ≠ other.tenantId then some .tenant
  else none

lemma IdentityScope.reuseViolationAgainst_eq_none_iff {self other : IdentityScope} :
    self.reuseViolationAgainst other = none ↔ self = other := by
  cases self
  cases other
  simp only [reuseViolationAgainst, IdentityScope.mk.injEq]
  split_ifs with hm ht ha hn <;> simp_all

inductive ErrorCode where
  | objectNotFound
  | objectAlreadyExists
  | objectNotReady
  | segmentNotFound
  | noAvailableSegment
  | bufferOverflow
  | invalidReplica
  | io (message : String)
  | unsafeReuse (violation : ReuseViolation)
  deriving DecidableEq

structure ReplicateConfig where
  replicaNum : ℕ := 1
  withSoftPin : Bool := false
  withHardPin : Bool := false
  preferredSegment : Option SegmentName := none
  deriving DecidableEq

inductive ReplicaStatus where
  | undefined
  | initialized
  | processing
  | complete
  | removed
  | failed
  deriving DecidableEq

inductive ReplicaData where
  | memory (buffer : AllocatedBuffer)
  | disk (filePath : String) (objectSize : ℕ)
  deriving DecidableEq

def ReplicaData.segmentName : ReplicaData → Option SegmentName
  | .memory buffer => some buffer.segmentName
  | .disk _ _ => none

def ReplicaData.size : ReplicaData → ℕ
  | .memory buffer => buffer.size
  | .disk _ objectSize => objectSize

def ReplicaData.buffer? : ReplicaData → Option AllocatedBuffer
  | .memory buffer => some buffer
  | .disk _ _ => none

@[simp] lemma ReplicaData.segmentName_memory (b : AllocatedBuffer) :
    (ReplicaData.memory b).segmentName = some b.segmentName := rfl

@[simp] lemma ReplicaData.segmentName_disk (path : String) (n : ℕ) :
    (ReplicaData.disk path n).segmentName = none := rfl

@[simp] lemma ReplicaData.buffer?_memory (b : AllocatedBuffer) :
    (ReplicaData.memory b).buffer? = some b := rfl

@[simp] lemma ReplicaData.buffer?_disk (path : String) (n : ℕ) :
    (ReplicaData.disk path n).buffer? = none := rfl

structure Replica where
  id : ReplicaId
  status : ReplicaStatus
  refCount : ℕ
  data : ReplicaData
  deriving DecidableEq

namespace Replica

def new (id : ReplicaId) (data : ReplicaData) : Replica := ⟨id, .initialized, 0, data⟩

def isComplete (r : Replica) : Bool := r.status = .complete

def segmentName (r : Replica) : Option SegmentName := r.data.segmentName

def size (r : Replica) : ℕ := r.data.size

end Replica

abbrev ReplicaList := Table ReplicaId Replica

inductive OpLogEntry where
  | segmentMounted (name : SegmentName) (capacity : ℕ)
  | segmentUnmounted (name : SegmentName)
  | putCommitted (key : ObjectKey) (identity : IdentityScope) (replicas : List Replica)
      (softPinned hardPinned : Bool)
  | removed (key : ObjectKey)
  deriving DecidableEq

end QuillCache.Store
