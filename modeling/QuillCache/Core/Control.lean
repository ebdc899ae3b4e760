import QuillCache.Core.MemoryIndex
import QuillCache.Core.Router
import QuillCache.Store.DataPlaneRun

/-!
# The control plane's view of what is resident where

An embedding of the part of `ControlPlane` that keeps the residency index: the KV events of the
engines and the placements that it infers from its own routing, with a data plane attached or not. The feed of
the conductor is left out.

The calls of the data plane within one call of the control plane are numbered, and each sees its own iteration
orders.

Source: `control.rs`.
-/

namespace QuillCache.Core

open Lib Store

def CacheTier.fromStr (value : String) : Option CacheTier :=
  match value.toLower with
  | "hbm" | "gpu" | "gpu_memory" | "vram" => some .hbm
  | "remote_hbm" | "remote_gpu" | "remote_gpu_memory" => some .remoteHbm
  | "cpu" | "dram" | "cpu_dram" | "host" | "host_memory" => some .cpuDram
  | "ssd" | "local_ssd" | "nvme" | "disk" => some .localSsd
  | "object" | "object_store" | "s3" | "blob" => some .objectStore
  | _ => none

structure EngineEndpoint where
  id : String
  modelId : String
  tokenizerId : String
  tenantId : String
  deriving DecidableEq

structure BlockStoredEvent where
  blockHashes : List String
  parentBlockHash : Option String := none
  blockSize : ℕ
  medium : Option String := none
  loraName : Option String := none
  bytesPerBlock : Option ℕ := none
  deriving DecidableEq

structure BlockRemovedEvent where
  blockHashes : List String
  deriving DecidableEq

inductive KvEvent where
  | blockStored (event : BlockStoredEvent)
  | blockRemoved (event : BlockRemovedEvent)
  | allBlocksCleared
  deriving DecidableEq

structure KvEventBatch where
  engineId : String
  tsMs : Option ℕ := none
  modelId : Option String := none
  tokenizerId : Option String := none
  adapterId : Option String := none
  tenantId : Option String := none
  bytesPerBlock : Option ℕ := none
  events : List KvEvent
  deriving DecidableEq

inductive ControlError where
  | unknownEngine (engineId : String)
  | router (error : RouterError)
  deriving DecidableEq

structure IngestSummary where
  storedBlocks : ℕ
  removedBlocks : ℕ
  cleared : Bool
  totalResidentBlocks : ℕ
  deriving DecidableEq

/-! ## The keys of stored blocks -/

/-- The loop that numbers blocks and makes each one the parent of the next. -/
def chainKeys (scope : IdentityScope) (tokenCount : ℕ) : String → ℕ → List String → List KvBlockKey
  | _, _, [] => []
  | parent, idx, blockHash :: blockHashes =>
    { modelId := scope.modelId
      tokenizerId := scope.tokenizerId
      adapterId := scope.adapterId
      tenantId := scope.tenantId
      prefixHash := parent
      blockHash := blockHash
      blockIndex := idx % 2 ^ 32
      tokenCount := tokenCount } :: chainKeys scope tokenCount blockHash (idx + 1) blockHashes

def storedScope (engine : EngineEndpoint) (batch : KvEventBatch) (event : BlockStoredEvent) : IdentityScope where
  modelId := batch.modelId.getD engine.modelId
  tokenizerId := batch.tokenizerId.getD engine.tokenizerId
  adapterId := batch.adapterId.or event.loraName
  tenantId := batch.tenantId.getD engine.tenantId

def removedScope (engine : EngineEndpoint) (batch : KvEventBatch) : IdentityScope where
  modelId := batch.modelId.getD engine.modelId
  tokenizerId := batch.tokenizerId.getD engine.tokenizerId
  adapterId := batch.adapterId
  tenantId := batch.tenantId.getD engine.tenantId

/-- The records that `apply_stored` puts and `apply_stored_to_data_plane` places. -/
def storedBlocks (engine : EngineEndpoint) (batch : KvEventBatch) (event : BlockStoredEvent) : List CacheResidency :=
  let tier := (event.medium.bind CacheTier.fromStr).getD .hbm
  let blockBytes := (event.bytesPerBlock.or batch.bytesPerBlock).getD (4 * 1024 * 1024)
  (chainKeys (storedScope engine batch event) event.blockSize (event.parentBlockHash.getD "root") 0
    event.blockHashes).map fun key =>
      { key := key
        workerId := engine.id
        tier := tier
        bytes := blockBytes
        lastAccessMs := batch.tsMs.getD 0
        refCount := 0
        pinned := false }

/-! ## Events on an index -/

section index

variable {I : Type} [IndexBackend I]

def applyStored (engine : EngineEndpoint) (batch : KvEventBatch) (event : BlockStoredEvent) (backend : I) : ℕ × I :=
  ((storedBlocks engine batch event).length,
    (storedBlocks engine batch event).foldl (fun backend r => IndexBackend.put r backend) backend)

def applyRemoved (engine : EngineEndpoint) (batch : KvEventBatch) (event : BlockRemovedEvent) (backend : I) : ℕ × I :=
  event.blockHashes.foldl (fun st blockHash =>
    let (removed, backend) := IndexBackend.removeBlock (removedScope engine batch) engine.id blockHash st.2
    (st.1 + removed, backend)) (0, backend)

def ingestEvent (engine : EngineEndpoint) (batch : KvEventBatch) (st : IngestSummary × I) : KvEvent → IngestSummary × I
  | .blockStored event =>
    let (stored, backend) := applyStored engine batch event st.2
    ({ st.1 with storedBlocks := st.1.storedBlocks + stored }, backend)
  | .blockRemoved event =>
    let (removed, backend) := applyRemoved engine batch event st.2
    ({ st.1 with removedBlocks := st.1.removedBlocks + removed }, backend)
  | .allBlocksCleared => ({ st.1 with cleared := true }, IndexBackend.clearWorker engine.id st.2)

def ingestBatch (batch : KvEventBatch) (engines : List EngineEndpoint) (backend : I) :
    Except ControlError (IngestSummary × I) :=
  match engines.find? fun engine => engine.id = batch.engineId with
  | none => .error (.unknownEngine batch.engineId)
  | some engine =>
    let (summary, backend) := batch.events.foldl (ingestEvent engine batch) (⟨0, 0, false, 0⟩, backend)
    .ok ({ summary with totalResidentBlocks := IndexBackend.len backend }, backend)

def mirrorDataPlaneUpdate (update : DataPlaneUpdate) (backend : I) : I :=
  let evict (backend : I) (r : CacheResidency) : I :=
    (IndexBackend.removeBlock (.fromKey r.key) r.workerId r.key.blockHash backend).2
  let backend := update.removed.foldl evict backend
  update.resident.foldl (fun backend r => IndexBackend.put r (evict backend r)) backend

end index

/-! ## Events on a data plane -/

def eventCalls (engine : EngineEndpoint) (batch : KvEventBatch) : KvEvent → List StoreDataPlane.Call
  | .blockStored event => (storedBlocks engine batch event).map .place
  | .blockRemoved event => event.blockHashes.map fun blockHash =>
    .removeBlock (removedScope engine batch) engine.id blockHash
  | .allBlocksCleared => [.clearWorker engine.id]

def ordered (orders : ℕ → HashOrder) (calls : List StoreDataPlane.Call) : List (HashOrder × StoreDataPlane.Call) :=
  calls.zipIdx.map fun c => (orders c.2, c.1)

/-- Source: `ControlPlane::apply_batch_to_data_plane`, `apply_stored_to_data_plane` -/
def applyBatchToDataPlane (codec : Codec WalRecord) (orders : ℕ → HashOrder) (engine : EngineEndpoint)
    (batch : KvEventBatch) (plane : StoreDataPlane) : Option (DataPlaneUpdate × StoreDataPlane) :=
  (StoreDataPlane.runAll codec (ordered orders (batch.events.flatMap (eventCalls engine batch))) plane).map
    fun r => (r.1.foldl DataPlaneUpdate.append {}, r.2)

/-! ## The control plane -/

/-- Without a data plane, `data_plane` is the source's `NoDataPlane`. -/
structure ControlPlane (I : Type) where
  engines : List EngineEndpoint
  residency : I
  dataPlane : Option StoreDataPlane

namespace ControlPlane

variable {I : Type} [IndexBackend I]

/-- Source: `observe_placement`, one block -/
def observeBlock (codec : Codec WalRecord) (engineId : String) (blockBytes : ℕ)
    (st : List DataPlaneAction × ControlPlane I) (block : HashOrder × KvBlockKey) :
    Option (List DataPlaneAction × ControlPlane I) :=
  let residency := CacheResidency.hbm engineId block.2 blockBytes
  match st.2.dataPlane with
  | none => some (st.1, { st.2 with residency := IndexBackend.put residency st.2.residency })
  | some plane => do
    let (update, plane) ← plane.place codec block.1 residency
    return (st.1 ++ update.actions,
      { st.2 with
        residency := mirrorDataPlaneUpdate update st.2.residency
        dataPlane := some plane })

def observePlacement (codec : Codec WalRecord) (orders : ℕ → HashOrder) (engineId : String)
    (blocks : List KvBlockKey) (blockBytes : ℕ) (self : ControlPlane I) :
    Option (List DataPlaneAction × ControlPlane I) :=
  (blocks.zipIdx.map fun b => (orders b.2, b.1)).foldlM (observeBlock codec engineId blockBytes) ([], self)

/-- An unknown engine is refused before anything changes. -/
def ingest (codec : Codec WalRecord) (orders : ℕ → HashOrder) (batch : KvEventBatch) (self : ControlPlane I) :
    Option (Except ControlError IngestSummary × ControlPlane I) :=
  match self.engines.find? fun engine => engine.id = batch.engineId with
  | none => some (.error (.unknownEngine batch.engineId), self)
  | some engine =>
    match ingestBatch batch self.engines self.residency with
    | .error e => some (.error e, self)
    | .ok (summary, residency) =>
      match self.dataPlane with
      | none => some (.ok summary, { self with residency := residency })
      | some plane => do
        let (update, plane) ← applyBatchToDataPlane codec orders engine batch plane
        let residency := mirrorDataPlaneUpdate update residency
        return (.ok { summary with totalResidentBlocks := IndexBackend.len residency },
          { self with
            residency := residency
            dataPlane := some plane })

end ControlPlane

end QuillCache.Core
