import QuillCache.Store.Types

/-!
# Blocks, tiers and residency

The vocabulary that `quillcache-core` shares with the store: the key of a KV block, which carries the
identity it was computed under, the tiers a block can live in, the record that a block is resident on a
worker, and what a data plane reports about the blocks it moves.

Source: `quillcache-core`.
-/

namespace QuillCache.Core

open Store

structure KvBlockKey where
  modelId : String
  tokenizerId : String
  adapterId : Option String
  tenantId : String
  prefixHash : String
  blockHash : String
  blockIndex : ℕ
  tokenCount : ℕ
  deriving DecidableEq

inductive CacheTier where
  | hbm
  | remoteHbm
  | cpuDram
  | localSsd
  | objectStore
  deriving DecidableEq

structure CacheResidency where
  key : KvBlockKey
  workerId : String
  tier : CacheTier
  bytes : ℕ
  lastAccessMs : ℕ
  refCount : ℕ
  pinned : Bool
  deriving DecidableEq

namespace CacheResidency

def hbm (workerId : String) (key : KvBlockKey) (bytes : ℕ) : CacheResidency where
  key := key
  workerId := workerId
  tier := .hbm
  bytes := bytes
  lastAccessMs := 0
  refCount := 0
  pinned := false

def address (r : CacheResidency) : String × KvBlockKey := (r.workerId, r.key)

end CacheResidency

structure CostModel where
  prefillUsPerToken : ℕ := 45
  decodeUsPerToken : ℕ := 80
  queueUsPerPrefillToken : ℕ := 4
  runningDecodePenaltyUs : ℕ := 1500
  hbmHitUs : ℕ := 5
  remoteHbmUsPerMb : ℕ := 20
  cpuDramUsPerMb : ℕ := 55
  localSsdUsPerMb : ℕ := 280
  objectStoreUsPerMb : ℕ := 1800
  crossDomainPenaltyUs : ℕ := 350
  deriving DecidableEq

def CostModel.transferCostUs (cost : CostModel) (tier : CacheTier) (bytes : ℕ)
    (sameWorker sameLocalityDomain : Bool) : ℕ :=
  if sameWorker ∧ tier = .hbm then cost.hbmHitUs
  else
    let mb := max ((bytes + (1024 * 1024 - 1)) / (1024 * 1024)) 1
    let base := (match tier with
      | .hbm | .remoteHbm => cost.remoteHbmUsPerMb
      | .cpuDram => cost.cpuDramUsPerMb
      | .localSsd => cost.localSsdUsPerMb
      | .objectStore => cost.objectStoreUsPerMb) * mb
    if sameWorker || sameLocalityDomain then base else base + cost.crossDomainPenaltyUs

inductive DataPlaneActionKind where
  | admitBlock
  | hit
  | promote
  | demote
  | evict
  | remove
  deriving DecidableEq

structure DataPlaneAction where
  kind : DataPlaneActionKind
  workerId : String
  key : KvBlockKey
  fromTier : Option CacheTier
  toTier : Option CacheTier
  bytes : ℕ
  estimatedUs : ℕ
  deriving DecidableEq

structure DataPlaneUpdate where
  actions : List DataPlaneAction := []
  resident : List CacheResidency := []
  removed : List CacheResidency := []
  deriving DecidableEq

namespace DataPlaneUpdate

/-- The update after another one; the lists are extended one by one in the source. -/
def append (u v : DataPlaneUpdate) : DataPlaneUpdate :=
  ⟨u.actions ++ v.actions, u.resident ++ v.resident, u.removed ++ v.removed⟩

def deleted (u : DataPlaneUpdate) : List (String × KvBlockKey) := u.removed.map CacheResidency.address

def filed (u : DataPlaneUpdate) : List ((String × KvBlockKey) × CacheResidency) :=
  u.resident.map fun r => (r.address, r)

@[simp] lemma deleted_append (u v : DataPlaneUpdate) : (u.append v).deleted = u.deleted ++ v.deleted :=
  List.map_append

@[simp] lemma filed_append (u v : DataPlaneUpdate) : (u.append v).filed = u.filed ++ v.filed :=
  List.map_append

lemma foldl_append (u : DataPlaneUpdate) (us : List DataPlaneUpdate) :
    us.foldl append u = u.append (us.foldl append {}) := by
  induction us using List.reverseRecOn with
  | nil => simp [append]
  | append_singleton us v ih =>
    rw [List.foldl_append, List.foldl_append, ih]
    simp [append]

end DataPlaneUpdate

end QuillCache.Core

namespace QuillCache.Store.IdentityScope

open QuillCache.Core

def fromKey (key : KvBlockKey) : IdentityScope :=
  ⟨key.modelId, key.tokenizerId, key.adapterId, key.tenantId⟩

def reuseViolation (self : IdentityScope) (key : KvBlockKey) : Option ReuseViolation :=
  if self.modelId ≠ key.modelId then some .model
  else if self.tokenizerId ≠ key.tokenizerId then some .tokenizer
  else if self.adapterId ≠ key.adapterId then some .adapter
  else if self.tenantId ≠ key.tenantId then some .tenant
  else none

end QuillCache.Store.IdentityScope

namespace QuillCache.Store

open QuillCache.Core

def IdentityScope.matches (self : IdentityScope) (key : KvBlockKey) : Bool := (self.reuseViolation key).isNone

lemma IdentityScope.matches_iff {scope : IdentityScope} {key : KvBlockKey} :
    scope.matches key = true ↔ scope = .fromKey key := by
  cases scope
  simp only [IdentityScope.matches, reuseViolation, fromKey, IdentityScope.mk.injEq]
  split_ifs <;> simp_all

end QuillCache.Store
