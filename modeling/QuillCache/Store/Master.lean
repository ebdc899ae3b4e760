import QuillCache.Lib.Threads
import QuillCache.Store.Segments

/-!
# `MasterService`: the model of the store's control plane

An operation is a `MasterProg`: a sequence of atomic sections over the master's state. The segments mutex is the main
mutex of `Lib.Threads`; every other lock of the source is held for one section only, and every access of an atomic is
a section of its own. Run alone, an operation is the `Exec` program `Prog.run`; run by many threads, it is interleaved
section by section.

The sharded object map is one table. A hash map may be iterated in any order, so runs may shuffle the tables at any
time (`Shuffle`). An append to the op-log is modelled as one that succeeds. The access-frequency sketch, which no other
operation reads, is left out.

Source: `master_service.rs`.
-/

namespace QuillCache.Store

open Lib

structure ObjectMetadata where
  replicas : ReplicaList
  identity : IdentityScope
  leaseUntil : ℕ
  lastAccess : ℕ
  softPinned : Bool
  hardPinned : Bool

def ObjectMetadata.hasCompleteReplica (o : ObjectMetadata) : Bool :=
  o.replicas.values.any Replica.isComplete

def ObjectMetadata.withStatus (status : ReplicaStatus) (o : ObjectMetadata) : ObjectMetadata :=
  { o with replicas := o.replicas.mapEntries fun _ r => { r with status } }

def ObjectMetadata.withoutSegment (name : SegmentName) (o : ObjectMetadata) : ObjectMetadata :=
  { o with replicas := o.replicas.retain fun _ r => r.segmentName ≠ some name }

abbrev ObjectMap := Table ObjectKey ObjectMetadata

structure MasterService where
  objects : ObjectMap
  segments : SegmentState
  strategyName : String
  clock : ℕ
  leaseTtl : ℕ
  highWatermark : F64
  evictionRatio : F64
  segmentHeartbeat : Table SegmentName ℕ
  segmentTtl : ℕ
  segmentOwner : Table SegmentName String
  oplog : Option (List OpLogEntry)

/-- What a section does, for an observer: mount a segment, take an object out of the map without or
with a log entry to follow, put an object in, mark it complete, grant a read, list the candidates of an
eviction and take one of them, look at the object of an upsert and re-open or replace it, append to the log,
or anything else. -/
inductive Section where
  | push (name : SegmentName) (capacity : ℕ)
  | reclaim (key : ObjectKey)
  | retire (key : ObjectKey)
  | insert (key : ObjectKey)
  | finish (key : ObjectKey)
  | grant (key : ObjectKey)
  | choose
  | evict (key : ObjectKey)
  | inspect (key : ObjectKey)
  | reopen (key : ObjectKey)
  | replace (key : ObjectKey)
  | append (entry : OpLogEntry)
  | silent
  deriving DecidableEq

abbrev MasterProg := Prog Section MasterService

namespace MasterService

open Prog

def new (strategy : String) : MasterService where
  objects := ∅
  segments := ⟨[], .create strategy, 0⟩
  strategyName := strategy
  clock := 0
  leaseTtl := 5
  highWatermark := F64.round (95 / 100)
  evictionRatio := F64.round (1 / 10)
  segmentHeartbeat := ∅
  segmentTtl := 0
  segmentOwner := ∅
  oplog := none

def enableOplog (s : MasterService) : MasterService := { s with oplog := some [] }

/-! ## Sections -/

/-- A section on the object map: one shard, or all shards, of the source. -/
def onObjects {α : Type} (l : Section) (m : Exec ObjectMap α) : MasterProg α :=
  section_ l (focus objects (fun s t => { s with objects := t }) m)

/-- Work on the segment state, done by the holder of the segments mutex. -/
def onSegments {α : Type} (m : Exec SegmentState α) : MasterProg α :=
  section_ .silent (focus segments (fun s t => { s with segments := t }) m)

def look {α : Type} (l : Section) (f : MasterService → Option α) : MasterProg α :=
  section_ l fun s => (f s).map fun a => (a, s)

abbrev read {α : Type} (f : MasterService → Option α) : MasterProg α := look .silent f

def update (f : MasterService → MasterService) : MasterProg Unit := section_ .silent (modify f)

def logOp (entry : OpLogEntry) : MasterProg Unit :=
  section_ (.append entry) (modify fun s => { s with oplog := s.oplog.map (· ++ [entry]) })

def now : MasterProg ℕ := read fun s => some s.clock

def tick : MasterProg ℕ := section_ .silent do
  let s ← get
  set { s with clock := (s.clock + 1) % 2 ^ 64 }
  addChecked 64 s.clock 1

/-! ## Segment lifecycle -/

def pushSegment (name : SegmentName) (capacity : ℕ) : Exec MasterService Unit := fun s =>
  (OffsetBufferAllocator.new name capacity).map fun a =>
    ((), { s with segments := { s.segments with allocators := s.segments.allocators ++ [a] } })

def mountSegment (name : SegmentName) (capacity : ℕ) : MasterProg Unit := do
  update fun s => { s with segmentHeartbeat := s.segmentHeartbeat.insert name s.clock }
  acquire
  section_ (.push name capacity) (pushSegment name capacity)
  release
  logOp (.segmentMounted name capacity)

/-- Drop the replicas on `name`, then the objects that have none left. -/
def dropSegmentReplicas (name : SegmentName) (t : ObjectMap) : ObjectMap :=
  (t.mapEntries fun _ o => o.withoutSegment name).retain fun _ o => !o.replicas.entries.isEmpty

def unmountSegment (name : SegmentName) : MasterProg (Except ErrorCode Unit) := do
  acquire
  let mounted ← read fun s => some (s.segments.allocators.any fun a => a.segmentName = name)
  if !mounted then
    release
    return .error .segmentNotFound
  else
    onObjects .silent (modify (dropSegmentReplicas name))
    onSegments (modify fun s =>
      { s with allocators := s.allocators.filter fun a => a.segmentName ≠ name })
    release
    update fun s => { s with segmentHeartbeat := s.segmentHeartbeat.erase name }
    update fun s => { s with segmentOwner := s.segmentOwner.erase name }
    logOp (.segmentUnmounted name)
    return .ok ()

/-! ## Eviction -/

/-- Whether `a` comes before `b` in eviction order: not soft-pinned first, then the older access. -/
def colder (a b : ObjectKey × ℕ × Bool) : Prop :=
  (a.2.2 = false ∧ b.2.2 = true) ∨ (a.2.2 = b.2.2 ∧ a.2.1 ≤ b.2.1)

instance : DecidableRel colder := fun _ _ => inferInstanceAs (Decidable (_ ∨ _))

def evictable (now : ℕ) (o : ObjectMetadata) : Bool := !o.hardPinned && o.leaseUntil ≤ now

def victims (now : ℕ) (t : ObjectMap) : List ObjectKey :=
  let candidates := (t.entries.filter fun e => evictable now e.2).map
    fun e => (e.1, e.2.lastAccess, e.2.softPinned)
  (candidates.insertionSort colder).map Prod.fst

def victimsColdestFirst : MasterProg (List ObjectKey) := do
  let t ← now
  look .choose fun s => some (victims t s.objects)

def takeObject (key : ObjectKey) : Exec ObjectMap (Option ObjectMetadata) := fun t =>
  some (t.lookup key, t.erase key)

def freeObject (o : ObjectMetadata) : MasterProg Unit :=
  onSegments (SegmentState.freeReplicas o.replicas)

/-- The loop of both eviction passes: evict the listed objects until `enough` holds. The caller
holds the segments mutex. -/
def evictLoop (enough : SegmentState → Option Bool) (evicted : ℕ) : List ObjectKey → MasterProg ℕ
  | [] => pure evicted
  | key :: keys => do
    let stop ← read fun s => enough s.segments
    if stop then return evicted
    else
      match ← onObjects (.evict key) (takeObject key) with
      | none => evictLoop enough evicted keys
      | some o => do
        freeObject o
        logOp (.removed key)
        evictLoop enough (evicted + 1) keys

def overWatermark (s : MasterService) (capacity allocated : ℕ) : Bool :=
  capacity ≠ 0 ∧
    ¬F64.ofUInt allocated < F64.mul s.highWatermark (F64.ofUInt capacity)

def evictionTarget (s : MasterService) (capacity : ℕ) : ℕ :=
  F64.toUInt64 (F64.mul (F64.mul s.highWatermark (F64.sub 1 s.evictionRatio)) (F64.ofUInt capacity))

def evictionDue (s : MasterService) : Option (Option ℕ) := do
  let capacity ← s.segments.capacity
  let allocated ← s.segments.allocated
  return if overWatermark s capacity allocated then some (evictionTarget s capacity) else none

def downTo (target : ℕ) (s : SegmentState) : Option Bool :=
  s.allocated.map fun allocated => allocated ≤ target

def freed (needed : ℕ) (s : SegmentState) : Option Bool := do
  let capacity ← s.capacity
  let allocated ← s.allocated
  return needed ≤ capacity - allocated

def evictIfNeededLocked : MasterProg ℕ := do
  match ← read evictionDue with
  | none => return 0
  | some target => do
    let keys ← victimsColdestFirst
    evictLoop (downTo target) 0 keys

def evictIfNeeded : MasterProg ℕ := do
  acquire
  let evicted ← evictIfNeededLocked
  release
  return evicted

def evictToFit (needed : ℕ) : MasterProg ℕ := do
  let keys ← victimsColdestFirst
  evictLoop (freed needed) 0 keys

def askStrategy (size replicaNum : ℕ) (preferred : Option SegmentName) :
    Exec SegmentState (Except ErrorCode (List AllocatedBuffer)) := fun s =>
  SegmentState.onAllocators (s.strategy.allocate size replicaNum preferred []) s

def allocateReplicas (size replicaNum : ℕ) (preferred : Option SegmentName) :
    MasterProg (Except ErrorCode (List AllocatedBuffer)) := do
  let _ ← evictIfNeededLocked
  match ← onSegments (askStrategy size replicaNum preferred) with
  | .ok buffers => return .ok buffers
  | .error .noAvailableSegment => do
    let _ ← evictToFit (min (size * replicaNum) (2 ^ 64 - 1))
    onSegments (askStrategy size replicaNum preferred)
  | .error other => return .error other

/-! ## Two-phase put -/

/-- Refuse a key with a readable object, otherwise take out what an earlier put left. -/
def takeLeftover (key : ObjectKey) : Exec ObjectMap (Except ErrorCode (Option ObjectMetadata)) :=
  fun t =>
    if (t.lookup key).any ObjectMetadata.hasCompleteReplica then
      some (.error .objectAlreadyExists, t)
    else some (.ok (t.lookup key), t.erase key)

def freeLeftover : Option ObjectMetadata → MasterProg Unit
  | none => pure ()
  | some o => freeObject o

def assignIds : List AllocatedBuffer → ReplicaList → Exec SegmentState ReplicaList
  | [], replicas => pure replicas
  | b :: bs, replicas => do
    let s ← get
    let next ← addChecked 32 s.nextReplicaId 1
    set { s with nextReplicaId := next }
    assignIds bs (replicas.insert s.nextReplicaId (.new s.nextReplicaId (.memory b)))

def insertObject (key : ObjectKey) (o : ObjectMetadata) : MasterProg Unit :=
  onObjects (.insert key) (modify fun t => t.insert key o)

def putStart (key : ObjectKey) (identity : IdentityScope) (size : ℕ) (config : ReplicateConfig) :
    MasterProg (Except ErrorCode (List AllocatedBuffer)) := do
  acquire
  match ← onObjects (.reclaim key) (takeLeftover key) with
  | .error e => do
    release
    return .error e
  | .ok leftover => do
    freeLeftover leftover
    match ← allocateReplicas size config.replicaNum config.preferredSegment with
    | .error e => do
      release
      return .error e
    | .ok buffers => do
      let replicas ← onSegments (assignIds buffers ∅)
      let t ← now
      insertObject key {
        replicas, identity, leaseUntil := 0, lastAccess := t
        softPinned := config.withSoftPin, hardPinned := config.withHardPin }
      release
      return .ok buffers

def commitEntry (key : ObjectKey) (o : ObjectMetadata) : OpLogEntry :=
  .putCommitted key o.identity o.replicas.values o.softPinned o.hardPinned

/-- Mark the replicas of an object complete; the object as it is then. -/
def completeObject (key : ObjectKey) : Exec ObjectMap (Option ObjectMetadata) := fun t =>
  some ((t.lookup key).map (·.withStatus .complete), t.update key (·.withStatus .complete))

def logWhen (logging : Bool) (entry : OpLogEntry) : MasterProg Unit :=
  if logging then logOp entry else pure ()

def putEnd (key : ObjectKey) : MasterProg (Except ErrorCode Unit) := do
  let logging ← read fun s => some s.oplog.isSome
  match ← onObjects (.finish key) (completeObject key) with
  | none => return .error .objectNotFound
  | some o => do
    logWhen logging (commitEntry key o)
    return .ok ()

def putRevoke (key : ObjectKey) : MasterProg (Except ErrorCode Unit) := do
  acquire
  match ← onObjects (.reclaim key) (takeObject key) with
  | none => do
    release
    return .error .objectNotFound
  | some o => do
    freeObject o
    release
    return .ok ()

/-! ## Read path -/

def aliveSegments (now ttl : ℕ) (heartbeat : Table SegmentName ℕ) : List SegmentName :=
  (heartbeat.entries.filter fun e => ttl = 0 ∨ now - e.2 ≤ ttl).map Sigma.fst

/-- A replica whose bytes can be read: complete, and on disk or on an alive segment. -/
def readable (alive : List SegmentName) (r : Replica) : Bool :=
  r.isComplete && match r.segmentName with
    | some seg => seg ∈ alive
    | none => true

def readObject (key : ObjectKey) (requester : IdentityScope) (now leaseTtl : ℕ)
    (alive : List SegmentName) : Exec ObjectMap (Except ErrorCode (List Replica)) := fun t =>
  match t.lookup key with
  | none => some (.error .objectNotFound, t)
  | some o =>
    match o.identity.reuseViolationAgainst requester with
    | some violation => some (.error (.unsafeReuse violation), t)
    | none =>
      let complete := o.replicas.values.filter (readable alive)
      if complete.isEmpty then some (.error .objectNotReady, t)
      else if now + leaseTtl < 2 ^ 64 then
        some (.ok complete,
          t.update key fun o => { o with lastAccess := now, leaseUntil := now + leaseTtl })
      else none

def getReplicaList (key : ObjectKey) (requester : IdentityScope) :
    MasterProg (Except ErrorCode (List Replica)) := do
  let t ← now
  let ttl ← read fun s => some s.segmentTtl
  let alive ← read fun s => some (aliveSegments t ttl s.segmentHeartbeat)
  let leaseTtl ← read fun s => some s.leaseTtl
  onObjects (.grant key) (readObject key requester t leaseTtl alive)

def existKey (key : ObjectKey) : MasterProg Bool :=
  read fun s => some ((s.objects.lookup key).any ObjectMetadata.hasCompleteReplica)

/-- Whether the object may be removed at `now`; if so, take it out. -/
def takeUnleased (key : ObjectKey) (now : ℕ) (force : Bool) :
    Exec ObjectMap (Except ErrorCode ObjectMetadata) := fun t =>
  match t.lookup key with
  | none => some (.error .objectNotFound, t)
  | some o =>
    if now < o.leaseUntil ∧ !force then some (.error .objectNotReady, t)
    else some (.ok o, t.erase key)

def remove (key : ObjectKey) (force : Bool) : MasterProg (Except ErrorCode Unit) := do
  let t ← now
  acquire
  match ← onObjects (.retire key) (takeUnleased key t force) with
  | .error e => do
    release
    return .error e
  | .ok o => do
    freeObject o
    release
    logOp (.removed key)
    return .ok ()

/-! ## Upsert and the batch forms -/

/-- What `upsertStart` looks at: whether the object is readable, whether it is leased, and the size of
its first replica. -/
def inspect (key : ObjectKey) (now : ℕ) (t : ObjectMap) : Bool × Bool × ℕ :=
  match t.lookup key with
  | none => (false, false, 0)
  | some o => (o.hasCompleteReplica, now < o.leaseUntil, (o.replicas.values.head?.map Replica.size).getD 0)

/-- Re-open an object for writing in place; its buffers. A missing object panics. -/
def reopenObject (key : ObjectKey) (identity : IdentityScope) (now : ℕ) :
    Exec ObjectMap (List AllocatedBuffer) := fun t =>
  match t.lookup key with
  | none => none
  | some o => some (o.replicas.values.filterMap fun r => r.data.buffer?,
      t.update key fun o => { o.withStatus .initialized with identity, lastAccess := now })

def upsertStart (key : ObjectKey) (identity : IdentityScope) (size : ℕ) (config : ReplicateConfig) :
    MasterProg (Except ErrorCode (List AllocatedBuffer)) := do
  let t ← now
  let (existsComplete, leased, existingSize) ← look (.inspect key) fun s => some (inspect key t s.objects)
  if !existsComplete then putStart key identity size config
  else if leased then return .error .objectNotReady
  else if existingSize = size then
    let buffers ← onObjects (.reopen key) (reopenObject key identity t)
    return .ok buffers
  else
    acquire
    let old ← onObjects (.replace key) (takeObject key)
    freeLeftover old
    release
    putStart key identity size config

def revokeAll : List ObjectKey → MasterProg Unit
  | [] => pure ()
  | k :: ks => do
    let _ ← putRevoke k
    revokeAll ks

def batchPutStartLoop (config : ReplicateConfig) (out : List (List AllocatedBuffer))
    (started : List ObjectKey) : List (ObjectKey × IdentityScope × ℕ) →
      MasterProg (Except ErrorCode (List (List AllocatedBuffer)))
  | [] => return .ok out
  | (key, identity, size) :: items => do
    match ← putStart key identity size config with
    | .ok buffers => batchPutStartLoop config (out ++ [buffers]) (started ++ [key]) items
    | .error e => do
      revokeAll started
      return .error e

def batchPutStart (items : List (ObjectKey × IdentityScope × ℕ)) (config : ReplicateConfig) :
    MasterProg (Except ErrorCode (List (List AllocatedBuffer))) :=
  batchPutStartLoop config [] [] items

def eachKey (f : ObjectKey → MasterProg (Except ErrorCode Unit)) :
    List ObjectKey → MasterProg (Except ErrorCode Unit)
  | [] => return .ok ()
  | k :: ks => do
    match ← f k with
    | .error e => return .error e
    | .ok () => eachKey f ks

def batchPutEnd (keys : List ObjectKey) : MasterProg (Except ErrorCode Unit) := eachKey putEnd keys

def batchPutRevoke (keys : List ObjectKey) : MasterProg (Except ErrorCode Unit) :=
  eachKey putRevoke keys

def batchGetReplicaListLoop (requester : IdentityScope) (out : List (List Replica)) :
    List ObjectKey → MasterProg (Except ErrorCode (List (List Replica)))
  | [] => return .ok out
  | key :: keys => do
    match ← getReplicaList key requester with
    | .error e => return .error e
    | .ok replicas => batchGetReplicaListLoop requester (out ++ [replicas]) keys

def batchGetReplicaList (keys : List ObjectKey) (requester : IdentityScope) :
    MasterProg (Except ErrorCode (List (List Replica))) :=
  batchGetReplicaListLoop requester [] keys

end MasterService

inductive MasterOp where
  | mountSegment (name : SegmentName) (capacity : ℕ)
  | unmountSegment (name : SegmentName)
  | putStart (key : ObjectKey) (identity : IdentityScope) (size : ℕ) (config : ReplicateConfig)
  | putEnd (key : ObjectKey)
  | putRevoke (key : ObjectKey)
  | getReplicaList (key : ObjectKey) (requester : IdentityScope)
  | remove (key : ObjectKey) (force : Bool)
  | upsertStart (key : ObjectKey) (identity : IdentityScope) (size : ℕ) (config : ReplicateConfig)
  | batchPutStart (items : List (ObjectKey × IdentityScope × ℕ)) (config : ReplicateConfig)
  | batchPutEnd (keys : List ObjectKey)
  | batchPutRevoke (keys : List ObjectKey)
  | batchGetReplicaList (keys : List ObjectKey) (requester : IdentityScope)
  | existKey (key : ObjectKey)
  | evictIfNeeded
  | tick

namespace MasterOp

def void {α : Type} (p : MasterProg α) : MasterProg Unit := do
  let _ ← p
  return ()

/-- The program of an operation; its answer goes to the caller and is dropped here. -/
def prog : MasterOp → MasterProg Unit
  | mountSegment name capacity => MasterService.mountSegment name capacity
  | unmountSegment name => void (MasterService.unmountSegment name)
  | putStart key identity size config => void (MasterService.putStart key identity size config)
  | putEnd key => void (MasterService.putEnd key)
  | putRevoke key => void (MasterService.putRevoke key)
  | getReplicaList key requester => void (MasterService.getReplicaList key requester)
  | remove key force => void (MasterService.remove key force)
  | upsertStart key identity size config => void (MasterService.upsertStart key identity size config)
  | batchPutStart items config => void (MasterService.batchPutStart items config)
  | batchPutEnd keys => void (MasterService.batchPutEnd keys)
  | batchPutRevoke keys => void (MasterService.batchPutRevoke keys)
  | batchGetReplicaList keys requester => void (MasterService.batchGetReplicaList keys requester)
  | existKey key => void (MasterService.existKey key)
  | evictIfNeeded => void MasterService.evictIfNeeded
  | tick => void MasterService.tick

end MasterOp

/-! ## Iteration order -/

/-- The same object, with its replicas iterated in another order. -/
def ObjectMetadata.Shuffled (o o' : ObjectMetadata) : Prop :=
  o.replicas.Shuffled o'.replicas ∧ o' = { o with replicas := o'.replicas }

/-- The same master, with the object map and the replicas of each object iterated in another order. -/
structure Shuffle (s s' : MasterService) : Prop where
  objects : ∀ k, Option.Rel ObjectMetadata.Shuffled (s.objects.lookup k) (s'.objects.lookup k)
  rest : s' = { s with objects := s'.objects }

end QuillCache.Store
