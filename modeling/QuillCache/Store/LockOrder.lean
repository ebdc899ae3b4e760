import QuillCache.Lib.Locks
import QuillCache.Store.Lifecycle
import QuillCache.Store.Recovery
import QuillCache.Store.RegexRead

/-!
# The order of the master's mutexes

The programs of `Store.Master` show the segments mutex; each of their sections stands for an access of an atomic or for
a critical section of another mutex: a shard of the object map or all of them, the heartbeats, the owners, the access
sketch, the op-log. `Guards` says which; for a section without a name it leaves open which of them it is, so that what
is proved holds for the mutexes of the source in particular.

The segments mutex comes first, then the shards by index, then the other mutexes, none of which is held while another
one is taken. All operations keep this order, so there is no deadlock, for any number of shards and threads
(`master_deadlock_free`).

Source: `master_service.rs`.
-/

namespace QuillCache.Store

open Lib Prog List
open Option hiding bind_congr bind_assoc

/-- The mutexes of a master with `n` shards. -/
inductive Mutex (n : ℕ) where
  | segments
  | shard (i : Fin n)
  | heartbeat
  | owner
  | hotness
  | oplog
  deriving DecidableEq, Fintype

namespace LockOrder

open MasterService

/-! ## The operations that are not requests -/

def mountSegmentFor (client : String) (name : SegmentName) (capacity : ℕ) : MasterProg Unit := do
  mountSegment name capacity
  update (setOwner client name)

def clientHeartbeat (client : String) : MasterProg Unit := do
  let t ← now
  let owned ← read fun s => some (s.segmentsOwnedBy client)
  update fun s => { s with segmentHeartbeat := s.segmentHeartbeat.insertAll id (fun _ => t) owned }

def remountSegments (client : String) : List (SegmentName × ℕ) → MasterProg Unit
  | [] => clientHeartbeat client
  | (name, capacity) :: segments => do
    acquire
    let mounted ← read fun s => some (s.mounted name)
    release
    if mounted then update (setOwner client name) else mountSegmentFor client name capacity
    remountSegments client segments

lemma remountSegments_run (client : String) (segments : List (SegmentName × ℕ)) :
    (remountSegments client segments).run = (Lifecycle.remountSegments client segments).run := by
  induction segments with
  | nil =>
    simp only [remountSegments, Lifecycle.remountSegments, clientHeartbeat, Lifecycle.clientHeartbeat, now, look,
      update, run_bind, run_section, map_some]
  | cons segment segments ih =>
    obtain ⟨name, capacity⟩ := segment
    simp only [remountSegments, Lifecycle.remountSegments, Lifecycle.remountSegment, look, run_bind, run_section,
      run_acquire, run_release, pure_bind, bind_assoc, map_some]
    refine bind_congr fun mounted => ?_
    cases mounted with
    | true => simp only [update, run_bind, run_section, if_true, ih]
    | false =>
      simp only [Bool.false_eq_true, if_false, mountSegmentFor, Lifecycle.mountSegmentFor, update, run_bind,
        run_section, Lifecycle.mountSegment_run, ih]

def unmountSegmentFor (client : String) (name : SegmentName) : MasterProg (Except ErrorCode Unit) := do
  let owns ← read fun s => some (s.segmentOwner.lookup name == some client)
  if !owns then return .error .segmentNotFound else unmountSegment name

lemma unmountSegmentFor_run (client : String) (name : SegmentName) :
    (unmountSegmentFor client name).run = (Lifecycle.unmountSegmentFor client name).run := by
  simp only [unmountSegmentFor, Lifecycle.unmountSegmentFor, look, run_bind, run_section, map_some]
  refine bind_congr fun owns => ?_
  cases owns with
  | false => rfl
  | true => exact (Lifecycle.unmountSegment_run name).symm

def setSegmentTtl (ttl : ℕ) : MasterProg Unit := update fun s => { s with segmentTtl := ttl }

def heartbeat (segment : SegmentName) : MasterProg (Except ErrorCode Unit) := do
  let t ← now
  section_ .silent (beat segment t)

def segmentAlive (segment : SegmentName) : MasterProg Bool := do
  let ttl ← read fun s => some s.segmentTtl
  let t ← now
  read fun s => some ((s.segmentHeartbeat.lookup segment).any fun last => ttl = 0 ∨ t - last ≤ ttl)

def deadAmong : List SegmentName → MasterProg (List SegmentName)
  | [] => return []
  | name :: names => do
    let alive ← segmentAlive name
    let dead ← deadAmong names
    return if alive then dead else name :: dead

def deadSegments : MasterProg (List SegmentName) := do
  acquire
  let names ← read fun s => some (s.segments.allocators.map fun a => a.segmentName)
  release
  deadAmong names

def batchExistKey : List ObjectKey → MasterProg (List Bool)
  | [] => return []
  | key :: keys => do
    let found ← existKey key
    let rest ← batchExistKey keys
    return found :: rest

/-- Read under the segments mutex. Source: `MasterService::segment_count`, `capacity`, `allocated`. -/
def observe {α : Type} (f : SegmentState → Option α) : MasterProg α := do
  acquire
  let a ← read fun s => f s.segments
  release
  return a

/-- The entries of each shard are counted in a section of their own.
Source: `MasterService::object_count`, `sharded_map.rs` `ShardedMap::len` -/
def objectCount {n : ℕ} (shardOf : ObjectKey → Fin n) : List (Fin n) → MasterProg ℕ
  | [] => return 0
  | i :: shards => do
    let size ← read fun s => some (s.objects.keys.countP fun key => shardOf key = i)
    let rest ← objectCount shardOf shards
    return size + rest

/-- The count is not part of the state. -/
def hotness : MasterProg Unit := section_ .silent (pure ())

/-- All operations of the master; `upsert_end` and `upsert_revoke` are `put_end` and `put_revoke`. -/
inductive Op where
  | request (op : MasterOp)
  | mountSegmentFor (client : String) (name : SegmentName) (capacity : ℕ)
  | remountSegments (client : String) (segments : List (SegmentName × ℕ))
  | unmountSegmentFor (client : String) (name : SegmentName)
  | clientHeartbeat (client : String)
  | segmentsOwnedBy (client : String)
  | setSegmentTtl (ttl : ℕ)
  | heartbeat (segment : SegmentName)
  | segmentAlive (segment : SegmentName)
  | deadSegments
  | batchExistKey (keys : List ObjectKey)
  | getReplicaListByRegex (regex : String → Except String (ObjectKey → Bool)) (pattern : String)
      (requester : IdentityScope)
  | segmentCount
  | capacity
  | allocated
  | objectCount
  | hotness
  | snapshot

open MasterOp (void)

variable {n : ℕ} (shardOf : ObjectKey → Fin n)

/-- The program of an operation; its answer goes to the caller and is dropped here. -/
def Op.prog : Op → MasterProg Unit
  | request op => op.prog
  | mountSegmentFor client name bytes => LockOrder.mountSegmentFor client name bytes
  | remountSegments client segments => LockOrder.remountSegments client segments
  | unmountSegmentFor client name => void (LockOrder.unmountSegmentFor client name)
  | clientHeartbeat client => LockOrder.clientHeartbeat client
  | segmentsOwnedBy client => void (read fun s => some (s.segmentsOwnedBy client))
  | setSegmentTtl ttl => LockOrder.setSegmentTtl ttl
  | heartbeat segment => void (LockOrder.heartbeat segment)
  | segmentAlive segment => void (LockOrder.segmentAlive segment)
  | deadSegments => void LockOrder.deadSegments
  | batchExistKey keys => void (LockOrder.batchExistKey keys)
  | getReplicaListByRegex regex pattern requester =>
    void (MasterService.getReplicaListByRegex regex pattern requester)
  | segmentCount => void (observe fun s => some s.allocators.length)
  | capacity => void (observe SegmentState.capacity)
  | allocated => void (observe SegmentState.allocated)
  | objectCount => void (LockOrder.objectCount shardOf (List.finRange n))
  | hotness => LockOrder.hotness
  | snapshot => void MasterService.snapshot

def runAll : List Op → MasterProg Unit
  | [] => pure ()
  | op :: ops => do
    op.prog shardOf
    runAll ops

/-! ## The mutexes of a section -/

/-- The key whose shard a section works on, if its name says so. -/
def keyOf : Section → Option ObjectKey
  | .reclaim key | .retire key | .insert key | .finish key | .grant key | .evict key | .inspect key | .reopen key
  | .replace key => some key
  | _ => none

def allShards (n : ℕ) : List (Mutex n) := (List.finRange n).map .shard

/-- The mutexes beside that of the segments under which the source runs a section: none or that of the op-log for an
entry, without or with an op-log; that of its shard for the work on one object; all shards for the candidates of an
eviction. A section without a name is an access of an atomic or of the segments, which takes no further mutex, or is
the critical section of the heartbeats, the owners, the sketch, one shard or all shards.
Source: `sharded_map.rs` `ShardedMap::with_shard`, `with_all` -/
inductive Guards (logging : Bool) : Section → List (Mutex n) → Prop where
  | push (name : SegmentName) (capacity : ℕ) : Guards logging (.push name capacity) []
  | shard {l : Section} {key : ObjectKey} (hkey : keyOf l = some key) : Guards logging l [.shard (shardOf key)]
  | choose : Guards logging .choose (allShards n)
  | append (entry : OpLogEntry) : Guards logging (.append entry) (if logging then [.oplog] else [])
  | access : Guards logging .silent []
  | leaf {x : Mutex n} (hx : x = .heartbeat ∨ x = .owner ∨ x = .hotness) : Guards logging .silent [x]
  | anyShard (i : Fin n) : Guards logging .silent [.shard i]
  | all : Guards logging .silent (allShards n)

def rank : Mutex n → ℕ
  | .segments => 0
  | .shard i => i + 1
  | .heartbeat | .owner | .hotness | .oplog => n + 1

lemma rank_allShards : (allShards n).Pairwise fun x y => rank x < rank y :=
  pairwise_map.mpr ((pairwise_lt_finRange n).imp fun hlt => Nat.succ_lt_succ hlt)

lemma Guards.sorted {shardOf : ObjectKey → Fin n} {logging : Bool} {l : Section} {xs : List (Mutex n)}
    (h : Guards shardOf logging l xs) :
    xs.Pairwise (fun x y => rank x < rank y) ∧ ∀ x ∈ xs, rank (n := n) .segments < rank x := by
  have hpos : ∀ x : Mutex n, x ≠ .segments → rank (n := n) .segments < rank x := by
    intro x hx
    cases x with
    | segments => exact absurd rfl hx
    | _ => exact Nat.succ_pos _
  have hall : ∀ x ∈ allShards n, rank (n := n) .segments < rank x := by
    intro x hx
    obtain ⟨i, -, rfl⟩ := List.mem_map.mp hx
    exact hpos _ nofun
  have hone : ∀ x : Mutex n, x ≠ .segments → [x].Pairwise (fun x y => rank x < rank y) ∧
      ∀ y ∈ [x], rank (n := n) .segments < rank y := fun x hx =>
    ⟨pairwise_singleton _ _, fun y hy => (mem_singleton.mp hy) ▸ hpos x hx⟩
  have hnil : ([] : List (Mutex n)).Pairwise (fun x y => rank x < rank y) ∧
      ∀ y ∈ ([] : List (Mutex n)), rank (n := n) .segments < rank y := ⟨.nil, nofun⟩
  cases h with
  | push => exact hnil
  | shard => exact hone _ nofun
  | choose => exact ⟨rank_allShards, hall⟩
  | append =>
    split_ifs
    · exact hone _ nofun
    · exact hnil
  | access => exact hnil
  | leaf hx =>
    refine hone _ ?_
    rintro rfl
    rcases hx with hx | hx | hx <;> cases hx
  | anyShard => exact hone _ nofun
  | all => exact ⟨rank_allShards, hall⟩

/-! ## The segments mutex is taken and released in turn -/

section parts

lemma inner_freeLeftover (o : Option ObjectMetadata) : Inner (freeLeftover o) := by
  cases o with
  | none => exact inner_pure ()
  | some o => exact inner_section

lemma inner_logWhen (logging : Bool) (entry : OpLogEntry) : Inner (logWhen logging entry) := by
  unfold logWhen
  split_ifs
  · exact inner_section
  · exact inner_pure ()

lemma inner_evictLoop (enough : SegmentState → Option Bool) (evicted : ℕ) (keys : List ObjectKey) :
    Inner (evictLoop enough evicted keys) := by
  induction keys generalizing evicted with
  | nil => exact inner_pure evicted
  | cons key keys ih =>
    refine inner_section.bind fun stop => ?_
    cases stop with
    | true => exact inner_pure evicted
    | false =>
      refine inner_section.bind fun o => ?_
      cases o with
      | none => exact ih evicted
      | some o => exact inner_section.bind fun _ => inner_section.bind fun _ => ih (evicted + 1)

lemma inner_victimsColdestFirst : Inner victimsColdestFirst := inner_section.bind fun _ => inner_section

lemma inner_evictIfNeededLocked : Inner evictIfNeededLocked := by
  refine inner_section.bind fun due => ?_
  cases due with
  | none => exact inner_pure 0
  | some target => exact inner_victimsColdestFirst.bind fun keys => inner_evictLoop _ 0 keys

lemma inner_allocateReplicas (size replicaNum : ℕ) (preferred : Option SegmentName) :
    Inner (allocateReplicas size replicaNum preferred) := by
  refine inner_evictIfNeededLocked.bind fun _ => inner_section.bind fun r => ?_
  rcases r with e | buffers
  · cases e with
    | noAvailableSegment =>
      refine Inner.bind ?_ fun _ => inner_section
      exact inner_victimsColdestFirst.bind fun keys => inner_evictLoop _ 0 keys
    | _ => exact inner_pure _
  · exact inner_pure _

lemma holding_answer {α : Type} (a : α) : Holding (do release; return a : MasterProg α) :=
  holding_release (inner_pure a).outer

end parts

section operations

lemma outer_putStart (key : ObjectKey) (identity : IdentityScope) (size : ℕ) (config : ReplicateConfig) :
    Outer (putStart key identity size config) := by
  refine outer_acquire (inner_section.holding fun r => ?_)
  cases r with
  | error e => exact holding_answer _
  | ok leftover =>
    refine (inner_freeLeftover leftover).holding fun _ => ?_
    refine (inner_allocateReplicas size _ _).holding fun r => ?_
    cases r with
    | error e => exact holding_answer _
    | ok buffers =>
      refine inner_section.holding fun replicas => inner_section.holding fun t => ?_
      exact inner_section.holding fun _ => holding_answer _

lemma inner_putEnd (key : ObjectKey) : Inner (putEnd key) := by
  refine inner_section.bind fun logging => inner_section.bind fun o => ?_
  cases o with
  | none => exact inner_pure _
  | some o => exact (inner_logWhen logging _).bind fun _ => inner_pure _

lemma outer_putRevoke (key : ObjectKey) : Outer (putRevoke key) := by
  refine outer_acquire (inner_section.holding fun o => ?_)
  cases o with
  | none => exact holding_answer _
  | some o => exact inner_section.holding fun _ => holding_answer _

lemma inner_getReplicaList (key : ObjectKey) (requester : IdentityScope) : Inner (getReplicaList key requester) :=
  inner_section.bind fun _ => inner_section.bind fun _ => inner_section.bind fun _ => inner_section.bind fun _ =>
    inner_section

lemma outer_remove (key : ObjectKey) (force : Bool) : Outer (remove key force) := by
  refine inner_section.then_outer fun t => outer_acquire (inner_section.holding fun r => ?_)
  cases r with
  | error e => exact holding_answer _
  | ok o =>
    refine inner_section.holding fun _ => holding_release ?_
    exact inner_section.then_outer fun _ => (inner_pure _).outer

lemma outer_upsertStart (key : ObjectKey) (identity : IdentityScope) (size : ℕ) (config : ReplicateConfig) :
    Outer (upsertStart key identity size config) := by
  refine inner_section.then_outer fun t => inner_section.then_outer fun found => ?_
  obtain ⟨existsComplete, leased, existingSize⟩ := found
  dsimp only
  split_ifs
  · exact outer_putStart key identity size config
  · exact (inner_pure _).outer
  · exact inner_section.then_outer fun _ => (inner_pure _).outer
  · refine outer_acquire (inner_section.holding fun old => (inner_freeLeftover old).holding fun _ => ?_)
    exact holding_release (outer_putStart key identity size config)

lemma composes_outer : Composes Outer where
  pure a := (inner_pure a).outer
  bind hp hf := hp.bind hf

lemma outer_mountSegment (name : SegmentName) (capacity : ℕ) : Outer (mountSegment name capacity) := by
  refine inner_section.then_outer fun _ => outer_acquire (inner_section.holding fun _ => ?_)
  exact holding_release inner_section.outer

lemma outer_unmountSegment (name : SegmentName) : Outer (unmountSegment name) := by
  refine outer_acquire (inner_section.holding fun mounted => ?_)
  cases mounted with
  | false => exact holding_answer _
  | true =>
    refine inner_section.holding fun _ => inner_section.holding fun _ => holding_release ?_
    refine inner_section.then_outer fun _ => inner_section.then_outer fun _ => ?_
    exact inner_section.then_outer fun _ => (inner_pure _).outer

lemma outer_evictIfNeeded : Outer evictIfNeeded :=
  outer_acquire (inner_evictIfNeededLocked.holding fun _ => holding_answer _)

lemma outer_void {α : Type} {p : MasterProg α} (hp : Outer p) : Outer (void p) := composes_outer.void hp

lemma outer_request (op : MasterOp) : Outer op.prog := by
  cases op with
  | mountSegment name capacity => exact outer_mountSegment name capacity
  | unmountSegment name => exact outer_void (outer_unmountSegment name)
  | putStart key identity size config => exact outer_void (outer_putStart key identity size config)
  | putEnd key => exact outer_void (inner_putEnd key).outer
  | putRevoke key => exact outer_void (outer_putRevoke key)
  | getReplicaList key requester => exact outer_void (inner_getReplicaList key requester).outer
  | remove key force => exact outer_void (outer_remove key force)
  | upsertStart key identity size config => exact outer_void (outer_upsertStart key identity size config)
  | batchPutStart items config =>
    exact outer_void (composes_outer.batchPutStartLoop (fun key identity size => outer_putStart key identity size config)
      outer_putRevoke [] [] items)
  | batchPutEnd keys => exact outer_void (composes_outer.eachKey keys fun key _ => (inner_putEnd key).outer)
  | batchPutRevoke keys => exact outer_void (composes_outer.eachKey keys fun key _ => outer_putRevoke key)
  | batchGetReplicaList keys requester =>
    exact outer_void (composes_outer.batchGetReplicaListLoop
      (fun key => (inner_getReplicaList key requester).outer) [] keys)
  | existKey key => exact outer_void inner_section.outer
  | evictIfNeeded => exact outer_void outer_evictIfNeeded
  | tick => exact outer_void inner_section.outer

lemma outer_mountSegmentFor (client : String) (name : SegmentName) (capacity : ℕ) :
    Outer (mountSegmentFor client name capacity) :=
  (outer_mountSegment name capacity).bind fun _ => inner_section.outer

lemma inner_clientHeartbeat (client : String) : Inner (clientHeartbeat client) :=
  inner_section.bind fun _ => inner_section.bind fun _ => inner_section

lemma outer_remountSegments (client : String) (segments : List (SegmentName × ℕ)) :
    Outer (remountSegments client segments) := by
  induction segments with
  | nil => exact (inner_clientHeartbeat client).outer
  | cons segment segments ih =>
    refine outer_acquire (inner_section.holding fun mounted => holding_release ?_)
    cases mounted with
    | true => exact inner_section.then_outer fun _ => ih
    | false => exact (outer_mountSegmentFor client _ _).bind fun _ => ih

lemma outer_unmountSegmentFor (client : String) (name : SegmentName) : Outer (unmountSegmentFor client name) := by
  refine inner_section.then_outer fun owns => ?_
  cases owns with
  | false => exact (inner_pure _).outer
  | true => exact outer_unmountSegment name

lemma inner_segmentAlive (segment : SegmentName) : Inner (segmentAlive segment) :=
  inner_section.bind fun _ => inner_section.bind fun _ => inner_section

lemma inner_deadAmong (names : List SegmentName) : Inner (deadAmong names) := by
  induction names with
  | nil => exact inner_pure _
  | cons name names ih => exact (inner_segmentAlive name).bind fun _ => ih.bind fun _ => inner_pure _

lemma outer_deadSegments : Outer deadSegments :=
  outer_acquire (inner_section.holding fun names => holding_release (inner_deadAmong names).outer)

lemma inner_batchExistKey (keys : List ObjectKey) : Inner (batchExistKey keys) := by
  induction keys with
  | nil => exact inner_pure _
  | cons key keys ih => exact Inner.bind inner_section fun _ => ih.bind fun _ => inner_pure _

lemma inner_regexLoop (requester : IdentityScope) (keys : List ObjectKey) (out : Table ObjectKey (List Replica)) :
    Inner (regexLoop requester keys out) := by
  induction keys generalizing out with
  | nil => exact inner_pure _
  | cons key keys ih =>
    refine (inner_getReplicaList key requester).bind fun r => ?_
    cases r with
    | error e => exact ih _
    | ok replicas => exact ih _

lemma inner_getReplicaListByRegex (regex : String → Except String (ObjectKey → Bool)) (pattern : String)
    (requester : IdentityScope) : Inner (getReplicaListByRegex regex pattern requester) := by
  unfold getReplicaListByRegex
  cases regex pattern with
  | error e => exact inner_pure _
  | ok isMatch => exact inner_section.bind fun keys => (inner_regexLoop requester keys ∅).bind fun _ => inner_pure _

lemma inner_objectCount (shards : List (Fin n)) : Inner (objectCount shardOf shards) := by
  induction shards with
  | nil => exact inner_pure _
  | cons i shards ih => exact inner_section.bind fun _ => ih.bind fun _ => inner_pure _

lemma outer_observe {α : Type} (f : SegmentState → Option α) : Outer (observe f) :=
  outer_acquire (inner_section.holding fun _ => holding_answer _)

lemma outer_snapshot : Outer MasterService.snapshot := by
  refine outer_acquire (inner_section.holding fun _ => inner_section.holding fun _ => ?_)
  exact inner_section.holding fun _ => inner_section.holding fun _ => holding_answer _

/-- **Every operation takes the segments mutex in turn.** -/
theorem outer_prog (op : Op) : Outer (op.prog shardOf) := by
  cases op with
  | request op => exact outer_request op
  | mountSegmentFor client name bytes => exact outer_mountSegmentFor client name bytes
  | remountSegments client segments => exact outer_remountSegments client segments
  | unmountSegmentFor client name => exact outer_void (outer_unmountSegmentFor client name)
  | clientHeartbeat client => exact (inner_clientHeartbeat client).outer
  | segmentsOwnedBy client => exact outer_void inner_section.outer
  | setSegmentTtl ttl => exact inner_section.outer
  | heartbeat segment => exact outer_void (inner_section.bind fun _ => inner_section).outer
  | segmentAlive segment => exact outer_void (inner_segmentAlive segment).outer
  | deadSegments => exact outer_void outer_deadSegments
  | batchExistKey keys => exact outer_void (inner_batchExistKey keys).outer
  | getReplicaListByRegex regex pattern requester =>
    exact outer_void (inner_getReplicaListByRegex regex pattern requester).outer
  | segmentCount => exact outer_void (outer_observe _)
  | capacity => exact outer_void (outer_observe _)
  | allocated => exact outer_void (outer_observe _)
  | objectCount => exact outer_void (inner_objectCount shardOf _).outer
  | hotness => exact inner_section.outer
  | snapshot => exact outer_void outer_snapshot

lemma outer_runAll (ops : List Op) : Outer (runAll shardOf ops) := by
  induction ops with
  | nil => exact (inner_pure ()).outer
  | cons op ops ih => exact (outer_prog shardOf op).bind fun _ => ih

end operations

/-! ## Threads -/

/-- The beginning: thread `i` is to run `threads i` on the master `s`. -/
def started {ι : Type} (s : MasterService) (threads : ι → LockProg (Mutex n) Section MasterService Unit) :
    LockConfig ι (Mutex n) Section MasterService :=
  ⟨s, fun _ => none, fun _ => false, threads⟩

/-- **The master has no deadlock.** Whatever operations the threads run, and however they are interleaved: no thread asks
for a mutex that it holds; if threads hold or want mutexes, one of these threads can take a step; and a thread that is
not finished can take a step if it neither holds nor wants a mutex. -/
theorem master_deadlock_free {ι : Type} [DecidableEq ι] (s : MasterService) (ops : ι → List Op)
    (threads : ι → LockProg (Mutex n) Section MasterService Unit)
    (hthreads : ∀ i, (runAll shardOf (ops i)).Expands .segments (Guards shardOf s.oplog.isSome) (threads i))
    (c : LockConfig ι (Mutex n) Section MasterService)
    (hrun : Relation.ReflTransGen (fun c c' => ∃ i, LockConfig.Step i c c') (started s threads) c) :
    (∀ i x, c.Wants i x → c.holder x ≠ some i) ∧
    ((∃ i, c.Engaged i) → ∃ i, c.Engaged i ∧ c.CanStep i) ∧
    (∀ i, ¬c.Finished i → ¬c.Engaged i → c.CanStep i) := by
  have hstart : LockConfig.Ranked rank (started s threads) := by
    intro i
    have hnone : (started s threads).held i = mainHeld .segments false := by
      ext x
      simp [LockConfig.held, started, mainHeld]
    rw [hnone]
    exact Bracketed.ordered (fun _ _ => Guards.sorted) (outer_runAll shardOf (ops i)) (hthreads i)
  have hranked := hstart.run hrun
  exact ⟨fun _ _ => hranked.not_reentrant, hranked.progress⟩

def mutexesOf (logging : Bool) (l : Section) : List (Mutex n) :=
  match l with
  | .push _ _ | .silent => []
  | .choose => allShards n
  | .append _ => if logging then [.oplog] else []
  | .reclaim key | .retire key | .insert key | .finish key | .grant key | .evict key | .inspect key | .reopen key
  | .replace key => [.shard (shardOf key)]

lemma guards_mutexesOf (logging : Bool) (l : Section) : Guards shardOf logging l (mutexesOf shardOf logging l) := by
  cases l with
  | push name capacity => exact .push name capacity
  | choose => exact .choose
  | append entry => exact .append entry
  | silent => exact .access
  | _ => exact .shard rfl

def putAndEvict : Fin 2 → List Op
  | 0 => [.request (.putStart "k" ⟨"m", "tok", none, "t"⟩ 16 {}), .snapshot]
  | 1 => [.request .evictIfNeeded]

/-- The put holds the segments, the eviction waits for them, and one of the two can go on. -/
theorem master_deadlock_free_putAndEvict :
    ∃ (threads : Fin 2 → LockProg (Mutex 16) Section MasterService Unit)
      (c : LockConfig (Fin 2) (Mutex 16) Section MasterService),
      Relation.ReflTransGen (fun c c' => ∃ i, LockConfig.Step i c c') (started (.new "random") threads) c ∧
      c.holder .segments = some 0 ∧ c.Wants 1 .segments ∧ c.holder .segments ≠ some 1 ∧
      ∃ i, c.Engaged i ∧ c.CanStep i := by
  let shardOf : ObjectKey → Fin 16 := fun _ => 0
  let threads := fun i => (runAll shardOf (putAndEvict i)).expand .segments (mutexesOf shardOf false)
  have hstep := LockConfig.Step.acquire (c := started (.new "random") threads) (i := 0) (x := .segments) rfl rfl rfl
  have hrun := Relation.ReflTransGen.single (r := fun c c' => ∃ i, LockConfig.Step i c c') ⟨0, hstep⟩
  obtain ⟨hreentrant, hprogress, -⟩ := master_deadlock_free shardOf (.new "random") putAndEvict threads
    (fun i => expands_expand (guards_mutexesOf shardOf false) _) _ hrun
  exact ⟨threads, _, hrun, rfl, ⟨_, rfl⟩, hreentrant 1 .segments ⟨_, rfl⟩, hprogress ⟨0, .segments, .inl rfl⟩⟩

end LockOrder

end QuillCache.Store
