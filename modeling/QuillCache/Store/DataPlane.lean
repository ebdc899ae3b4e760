import QuillCache.Store.DiskHistory
import QuillCache.Lib.Patch

/-!
# `StoreDataPlane`: the tiers of the workers

For every worker a map of the blocks resident there, each in a tier, and a byte pool for the blocks that carry bytes. A
placement may push colder blocks down to lower tiers, and out of the lowest one.

The order in which a hash map is iterated is a parameter of each call, a `HashOrder`. The loops that enforce the
capacities are given fuel; `none` means that it ran out, which never happens: enforcing the capacities ends, and then
every tier is within its capacity (`exists_enforceCapacity`). The directories of the byte pools are part of the state.
Sums of bytes are natural numbers. The counters of `metrics` are left out.

Source: `lib.rs`.
-/

namespace QuillCache.Store

open Lib QuillCache.Core List Option
open AList hiding keys

structure StoreTierConfig where
  hbmCapacityBytes : ℕ := 2 * 1024 * 1024 * 1024
  cpuDramCapacityBytes : ℕ := 16 * 1024 * 1024 * 1024
  localSsdCapacityBytes : ℕ := 128 * 1024 * 1024 * 1024
  deriving DecidableEq

structure TierEntry where
  residency : CacheResidency
  lastAccess : ℕ
  deriving DecidableEq

structure WorkerCache where
  entries : Table KvBlockKey TierEntry := ∅
  clock : ℕ := 0

/-- The order in which the hash maps and sets of a call are iterated. -/
structure HashOrder where
  entries : Table KvBlockKey TierEntry → List (Σ _ : KvBlockKey, TierEntry)
  entries_perm : ∀ t, (entries t).Perm t.entries
  keys : List KvBlockKey → List KvBlockKey
  keys_perm : ∀ l, (keys l).Perm l

def HashOrder.asBuilt : HashOrder := ⟨AList.entries, fun _ => .refl _, id, fun _ => .refl _⟩

/-- `disks` are the directories of the byte pools. -/
structure StoreDataPlane where
  config : StoreTierConfig
  workers : Table String WorkerCache
  bytePools : Table String LocalKvStore
  cost : CostModel
  disks : String → Disk

namespace StoreDataPlane

def new (config : StoreTierConfig) (disks : String → Disk) : StoreDataPlane where
  config := config
  workers := ∅
  bytePools := ∅
  cost := {}
  disks := disks

def capacity (config : StoreTierConfig) : CacheTier → ℕ
  | .hbm => config.hbmCapacityBytes
  | .cpuDram => config.cpuDramCapacityBytes
  | .localSsd => config.localSsdCapacityBytes
  | .remoteHbm | .objectStore => 0

def lowerTier : CacheTier → Option CacheTier
  | .hbm => some .cpuDram
  | .cpuDram => some .localSsd
  | .localSsd => none
  | .remoteHbm | .objectStore => none

def tierRank : CacheTier → ℕ
  | .hbm => 0
  | .remoteHbm => 1
  | .cpuDram => 2
  | .localSsd => 3
  | .objectStore => 4

def tierBytes (worker : WorkerCache) (tier : CacheTier) : ℕ :=
  ((worker.entries.values.filter fun entry => entry.residency.tier = tier).map fun entry =>
    entry.residency.bytes).sum

def coldestInTier (order : HashOrder) (worker : WorkerCache) (tier : CacheTier) : Option KvBlockKey :=
  (((order.entries worker.entries).filter fun e => e.2.residency.tier = tier).argmin fun e =>
    e.2.lastAccess).map Sigma.fst

def action (cost : CostModel) (kind : DataPlaneActionKind) (residency : CacheResidency)
    (fromTier toTier : Option CacheTier) : DataPlaneAction where
  kind := kind
  workerId := residency.workerId
  key := residency.key
  fromTier := fromTier
  toTier := toTier
  bytes := residency.bytes
  estimatedUs := ((toTier.or fromTier).map fun tier =>
    cost.transferCostUs tier residency.bytes true true).getD 0

/-- Do something to the byte pool of a worker, if there is one. -/
def onPool (codec : Codec WalRecord) (workerId : String) (op : BlockOp) (self : StoreDataPlane) :
    StoreDataPlane :=
  match self.bytePools.lookup workerId with
  | none => self
  | some pool =>
    { self with
      bytePools := self.bytePools.insert workerId (op.exec pool).1
      disks := Function.update self.disks workerId ((self.disks workerId).steps codec (op.exec pool).2) }

/-! ## Enforcing the capacities -/

/-- What `enforce_capacity` works on. -/
structure Enforcement where
  plane : StoreDataPlane
  worker : WorkerCache
  update : DataPlaneUpdate
  affected : List KvBlockKey

def demoted (workerId : String) (nextTier : CacheTier) (clock : ℕ) (victim : TierEntry) : TierEntry where
  residency := { victim.residency with tier := nextTier, workerId := workerId }
  lastAccess := clock

/-- The body of the loop over a tier, for the victim that was taken out. -/
def turn (codec : Codec WalRecord) (workerId : String) (tier : CacheTier) (victimKey : KvBlockKey)
    (victim : TierEntry) (st : Enforcement) : Enforcement :=
  let entries := st.worker.entries.erase victimKey
  let affected := st.affected.insert victimKey
  match lowerTier tier with
  | some nextTier =>
    let moved := demoted workerId nextTier st.worker.clock victim
    { plane := if nextTier = .localSsd then st.plane.onPool codec workerId (.demoteToSsd victimKey) else st.plane
      worker := { st.worker with entries := entries.insert victimKey moved }
      update := { st.update with
        actions := st.update.actions ++
          [action st.plane.cost .demote moved.residency (some victim.residency.tier) (some nextTier)] }
      affected := affected }
  | none =>
    { plane := st.plane.onPool codec workerId (.dropBlock victimKey)
      worker := { st.worker with entries := entries }
      update := { st.update with
        actions := st.update.actions ++
          [action st.plane.cost .evict victim.residency (some victim.residency.tier) none]
        removed := st.update.removed ++ [victim.residency] }
      affected := affected }

def capacityLoop (codec : Codec WalRecord) (order : HashOrder) (workerId : String) (tier : CacheTier) :
    ℕ → Enforcement → Option Enforcement
  | 0, _ => none
  | fuel + 1, st =>
    if capacity st.plane.config tier < tierBytes st.worker tier then
      match coldestInTier order st.worker tier with
      | none => some st
      | some victimKey =>
        match st.worker.entries.lookup victimKey with
        | none => some st
        | some victim =>
          capacityLoop codec order workerId tier fuel (turn codec workerId tier victimKey victim st)
    else some st

/-- The tiers with a capacity, in the order in which they are enforced. -/
def managedTiers : List CacheTier := [.hbm, .cpuDram, .localSsd]

/-- Every turn takes a block out of the tier, so a turn for each block is enough. -/
def enforceCapacity (codec : Codec WalRecord) (order : HashOrder) (workerId : String) (st : Enforcement) :
    Option Enforcement :=
  managedTiers.foldlM (fun st tier =>
    capacityLoop codec order workerId tier (st.worker.entries.entries.length + 1) st) st

/-! ## The operations -/

def placeAction (cost : CostModel) (residency : CacheResidency) (existing : Option TierEntry) :
    DataPlaneAction :=
  match existing with
  | some existing =>
    if existing.residency.tier = residency.tier then
      ⟨.hit, residency.workerId, residency.key, some residency.tier, some residency.tier, residency.bytes,
        cost.transferCostUs residency.tier residency.bytes true true⟩
    else
      ⟨if tierRank residency.tier < tierRank existing.residency.tier then .promote else .demote,
        residency.workerId, residency.key, some existing.residency.tier, some residency.tier, residency.bytes,
        cost.transferCostUs existing.residency.tier residency.bytes true true⟩
  | none => ⟨.admitBlock, residency.workerId, residency.key, none, some residency.tier, residency.bytes, 0⟩

def placed (residency : CacheResidency) (self : StoreDataPlane) : Enforcement :=
  let worker := (self.workers.lookup residency.workerId).getD {}
  let clock := worker.clock + 1
  let residency := { residency with lastAccessMs := clock }
  { plane := { self with workers := self.workers.erase residency.workerId }
    worker :=
      { entries := (worker.entries.erase residency.key).insert residency.key ⟨residency, clock⟩
        clock := clock }
    update := { actions := [placeAction self.cost residency (worker.entries.lookup residency.key)] }
    affected := [residency.key] }

/-- What `place` returns and leaves behind once the capacities are enforced. -/
def settled (order : HashOrder) (workerId : String) (st : Enforcement) : DataPlaneUpdate × StoreDataPlane :=
  ({ st.update with
      resident := (order.keys st.affected).filterMap fun key =>
        (st.worker.entries.lookup key).map TierEntry.residency },
    { st.plane with workers := st.plane.workers.insert workerId st.worker })

def place (codec : Codec WalRecord) (order : HashOrder) (residency : CacheResidency) (self : StoreDataPlane) :
    Option (DataPlaneUpdate × StoreDataPlane) :=
  (enforceCapacity codec order residency.workerId (placed residency self)).map
    (settled order residency.workerId)

def removeKey (codec : Codec WalRecord) (workerId : String)
    (st : DataPlaneUpdate × WorkerCache × StoreDataPlane) (key : KvBlockKey) :
    DataPlaneUpdate × WorkerCache × StoreDataPlane :=
  match st.2.1.entries.lookup key with
  | none => (st.1, st.2.1, st.2.2.onPool codec workerId (.dropBlock key))
  | some entry =>
    ({ st.1 with
        actions := st.1.actions ++ [⟨.remove, workerId, entry.residency.key, some entry.residency.tier, none,
          entry.residency.bytes, 0⟩]
        removed := st.1.removed ++ [entry.residency] },
      { st.2.1 with entries := st.2.1.entries.erase key },
      st.2.2.onPool codec workerId (.dropBlock key))

def matchingKeys (order : HashOrder) (scope : IdentityScope) (blockHash : String) (worker : WorkerCache) :
    List KvBlockKey :=
  ((order.entries worker.entries).map Sigma.fst).filter fun key =>
    key.blockHash = blockHash ∧ scope.matches key

def removeBlock (codec : Codec WalRecord) (order : HashOrder) (scope : IdentityScope) (workerId : String)
    (blockHash : String) (self : StoreDataPlane) : DataPlaneUpdate × StoreDataPlane :=
  match self.workers.lookup workerId with
  | none => ({}, self)
  | some worker =>
    let keys := matchingKeys order scope blockHash worker
    let (update, worker, self) := keys.foldl (removeKey codec workerId) ({}, worker, self)
    (update, { self with workers := self.workers.insert workerId worker })

def clearWorker (order : HashOrder) (workerId : String) (self : StoreDataPlane) :
    DataPlaneUpdate × StoreDataPlane :=
  let self := { self with bytePools := self.bytePools.erase workerId }
  match self.workers.lookup workerId with
  | none => ({}, self)
  | some worker =>
    let removed := (order.entries worker.entries).map fun e => e.2.residency
    ({ actions := removed.map fun r => ⟨.remove, r.workerId, r.key, some r.tier, none, r.bytes, 0⟩
       removed := removed },
      { self with workers := self.workers.erase workerId })

def snapshot (self : StoreDataPlane) : List CacheResidency :=
  self.workers.values.flatMap fun worker => worker.entries.values.map TierEntry.residency

def tierOf (workerId : String) (key : KvBlockKey) (self : StoreDataPlane) : Option CacheTier := do
  let worker ← self.workers.lookup workerId
  let entry ← worker.entries.lookup key
  return entry.residency.tier

/-! ## Weights

What a turn does to sums over the blocks of a worker. -/

/-- The weight of a block in a tier, and of none elsewhere. -/
def within (tier : CacheTier) (weight : TierEntry → ℕ) (entry : TierEntry) : ℕ :=
  if entry.residency.tier = tier then weight entry else 0

lemma tierBytes_eq_total (worker : WorkerCache) (tier : CacheTier) :
    tierBytes worker tier = worker.entries.total (within tier fun e => e.residency.bytes) := by
  rw [tierBytes, AList.total]
  induction worker.entries.values with
  | nil => rfl
  | cons e l ih =>
    rw [map_cons, sum_cons, ← ih, within, filter_cons]
    by_cases h : e.residency.tier = tier
    · simp [h]
    · simp [h]

section coldest

variable {order : HashOrder} {worker : WorkerCache} {tier : CacheTier} {key : KvBlockKey}

lemma mem_order {e : Σ _ : KvBlockKey, TierEntry} :
    e ∈ order.entries worker.entries ↔ worker.entries.lookup e.1 = some e.2 := by
  rw [(order.entries_perm _).mem_iff]
  exact mem_lookup_iff.symm

lemma coldestInTier_eq_some (h : coldestInTier order worker tier = some key) :
    ∃ victim, worker.entries.lookup key = some victim ∧ victim.residency.tier = tier ∧
      ∀ k e, worker.entries.lookup k = some e → e.residency.tier = tier → victim.lastAccess ≤ e.lastAccess := by
  rw [coldestInTier, map_eq_some_iff] at h
  obtain ⟨e, he, rfl⟩ := h
  have hmem := mem_filter.mp (argmin_mem he)
  refine ⟨e.2, mem_order.mp hmem.1, of_decide_eq_true hmem.2, fun k e' hk htier => ?_⟩
  have hmem' : (⟨k, e'⟩ : Σ _ : KvBlockKey, TierEntry) ∈
      (order.entries worker.entries).filter fun e => e.2.residency.tier = tier :=
    mem_filter.mpr ⟨mem_order.mpr hk, decide_eq_true htier⟩
  have hle := le_of_mem_argmin hmem' he
  exact hle

lemma coldestInTier_eq_none (h : coldestInTier order worker tier = none) : tierBytes worker tier = 0 := by
  rw [coldestInTier, map_eq_none_iff, argmin_eq_none, filter_eq_nil_iff] at h
  rw [tierBytes, filter_eq_nil_iff.mpr]
  · rfl
  · intro e he
    obtain ⟨k, hk⟩ := mem_values.mp he
    exact h ⟨k, e⟩ (mem_order.mpr hk)

end coldest

section turn

variable {codec : Codec WalRecord} {order : HashOrder} {workerId : String} {tier : CacheTier}
  {key : KvBlockKey} {victim : TierEntry} {st st' : Enforcement}

@[simp] lemma config_onPool (plane : StoreDataPlane) (op : BlockOp) :
    (plane.onPool codec workerId op).config = plane.config := by
  rw [onPool]
  split <;> rfl

@[simp] lemma workers_onPool (plane : StoreDataPlane) (op : BlockOp) :
    (plane.onPool codec workerId op).workers = plane.workers := by
  rw [onPool]
  split <;> rfl

@[simp] lemma config_turn : (turn codec workerId tier key victim st).plane.config = st.plane.config := by
  cases tier <;> simp [turn, lowerTier]

@[simp] lemma workers_turn : (turn codec workerId tier key victim st).plane.workers = st.plane.workers := by
  cases tier <;> simp [turn, lowerTier]

@[simp] lemma clock_turn : (turn codec workerId tier key victim st).worker.clock = st.worker.clock := by
  cases tier <;> rfl

@[simp] lemma affected_turn :
    (turn codec workerId tier key victim st).affected = st.affected.insert key := by
  cases tier <;> rfl

@[simp] lemma resident_turn :
    (turn codec workerId tier key victim st).update.resident = st.update.resident := by
  cases tier <;> rfl

lemma lookup_turn_self : (turn codec workerId tier key victim st).worker.entries.lookup key =
    (lowerTier tier).map fun nextTier => demoted workerId nextTier st.worker.clock victim := by
  cases tier <;> simp [turn, lowerTier]

lemma lookup_turn_ne {k : KvBlockKey} (hk : k ≠ key) :
    (turn codec workerId tier key victim st).worker.entries.lookup k = st.worker.entries.lookup k := by
  cases tier <;> simp [turn, lowerTier, lookup_insert_ne hk, lookup_erase_ne hk]

lemma removed_turn : (turn codec workerId tier key victim st).update.removed =
    (lowerTier tier).elim (st.update.removed ++ [victim.residency]) fun _ => st.update.removed := by
  cases tier <;> rfl

lemma total_turn (hvictim : st.worker.entries.lookup key = some victim) (weight : TierEntry → ℕ) :
    (turn codec workerId tier key victim st).worker.entries.total weight + weight victim =
      st.worker.entries.total weight + (lowerTier tier).elim 0 fun nextTier =>
        weight (demoted workerId nextTier st.worker.clock victim) := by
  have hsum := total_erase hvictim weight
  have hfresh : key ∉ st.worker.entries.erase key := by simp
  cases tier <;> simp only [turn, lowerTier, total_insert hfresh, elim_none, elim_some] <;>
    omega

lemma within_demoted {t : CacheTier} (hlower : lowerTier tier ≠ some t) (weight : TierEntry → ℕ) (clock : ℕ) :
    ((lowerTier tier).elim 0 fun nextTier => within t weight (demoted workerId nextTier clock victim)) = 0 := by
  cases hnext : lowerTier tier with
  | none => rfl
  | some nextTier =>
    have hne : nextTier ≠ t := fun h => hlower (h ▸ hnext)
    simp [within, demoted, hne]

lemma tierBytes_turn {t : CacheTier} (hvictim : st.worker.entries.lookup key = some victim)
    (htier : victim.residency.tier ≠ t) (hlower : lowerTier tier ≠ some t) :
    tierBytes (turn codec workerId tier key victim st).worker t = tierBytes st.worker t := by
  have hsum := @total_turn codec workerId tier key victim st hvictim (within t fun e => e.residency.bytes)
  rw [within_demoted hlower, within, if_neg htier] at hsum
  rw [tierBytes_eq_total, tierBytes_eq_total]
  exact hsum

/-! ## The loops -/

lemma capacityLoop_preserves {P : Enforcement → Prop}
    (hturn : ∀ st key victim, P st → capacity st.plane.config tier < tierBytes st.worker tier →
      st.worker.entries.lookup key = some victim → victim.residency.tier = tier →
      (∀ k e, st.worker.entries.lookup k = some e → e.residency.tier = tier → victim.lastAccess ≤ e.lastAccess) →
      P (turn codec workerId tier key victim st))
    {fuel : ℕ} (hst : P st) (h : capacityLoop codec order workerId tier fuel st = some st') : P st' := by
  induction fuel generalizing st with
  | zero => cases h
  | succ fuel ih =>
    rw [capacityLoop] at h
    split_ifs at h with hover
    · cases hcold : coldestInTier order st.worker tier with
      | none =>
        rw [hcold] at h
        cases h
        exact hst
      | some key =>
        obtain ⟨victim, hvictim, htier, hmin⟩ := coldestInTier_eq_some hcold
        rw [hcold] at h
        simp only [hvictim] at h
        exact ih (hturn st key victim hst hover hvictim htier hmin) h
    · cases h
      exact hst

lemma lowerTier_ne (tier : CacheTier) : lowerTier tier ≠ some tier := by
  cases tier <;> nofun

lemma exists_capacityLoop (fuel : ℕ) (st : Enforcement)
    (hfuel : st.worker.entries.total (within tier fun _ => 1) < fuel) :
    ∃ st', capacityLoop codec order workerId tier fuel st = some st' ∧
      tierBytes st'.worker tier ≤ capacity st'.plane.config tier := by
  induction fuel generalizing st with
  | zero => omega
  | succ fuel ih =>
    rw [capacityLoop]
    split_ifs with hover
    · cases hcold : coldestInTier order st.worker tier with
      | none =>
        rw [coldestInTier_eq_none hcold] at hover
        omega
      | some key =>
        obtain ⟨victim, hvictim, htier, -⟩ := coldestInTier_eq_some hcold
        simp only [hvictim]
        refine ih _ ?_
        -- the victim leaves the tier for good
        have hsum := @total_turn codec workerId tier key victim st hvictim (within tier fun _ => 1)
        rw [within_demoted (lowerTier_ne tier), within, if_pos htier] at hsum
        omega
    · exact ⟨st, rfl, by omega⟩

lemma enforceCapacity_eq_some (h : enforceCapacity codec order workerId st = some st') :
    ∃ st₁ st₂, capacityLoop codec order workerId .hbm (st.worker.entries.entries.length + 1) st = some st₁ ∧
      capacityLoop codec order workerId .cpuDram (st₁.worker.entries.entries.length + 1) st₁ = some st₂ ∧
      capacityLoop codec order workerId .localSsd (st₂.worker.entries.entries.length + 1) st₂ = some st' := by
  simp only [enforceCapacity, managedTiers, foldlM_cons, foldlM_nil, bind_eq_bind,
    bind_eq_some_iff] at h
  obtain ⟨st₁, h₁, st₂, h₂, st₃, h₃, h₄⟩ := h
  cases h₄
  exact ⟨st₁, st₂, h₁, h₂, h₃⟩

lemma enforceCapacity_preserves {P : Enforcement → Prop}
    (hturn : ∀ tier ∈ managedTiers, ∀ st key victim, P st → capacity st.plane.config tier < tierBytes st.worker tier →
      st.worker.entries.lookup key = some victim → victim.residency.tier = tier →
      (∀ k e, st.worker.entries.lookup k = some e → e.residency.tier = tier → victim.lastAccess ≤ e.lastAccess) →
      P (turn codec workerId tier key victim st))
    (hst : P st) (h : enforceCapacity codec order workerId st = some st') : P st' := by
  obtain ⟨st₁, st₂, h₁, h₂, h₃⟩ := enforceCapacity_eq_some h
  have hst₁ := capacityLoop_preserves (hturn .hbm (by decide)) hst h₁
  have hst₂ := capacityLoop_preserves (hturn .cpuDram (by decide)) hst₁ h₂
  exact capacityLoop_preserves (hturn .localSsd (by decide)) hst₂ h₃

lemma config_capacityLoop {fuel : ℕ} (h : capacityLoop codec order workerId tier fuel st = some st') :
    st'.plane.config = st.plane.config := by
  have hpres := @capacityLoop_preserves codec order workerId tier st st'
    (fun x => x.plane.config = st.plane.config) (fun x _ _ hx _ _ _ _ => by rw [config_turn, hx]) fuel rfl h
  exact hpres

lemma tierBytes_capacityLoop {t : CacheTier} {fuel : ℕ} (htier : tier ≠ t) (hlower : lowerTier tier ≠ some t)
    (h : capacityLoop codec order workerId tier fuel st = some st') :
    tierBytes st'.worker t = tierBytes st.worker t := by
  have hpres := @capacityLoop_preserves codec order workerId tier st st'
    (fun x => tierBytes x.worker t = tierBytes st.worker t)
    (fun x _ victim hx _ hvictim hin _ => by rw [tierBytes_turn hvictim (hin ▸ htier) hlower, hx]) fuel rfl h
  exact hpres

lemma count_lt (worker : WorkerCache) (tier : CacheTier) :
    worker.entries.total (within tier fun _ => 1) < worker.entries.entries.length + 1 := by
  have hle : worker.entries.total (within tier fun _ => 1) ≤ worker.entries.total fun _ => 1 := by
    refine total_mono _ fun e _ => ?_
    rw [within]
    split_ifs <;> omega
  have hlen : worker.entries.total (fun _ => 1) = worker.entries.entries.length := by
    simp [AList.total, AList.values, Function.comp_def]
  omega

/-- **`enforce_capacity` ends**, and then every tier is within its capacity. -/
lemma exists_enforceCapacity (st : Enforcement) :
    ∃ st', enforceCapacity codec order workerId st = some st' ∧
      ∀ t ∈ managedTiers, tierBytes st'.worker t ≤ capacity st.plane.config t := by
  obtain ⟨st₁, h₁, hhbm⟩ := @exists_capacityLoop codec order workerId .hbm _ st (count_lt _ _)
  obtain ⟨st₂, h₂, hdram⟩ := @exists_capacityLoop codec order workerId .cpuDram _ st₁ (count_lt _ _)
  obtain ⟨st₃, h₃, hssd⟩ := @exists_capacityLoop codec order workerId .localSsd _ st₂ (count_lt _ _)
  have hc₁ := config_capacityLoop h₁
  have hc₂ := (config_capacityLoop h₂).trans hc₁
  have hc₃ := (config_capacityLoop h₃).trans hc₂
  refine ⟨st₃, ?_, ?_⟩
  · simp [enforceCapacity, managedTiers, h₁, h₂, h₃]
  · simp only [managedTiers, forall_mem_cons, not_mem_nil, IsEmpty.forall_iff, implies_true, and_true]
    refine ⟨?_, ?_, ?_⟩
    · rw [tierBytes_capacityLoop (by decide) (by decide) h₃, tierBytes_capacityLoop (by decide) (by decide) h₂,
        ← hc₁]
      exact hhbm
    · rw [tierBytes_capacityLoop (by decide) (by decide) h₃, ← hc₂]
      exact hdram
    · rw [← hc₃]
      exact hssd

end turn

end StoreDataPlane

end QuillCache.Store
