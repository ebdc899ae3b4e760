import QuillCache.Core.Control
import QuillCache.Store.DataPlaneRoom

/-!
# The residency index as a mirror of the data plane

With a data plane attached, `ingest` changes the residency index by the events themselves, and then by the update of
the data plane, all removals of the batch before all residents. The mirror finds records by worker, identity and block
hash, and not by their whole key.

So a block that a batch stores and then removes comes back (`stored_and_removed`), and so does one that a later
placement of the batch pushes out; and two keys that differ in nothing but prefix, position or token count take each
other's records away. In a run without such batches the index holds the blocks of the data plane, tier by tier
(`index_mirrors_plane`).
-/

namespace QuillCache.Core

open Lib Store StoreDataPlane List Option

/-! ## The tiers of an address -/

def tiersAt (idx : MemoryIndex) (a : String × KvBlockKey) : Set CacheTier :=
  {tier | ∃ r ∈ idx.locate a.2, r.workerId = a.1 ∧ r.tier = tier}

lemma mem_tiersAt {idx : MemoryIndex} {a : String × KvBlockKey} {tier : CacheTier} :
    tier ∈ tiersAt idx a ↔ ∃ r ∈ idx.locate a.2, r.workerId = a.1 ∧ r.tier = tier := Iff.rfl

def tierSet (r : Option CacheResidency) : Set CacheTier := {tier | r.map CacheResidency.tier = some tier}

@[simp] lemma tierSet_none : tierSet none = ∅ := by simp [tierSet]

@[simp] lemma tierSet_some (r : CacheResidency) : tierSet (some r) = {r.tier} := by
  ext tier
  simp [tierSet, eq_comm]

/-- Two addresses that the mirror cannot tell apart. -/
def Twin (a b : String × KvBlockKey) : Prop :=
  a.1 = b.1 ∧ MemoryIndex.hashBucket a.2 = MemoryIndex.hashBucket b.2

instance (a b : String × KvBlockKey) : Decidable (Twin a b) := inferInstanceAs (Decidable (_ ∧ _))

def Sparse (S : Set (String × KvBlockKey)) : Prop := ∀ a ∈ S, ∀ b ∈ S, Twin a b → a = b

def onIndex {I : Type} [IndexBackend I] (backend : I) : Call → I
  | .place residency => IndexBackend.put residency backend
  | .removeBlock scope workerId blockHash => (IndexBackend.removeBlock scope workerId blockHash backend).2
  | .clearWorker workerId => IndexBackend.clearWorker workerId backend

/-- What the mirror does for a record that is gone or about to be put again. -/
def evict (r : CacheResidency) : Call := .removeBlock (.fromKey r.key) r.workerId r.key.blockHash

section tiers

variable {idx : MemoryIndex} {call : Call} {r : CacheResidency} {a b : String × KvBlockKey}

lemma drops_evict : (evict r).Drops a ↔ Twin a r.address := by
  simp only [evict, Call.Drops, Hits, Twin, CacheResidency.address, MemoryIndex.hashBucket, Prod.mk.injEq,
    IdentityScope.matches_iff]
  exact and_congr_right fun _ => and_comm.trans (and_congr_left fun _ => eq_comm)

lemma drops_of_twin (h : Twin a b) (hdrops : call.Drops b) : call.Drops a := by
  cases call with
  | place residency => exact hdrops
  | removeBlock scope workerId blockHash =>
    obtain ⟨hscope, hhash⟩ := Prod.mk_inj.mp h.2
    obtain ⟨hw, hb, hm⟩ := hdrops
    rw [IdentityScope.matches_iff] at hm
    exact ⟨h.1.trans hw, hhash.trans hb, IdentityScope.matches_iff.mpr (hm.trans hscope.symm)⟩
  | clearWorker workerId => exact h.1.trans hdrops

lemma exact_onIndex (h : idx.Exact) (call : Call) : (onIndex idx call).Exact := by
  cases call with
  | place residency => exact h.put residency
  | removeBlock scope workerId blockHash => exact (MemoryIndex.removeBlock_spec h rfl).2.1
  | clearWorker workerId => exact (MemoryIndex.clearWorker_spec h).2

lemma exact_foldl_onIndex (h : idx.Exact) (calls : List Call) : (calls.foldl onIndex idx).Exact := by
  induction calls generalizing idx with
  | nil => exact h
  | cons call calls ih => exact ih (exact_onIndex h call)

lemma tiersAt_put (idx : MemoryIndex) (r : CacheResidency) (a : String × KvBlockKey) :
    tiersAt (idx.put r) a = if a = r.address then insert r.tier (tiersAt idx a) else tiersAt idx a := by
  by_cases hk : a.2 = r.key
  · by_cases hw : a.1 = r.workerId
    · have ha : a = r.address := Prod.ext hw hk
      rw [if_pos ha]
      ext tier
      simp only [mem_tiersAt, MemoryIndex.locate_put, if_pos hk, mem_append, mem_filter, mem_singleton,
        decide_eq_true_eq, Set.mem_insert_iff]
      constructor
      · rintro ⟨r', ⟨hr', -⟩ | rfl, hw', rfl⟩
        · exact .inr ⟨r', hr', hw', rfl⟩
        · exact .inl rfl
      · rintro (rfl | ⟨r', hr', hw', rfl⟩)
        · exact ⟨r, .inr rfl, hw.symm, rfl⟩
        · by_cases htier : r'.tier = r.tier
          · exact ⟨r, .inr rfl, hw.symm, htier.symm⟩
          · exact ⟨r', .inl ⟨hr', fun h => htier h.2⟩, hw', rfl⟩
    · have ha : a ≠ r.address := fun h => hw (congrArg Prod.fst h)
      rw [if_neg ha]
      ext tier
      simp only [mem_tiersAt, MemoryIndex.locate_put, if_pos hk, mem_append, mem_filter, mem_singleton,
        decide_eq_true_eq]
      constructor
      · rintro ⟨r', ⟨hr', -⟩ | rfl, hw', rfl⟩
        · exact ⟨r', hr', hw', rfl⟩
        · exact absurd hw'.symm hw
      · rintro ⟨r', hr', hw', rfl⟩
        exact ⟨r', .inl ⟨hr', fun h => hw (hw'.symm.trans h.1)⟩, hw', rfl⟩
  · have ha : a ≠ r.address := fun h => hk (congrArg Prod.snd h)
    rw [if_neg ha]
    ext tier
    rw [mem_tiersAt, mem_tiersAt, MemoryIndex.locate_put, if_neg hk]

lemma tiersAt_filter {idx' : MemoryIndex} {p : CacheResidency → Bool} {gone : Prop} [Decidable gone]
    (hidx : idx.Exact) (hlocate : idx'.locate a.2 = (idx.locate a.2).filter p)
    (hp : ∀ r, r.address = a → (p r = true ↔ ¬gone)) :
    tiersAt idx' a = if gone then ∅ else tiersAt idx a := by
  have haddr : ∀ r ∈ idx.locate a.2, r.workerId = a.1 → r.address = a := fun r hr hw =>
    Prod.ext hw (hidx.mem_locate hr)
  ext tier
  split_ifs with hgone
  · simp only [mem_tiersAt, hlocate, mem_filter, Set.mem_empty_iff_false, iff_false]
    rintro ⟨r, ⟨hr, hpr⟩, hw, -⟩
    exact (hp r (haddr r hr hw)).mp hpr hgone
  · simp only [mem_tiersAt, hlocate, mem_filter]
    constructor
    · rintro ⟨r, ⟨hr, -⟩, hw, rfl⟩
      exact ⟨r, hr, hw, rfl⟩
    · rintro ⟨r, hr, hw, rfl⟩
      exact ⟨r, ⟨hr, (hp r (haddr r hr hw)).mpr hgone⟩, hw, rfl⟩

lemma tiersAt_removal (hidx : idx.Exact) (hcall : call.isRemoval) (a : String × KvBlockKey) :
    tiersAt (onIndex idx call) a = if call.Drops a then ∅ else tiersAt idx a := by
  cases call with
  | place residency => cases hcall
  | removeBlock scope workerId blockHash =>
    refine tiersAt_filter hidx (MemoryIndex.locate_removeBlock hidx rfl a.2) fun r hr => ?_
    rw [decide_eq_true_iff, Call.Drops, Hits, Evicts, IdentityScope.matches_iff, ← hr]
    exact not_congr ⟨fun h => ⟨h.2.2, h.2.1, h.1.symm⟩, fun h => ⟨h.2.2.symm, h.2.1, h.1⟩⟩
  | clearWorker workerId =>
    refine tiersAt_filter hidx (MemoryIndex.locate_clearWorker hidx a.2) fun r hr => ?_
    rw [decide_eq_true_iff, Call.Drops, ← hr]
    exact Iff.rfl

lemma tiersAt_foldl_removal (hidx : idx.Exact) {calls : List Call} (hcalls : ∀ c ∈ calls, c.isRemoval)
    (a : String × KvBlockKey) :
    tiersAt (calls.foldl onIndex idx) a = if ∃ c ∈ calls, c.Drops a then ∅ else tiersAt idx a := by
  induction calls generalizing idx with
  | nil => simp
  | cons call calls ih =>
    rw [foldl_cons, ih (exact_onIndex hidx call) fun c hc => hcalls c (mem_cons_of_mem _ hc),
      tiersAt_removal hidx (hcalls call mem_cons_self)]
    by_cases hcall : call.Drops a
    · have hex : ∃ c ∈ call :: calls, c.Drops a := ⟨call, mem_cons_self, hcall⟩
      rw [if_pos hcall, if_pos hex, ite_self]
    · simp [hcall]

variable {rs : List CacheResidency}

lemma tiersAt_foldl_put (idx : MemoryIndex) (ha : a ∉ rs.map CacheResidency.address) :
    tiersAt ((rs.map Call.place).foldl onIndex idx) a = tiersAt idx a := by
  induction rs generalizing idx with
  | nil => rfl
  | cons r rs ih =>
    rw [map_cons, mem_cons, not_or] at ha
    rw [map_cons, foldl_cons, ih _ ha.2]
    exact (tiersAt_put idx r a).trans (if_neg ha.1)

/-! ## What the mirror does -/

lemma tiersAt_replace (hidx : idx.Exact) (r : CacheResidency) (a : String × KvBlockKey) :
    tiersAt ((onIndex idx (evict r)).put r) a =
      if a = r.address then {r.tier} else if Twin a r.address then ∅ else tiersAt idx a := by
  have hevict := tiersAt_removal hidx (rfl : (evict r).isRemoval = true) a
  simp only [drops_evict] at hevict
  rw [tiersAt_put, hevict]
  by_cases ha : a = r.address
  · have htwin : Twin a r.address := ha ▸ ⟨rfl, rfl⟩
    rw [if_pos ha, if_pos ha, if_pos htwin]
    exact insert_empty_eq _
  · rw [if_neg ha, if_neg ha]

/-- The residents of an update, as the mirror puts them. -/
def replaceAll (rs : List CacheResidency) (idx : MemoryIndex) : MemoryIndex :=
  rs.foldl (fun idx r => (onIndex idx (evict r)).put r) idx

lemma mirror_eq (u : DataPlaneUpdate) (idx : MemoryIndex) :
    mirrorDataPlaneUpdate u idx = replaceAll u.resident ((u.removed.map evict).foldl onIndex idx) := by
  rw [foldl_map]
  rfl

lemma exact_replaceAll (hidx : idx.Exact) (rs : List CacheResidency) : (replaceAll rs idx).Exact := by
  induction rs generalizing idx with
  | nil => exact hidx
  | cons r rs ih => exact ih ((exact_onIndex hidx (evict r)).put r)

lemma tiersAt_replaceAll (hidx : idx.Exact) (htwins : ∀ r ∈ rs, Twin a r.address → a = r.address) :
    tiersAt (replaceAll rs idx) a =
      (lastFiled (rs.map fun r => (r.address, r)) a).elim (tiersAt idx a) fun r => {r.tier} := by
  induction rs using List.reverseRecOn with
  | nil => rfl
  | append_singleton rs r ih =>
    have hlast : replaceAll (rs ++ [r]) idx = (onIndex (replaceAll rs idx) (evict r)).put r := by
      rw [replaceAll, List.foldl_append]
      rfl
    have hfiled : (rs ++ [r]).map (fun r => (r.address, r)) = rs.map (fun r => (r.address, r)) ++ [(r.address, r)] := by
      rw [map_append, map_singleton]
    rw [hlast, tiersAt_replace (exact_replaceAll hidx rs), hfiled, lastFiled_concat]
    by_cases ha : a = r.address
    · rw [if_pos ha, if_pos ha.symm, elim_some]
    · rw [if_neg ha, if_neg (Ne.symm ha), if_neg fun ht => ha (htwins r (by simp) ht),
        ih fun r' hr' => htwins r' (mem_append_left _ hr')]

lemma tiersAt_replaceAll_empty (hidx : idx.Exact) (ha : a ∉ rs.map CacheResidency.address)
    (hempty : tiersAt idx a = ∅) : tiersAt (replaceAll rs idx) a = ∅ := by
  induction rs generalizing idx with
  | nil => exact hempty
  | cons r rs ih =>
    rw [map_cons, mem_cons, not_or] at ha
    refine ih ((exact_onIndex hidx (evict r)).put r) ha.2 ?_
    rw [tiersAt_replace hidx, if_neg ha.1, hempty, ite_self]

lemma address_mem_filed {u : DataPlaneUpdate} : a ∈ u.filed.map Prod.fst ↔ a ∈ u.resident.map CacheResidency.address := by
  simp [DataPlaneUpdate.filed]

/-- **The mirror on addresses without twins.** `f` is what the data plane held before the update. -/
lemma tiersAt_mirror (hidx : idx.Exact) {u : DataPlaneUpdate} {f : String × KvBlockKey → Option CacheResidency}
    {S : Set (String × KvBlockKey)} (hsparse : Sparse S) (hfiled : ∀ b ∈ u.filed.map Prod.fst, b ∈ S)
    (hsame : ∀ b ∈ S, b ∉ u.filed.map Prod.fst → b ∉ u.deleted →
      (∀ c ∈ u.deleted, ¬Twin b c) ∧ tiersAt idx b = tierSet (f b))
    (hother : ∀ b ∉ S, tiersAt idx b = ∅ ∧ (f b = none ∨ b ∈ u.deleted)) (a : String × KvBlockKey) :
    tiersAt (mirrorDataPlaneUpdate u idx) a = tierSet (patch u.deleted u.filed f a) := by
  have hremovals : ∀ c ∈ u.removed.map evict, c.isRemoval := fun c hc => by
    obtain ⟨r, -, rfl⟩ := List.mem_map.mp hc
    rfl
  have hevicted : ∀ b, tiersAt ((u.removed.map evict).foldl onIndex idx) b =
      if ∃ c ∈ u.removed.map evict, c.Drops b then ∅ else tiersAt idx b := tiersAt_foldl_removal hidx hremovals
  have hdrops : ∀ b, (∃ c ∈ u.removed.map evict, c.Drops b) ↔ ∃ c ∈ u.deleted, Twin b c := fun b => by
    simp [DataPlaneUpdate.deleted, drops_evict]
  have hexact := exact_foldl_onIndex hidx (u.removed.map evict)
  rw [mirror_eq]
  by_cases ha : a ∈ S
  · have htwins : ∀ r ∈ u.resident, Twin a r.address → a = r.address := fun r hr ht =>
      hsparse a ha _ (hfiled _ (address_mem_filed.mpr (List.mem_map_of_mem hr))) ht
    have htiers : tiersAt (replaceAll u.resident ((u.removed.map evict).foldl onIndex idx)) a =
        (lastFiled u.filed a).elim _ _ := tiersAt_replaceAll hexact htwins
    rw [htiers]
    cases hlast : lastFiled u.filed a with
    | some r => rw [patch_of_filed hlast, elim_some, tierSet_some]
    | none =>
      have hnot : a ∉ u.filed.map Prod.fst := lastFiled_eq_none.mp hlast
      rw [elim_none, hevicted]
      by_cases hdel : a ∈ u.deleted
      · have hex := (hdrops a).mpr ⟨a, hdel, rfl, rfl⟩
        rw [if_pos hex, patch_of_deleted hnot hdel, tierSet_none]
      · obtain ⟨hfree, htiers⟩ := hsame a ha hnot hdel
        have hkept : ¬∃ c ∈ u.removed.map evict, c.Drops a := fun hex => by
          obtain ⟨c, hc, ht⟩ := (hdrops a).mp hex
          exact hfree c hc ht
        rw [if_neg hkept, patch_of_untouched hnot hdel, htiers]
  · obtain ⟨hempty, hnone⟩ := hother a ha
    have hnot : a ∉ u.filed.map Prod.fst := fun h => ha (hfiled a h)
    rw [tiersAt_replaceAll_empty hexact (fun h => hnot (address_mem_filed.mpr h)) (by rw [hevicted, hempty, ite_self])]
    rcases hnone with hnone | hdel
    · by_cases hdel : a ∈ u.deleted
      · rw [patch_of_deleted hnot hdel, tierSet_none]
      · rw [patch_of_untouched hnot hdel, hnone, tierSet_none]
    · rw [patch_of_deleted hnot hdel, tierSet_none]

end tiers

/-! ## The calls of a batch -/

def KvEvent.isStored : KvEvent → Bool
  | .blockStored _ => true
  | .blockRemoved _ | .allBlocksCleared => false

def storedBy (engine : EngineEndpoint) (batch : KvEventBatch) : KvEvent → List CacheResidency
  | .blockStored event => storedBlocks engine batch event
  | .blockRemoved _ | .allBlocksCleared => []

def batchStored (engine : EngineEndpoint) (batch : KvEventBatch) : List CacheResidency :=
  batch.events.flatMap (storedBy engine batch)

def batchRemovals (engine : EngineEndpoint) (batch : KvEventBatch) : List Call :=
  (batch.events.filter fun event => !event.isStored).flatMap (eventCalls engine batch)

/-- Nothing is removed after something was stored. -/
def RemovalsFirst (events : List KvEvent) : Prop :=
  ∃ removals stored, events = removals ++ stored ∧ (∀ e ∈ removals, e.isStored = false) ∧ ∀ e ∈ stored, e.isStored = true

section batch

variable {I : Type} [IndexBackend I] {engine : EngineEndpoint} {batch : KvEventBatch} {event : KvEvent}

lemma applyRemoved_snd (event : BlockRemovedEvent) (backend : I) : (applyRemoved engine batch event backend).2 =
    (eventCalls engine batch (.blockRemoved event)).foldl onIndex backend := by
  rw [applyRemoved, eventCalls, foldl_map]
  generalize 0 = n
  induction event.blockHashes generalizing n backend with
  | nil => rfl
  | cons blockHash blockHashes ih => exact ih _ _

lemma ingestEvent_snd (st : IngestSummary × I) (event : KvEvent) :
    (ingestEvent engine batch st event).2 = (eventCalls engine batch event).foldl onIndex st.2 := by
  cases event with
  | blockStored event =>
    rw [eventCalls, foldl_map]
    rfl
  | blockRemoved event => exact applyRemoved_snd event st.2
  | allBlocksCleared => rfl

lemma ingestBatch_eq {engines : List EngineEndpoint} (backend : I)
    (hengine : engines.find? (fun engine => engine.id = batch.engineId) = some engine) :
    ∃ summary, ingestBatch batch engines backend =
      .ok (summary, (batch.events.flatMap (eventCalls engine batch)).foldl onIndex backend) := by
  have hfold : ∀ (events : List KvEvent) (st : IngestSummary × I), (events.foldl (ingestEvent engine batch) st).2 =
      (events.flatMap (eventCalls engine batch)).foldl onIndex st.2 := by
    intro events
    induction events with
    | nil => exact fun st => rfl
    | cons event events ih =>
      intro st
      rw [foldl_cons, ih, flatMap_cons, List.foldl_append, ingestEvent_snd]
  have hbackend := hfold batch.events (⟨0, 0, false, 0⟩, backend)
  rcases hst : batch.events.foldl (ingestEvent engine batch) (⟨0, 0, false, 0⟩, backend) with ⟨summary, backend'⟩
  rw [hst] at hbackend
  refine ⟨{ summary with totalResidentBlocks := IndexBackend.len backend' }, ?_⟩
  simp only [ingestBatch, hengine, hst, ← hbackend]

lemma isRemoval_of_mem (h : event.isStored = false) {c : Call} (hc : c ∈ eventCalls engine batch event) :
    c.isRemoval := by
  cases event with
  | blockStored event => cases h
  | blockRemoved event =>
    obtain ⟨blockHash, -, rfl⟩ := List.mem_map.mp hc
    rfl
  | allBlocksCleared =>
    cases mem_singleton.mp hc
    rfl

lemma isRemoval_batchRemovals {c : Call} (hc : c ∈ batchRemovals engine batch) : c.isRemoval := by
  obtain ⟨event, hevent, hc⟩ := mem_flatMap.mp hc
  have hnot := (mem_filter.mp hevent).2
  rw [Bool.not_eq_true'] at hnot
  exact isRemoval_of_mem hnot hc

lemma eventCalls_of_stored (h : event.isStored = true) :
    eventCalls engine batch event = (storedBy engine batch event).map .place := by
  cases event with
  | blockStored event => rfl
  | blockRemoved event => cases h
  | allBlocksCleared => cases h

lemma storedBy_of_not_stored (h : event.isStored = false) : storedBy engine batch event = [] := by
  cases event with
  | blockStored event => cases h
  | blockRemoved event => rfl
  | allBlocksCleared => rfl

lemma workerId_of_mem_batchStored {r : CacheResidency} (hr : r ∈ batchStored engine batch) :
    r.workerId = engine.id := by
  obtain ⟨event, -, hr⟩ := mem_flatMap.mp hr
  cases event with
  | blockStored event =>
    obtain ⟨key, -, rfl⟩ := List.mem_map.mp hr
    rfl
  | blockRemoved event => cases hr
  | allBlocksCleared => cases hr

lemma flatMap_eventCalls (h : RemovalsFirst batch.events) : batch.events.flatMap (eventCalls engine batch) =
    batchRemovals engine batch ++ (batchStored engine batch).map .place := by
  obtain ⟨removals, stored, hevents, hremovals, hstored⟩ := h
  have hleft : removals.filter (fun event => !event.isStored) = removals :=
    filter_eq_self.mpr fun e he => by rw [hremovals e he, Bool.not_false]
  have hright : stored.filter (fun event => !event.isStored) = [] :=
    filter_eq_nil_iff.mpr fun e he => by rw [hstored e he, Bool.not_true]; exact Bool.false_ne_true
  have hnone : removals.flatMap (storedBy engine batch) = [] :=
    flatMap_eq_nil_iff.mpr fun e he => storedBy_of_not_stored (hremovals e he)
  rw [batchRemovals, batchStored, hevents, filter_append, hleft, hright, append_nil, flatMap_append,
    flatMap_append, hnone, nil_append, map_flatMap]
  congr 1
  exact flatMap_congr fun e he => eventCalls_of_stored (hstored e he)

end batch

/-! ## Agreement -/

/-- The index has each block of the data plane in its tier, and nothing else. -/
structure Agrees (idx : MemoryIndex) (plane : StoreDataPlane) : Prop where
  exact : idx.Exact
  filed : Filed plane
  aged : Aged plane
  tiers : ∀ a, tiersAt idx a = tierSet (plane.records a)

section agrees

variable {codec : Codec WalRecord} {idx idx' : MemoryIndex} {plane plane₁ plane' : StoreDataPlane}
  {u v : DataPlaneUpdate} {calls : List Call} {rs : List CacheResidency}

/-- **The mirror of removals and then placements**, on an index that is right wherever nothing is placed. -/
lemma agrees_mirror (hremovals : RemovalOutcome calls plane u plane₁) (hplacements : PlacementOutcome rs plane₁ v plane')
    (hidx : idx.Exact) (htiers : ∀ a ∉ rs.map CacheResidency.address, tiersAt idx a = tierSet (plane₁.records a))
    (hsparse : Sparse {a | plane₁.records a ≠ none ∨ a ∈ rs.map CacheResidency.address}) :
    Agrees (mirrorDataPlaneUpdate (u.append v) idx) plane' := by
  have hnone : u.filed = [] := by rw [DataPlaneUpdate.filed, hremovals.resident, map_nil]
  have hfiled : (u.append v).filed = v.filed := by rw [DataPlaneUpdate.filed_append, hnone, nil_append]
  have hrecords : plane'.records = patch (u.append v).deleted (u.append v).filed plane.records := by
    rw [hplacements.records, hremovals.records, DataPlaneUpdate.deleted_append, DataPlaneUpdate.filed_append,
      patch_append]
    intro a _ ha
    rw [hnone] at ha
    cases ha
  have hexact : (mirrorDataPlaneUpdate (u.append v) idx).Exact := by
    rw [mirror_eq]
    exact exact_replaceAll (exact_foldl_onIndex hidx _) _
  refine ⟨hexact, hplacements.filed, hplacements.aged, fun a => ?_⟩
  rw [hrecords]
  refine tiersAt_mirror hidx hsparse (fun b hb => ?_) (fun b hb hnot hdel => ?_) (fun b hb => ?_) a
  · rw [hfiled] at hb
    exact (hplacements.known b (.inl hb)).symm
  · -- neither placed nor taken away
    rw [hfiled] at hnot
    rw [DataPlaneUpdate.deleted_append, mem_append, not_or] at hdel
    have hnew : b ∉ rs.map CacheResidency.address := fun h => by
      obtain ⟨r, hr, rfl⟩ := List.mem_map.mp h
      exact (hplacements.reported r hr).elim hnot hdel.2
    have hold : plane₁.records b ≠ none := hb.resolve_right hnew
    refine ⟨fun c hc htwin => ?_, ?_⟩
    · rw [DataPlaneUpdate.deleted_append, mem_append] at hc
      rcases hc with hc | hc
      · obtain ⟨call, hcall, hdrops⟩ := hremovals.dropped c hc
        have hex : ∃ call ∈ calls, call.Drops b := ⟨call, hcall, drops_of_twin htwin hdrops⟩
        exact hold ((hremovals.gone b).trans (if_pos hex))
      · have heq := hsparse b hb c (hplacements.known c (.inr hc)).symm htwin
        exact hdel.2 (heq ▸ hc)
    · rw [htiers b hnew, hremovals.records, hnone, patch_of_untouched not_mem_nil hdel.1]
  · have hb' : plane₁.records b = none ∧ b ∉ rs.map CacheResidency.address :=
      ⟨not_not.mp fun h => hb (.inl h), fun h => hb (.inr h)⟩
    refine ⟨by rw [htiers b hb'.2, hb'.1, tierSet_none], ?_⟩
    have hgone := hb'.1
    rw [hremovals.records] at hgone
    rw [DataPlaneUpdate.deleted_append, mem_append]
    exact (patch_eq_none hgone).imp id .inl

lemma Agrees.perm (h : Agrees idx plane) :
    (idx.snapshot.map fun r => (r.workerId, r.key, r.tier)).Perm
      (plane.snapshot.map fun r => (r.workerId, r.key, r.tier)) := by
  have hindex : (idx.snapshot.map fun r => (r.workerId, r.key, r.tier)).Nodup := by
    refine (MemoryIndex.nodup_snapshot h.exact).map_on fun r hr r' hr' heq => ?_
    simp only [Prod.mk.injEq] at heq
    obtain ⟨hw, hk, ht⟩ := heq
    rw [MemoryIndex.mem_snapshot h.exact] at hr hr'
    rw [← hk] at hr'
    by_contra hne
    exact (MemoryIndex.pairwise_locate h.exact r.key).forall hr hr' hne ⟨hw, ht⟩
  have hplane : (plane.snapshot.map fun r => (r.workerId, r.key, r.tier)).Nodup := by
    have haddr := nodup_snapshot h.filed
    refine haddr.of_map.map_on fun r hr r' hr' heq => ?_
    simp only [Prod.mk.injEq] at heq
    exact inj_on_of_nodup_map haddr hr hr' (Prod.ext heq.1 heq.2.1)
  refine (perm_ext_iff_of_nodup hindex hplane).mpr fun ⟨w, k, t⟩ => ?_
  have htiers := congrArg (t ∈ ·) (h.tiers (w, k))
  rw [eq_iff_iff, mem_tiersAt] at htiers
  simp only [List.mem_map, Prod.mk.injEq, MemoryIndex.mem_snapshot h.exact, mem_snapshot h.filed]
  constructor
  · rintro ⟨r, hr, rfl, rfl, rfl⟩
    obtain ⟨r', hr', ht⟩ := map_eq_some_iff.mp (htiers.mp ⟨r, hr, rfl, rfl⟩)
    have haddr := h.filed _ r' hr'
    exact ⟨r', haddr ▸ hr', congrArg Prod.fst haddr, congrArg Prod.snd haddr, ht⟩
  · rintro ⟨r, hr, rfl, rfl, rfl⟩
    obtain ⟨r', hr', hw, ht⟩ := htiers.mpr (map_eq_some_iff.mpr ⟨r, hr, rfl⟩)
    have hk := h.exact.mem_locate hr'
    exact ⟨r', hk ▸ hr', hw, hk, ht⟩

end agrees

/-! ## Runs -/

inductive Notice where
  | ingest (batch : KvEventBatch)
  | observePlacement (engineId : String) (blocks : List KvBlockKey) (blockBytes : ℕ)

/-- A batch that the index and the data plane take alike: its removals come first, no two of the blocks that stay
or are stored are twins, and of several new blocks none can be pushed out again. -/
structure Mirrorable (plane : StoreDataPlane) (engine : EngineEndpoint) (batch : KvEventBatch) : Prop where
  order : RemovalsFirst batch.events
  sparse : Sparse {a | (plane.records a ≠ none ∧ ∀ c ∈ batchRemovals engine batch, ¬c.Drops a) ∨
    a ∈ (batchStored engine batch).map CacheResidency.address}
  room : (batchStored engine batch).length ≤ 1 ∨
    tierBytes (plane.cacheOf engine.id) .hbm + tierBytes (plane.cacheOf engine.id) .cpuDram +
      ((batchStored engine batch).map CacheResidency.bytes).sum ≤ capacity plane.config .localSsd

namespace ControlPlane

def serve {I : Type} [IndexBackend I] (codec : Codec WalRecord) (orders : ℕ → HashOrder) :
    Notice → ControlPlane I → Option (ControlPlane I)
  | .ingest batch, self =>
    match self.ingest codec orders batch with
    | some (.ok _, self) => some self
    | _ => none
  | .observePlacement engineId blocks blockBytes, self =>
    (self.observePlacement codec orders engineId blocks blockBytes).map Prod.snd

def Careful (self : ControlPlane MemoryIndex) : Notice → Prop
  | .ingest batch => ∀ engine, self.engines.find? (fun engine => engine.id = batch.engineId) = some engine →
      ∀ plane, self.dataPlane = some plane → Mirrorable plane engine batch
  | .observePlacement engineId blocks _ => ∀ plane, self.dataPlane = some plane →
      Sparse {a | plane.records a ≠ none ∨ a ∈ blocks.map (Prod.mk engineId)}

inductive Step (codec : Codec WalRecord) (cond : ControlPlane MemoryIndex → Notice → Prop) :
    ControlPlane MemoryIndex → ControlPlane MemoryIndex → Prop where
  | serve {self self' : ControlPlane MemoryIndex} (orders : ℕ → HashOrder) (notice : Notice)
      (hcond : cond self notice) (h : self.serve codec orders notice = some self') : Step codec cond self self'
  | shuffle {self : ControlPlane MemoryIndex} {idx : MemoryIndex} (h : self.residency.Shuffled idx) :
      Step codec cond self { self with residency := idx }

def start (engines : List EngineEndpoint) (config : StoreTierConfig) (disks : String → Disk) :
    ControlPlane MemoryIndex := ⟨engines, {}, some (.new config disks)⟩

section runs

variable {codec : Codec WalRecord} {self self' : ControlPlane MemoryIndex} {plane : StoreDataPlane}

variable {orders : ℕ → HashOrder} {batch : KvEventBatch} {engine : EngineEndpoint}

lemma serve_ingest_none (hengine : self.engines.find? (fun engine => engine.id = batch.engineId) = some engine)
    (hplane : self.dataPlane = none) : self.serve codec orders (.ingest batch) =
      some { self with residency := (batch.events.flatMap (eventCalls engine batch)).foldl onIndex self.residency } := by
  obtain ⟨summary, hbatch⟩ := ingestBatch_eq self.residency hengine
  simp only [serve, ingest, hengine, hbatch, hplane]

lemma serve_ingest_some (hengine : self.engines.find? (fun engine => engine.id = batch.engineId) = some engine)
    (hplane : self.dataPlane = some plane) : self.serve codec orders (.ingest batch) =
      (applyBatchToDataPlane codec orders engine batch plane).map fun r =>
        { self with
          residency := mirrorDataPlaneUpdate r.1
            ((batch.events.flatMap (eventCalls engine batch)).foldl onIndex self.residency)
          dataPlane := some r.2 } := by
  obtain ⟨summary, hbatch⟩ := ingestBatch_eq self.residency hengine
  simp only [serve, ingest, hengine, hbatch, hplane]
  cases applyBatchToDataPlane codec orders engine batch plane <;> rfl

lemma serve_ingest_unknown (hengine : self.engines.find? (fun engine => engine.id = batch.engineId) = none) :
    self.serve codec orders (.ingest batch) = none := by
  simp only [serve, ingest, hengine]

lemma applyBatch_outcomes {u : DataPlaneUpdate} {plane' : StoreDataPlane} (hfiled : Filed plane) (haged : Aged plane)
    (h : Mirrorable plane engine batch)
    (hrun : applyBatchToDataPlane codec orders engine batch plane = some (u, plane')) :
    ∃ v w plane₁, u = v.append w ∧ RemovalOutcome (batchRemovals engine batch) plane v plane₁ ∧
      PlacementOutcome (batchStored engine batch) plane₁ w plane' := by
  obtain ⟨⟨us, plane₂⟩, hus, heq⟩ := map_eq_some_iff.mp hrun
  cases heq
  rw [flatMap_eventCalls h.order] at hus
  have hcalls : (ordered orders (batchRemovals engine batch ++ (batchStored engine batch).map .place)).map Prod.snd =
      batchRemovals engine batch ++ (batchStored engine batch).map .place := by
    rw [ordered, List.map_map]
    exact zipIdx_map_fst _ _
  obtain ⟨calls₁, calls₂, hsplit, hcalls₁, hcalls₂⟩ := map_eq_append_iff.mp hcalls
  rw [hsplit] at hus
  obtain ⟨us₁, plane₁, us₂, h₁, h₂, rfl⟩ := runAll_append hus
  have hremovals := removals_runAll hfiled haged (fun c hc =>
    isRemoval_batchRemovals (hcalls₁ ▸ List.mem_map_of_mem hc)) h₁
  rw [hcalls₁] at hremovals
  have hshrinks := hremovals.shrinks engine.id
  refine ⟨_, _, plane₁, ?_, hremovals, placements_runAll hremovals.filed hremovals.aged hcalls₂
    (fun r hr => workerId_of_mem_batchStored hr) (h.room.imp id fun hroom => ?_) h₂⟩
  · rw [List.foldl_append, DataPlaneUpdate.foldl_append]
  · rw [hremovals.config]
    exact le_trans (Nat.add_le_add_right (Nat.add_le_add (hshrinks.tierBytes _) (hshrinks.tierBytes _)) _) hroom

lemma agrees_ingest (hplane : self.dataPlane = some plane) (h : Agrees self.residency plane)
    (hcareful : self.Careful (.ingest batch)) (hrun : self.serve codec orders (.ingest batch) = some self') :
    ∃ plane', self'.dataPlane = some plane' ∧ Agrees self'.residency plane' := by
  cases hengine : self.engines.find? fun engine => engine.id = batch.engineId with
  | none =>
    rw [serve_ingest_unknown hengine] at hrun
    cases hrun
  | some engine =>
    have hmirrorable := hcareful engine hengine plane hplane
    rw [serve_ingest_some hengine hplane] at hrun
    obtain ⟨⟨u, plane'⟩, happly, rfl⟩ := map_eq_some_iff.mp hrun
    obtain ⟨v, w, plane₁, rfl, hremovals, hplacements⟩ := applyBatch_outcomes h.filed h.aged hmirrorable happly
    refine ⟨plane', rfl, agrees_mirror hremovals hplacements (exact_foldl_onIndex h.exact _) (fun a ha => ?_) ?_⟩
    · rw [flatMap_eventCalls hmirrorable.order, List.foldl_append, tiersAt_foldl_put _ ha,
        tiersAt_foldl_removal h.exact fun c hc => isRemoval_batchRemovals hc, hremovals.gone, h.tiers]
      split_ifs <;> simp
    · exact fun a ha b hb => hmirrorable.sparse a (ha.imp hremovals.kept id) b (hb.imp hremovals.kept id)

lemma agrees_observeBlock {engineId : String} {blockBytes : ℕ} {acts acts' : List DataPlaneAction}
    {block : HashOrder × KvBlockKey} (hplane : self.dataPlane = some plane) (h : Agrees self.residency plane)
    (hsparse : Sparse {a | plane.records a ≠ none ∨ a = (engineId, block.2)})
    (hrun : observeBlock codec engineId blockBytes (acts, self) block = some (acts', self')) :
    ∃ plane', self'.dataPlane = some plane' ∧ Agrees self'.residency plane' ∧
      ∀ a, plane'.records a ≠ none → plane.records a ≠ none ∨ a = (engineId, block.2) := by
  simp only [observeBlock, hplane, bind_eq_bind, bind_eq_some_iff] at hrun
  obtain ⟨⟨u, plane'⟩, hplace, heq⟩ := hrun
  cases heq
  have hplacement := (placementOutcome_nil h.filed h.aged).place hplace nofun
  refine ⟨plane', rfl, agrees_mirror (removalOutcome_nil h.filed h.aged) hplacement h.exact (fun a _ => h.tiers a) ?_,
    fun a ha => ?_⟩
  · exact fun a ha b hb => hsparse a (ha.imp id mem_singleton.mp) b (hb.imp id mem_singleton.mp)
  · exact (hplacement.known_of_records ha).imp id mem_singleton.mp

lemma agrees_observePlacement {blocks : List (HashOrder × KvBlockKey)} {engineId : String} {blockBytes : ℕ}
    {acts acts' : List DataPlaneAction} (hplane : self.dataPlane = some plane) (h : Agrees self.residency plane)
    (hsparse : Sparse {a | plane.records a ≠ none ∨ a ∈ blocks.map fun b => (engineId, b.2)})
    (hrun : blocks.foldlM (observeBlock codec engineId blockBytes) (acts, self) = some (acts', self')) :
    ∃ plane', self'.dataPlane = some plane' ∧ Agrees self'.residency plane' := by
  induction blocks generalizing acts self plane with
  | nil =>
    cases hrun
    exact ⟨plane, hplane, h⟩
  | cons block blocks ih =>
    rw [foldlM_cons, bind_eq_bind, bind_eq_some_iff] at hrun
    obtain ⟨⟨acts₁, self₁⟩, h₁, hrest⟩ := hrun
    have hhead : ∀ a, plane.records a ≠ none ∨ a = (engineId, block.2) →
        plane.records a ≠ none ∨ a ∈ (block :: blocks).map fun b => (engineId, b.2) := fun a ha =>
      ha.imp id fun heq => mem_cons.mpr (.inl heq)
    obtain ⟨plane₁, hplane₁, hagrees, hknown⟩ := agrees_observeBlock hplane h
      (fun a ha b hb => hsparse a (hhead a ha) b (hhead b hb)) h₁
    have htail : ∀ a, (plane₁.records a ≠ none ∨ a ∈ blocks.map fun b => (engineId, b.2)) →
        plane.records a ≠ none ∨ a ∈ (block :: blocks).map fun b => (engineId, b.2) := fun a ha =>
      ha.elim (fun hr => hhead a (hknown a hr)) fun hmem => .inr (mem_cons_of_mem _ hmem)
    exact ih hplane₁ hagrees (fun a ha b hb => hsparse a (htail a ha) b (htail b hb)) hrest

lemma agrees_shuffled {idx : MemoryIndex} (h : Agrees self.residency plane) (hs : self.residency.Shuffled idx) :
    Agrees idx plane := by
  refine ⟨MemoryIndex.exact_shuffled h.exact hs, h.filed, h.aged, fun a => ?_⟩
  rw [← h.tiers a, tiersAt, tiersAt, MemoryIndex.locate, MemoryIndex.locate, hs.entries.lookup_eq]

lemma agrees_step (hplane : self.dataPlane = some plane) (h : Agrees self.residency plane)
    (hstep : Step codec Careful self self') :
    ∃ plane', self'.dataPlane = some plane' ∧ Agrees self'.residency plane' := by
  cases hstep with
  | shuffle hs => exact ⟨plane, hplane, agrees_shuffled h hs⟩
  | serve orders notice hcareful hrun =>
    cases notice with
    | ingest batch => exact agrees_ingest hplane h hcareful hrun
    | observePlacement engineId blocks blockBytes =>
      obtain ⟨⟨acts, self₁⟩, hobserve, rfl⟩ := map_eq_some_iff.mp hrun
      refine agrees_observePlacement hplane h ?_ hobserve
      have hblocks : ((blocks.zipIdx.map fun b => (orders b.2, b.1)).map fun b => (engineId, b.2)) =
          blocks.map (Prod.mk engineId) := by
        conv_rhs => rw [← zipIdx_map_fst 0 blocks]
        rw [List.map_map, List.map_map]
        rfl
      rw [hblocks]
      exact hcareful plane hplane

/-- **The index mirrors the data plane**: in every state that calls lead to, each of which is a batch that
`Mirrorable` allows or a placement without twins, the index has exactly the blocks of the data plane, each on its
worker and in its tier. -/
theorem index_mirrors_plane (codec : Codec WalRecord) (engines : List EngineEndpoint) (config : StoreTierConfig)
    (disks : String → Disk) (self : ControlPlane MemoryIndex)
    (h : Relation.ReflTransGen (Step codec Careful) (start engines config disks) self) :
    ∃ plane, self.dataPlane = some plane ∧
      (self.residency.snapshot.map fun r => (r.workerId, r.key, r.tier)).Perm
        (plane.snapshot.map fun r => (r.workerId, r.key, r.tier)) := by
  have hagrees : ∃ plane, self.dataPlane = some plane ∧ Agrees self.residency plane := by
    induction h with
    | refl =>
      refine ⟨_, rfl, MemoryIndex.exact_new, filed_new config disks, fun _ => nofun, fun a => ?_⟩
      have hempty : tiersAt {} a = ∅ := Set.eq_empty_of_forall_notMem nofun
      exact hempty.trans tierSet_none.symm
    | tail _ hstep ih =>
      obtain ⟨plane, hplane, hagrees⟩ := ih
      exact agrees_step hplane hagrees hstep
  obtain ⟨plane, hplane, hagrees⟩ := hagrees
  exact ⟨plane, hplane, hagrees.perm⟩

def emptyStart : ControlPlane MemoryIndex := start [⟨"w", "m", "t", "u"⟩] {} fun _ => ⟨none, ∅⟩

def storeTwo : KvEventBatch where
  engineId := "w"
  events := [.blockRemoved ⟨["h"]⟩, .blockStored { blockHashes := ["h", "g"], blockSize := 16 }]

lemma careful_storeTwo : emptyStart.Careful (.ingest storeTwo) := by
  intro engine hengine plane hplane
  cases hengine
  cases hplane
  refine ⟨⟨[.blockRemoved ⟨["h"]⟩], [.blockStored { blockHashes := ["h", "g"], blockSize := 16 }], rfl, ?_, ?_⟩, ?_, ?_⟩
  · decide
  · decide
  · have hsparse : ∀ a ∈ (batchStored ⟨"w", "m", "t", "u"⟩ storeTwo).map CacheResidency.address,
        ∀ b ∈ (batchStored ⟨"w", "m", "t", "u"⟩ storeTwo).map CacheResidency.address, Twin a b → a = b := by
      decide +kernel
    exact fun a ha b hb => hsparse a (ha.resolve_left fun h => h.1 rfl) b (hb.resolve_left fun h => h.1 rfl)
  · exact .inr (by decide +kernel)

theorem index_mirrors_plane_storeTwo : ∃ self plane,
    emptyStart.serve recordCodec (fun _ => .asBuilt) (.ingest storeTwo) = some self ∧ self.dataPlane = some plane ∧
      plane.snapshot.length = 2 ∧ (self.residency.snapshot.map fun r => (r.workerId, r.key, r.tier)).Perm
        (plane.snapshot.map fun r => (r.workerId, r.key, r.tier)) := by
  have hrun : ((emptyStart.serve recordCodec (fun _ => .asBuilt) (.ingest storeTwo)).any fun self =>
      self.dataPlane.any fun plane => decide (plane.snapshot.length = 2)) = true := by decide +kernel
  obtain ⟨self, hself, hany⟩ := (Option.any_eq_true _ _).mp hrun
  obtain ⟨plane, hplane, hlen⟩ := (Option.any_eq_true _ _).mp hany
  obtain ⟨plane', hplane', hperm⟩ := index_mirrors_plane recordCodec _ _ _ self
    (.single (.serve (fun _ => .asBuilt) (.ingest storeTwo) careful_storeTwo hself))
  cases hplane.symm.trans hplane'
  exact ⟨self, plane, hself, hplane, of_decide_eq_true hlen, hperm⟩

def storeAndRemove : KvEventBatch where
  engineId := "w"
  events := [.blockStored { blockHashes := ["h"], blockSize := 16 }, .blockRemoved ⟨["h"]⟩]

/-- **A block comes back.** A batch stores a block and removes it: the data plane holds nothing, the index has the
block. -/
theorem stored_and_removed : ∃ self plane,
    Relation.ReflTransGen (Step recordCodec fun _ _ => True) emptyStart self ∧ self.dataPlane = some plane ∧
      ¬(self.residency.snapshot.map fun r => (r.workerId, r.key, r.tier)).Perm
        (plane.snapshot.map fun r => (r.workerId, r.key, r.tier)) := by
  have hrun : ((emptyStart.serve recordCodec (fun _ => .asBuilt) (.ingest storeAndRemove)).any fun self =>
      self.dataPlane.any fun plane => decide (self.residency.snapshot.length = 1 ∧ plane.snapshot.length = 0)) = true := by
    decide +kernel
  obtain ⟨self, hself, hany⟩ := (Option.any_eq_true _ _).mp hrun
  obtain ⟨plane, hplane, hlen⟩ := (Option.any_eq_true _ _).mp hany
  refine ⟨self, plane, .single (.serve (fun _ => .asBuilt) (.ingest storeAndRemove) trivial hself), hplane, fun hperm => ?_⟩
  have hlength := hperm.length_eq
  rw [length_map, length_map, (of_decide_eq_true hlen).1, (of_decide_eq_true hlen).2] at hlength
  cases hlength

end runs

end ControlPlane

end QuillCache.Core
