import QuillCache.Store.DataPlaneRun

/-!
# Placements in a row

The updates of several calls may be joined into one, with all removals first, if no block that an earlier call
reports as resident is taken away by a later one (`patch_append`). For placements in a row this is so if the local
SSD has room for what is in the tiers above it and for the new blocks together: the blocks that were touched since
the first placement are then never the coldest of an SSD that is too full.
-/

namespace QuillCache.Store.StoreDataPlane

open Lib QuillCache.Core List Option
open AList hiding keys

def cacheOf (self : StoreDataPlane) (workerId : String) : WorkerCache := (self.workers.lookup workerId).getD {}

/-- What a block may come to weigh on the SSD before older blocks are gone from it. -/
def burden (since : ℕ) (entry : TierEntry) : ℕ :=
  match entry.residency.tier with
  | .hbm | .cpuDram => entry.residency.bytes
  | .localSsd => if since < entry.lastAccess then entry.residency.bytes else 0
  | .remoteHbm | .objectStore => 0

def WorkerCache.Aged (worker : WorkerCache) : Prop := ∀ k e, worker.entries.lookup k = some e → e.lastAccess ≤ worker.clock

def Aged (self : StoreDataPlane) : Prop := ∀ workerId, WorkerCache.Aged (self.cacheOf workerId)

section burden

variable {since : ℕ} {worker : WorkerCache}

lemma total_burden_of_aged (h : WorkerCache.Aged worker) : worker.entries.total (burden worker.clock) =
    tierBytes worker .hbm + tierBytes worker .cpuDram := by
  rw [tierBytes_eq_total, tierBytes_eq_total, AList.total, AList.total, AList.total, ← sum_map_add]
  refine congrArg List.sum (map_congr_left fun e he => ?_)
  obtain ⟨k, hk⟩ := mem_values.mp he
  have hle := h k e hk
  simp only [burden, within]
  cases e.residency.tier <;> simp [hle]

lemma tierBytes_le_burden (h : ∀ k e, worker.entries.lookup k = some e → e.residency.tier = .localSsd → since < e.lastAccess) :
    tierBytes worker .localSsd ≤ worker.entries.total (burden since) := by
  rw [tierBytes_eq_total]
  refine total_mono _ fun e he => ?_
  obtain ⟨k, hk⟩ := mem_values.mp he
  rw [within]
  split_ifs with htier
  · rw [burden, htier]
    simp only [if_pos (h k e hk htier), le_refl]
  · exact Nat.zero_le _

end burden

/-- Nothing that was touched since the clock stood at `since` is in danger. -/
structure Unhurried (since room : ℕ) (kept : KvBlockKey → Prop) (st : Enforcement) : Prop where
  clock : since < st.worker.clock
  burden : st.worker.entries.total (burden since) ≤ room
  capacity : room ≤ capacity st.plane.config .localSsd
  kept : ∀ k, kept k → ∃ e, st.worker.entries.lookup k = some e ∧ since < e.lastAccess
  affected : ∀ k ∈ st.affected, ∀ e, st.worker.entries.lookup k = some e → since < e.lastAccess

section unhurried

variable {codec : Codec WalRecord} {order : HashOrder} {workerId : String} {tier : CacheTier} {key : KvBlockKey}
  {victim : TierEntry} {st st' : Enforcement} {since room : ℕ} {kept : KvBlockKey → Prop}

lemma Unhurried.old_victim (h : Unhurried since room kept st)
    (hover : StoreDataPlane.capacity st.plane.config .localSsd < tierBytes st.worker .localSsd)
    (hmin : ∀ k e, st.worker.entries.lookup k = some e → e.residency.tier = .localSsd →
      victim.lastAccess ≤ e.lastAccess) : victim.lastAccess ≤ since := by
  by_contra hnew
  have hle := @tierBytes_le_burden since st.worker fun k e he htier => by
    have hage := hmin k e he htier
    omega
  have hburden := h.burden
  have hcapacity := h.capacity
  omega

lemma Unhurried.turn (h : Unhurried since room kept st) (htiers : tier ∈ managedTiers)
    (hover : StoreDataPlane.capacity st.plane.config tier < tierBytes st.worker tier)
    (hvictim : st.worker.entries.lookup key = some victim) (htier : victim.residency.tier = tier)
    (hmin : ∀ k e, st.worker.entries.lookup k = some e → e.residency.tier = tier →
      victim.lastAccess ≤ e.lastAccess) : Unhurried since room kept (turn codec workerId tier key victim st) := by
  have hclock := h.clock
  have hsum := @total_turn codec workerId tier key victim st hvictim (StoreDataPlane.burden since)
  -- a victim that is pushed out was not touched since
  have hout : lowerTier tier = none → victim.lastAccess ≤ since ∧ StoreDataPlane.burden since victim = 0 := by
    intro hnone
    have hssd : tier = .localSsd := by
      revert hnone htiers
      cases tier <;> decide
    subst hssd
    have hold := h.old_victim hover hmin
    refine ⟨hold, ?_⟩
    simp only [StoreDataPlane.burden, htier]
    exact if_neg (by omega)
  have hnewer : ∀ nextTier, lowerTier tier = some nextTier →
      StoreDataPlane.burden since (demoted workerId nextTier st.worker.clock victim) =
        StoreDataPlane.burden since victim := by
    intro nextTier hnext
    cases tier <;> cases hnext <;> simp [StoreDataPlane.burden, demoted, htier, hclock]
  refine ⟨by simpa using hclock, ?_, by simpa using h.capacity, fun k hk => ?_, fun k hk e he => ?_⟩
  · have hroom := h.burden
    cases hnext : lowerTier tier with
    | none =>
      rw [hnext, (hout hnext).2, elim_none] at hsum
      omega
    | some nextTier =>
      rw [hnext, elim_some, hnewer nextTier hnext] at hsum
      omega
  · obtain ⟨e, he, hnew⟩ := h.kept k hk
    rcases eq_or_ne k key with rfl | hne
    · rw [hvictim] at he
      cases he
      cases hnext : lowerTier tier with
      | none =>
        have hold := (hout hnext).1
        omega
      | some nextTier =>
        exact ⟨_, by rw [lookup_turn_self, hnext, map_some], hclock⟩
    · exact ⟨e, by rw [lookup_turn_ne hne, he], hnew⟩
  · rcases eq_or_ne k key with rfl | hne
    · rw [lookup_turn_self, map_eq_some_iff] at he
      obtain ⟨nextTier, -, rfl⟩ := he
      exact hclock
    · rw [lookup_turn_ne hne] at he
      rw [affected_turn, mem_insert_iff, or_iff_right hne] at hk
      exact h.affected k hk e he

lemma Unhurried.enforceCapacity (h : Unhurried since room kept st)
    (hrun : enforceCapacity codec order workerId st = some st') : Unhurried since room kept st' :=
  enforceCapacity_preserves (fun _ htiers _ _ _ hst hover hvictim htier hmin =>
    hst.turn htiers hover hvictim htier hmin) h hrun

lemma unhurried_placed {self : StoreDataPlane} {residency : CacheResidency}
    (hclock : since ≤ (self.cacheOf residency.workerId).clock)
    (hburden : (self.cacheOf residency.workerId).entries.total (burden since) + residency.bytes ≤ room)
    (hroom : room ≤ capacity self.config .localSsd)
    (hkept : ∀ k, kept k → ∃ e, (self.cacheOf residency.workerId).entries.lookup k = some e ∧ since < e.lastAccess) :
    Unhurried since room (fun k => kept k ∨ k = residency.key) (placed residency self) := by
  have hnew : since < (self.cacheOf residency.workerId).clock + 1 := by omega
  refine ⟨hnew, ?_, hroom, fun k hk => ?_, fun k hk e he => ?_⟩
  · have hfresh : residency.key ∉ (self.cacheOf residency.workerId).entries.erase residency.key := by simp
    have hle : ((self.cacheOf residency.workerId).entries.erase residency.key).total (StoreDataPlane.burden since) ≤
        (self.cacheOf residency.workerId).entries.total (StoreDataPlane.burden since) := by
      cases hold : (self.cacheOf residency.workerId).entries.lookup residency.key with
      | none => rw [erase_of_notMem (lookup_eq_none.mp hold)]
      | some e =>
        have hsum := total_erase hold (StoreDataPlane.burden since)
        omega
    have hbytes : ∀ e : TierEntry, StoreDataPlane.burden since e ≤ e.residency.bytes := by
      intro e
      rw [StoreDataPlane.burden]
      split
      · exact le_rfl
      · exact le_rfl
      · split_ifs <;> omega
      · omega
      · omega
    have hsum := total_insert hfresh (StoreDataPlane.burden since)
      ⟨{ residency with lastAccessMs := (self.cacheOf residency.workerId).clock + 1 },
        (self.cacheOf residency.workerId).clock + 1⟩
    have hplaced := hbytes ⟨{ residency with lastAccessMs := (self.cacheOf residency.workerId).clock + 1 },
        (self.cacheOf residency.workerId).clock + 1⟩
    change AList.total _ (AList.insert _ _ (AList.erase residency.key (self.cacheOf residency.workerId).entries)) ≤ _
    refine hsum.le.trans ?_
    simp only at hplaced
    omega
  · rcases eq_or_ne k residency.key with rfl | hne
    · exact ⟨_, lookup_insert _, hnew⟩
    · obtain ⟨e, he, hage⟩ := hkept k (hk.resolve_right hne)
      exact ⟨e, (lookup_insert_ne hne).trans ((lookup_erase_ne hne).trans he), hage⟩
  · cases mem_singleton.mp hk
    have heq : some e = some _ := he.symm.trans (lookup_insert _)
    cases heq
    exact hnew

end unhurried

/-! ## Calls on the caches -/

section caches

variable {codec : Codec WalRecord} {order : HashOrder} {workerId : String} {self self' : StoreDataPlane}
  {st : Enforcement} {residency : CacheResidency} {u : DataPlaneUpdate}

lemma cacheOf_settled : (settled order workerId st).2.cacheOf workerId = st.worker := by
  simp only [settled, cacheOf, lookup_insert, getD_some]

lemma cacheOf_settled_ne {w : String} (hw : w ≠ workerId) (hworkers : st.plane.workers = self.workers.erase workerId) :
    (settled order workerId st).2.cacheOf w = self.cacheOf w := by
  simp only [settled, cacheOf, hworkers, lookup_insert_ne hw, lookup_erase_ne hw]

lemma aged_placed (h : Aged self) : WorkerCache.Aged (placed residency self).worker := by
  intro k e he
  rcases lookup_insert_eq_some.mp he with ⟨-, rfl⟩ | ⟨-, he⟩
  · exact le_rfl
  · exact (h residency.workerId k e (lookup_erase_eq_some.mp he).2).trans (Nat.le_succ _)

lemma aged_place (h : Aged self) (hrun : place codec order residency self = some (u, self')) : Aged self' := by
  obtain ⟨st, hst, hsettled⟩ := place_eq_some hrun
  have hworker := @enforceCapacity_preserves codec order residency.workerId (placed residency self) st
    (fun x => WorkerCache.Aged x.worker)
    (fun tier _ x key victim hx _ _ _ _ k e he => by
      rw [clock_turn]
      rcases eq_or_ne k key with rfl | hne
      · rw [lookup_turn_self, map_eq_some_iff] at he
        obtain ⟨nextTier, -, rfl⟩ := he
        exact le_rfl
      · rw [lookup_turn_ne hne] at he
        exact hx k e he)
    (aged_placed h) hst
  have hself' : (settled order residency.workerId st).2 = self' := congrArg Prod.snd hsettled
  intro w
  rw [← hself']
  rcases eq_or_ne w residency.workerId with rfl | hw
  · rw [cacheOf_settled]
    exact hworker
  · rw [cacheOf_settled_ne hw (workers_enforceCapacity hst).1]
    exact h w

structure Shrinks (worker worker' : WorkerCache) : Prop where
  total : ∀ weight, worker'.entries.total weight ≤ worker.entries.total weight
  aged : WorkerCache.Aged worker → WorkerCache.Aged worker'

lemma Shrinks.refl (worker : WorkerCache) : Shrinks worker worker := ⟨fun _ => le_rfl, id⟩

lemma Shrinks.trans {a b c : WorkerCache} (h : Shrinks a b) (h' : Shrinks b c) : Shrinks a c :=
  ⟨fun weight => (h'.total weight).trans (h.total weight), h'.aged ∘ h.aged⟩

lemma Shrinks.tierBytes {worker worker' : WorkerCache} (h : Shrinks worker worker') (tier : CacheTier) :
    tierBytes worker' tier ≤ tierBytes worker tier := by
  rw [tierBytes_eq_total, tierBytes_eq_total]
  exact h.total _

lemma shrinks_erase (worker : WorkerCache) (key : KvBlockKey) :
    Shrinks worker { worker with entries := worker.entries.erase key } := by
  refine ⟨fun weight => ?_, fun h k e he => ?_⟩
  · cases hold : worker.entries.lookup key with
    | none => rw [erase_of_notMem (lookup_eq_none.mp hold)]
    | some e =>
      have hsum := total_erase hold weight
      change AList.total weight (worker.entries.erase key) ≤ _
      omega
  · exact h k e (lookup_erase_eq_some.mp he).2

lemma shrinks_foldl_removeKey (keys : List KvBlockKey) (st : DataPlaneUpdate × WorkerCache × StoreDataPlane) :
    Shrinks st.2.1 (keys.foldl (removeKey codec workerId) st).2.1 := by
  induction keys generalizing st with
  | nil => exact .refl _
  | cons key keys ih =>
    refine Shrinks.trans ?_ (ih _)
    rw [removeKey]
    split
    · exact .refl _
    · exact shrinks_erase _ _

lemma shrinks_removeBlock {scope : IdentityScope} {blockHash : String}
    (h : self.removeBlock codec order scope workerId blockHash = (u, self')) (w : String) :
    Shrinks (self.cacheOf w) (self'.cacheOf w) := by
  rcases removeBlock_cases h with ⟨-, -, rfl⟩ | ⟨worker, worker', self₁, hworker, hst, rfl⟩
  · exact .refl _
  · have hworkers := (foldl_removeKey_frame _ hst).1
    have hshrinks := @shrinks_foldl_removeKey codec workerId (matchingKeys order scope blockHash worker) ({}, worker, self)
    rw [hst] at hshrinks
    rcases eq_or_ne w workerId with rfl | hw
    · simp only [cacheOf, lookup_insert, hworker, getD_some]
      exact hshrinks
    · simp only [cacheOf, hworkers, lookup_insert_ne hw]
      exact .refl _

lemma shrinks_clearWorker (h : self.clearWorker order workerId = (u, self')) (w : String) :
    Shrinks (self.cacheOf w) (self'.cacheOf w) := by
  rw [clearWorker] at h
  cases hworker : self.workers.lookup workerId with
  | none =>
    simp only [hworker] at h
    cases h
    exact .refl _
  | some worker =>
    simp only [hworker] at h
    cases h
    rcases eq_or_ne w workerId with rfl | hw
    · simp only [cacheOf, lookup_erase, getD_none]
      exact ⟨fun weight => Nat.zero_le _, fun _ _ _ h => by cases h⟩
    · simp only [cacheOf, lookup_erase_ne hw]
      exact .refl _

end caches

/-! ## Several calls and one update -/

/-- The addresses that a call is told to take away. -/
def Call.Drops : Call → String × KvBlockKey → Prop
  | .place _, _ => False
  | .removeBlock scope workerId blockHash, a => Hits scope workerId blockHash a
  | .clearWorker workerId, a => a.1 = workerId

instance (call : Call) (a : String × KvBlockKey) : Decidable (call.Drops a) :=
  match call with
  | .place _ => inferInstanceAs (Decidable False)
  | .removeBlock scope workerId blockHash => inferInstanceAs (Decidable (Hits scope workerId blockHash a))
  | .clearWorker workerId => inferInstanceAs (Decidable (a.1 = workerId))

def Call.isRemoval : Call → Bool
  | .place _ => false
  | .removeBlock _ _ _ | .clearWorker _ => true

structure Outcome (before : StoreDataPlane) (u : DataPlaneUpdate) (after : StoreDataPlane) : Prop where
  filed : Filed after
  aged : Aged after
  config : after.config = before.config
  records : after.records = patch u.deleted u.filed before.records

section together

variable {codec : Codec WalRecord} {order : HashOrder} {self self₁ self' : StoreDataPlane} {u v : DataPlaneUpdate}
  {call : Call} {residency : CacheResidency}

lemma Outcome.refl (hfiled : Filed self) (haged : Aged self) : Outcome self {} self :=
  ⟨hfiled, haged, rfl, patch_nil.symm⟩

lemma aged_run (h : Aged self) (hrun : call.run codec order self = some (u, self')) : Aged self' := by
  cases call with
  | place residency => exact aged_place h hrun
  | removeBlock scope workerId blockHash =>
    exact fun w => (shrinks_removeBlock (some_injective _ hrun) w).aged (h w)
  | clearWorker workerId => exact fun w => (shrinks_clearWorker (some_injective _ hrun) w).aged (h w)

lemma Outcome.run (h : Outcome self u self₁) (hrun : call.run codec order self₁ = some (v, self'))
    (hkept : ∀ a ∈ v.deleted, a ∈ u.filed.map Prod.fst → a ∈ v.filed.map Prod.fst) :
    Outcome self (u.append v) self' := by
  have hrecords := records_run h.filed hrun
  refine ⟨filed_of_patch h.filed hrecords, aged_run h.aged hrun, (config_run hrun).trans h.config, ?_⟩
  rw [hrecords, h.records, DataPlaneUpdate.deleted_append, DataPlaneUpdate.filed_append, patch_append hkept]

structure RemovalOutcome (calls : List Call) (before : StoreDataPlane) (u : DataPlaneUpdate)
    (after : StoreDataPlane) : Prop extends Outcome before u after where
  resident : u.resident = []
  dropped : ∀ a ∈ u.deleted, ∃ c ∈ calls, c.Drops a
  gone : ∀ a, after.records a = if ∃ c ∈ calls, c.Drops a then none else before.records a
  shrinks : ∀ w, Shrinks (before.cacheOf w) (after.cacheOf w)

lemma removalOutcome_nil (hfiled : Filed self) (haged : Aged self) : RemovalOutcome [] self {} self :=
  ⟨.refl hfiled haged, rfl, nofun, fun a => by simp, fun _ => .refl _⟩

lemma removal_run (hcall : call.isRemoval) (hself : Filed self) (hrun : call.run codec order self = some (u, self')) :
    (∀ a, self'.records a = if call.Drops a then none else self.records a) ∧
    (∀ a, a ∈ u.deleted ↔ call.Drops a ∧ self.records a ≠ none) ∧ u.resident = [] ∧
    ∀ w, Shrinks (self.cacheOf w) (self'.cacheOf w) := by
  cases call with
  | place residency => cases hcall
  | removeBlock scope workerId blockHash =>
    obtain ⟨hrecords, hdel, hres⟩ := records_removeBlock hself scope blockHash (some_injective _ hrun)
    exact ⟨hrecords, hdel, hres, shrinks_removeBlock (some_injective _ hrun)⟩
  | clearWorker workerId =>
    obtain ⟨hrecords, hdel, hres⟩ := records_clearWorker hself (some_injective _ hrun)
    exact ⟨hrecords, hdel, hres, shrinks_clearWorker (some_injective _ hrun)⟩

variable {calls : List (HashOrder × Call)} {us : List DataPlaneUpdate}

/-- **Removals in a row.** -/
lemma removals_runAll (hfiled : Filed self) (haged : Aged self) (hcalls : ∀ c ∈ calls, c.2.isRemoval)
    (hrun : runAll codec calls self = some (us, self')) :
    RemovalOutcome (calls.map Prod.snd) self (us.foldl DataPlaneUpdate.append {}) self' := by
  induction calls using List.reverseRecOn generalizing us self' with
  | nil =>
    cases hrun
    exact removalOutcome_nil hfiled haged
  | append_singleton calls c ih =>
    obtain ⟨us₁, self₁, u, h₁, hu, rfl⟩ := runAll_concat hrun
    have hout := ih (fun c hc => hcalls c (mem_append_left _ hc)) h₁
    obtain ⟨hrecords, hdel, hres, hshrinks⟩ := removal_run (hcalls c (by simp)) hout.filed hu
    have hnone : (us₁.foldl DataPlaneUpdate.append {}).filed = [] := by
      rw [DataPlaneUpdate.filed, hout.resident, map_nil]
    have hjoined := hout.toOutcome.run hu fun a _ ha => by
      rw [hnone] at ha
      cases ha
    rw [List.foldl_append, foldl_cons, foldl_nil]
    refine ⟨hjoined, ?_, fun a ha => ?_, fun a => ?_, fun w => (hout.shrinks w).trans (hshrinks w)⟩
    · simp [DataPlaneUpdate.append, hout.resident, hres]
    · rw [DataPlaneUpdate.deleted_append, mem_append] at ha
      rcases ha with ha | ha
      · obtain ⟨c', hc', hdrops⟩ := hout.dropped a ha
        exact ⟨c', by simp only [map_append, mem_append, hc', true_or], hdrops⟩
      · exact ⟨c.2, by simp, ((hdel a).mp ha).1⟩
    · rw [hrecords, hout.gone]
      by_cases hc : c.2.Drops a
      · have hex : ∃ c' ∈ (calls ++ [c]).map Prod.snd, c'.Drops a := ⟨c.2, by simp, hc⟩
        rw [if_pos hc, if_pos hex]
      · have hiff : (∃ c' ∈ (calls ++ [c]).map Prod.snd, c'.Drops a) ↔ ∃ c' ∈ calls.map Prod.snd, c'.Drops a := by
          simp only [map_append, map_cons, map_nil, mem_append, mem_singleton]
          constructor
          · rintro ⟨c', hc' | rfl, hdrops⟩
            · exact ⟨c', hc', hdrops⟩
            · exact absurd hdrops hc
          · rintro ⟨c', hc', hdrops⟩
            exact ⟨c', .inl hc', hdrops⟩
        rw [if_neg hc]
        simp only [hiff]

lemma RemovalOutcome.kept {calls : List Call} (h : RemovalOutcome calls self u self') {a : String × KvBlockKey}
    (ha : self'.records a ≠ none) : self.records a ≠ none ∧ ∀ c ∈ calls, ¬c.Drops a := by
  rw [h.gone] at ha
  split_ifs at ha with hex
  · exact absurd rfl ha
  · exact ⟨ha, fun c hc hdrops => hex ⟨c, hc, hdrops⟩⟩

structure PlacementOutcome (rs : List CacheResidency) (before : StoreDataPlane) (u : DataPlaneUpdate)
    (after : StoreDataPlane) : Prop extends Outcome before u after where
  reported : ∀ r ∈ rs, r.address ∈ u.filed.map Prod.fst ∨ r.address ∈ u.deleted
  known : ∀ a, a ∈ u.filed.map Prod.fst ∨ a ∈ u.deleted → a ∈ rs.map CacheResidency.address ∨ before.records a ≠ none

lemma placementOutcome_nil (hfiled : Filed self) (haged : Aged self) : PlacementOutcome [] self {} self :=
  ⟨.refl hfiled haged, nofun, by simp [DataPlaneUpdate.filed, DataPlaneUpdate.deleted]⟩

variable {rs : List CacheResidency}

lemma PlacementOutcome.known_of_records (h : PlacementOutcome rs self u self') {a : String × KvBlockKey}
    (ha : self'.records a ≠ none) : self.records a ≠ none ∨ a ∈ rs.map CacheResidency.address := by
  by_cases hfiled : a ∈ u.filed.map Prod.fst
  · exact (h.known a (.inl hfiled)).symm
  · rw [h.records] at ha
    by_cases hdel : a ∈ u.deleted
    · exact absurd (patch_of_deleted hfiled hdel) ha
    · rw [patch_of_untouched hfiled hdel] at ha
      exact .inl ha

lemma PlacementOutcome.place (h : PlacementOutcome rs self u self₁)
    (hrun : self₁.place codec order residency = some (v, self'))
    (hkept : ∀ a ∈ v.deleted, a ∈ u.filed.map Prod.fst → a ∈ v.filed.map Prod.fst) :
    PlacementOutcome (rs ++ [residency]) self (u.append v) self' := by
  have hcall : (Call.place residency).run codec order self₁ = some (v, self') := hrun
  have hjoined := h.toOutcome.run hcall hkept
  refine ⟨hjoined, fun r hr => ?_, fun a ha => ?_⟩
  · simp only [DataPlaneUpdate.deleted_append, DataPlaneUpdate.filed_append, map_append, mem_append]
    rcases mem_append.mp hr with hr | hr
    · exact (h.reported r hr).imp .inl .inl
    · cases mem_singleton.mp hr
      exact (reported_place h.filed hrun).imp .inr .inr
  · simp only [DataPlaneUpdate.deleted_append, DataPlaneUpdate.filed_append, map_append, mem_append] at ha ⊢
    have hold : a ∈ u.filed.map Prod.fst ∨ a ∈ u.deleted → (a ∈ rs.map CacheResidency.address ∨
        a ∈ [residency].map CacheResidency.address) ∨ self.records a ≠ none := fun ha =>
      (h.known a ha).imp .inl id
    by_cases hu : a ∈ u.filed.map Prod.fst ∨ a ∈ u.deleted
    · exact hold hu
    · rw [not_or] at hu
      have hv : a ∈ v.filed.map Prod.fst ∨ a ∈ v.deleted :=
        ha.imp (fun h => h.resolve_left hu.1) fun h => h.resolve_left hu.2
      rcases mem_of_reported h.filed hrun hv with rfl | hrecord
      · exact .inl (.inr (by simp))
      · rw [h.records, patch_of_untouched hu.1 hu.2] at hrecord
        exact .inr hrecord

structure RoomyOutcome (workerId : String) (since room : ℕ) (rs : List CacheResidency) (before : StoreDataPlane)
    (u : DataPlaneUpdate) (after : StoreDataPlane) : Prop extends PlacementOutcome rs before u after where
  clock : since ≤ (after.cacheOf workerId).clock
  burden : (after.cacheOf workerId).entries.total (burden since) ≤ room
  kept : ∀ a ∈ u.filed.map Prod.fst, a.1 = workerId ∧
    ∃ e, (after.cacheOf workerId).entries.lookup a.2 = some e ∧ since < e.lastAccess
  present : ∀ r ∈ rs, ∃ e, (after.cacheOf workerId).entries.lookup r.key = some e ∧ since < e.lastAccess

lemma RoomyOutcome.place {since room : ℕ} (h : RoomyOutcome residency.workerId since room rs self u self₁)
    (hroom : room + residency.bytes ≤ capacity self.config .localSsd)
    (hrun : self₁.place codec order residency = some (v, self')) :
    RoomyOutcome residency.workerId since (room + residency.bytes) (rs ++ [residency]) self (u.append v) self' := by
  obtain ⟨st, hst, hsettled⟩ := place_eq_some hrun
  have htracked := (tracked_placed h.filed residency).enforceCapacity hst
  have hplaced : Unhurried since (room + residency.bytes)
      (fun k => ((residency.workerId, k) ∈ u.filed.map Prod.fst ∨ ∃ r ∈ rs, r.key = k) ∨ k = residency.key)
      (placed residency self₁) := by
    refine unhurried_placed h.clock (Nat.add_le_add_right h.burden _) (h.config ▸ hroom) ?_
    rintro k (hk | ⟨r, hr, rfl⟩)
    · exact (h.kept _ hk).2
    · exact h.present r hr
  have hunhurried := hplaced.enforceCapacity hst
  have hv : (settled order residency.workerId st).1 = v := congrArg Prod.fst hsettled
  have hcache : self'.cacheOf residency.workerId = st.worker := by
    have hself' : (settled order residency.workerId st).2 = self' := congrArg Prod.snd hsettled
    rw [← hself', cacheOf_settled]
  have hkept : ∀ a ∈ u.filed.map Prod.fst, a.1 = residency.workerId ∧
      ∃ e, st.worker.entries.lookup a.2 = some e ∧ since < e.lastAccess := by
    rintro ⟨w, k⟩ ha
    obtain ⟨rfl, -⟩ := h.kept _ ha
    exact ⟨rfl, hunhurried.kept k (.inl (.inl ha))⟩
  have hjoined := h.toPlacementOutcome.place hrun fun a hdel ha => by
    -- what is deleted is not there any more, and what was filed is
    rw [← hv] at hdel
    obtain ⟨r, hr, rfl⟩ := List.mem_map.mp hdel
    obtain ⟨-, -, hnone⟩ := htracked.removed r hr
    obtain ⟨-, e, he, -⟩ := hkept _ ha
    cases hnone.symm.trans he
  refine ⟨hjoined, hcache ▸ hunhurried.clock.le, hcache ▸ hunhurried.burden, fun a ha => ?_, fun r hr => ?_⟩
  · rw [hcache]
    rw [DataPlaneUpdate.filed_append, map_append, mem_append] at ha
    rcases ha with ha | ha
    · exact hkept a ha
    · obtain ⟨⟨⟨w, k⟩, r⟩, hr, rfl⟩ := List.mem_map.mp ha
      rw [← hv, htracked.mem_filed_settled] at hr
      obtain ⟨rfl, hk, hr⟩ := hr
      obtain ⟨e, he, -⟩ := map_eq_some_iff.mp hr
      exact ⟨rfl, e, he, hunhurried.affected k hk e he⟩
  · rw [hcache]
    refine hunhurried.kept r.key ?_
    rcases mem_append.mp hr with hr | hr
    · exact .inl (.inr ⟨r, hr, rfl⟩)
    · exact .inr (by rw [mem_singleton.mp hr])

/-- **Placements in a row**, on a worker whose SSD has room for everything above it and the new blocks. -/
lemma roomy_runAll (hfiled : Filed self) (haged : Aged self) {workerId : String}
    (hcalls : calls.map Prod.snd = rs.map .place) (hworker : ∀ r ∈ rs, r.workerId = workerId)
    (hroom : tierBytes (self.cacheOf workerId) .hbm + tierBytes (self.cacheOf workerId) .cpuDram +
      (rs.map CacheResidency.bytes).sum ≤ capacity self.config .localSsd)
    (hrun : runAll codec calls self = some (us, self')) :
    RoomyOutcome workerId (self.cacheOf workerId).clock
      (tierBytes (self.cacheOf workerId) .hbm + tierBytes (self.cacheOf workerId) .cpuDram +
        (rs.map CacheResidency.bytes).sum) rs self (us.foldl DataPlaneUpdate.append {}) self' := by
  induction rs using List.reverseRecOn generalizing calls us self' with
  | nil =>
    cases map_eq_nil_iff.mp hcalls
    cases hrun
    exact ⟨placementOutcome_nil hfiled haged, le_rfl, (total_burden_of_aged (haged workerId)).le, nofun, nofun⟩
  | append_singleton rs r ih =>
    rw [map_append] at hcalls
    obtain ⟨calls₁, calls₂, rfl, hcalls₁, hcalls₂⟩ := map_eq_append_iff.mp hcalls
    obtain ⟨⟨order, c⟩, rfl, rfl⟩ := map_eq_singleton_iff.mp hcalls₂
    obtain ⟨us₁, self₁, u, h₁, hu, rfl⟩ := runAll_concat hrun
    rw [map_append, sum_append, map_singleton, sum_singleton, ← Nat.add_assoc] at hroom ⊢
    have hout := ih hcalls₁ (fun r hr => hworker r (mem_append_left _ hr))
      ((Nat.le_add_right _ _).trans hroom) h₁
    obtain rfl := hworker r (by simp)
    rw [List.foldl_append, foldl_cons, foldl_nil]
    exact hout.place hroom hu

/-- **A batch of placements**: at most one, or several that there is room for. -/
lemma placements_runAll (hfiled : Filed self) (haged : Aged self) {workerId : String}
    (hcalls : calls.map Prod.snd = rs.map .place) (hworker : ∀ r ∈ rs, r.workerId = workerId)
    (hroom : rs.length ≤ 1 ∨ tierBytes (self.cacheOf workerId) .hbm + tierBytes (self.cacheOf workerId) .cpuDram +
      (rs.map CacheResidency.bytes).sum ≤ capacity self.config .localSsd)
    (hrun : runAll codec calls self = some (us, self')) :
    PlacementOutcome rs self (us.foldl DataPlaneUpdate.append {}) self' := by
  have hnone := placementOutcome_nil hfiled haged
  rcases hroom with hlen | hroom
  · match rs with
    | [] =>
      cases map_eq_nil_iff.mp hcalls
      cases hrun
      exact hnone
    | [r] =>
      obtain ⟨⟨order, c⟩, rfl, rfl⟩ := map_eq_singleton_iff.mp hcalls
      obtain ⟨u, hu, rfl⟩ := runAll_singleton hrun
      exact hnone.place hu nofun
    | _ :: _ :: _ =>
      simp only [length_cons] at hlen
      omega
  · exact (roomy_runAll hfiled haged hcalls hworker hroom hrun).toPlacementOutcome

end together

end QuillCache.Store.StoreDataPlane
