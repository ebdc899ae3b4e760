import QuillCache.Store.DataPlane

/-!
# What a data plane reports

A call of the data plane returns the records of the blocks that are resident now and of those that are gone.
Applied one after another to an empty map, the updates give the blocks that the data plane holds, whatever
cascades of demotions and evictions the calls have caused, and a placement leaves the tiers of its worker
within their capacities (`updates_give_snapshot`).
-/

namespace QuillCache.Store.StoreDataPlane

open Lib QuillCache.Core List Option
open AList hiding keys

/-! ## What an operation does to the records -/

def records (self : StoreDataPlane) (a : String × KvBlockKey) : Option CacheResidency :=
  (self.workers.lookup a.1).bind fun worker => (worker.entries.lookup a.2).map TierEntry.residency

def Filed (self : StoreDataPlane) : Prop := ∀ a r, self.records a = some r → r.address = a

lemma filed_new (config : StoreTierConfig) (disks : String → Disk) : Filed (new config disks) := by
  rintro a r ⟨⟩

/-- An enforcement so far, on a worker that held the blocks `before`. -/
structure Tracked (workerId : String) (before : KvBlockKey → Option TierEntry) (st : Enforcement) : Prop where
  filed : ∀ k e, st.worker.entries.lookup k = some e → e.residency.address = (workerId, k)
  same : ∀ k ∉ st.affected, st.worker.entries.lookup k = before k
  removed : ∀ r ∈ st.update.removed,
    r.workerId = workerId ∧ r.key ∈ st.affected ∧ st.worker.entries.lookup r.key = none
  gone : ∀ k ∈ st.affected, st.worker.entries.lookup k = none → (workerId, k) ∈ st.update.deleted

section tracked

variable {codec : Codec WalRecord} {order : HashOrder} {workerId : String} {tier : CacheTier}
  {key : KvBlockKey} {victim : TierEntry} {st st' : Enforcement} {before : KvBlockKey → Option TierEntry}

lemma Tracked.turn (h : Tracked workerId before st) (hvictim : st.worker.entries.lookup key = some victim) :
    Tracked workerId before (turn codec workerId tier key victim st) := by
  have haddr := h.filed key victim hvictim
  have hkey : victim.residency.key = key := congrArg Prod.snd haddr
  refine ⟨fun k e he => ?_, fun k hk => ?_, fun r hr => ?_, fun k hk hnone => ?_⟩
  · rcases eq_or_ne k key with rfl | hne
    · rw [lookup_turn_self, map_eq_some_iff] at he
      obtain ⟨nextTier, -, rfl⟩ := he
      exact Prod.ext rfl hkey
    · rw [lookup_turn_ne hne] at he
      exact h.filed k e he
  · rw [affected_turn, mem_insert_iff, not_or] at hk
    rw [lookup_turn_ne hk.1]
    exact h.same k hk.2
  · rw [affected_turn, mem_insert_iff]
    have hold : r ∈ st.update.removed → r.workerId = workerId ∧ (r.key = key ∨ r.key ∈ st.affected) ∧
        (StoreDataPlane.turn codec workerId tier key victim st).worker.entries.lookup r.key = none := by
      intro hr
      obtain ⟨hw, hmem, hnone⟩ := h.removed r hr
      have hne : r.key ≠ key := fun heq => by
        rw [heq, hvictim] at hnone
        cases hnone
      exact ⟨hw, .inr hmem, (lookup_turn_ne hne).trans hnone⟩
    rw [removed_turn] at hr
    cases hlower : lowerTier tier with
    | some nextTier =>
      rw [hlower] at hr
      exact hold hr
    | none =>
      rw [hlower, elim_none, mem_append, mem_singleton] at hr
      rcases hr with hr | rfl
      · exact hold hr
      · refine ⟨congrArg Prod.fst haddr, .inl hkey, ?_⟩
        rw [hkey, lookup_turn_self, hlower, map_none]
  · rw [DataPlaneUpdate.deleted, removed_turn]
    rcases eq_or_ne k key with rfl | hne
    · rw [lookup_turn_self, map_eq_none_iff] at hnone
      rw [hnone, elim_none, map_append, mem_append]
      exact .inr (by simp [haddr])
    · rw [affected_turn, mem_insert_iff, or_iff_right hne] at hk
      rw [lookup_turn_ne hne] at hnone
      have hmem := h.gone k hk hnone
      cases lowerTier tier with
      | some nextTier => exact hmem
      | none => exact map_append ▸ mem_append_left _ hmem

variable {self self' : StoreDataPlane} {residency : CacheResidency} {u : DataPlaneUpdate}

def blocks (self : StoreDataPlane) (workerId : String) : KvBlockKey → Option TierEntry :=
  ((self.workers.lookup workerId).getD {}).entries.lookup

lemma records_eq (self : StoreDataPlane) (a : String × KvBlockKey) :
    self.records a = (self.blocks a.1 a.2).map TierEntry.residency := by
  rw [records, blocks]
  cases self.workers.lookup a.1 <;> rfl

lemma tracked_placed (hself : Filed self) (residency : CacheResidency) :
    Tracked residency.workerId (self.blocks residency.workerId) (placed residency self) := by
  refine ⟨fun k e he => ?_, fun k hk => ?_, ?_, fun k hk hnone => ?_⟩
  · rcases lookup_insert_eq_some.mp he with ⟨rfl, rfl⟩ | ⟨-, he⟩
    · rfl
    · refine hself (residency.workerId, k) e.residency ?_
      rw [records_eq]
      exact congrArg (Option.map TierEntry.residency) (lookup_erase_eq_some.mp he).2
  · have hne : k ≠ residency.key := fun h => hk (mem_singleton.mpr h)
    rw [placed, lookup_insert_ne hne, lookup_erase_ne hne]
    rfl
  · rintro r ⟨⟩
  · cases mem_singleton.mp hk
    rw [placed, lookup_insert] at hnone
    cases hnone

lemma workers_enforceCapacity (h : enforceCapacity codec order workerId st = some st') :
    st'.plane.workers = st.plane.workers ∧ st'.plane.config = st.plane.config ∧
      st'.update.resident = st.update.resident ∧ st'.worker.clock = st.worker.clock := by
  have hpres := @enforceCapacity_preserves codec order workerId st st'
    (fun x => x.plane.workers = st.plane.workers ∧ x.plane.config = st.plane.config ∧
      x.update.resident = st.update.resident ∧ x.worker.clock = st.worker.clock)
    (fun tier _ x key victim hx _ _ _ _ => by simpa using hx) ⟨rfl, rfl, rfl, rfl⟩ h
  exact hpres

lemma place_eq_some (h : place codec order residency self = some (u, self')) :
    ∃ st, enforceCapacity codec order residency.workerId (placed residency self) = some st ∧
      settled order residency.workerId st = (u, self') := map_eq_some_iff.mp h

lemma Tracked.mem_filed_settled (h : Tracked workerId before st) {k : KvBlockKey} {w : String}
    {r : CacheResidency} : ((w, k), r) ∈ (settled order workerId st).1.filed ↔
      w = workerId ∧ k ∈ st.affected ∧ (st.worker.entries.lookup k).map TierEntry.residency = some r := by
  have hkeys : ∀ k, k ∈ order.keys st.affected ↔ k ∈ st.affected := fun k => (order.keys_perm _).mem_iff
  simp only [settled, DataPlaneUpdate.filed, List.mem_map, mem_filterMap, hkeys]
  constructor
  · rintro ⟨r', ⟨k', hk, hr'⟩, heq⟩
    obtain ⟨e, he, rfl⟩ := map_eq_some_iff.mp hr'
    rw [h.filed k' e he] at heq
    cases heq
    exact ⟨rfl, hk, hr'⟩
  · rintro ⟨rfl, hk, hr⟩
    obtain ⟨e, he, rfl⟩ := map_eq_some_iff.mp hr
    exact ⟨e.residency, ⟨k, hk, hr⟩, by rw [h.filed k e he]⟩

lemma Tracked.mem_deleted_settled (h : Tracked workerId before st) {k : KvBlockKey} {w : String}
    (hmem : (w, k) ∈ (settled order workerId st).1.deleted) : w = workerId ∧ k ∈ st.affected := by
  obtain ⟨r, hr, heq⟩ := List.mem_map.mp hmem
  cases heq
  obtain ⟨hw, hk, -⟩ := h.removed r hr
  exact ⟨hw, hk⟩

lemma Tracked.not_mem_filed_settled (h : Tracked workerId before st) {k : KvBlockKey} {w : String}
    (hk : w ≠ workerId ∨ k ∉ st.affected ∨ st.worker.entries.lookup k = none) :
    (w, k) ∉ (settled order workerId st).1.filed.map Prod.fst := by
  intro hmem
  obtain ⟨⟨a, r⟩, hr, heq⟩ := List.mem_map.mp hmem
  cases heq
  obtain ⟨hw, hmem, hr⟩ := h.mem_filed_settled.mp hr
  rcases hk with hk | hk | hk
  · exact hk hw
  · exact hk hmem
  · rw [hk] at hr
    cases hr

lemma Tracked.records_settled (h : Tracked workerId (self.blocks workerId) st)
    (hworkers : st.plane.workers = self.workers.erase workerId) :
    (settled order workerId st).2.records =
      patch (settled order workerId st).1.deleted (settled order workerId st).1.filed self.records := by
  funext ⟨w, k⟩
  rcases eq_or_ne w workerId with rfl | hw
  · have hnew : (settled order w st).2.records (w, k) =
        (st.worker.entries.lookup k).map TierEntry.residency := by
      simp only [settled, records, lookup_insert, bind_some]
    rw [hnew]
    by_cases hk : k ∈ st.affected
    · cases he : st.worker.entries.lookup k with
      | none =>
        have hdel : (w, k) ∈ (settled order w st).1.deleted := h.gone k hk he
        rw [map_none, patch_of_deleted (h.not_mem_filed_settled (.inr (.inr he))) hdel]
      | some e =>
        have hmem : ((w, k), e.residency) ∈ (settled order w st).1.filed :=
          h.mem_filed_settled.mpr ⟨rfl, hk, by rw [he, map_some]⟩
        refine (patch_of_filed (lastFiled_of_mem hmem fun r hr => ?_)).symm
        obtain ⟨-, -, hr⟩ := h.mem_filed_settled.mp hr
        rw [he] at hr
        exact (some_injective _ hr).symm
    · rw [patch_of_untouched (h.not_mem_filed_settled (.inr (.inl hk))) fun hmem =>
        hk (h.mem_deleted_settled hmem).2, h.same k hk, records_eq]
  · rw [patch_of_untouched (h.not_mem_filed_settled (.inl hw)) fun hmem => hw (h.mem_deleted_settled hmem).1]
    simp only [settled, records, hworkers, lookup_insert_ne hw, lookup_erase_ne hw]

lemma Tracked.enforceCapacity (hst : Tracked workerId before st)
    (h : enforceCapacity codec order workerId st = some st') : Tracked workerId before st' :=
  enforceCapacity_preserves (fun _ _ _ _ _ hst _ hvictim _ _ => hst.turn hvictim) hst h

lemma filed_of_patch (hself : Filed self) (h : self'.records = patch u.deleted u.filed self.records) :
    Filed self' := by
  intro a r hr
  rw [h, patch, or_eq_some_iff] at hr
  rcases hr with hr | ⟨-, hr⟩
  · obtain ⟨r', -, heq⟩ := List.mem_map.mp (mem_of_lastFiled hr)
    cases heq
    rfl
  · split_ifs at hr
    exact hself a r hr

lemma records_place (hself : Filed self) (h : place codec order residency self = some (u, self')) :
    self'.records = patch u.deleted u.filed self.records := by
  obtain ⟨st, hst, hsettled⟩ := place_eq_some h
  have htracked := (tracked_placed hself residency).enforceCapacity hst
  have hrecords := @Tracked.records_settled order _ _ _ htracked (workers_enforceCapacity hst).1
  rw [hsettled] at hrecords
  exact hrecords

lemma mem_of_reported (hself : Filed self) (h : place codec order residency self = some (u, self'))
    {a : String × KvBlockKey} (ha : a ∈ u.filed.map Prod.fst ∨ a ∈ u.deleted) :
    a = residency.address ∨ self.records a ≠ none := by
  obtain ⟨st, hst, hsettled⟩ := place_eq_some h
  obtain ⟨htracked, haffected⟩ := @enforceCapacity_preserves codec order residency.workerId (placed residency self) st
    (fun x => Tracked residency.workerId (self.blocks residency.workerId) x ∧
      ∀ k ∈ x.affected, k = residency.key ∨ self.blocks residency.workerId k ≠ none)
    (fun _ _ x key victim hx _ hvictim _ _ => by
      refine ⟨hx.1.turn hvictim, fun k hk => ?_⟩
      rw [affected_turn, mem_insert_iff] at hk
      by_cases hold : k ∈ x.affected
      · exact hx.2 k hold
      · have hkey := hk.resolve_right hold
        rw [← hx.1.same k hold, hkey, hvictim]
        exact .inr nofun)
    ⟨tracked_placed hself residency, fun k hk => .inl (mem_singleton.mp hk)⟩ hst
  obtain ⟨w, k⟩ := a
  have hu : (settled order residency.workerId st).1 = u := congrArg Prod.fst hsettled
  have hk : w = residency.workerId ∧ k ∈ st.affected := by
    rcases ha with ha | ha
    · obtain ⟨⟨a, r⟩, hr, heq⟩ := List.mem_map.mp ha
      cases heq
      rw [← hu] at hr
      have hmem := htracked.mem_filed_settled.mp hr
      exact ⟨hmem.1, hmem.2.1⟩
    · rw [← hu] at ha
      exact htracked.mem_deleted_settled ha
  obtain ⟨rfl, hk⟩ := hk
  rcases haffected k hk with rfl | hblock
  · exact .inl rfl
  · rw [records_eq]
    exact .inr (mt map_eq_none_iff.mp hblock)

lemma reported_place (hself : Filed self) (h : place codec order residency self = some (u, self')) :
    residency.address ∈ u.filed.map Prod.fst ∨ residency.address ∈ u.deleted := by
  obtain ⟨st, hst, hsettled⟩ := place_eq_some h
  have htracked := (tracked_placed hself residency).enforceCapacity hst
  have haffected := @enforceCapacity_preserves codec order residency.workerId (placed residency self) st
    (fun x => residency.key ∈ x.affected)
    (fun _ _ _ _ _ hx _ _ _ _ => by
      rw [affected_turn]
      exact mem_insert_of_mem hx) (mem_singleton.mpr rfl) hst
  cases he : st.worker.entries.lookup residency.key with
  | none =>
    have hgone := htracked.gone _ haffected he
    cases hsettled
    exact .inr hgone
  | some e =>
    have hmem := (@Tracked.mem_filed_settled order _ _ _ htracked residency.key residency.workerId _).mpr
      ⟨rfl, haffected, by rw [he, map_some]⟩
    rw [hsettled] at hmem
    exact .inl (List.mem_map_of_mem hmem)

end tracked

section removal

variable {codec : Codec WalRecord} {order : HashOrder} {workerId : String} {self : StoreDataPlane}

variable {self' : StoreDataPlane} {u : DataPlaneUpdate}

lemma foldl_removeKey_frame {worker worker' : WorkerCache} (keys : List KvBlockKey)
    (h : keys.foldl (removeKey codec workerId) ({}, worker, self) = (u, worker', self')) :
    self'.workers = self.workers ∧ self'.config = self.config ∧ worker'.clock = worker.clock := by
  induction keys using List.reverseRecOn generalizing u worker' self' with
  | nil =>
    cases h
    exact ⟨rfl, rfl, rfl⟩
  | append_singleton keys key ih =>
    rw [List.foldl_append, foldl_cons, foldl_nil] at h
    rcases hst : keys.foldl (removeKey codec workerId) ({}, worker, self) with ⟨u₁, worker₁, self₁⟩
    rw [hst, removeKey] at h
    split at h <;> cases h <;> simpa using ih hst

variable {worker : WorkerCache}

lemma foldl_removeKey (hfiled : ∀ k e, worker.entries.lookup k = some e → e.residency.address = (workerId, k))
    (keys : List KvBlockKey) {worker' : WorkerCache}
    (h : keys.foldl (removeKey codec workerId) ({}, worker, self) = (u, worker', self')) :
    (∀ k, worker'.entries.lookup k = if k ∈ keys then none else worker.entries.lookup k) ∧
    (∀ w k, (w, k) ∈ u.deleted ↔ w = workerId ∧ k ∈ keys ∧ worker.entries.lookup k ≠ none) ∧
    u.resident = [] := by
  induction keys using List.reverseRecOn generalizing u worker' self' with
  | nil =>
    cases h
    simp [DataPlaneUpdate.deleted]
  | append_singleton keys key ih =>
    rw [List.foldl_append, foldl_cons, foldl_nil] at h
    rcases hst : keys.foldl (removeKey codec workerId) ({}, worker, self) with ⟨u₁, worker₁, self₁⟩
    obtain ⟨hlookup, hdel, hres⟩ := ih hst
    rw [hst, removeKey] at h
    have hkey := hlookup key
    cases hentry : worker₁.entries.lookup key with
    | none =>
      -- a key that is listed twice, or not there
      simp only [hentry] at h
      cases h
      rw [hentry] at hkey
      refine ⟨fun k => ?_, fun w k => ?_, hres⟩
      · rw [hlookup]
        rcases eq_or_ne k key with rfl | hne
        · simp [← hkey]
        · simp [hne]
      · rw [hdel, mem_append, mem_singleton]
        rcases eq_or_ne k key with rfl | hne
        · by_cases hk : k ∈ keys
          · simp [hk]
          · rw [if_neg hk] at hkey
            simp [← hkey]
        · simp [hne]
    | some entry =>
      simp only [hentry] at h
      cases h
      have hold : key ∉ keys ∧ worker.entries.lookup key = some entry := by
        rw [hentry] at hkey
        split_ifs at hkey with hk
        exact ⟨hk, hkey.symm⟩
      refine ⟨fun k => ?_, fun w k => ?_, hres⟩
      · rcases eq_or_ne k key with rfl | hne
        · simp
        · simp [hne, lookup_erase_ne hne, hlookup]
      · rw [DataPlaneUpdate.deleted, map_append, mem_append, mem_append, map_singleton,
          mem_singleton, mem_singleton, hfiled key entry hold.2, Prod.mk.injEq]
        have hdel' := hdel w k
        rw [DataPlaneUpdate.deleted] at hdel'
        rw [hdel']
        rcases eq_or_ne k key with rfl | hne
        · simp [hold.1, hold.2]
        · simp [hne]

lemma blocks_of_lookup (h : self.workers.lookup workerId = some worker) (k : KvBlockKey) :
    self.blocks workerId k = worker.entries.lookup k := by
  rw [StoreDataPlane.blocks, h, getD_some]

lemma Filed.blocks (hself : Filed self) {k : KvBlockKey} {e : TierEntry} (he : self.blocks workerId k = some e) :
    e.residency.address = (workerId, k) := by
  refine hself (workerId, k) e.residency ?_
  rw [records_eq, he, map_some]

def Hits (scope : IdentityScope) (workerId blockHash : String) (a : String × KvBlockKey) : Prop :=
  a.1 = workerId ∧ a.2.blockHash = blockHash ∧ scope.matches a.2

instance (scope : IdentityScope) (workerId blockHash : String) (a : String × KvBlockKey) :
    Decidable (Hits scope workerId blockHash a) := inferInstanceAs (Decidable (_ ∧ _))

lemma records_of_no_worker (h : self.workers.lookup workerId = none) {a : String × KvBlockKey}
    (ha : a.1 = workerId) : self.records a = none := by
  rw [records, ha, h, bind_none]

lemma mem_matchingKeys {scope : IdentityScope} {blockHash : String} {k : KvBlockKey}
    (hk : worker.entries.lookup k ≠ none) :
    k ∈ matchingKeys order scope blockHash worker ↔ k.blockHash = blockHash ∧ scope.matches k := by
  obtain ⟨e, he⟩ := ne_none_iff_exists'.mp hk
  rw [matchingKeys, mem_filter, decide_eq_true_iff]
  exact and_iff_right (List.mem_map.mpr ⟨⟨k, e⟩, mem_order.mpr he, rfl⟩)

lemma lookup_of_mem_matchingKeys {scope : IdentityScope} {blockHash : String} {k : KvBlockKey}
    (hk : k ∈ matchingKeys order scope blockHash worker) : worker.entries.lookup k ≠ none := by
  obtain ⟨e, he, rfl⟩ := List.mem_map.mp (mem_of_mem_filter hk)
  rw [mem_order.mp he]
  nofun

lemma removeBlock_cases {scope : IdentityScope} {blockHash : String}
    (h : self.removeBlock codec order scope workerId blockHash = (u, self')) :
    self.workers.lookup workerId = none ∧ u = {} ∧ self' = self ∨
      ∃ worker worker' self₁, self.workers.lookup workerId = some worker ∧
        (matchingKeys order scope blockHash worker).foldl (removeKey codec workerId) ({}, worker, self) =
          (u, worker', self₁) ∧ self' = { self₁ with workers := self₁.workers.insert workerId worker' } := by
  rw [removeBlock] at h
  split at h
  · next hworker =>
    cases h
    exact .inl ⟨hworker, rfl, rfl⟩
  · next worker hworker =>
    cases h
    exact .inr ⟨worker, _, _, hworker, rfl, rfl⟩

lemma records_removeBlock (hself : Filed self) (scope : IdentityScope) (blockHash : String)
    (h : self.removeBlock codec order scope workerId blockHash = (u, self')) :
    (∀ a, self'.records a = if Hits scope workerId blockHash a then none else self.records a) ∧
    (∀ a, a ∈ u.deleted ↔ Hits scope workerId blockHash a ∧ self.records a ≠ none) ∧ u.resident = [] := by
  rcases removeBlock_cases h with ⟨hworker, rfl, rfl⟩ | ⟨worker, worker', self₁, hworker, hst, rfl⟩
  · refine ⟨fun a => ?_, fun a => ?_, rfl⟩
    · split_ifs with ha
      · exact records_of_no_worker hworker ha.1
      · rfl
    · simp only [DataPlaneUpdate.deleted, map_nil, not_mem_nil, false_iff, not_and, not_not]
      exact fun ha => records_of_no_worker hworker ha.1
  · have hblocks := blocks_of_lookup hworker
    obtain ⟨hlookup, hdel, hres⟩ :=
      foldl_removeKey (fun k e he => hself.blocks ((hblocks k).trans he)) _ hst
    have hworkers := (foldl_removeKey_frame _ hst).1
    refine ⟨fun ⟨w, k⟩ => ?_, fun ⟨w, k⟩ => ?_, hres⟩
    · rcases eq_or_ne w workerId with rfl | hw
      · simp only [records, lookup_insert, hworker, bind_some, hlookup]
        cases hk : worker.entries.lookup k with
        | none => simp
        | some e =>
          have hiff := @mem_matchingKeys order worker scope blockHash k (by rw [hk]; nofun)
          by_cases hin : k ∈ matchingKeys order scope blockHash worker
          · simp [hin, Hits, hiff.mp hin]
          · have hnot : ¬Hits scope w blockHash (w, k) := fun h => hin (hiff.mpr h.2)
            simp [hin, hnot]
      · have hnot : ¬Hits scope workerId blockHash (w, k) := fun h => hw h.1
        simp only [records, hworkers, lookup_insert_ne hw, if_neg hnot]
    · rw [hdel, Hits]
      rcases eq_or_ne w workerId with rfl | hw
      · rw [records_eq, hblocks]
        cases hk : worker.entries.lookup k with
        | none => simp
        | some e => simp [mem_matchingKeys (k := k) (by rw [hk]; nofun)]
      · simp [hw]

lemma records_clearWorker (hself : Filed self) (h : self.clearWorker order workerId = (u, self')) :
    (∀ a, self'.records a = if a.1 = workerId then none else self.records a) ∧
    (∀ a, a ∈ u.deleted ↔ a.1 = workerId ∧ self.records a ≠ none) ∧ u.resident = [] := by
  rw [clearWorker] at h
  cases hworker : self.workers.lookup workerId with
  | none =>
    simp only [hworker] at h
    cases h
    refine ⟨fun a => ?_, fun a => ?_, rfl⟩
    · split_ifs with ha
      · exact records_of_no_worker hworker ha
      · rfl
    · simp only [DataPlaneUpdate.deleted, map_nil, not_mem_nil, false_iff, not_and, not_not]
      exact fun ha => records_of_no_worker hworker ha
  | some worker =>
    simp only [hworker] at h
    cases h
    have hblocks := blocks_of_lookup hworker
    refine ⟨fun ⟨w, k⟩ => ?_, fun ⟨w, k⟩ => ?_, rfl⟩
    · rcases eq_or_ne w workerId with rfl | hw
      · simp [records]
      · simp [records, hw, lookup_erase_ne hw]
    · simp only [DataPlaneUpdate.deleted, List.mem_map, exists_exists_and_eq_and]
      constructor
      · rintro ⟨e, he, heq⟩
        have hlookup := mem_order.mp he
        rw [hself.blocks ((hblocks _).trans hlookup)] at heq
        cases heq
        rw [records_eq, hblocks, hlookup]
        exact ⟨rfl, nofun⟩
      · rintro ⟨rfl, hk⟩
        rw [records_eq, hblocks] at hk
        obtain ⟨r, hr⟩ := ne_none_iff_exists'.mp hk
        obtain ⟨e, he, rfl⟩ := map_eq_some_iff.mp hr
        exact ⟨⟨k, e⟩, mem_order.mpr he, hself.blocks ((hblocks k).trans he)⟩

lemma patch_of_removal {gone : String × KvBlockKey → Prop} [DecidablePred gone]
    (hrecords : ∀ a, self'.records a = if gone a then none else self.records a)
    (hdel : ∀ a, a ∈ u.deleted ↔ gone a ∧ self.records a ≠ none) (hres : u.resident = []) :
    self'.records = patch u.deleted u.filed self.records := by
  funext a
  rw [hrecords, DataPlaneUpdate.filed, hres, patch, map_nil, lastFiled_nil, none_or]
  by_cases hgone : gone a
  · rw [if_pos hgone]
    split_ifs with ha
    · rfl
    · by_contra hne
      exact ha ((hdel a).mpr ⟨hgone, Ne.symm hne⟩)
  · rw [if_neg hgone, if_neg fun ha => hgone ((hdel a).mp ha).1]

end removal

/-! ## Runs -/

inductive Call where
  | place (residency : CacheResidency)
  | removeBlock (scope : IdentityScope) (workerId blockHash : String)
  | clearWorker (workerId : String)

def Call.run (codec : Codec WalRecord) (order : HashOrder) :
    Call → StoreDataPlane → Option (DataPlaneUpdate × StoreDataPlane)
  | place residency, self => self.place codec order residency
  | removeBlock scope workerId blockHash, self => some (self.removeBlock codec order scope workerId blockHash)
  | clearWorker workerId, self => some (self.clearWorker order workerId)

/-- A sequence of calls, each with its own iteration orders, and the updates they return. -/
def runAll (codec : Codec WalRecord) :
    List (HashOrder × Call) → StoreDataPlane → Option (List DataPlaneUpdate × StoreDataPlane)
  | [], self => some ([], self)
  | (order, call) :: calls, self => do
    let (update, self) ← call.run codec order self
    let (updates, self) ← runAll codec calls self
    return (update :: updates, self)

/-- Apply an update to a map of the records: first delete, then insert. -/
def mirrored (t : Table (String × KvBlockKey) CacheResidency) (u : DataPlaneUpdate) :
    Table (String × KvBlockKey) CacheResidency := t.patched u.deleted u.filed

section runs

variable {codec : Codec WalRecord} {order : HashOrder} {call : Call} {self self' : StoreDataPlane}
  {u : DataPlaneUpdate}

/-- **What a call reports is what it does.** -/
theorem records_run (hself : Filed self) (h : call.run codec order self = some (u, self')) :
    self'.records = patch u.deleted u.filed self.records := by
  cases call with
  | place residency => exact records_place hself h
  | removeBlock scope workerId blockHash =>
    obtain ⟨hrecords, hdel, hres⟩ := records_removeBlock hself scope blockHash (some_injective _ h)
    exact patch_of_removal hrecords hdel hres
  | clearWorker workerId =>
    obtain ⟨hrecords, hdel, hres⟩ := records_clearWorker hself (some_injective _ h)
    exact patch_of_removal hrecords hdel hres

lemma exists_run (codec : Codec WalRecord) (order : HashOrder) (call : Call) (self : StoreDataPlane) :
    ∃ u self', call.run codec order self = some (u, self') := by
  cases call with
  | place residency =>
    obtain ⟨st, hst, -⟩ := @exists_enforceCapacity codec order residency.workerId (placed residency self)
    exact ⟨_, _, by rw [Call.run, place, hst, map_some]⟩
  | removeBlock scope workerId blockHash => exact ⟨_, _, rfl⟩
  | clearWorker workerId => exact ⟨_, _, rfl⟩

lemma runAll_total (codec : Codec WalRecord) (calls : List (HashOrder × Call)) (self : StoreDataPlane) :
    ∃ updates self', runAll codec calls self = some (updates, self') := by
  induction calls generalizing self with
  | nil => exact ⟨[], self, rfl⟩
  | cons c calls ih =>
    obtain ⟨u, self₁, h₁⟩ := exists_run codec c.1 c.2 self
    obtain ⟨updates, self', h'⟩ := ih self₁
    exact ⟨u :: updates, self', by simp [runAll, h₁, h']⟩

def Mirrors (t : Table (String × KvBlockKey) CacheResidency) (self : StoreDataPlane) : Prop :=
  ∀ a, t.lookup a = self.records a

variable {t : Table (String × KvBlockKey) CacheResidency}

lemma Mirrors.run (ht : Mirrors t self) (hself : Filed self) (h : call.run codec order self = some (u, self')) :
    Mirrors (mirrored t u) self' := by
  intro a
  have hold : t.lookup = self.records := funext ht
  rw [mirrored, lookup_patched, hold, records_run hself h]

lemma exists_runAll (calls : List (HashOrder × Call)) (ht : Mirrors t self) (hself : Filed self) :
    ∃ updates self', runAll codec calls self = some (updates, self') ∧
      Mirrors (updates.foldl mirrored t) self' ∧ Filed self' := by
  induction calls generalizing self t with
  | nil => exact ⟨[], self, rfl, ht, hself⟩
  | cons c calls ih =>
    obtain ⟨u, self₁, h₁⟩ := exists_run codec c.1 c.2 self
    obtain ⟨updates, self', h', hmirrors, hfiled⟩ :=
      ih (ht.run hself h₁) (filed_of_patch hself (records_run hself h₁))
    refine ⟨u :: updates, self', ?_, hmirrors, hfiled⟩
    simp [runAll, h₁, h']

variable {updates : List DataPlaneUpdate}

lemma runAll_append {calls calls' : List (HashOrder × Call)}
    (h : runAll codec (calls ++ calls') self = some (updates, self')) :
    ∃ us self₁ us', runAll codec calls self = some (us, self₁) ∧ runAll codec calls' self₁ = some (us', self') ∧
      updates = us ++ us' := by
  induction calls generalizing self updates with
  | nil => exact ⟨[], self, updates, rfl, h, rfl⟩
  | cons c calls ih =>
    simp only [cons_append, runAll, bind_eq_bind, bind_eq_some_iff] at h
    obtain ⟨⟨u, self₁⟩, h₁, ⟨us, self₂⟩, h₂, h₃⟩ := h
    cases h₃
    obtain ⟨us', self₃, us'', hus', hus'', rfl⟩ := ih h₂
    exact ⟨u :: us', self₃, us'', by simp [runAll, h₁, hus'], hus'', rfl⟩

lemma runAll_singleton (h : runAll codec [(order, call)] self = some (updates, self')) :
    ∃ u, call.run codec order self = some (u, self') ∧ updates = [u] := by
  simp only [runAll, bind_eq_bind, bind_eq_some_iff] at h
  obtain ⟨⟨u, self₁⟩, h₁, ⟨us, self₂⟩, h₂, h₃⟩ := h
  cases h₂
  cases h₃
  exact ⟨u, h₁, rfl⟩

lemma runAll_concat {calls : List (HashOrder × Call)}
    (h : runAll codec (calls ++ [(order, call)]) self = some (updates, self')) :
    ∃ us self₁ u, runAll codec calls self = some (us, self₁) ∧ call.run codec order self₁ = some (u, self') ∧
      updates = us ++ [u] := by
  obtain ⟨us, self₁, us', hus, hus', rfl⟩ := runAll_append h
  obtain ⟨u, hu, rfl⟩ := runAll_singleton hus'
  exact ⟨us, self₁, u, hus, hu, rfl⟩

/-! ## The snapshot -/

lemma mem_snapshot (hself : Filed self) {r : CacheResidency} :
    r ∈ self.snapshot ↔ self.records r.address = some r := by
  simp only [snapshot, mem_flatMap, List.mem_map, mem_values]
  constructor
  · rintro ⟨worker, ⟨w, hworker⟩, e, ⟨k, he⟩, rfl⟩
    have hr : self.records (w, k) = some e.residency := by
      rw [records, hworker, bind_some, he, map_some]
    rw [hself (w, k) e.residency hr]
    exact hr
  · intro hr
    obtain ⟨worker, hworker, he⟩ := bind_eq_some_iff.mp hr
    obtain ⟨e, he, rfl⟩ := map_eq_some_iff.mp he
    exact ⟨worker, ⟨_, hworker⟩, e, ⟨_, he⟩, rfl⟩

lemma nodup_snapshot (hself : Filed self) : (self.snapshot.map CacheResidency.address).Nodup := by
  have haddr : self.snapshot.map CacheResidency.address =
      self.workers.entries.flatMap fun w => w.2.entries.entries.map fun e => (w.1, e.1) := by
    simp only [snapshot, AList.values, map_flatMap, flatMap_map, List.map_map]
    refine flatMap_congr fun w hw => map_congr_left fun e he => ?_
    have hworker : self.workers.lookup w.1 = some w.2 := mem_lookup_iff.mpr hw
    have hentry : w.2.entries.lookup e.1 = some e.2 := mem_lookup_iff.mpr he
    exact hself (w.1, e.1) e.2.residency (by rw [records, hworker, bind_some, hentry, map_some])
  rw [haddr, nodup_flatMap]
  refine ⟨fun w _ => ?_, ?_⟩
  · have hkeys : (w.2.entries.entries.map Sigma.fst).Nodup := w.2.entries.nodupKeys
    have hmap := hkeys.map (Prod.mk_right_injective w.1)
    rwa [List.map_map] at hmap
  · have hworkers : (self.workers.entries.map Sigma.fst).Nodup := self.workers.nodupKeys
    refine (pairwise_map.mp hworkers).imp fun hne => ?_
    rw [Function.onFun, disjoint_left]
    intro a ha hb
    obtain ⟨_, -, rfl⟩ := List.mem_map.mp ha
    obtain ⟨_, -, heq⟩ := List.mem_map.mp hb
    exact hne (congrArg Prod.fst heq).symm

lemma Mirrors.perm_snapshot (ht : Mirrors t self) (hself : Filed self) : t.values.Perm self.snapshot := by
  have hkey : ∀ e ∈ t.entries, e.2.address = e.1 := fun e he =>
    hself e.1 e.2 ((ht e.1).symm.trans (mem_lookup_iff.mpr he))
  have hvalues : t.values.map CacheResidency.address = t.entries.map Sigma.fst := by
    rw [AList.values, List.map_map]
    exact map_congr_left hkey
  have hnodup : (t.values.map CacheResidency.address).Nodup := hvalues ▸ t.nodupKeys
  refine (perm_ext_iff_of_nodup hnodup.of_map (nodup_snapshot hself).of_map).mpr fun r => ?_
  rw [mem_snapshot hself, ← ht, mem_values]
  constructor
  · rintro ⟨a, ha⟩
    rwa [hkey ⟨a, r⟩ (mem_lookup_iff.mp ha)]
  · exact fun hr => ⟨_, hr⟩

lemma tierBytes_place {residency : CacheResidency} (h : place codec order residency self = some (u, self')) :
    ∃ worker, self'.workers.lookup residency.workerId = some worker ∧
      ∀ t ∈ managedTiers, tierBytes worker t ≤ capacity self.config t := by
  obtain ⟨st, hst, hsettled⟩ := place_eq_some h
  obtain ⟨st', hst', hwithin⟩ := @exists_enforceCapacity codec order residency.workerId (placed residency self)
  cases hst.symm.trans hst'
  cases hsettled
  exact ⟨st.worker, lookup_insert _, hwithin⟩

lemma config_removeBlock {scope : IdentityScope} {workerId blockHash : String}
    (h : self.removeBlock codec order scope workerId blockHash = (u, self')) : self'.config = self.config := by
  rcases removeBlock_cases h with ⟨-, -, rfl⟩ | ⟨worker, worker', self₁, -, hst, rfl⟩
  · rfl
  · exact (foldl_removeKey_frame _ hst).2.1

lemma config_run (h : call.run codec order self = some (u, self')) : self'.config = self.config := by
  cases call with
  | place residency =>
    obtain ⟨st, hst, hsettled⟩ := place_eq_some h
    cases hsettled
    exact (workers_enforceCapacity hst).2.1
  | removeBlock scope workerId blockHash => exact config_removeBlock (some_injective _ h)
  | clearWorker workerId =>
    have h' : self.clearWorker order workerId = (u, self') := some_injective _ h
    rw [clearWorker] at h'
    split at h' <;> cases h' <;> rfl

lemma config_runAll {calls : List (HashOrder × Call)} (h : runAll codec calls self = some (updates, self')) :
    self'.config = self.config := by
  induction calls generalizing self updates with
  | nil =>
    cases h
    rfl
  | cons c calls ih =>
    simp only [runAll, bind_eq_bind, bind_eq_some_iff] at h
    obtain ⟨⟨u, self₁⟩, h₁, ⟨us, self₂⟩, h₂, h₃⟩ := h
    cases h₃
    exact (ih h₂).trans (config_run h₁)

/-- **The updates tell everything**: every sequence of calls returns, its updates applied one after another
to an empty map give the snapshot, and if it ends with a placement, then the tiers of the worker are within
their capacities. -/
theorem updates_give_snapshot (codec : Codec WalRecord) (config : StoreTierConfig) (disks : String → Disk)
    (calls : List (HashOrder × Call)) :
    ∃ updates self, runAll codec calls (new config disks) = some (updates, self) ∧
      (updates.foldl mirrored ∅).values.Perm self.snapshot ∧
      ∀ order residency, calls.getLast? = some (order, .place residency) →
        ∃ worker, self.workers.lookup residency.workerId = some worker ∧
          ∀ tier ∈ managedTiers, tierBytes worker tier ≤ capacity config tier := by
  have hempty : Mirrors ∅ (new config disks) := fun a => rfl
  obtain ⟨updates, self, hrun, hmirrors, hfiled⟩ := exists_runAll calls hempty (filed_new config disks)
  refine ⟨updates, self, hrun, hmirrors.perm_snapshot hfiled, fun order residency hlast => ?_⟩
  obtain ⟨calls', rfl⟩ := getLast?_eq_some_iff.mp hlast
  obtain ⟨us, self₁, u, h₁, hplace, -⟩ := runAll_concat hrun
  obtain ⟨worker, hworker, hwithin⟩ := tierBytes_place hplace
  refine ⟨worker, hworker, fun tier ht => ?_⟩
  have hconfig : self₁.config = config := config_runAll h₁
  rw [← hconfig]
  exact hwithin tier ht

end runs

end QuillCache.Store.StoreDataPlane
