import QuillCache.Store.DataPlaneRun
import QuillCache.Store.PoolBytes

/-!
# The bytes behind the records

A data plane keeps the tier of a block twice: in the record of the block, and in the byte pool of the worker.
The two drift apart: a placement without bytes, or a promotion, changes only the record. What keeps them
together is that bytes are dropped exactly when the record goes.

So, whatever is put, placed, moved, removed and cleared in between, `get` returns the bytes that were put last
under the key on that worker, until the record of the block is evicted, removed or cleared, and then none
until the next put (`get_returns_held`).

Source: `lib.rs`.
-/

namespace QuillCache.Store.StoreDataPlane

open Lib QuillCache.Core LocalKvStore List Option
open Function hiding update
open AList hiding keys

def bytePoolMut (workerId : String) (self : StoreDataPlane) : StoreDataPlane :=
  match self.bytePools.lookup workerId with
  | some _ => self
  | none =>
    { self with
      bytePools := self.bytePools.insert workerId (.new (2 ^ 64 - 1) (2 ^ 64 - 1))
      disks := Function.update self.disks workerId (self.disks workerId).truncated }

def putResidency (workerId : String) (key : KvBlockKey) (data : List UInt8) : CacheResidency where
  key := key
  workerId := workerId
  tier := .cpuDram
  bytes := data.length
  lastAccessMs := 0
  refCount := 0
  pinned := false

def putReporting (codec : Codec WalRecord) (order : HashOrder) (workerId : String) (key : KvBlockKey)
    (data : List UInt8) (self : StoreDataPlane) : Option (DataPlaneUpdate × StoreDataPlane) :=
  place codec order (putResidency workerId key data)
    ((self.bytePoolMut workerId).onPool codec workerId (.putDram key data))

def put (codec : Codec WalRecord) (order : HashOrder) (workerId : String) (key : KvBlockKey)
    (data : List UInt8) (self : StoreDataPlane) : Option StoreDataPlane :=
  (self.putReporting codec order workerId key data).map Prod.snd

def get (workerId : String) (key : KvBlockKey) (self : StoreDataPlane) :
    Except StoreError (List UInt8) × StoreDataPlane :=
  match self.bytePools.lookup workerId with
  | none => (.error .notFound, self)
  | some pool =>
    let (result, pool) := pool.get (self.disks workerId) key
    (result, { self with bytePools := self.bytePools.insert workerId pool })

/-! ## Runs -/

inductive Request where
  | put (workerId : String) (key : KvBlockKey) (data : List UInt8)
  | get (workerId : String) (key : KvBlockKey)
  | call (call : Call)

def Request.run (codec : Codec WalRecord) (order : HashOrder) :
    Request → StoreDataPlane → Option (DataPlaneUpdate × StoreDataPlane)
  | put workerId key data, self => self.putReporting codec order workerId key data
  | get workerId key, self => some ({}, (self.get workerId key).2)
  | call c, self => c.run codec order self

def serve (codec : Codec WalRecord) :
    List (HashOrder × Request) → StoreDataPlane → Option (List (Request × DataPlaneUpdate) × StoreDataPlane)
  | [], self => some ([], self)
  | (order, request) :: requests, self => do
    let (update, self) ← request.run codec order self
    let (events, self) ← serve codec requests self
    return ((request, update) :: events, self)

abbrev Holding := String → KvBlockKey → Option (List UInt8)

def Request.files : Request → Holding → Holding
  | put workerId key data, held, w, k => if w = workerId ∧ k = key then some data else held w k
  | _, held, w, k => held w k

def struck (gone : List (String × KvBlockKey)) (held : Holding) : Holding := fun w k =>
  if (w, k) ∈ gone then none else held w k

/-- The bytes under each key after an event: those last put, unless the block was evicted, removed or cleared
since. -/
def noted (held : Holding) (event : Request × DataPlaneUpdate) : Holding :=
  struck event.2.deleted (event.1.files held)

/-! ## The byte pools -/

def Stocked (self : StoreDataPlane) (held : Holding) : Prop :=
  ∀ w, match self.bytePools.lookup w with
    | none => ∀ k, held w k = none
    | some pool => Backed (self.disks w) pool (held w)

section pools

variable {codec : Codec WalRecord} {order : HashOrder} {workerId : String} {self self' : StoreDataPlane}
  {held : Holding} {u : DataPlaneUpdate}

def noteAt (workerId : String) (op : BlockOp) (held : Holding) : Holding :=
  Function.update held workerId (op.note (held workerId))

lemma stocked_new (config : StoreTierConfig) (disks : String → Disk) :
    Stocked (new config disks) fun _ _ => none := fun _ _ => rfl

lemma Stocked.of_none (h : Stocked self held) (hpool : self.bytePools.lookup workerId = none) (k : KvBlockKey) :
    held workerId k = none := by
  have hw := h workerId
  rw [hpool] at hw
  exact hw k

lemma Stocked.of_some {pool : LocalKvStore} (h : Stocked self held)
    (hpool : self.bytePools.lookup workerId = some pool) : Backed (self.disks workerId) pool (held workerId) := by
  have hw := h workerId
  rw [hpool] at hw
  exact hw

lemma Stocked.congr (h : Stocked self held) (hpools : self'.bytePools = self.bytePools)
    (hdisks : self'.disks = self.disks) : Stocked self' held := by
  intro w
  rw [hpools, hdisks]
  exact h w

lemma Stocked.update {pool : LocalKvStore} {d : Disk} {bytes : KvBlockKey → Option (List UInt8)}
    (h : Stocked self held) (hpools : self'.bytePools = self.bytePools.insert workerId pool)
    (hdisks : self'.disks = Function.update self.disks workerId d) (hpool : Backed d pool bytes) :
    Stocked self' (Function.update held workerId bytes) := by
  intro w
  rw [hpools, hdisks]
  rcases eq_or_ne w workerId with rfl | hw
  · rw [lookup_insert, update_self, update_self]
    exact hpool
  · rw [lookup_insert_ne hw, update_of_ne hw, update_of_ne hw]
    exact h w

lemma Stocked.onPool (h : Stocked self held) (op : BlockOp)
    (hop : self.bytePools.lookup workerId = none → noteAt workerId op held = held) :
    Stocked (self.onPool codec workerId op) (noteAt workerId op held) := by
  rw [StoreDataPlane.onPool]
  cases hpool : self.bytePools.lookup workerId with
  | none =>
    rw [hop hpool]
    exact h
  | some pool => exact h.update rfl rfl ((h.of_some hpool).exec op)

lemma noteAt_demoteToSsd (key : KvBlockKey) : noteAt workerId (.demoteToSsd key) held = held :=
  update_eq_self _ _

lemma noteAt_dropBlock (key : KvBlockKey) :
    noteAt workerId (.dropBlock key) held = struck [(workerId, key)] held := by
  funext w k
  rw [noteAt, struck]
  rcases eq_or_ne w workerId with rfl | hw
  · rw [update_self, BlockOp.note]
    rcases eq_or_ne k key with rfl | hk
    · simp
    · simp [hk]
  · simp [hw]

lemma Stocked.demote (h : Stocked self held) (key : KvBlockKey) :
    Stocked (self.onPool codec workerId (.demoteToSsd key)) held := by
  have hop := @Stocked.onPool codec workerId _ _ h (.demoteToSsd key) fun _ => noteAt_demoteToSsd key
  rwa [noteAt_demoteToSsd] at hop

lemma Stocked.drop (h : Stocked self held) (key : KvBlockKey) :
    Stocked (self.onPool codec workerId (.dropBlock key)) (struck [(workerId, key)] held) := by
  rw [← noteAt_dropBlock]
  refine h.onPool _ fun hpool => ?_
  rw [noteAt_dropBlock]
  funext w k
  rw [struck]
  split_ifs with heq
  · cases mem_singleton.mp heq
    exact (h.of_none hpool key).symm
  · rfl

lemma struck_struck (gone gone' : List (String × KvBlockKey)) :
    struck gone' (struck gone held) = struck (gone ++ gone') held := by
  funext w k
  simp only [struck, mem_append]
  by_cases h : (w, k) ∈ gone <;> by_cases h' : (w, k) ∈ gone' <;> simp [h, h']

@[simp] lemma struck_nil : struck [] held = held := by
  funext w k
  simp [struck]

/-! ### What the calls do to the byte pools -/

lemma Stocked.turn {st : Enforcement} {tier : CacheTier} {key : KvBlockKey} {victim : TierEntry}
    (h : Stocked st.plane (struck st.update.deleted held)) (haddr : victim.residency.address = (workerId, key)) :
    Stocked (turn codec workerId tier key victim st).plane
      (struck (turn codec workerId tier key victim st).update.deleted held) := by
  rw [DataPlaneUpdate.deleted, removed_turn]
  simp only [StoreDataPlane.turn]
  cases lowerTier tier with
  | some nextTier =>
    simp only [elim_some]
    split_ifs
    · exact h.demote key
    · exact h
  | none =>
    simp only [elim_none, map_append, map_singleton, haddr]
    rw [← struck_struck]
    exact h.drop key

lemma Stocked.place {residency : CacheResidency} (h : Stocked self held) (hself : Filed self)
    (hrun : place codec order residency self = some (u, self')) : Stocked self' (struck u.deleted held) := by
  obtain ⟨st, hst, hsettled⟩ := place_eq_some hrun
  have hplaced : Stocked (placed residency self).plane (struck (placed residency self).update.deleted held) := by
    rw [placed, DataPlaneUpdate.deleted, map_nil, struck_nil]
    exact h.congr rfl rfl
  have hinv := @enforceCapacity_preserves codec order residency.workerId (placed residency self) st
    (fun x => Stocked x.plane (struck x.update.deleted held) ∧
      Tracked residency.workerId (self.blocks residency.workerId) x)
    (fun tier _ x key victim hx _ hvictim _ _ =>
      ⟨hx.1.turn (hx.2.filed key victim hvictim), hx.2.turn hvictim⟩)
    ⟨hplaced, tracked_placed hself residency⟩ hst
  cases hsettled
  exact hinv.1.congr rfl rfl

lemma Stocked.foldl_removeKey {worker worker' : WorkerCache} (h : Stocked self held) (keys : List KvBlockKey)
    (hrun : keys.foldl (removeKey codec workerId) ({}, worker, self) = (u, worker', self')) :
    Stocked self' (struck (keys.map fun k => (workerId, k)) held) := by
  induction keys using List.reverseRecOn generalizing u worker' self' with
  | nil =>
    cases hrun
    simpa using h
  | append_singleton keys key ih =>
    rw [List.foldl_append, foldl_cons, foldl_nil] at hrun
    rcases hst : keys.foldl (removeKey codec workerId) ({}, worker, self) with ⟨u₁, worker₁, self₁⟩
    have h₁ := ih hst
    rw [hst, removeKey] at hrun
    rw [map_append, ← struck_struck]
    split at hrun <;> cases hrun <;> exact h₁.drop key

lemma struck_congr {gone gone' : List (String × KvBlockKey)} (h : ∀ a, a ∈ gone ↔ a ∈ gone') :
    struck gone held = struck gone' held := by
  funext w k
  simp only [struck, h]

lemma Stocked.removeBlock {scope : IdentityScope} {blockHash : String} (h : Stocked self held)
    (hself : Filed self) (hrun : self.removeBlock codec order scope workerId blockHash = (u, self')) :
    Stocked self' (struck u.deleted held) := by
  rw [StoreDataPlane.removeBlock] at hrun
  cases hworker : self.workers.lookup workerId with
  | none =>
    simp only [hworker] at hrun
    cases hrun
    simpa [DataPlaneUpdate.deleted] using h
  | some worker =>
    rcases hst : (matchingKeys order scope blockHash worker).foldl (removeKey codec workerId) ({}, worker, self)
      with ⟨u₁, worker', self₁⟩
    simp only [hworker, hst] at hrun
    cases hrun
    have hdel := (StoreDataPlane.foldl_removeKey
      (fun k e he => hself.blocks ((blocks_of_lookup hworker k).trans he)) _ hst).2.1
    have hsame : struck u.deleted held =
        struck ((matchingKeys order scope blockHash worker).map fun k => (workerId, k)) held := by
      apply struck_congr
      rintro ⟨w, k⟩
      rw [hdel, List.mem_map]
      constructor
      · rintro ⟨rfl, hk, -⟩
        exact ⟨k, hk, rfl⟩
      · rintro ⟨k', hk, heq⟩
        cases heq
        exact ⟨rfl, hk, lookup_of_mem_matchingKeys hk⟩
    rw [hsame]
    exact (h.foldl_removeKey _ hst).congr rfl rfl

lemma Stocked.clearWorker (h : Stocked self held) (hself : Filed self)
    (hheld : ∀ k, held workerId k ≠ none → self.records (workerId, k) ≠ none)
    (hrun : self.clearWorker order workerId = (u, self')) : Stocked self' (struck u.deleted held) := by
  have hdel := (records_clearWorker hself hrun).2.1
  have hpools : self'.bytePools = self.bytePools.erase workerId ∧ self'.disks = self.disks := by
    rw [StoreDataPlane.clearWorker] at hrun
    split at hrun <;> cases hrun <;> exact ⟨rfl, rfl⟩
  intro w
  rw [hpools.1, hpools.2]
  rcases eq_or_ne w workerId with rfl | hw
  · rw [lookup_erase]
    intro k
    rw [struck]
    split_ifs with hk
    · rfl
    · by_contra hne
      exact hk ((hdel _).mpr ⟨rfl, hheld k hne⟩)
  · have hsame : struck u.deleted held w = held w := by
      funext k
      rw [struck, if_neg fun hk => hw ((hdel _).mp hk).1]
    rw [lookup_erase_ne hw, hsame]
    exact h w

lemma Stocked.get (h : Stocked self held) (key : KvBlockKey) :
    Stocked (self.get workerId key).2 held ∧ (self.get workerId key).1.toOption = held workerId key := by
  rw [StoreDataPlane.get]
  cases hpool : self.bytePools.lookup workerId with
  | none => exact ⟨h, (h.of_none hpool key).symm⟩
  | some pool =>
    have hbacked := h.of_some hpool
    refine ⟨?_, hbacked.get key⟩
    have hupdate : Stocked { self with
        bytePools := self.bytePools.insert workerId (pool.get (self.disks workerId) key).2 }
        (Function.update held workerId (held workerId)) :=
      h.update rfl (update_eq_self _ _).symm (hbacked.after_get key)
    rwa [update_eq_self] at hupdate

lemma Stocked.bytePoolMut (h : Stocked self held) : Stocked (self.bytePoolMut workerId) held := by
  rw [StoreDataPlane.bytePoolMut]
  cases hpool : self.bytePools.lookup workerId with
  | some pool => exact h
  | none =>
    have hupdate : Stocked { self with
        bytePools := self.bytePools.insert workerId (.new (2 ^ 64 - 1) (2 ^ 64 - 1))
        disks := Function.update self.disks workerId (self.disks workerId).truncated }
        (Function.update held workerId fun _ => none) := h.update rfl rfl (backed_new _ _ _)
    have hnone : (fun _ => none) = held workerId := funext fun k => (h.of_none hpool k).symm
    rwa [hnone, update_eq_self] at hupdate

lemma bytePools_bytePoolMut : (self.bytePoolMut workerId).bytePools.lookup workerId ≠ none := by
  rw [StoreDataPlane.bytePoolMut]
  cases hpool : self.bytePools.lookup workerId with
  | some pool => simp [hpool]
  | none => simp

lemma Stocked.putDram (h : Stocked self held) (key : KvBlockKey) (data : List UInt8) :
    Stocked ((self.bytePoolMut workerId).onPool codec workerId (.putDram key data))
      ((Request.put workerId key data).files held) := by
  have hpool : Stocked (self.bytePoolMut workerId) held := h.bytePoolMut
  have hop := @Stocked.onPool codec workerId _ _ hpool (.putDram key data) fun hnone =>
    absurd hnone bytePools_bytePoolMut
  have hnote : noteAt workerId (.putDram key data) held = (Request.put workerId key data).files held := by
    funext w k
    rw [noteAt, Request.files]
    rcases eq_or_ne w workerId with rfl | hw
    · rw [update_self, BlockOp.note]
      rcases eq_or_ne k key with rfl | hk
      · simp
      · simp [hk]
    · simp [hw]
  rwa [hnote] at hop

end pools

/-! ## What `get` returns -/

/-- The byte pools hold `held`, and every block with bytes has a record. -/
structure Holds (plane : StoreDataPlane) (held : Holding) : Prop where
  filed : Filed plane
  stocked : Stocked plane held
  recorded : ∀ w k, held w k ≠ none → plane.records (w, k) ≠ none

section holds

variable {codec : Codec WalRecord} {order : HashOrder} {self self' : StoreDataPlane} {held : Holding}
  {u : DataPlaneUpdate} {request : Request}

lemma holds_new (config : StoreTierConfig) (disks : String → Disk) : Holds (new config disks) fun _ _ => none :=
  ⟨filed_new config disks, stocked_new config disks, fun _ _ h => absurd rfl h⟩

lemma recorded_of_patch (h : self'.records = patch u.deleted u.filed self.records)
    (hheld : ∀ w k, held w k ≠ none → self.records (w, k) ≠ none ∨ (w, k) ∈ u.filed.map Prod.fst ∨ (w, k) ∈ u.deleted)
    (w : String) (k : KvBlockKey) (hk : struck u.deleted held w k ≠ none) : self'.records (w, k) ≠ none := by
  rw [struck] at hk
  split_ifs at hk with hdel
  · exact absurd rfl hk
  · rw [h]
    rcases hheld w k hk with hrec | hfiled | hdel'
    · intro hnone
      rcases patch_eq_none hnone with hnone | hdel'
      · exact hrec hnone
      · exact hdel hdel'
    · intro hnone
      rw [patch, or_eq_none_iff] at hnone
      exact lastFiled_eq_none.mp hnone.1 hfiled
    · exact absurd hdel' hdel

lemma records_congr (h : self'.workers = self.workers) : self'.records = self.records := by
  funext a
  rw [records, records, h]

lemma workers_bytePoolMut (workerId : String) : (self.bytePoolMut workerId).workers = self.workers := by
  rw [bytePoolMut]
  split <;> rfl

lemma Holds.run (h : Holds self held) (hrun : request.run codec order self = some (u, self')) :
    Holds self' (noted held (request, u)) := by
  cases request with
  | put workerId key data =>
    have hworkers : ((self.bytePoolMut workerId).onPool codec workerId (.putDram key data)).workers =
        self.workers := by
      rw [workers_onPool, workers_bytePoolMut]
    have hrecords := records_congr hworkers
    have hfiled : Filed ((self.bytePoolMut workerId).onPool codec workerId (.putDram key data)) := by
      rw [Filed, hrecords]
      exact h.filed
    have hpatch := records_place hfiled hrun
    refine ⟨filed_of_patch hfiled hpatch, (h.stocked.putDram key data).place hfiled hrun,
      recorded_of_patch hpatch fun w k hk => ?_⟩
    rw [Request.files] at hk
    split_ifs at hk with heq
    · obtain ⟨rfl, rfl⟩ := heq
      exact .inr (reported_place hfiled hrun)
    · rw [hrecords]
      exact .inl (h.recorded w k hk)
  | get workerId key =>
    cases hrun
    have hrecords : (self.get workerId key).2.records = self.records := by
      refine records_congr ?_
      rw [StoreDataPlane.get]
      split <;> rfl
    have hnoted : noted held (.get workerId key, {}) = held := struck_nil
    rw [hnoted]
    refine ⟨?_, (h.stocked.get key).1, ?_⟩
    · rw [Filed, hrecords]
      exact h.filed
    · rw [hrecords]
      exact h.recorded
  | call c =>
    have hpatch := records_run h.filed hrun
    refine ⟨filed_of_patch h.filed hpatch, ?_, recorded_of_patch hpatch fun w k hk => .inl (h.recorded w k hk)⟩
    cases c with
    | place residency => exact h.stocked.place h.filed hrun
    | removeBlock scope workerId blockHash =>
      exact h.stocked.removeBlock h.filed (some_injective _ hrun)
    | clearWorker workerId =>
      exact h.stocked.clearWorker h.filed (h.recorded workerId) (some_injective _ hrun)

lemma exists_request (codec : Codec WalRecord) (order : HashOrder) (request : Request) (self : StoreDataPlane) :
    ∃ u self', request.run codec order self = some (u, self') := by
  cases request with
  | put workerId key data => exact exists_run codec order (.place (putResidency workerId key data)) _
  | get workerId key => exact ⟨_, _, rfl⟩
  | call c => exact exists_run codec order c self

lemma Holds.serve (requests : List (HashOrder × Request)) (h : Holds self held) :
    ∃ events self', serve codec requests self = some (events, self') ∧ Holds self' (events.foldl noted held) := by
  induction requests generalizing self held with
  | nil => exact ⟨[], self, rfl, h⟩
  | cons r requests ih =>
    obtain ⟨u, self₁, h₁⟩ := exists_request codec r.1 r.2 self
    obtain ⟨events, self', h', hholds⟩ := ih (h.run h₁)
    exact ⟨(r.2, u) :: events, self', by simp [StoreDataPlane.serve, h₁, h'], hholds⟩

lemma Holds.tierOf_isSome {workerId : String} {pool : LocalKvStore} {key : KvBlockKey} (h : Holds self held)
    (hpool : self.bytePools.lookup workerId = some pool) (hkey : key ∈ pool.dram ∨ key ∈ pool.ssd) :
    (self.tierOf workerId key).isSome := by
  have hbacked := h.stocked.of_some hpool
  have hheld : held workerId key ≠ none := by
    rcases hkey with hkey | hkey
    · obtain ⟨data, hdata⟩ := mem_iff_exists_lookup.mp hkey
      rw [hbacked.dram key data hdata]
      nofun
    · obtain ⟨f, hf⟩ := mem_iff_exists_lookup.mp hkey
      obtain ⟨data, -, hdata⟩ := hbacked.ssd key f hf
      rw [hdata]
      nofun
  obtain ⟨r, hr⟩ := ne_none_iff_exists'.mp (h.recorded workerId key hheld)
  obtain ⟨worker, hworker, hentry⟩ := bind_eq_some_iff.mp hr
  obtain ⟨e, he, -⟩ := map_eq_some_iff.mp hentry
  simp only at hworker he
  simp [tierOf, hworker, he]

end holds

end QuillCache.Store.StoreDataPlane
