import QuillCache.Core.Mirror

/-!
# The keys of a chain of blocks

An engine reports a chain of blocks in one or more events, and a request lists the hashes of the blocks it needs.
Both build the keys by the same loop (`chainKeys`), which numbers the blocks from 0. A later event of a chain names
the last block of the event before it as its parent, but its blocks are numbered from 0 again.

So the keys of a chain are those of a request for it if and only if every event begins at a position that a `u32`
cannot tell from 0 (`recorded_keys_iff`): in practice, if the chain comes in one event.

Source: `quillcache-core`.
-/

namespace QuillCache.Core

open Lib Store StoreDataPlane List

structure RequestKvHints where
  requestId : Option String := none
  modelId : Option String := none
  tokenizerId : Option String := none
  adapterId : Option String := none
  tenantId : Option String := none
  sessionId : Option String := none
  blockHashes : List String
  blockTokens : Option ℕ := none
  estimatedDecodeTokens : Option ℕ := none
  blockBytes : Option ℕ := none
  deriving DecidableEq

namespace RequestKvHints

def scope (self : RequestKvHints) (fallbackModelId fallbackTokenizerId fallbackTenantId : String) : IdentityScope where
  modelId := self.modelId.getD fallbackModelId
  tokenizerId := self.tokenizerId.getD fallbackTokenizerId
  adapterId := self.adapterId
  tenantId := self.tenantId.getD fallbackTenantId

def toBlocks (self : RequestKvHints) (fallbackModelId fallbackTokenizerId fallbackTenantId : String) :
    List KvBlockKey :=
  chainKeys (self.scope fallbackModelId fallbackTokenizerId fallbackTenantId) (self.blockTokens.getD 64)
    (self.sessionId.getD "root") 0 self.blockHashes

end RequestKvHints

/-! ## Chains in pieces -/

section chains

variable {scope : IdentityScope} {tokenCount : ℕ} {parent : String}

@[simp] lemma length_chainKeys (parent : String) (idx : ℕ) (hashes : List String) :
    (chainKeys scope tokenCount parent idx hashes).length = hashes.length := by
  induction hashes generalizing parent idx with
  | nil => rfl
  | cons hash hashes ih => rw [chainKeys, length_cons, length_cons, ih]

lemma chainKeys_append (parent : String) (idx : ℕ) (hashes hashes' : List String) :
    chainKeys scope tokenCount parent idx (hashes ++ hashes') = chainKeys scope tokenCount parent idx hashes ++
      chainKeys scope tokenCount (hashes.getLast?.getD parent) (idx + hashes.length) hashes' := by
  induction hashes generalizing parent idx with
  | nil => rfl
  | cons hash hashes ih =>
    have hlast : (hash :: hashes).getLast?.getD parent = hashes.getLast?.getD hash := by
      rw [getLast?_cons, Option.getD_some]
    rw [cons_append, chainKeys, chainKeys, ih, hlast, length_cons, cons_append,
      Nat.add_right_comm, Nat.add_assoc]

lemma chainKeys_eq_iff {idx idx' : ℕ} {hashes : List String} :
    chainKeys scope tokenCount parent idx hashes = chainKeys scope tokenCount parent idx' hashes ↔
      hashes = [] ∨ idx % 2 ^ 32 = idx' % 2 ^ 32 := by
  induction hashes generalizing parent idx idx' with
  | nil => simp [chainKeys]
  | cons hash hashes ih =>
    simp only [chainKeys, List.cons.injEq, KvBlockKey.mk.injEq, true_and, and_true, ih, reduceCtorEq, false_or]
    refine and_iff_left_of_imp fun h => .inr ?_
    rw [Nat.add_mod, h, ← Nat.add_mod]

/-- The keys of a chain whose pieces are numbered from 0 each. -/
def cutKeys (scope : IdentityScope) (tokenCount : ℕ) : String → List (List String) → List KvBlockKey
  | _, [] => []
  | parent, piece :: pieces => chainKeys scope tokenCount parent 0 piece ++
      cutKeys scope tokenCount (piece.getLast?.getD parent) pieces

/-- Every piece that has blocks begins at a multiple of `2 ^ 32`. -/
def Aligned : ℕ → List (List String) → Prop
  | _, [] => True
  | start, piece :: pieces => (piece = [] ∨ 2 ^ 32 ∣ start) ∧ Aligned (start + piece.length) pieces

variable {pieces : List (List String)}

lemma cutKeys_eq_iff {start : ℕ} :
    cutKeys scope tokenCount parent pieces = chainKeys scope tokenCount parent start pieces.flatten ↔
      Aligned start pieces := by
  induction pieces generalizing parent start with
  | nil => simp [cutKeys, chainKeys, Aligned]
  | cons piece pieces ih =>
    have hmod : 0 % 2 ^ 32 = start % 2 ^ 32 ↔ 2 ^ 32 ∣ start := by
      rw [Nat.zero_mod, eq_comm, Nat.dvd_iff_mod_eq_zero]
    rw [cutKeys, flatten_cons, chainKeys_append, Aligned, ← ih, ← hmod, ← chainKeys_eq_iff]
    constructor
    · intro h
      exact append_inj h (by rw [length_chainKeys, length_chainKeys])
    · rintro ⟨hpiece, hpieces⟩
      rw [hpiece, hpieces]

lemma blockIndex_lt_of_mem {idx : ℕ} {hashes : List String} {key : KvBlockKey}
    (h : key ∈ chainKeys scope tokenCount parent idx hashes) : key.blockIndex < idx + hashes.length := by
  induction hashes generalizing parent idx with
  | nil => cases h
  | cons hash hashes ih =>
    rw [length_cons]
    rcases mem_cons.mp h with rfl | h
    · have hle := Nat.mod_le idx (2 ^ 32)
      simp only
      omega
    · have hlt := ih h
      omega

lemma exists_piece_of_mem_cutKeys {key : KvBlockKey} (h : key ∈ cutKeys scope tokenCount parent pieces) :
    ∃ piece ∈ pieces, key.blockIndex < piece.length := by
  induction pieces generalizing parent with
  | nil => cases h
  | cons piece pieces ih =>
    rcases mem_append.mp h with h | h
    · exact ⟨piece, mem_cons_self, by simpa using blockIndex_lt_of_mem h⟩
    · obtain ⟨piece', hmem, hlt⟩ := ih h
      exact ⟨piece', mem_cons_of_mem _ hmem, hlt⟩

lemma exists_last_of_chain {hashes : List String} (hne : hashes ≠ []) (hlen : hashes.length ≤ 2 ^ 32) :
    ∃ key ∈ chainKeys scope tokenCount parent 0 hashes, key.blockIndex = hashes.length - 1 := by
  obtain ⟨front, hash, rfl⟩ := (eq_nil_or_concat' hashes).resolve_left hne
  rw [length_append, length_singleton] at hlen
  rw [chainKeys_append]
  refine ⟨_, mem_append_right _ mem_cons_self, ?_⟩
  simp only [length_append, length_singleton, Nat.zero_add, Nat.add_sub_cancel]
  exact Nat.mod_eq_of_lt (by omega)

lemma aligned_of_flatten_nil (h : pieces.flatten = []) (start : ℕ) : Aligned start pieces := by
  induction pieces generalizing start with
  | nil => trivial
  | cons piece pieces ih =>
    rw [flatten_cons, append_eq_nil_iff] at h
    exact ⟨.inl h.1, ih h.2 _⟩

lemma aligned_of_whole {piece : List String} (hmem : piece ∈ pieces) (hlen : pieces.flatten.length ≤ piece.length) :
    Aligned 0 pieces := by
  induction pieces with
  | nil => cases hmem
  | cons piece' pieces ih =>
    rw [flatten_cons, length_append] at hlen
    refine ⟨.inr (Nat.dvd_zero _), ?_⟩
    rcases mem_cons.mp hmem with rfl | hmem
    · exact aligned_of_flatten_nil (eq_nil_of_length_eq_zero (by omega)) _
    · have hle : piece.length ≤ pieces.flatten.length := by
        obtain ⟨front, back, rfl⟩ := append_of_mem hmem
        simp only [flatten_append, flatten_cons, length_append]
        omega
      have hnil : piece'.length = 0 := by omega
      rw [hnil]
      exact ih hmem (by omega)

lemma aligned_of_same_set (hlen : pieces.flatten.length ≤ 2 ^ 32)
    (h : ∀ key, key ∈ cutKeys scope tokenCount parent pieces ↔
      key ∈ chainKeys scope tokenCount parent 0 pieces.flatten) : Aligned 0 pieces := by
  by_cases hne : pieces.flatten = []
  · exact aligned_of_flatten_nil hne 0
  · obtain ⟨key, hkey, hidx⟩ := @exists_last_of_chain scope tokenCount parent _ hne hlen
    obtain ⟨piece, hmem, hlt⟩ := exists_piece_of_mem_cutKeys ((h key).mpr hkey)
    exact aligned_of_whole hmem (by omega)

end chains

/-! ## Events -/

/-- A chain cut into events, each with the last block before it as its parent. -/
def cutEvents (event : BlockStoredEvent) : Option String → List (List String) → List BlockStoredEvent
  | _, [] => []
  | parent, piece :: pieces => { event with blockHashes := piece, parentBlockHash := parent } ::
      cutEvents event (piece.getLast?.or parent) pieces

def SameSource (b batch : KvEventBatch) : Prop :=
  b.engineId = batch.engineId ∧ b.modelId = batch.modelId ∧ b.tokenizerId = batch.tokenizerId ∧
    b.adapterId = batch.adapterId ∧ b.tenantId = batch.tenantId

def recordedKeys (engine : EngineEndpoint) (batches : List KvEventBatch) : List KvBlockKey :=
  (batches.flatMap (batchStored engine)).map CacheResidency.key

def ingestAll {I : Type} [IndexBackend I] (engines : List EngineEndpoint) (batches : List KvEventBatch) (backend : I) :
    Except ControlError I :=
  batches.foldlM (fun backend batch => (ingestBatch batch engines backend).map Prod.snd) backend

section events

variable {engine : EngineEndpoint} {batch : KvEventBatch} {event : BlockStoredEvent} {batches : List KvEventBatch}

lemma map_key_storedBlocks (batch : KvEventBatch) (event : BlockStoredEvent) :
    (storedBlocks engine batch event).map CacheResidency.key = chainKeys (storedScope engine batch event)
      event.blockSize (event.parentBlockHash.getD "root") 0 event.blockHashes := by
  rw [storedBlocks, map_map]
  exact map_id _

lemma map_key_storedBy {b : KvEventBatch} (h : SameSource b batch) (e : KvEvent) :
    (storedBy engine b e).map CacheResidency.key = (storedBy engine batch e).map CacheResidency.key := by
  cases e with
  | blockStored event =>
    obtain ⟨-, hmodel, htokenizer, hadapter, htenant⟩ := h
    rw [storedBy, storedBy, map_key_storedBlocks, map_key_storedBlocks, storedScope, storedScope, hmodel, htokenizer,
      hadapter, htenant]
  | blockRemoved event => rfl
  | allBlocksCleared => rfl

lemma recordedKeys_eq (h : ∀ b ∈ batches, SameSource b batch) : recordedKeys engine batches =
    (batches.flatMap KvEventBatch.events).flatMap fun e => (storedBy engine batch e).map CacheResidency.key := by
  rw [recordedKeys, map_flatMap, flatMap_assoc]
  refine flatMap_congr fun b hb => ?_
  rw [batchStored, map_flatMap]
  exact flatMap_congr fun e _ => map_key_storedBy (h b hb) e

lemma keys_cutEvents (parent : Option String) (pieces : List (List String)) :
    (((cutEvents event parent pieces).map KvEvent.blockStored).flatMap fun e =>
      (storedBy engine batch e).map CacheResidency.key) =
      cutKeys (storedScope engine batch event) event.blockSize (parent.getD "root") pieces := by
  induction pieces generalizing parent with
  | nil => rfl
  | cons piece pieces ih =>
    have hparent : (piece.getLast?.or parent).getD "root" = piece.getLast?.getD (parent.getD "root") := by
      cases piece.getLast? <;> rfl
    rw [cutEvents, map_cons, flatMap_cons, ih, cutKeys, storedBy, map_key_storedBlocks, hparent]
    rfl

lemma isStored_of_cut {pieces : List (List String)} {parent : Option String}
    (hcut : batches.flatMap KvEventBatch.events = (cutEvents event parent pieces).map .blockStored)
    {b : KvEventBatch} (hb : b ∈ batches) : ∀ e ∈ b.events, e.isStored = true := by
  intro e he
  have hmem := mem_flatMap.mpr ⟨b, hb, he⟩
  rw [hcut] at hmem
  obtain ⟨event', -, rfl⟩ := mem_map.mp hmem
  rfl

lemma eventCalls_of_all_stored (h : ∀ e ∈ batch.events, e.isStored = true) :
    batch.events.flatMap (eventCalls engine batch) = (batchStored engine batch).map .place := by
  have hnone : batchRemovals engine batch = [] := by
    rw [batchRemovals, filter_eq_nil_iff.mpr fun e he => by simp [h e he], flatMap_nil]
  rw [flatMap_eventCalls ⟨[], batch.events, rfl, forall_mem_nil _, h⟩, hnone, nil_append]

lemma locate_foldl_put {idx : MemoryIndex} (rs : List CacheResidency) (key : KvBlockKey) :
    ((rs.map Call.place).foldl onIndex idx).locate key ≠ [] ↔
      idx.locate key ≠ [] ∨ key ∈ rs.map CacheResidency.key := by
  induction rs generalizing idx with
  | nil => simp
  | cons r rs ih =>
    rw [map_cons, foldl_cons, ih, map_cons, mem_cons, ← or_assoc]
    have hput : (onIndex idx (Call.place r)).locate key ≠ [] ↔ idx.locate key ≠ [] ∨ key = r.key := by
      change (idx.put r).locate key ≠ [] ↔ _
      rw [MemoryIndex.locate_put]
      by_cases hkey : key = r.key
      · simp [hkey]
      · simp [hkey]
    rw [hput]

lemma locate_ingestAll {engines : List EngineEndpoint} (idx : MemoryIndex)
    (hengine : ∀ b ∈ batches, engines.find? (fun engine => engine.id = b.engineId) = some engine)
    (hstored : ∀ b ∈ batches, ∀ e ∈ b.events, e.isStored = true) :
    ∃ idx', ingestAll engines batches idx = .ok idx' ∧
      ∀ key, idx'.locate key ≠ [] ↔ idx.locate key ≠ [] ∨ key ∈ recordedKeys engine batches := by
  induction batches generalizing idx with
  | nil => exact ⟨idx, rfl, fun key => by simp [recordedKeys]⟩
  | cons b batches ih =>
    obtain ⟨summary, hb⟩ := ingestBatch_eq idx (hengine b mem_cons_self)
    rw [eventCalls_of_all_stored (hstored b mem_cons_self)] at hb
    obtain ⟨idx', hrest, hlocate⟩ := ih (((batchStored engine b).map Call.place).foldl onIndex idx)
      (fun c hc => hengine c (mem_cons_of_mem _ hc)) fun c hc => hstored c (mem_cons_of_mem _ hc)
    refine ⟨idx', ?_, fun key => ?_⟩
    · rw [ingestAll, foldlM_cons, hb]
      exact hrest
    · rw [hlocate, locate_foldl_put, recordedKeys, recordedKeys, flatMap_cons, map_append, mem_append,
        or_assoc]

/-- **When a chain in pieces has the keys of the whole chain.** However a chain from the root is cut into events, and
these into batches, the index gets the recorded keys, and the data plane is told to place the same blocks. The
recorded keys are those of the chain in one event, and of a request for it, if and only if every event with blocks
begins at a position that is a multiple of `2 ^ 32`; and if the chain has no more blocks than that, then they are not
even the same set otherwise. -/
theorem recorded_keys_iff (engines : List EngineEndpoint) (engine : EngineEndpoint) (batch : KvEventBatch)
    (event : BlockStoredEvent) (pieces : List (List String)) (batches : List KvEventBatch) (idx : MemoryIndex)
    (hints : RequestKvHints) (fallbackModelId fallbackTokenizerId fallbackTenantId : String)
    (hengine : engines.find? (fun engine => engine.id = batch.engineId) = some engine)
    (hroot : event.parentBlockHash.getD "root" = "root")
    (hbatches : ∀ b ∈ batches, SameSource b batch)
    (hcut : batches.flatMap KvEventBatch.events = (cutEvents event event.parentBlockHash pieces).map .blockStored)
    (hhashes : hints.blockHashes = pieces.flatten) (hsession : hints.sessionId = none)
    (htokens : hints.blockTokens.getD 64 = event.blockSize)
    (hscope : hints.scope fallbackModelId fallbackTokenizerId fallbackTenantId = storedScope engine batch event) :
    (∃ idx', ingestAll engines batches idx = .ok idx' ∧
      ∀ key, idx'.locate key ≠ [] ↔ idx.locate key ≠ [] ∨ key ∈ recordedKeys engine batches) ∧
    (∀ b ∈ batches, b.events.flatMap (eventCalls engine b) = (batchStored engine b).map .place) ∧
    ((recordedKeys engine batches = recordedKeys engine
        [{ batch with events := [.blockStored { event with blockHashes := pieces.flatten }] }] ∧
      recordedKeys engine batches = hints.toBlocks fallbackModelId fallbackTokenizerId fallbackTenantId) ↔
        Aligned 0 pieces) ∧
    (pieces.flatten.length ≤ 2 ^ 32 →
      ((∀ key, key ∈ recordedKeys engine batches ↔
        key ∈ hints.toBlocks fallbackModelId fallbackTokenizerId fallbackTenantId) ↔ Aligned 0 pieces)) := by
  have hstored : ∀ b ∈ batches, ∀ e ∈ b.events, e.isStored = true := fun b hb => isStored_of_cut hcut hb
  have hkeys : recordedKeys engine batches = cutKeys (storedScope engine batch event) event.blockSize "root" pieces := by
    rw [recordedKeys_eq hbatches, hcut, keys_cutEvents, hroot]
  have hwhole : recordedKeys engine
      [{ batch with events := [.blockStored { event with blockHashes := pieces.flatten }] }] =
      chainKeys (storedScope engine batch event) event.blockSize "root" 0 pieces.flatten := by
    simp only [recordedKeys, batchStored, storedBy, flatMap_cons, flatMap_nil, append_nil,
      map_key_storedBlocks, hroot]
    rfl
  have hrequest : hints.toBlocks fallbackModelId fallbackTokenizerId fallbackTenantId =
      chainKeys (storedScope engine batch event) event.blockSize "root" 0 pieces.flatten := by
    rw [RequestKvHints.toBlocks, hscope, htokens, hsession, hhashes, Option.getD_none]
  refine ⟨locate_ingestAll idx (fun b hb => (hbatches b hb).1 ▸ hengine) hstored,
    fun b hb => eventCalls_of_all_stored (hstored b hb), ?_, fun hlen => ?_⟩
  · rw [hkeys, hwhole, hrequest, and_self_iff, cutKeys_eq_iff]
  · rw [hkeys, hrequest]
    exact ⟨aligned_of_same_set hlen, fun h key => by rw [cutKeys_eq_iff.mpr h]⟩

def twoHashes : RequestKvHints where
  modelId := some "m"
  tokenizerId := some "t"
  tenantId := some "u"
  blockHashes := ["h", "g"]
  blockTokens := some 16

theorem recorded_keys_iff_oneEvent :
    recordedKeys ⟨"w", "m", "t", "u"⟩
      [{ engineId := "w", events := [.blockStored { blockHashes := ["h", "g"], blockSize := 16 }] }] =
    twoHashes.toBlocks "" "" "" :=
  (((recorded_keys_iff [⟨"w", "m", "t", "u"⟩] ⟨"w", "m", "t", "u"⟩ { engineId := "w", events := [] }
    { blockHashes := [], blockSize := 16 } [["h", "g"]]
    [{ engineId := "w", events := [.blockStored { blockHashes := ["h", "g"], blockSize := 16 }] }] {} twoHashes
    "" "" "" (by decide) rfl (by simp [SameSource]) rfl rfl rfl rfl rfl).2.2.1).mpr
    ⟨.inr (Nat.dvd_zero _), trivial⟩).2

def twoEvents : KvEventBatch where
  engineId := "w"
  events := (cutEvents { blockHashes := [], blockSize := 16 } none [["h"], ["g"]]).map .blockStored

/-- **A chain in two events is not found.** The second block of the chain is not in the index, and not in the data
plane, under the key that a request has for it. -/
theorem second_event_not_found : ∃ self plane,
    ControlPlane.emptyStart.serve recordCodec (fun _ => .asBuilt) (.ingest twoEvents) = some self ∧
      self.dataPlane = some plane ∧ plane.snapshot.length = 2 ∧
      ∃ key ∈ twoHashes.toBlocks "" "" "", self.residency.locate key = [] ∧ key ∉ plane.snapshot.map CacheResidency.key := by
  have hrun : ((ControlPlane.emptyStart.serve recordCodec (fun _ => .asBuilt) (.ingest twoEvents)).any fun self =>
      self.dataPlane.any fun plane => decide (plane.snapshot.length = 2 ∧ ∃ key ∈ twoHashes.toBlocks "" "" "",
        self.residency.locate key = [] ∧ key ∉ plane.snapshot.map CacheResidency.key)) = true := by decide +kernel
  obtain ⟨self, hself, hany⟩ := (Option.any_eq_true _ _).mp hrun
  obtain ⟨plane, hplane, hlost⟩ := (Option.any_eq_true _ _).mp hany
  obtain ⟨hlen, hkey⟩ := of_decide_eq_true hlost
  exact ⟨self, plane, hself, hplane, hlen, hkey⟩

end events

end QuillCache.Core
