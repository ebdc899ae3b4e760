import QuillCache.Core.Block
import QuillCache.Lib.Buckets

/-!
# The residency index

`IndexBackend` is the interface of the residency index, and `MemoryIndex` the backend that keeps it in memory: the
records of each key, and two reverse indexes that find the keys of a block hash, within an identity and across
identities. The counters of `metrics` are left out. A hash map is iterated in the order of its list, and a run of the
index may be `Shuffled` at any point.

The reverse indexes hold exactly the keys that have records, so that the calls that go through them do what a scan of
all records would do (`indexed_as_scanned`).

Source: `quillcache-core`.
-/

namespace QuillCache.Core

open Lib Store List Option
open AList hiding keys

class IndexBackend (I : Type) where
  put : CacheResidency → I → I
  locate : KvBlockKey → I → List CacheResidency
  prefixScan : IdentityScope → String → I → List CacheResidency
  removeBlock : IdentityScope → String → String → I → ℕ × I
  clearWorker : String → I → I
  clear : I → I
  snapshot : I → List CacheResidency
  residencyByContentHash : String → I → List CacheResidency := fun blockHash self =>
    (snapshot self).filter fun residency => residency.key.blockHash = blockHash
  len : I → ℕ

inductive IndexOp where
  | put (residency : CacheResidency)
  | removeBlock (scope : IdentityScope) (workerId blockHash : String)
  | clearWorker (workerId : String)
  | clear

def IndexOp.run {I : Type} [IndexBackend I] : IndexOp → I → ℕ × I
  | put residency, self => (0, IndexBackend.put residency self)
  | removeBlock scope workerId blockHash, self => IndexBackend.removeBlock scope workerId blockHash self
  | clearWorker workerId, self => (0, IndexBackend.clearWorker workerId self)
  | clear, self => (0, IndexBackend.clear self)

def Evicts (scope : IdentityScope) (workerId blockHash : String) (r : CacheResidency) : Prop :=
  IdentityScope.fromKey r.key = scope ∧ r.key.blockHash = blockHash ∧ r.workerId = workerId

instance (scope : IdentityScope) (workerId blockHash : String) (r : CacheResidency) :
    Decidable (Evicts scope workerId blockHash r) := inferInstanceAs (Decidable (_ ∧ _))

structure MemoryIndex where
  entries : Table KvBlockKey (List CacheResidency) := ∅
  byHash : Table (IdentityScope × String) (List KvBlockKey) := ∅
  byContentHash : Table String (List KvBlockKey) := ∅

namespace MemoryIndex

def hashBucket (key : KvBlockKey) : IdentityScope × String := (.fromKey key, key.blockHash)

def put (residency : CacheResidency) (self : MemoryIndex) : MemoryIndex where
  entries := self.entries.insert residency.key
    ((((self.entries.lookup residency.key).getD []).filter fun entry =>
      ¬(entry.workerId = residency.workerId ∧ entry.tier = residency.tier)) ++ [residency])
  byHash := Buckets.file (hashBucket residency.key) residency.key self.byHash
  byContentHash := Buckets.file residency.key.blockHash residency.key self.byContentHash

def locate (key : KvBlockKey) (self : MemoryIndex) : List CacheResidency := (self.entries.lookup key).getD []

def prefixScan (scope : IdentityScope) (prefixHash : String) (self : MemoryIndex) : List CacheResidency :=
  (self.entries.entries.filter fun e => scope.matches e.1 ∧ e.1.prefixHash = prefixHash).flatMap Sigma.snd

def forgetContentHash (byContentHash : Table String (List KvBlockKey)) (key : KvBlockKey) :
    Table String (List KvBlockKey) := Buckets.drop key.blockHash [key] byContentHash

/-- The body of the loop of `remove_block`: the entries, the count, and the keys that were emptied. -/
def removeFrom (workerId : String) (st : Table KvBlockKey (List CacheResidency) × ℕ × List KvBlockKey)
    (key : KvBlockKey) : Table KvBlockKey (List CacheResidency) × ℕ × List KvBlockKey :=
  match st.1.lookup key with
  | none => st
  | some entries =>
    let kept := entries.filter fun entry => entry.workerId ≠ workerId
    (if kept.isEmpty then st.1.erase key else st.1.insert key kept,
      st.2.1 + (entries.length - kept.length),
      if kept.isEmpty then st.2.2 ++ [key] else st.2.2)

def removeBlock (scope : IdentityScope) (workerId blockHash : String) (self : MemoryIndex) : ℕ × MemoryIndex :=
  match self.byHash.lookup (scope, blockHash) with
  | none => (0, self)
  | some candidates =>
    let (entries, removed, emptied) := candidates.foldl (removeFrom workerId) (self.entries, 0, [])
    (removed,
      if emptied.isEmpty then { self with entries := entries }
      else
        { entries := entries
          byHash := Buckets.drop (scope, blockHash) emptied self.byHash
          byContentHash := emptied.foldl forgetContentHash self.byContentHash })

def clearWorker (workerId : String) (self : MemoryIndex) : MemoryIndex :=
  let pruned := self.entries.mapEntries fun _ entries => entries.filter fun entry => entry.workerId ≠ workerId
  let emptied := (pruned.entries.filter fun e => e.2.isEmpty).map Sigma.fst
  { entries := pruned.retain fun _ entries => !entries.isEmpty
    byHash := emptied.foldl (fun t key => Buckets.drop (hashBucket key) [key] t) self.byHash
    byContentHash := emptied.foldl forgetContentHash self.byContentHash }

def snapshot (self : MemoryIndex) : List CacheResidency := self.entries.values.flatten

def residencyByContentHash (blockHash : String) (self : MemoryIndex) : List CacheResidency :=
  match self.byContentHash.lookup blockHash with
  | none => []
  | some keys => (keys.filterMap fun key => self.entries.lookup key).flatten

def len (self : MemoryIndex) : ℕ := self.entries.total List.length

instance : IndexBackend MemoryIndex where
  put := put
  locate := locate
  prefixScan := prefixScan
  removeBlock := removeBlock
  clearWorker := clearWorker
  clear _ := {}
  snapshot := snapshot
  residencyByContentHash := residencyByContentHash
  len := len

/-! ## The reverse indexes -/

def Apart (r r' : CacheResidency) : Prop := ¬(r.workerId = r'.workerId ∧ r.tier = r'.tier)

instance : Std.Symm Apart := ⟨fun _ _ h h' => h ⟨h'.1.symm, h'.2.symm⟩⟩

/-- The reverse indexes hold exactly the keys that have records, every record is filed under its key, and no two
records of a key are for the same worker and tier. -/
structure Exact (idx : MemoryIndex) : Prop where
  byHash : Buckets.Exact hashBucket (· ∈ idx.entries) idx.byHash
  byContentHash : Buckets.Exact KvBlockKey.blockHash (· ∈ idx.entries) idx.byContentHash
  records : ∀ key entries, idx.entries.lookup key = some entries →
    entries ≠ [] ∧ (∀ r ∈ entries, r.key = key) ∧ entries.Pairwise Apart

section exact

variable {idx : MemoryIndex}

lemma exact_new : Exact {} :=
  ⟨Buckets.exact_empty _ (by simp), Buckets.exact_empty _ (by simp), nofun⟩

variable {r : CacheResidency} {key : KvBlockKey}

lemma Exact.mem_locate (h : Exact idx) (hr : r ∈ idx.locate key) : r.key = key := by
  rw [locate] at hr
  cases hentries : idx.entries.lookup key with
  | none =>
    rw [hentries] at hr
    cases hr
  | some entries =>
    rw [hentries] at hr
    exact (h.records key entries hentries).2.1 r hr

lemma pairwise_locate (h : Exact idx) (key : KvBlockKey) : (idx.locate key).Pairwise Apart := by
  rw [locate]
  cases hentries : idx.entries.lookup key with
  | none => exact .nil
  | some entries => exact (h.records key entries hentries).2.2

lemma Exact.put (h : Exact idx) (r : CacheResidency) : Exact (idx.put r) := by
  have hmem : ∀ k, k ∈ (idx.put r).entries ↔ k ∈ idx.entries ∨ k = r.key := fun k =>
    (mem_insert _).trans or_comm
  refine ⟨(h.byHash.file r.key).congr hmem, (h.byContentHash.file r.key).congr hmem, fun key entries hkey => ?_⟩
  rcases eq_or_ne key r.key with rfl | hne
  · rw [MemoryIndex.put, lookup_insert] at hkey
    cases hkey
    have hold : ∀ r' ∈ (idx.entries.lookup r.key).getD [], r'.key = r.key := fun r' hr' => h.mem_locate hr'
    have hpairwise : ((idx.entries.lookup r.key).getD []).Pairwise Apart := pairwise_locate h r.key
    refine ⟨by simp, fun r' hr' => ?_, pairwise_append.mpr ⟨hpairwise.filter _, pairwise_singleton _ _, ?_⟩⟩
    · rcases mem_append.mp hr' with hr' | hr'
      · exact hold r' (mem_of_mem_filter hr')
      · rw [mem_singleton.mp hr']
    · intro r' hr' r'' hr''
      cases mem_singleton.mp hr''
      have hapart := of_decide_eq_true (mem_filter.mp hr').2
      exact hapart
  · rw [MemoryIndex.put, lookup_insert_ne hne] at hkey
    exact h.records key entries hkey

lemma locate_put (r : CacheResidency) (key : KvBlockKey) : (idx.put r).locate key =
    if key = r.key then (idx.locate key).filter (fun entry => ¬(entry.workerId = r.workerId ∧ entry.tier = r.tier)) ++ [r]
    else idx.locate key := by
  rw [locate, MemoryIndex.put]
  split_ifs with hkey
  · rw [hkey, lookup_insert, getD_some, locate]
  · rw [lookup_insert_ne hkey, locate]

/-- The records of a key without those of a worker, if there are any left. -/
def prune (workerId : String) (entries : List CacheResidency) : Option (List CacheResidency) :=
  if (entries.filter fun entry => entry.workerId ≠ workerId).isEmpty then none
  else some (entries.filter fun entry => entry.workerId ≠ workerId)

lemma prune_getD (workerId : String) (entries : List CacheResidency) :
    (prune workerId entries).getD [] = entries.filter fun entry => entry.workerId ≠ workerId := by
  rw [prune]
  split_ifs with h
  · exact (List.isEmpty_iff.mp h).symm
  · rfl

variable {emptied : List KvBlockKey} {E : Table KvBlockKey (List CacheResidency)} {workerId : String}

lemma removeFrom_of_none {n : ℕ} (h : E.lookup key = none) :
    removeFrom workerId (E, n, emptied) key = (E, n, emptied) := by
  simp only [removeFrom, h]

variable {entries : List CacheResidency}

lemma removeFrom_of_emptied {n : ℕ} (h : E.lookup key = some entries) (hprune : prune workerId entries = none) :
    removeFrom workerId (E, n, emptied) key = (E.erase key, n + entries.length, emptied ++ [key]) := by
  rw [prune] at hprune
  split_ifs at hprune with hempty
  have hnil := List.isEmpty_iff.mp hempty
  simp only [removeFrom, h, hnil, isEmpty_nil, if_true, length_nil, Nat.sub_zero]

lemma removeFrom_of_kept {n : ℕ} {entries kept : List CacheResidency} (h : E.lookup key = some entries)
    (hprune : prune workerId entries = some kept) :
    removeFrom workerId (E, n, emptied) key = (E.insert key kept, n + (entries.length - kept.length), emptied) := by
  rw [prune] at hprune
  split_ifs at hprune with hempty
  cases hprune
  simp only [removeFrom, h, if_neg hempty]

lemma foldl_removeFrom {E E' : Table KvBlockKey (List CacheResidency)} {n : ℕ} {keys emptied : List KvBlockKey}
    (hkeys : keys.Nodup) (h : keys.foldl (removeFrom workerId) (E, 0, []) = (E', n, emptied)) :
    (∀ k, E'.lookup k = if k ∈ keys then (E.lookup k).bind (prune workerId) else E.lookup k) ∧
    (∀ k, k ∈ emptied ↔ k ∈ keys ∧ ∃ entries, E.lookup k = some entries ∧ prune workerId entries = none) ∧
    n + E'.total List.length = E.total List.length := by
  induction keys using List.reverseRecOn generalizing E' n emptied with
  | nil =>
    cases h
    simp
  | append_singleton keys key ih =>
    obtain ⟨hnodup, -, hdisj⟩ := nodup_append.mp hkeys
    have hkey : key ∉ keys := fun hk => hdisj key hk key (mem_singleton.mpr rfl) rfl
    rw [List.foldl_append, foldl_cons, foldl_nil] at h
    rcases hst : keys.foldl (removeFrom workerId) (E, 0, []) with ⟨E₁, n₁, emptied₁⟩
    obtain ⟨hlookup, hemptied, htotal⟩ := ih hnodup hst
    have hsame : E₁.lookup key = E.lookup key := by rw [hlookup, if_neg hkey]
    rw [hst] at h
    cases hentries : E.lookup key with
    | none =>
      rw [removeFrom_of_none (hsame.trans hentries)] at h
      cases h
      refine ⟨fun k => ?_, fun k => ?_, htotal⟩
      · rcases eq_or_ne k key with rfl | hne
        · simp [hsame, hentries]
        · simp [hlookup, hne]
      · rcases eq_or_ne k key with rfl | hne
        · simp [hemptied, hkey, hentries]
        · simp [hemptied, hne]
    | some entries =>
      have hcount := total_erase (hsame.trans hentries) List.length
      cases hprune : prune workerId entries with
      | none =>
        rw [removeFrom_of_emptied (hsame.trans hentries) hprune] at h
        cases h
        refine ⟨fun k => ?_, fun k => ?_, by omega⟩
        · rcases eq_or_ne k key with rfl | hne
          · simp [hentries, hprune]
          · simp [hne, lookup_erase_ne hne, hlookup]
        · rcases eq_or_ne k key with rfl | hne
          · simp [hentries, hprune]
          · simp [hemptied, hne]
      | some kept =>
        rw [removeFrom_of_kept (hsame.trans hentries) hprune] at h
        cases h
        have hle : kept.length ≤ entries.length := by
          have hkept := prune_getD workerId entries
          rw [hprune, getD_some] at hkept
          rw [hkept]
          exact length_filter_le _ _
        refine ⟨fun k => ?_, fun k => ?_, ?_⟩
        · rcases eq_or_ne k key with rfl | hne
          · simp [hentries, hprune]
          · simp [hne, lookup_insert_ne hne, hlookup]
        · rcases eq_or_ne k key with rfl | hne
          · simp [hemptied, hkey, hentries, hprune]
          · simp [hemptied, hne]
        · rw [total_insert_erase]
          omega

/-! ### Records of a worker go -/

/-- The records of `workerId` are gone from the keys of `chosen`, with the keys that have no other. -/
def PrunedTo (workerId : String) (chosen : KvBlockKey → Prop) [DecidablePred chosen] (idx idx' : MemoryIndex) : Prop :=
  ∀ k, idx'.entries.lookup k =
    if chosen k then (idx.entries.lookup k).bind (prune workerId) else idx.entries.lookup k

variable {idx' : MemoryIndex} {workerId : String} {chosen : KvBlockKey → Prop} [DecidablePred chosen]

lemma PrunedTo.locate (h : PrunedTo workerId chosen idx idx') (k : KvBlockKey) : idx'.locate k =
    if chosen k then (idx.locate k).filter fun entry => entry.workerId ≠ workerId else idx.locate k := by
  rw [MemoryIndex.locate, h k, MemoryIndex.locate]
  split_ifs
  · cases idx.entries.lookup k with
    | none => rfl
    | some entries => exact prune_getD workerId entries
  · rfl

lemma PrunedTo.mem (h : PrunedTo workerId chosen idx idx') (hemptied : ∀ k, k ∈ emptied ↔
      chosen k ∧ ∃ entries, idx.entries.lookup k = some entries ∧ prune workerId entries = none) (k : KvBlockKey) :
    k ∈ idx'.entries ↔ k ∈ idx.entries ∧ k ∉ emptied := by
  rw [hemptied, ← lookup_isSome, ← lookup_isSome, h k]
  by_cases hk : chosen k
  · cases hentries : idx.entries.lookup k with
    | none => simp
    | some entries => simp [hk, isSome_iff_ne_none]
  · simp [hk]

lemma PrunedTo.records (h : PrunedTo workerId chosen idx idx') (hidx : Exact idx) (key : KvBlockKey)
    (entries : List CacheResidency) (hentries : idx'.entries.lookup key = some entries) :
    entries ≠ [] ∧ (∀ r ∈ entries, r.key = key) ∧ entries.Pairwise Apart := by
  rw [h key] at hentries
  split_ifs at hentries
  · obtain ⟨old, hold, hprune⟩ := bind_eq_some_iff.mp hentries
    obtain ⟨-, hkeys, hpairwise⟩ := hidx.records key old hold
    rw [prune] at hprune
    split_ifs at hprune with hempty
    cases hprune
    exact ⟨fun hnil => hempty (List.isEmpty_iff.mpr hnil), fun r hr => hkeys r (mem_of_mem_filter hr),
      hpairwise.filter _⟩
  · exact hidx.records key entries hentries

lemma PrunedTo.exact (h : PrunedTo workerId chosen idx idx') (hidx : Exact idx) (hemptied : ∀ k, k ∈ emptied ↔
      chosen k ∧ ∃ entries, idx.entries.lookup k = some entries ∧ prune workerId entries = none)
    (hhash : Buckets.Exact hashBucket (fun k => k ∈ idx.entries ∧ k ∉ emptied) idx'.byHash)
    (hcontent : Buckets.Exact KvBlockKey.blockHash (fun k => k ∈ idx.entries ∧ k ∉ emptied) idx'.byContentHash) :
    Exact idx' :=
  ⟨hhash.congr (h.mem hemptied), hcontent.congr (h.mem hemptied), h.records hidx⟩

variable {scope : IdentityScope} {blockHash : String} {n : ℕ}

lemma removeBlock_spec (hidx : Exact idx) (h : idx.removeBlock scope workerId blockHash = (n, idx')) :
    PrunedTo workerId (fun k => hashBucket k = (scope, blockHash)) idx idx' ∧ Exact idx' ∧
      n + idx'.len = idx.len := by
  rw [removeBlock] at h
  cases hbucket : idx.byHash.lookup (scope, blockHash) with
  | none =>
    simp only [hbucket] at h
    cases h
    refine ⟨fun k => ?_, hidx, Nat.zero_add _⟩
    split_ifs with hk
    · have hnone : idx.entries.lookup k = none := by
        rw [lookup_eq_none]
        intro hmem
        have hfiled := hidx.byHash.filed k hmem
        rw [hk] at hfiled
        exact lookup_eq_none.mp hbucket hfiled
      rw [hnone, bind_none]
    · rfl
  | some candidates =>
    obtain ⟨-, hnodup, hmem⟩ := hidx.byHash.bucket _ candidates hbucket
    rcases hst : candidates.foldl (removeFrom workerId) (idx.entries, 0, []) with ⟨E', n', emptied⟩
    obtain ⟨hlookup, hemptied, htotal⟩ := foldl_removeFrom hnodup hst
    simp only [hbucket, hst] at h
    -- keys that are not candidates have no records, or another bucket
    have hpruned : ∀ k, E'.lookup k = if hashBucket k = (scope, blockHash)
        then (idx.entries.lookup k).bind (prune workerId) else idx.entries.lookup k := by
      intro k
      rw [hlookup]
      by_cases hk : hashBucket k = (scope, blockHash)
      · by_cases hin : k ∈ idx.entries
        · rw [if_pos ((hmem k).mpr ⟨hin, hk⟩), if_pos hk]
        · rw [if_neg fun h => hin ((hmem k).mp h).1, if_pos hk, lookup_eq_none.mpr hin, bind_none]
      · rw [if_neg fun h => hk ((hmem k).mp h).2, if_neg hk]
    have hgone : ∀ k, k ∈ emptied ↔ hashBucket k = (scope, blockHash) ∧
        ∃ entries, idx.entries.lookup k = some entries ∧ prune workerId entries = none := by
      intro k
      rw [hemptied, hmem]
      constructor
      · rintro ⟨⟨-, hk⟩, hentries⟩
        exact ⟨hk, hentries⟩
      · rintro ⟨hk, entries, hentries, hprune⟩
        exact ⟨⟨mem_iff_exists_lookup.mpr ⟨entries, hentries⟩, hk⟩, entries, hentries, hprune⟩
    cases h
    split_ifs with hempty
    · have hnil := List.isEmpty_iff.mp hempty
      rw [hnil] at hgone
      have hnone : ∀ k, k ∈ idx.entries ∧ k ∉ ([] : List KvBlockKey) ↔ k ∈ idx.entries := fun k => by simp
      exact ⟨hpruned, PrunedTo.exact hpruned hidx hgone (hidx.byHash.congr hnone) (hidx.byContentHash.congr hnone),
        htotal⟩
    · refine ⟨hpruned, PrunedTo.exact hpruned hidx hgone ?_ (hidx.byContentHash.foldl_drop emptied), htotal⟩
      exact hidx.byHash.drop fun k hk => ((hgone k).mp hk).1

lemma clearWorker_spec (hidx : Exact idx) :
    PrunedTo workerId (fun _ => True) idx (idx.clearWorker workerId) ∧ Exact (idx.clearWorker workerId) := by
  have hpruned : PrunedTo workerId (fun _ => True) idx (idx.clearWorker workerId) := by
    intro k
    simp only [clearWorker, lookup_retain, lookup_mapEntries, if_true]
    cases idx.entries.lookup k with
    | none => rfl
    | some entries =>
      rw [map_some, filter_some, bind_some, prune]
      cases (entries.filter fun entry => entry.workerId ≠ workerId).isEmpty <;> rfl
  refine ⟨hpruned, hpruned.exact hidx (fun k => ?_) (hidx.byHash.foldl_drop _) (hidx.byContentHash.foldl_drop _)⟩
  simp only [List.mem_map, mem_filter]
  constructor
  · rintro ⟨e, ⟨he, hempty⟩, rfl⟩
    have hlookup := mem_lookup_iff.mpr he
    rw [lookup_mapEntries] at hlookup
    obtain ⟨entries, hentries, heq⟩ := map_eq_some_iff.mp hlookup
    refine ⟨trivial, entries, hentries, ?_⟩
    rw [prune, heq, if_pos hempty]
  · rintro ⟨-, entries, hentries, hprune⟩
    rw [prune] at hprune
    split_ifs at hprune with hempty
    refine ⟨⟨k, entries.filter fun entry => entry.workerId ≠ workerId⟩, ⟨?_, hempty⟩, rfl⟩
    refine mem_lookup_iff.mp ?_
    rw [lookup_mapEntries, hentries, map_some]
    rfl

/-! ## Indexed and scanned -/

lemma mem_snapshot (h : Exact idx) : r ∈ idx.snapshot ↔ r ∈ idx.locate r.key := by
  simp only [snapshot, mem_flatten, mem_values, MemoryIndex.locate]
  constructor
  · rintro ⟨entries, ⟨k, hk⟩, hr⟩
    rw [(h.records k entries hk).2.1 r hr, hk]
    exact hr
  · intro hr
    cases hentries : idx.entries.lookup r.key with
    | none =>
      rw [hentries] at hr
      cases hr
    | some entries =>
      rw [hentries] at hr
      exact ⟨entries, ⟨r.key, hentries⟩, hr⟩

lemma nodup_of_pairwise (h : entries.Pairwise Apart) : entries.Nodup := by
  refine h.imp ?_
  rintro r _ hapart rfl
  exact hapart ⟨rfl, rfl⟩

lemma nodup_snapshot (h : Exact idx) : idx.snapshot.Nodup := by
  rw [snapshot, nodup_flatten]
  refine ⟨fun entries hentries => ?_, ?_⟩
  · obtain ⟨k, hk⟩ := mem_values.mp hentries
    exact nodup_of_pairwise (h.records k entries hk).2.2
  · rw [AList.values, pairwise_map]
    have hkeys : (idx.entries.entries.map Sigma.fst).Nodup := idx.entries.nodupKeys
    refine (pairwise_map.mp hkeys).imp_of_mem fun {a b} ha hb hne => ?_
    rw [disjoint_left]
    intro r hra hrb
    have hka := (h.records a.1 a.2 (mem_lookup_iff.mpr ha)).2.1 r hra
    have hkb := (h.records b.1 b.2 (mem_lookup_iff.mpr hb)).2.1 r hrb
    exact hne (hka.symm.trans hkb)

lemma length_snapshot (idx : MemoryIndex) : idx.snapshot.length = idx.len := by
  rw [snapshot, length_flatten, len, AList.total]

lemma filter_records_of_key {key key' : KvBlockKey} (h : ∀ r ∈ entries, r.key = key') :
    (entries.filter fun r => r.key = key) = if key' = key then entries else [] := by
  split_ifs with hkey
  · exact filter_eq_self.mpr fun r hr => decide_eq_true ((h r hr).trans hkey)
  · refine filter_eq_nil_iff.mpr fun r hr hr' => hkey ?_
    rw [← h r hr]
    exact of_decide_eq_true hr'

lemma flatMap_ite_eq_dlookup {l : List (Σ _ : KvBlockKey, List CacheResidency)} (h : l.NodupKeys) (key : KvBlockKey) :
    (l.flatMap fun e => if e.1 = key then e.2 else []) = (l.dlookup key).getD [] := by
  induction l with
  | nil => rfl
  | cons e l ih =>
    obtain ⟨hnotMem, hrest⟩ := nodupKeys_cons.mp h
    rw [flatMap_cons]
    by_cases hkey : e.1 = key
    · subst hkey
      have hnil : (l.flatMap fun e' => if e'.1 = e.1 then e'.2 else []) = [] := by
        refine flatMap_eq_nil_iff.mpr fun e' he' => if_neg fun heq => hnotMem ?_
        rw [← heq]
        exact mem_keys_of_mem he'
      rw [if_pos rfl, hnil, append_nil, dlookup_cons_eq, getD_some]
    · rw [if_neg hkey, nil_append, ih hrest, dlookup_cons_ne _ _ (Ne.symm hkey)]

lemma filter_snapshot (h : Exact idx) (key : KvBlockKey) :
    (idx.snapshot.filter fun r => r.key = key) = idx.locate key := by
  have hentries : ∀ e ∈ idx.entries.entries, (e.2.filter fun r => r.key = key) = if e.1 = key then e.2 else [] := by
    intro e he
    exact filter_records_of_key (h.records e.1 e.2 (mem_lookup_iff.mpr he)).2.1
  rw [snapshot, AList.values, ← flatMap_def, filter_flatMap, flatMap_congr hentries,
    flatMap_ite_eq_dlookup idx.entries.nodupKeys]
  rfl

lemma locate_perm_filter (h : Exact idx) (key : KvBlockKey) :
    (idx.locate key).Perm (idx.snapshot.filter fun r => r.key = key) := by
  rw [filter_snapshot h]

lemma prefixScan_eq_filter (h : Exact idx) (scope : IdentityScope) (prefixHash : String) :
    idx.prefixScan scope prefixHash =
      idx.snapshot.filter fun r => IdentityScope.fromKey r.key = scope ∧ r.key.prefixHash = prefixHash := by
  have hentries : ∀ e ∈ idx.entries.entries, ∀ r ∈ e.2, r.key = e.1 := fun e he =>
    (h.records e.1 e.2 (mem_lookup_iff.mpr he)).2.1
  rw [prefixScan, snapshot, AList.values, ← flatMap_def]
  generalize idx.entries.entries = l at hentries
  induction l with
  | nil => rfl
  | cons e l ih =>
    have hhead : e.2.filter (fun r => IdentityScope.fromKey r.key = scope ∧ r.key.prefixHash = prefixHash) =
        if scope.matches e.1 ∧ e.1.prefixHash = prefixHash then e.2 else [] := by
      split_ifs with hmatch
      · rw [IdentityScope.matches_iff] at hmatch
        refine filter_eq_self.mpr fun r hr => decide_eq_true ?_
        rw [hentries e mem_cons_self r hr]
        exact ⟨hmatch.1.symm, hmatch.2⟩
      · rw [IdentityScope.matches_iff] at hmatch
        refine filter_eq_nil_iff.mpr fun r hr hboth => hmatch ?_
        rw [decide_eq_true_iff, hentries e mem_cons_self r hr] at hboth
        exact ⟨hboth.1.symm, hboth.2⟩
    rw [filter_cons, flatMap_cons, filter_append, hhead,
      ← ih fun e he => hentries e (mem_cons_of_mem _ he)]
    by_cases hmatch : scope.matches e.1 ∧ e.1.prefixHash = prefixHash
    · simp [hmatch]
    · simp [hmatch]

lemma mem_snapshot_put (h : Exact idx) {r r' : CacheResidency} : r' ∈ (idx.put r).snapshot ↔
    r' = r ∨ r' ∈ idx.snapshot ∧ ¬(r'.key = r.key ∧ r'.workerId = r.workerId ∧ r'.tier = r.tier) := by
  rw [mem_snapshot (h.put r), mem_snapshot h, locate_put]
  by_cases hkey : r'.key = r.key
  · simp [hkey, or_comm, imp_iff_not_or]
  · have hne : r' ≠ r := fun heq => hkey (heq ▸ rfl)
    simp [hkey, hne]

lemma snapshot_perm_filter (h : Exact idx) (h' : Exact idx') {p : CacheResidency → Bool}
    (hlocate : ∀ k, idx'.locate k = (idx.locate k).filter p) : idx'.snapshot.Perm (idx.snapshot.filter p) := by
  refine (perm_ext_iff_of_nodup (nodup_snapshot h') ((nodup_snapshot h).filter _)).mpr fun r => ?_
  rw [mem_snapshot h', hlocate, mem_filter, mem_filter, mem_snapshot h]

lemma hashBucket_eq_iff {k : KvBlockKey} :
    hashBucket k = (scope, blockHash) ↔ IdentityScope.fromKey k = scope ∧ k.blockHash = blockHash := Prod.mk_inj

lemma locate_removeBlock (hidx : Exact idx) (h : idx.removeBlock scope workerId blockHash = (n, idx'))
    (k : KvBlockKey) :
    idx'.locate k = (idx.locate k).filter fun r => ¬Evicts scope workerId blockHash r := by
  rw [(removeBlock_spec hidx h).1.locate k]
  split_ifs with hk
  · refine filter_congr fun r hr => ?_
    have hkey := hashBucket_eq_iff.mp hk
    rw [← hidx.mem_locate hr] at hkey
    simp only [Evicts, hkey, true_and, ne_eq]
  · refine (filter_eq_self.mpr fun r hr => decide_eq_true ?_).symm
    rintro ⟨hscope, hhash, -⟩
    rw [hidx.mem_locate hr] at hscope hhash
    exact hk (hashBucket_eq_iff.mpr ⟨hscope, hhash⟩)

lemma locate_clearWorker (hidx : Exact idx) (k : KvBlockKey) :
    (idx.clearWorker workerId).locate k = (idx.locate k).filter fun r => r.workerId ≠ workerId := by
  rw [((clearWorker_spec hidx).1).locate k, if_pos trivial]

lemma count_removeBlock (hidx : Exact idx) (h : idx.removeBlock scope workerId blockHash = (n, idx')) :
    n = (idx.snapshot.filter fun r => Evicts scope workerId blockHash r).length := by
  obtain ⟨-, hexact, hlen⟩ := removeBlock_spec hidx h
  have hperm := (snapshot_perm_filter hidx hexact (locate_removeBlock hidx h)).length_eq
  have hsplit := length_eq_length_filter_add (l := idx.snapshot) fun r =>
    decide (Evicts scope workerId blockHash r)
  rw [length_snapshot] at hperm hsplit
  simp only [decide_not] at hperm
  omega

lemma mem_snapshot_removeBlock (hidx : Exact idx) (h : idx.removeBlock scope workerId blockHash = (n, idx')) :
    r ∈ idx'.snapshot ↔ r ∈ idx.snapshot ∧ ¬Evicts scope workerId blockHash r := by
  rw [mem_snapshot (removeBlock_spec hidx h).2.1, mem_snapshot hidx, locate_removeBlock hidx h, mem_filter,
    decide_eq_true_iff]

lemma mem_snapshot_clearWorker (hidx : Exact idx) :
    r ∈ (idx.clearWorker workerId).snapshot ↔ r ∈ idx.snapshot ∧ r.workerId ≠ workerId := by
  rw [mem_snapshot (clearWorker_spec hidx).2, mem_snapshot hidx, locate_clearWorker hidx, mem_filter,
    decide_eq_true_iff]

lemma residencyByContentHash_perm (hidx : Exact idx) (blockHash : String) :
    (idx.residencyByContentHash blockHash).Perm (idx.snapshot.filter fun r => r.key.blockHash = blockHash) := by
  have heq : idx.residencyByContentHash blockHash =
      (((idx.byContentHash.lookup blockHash).getD []).filterMap fun key => idx.entries.lookup key).flatten := by
    rw [residencyByContentHash]
    cases idx.byContentHash.lookup blockHash <;> rfl
  have hkeys : ∀ k, k ∈ (idx.byContentHash.lookup blockHash).getD [] ↔ k ∈ idx.entries ∧ k.blockHash = blockHash :=
    fun k => hidx.byContentHash.mem_getD
  rw [heq]
  refine (perm_ext_iff_of_nodup ?_ ((nodup_snapshot hidx).filter _)).mpr fun r => ?_
  · rw [nodup_flatten]
    refine ⟨fun entries hentries => ?_, ?_⟩
    · obtain ⟨k, -, hk⟩ := mem_filterMap.mp hentries
      exact nodup_of_pairwise (hidx.records k entries hk).2.2
    · refine Pairwise.filterMap _ (fun a b hne x hx y hy => ?_) (hidx.byContentHash.nodup_getD blockHash)
      rw [disjoint_left]
      intro r hrx hry
      have hka := (hidx.records a x hx).2.1 r hrx
      have hkb := (hidx.records b y hy).2.1 r hry
      exact hne (hka.symm.trans hkb)
  · rw [mem_filter, mem_snapshot hidx, decide_eq_true_iff, mem_flatten]
    constructor
    · rintro ⟨entries, hentries, hr⟩
      obtain ⟨k, hk, hlookup⟩ := mem_filterMap.mp hentries
      have hkey := (hidx.records k entries hlookup).2.1 r hr
      rw [hkey, MemoryIndex.locate, hlookup]
      exact ⟨hr, ((hkeys k).mp hk).2⟩
    · rintro ⟨hr, hhash⟩
      rw [MemoryIndex.locate] at hr
      cases hentries : idx.entries.lookup r.key with
      | none =>
        rw [hentries] at hr
        cases hr
      | some entries =>
        rw [hentries] at hr
        refine ⟨entries, mem_filterMap.mpr ⟨r.key, ?_, hentries⟩, hr⟩
        exact (hkeys _).mpr ⟨mem_iff_exists_lookup.mpr ⟨entries, hentries⟩, hhash⟩

end exact

/-! ## Runs -/

/-- The same index, with other iteration orders of its maps and sets. -/
structure Shuffled (idx idx' : MemoryIndex) : Prop where
  entries : idx.entries.Shuffled idx'.entries
  byHash : ∀ b, Option.Rel List.Perm (idx.byHash.lookup b) (idx'.byHash.lookup b)
  byContentHash : ∀ b, Option.Rel List.Perm (idx.byContentHash.lookup b) (idx'.byContentHash.lookup b)

inductive Step : MemoryIndex → MemoryIndex → Prop where
  | op {idx : MemoryIndex} (op : IndexOp) : Step idx (op.run idx).2
  | shuffle {idx idx' : MemoryIndex} (h : Shuffled idx idx') : Step idx idx'

def Reachable (idx : MemoryIndex) : Prop := Relation.ReflTransGen Step {} idx

section runs

variable {idx idx' : MemoryIndex}

lemma exact_run (h : Exact idx) (op : IndexOp) : Exact (op.run idx).2 := by
  cases op with
  | put residency => exact h.put residency
  | removeBlock scope workerId blockHash => exact (removeBlock_spec h rfl).2.1
  | clearWorker workerId => exact (clearWorker_spec h).2
  | clear => exact exact_new

lemma exact_shuffled (h : Exact idx) (hs : Shuffled idx idx') : Exact idx' := by
  have hmem : ∀ k, k ∈ idx'.entries ↔ k ∈ idx.entries := fun k => by
    rw [← lookup_isSome, ← hs.entries.lookup_eq, lookup_isSome]
  refine ⟨(h.byHash.of_perm hs.byHash).congr hmem, (h.byContentHash.of_perm hs.byContentHash).congr hmem,
    fun key entries hkey => ?_⟩
  rw [← hs.entries.lookup_eq] at hkey
  exact h.records key entries hkey

lemma exact_reachable (h : Reachable idx) : Exact idx := by
  induction h with
  | refl => exact exact_new
  | tail _ hstep ih =>
    cases hstep with
    | op op => exact exact_run ih op
    | shuffle hs => exact exact_shuffled ih hs

lemma reachable_of_ops (ops : List IndexOp) : Reachable (ops.foldl (fun idx op => (op.run idx).2) {}) := by
  induction ops using List.reverseRecOn with
  | nil => exact .refl
  | append_singleton ops op ih =>
    rw [List.foldl_append]
    exact ih.tail (.op op)

/-- **The reverse indexes are exact**: in every state that calls of the index lead to, they hold exactly the keys
that have records, in non-empty buckets; a key has at most one record for each worker and tier; `remove_block`
leaves and counts what a filter of all records does; and `residency_by_content_hash` returns what a filter of the
snapshot does. -/
theorem indexed_as_scanned (idx : MemoryIndex) (h : Reachable idx) :
    Exact idx ∧
    (∀ scope workerId blockHash,
      Exact (idx.removeBlock scope workerId blockHash).2 ∧
      (∀ key, (idx.removeBlock scope workerId blockHash).2.locate key =
        (idx.locate key).filter fun r => ¬Evicts scope workerId blockHash r) ∧
      (idx.removeBlock scope workerId blockHash).2.snapshot.Perm
        (idx.snapshot.filter fun r => ¬Evicts scope workerId blockHash r) ∧
      (idx.removeBlock scope workerId blockHash).1 =
        (idx.snapshot.filter fun r => Evicts scope workerId blockHash r).length) ∧
    ∀ blockHash, (idx.residencyByContentHash blockHash).Perm
      (idx.snapshot.filter fun r => r.key.blockHash = blockHash) := by
  have hexact := exact_reachable h
  refine ⟨hexact, fun scope workerId blockHash => ?_, residencyByContentHash_perm hexact⟩
  have hremoved := (removeBlock_spec hexact (rfl : idx.removeBlock scope workerId blockHash = _)).2.1
  exact ⟨hremoved, locate_removeBlock hexact rfl,
    snapshot_perm_filter hexact hremoved (locate_removeBlock hexact rfl), count_removeBlock hexact rfl⟩

def threeRecords : List IndexOp :=
  [.put (.hbm "a" ⟨"m", "t", none, "u", "root", "h", 0, 16⟩ 1),
    .put (.hbm "b" ⟨"m", "t", none, "u", "root", "h", 0, 16⟩ 1),
    .put (.hbm "a" ⟨"m", "t", none, "u", "h", "g", 1, 16⟩ 1)]

theorem indexed_as_scanned_threeRecords :
    Exact (threeRecords.foldl (fun idx op => (op.run idx).2) {}) ∧
      ((threeRecords.foldl (fun idx op => (op.run idx).2) {} : MemoryIndex).removeBlock
        ⟨"m", "t", none, "u"⟩ "a" "h").1 = 1 := by
  refine ⟨(indexed_as_scanned _ (reachable_of_ops threeRecords)).1, ?_⟩
  decide +kernel

end runs

end MemoryIndex

end QuillCache.Core
