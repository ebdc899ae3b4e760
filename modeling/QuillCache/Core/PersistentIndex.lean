import QuillCache.Core.IndexKeys
import QuillCache.Store.Logs

/-!
# The persistent indexes

`HoltIndex` and `RocksIndex` keep the residency index in an ordered byte-string store. The two differ in how they go
through the keys of a query, and in what `remove_block` counts. What they share is written once, over a function
`seek` that returns the entries whose keys begin with a query.

As long as all strings are legal, the store holds a primary and a reverse entry for each record of the index in
memory and nothing else (`Stores`), and the three cannot be told apart (`persistent_as_memory`). Otherwise the
records of one identity can be found, deleted or overwritten under another one (`adapter_confused`).

Source: `index_holt.rs`.
-/

namespace QuillCache.Core

open Lib Store IndexKeys List

abbrev ByteMap := WordMap UInt8 (List UInt8)

/-! ## What the two backends share -/

namespace PersistentIndex

section shared

variable (json : Codec CacheResidency) (seek : List UInt8 → ByteMap → List (List UInt8 × List UInt8))

def put (r : CacheResidency) (m : ByteMap) : ByteMap :=
  (m.put (primaryKeyFor r) (json.encode r)).put (secondaryKeyFor r) (primaryKeyFor r)

def scanPrefix (front : List UInt8) (m : ByteMap) : List CacheResidency :=
  (seek front m).filterMap fun e => json.decode e.2

def workerEntries (workerId : String) (m : ByteMap) : List (List UInt8 × List UInt8) :=
  (seek [primary] m).filterMap fun e => (json.decode e.2).bind fun r =>
    if r.workerId = workerId then some (e.1, secondaryKeyFor r) else none

def clearWorker (workerId : String) (m : ByteMap) : ByteMap :=
  (workerEntries json seek workerId m).foldl (fun m e => (m.delete e.1).delete e.2) m

def clear (m : ByteMap) : ByteMap := (m.entries.map Prod.fst).foldl (fun m k => m.delete k) m

end shared

end PersistentIndex

/-! ## Holt -/

structure HoltIndex where
  tree : ByteMap := .empty

namespace HoltIndex

def removeBlock (scope : IdentityScope) (workerId blockHash : String) (self : HoltIndex) : ℕ × HoltIndex :=
  let (removed, tree) := (self.tree.scan (removeScanPrefix scope workerId blockHash)).foldl (fun st e =>
    (if st.2.has e.2 then st.1 + 1 else st.1, (st.2.delete e.2).delete e.1)) (0, self.tree)
  (removed, ⟨tree⟩)

/-- Source: `IndexBackend for HoltIndex` -/
@[reducible] def backend (json : Codec CacheResidency) : IndexBackend HoltIndex where
  put r self := ⟨PersistentIndex.put json r self.tree⟩
  locate key self := PersistentIndex.scanPrefix json WordMap.scan (locateFront key) self.tree
  prefixScan scope prefixHash self := PersistentIndex.scanPrefix json WordMap.scan (scanFront scope prefixHash) self.tree
  removeBlock := removeBlock
  clearWorker workerId self := ⟨PersistentIndex.clearWorker json WordMap.scan workerId self.tree⟩
  clear self := ⟨PersistentIndex.clear self.tree⟩
  snapshot self := PersistentIndex.scanPrefix json WordMap.scan [primary] self.tree
  len self := (self.tree.scan [primary]).length

end HoltIndex

/-! ## RocksDB -/

structure RocksIndex where
  db : ByteMap := .empty

namespace RocksIndex

/-- The loops over an iterator that starts at a query and stops at the first key that does not begin with it. -/
def seek (front : List UInt8) (m : ByteMap) : List (List UInt8 × List UInt8) :=
  (m.iterFrom front).takeWhile fun e => front <+: e.1

/-- A deletion succeeds whether or not there is such a key.
Source: `index_rocksdb.rs` `remove_block` -/
def removeBlock (scope : IdentityScope) (workerId blockHash : String) (self : RocksIndex) : ℕ × RocksIndex :=
  let (removed, db) := (seek (removeScanPrefix scope workerId blockHash) self.db).foldl (fun st e =>
    (st.1 + 1, (st.2.delete e.2).delete e.1)) (0, self.db)
  (removed, ⟨db⟩)

/-- Source: `index_rocksdb.rs` `IndexBackend for RocksIndex` -/
@[reducible] def backend (json : Codec CacheResidency) : IndexBackend RocksIndex where
  put r self := ⟨PersistentIndex.put json r self.db⟩
  locate key self := PersistentIndex.scanPrefix json seek (locateFront key) self.db
  prefixScan scope prefixHash self := PersistentIndex.scanPrefix json seek (scanFront scope prefixHash) self.db
  removeBlock := removeBlock
  clearWorker workerId self := ⟨PersistentIndex.clearWorker json seek workerId self.db⟩
  clear self := ⟨PersistentIndex.clear self.db⟩
  snapshot self := PersistentIndex.scanPrefix json seek [primary] self.db
  len self := (seek [primary] self.db).length

lemma seek_eq_scan : seek = WordMap.scan := funext fun front => funext fun m => m.takeWhile_iterFrom front

end RocksIndex

/-! ## What the store holds -/

namespace PersistentIndex

def Derived (json : Codec CacheResidency) (records : List CacheResidency) (m : ByteMap) : Prop :=
  ∀ e ∈ m.entries, ∃ r ∈ records, e = (primaryKeyFor r, json.encode r) ∨ e = (secondaryKeyFor r, primaryKeyFor r)

/-- A record that its slot in the store determines. -/
structure Regular (tokens : IdentityScope → String → String → ℕ → ℕ) (r : CacheResidency) : Prop where
  text : LegalRecord r
  counted : Counted tokens r.key

/-- The store has the two entries of each record of an index, and nothing else. -/
structure Stores (json : Codec CacheResidency) (tokens : IdentityScope → String → String → ℕ → ℕ) (m : ByteMap)
    (idx : MemoryIndex) : Prop where
  exact : idx.Exact
  regular : ∀ r ∈ idx.snapshot, Regular tokens r
  entries : ∀ e, e ∈ m.entries ↔
    ∃ r ∈ idx.snapshot, e = (primaryKeyFor r, json.encode r) ∨ e = (secondaryKeyFor r, primaryKeyFor r)

section derived

variable {json : Codec CacheResidency} {records : List CacheResidency} {m : ByteMap} {r : CacheResidency}

lemma encode_injective {r r' : CacheResidency} (h : json.encode r = json.encode r') : r = r' := by
  have hdecode := congrArg json.decode h
  rw [json.decode_encode, json.decode_encode] at hdecode
  exact Option.some.inj hdecode

lemma Derived.mem_of_entry (h : Derived json records m) (he : (primaryKeyFor r, json.encode r) ∈ m.entries) :
    r ∈ records := by
  obtain ⟨r', hr', heq | heq⟩ := h _ he
  · exact encode_injective (congrArg Prod.snd heq) ▸ hr'
  · exact absurd (congrArg Prod.fst heq) primaryKeyFor_ne_secondaryKeyFor

lemma Derived.mem_scan_primary (h : Derived json records m) {rest : List UInt8} {e : List UInt8 × List UInt8} :
    e ∈ m.scan (primary :: rest) ↔
      ∃ r, e ∈ m.entries ∧ e = (primaryKeyFor r, json.encode r) ∧ primary :: rest <+: primaryKeyFor r := by
  rw [WordMap.mem_scan]
  constructor
  · rintro ⟨he, hfront⟩
    obtain ⟨r, hr, rfl | rfl⟩ := h e he
    · exact ⟨r, he, rfl, hfront⟩
    · have htag : primary = secondary := (cons_prefix_cons.mp hfront).1
      exact absurd htag (by decide)
  · rintro ⟨r, he, rfl, hfront⟩
    exact ⟨he, hfront⟩

lemma Derived.mem_scan_secondary (h : Derived json records m) {rest : List UInt8} {e : List UInt8 × List UInt8} :
    e ∈ m.scan (secondary :: rest) ↔ ∃ r ∈ records, e ∈ m.entries ∧ e = (secondaryKeyFor r, primaryKeyFor r) ∧
      secondary :: rest <+: secondaryKeyFor r := by
  rw [WordMap.mem_scan]
  constructor
  · rintro ⟨he, hfront⟩
    obtain ⟨r, hr, rfl | rfl⟩ := h e he
    · have htag : secondary = primary := (cons_prefix_cons.mp hfront).1
      exact absurd htag (by decide)
    · exact ⟨r, hr, he, rfl, hfront⟩
  · rintro ⟨r, hr, he, rfl, hfront⟩
    exact ⟨he, hfront⟩

lemma Derived.mem_scanPrefix (h : Derived json records m) {rest : List UInt8} :
    r ∈ scanPrefix json WordMap.scan (primary :: rest) m ↔
      (primaryKeyFor r, json.encode r) ∈ m.entries ∧ primary :: rest <+: primaryKeyFor r := by
  rw [scanPrefix, mem_filterMap]
  constructor
  · rintro ⟨e, he, hdecode⟩
    obtain ⟨r', hr', rfl, hfront⟩ := h.mem_scan_primary.mp he
    rw [json.decode_encode] at hdecode
    cases hdecode
    exact ⟨hr', hfront⟩
  · rintro ⟨he, hfront⟩
    exact ⟨_, h.mem_scan_primary.mpr ⟨r, he, rfl, hfront⟩, json.decode_encode r⟩

end derived

section stores

variable {json : Codec CacheResidency} {tokens : IdentityScope → String → String → ℕ → ℕ} {m m' : ByteMap}
  {idx idx' : MemoryIndex} {r r' : CacheResidency}

lemma stores_empty : Stores json tokens .empty {} := by
  refine ⟨MemoryIndex.exact_new, nofun, fun e => ?_⟩
  constructor
  · nofun
  · rintro ⟨r, hr, -⟩
    cases hr

lemma sameSlot_iff (hr : Counted tokens r.key) (hr' : Counted tokens r'.key) :
    SameSlot r r' ↔ r.key = r'.key ∧ r.workerId = r'.workerId ∧ r.tier = r'.tier := by
  constructor
  · rintro ⟨hkey, hworker, htier⟩
    exact ⟨hkey.eq hr hr', hworker, htier⟩
  · rintro ⟨hkey, hworker, htier⟩
    exact ⟨hkey ▸ .refl _, hworker, htier⟩

lemma Regular.primary_iff (hr : Regular tokens r) (hr' : Regular tokens r') :
    primaryKeyFor r = primaryKeyFor r' ↔ r.key = r'.key ∧ r.workerId = r'.workerId ∧ r.tier = r'.tier :=
  (primaryKeyFor_eq_iff hr.text hr'.text).trans (sameSlot_iff hr.counted hr'.counted)

lemma Regular.secondary_iff (hr : Regular tokens r) (hr' : Regular tokens r') :
    secondaryKeyFor r = secondaryKeyFor r' ↔ r.key = r'.key ∧ r.workerId = r'.workerId ∧ r.tier = r'.tier :=
  (secondaryKeyFor_eq_iff hr.text hr'.text).trans (sameSlot_iff hr.counted hr'.counted)

lemma eq_of_slot (h : idx.Exact) (hr : r ∈ idx.snapshot) (hr' : r' ∈ idx.snapshot)
    (hslot : r.key = r'.key ∧ r.workerId = r'.workerId ∧ r.tier = r'.tier) : r = r' := by
  obtain ⟨hkey, hworker, htier⟩ := hslot
  rw [MemoryIndex.mem_snapshot h] at hr hr'
  rw [← hkey] at hr'
  by_contra hne
  exact (MemoryIndex.pairwise_locate h r.key).forall hr hr' hne ⟨hworker, htier⟩

lemma Stores.eq_of_primary (h : Stores json tokens m idx) (hr : r ∈ idx.snapshot) (hr' : r' ∈ idx.snapshot)
    (heq : primaryKeyFor r = primaryKeyFor r') : r = r' :=
  eq_of_slot h.exact hr hr' (((h.regular r hr).primary_iff (h.regular r' hr')).mp heq)

lemma Stores.eq_of_secondary (h : Stores json tokens m idx) (hr : r ∈ idx.snapshot) (hr' : r' ∈ idx.snapshot)
    (heq : secondaryKeyFor r = secondaryKeyFor r') : r = r' :=
  eq_of_slot h.exact hr hr' (((h.regular r hr).secondary_iff (h.regular r' hr')).mp heq)

lemma Stores.derived (h : Stores json tokens m idx) : Derived json idx.snapshot m := fun e => (h.entries e).mp

variable {rest : List UInt8} {e : List UInt8 × List UInt8}

lemma Stores.mem_scan_primary (h : Stores json tokens m idx) :
    e ∈ m.scan (primary :: rest) ↔
      ∃ r ∈ idx.snapshot, e = (primaryKeyFor r, json.encode r) ∧ primary :: rest <+: primaryKeyFor r := by
  rw [h.derived.mem_scan_primary]
  constructor
  · rintro ⟨r, he, rfl, hfront⟩
    exact ⟨r, h.derived.mem_of_entry he, rfl, hfront⟩
  · rintro ⟨r, hr, rfl, hfront⟩
    exact ⟨r, (h.entries _).mpr ⟨r, hr, .inl rfl⟩, rfl, hfront⟩

lemma Stores.mem_scan_secondary (h : Stores json tokens m idx) :
    e ∈ m.scan (secondary :: rest) ↔
      ∃ r ∈ idx.snapshot, e = (secondaryKeyFor r, primaryKeyFor r) ∧ secondary :: rest <+: secondaryKeyFor r := by
  rw [h.derived.mem_scan_secondary]
  constructor
  · rintro ⟨r, hr, -, rfl, hfront⟩
    exact ⟨r, hr, rfl, hfront⟩
  · rintro ⟨r, hr, rfl, hfront⟩
    exact ⟨r, hr, (h.entries _).mpr ⟨r, hr, .inr rfl⟩, rfl, hfront⟩

/-! ## Queries -/

lemma Stores.mem_scanPrefix (h : Stores json tokens m idx) :
    r ∈ scanPrefix json WordMap.scan (primary :: rest) m ↔ r ∈ idx.snapshot ∧ primary :: rest <+: primaryKeyFor r := by
  rw [h.derived.mem_scanPrefix]
  exact and_congr_left fun _ => ⟨h.derived.mem_of_entry, fun hr => (h.entries _).mpr ⟨r, hr, .inl rfl⟩⟩

lemma Stores.nodup_scanPrefix (h : Stores json tokens m idx) :
    (scanPrefix json WordMap.scan (primary :: rest) m).Nodup := by
  rw [scanPrefix, List.Nodup, pairwise_filterMap]
  refine (m.pairwise_ne.filter _).imp_of_mem fun {e e'} he he' hne r hr r' hr' heq => hne ?_
  obtain ⟨r₁, -, rfl, -⟩ := h.mem_scan_primary.mp he
  obtain ⟨r₂, -, rfl, -⟩ := h.mem_scan_primary.mp he'
  rw [json.decode_encode] at hr hr'
  cases hr
  cases hr'
  rw [heq]

/-- **A query finds the records that it is the beginning of.** -/
lemma Stores.scanPrefix_perm (h : Stores json tokens m idx) {p : CacheResidency → Bool}
    (hp : ∀ r, Regular tokens r → (primary :: rest <+: primaryKeyFor r ↔ p r = true)) :
    (scanPrefix json WordMap.scan (primary :: rest) m).Perm (idx.snapshot.filter p) := by
  refine (perm_ext_iff_of_nodup h.nodup_scanPrefix ((MemoryIndex.nodup_snapshot h.exact).filter _)).mpr fun r => ?_
  rw [h.mem_scanPrefix, mem_filter]
  exact and_congr_right fun hr => hp r (h.regular r hr)

/-! ## Changes -/

lemma Stores.put (h : Stores json tokens m idx) (hr : Regular tokens r) :
    Stores json tokens (put json r m) (idx.put r) := by
  have hregular : ∀ r' ∈ (idx.put r).snapshot, Regular tokens r' := by
    intro r' hr'
    rcases (MemoryIndex.mem_snapshot_put h.exact).mp hr' with rfl | ⟨hr', -⟩
    · exact hr
    · exact h.regular r' hr'
  refine ⟨h.exact.put r, hregular, fun e => ?_⟩
  rw [PersistentIndex.put, WordMap.mem_put, WordMap.mem_put, h.entries]
  constructor
  · rintro (rfl | ⟨rfl | ⟨⟨r', hr', he⟩, hne⟩, hne'⟩)
    · exact ⟨r, (MemoryIndex.mem_snapshot_put h.exact).mpr (.inl rfl), .inr rfl⟩
    · exact ⟨r, (MemoryIndex.mem_snapshot_put h.exact).mpr (.inl rfl), .inl rfl⟩
    · -- an entry of another slot
      refine ⟨r', (MemoryIndex.mem_snapshot_put h.exact).mpr (.inr ⟨hr', fun hslot => ?_⟩), he⟩
      rcases he with rfl | rfl
      · exact hne (((h.regular r' hr').primary_iff hr).mpr hslot)
      · exact hne' (((h.regular r' hr').secondary_iff hr).mpr hslot)
  · rintro ⟨r', hr', he⟩
    rcases (MemoryIndex.mem_snapshot_put h.exact).mp hr' with rfl | ⟨hr', hslot⟩
    · rcases he with rfl | rfl
      · exact .inr ⟨.inl rfl, primaryKeyFor_ne_secondaryKeyFor⟩
      · exact .inl rfl
    · refine .inr ⟨.inr ⟨⟨r', hr', he⟩, ?_⟩, ?_⟩
      · rcases he with rfl | rfl
        · exact fun heq => hslot (((h.regular r' hr').primary_iff hr).mp heq)
        · exact primaryKeyFor_ne_secondaryKeyFor.symm
      · rcases he with rfl | rfl
        · exact primaryKeyFor_ne_secondaryKeyFor
        · exact fun heq => hslot (((h.regular r' hr').secondary_iff hr).mp heq)

lemma Stores.drop (h : Stores json tokens m idx) {gone : CacheResidency → Prop} (hexact : idx'.Exact)
    (hidx : ∀ r, r ∈ idx'.snapshot ↔ r ∈ idx.snapshot ∧ ¬gone r)
    (hentries : ∀ e, e ∈ m'.entries ↔ e ∈ m.entries ∧
      ∀ r ∈ idx.snapshot, gone r → e.1 ≠ primaryKeyFor r ∧ e.1 ≠ secondaryKeyFor r) :
    Stores json tokens m' idx' := by
  refine ⟨hexact, fun r hr => h.regular r ((hidx r).mp hr).1, fun e => ?_⟩
  rw [hentries, h.entries]
  constructor
  · rintro ⟨⟨r, hr, he⟩, hkept⟩
    refine ⟨r, (hidx r).mpr ⟨hr, fun hgone => ?_⟩, he⟩
    rcases he with rfl | rfl
    · exact (hkept r hr hgone).1 rfl
    · exact (hkept r hr hgone).2 rfl
  · rintro ⟨r, hr, he⟩
    obtain ⟨hr, hstays⟩ := (hidx r).mp hr
    refine ⟨⟨r, hr, he⟩, fun r' hr' hgone => ?_⟩
    rcases he with rfl | rfl
    · exact ⟨fun heq => hstays (h.eq_of_primary hr hr' heq ▸ hgone), primaryKeyFor_ne_secondaryKeyFor⟩
    · exact ⟨primaryKeyFor_ne_secondaryKeyFor.symm, fun heq => hstays (h.eq_of_secondary hr hr' heq ▸ hgone)⟩

lemma mem_foldl_delete_pairs (pairs : List (List UInt8 × List UInt8)) {e : List UInt8 × List UInt8} :
    e ∈ (pairs.foldl (fun m p => (m.delete p.1).delete p.2) m).entries ↔
      e ∈ m.entries ∧ ∀ p ∈ pairs, e.1 ≠ p.1 ∧ e.1 ≠ p.2 := by
  induction pairs generalizing m with
  | nil => simp
  | cons p pairs ih =>
    rw [foldl_cons, ih, WordMap.mem_delete, WordMap.mem_delete, forall_mem_cons, and_assoc, and_assoc]
    tauto

lemma Stores.mem_workerEntries (h : Stores json tokens m idx) {workerId : String} {p : List UInt8 × List UInt8} :
    p ∈ workerEntries json WordMap.scan workerId m ↔
      ∃ r ∈ idx.snapshot, r.workerId = workerId ∧ p = (primaryKeyFor r, secondaryKeyFor r) := by
  rw [workerEntries, mem_filterMap]
  constructor
  · rintro ⟨e, he, hp⟩
    obtain ⟨r, hr, rfl, -⟩ := h.mem_scan_primary.mp he
    rw [json.decode_encode, Option.bind_some] at hp
    split_ifs at hp with hworker
    cases hp
    exact ⟨r, hr, hworker, rfl⟩
  · rintro ⟨r, hr, hworker, rfl⟩
    refine ⟨_, h.mem_scan_primary.mpr ⟨r, hr, rfl, cons_prefix_cons.mpr ⟨rfl, nil_prefix⟩⟩, ?_⟩
    rw [json.decode_encode, Option.bind_some, if_pos hworker]

lemma Stores.clearWorker (h : Stores json tokens m idx) (workerId : String) :
    Stores json tokens (clearWorker json WordMap.scan workerId m) (idx.clearWorker workerId) := by
  refine @Stores.drop _ _ _ _ _ _ h (fun r => r.workerId = workerId) (MemoryIndex.clearWorker_spec h.exact).2
    (fun r => MemoryIndex.mem_snapshot_clearWorker h.exact) fun e => ?_
  rw [PersistentIndex.clearWorker, mem_foldl_delete_pairs]
  refine and_congr_right fun _ => ⟨fun hall r hr hworker => ?_, fun hall p hp => ?_⟩
  · exact hall _ (h.mem_workerEntries.mpr ⟨r, hr, hworker, rfl⟩)
  · obtain ⟨r, hr, hworker, rfl⟩ := h.mem_workerEntries.mp hp
    exact hall r hr hworker

lemma stores_clear (m : ByteMap) : Stores json tokens (clear m) {} := by
  refine ⟨MemoryIndex.exact_new, nofun, fun e => ?_⟩
  rw [PersistentIndex.clear, WordMap.mem_foldl_delete]
  constructor
  · rintro ⟨he, hnot⟩
    exact absurd (mem_map_of_mem he) hnot
  · rintro ⟨r, hr, -⟩
    cases hr

lemma Stores.shuffled (h : Stores json tokens m idx) (hs : idx.Shuffled idx') : Stores json tokens m idx' := by
  have hexact := MemoryIndex.exact_shuffled h.exact hs
  have hmem : ∀ r, r ∈ idx'.snapshot ↔ r ∈ idx.snapshot := fun r => by
    rw [MemoryIndex.mem_snapshot hexact, MemoryIndex.mem_snapshot h.exact, MemoryIndex.locate, MemoryIndex.locate,
      hs.entries.lookup_eq]
  refine ⟨hexact, fun r hr => h.regular r ((hmem r).mp hr), fun e => ?_⟩
  simp only [hmem]
  exact h.entries e

/-! ## Removals -/

section removal

variable {scope : IdentityScope} {workerId blockHash : String}

lemma Stores.mem_removed (h : Stores json tokens m idx) (hscope : LegalScope scope) (hworker : NulFree workerId)
    (hhash : NulFree blockHash) {p : List UInt8 × List UInt8} :
    p ∈ m.scan (removeScanPrefix scope workerId blockHash) ↔
      ∃ r ∈ idx.snapshot, Evicts scope workerId blockHash r ∧ p = (secondaryKeyFor r, primaryKeyFor r) := by
  rw [removeScanPrefix, h.mem_scan_secondary]
  constructor
  · rintro ⟨r, hr, rfl, hfront⟩
    exact ⟨r, hr, (removeScanPrefix_prefix_iff hscope hworker hhash (h.regular r hr).text).mp hfront, rfl⟩
  · rintro ⟨r, hr, hevicts, rfl⟩
    exact ⟨r, hr, rfl, (removeScanPrefix_prefix_iff hscope hworker hhash (h.regular r hr).text).mpr hevicts⟩

lemma Stores.removed (h : Stores json tokens m idx) (hscope : LegalScope scope) (hworker : NulFree workerId)
    (hhash : NulFree blockHash) :
    Stores json tokens ((m.scan (removeScanPrefix scope workerId blockHash)).foldl
      (fun m p => (m.delete p.2).delete p.1) m) (idx.removeBlock scope workerId blockHash).2 := by
  refine @Stores.drop _ _ _ _ _ _ h (Evicts scope workerId blockHash) (MemoryIndex.removeBlock_spec h.exact rfl).2.1
    (fun r => MemoryIndex.mem_snapshot_removeBlock h.exact rfl) fun e => ?_
  have hswap := @mem_foldl_delete_pairs m
    ((m.scan (removeScanPrefix scope workerId blockHash)).map Prod.swap) e
  rw [foldl_map] at hswap
  refine hswap.trans (and_congr_right fun _ => ⟨fun hall r hr hevicts => ?_, fun hall p hp => ?_⟩)
  · exact hall _ (mem_map_of_mem ((h.mem_removed hscope hworker hhash).mpr ⟨r, hr, hevicts, rfl⟩))
  · obtain ⟨q, hq, rfl⟩ := mem_map.mp hp
    obtain ⟨r, hr, hevicts, rfl⟩ := (h.mem_removed hscope hworker hhash).mp hq
    exact hall r hr hevicts

lemma Stores.length_removed (h : Stores json tokens m idx) (hscope : LegalScope scope) (hworker : NulFree workerId)
    (hhash : NulFree blockHash) :
    (m.scan (removeScanPrefix scope workerId blockHash)).length = (idx.removeBlock scope workerId blockHash).1 := by
  have hnodup : ((idx.snapshot.filter fun r => Evicts scope workerId blockHash r).map fun r =>
      (secondaryKeyFor r, primaryKeyFor r)).Nodup := by
    refine ((MemoryIndex.nodup_snapshot h.exact).filter _).map_on fun r hr r' hr' heq => ?_
    exact h.eq_of_primary (mem_of_mem_filter hr) (mem_of_mem_filter hr') (congrArg Prod.snd heq)
  have hscan : (m.scan (removeScanPrefix scope workerId blockHash)).Nodup :=
    (m.pairwise_ne.filter _).imp fun hne heq => hne (congrArg Prod.fst heq)
  have hperm : (m.scan (removeScanPrefix scope workerId blockHash)).Perm
      ((idx.snapshot.filter fun r => Evicts scope workerId blockHash r).map fun r =>
        (secondaryKeyFor r, primaryKeyFor r)) := by
    refine (perm_ext_iff_of_nodup hscan hnodup).mpr fun p => ?_
    rw [h.mem_removed hscope hworker hhash, mem_map]
    simp only [mem_filter, decide_eq_true_eq]
    exact ⟨fun ⟨r, hr, hevicts, heq⟩ => ⟨r, ⟨hr, hevicts⟩, heq.symm⟩,
      fun ⟨r, ⟨hr, hevicts⟩, heq⟩ => ⟨r, hr, hevicts, heq.symm⟩⟩
  rw [hperm.length_eq, length_map]
  exact (MemoryIndex.count_removeBlock h.exact rfl).symm

lemma foldl_has {pairs : List (List UInt8 × List UInt8)} {n : ℕ} (hthere : ∀ p ∈ pairs, m.has p.2 = true)
    (hpairs : pairs.Pairwise fun p q => p.2 ≠ q.2) (hapart : ∀ p ∈ pairs, ∀ q ∈ pairs, p.2 ≠ q.1) :
    pairs.foldl (fun st e => (if st.2.has e.2 then st.1 + 1 else st.1, (st.2.delete e.2).delete e.1)) (n, m) =
      (n + pairs.length, pairs.foldl (fun m e => (m.delete e.2).delete e.1) m) := by
  induction pairs generalizing n m with
  | nil => rfl
  | cons p pairs ih =>
    obtain ⟨hhead, htail⟩ := pairwise_cons.mp hpairs
    rw [foldl_cons, if_pos (hthere p mem_cons_self), ih (fun q hq => ?_) htail fun q hq q' hq' =>
      hapart q (mem_cons_of_mem _ hq) q' (mem_cons_of_mem _ hq'), foldl_cons, length_cons,
      Nat.add_right_comm, Nat.add_assoc]
    obtain ⟨e, he, hkey⟩ := WordMap.has_iff.mp (hthere q (mem_cons_of_mem _ hq))
    refine WordMap.has_iff.mpr ⟨e, WordMap.mem_delete.mpr ⟨WordMap.mem_delete.mpr ⟨he, ?_⟩, ?_⟩, hkey⟩
    · exact hkey ▸ (hhead q hq).symm
    · exact hkey ▸ hapart q (mem_cons_of_mem _ hq) p mem_cons_self

lemma foldl_count (pairs : List (List UInt8 × List UInt8)) (n : ℕ) :
    pairs.foldl (fun st e => (st.1 + 1, (st.2.delete e.2).delete e.1)) (n, m) =
      (n + pairs.length, pairs.foldl (fun m e => (m.delete e.2).delete e.1) m) := by
  induction pairs generalizing n m with
  | nil => rfl
  | cons p pairs ih => rw [foldl_cons, ih, foldl_cons, length_cons, Nat.add_right_comm, Nat.add_assoc]

lemma removeBlock_holt (h : Stores json tokens m idx) (hscope : LegalScope scope) (hworker : NulFree workerId)
    (hhash : NulFree blockHash) : HoltIndex.removeBlock scope workerId blockHash ⟨m⟩ =
      ((idx.removeBlock scope workerId blockHash).1,
        ⟨(m.scan (removeScanPrefix scope workerId blockHash)).foldl (fun m e => (m.delete e.2).delete e.1) m⟩) := by
  have hmem := fun p => @Stores.mem_removed _ _ _ _ _ _ _ h hscope hworker hhash p
  have hthere : ∀ p ∈ m.scan (removeScanPrefix scope workerId blockHash), m.has p.2 = true := fun p hp => by
    obtain ⟨r, hr, -, rfl⟩ := (hmem p).mp hp
    exact WordMap.has_iff.mpr ⟨_, (h.entries _).mpr ⟨r, hr, .inl rfl⟩, rfl⟩
  have hpairs : (m.scan (removeScanPrefix scope workerId blockHash)).Pairwise fun p q => p.2 ≠ q.2 := by
    refine (m.pairwise_ne.filter _).imp_of_mem fun {p q} hp hq hne heq => hne ?_
    obtain ⟨r, hr, -, rfl⟩ := (hmem p).mp hp
    obtain ⟨r', hr', -, rfl⟩ := (hmem q).mp hq
    rw [h.eq_of_primary hr hr' heq]
  have hapart : ∀ p ∈ m.scan (removeScanPrefix scope workerId blockHash),
      ∀ q ∈ m.scan (removeScanPrefix scope workerId blockHash), p.2 ≠ q.1 := fun p hp q hq => by
    obtain ⟨r, -, -, rfl⟩ := (hmem p).mp hp
    obtain ⟨r', -, -, rfl⟩ := (hmem q).mp hq
    exact primaryKeyFor_ne_secondaryKeyFor
  rw [HoltIndex.removeBlock, foldl_has hthere hpairs hapart]
  simp only [Nat.zero_add, h.length_removed hscope hworker hhash]

lemma removeBlock_rocks (h : Stores json tokens m idx) (hscope : LegalScope scope) (hworker : NulFree workerId)
    (hhash : NulFree blockHash) : RocksIndex.removeBlock scope workerId blockHash ⟨m⟩ =
      ((idx.removeBlock scope workerId blockHash).1,
        ⟨(m.scan (removeScanPrefix scope workerId blockHash)).foldl (fun m e => (m.delete e.2).delete e.1) m⟩) := by
  rw [RocksIndex.removeBlock, RocksIndex.seek_eq_scan, foldl_count]
  simp only [Nat.zero_add, h.length_removed hscope hworker hhash]

end removal

end stores

/-! ## Runs -/

def LegalOp (tokens : IdentityScope → String → String → ℕ → ℕ) : IndexOp → Prop
  | .put r => Regular tokens r
  | .removeBlock scope workerId blockHash => LegalScope scope ∧ NulFree workerId ∧ NulFree blockHash
  | .clearWorker _ | .clear => True

/-- The states of the index in memory after these calls; its iteration orders may change at any time. -/
inductive Runs : List IndexOp → MemoryIndex → Prop where
  | start : Runs [] {}
  | call {ops : List IndexOp} {mem : MemoryIndex} (op : IndexOp) (h : Runs ops mem) : Runs (ops ++ [op]) (op.run mem).2
  | shuffle {ops : List IndexOp} {mem mem' : MemoryIndex} (hs : mem.Shuffled mem') (h : Runs ops mem) : Runs ops mem'

def after {I : Type} (B : IndexBackend I) (start : I) (ops : List IndexOp) : I :=
  ops.foldl (fun idx op => (op.run idx).2) start

lemma after_concat {I : Type} (B : IndexBackend I) (start : I) (ops : List IndexOp) (op : IndexOp) :
    after B start (ops ++ [op]) = (op.run (after B start ops)).2 := by
  rw [after, List.foldl_append]
  rfl

/-- No query that is asked in legal strings tells the two apart. -/
structure ObservedAs {I : Type} (B : IndexBackend I) (tokens : IdentityScope → String → String → ℕ → ℕ) (idx : I)
    (mem : MemoryIndex) : Prop where
  locate : ∀ key, LegalKey key → Counted tokens key → (B.locate key idx).Perm (mem.locate key)
  prefixScan : ∀ scope prefixHash, LegalScope scope → NulFree prefixHash →
    (B.prefixScan scope prefixHash idx).Perm (mem.prefixScan scope prefixHash)
  snapshot : (B.snapshot idx).Perm mem.snapshot
  removeBlock : ∀ scope workerId blockHash, LegalScope scope → NulFree workerId → NulFree blockHash →
    (B.removeBlock scope workerId blockHash idx).1 = (mem.removeBlock scope workerId blockHash).1
  len : B.len idx = mem.len

section runs

variable {json : Codec CacheResidency} {tokens : IdentityScope → String → String → ℕ → ℕ} {m : ByteMap}
  {idx mem : MemoryIndex} {ops : List IndexOp} {op : IndexOp}

lemma stores_run_holt (h : Stores json tokens m idx) (hop : LegalOp tokens op) :
    Stores json tokens (@IndexOp.run _ (HoltIndex.backend json) op ⟨m⟩).2.tree (op.run idx).2 := by
  cases op with
  | put r => exact h.put hop
  | removeBlock scope workerId blockHash =>
    obtain ⟨hscope, hworker, hhash⟩ := hop
    change Stores json tokens (HoltIndex.removeBlock scope workerId blockHash ⟨m⟩).2.tree _
    rw [removeBlock_holt h hscope hworker hhash]
    exact h.removed hscope hworker hhash
  | clearWorker workerId => exact h.clearWorker workerId
  | clear => exact stores_clear m

lemma stores_run_rocks (h : Stores json tokens m idx) (hop : LegalOp tokens op) :
    Stores json tokens (@IndexOp.run _ (RocksIndex.backend json) op ⟨m⟩).2.db (op.run idx).2 := by
  cases op with
  | put r => exact h.put hop
  | removeBlock scope workerId blockHash =>
    obtain ⟨hscope, hworker, hhash⟩ := hop
    change Stores json tokens (RocksIndex.removeBlock scope workerId blockHash ⟨m⟩).2.db _
    rw [removeBlock_rocks h hscope hworker hhash]
    exact h.removed hscope hworker hhash
  | clearWorker workerId =>
    have hstores := h.clearWorker workerId
    rwa [← RocksIndex.seek_eq_scan] at hstores
  | clear => exact stores_clear m

/-- **A store that follows the index in memory call by call holds its records.** -/
lemma stores_runs {I : Type} {B : IndexBackend I} {start : I} (map : I → ByteMap) (hstart : map start = .empty)
    (hrun : ∀ {i idx op}, Stores json tokens (map i) idx → LegalOp tokens op →
      Stores json tokens (map (op.run i).2) (op.run idx).2)
    (hlegal : ∀ op ∈ ops, LegalOp tokens op) (h : Runs ops mem) : Stores json tokens (map (after B start ops)) mem := by
  induction h with
  | start =>
    rw [after, foldl_nil, hstart]
    exact stores_empty
  | @call ops mem op _ ih =>
    obtain ⟨hops, hop⟩ := forall_mem_append.mp hlegal
    rw [after_concat]
    exact hrun (ih hops) (hop op (mem_singleton_self op))
  | shuffle hs _ ih => exact (ih hlegal).shuffled hs

lemma Stores.locate (h : Stores json tokens m idx) {key : KvBlockKey} (hkey : LegalKey key)
    (hcounted : Counted tokens key) :
    (scanPrefix json WordMap.scan (locateFront key) m).Perm (idx.locate key) := by
  refine (h.scanPrefix_perm fun r hr => ?_).trans (MemoryIndex.locate_perm_filter h.exact key).symm
  refine (locateFront_prefix_iff hkey hr.text).trans ?_
  rw [decide_eq_true_iff]
  exact ⟨fun hsame => (hsame.eq hcounted hr.counted).symm, fun heq => heq ▸ .refl _⟩

lemma Stores.prefixScan (h : Stores json tokens m idx) {scope : IdentityScope} {prefixHash : String}
    (hscope : LegalScope scope) (hhash : NulFree prefixHash) :
    (scanPrefix json WordMap.scan (scanFront scope prefixHash) m).Perm (idx.prefixScan scope prefixHash) := by
  rw [MemoryIndex.prefixScan_eq_filter h.exact]
  refine h.scanPrefix_perm fun r hr => (scanFront_prefix_iff hscope hhash hr.text).trans ?_
  rw [decide_eq_true_iff]

lemma Stores.snapshot (h : Stores json tokens m idx) :
    (scanPrefix json WordMap.scan [primary] m).Perm idx.snapshot := by
  have hperm : (scanPrefix json WordMap.scan [primary] m).Perm (idx.snapshot.filter fun _ => true) :=
    h.scanPrefix_perm fun r _ => iff_of_true (cons_prefix_cons.mpr ⟨rfl, nil_prefix⟩) rfl
  rwa [filter_true] at hperm

lemma Stores.len (h : Stores json tokens m idx) : (m.scan [primary]).length = idx.len := by
  have hall : (scanPrefix json WordMap.scan [primary] m).length = (m.scan [primary]).length := by
    rw [scanPrefix, filterMap_length_eq_length]
    intro e he
    obtain ⟨r, -, rfl, -⟩ := h.mem_scan_primary.mp he
    rw [json.decode_encode]
    rfl
  rw [← hall, h.snapshot.length_eq, MemoryIndex.length_snapshot]

lemma observed_holt (h : Stores json tokens m mem) : ObservedAs (HoltIndex.backend json) tokens ⟨m⟩ mem where
  locate _ hkey hcounted := h.locate hkey hcounted
  prefixScan _ _ hscope hhash := h.prefixScan hscope hhash
  snapshot := h.snapshot
  removeBlock _ _ _ hscope hworker hhash := congrArg Prod.fst (removeBlock_holt h hscope hworker hhash)
  len := h.len

lemma observed_rocks (h : Stores json tokens m mem) : ObservedAs (RocksIndex.backend json) tokens ⟨m⟩ mem := by
  refine ⟨fun key hkey hcounted => ?_, fun scope prefixHash hscope hhash => ?_, ?_,
    fun _ _ _ hscope hworker hhash => congrArg Prod.fst (removeBlock_rocks h hscope hworker hhash), ?_⟩
  · change (scanPrefix json RocksIndex.seek (locateFront key) m).Perm _
    rw [RocksIndex.seek_eq_scan]
    exact h.locate hkey hcounted
  · change (scanPrefix json RocksIndex.seek (scanFront scope prefixHash) m).Perm _
    rw [RocksIndex.seek_eq_scan]
    exact h.prefixScan hscope hhash
  · change (scanPrefix json RocksIndex.seek [primary] m).Perm _
    rw [RocksIndex.seek_eq_scan]
    exact h.snapshot
  · change (RocksIndex.seek [primary] m).length = _
    rw [RocksIndex.seek_eq_scan]
    exact h.len

/-- **The three indexes cannot be told apart**: after the same calls with legal strings and consistent token counts,
`locate`, `prefix_scan` and `snapshot` of either persistent index return the records that they return in memory, and
`remove_block` and `len` the same numbers. -/
theorem persistent_as_memory (json : Codec CacheResidency) (tokens : IdentityScope → String → String → ℕ → ℕ)
    (ops : List IndexOp) (hlegal : ∀ op ∈ ops, LegalOp tokens op) (mem : MemoryIndex) (h : Runs ops mem) :
    ObservedAs (HoltIndex.backend json) tokens (after (HoltIndex.backend json) {} ops) mem ∧
      ObservedAs (RocksIndex.backend json) tokens (after (RocksIndex.backend json) {} ops) mem :=
  ⟨observed_holt (stores_runs HoltIndex.tree rfl stores_run_holt hlegal h),
    observed_rocks (stores_runs RocksIndex.db rfl stores_run_rocks hlegal h)⟩

def tierCode : PrefixCode CacheTier :=
  PrefixCode.nat.iso (fun n => [CacheTier.hbm, .remoteHbm, .cpuDram, .localSsd, .objectStore].getD n .hbm)
    (fun
      | .hbm => 0
      | .remoteHbm => 1
      | .cpuDram => 2
      | .localSsd => 3
      | .objectStore => 4) fun t => by cases t <;> rfl

def residencyCodec : Codec CacheResidency :=
  PrefixCode.toCodec <| (blockKeyCode.pair (PrefixCode.string.pair (tierCode.pair
    (PrefixCode.nat.pair (PrefixCode.nat.pair (PrefixCode.nat.pair PrefixCode.bool)))))).iso
    (fun x => ⟨x.1, x.2.1, x.2.2.1, x.2.2.2.1, x.2.2.2.2.1, x.2.2.2.2.2.1, x.2.2.2.2.2.2⟩)
    (fun r => (r.key, r.workerId, r.tier, r.bytes, r.lastAccessMs, r.refCount, r.pinned)) fun _ => rfl

def plainKey : KvBlockKey := ⟨"m", "t", none, "u", "root", "h", 0, 16⟩

def putAndCleared : List IndexOp := [.put (.hbm "a" plainKey 1), .put (.hbm "b" plainKey 1), .clearWorker "b"]

lemma legalKey_plain : LegalKey plainKey :=
  ⟨⟨by decide +kernel, by decide +kernel, nofun, by decide +kernel⟩, by decide +kernel, by decide +kernel, by decide⟩

lemma legalRecord_plain {worker : String} (h : NulFree worker) : LegalRecord (.hbm worker plainKey 1) :=
  ⟨legalKey_plain, h⟩

lemma runs_ops (ops : List IndexOp) : Runs ops (ops.foldl (fun idx op => (op.run idx).2) {}) := by
  induction ops using List.reverseRecOn with
  | nil => exact .start
  | append_singleton ops op ih =>
    rw [List.foldl_append]
    exact .call op ih

theorem persistent_as_memory_putAndCleared :
    ((HoltIndex.backend residencyCodec).locate plainKey
      (after (HoltIndex.backend residencyCodec) {} putAndCleared)).Perm [.hbm "a" plainKey 1] := by
  have hlegal : ∀ op ∈ putAndCleared, LegalOp (fun _ _ _ _ => 16) op := by
    simp only [putAndCleared, forall_mem_cons, not_mem_nil, false_imp_iff, implies_true, and_true]
    exact ⟨⟨legalRecord_plain (by decide +kernel), rfl⟩, ⟨legalRecord_plain (by decide +kernel), rfl⟩, trivial⟩
  have hlocate := (persistent_as_memory residencyCodec _ putAndCleared hlegal _ (runs_ops putAndCleared)).1.locate
    plainKey legalKey_plain rfl
  have hmem : ((putAndCleared.foldl (fun idx op => (op.run idx).2) {} : MemoryIndex).locate plainKey) =
      [.hbm "a" plainKey 1] := by decide +kernel
  rwa [hmem] at hlocate

end runs

/-! ## Isolation -/

/-- What the queries of an index may return, and its changes remove, where these records were put. -/
structure Isolated {I : Type} (B : IndexBackend I) (puts : List CacheResidency) (idx : I) : Prop where
  locate : ∀ key, LegalKey key → (∀ r ∈ puts, SameBlock key r.key → r.key.tokenCount = key.tokenCount) →
    ∀ r ∈ B.locate key idx, r.key = key
  prefixScan : ∀ scope prefixHash, LegalScope scope → NulFree prefixHash → ∀ r ∈ B.prefixScan scope prefixHash idx,
    IdentityScope.fromKey r.key = scope ∧ r.key.prefixHash = prefixHash
  removeBlock : ∀ scope workerId blockHash, LegalScope scope → NulFree workerId → NulFree blockHash →
    ∀ r ∈ B.snapshot idx, ¬Evicts scope workerId blockHash r →
      r ∈ B.snapshot (B.removeBlock scope workerId blockHash idx).2
  put : ∀ r', LegalRecord r' → ∀ r ∈ B.snapshot idx, IdentityScope.fromKey r.key ≠ .fromKey r'.key →
    r ∈ B.snapshot (B.put r' idx)

section isolation

variable {json : Codec CacheResidency} {puts : List CacheResidency} {m : ByteMap} {r r' : CacheResidency}

lemma Derived.put (h : Derived json puts m) : Derived json (puts ++ [r]) (put json r m) := by
  intro e he
  have hlast : r ∈ puts ++ [r] := mem_append_right _ (mem_singleton_self r)
  rw [PersistentIndex.put, WordMap.mem_put, WordMap.mem_put] at he
  rcases he with rfl | ⟨rfl | ⟨he, -⟩, -⟩
  · exact ⟨r, hlast, .inr rfl⟩
  · exact ⟨r, hlast, .inl rfl⟩
  · obtain ⟨r', hr', he⟩ := h e he
    exact ⟨r', mem_append_left _ hr', he⟩

lemma derived_puts {I : Type} {B : IndexBackend I} {start : I} (map : I → ByteMap) (hstart : map start = .empty)
    (hput : ∀ i r, map (B.put r i) = put json r (map i)) :
    Derived json puts (map (after B start (puts.map .put))) := by
  induction puts using List.reverseRecOn with
  | nil =>
    rw [map_nil, after, foldl_nil, hstart]
    nofun
  | append_singleton puts r ih =>
    rw [map_append, map_singleton, after_concat]
    change Derived json _ (map (B.put r _))
    rw [hput]
    exact ih.put

lemma Derived.locate (h : Derived json puts m) (hlegal : ∀ r ∈ puts, LegalRecord r) {key : KvBlockKey}
    (hkey : LegalKey key) (htokens : ∀ r ∈ puts, SameBlock key r.key → r.key.tokenCount = key.tokenCount)
    (hr : r ∈ scanPrefix json WordMap.scan (locateFront key) m) : r.key = key := by
  obtain ⟨he, hfront⟩ := h.mem_scanPrefix.mp hr
  have hput := h.mem_of_entry he
  have hsame := (locateFront_prefix_iff hkey (hlegal r hput)).mp hfront
  exact (hsame.eq_of_tokenCount (htokens r hput hsame).symm).symm

lemma Derived.prefixScan (h : Derived json puts m) (hlegal : ∀ r ∈ puts, LegalRecord r) {scope : IdentityScope}
    {prefixHash : String} (hscope : LegalScope scope) (hhash : NulFree prefixHash)
    (hr : r ∈ scanPrefix json WordMap.scan (scanFront scope prefixHash) m) :
    IdentityScope.fromKey r.key = scope ∧ r.key.prefixHash = prefixHash := by
  obtain ⟨he, hfront⟩ := h.mem_scanPrefix.mp hr
  exact (scanFront_prefix_iff hscope hhash (hlegal r (h.mem_of_entry he))).mp hfront

lemma snd_foldl_deletes (count : ℕ × ByteMap → List UInt8 × List UInt8 → ℕ) (pairs : List (List UInt8 × List UInt8))
    (n : ℕ) : (pairs.foldl (fun st e => (count st e, (st.2.delete e.2).delete e.1)) (n, m)).2 =
      pairs.foldl (fun m e => (m.delete e.2).delete e.1) m := by
  induction pairs generalizing n m with
  | nil => rfl
  | cons p pairs ih => exact ih _

lemma Derived.removed (h : Derived json puts m) (hlegal : ∀ r ∈ puts, LegalRecord r) {scope : IdentityScope}
    {workerId blockHash : String} (hscope : LegalScope scope) (hworker : NulFree workerId) (hhash : NulFree blockHash)
    (hr : r ∈ scanPrefix json WordMap.scan [primary] m) (hstays : ¬Evicts scope workerId blockHash r) :
    r ∈ scanPrefix json WordMap.scan [primary]
      ((m.scan (removeScanPrefix scope workerId blockHash)).foldl (fun m e => (m.delete e.2).delete e.1) m) := by
  obtain ⟨he, hfront⟩ := h.mem_scanPrefix.mp hr
  have hentries := @mem_foldl_delete_pairs m ((m.scan (removeScanPrefix scope workerId blockHash)).map Prod.swap)
  simp only [foldl_map, Prod.fst_swap, Prod.snd_swap] at hentries
  have hderived : Derived json puts ((m.scan (removeScanPrefix scope workerId blockHash)).foldl
      (fun m e => (m.delete e.2).delete e.1) m) := fun e he => h e (hentries.mp he).1
  refine hderived.mem_scanPrefix.mpr ⟨hentries.mpr ⟨he, fun p hp => ?_⟩, hfront⟩
  obtain ⟨q, hq, rfl⟩ := mem_map.mp hp
  obtain ⟨r', hr', -, rfl, hfound⟩ := h.mem_scan_secondary.mp hq
  have hevicts := (removeScanPrefix_prefix_iff hscope hworker hhash (hlegal r' hr')).mp hfound
  refine ⟨fun heq => hstays ?_, primaryKeyFor_ne_secondaryKeyFor⟩
  -- the slot of a record that stays is not the one of a record that goes
  obtain ⟨hkey, hsame, -⟩ := (primaryKeyFor_eq_iff (hlegal r (h.mem_of_entry he)) (hlegal r' hr')).mp heq
  exact ⟨hkey.scope.trans hevicts.1, hkey.blockHash.trans hevicts.2.1, hsame.trans hevicts.2.2⟩

lemma Derived.kept_put (h : Derived json puts m) (hlegal : ∀ r ∈ puts, LegalRecord r) (hr' : LegalRecord r')
    (hr : r ∈ scanPrefix json WordMap.scan [primary] m) (hscope : IdentityScope.fromKey r.key ≠ .fromKey r'.key) :
    r ∈ scanPrefix json WordMap.scan [primary] (PersistentIndex.put json r' m) := by
  obtain ⟨he, hfront⟩ := h.mem_scanPrefix.mp hr
  refine h.put.mem_scanPrefix.mpr ⟨?_, hfront⟩
  rw [PersistentIndex.put, WordMap.mem_put, WordMap.mem_put]
  refine .inr ⟨.inr ⟨he, fun heq => hscope ?_⟩, primaryKeyFor_ne_secondaryKeyFor⟩
  exact ((primaryKeyFor_eq_iff (hlegal r (h.mem_of_entry he)) hr').mp heq).key.scope

lemma isolated_holt (h : Derived json puts m) (hlegal : ∀ r ∈ puts, LegalRecord r) :
    Isolated (HoltIndex.backend json) puts ⟨m⟩ where
  locate _ hkey htokens _ hr := h.locate hlegal hkey htokens hr
  prefixScan _ _ hscope hhash _ hr := h.prefixScan hlegal hscope hhash hr
  removeBlock scope workerId blockHash hscope hworker hhash r hr hstays := by
    have hmap : (HoltIndex.removeBlock scope workerId blockHash ⟨m⟩).2.tree = _ := snd_foldl_deletes _ _ 0
    change r ∈ scanPrefix json WordMap.scan [primary] (HoltIndex.removeBlock scope workerId blockHash ⟨m⟩).2.tree
    rw [hmap]
    exact h.removed hlegal hscope hworker hhash hr hstays
  put _ hr' _ hr hscope := h.kept_put hlegal hr' hr hscope

lemma isolated_rocks (h : Derived json puts m) (hlegal : ∀ r ∈ puts, LegalRecord r) :
    Isolated (RocksIndex.backend json) puts ⟨m⟩ := by
  refine ⟨fun key hkey htokens r hr => ?_, fun scope prefixHash hscope hhash r hr => ?_,
    fun scope workerId blockHash hscope hworker hhash r hr hstays => ?_, fun r' hr' r hr hscope => ?_⟩
  · change r ∈ scanPrefix json RocksIndex.seek (locateFront key) m at hr
    rw [RocksIndex.seek_eq_scan] at hr
    exact h.locate hlegal hkey htokens hr
  · change r ∈ scanPrefix json RocksIndex.seek (scanFront scope prefixHash) m at hr
    rw [RocksIndex.seek_eq_scan] at hr
    exact h.prefixScan hlegal hscope hhash hr
  · have hmap : (RocksIndex.removeBlock scope workerId blockHash ⟨m⟩).2.db = _ := snd_foldl_deletes _ _ 0
    change r ∈ scanPrefix json RocksIndex.seek [primary] m at hr
    change r ∈ scanPrefix json RocksIndex.seek [primary] (RocksIndex.removeBlock scope workerId blockHash ⟨m⟩).2.db
    rw [hmap]
    rw [RocksIndex.seek_eq_scan] at hr ⊢
    exact h.removed hlegal hscope hworker hhash hr hstays
  · change r ∈ scanPrefix json RocksIndex.seek [primary] m at hr
    change r ∈ scanPrefix json RocksIndex.seek [primary] (PersistentIndex.put json r' m)
    rw [RocksIndex.seek_eq_scan] at hr ⊢
    exact h.kept_put hlegal hr' hr hscope

/-- **Legal strings keep the identities apart**: after puts without NUL bytes and without empty adapters, a query in
such strings returns, deletes and overwrites only records of its own identity, and `locate` only those of its key if
the token count of this key is the one it was put with. -/
theorem identities_isolated (json : Codec CacheResidency) (puts : List CacheResidency)
    (hlegal : ∀ r ∈ puts, LegalRecord r) :
    Isolated (HoltIndex.backend json) puts (after (HoltIndex.backend json) {} (puts.map .put)) ∧
      Isolated (RocksIndex.backend json) puts (after (RocksIndex.backend json) {} (puts.map .put)) :=
  ⟨isolated_holt (derived_puts HoltIndex.tree rfl fun _ _ => rfl) hlegal,
    isolated_rocks (derived_puts RocksIndex.db rfl fun _ _ => rfl) hlegal⟩

theorem identities_isolated_plain :
    (((HoltIndex.backend residencyCodec).locate plainKey
      (after (HoltIndex.backend residencyCodec) {} [.put (.hbm "a" plainKey 1)])).all fun r => r.key = plainKey) =
      true := by
  have hlegal : ∀ r ∈ [CacheResidency.hbm "a" plainKey 1], LegalRecord r := by
    rw [forall_mem_singleton]
    exact legalRecord_plain (by decide +kernel)
  rw [all_eq_true]
  intro r hr
  apply decide_eq_true
  refine (identities_isolated residencyCodec _ hlegal).1.locate plainKey legalKey_plain ?_ r hr
  rw [forall_mem_singleton]
  intro _
  rfl

def emptyAdapterKey : KvBlockKey := { plainKey with adapterId := some "" }

/-- **No adapter and the empty adapter are one identity**: the record of a block under the one is located and scanned
under the other, removed under it and overwritten under it. -/
theorem adapter_confused :
    let B := HoltIndex.backend residencyCodec
    let idx := after B {} [.put (.hbm "a" emptyAdapterKey 1)]
    emptyAdapterKey ≠ plainKey ∧
    B.locate plainKey idx = [.hbm "a" emptyAdapterKey 1] ∧
    B.prefixScan (.fromKey plainKey) "root" idx = [.hbm "a" emptyAdapterKey 1] ∧
    B.snapshot (B.removeBlock (.fromKey plainKey) "a" "h" idx).2 = [] ∧
    B.snapshot (B.put (.hbm "a" plainKey 1) idx) = [.hbm "a" plainKey 1] := by
  decide +kernel

end isolation

end PersistentIndex

end QuillCache.Core
