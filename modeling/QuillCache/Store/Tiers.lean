import QuillCache.Lib.Buckets
import QuillCache.Store.PoolBytes

/-!
# The two tiers of a byte pool

A byte pool has its blocks in five maps and two counters: the bytes in DRAM, the files of the SSD tier, what is known
about each block, the content index, and the bytes used in each tier. `LocalKvStore.Accounted` says that they agree,
and every operation keeps it.

The capacity loops of `put` rest on it: a tier over its capacity holds a block, so there is a victim, and moving it out
lowers the counter by what the block really takes. Hence the loops end with both tiers within their capacities
(`exists_demoteLoop`, `exists_evictLoop`), through any calls of a `PoolSession` (`session_consistent`).
-/

namespace QuillCache.Store

open Lib QuillCache.Core LocalKvStore Function List Option
open AList hiding keys

/-! ## Counted bytes -/

def heldBytes (held : KvBlockKey → Option (List UInt8)) (keys : Finset KvBlockKey) : ℕ :=
  ∑ k ∈ keys, ((held k).getD []).length

section heldBytes

variable {held : KvBlockKey → Option (List UInt8)} {keys : Finset KvBlockKey} {key : KvBlockKey} {data : List UInt8}

lemma heldBytes_erase (hkey : key ∈ keys) (hdata : held key = some data) :
    heldBytes held keys = data.length + heldBytes held (keys.erase key) := by
  rw [heldBytes, heldBytes, ← Finset.add_sum_erase keys _ hkey, hdata, getD_some]

lemma heldBytes_insert (hkey : key ∉ keys) (hdata : held key = some data) :
    heldBytes held (insert key keys) = data.length + heldBytes held keys := by
  rw [heldBytes, Finset.sum_insert hkey, hdata, getD_some, heldBytes]

lemma heldBytes_update (hkey : key ∉ keys) (data : Option (List UInt8)) :
    heldBytes (Function.update held key data) keys = heldBytes held keys := by
  refine Finset.sum_congr rfl fun k hk => ?_
  rw [update_of_ne (ne_of_mem_of_not_mem hk hkey)]

lemma keys_erase {V : Type} (t : Table KvBlockKey V) (key : KvBlockKey) :
    (t.erase key).keys.toFinset = t.keys.toFinset.erase key := by
  ext k
  rw [Finset.mem_erase, List.mem_toFinset, List.mem_toFinset, ← AList.mem_keys, ← AList.mem_keys, mem_erase]

lemma keys_insert {V : Type} (t : Table KvBlockKey V) (key : KvBlockKey) (v : V) :
    (t.insert key v).keys.toFinset = insert key t.keys.toFinset := by
  ext k
  rw [Finset.mem_insert, List.mem_toFinset, List.mem_toFinset, ← AList.mem_keys, ← AList.mem_keys, mem_insert]

lemma mem_toFinset_keys {V : Type} {t : Table KvBlockKey V} {key : KvBlockKey} : key ∈ t.keys.toFinset ↔ key ∈ t := by
  rw [List.mem_toFinset, AList.mem_keys]

lemma total_eq_heldBytes {V : Type} {t : Table KvBlockKey V} {weight : V → ℕ}
    (h : ∀ k v, t.lookup k = some v → ∃ data, held k = some data ∧ weight v = data.length) :
    t.total weight = heldBytes held t.keys.toFinset := by
  rw [heldBytes, sum_toFinset _ t.keys_nodup, AList.total, AList.values, AList.keys, List.keys, List.map_map,
    List.map_map]
  refine congrArg List.sum (map_congr_left fun e he => ?_)
  obtain ⟨data, hdata, hweight⟩ := h e.1 e.2 (mem_items.mp he)
  rw [comp_apply, comp_apply, hdata, getD_some, hweight]

end heldBytes

/-! ## The maps and the counters -/

/-- The maps and the counters of a store agree with each other and with the bytes that are held. -/
structure LocalKvStore.Accounted (s : LocalKvStore) (held : KvBlockKey → Option (List UInt8)) : Prop where
  tidy : s.Tidy
  tier : ∀ k m, s.metadata.lookup k = some m → m.tier ≠ .localSsd → m.tier = .cpuDram
  index : Buckets.Exact KvBlockKey.blockHash (· ∈ s.metadata) s.byHash
  size : ∀ k m, s.metadata.lookup k = some m → ∃ data, held k = some data ∧ m.bytes = data.length
  data : ∀ k data, s.dram.lookup k = some data → held k = some data
  dramBytes : s.dramBytes = heldBytes held s.dram.keys.toFinset
  ssdBytes : s.ssdBytes = heldBytes held s.ssd.keys.toFinset

namespace LocalKvStore

lemma unindex_eq_drop (key : KvBlockKey) (t : Table String (List KvBlockKey)) :
    unindex key t = Buckets.drop key.blockHash [key] t := by
  rw [unindex, Buckets.drop]
  cases t.lookup key.blockHash with
  | none => rfl
  | some keys => simp only [mem_singleton, ne_eq]

section accounted

variable {s : LocalKvStore} {held : KvBlockKey → Option (List UInt8)}

lemma accounted_new (dramCapacity ssdCapacity : ℕ) : Accounted (new dramCapacity ssdCapacity) fun _ => none where
  tidy := tidy_new _ _
  tier := nofun
  index := Buckets.exact_empty _ fun k => notMem_empty k
  size := nofun
  data := nofun
  dramBytes := rfl
  ssdBytes := rfl

lemma Accounted.with_clock (h : Accounted s held) (clock nextFile : ℕ) :
    Accounted { s with clock := clock, nextFile := nextFile } held :=
  ⟨⟨h.tidy.ssd_iff, h.tidy.dram_iff⟩, h.tier, h.index, h.size, h.data, h.dramBytes, h.ssdBytes⟩

lemma Accounted.index_erase (h : Accounted s held) (key : KvBlockKey) :
    Buckets.Exact KvBlockKey.blockHash (· ∈ s.metadata.erase key) (unindex key s.byHash) := by
  rw [unindex_eq_drop]
  refine (h.index.drop (b := key.blockHash) fun k hk => ?_).congr fun k => ?_
  · rw [mem_singleton.mp hk]
  · rw [mem_erase, mem_singleton, and_comm]

lemma Accounted.takeOut_eq (h : Accounted s held) (tombstone : List DiskStep) (key : KvBlockKey) :
    (takeOut tombstone key s).1.dramBytes = heldBytes held (s.dram.keys.toFinset.erase key) ∧
    (takeOut tombstone key s).1.ssdBytes = heldBytes held (s.ssd.keys.toFinset.erase key) ∧
    Buckets.Exact KvBlockKey.blockHash (· ∈ s.metadata.erase key) (takeOut tombstone key s).1.byHash := by
  have hindex := h.index_erase key
  rw [takeOut]
  cases hm : s.metadata.lookup key with
  | none =>
    have hmem : key ∉ s.metadata := lookup_eq_none.mp hm
    have hdram : key ∉ s.dram.keys.toFinset := fun hk => by
      obtain ⟨m, hm', -⟩ := (h.tidy.dram_iff key).mp (mem_toFinset_keys.mp hk)
      rw [hm] at hm'
      cases hm'
    have hssd : key ∉ s.ssd.keys.toFinset := fun hk => by
      obtain ⟨m, hm', -⟩ := (h.tidy.ssd_iff key).mp (mem_toFinset_keys.mp hk)
      rw [hm] at hm'
      cases hm'
    rw [Finset.erase_eq_of_notMem hdram, Finset.erase_eq_of_notMem hssd, erase_of_notMem hmem]
    exact ⟨h.dramBytes, h.ssdBytes, h.index⟩
  | some m =>
    obtain ⟨data, hdata, hbytes⟩ := h.size key m hm
    by_cases htier : m.tier = .localSsd
    · have hssd : key ∈ s.ssd := (h.tidy.ssd_iff key).mpr ⟨m, hm, htier⟩
      have hdram : key ∉ s.dram.keys.toFinset := fun hk => h.tidy.not_mem_dram hssd (mem_toFinset_keys.mp hk)
      have hsum := heldBytes_erase (mem_toFinset_keys.mpr hssd) hdata
      rw [Finset.erase_eq_of_notMem hdram]
      simp only [htier, if_true]
      refine ⟨h.dramBytes, ?_, hindex⟩
      rw [h.ssdBytes, hsum, hbytes, Nat.add_sub_cancel_left]
    · have hdram : key ∈ s.dram := (h.tidy.dram_iff key).mpr ⟨m, hm, htier⟩
      have hssd : key ∉ s.ssd.keys.toFinset := fun hk => h.tidy.not_mem_dram (mem_toFinset_keys.mp hk) hdram
      have hsum := heldBytes_erase (mem_toFinset_keys.mpr hdram) hdata
      rw [Finset.erase_eq_of_notMem hssd]
      simp only [htier, if_false]
      refine ⟨?_, h.ssdBytes, hindex⟩
      rw [h.dramBytes, hsum, hbytes, Nat.add_sub_cancel_left]

lemma Accounted.takeOut (h : Accounted s held) (tombstone : List DiskStep) (key : KvBlockKey) :
    Accounted (takeOut tombstone key s).1 (Function.update held key none) := by
  obtain ⟨hmeta, hssd, hdram, -, -⟩ := h.tidy.takeOut_eq tombstone key
  obtain ⟨hdramBytes, hssdBytes, hindex⟩ := h.takeOut_eq tombstone key
  have hold : ∀ k m, (LocalKvStore.takeOut tombstone key s).1.metadata.lookup k = some m →
      k ≠ key ∧ s.metadata.lookup k = some m := by
    intro k m hm
    rw [hmeta] at hm
    exact lookup_erase_eq_some.mp hm
  refine ⟨h.tidy.takeOut _ key, fun k m hm => h.tier k m (hold k m hm).2, ?_, fun k m hm => ?_, fun k b hb => ?_,
    ?_, ?_⟩
  · rw [hmeta]
    exact hindex
  · obtain ⟨hne, hm⟩ := hold k m hm
    rw [update_of_ne hne]
    exact h.size k m hm
  · rw [hdram] at hb
    obtain ⟨hne, hb⟩ := lookup_erase_eq_some.mp hb
    rw [update_of_ne hne]
    exact h.data k b hb
  · rw [hdram, keys_erase, heldBytes_update (Finset.notMem_erase _ _), hdramBytes]
  · rw [hssd, keys_erase, heldBytes_update (Finset.notMem_erase _ _), hssdBytes]

lemma Accounted.putDram (h : Accounted s held) (key : KvBlockKey) (data : List UInt8) :
    Accounted (putDram key data s).1 (Function.update held key (some data)) := by
  have hout := (h.with_clock (s.clock + 1) s.nextFile).takeOut [] key
  obtain ⟨hmeta, hssd, hdram, -, -⟩ := (h.with_clock (s.clock + 1) s.nextFile).tidy.takeOut_eq [] key
  have hfresh : key ∉ (LocalKvStore.takeOut [] key { s with clock := s.clock + 1 }).1.dram := by
    rw [hdram, mem_erase]
    exact fun hk => hk.1 rfl
  have hfresh' : key ∉ (LocalKvStore.takeOut [] key { s with clock := s.clock + 1 }).1.ssd := by
    rw [hssd, mem_erase]
    exact fun hk => hk.1 rfl
  have hagree : ∀ k, k ≠ key → Function.update held key (some data) k = Function.update held key none k := by
    intro k hne
    rw [update_of_ne hne, update_of_ne hne]
  have hsum : ∀ keys : Finset KvBlockKey, key ∉ keys →
      heldBytes (Function.update held key (some data)) keys = heldBytes (Function.update held key none) keys := by
    intro keys hkeys
    rw [heldBytes_update hkeys, heldBytes_update hkeys]
  refine ⟨h.tidy.putDram key data, fun k m hm htier => ?_, ?_, fun k m hm => ?_, fun k b hb => ?_, ?_, ?_⟩
  · rcases lookup_insert_eq_some.mp hm with ⟨-, rfl⟩ | ⟨-, hm⟩
    · rfl
    · exact hout.tier k m hm htier
  · refine (hout.index.file key).congr fun k => ?_
    rw [LocalKvStore.putDram, mem_insert, or_comm]
    rfl
  · rcases lookup_insert_eq_some.mp hm with ⟨rfl, rfl⟩ | ⟨hne, hm⟩
    · exact ⟨data, update_self _ _ _, rfl⟩
    · rw [hagree k hne]
      exact hout.size k m hm
  · rcases lookup_insert_eq_some.mp hb with ⟨rfl, rfl⟩ | ⟨hne, hb⟩
    · exact update_self _ _ _
    · rw [hagree k hne]
      exact hout.data k b hb
  · have hmem := mt mem_toFinset_keys.mp hfresh
    have hkeys := keys_insert (LocalKvStore.takeOut [] key { s with clock := s.clock + 1 }).1.dram key data
    have hinsert := heldBytes_insert hmem (update_self key (some data) held)
    rw [hsum _ hmem, ← hout.dramBytes, ← hkeys, add_comm data.length] at hinsert
    exact hinsert.symm
  · exact hout.ssdBytes.trans (hsum _ (mt mem_toFinset_keys.mp hfresh')).symm

lemma Accounted.demoteToSsd (h : Accounted s held) (key : KvBlockKey) : Accounted (demoteToSsd key s).2.1 held := by
  have htidy := h.tidy.demoteToSsd key
  rw [LocalKvStore.demoteToSsd] at htidy ⊢
  cases hd : s.dram.lookup key with
  | none => exact h
  | some data =>
    simp only [hd] at htidy ⊢
    have hdata := h.data key data hd
    have hdram : key ∈ s.dram := mem_iff_exists_lookup.mpr ⟨data, hd⟩
    have hssd : key ∉ s.ssd := fun hk => h.tidy.not_mem_dram hk hdram
    have hmem : ∀ k, k ∈ s.metadata.update key (fun m => { m with tier := .localSsd }) ↔ k ∈ s.metadata := by
      intro k
      rw [← lookup_isSome, ← lookup_isSome, lookup_update]
      split_ifs
      · rw [isSome_map]
      · rfl
    refine ⟨htidy, fun k m hm htier => ?_, h.index.congr hmem, fun k m hm => ?_, fun k b hb => ?_, ?_, ?_⟩
    · rw [lookup_update] at hm
      split_ifs at hm
      · obtain ⟨m', -, rfl⟩ := map_eq_some_iff.mp hm
        exact absurd rfl htier
      · exact h.tier k m hm htier
    · rw [lookup_update] at hm
      split_ifs at hm
      · obtain ⟨m', hm', rfl⟩ := map_eq_some_iff.mp hm
        exact h.size k m' hm'
      · exact h.size k m hm
    · exact h.data k b (lookup_erase_eq_some.mp hb).2
    · rw [keys_erase, h.dramBytes, heldBytes_erase (mem_toFinset_keys.mpr hdram) hdata, Nat.add_sub_cancel_left]
    · rw [keys_insert, heldBytes_insert (mt mem_toFinset_keys.mp hssd) hdata, h.ssdBytes, add_comm data.length]

lemma Accounted.of_metadata {t : Table KvBlockKey BlockMeta} (h : Accounted s held)
    (ht : ∀ k, (t.lookup k).map (fun m => (m.tier, m.bytes)) = (s.metadata.lookup k).map fun m => (m.tier, m.bytes)) :
    Accounted { s with metadata := t } held := by
  have hback : ∀ k m, t.lookup k = some m →
      ∃ m', s.metadata.lookup k = some m' ∧ m'.tier = m.tier ∧ m'.bytes = m.bytes := by
    intro k m hm
    have hk := (ht k).symm
    rw [hm, map_some, map_eq_some_iff] at hk
    obtain ⟨m', hm', hpair⟩ := hk
    exact ⟨m', hm', congrArg Prod.fst hpair, congrArg Prod.snd hpair⟩
  have hforth : ∀ k m, s.metadata.lookup k = some m → ∃ m', t.lookup k = some m' ∧ m'.tier = m.tier := by
    intro k m hm
    have hk := ht k
    rw [hm, map_some, map_eq_some_iff] at hk
    obtain ⟨m', hm', hpair⟩ := hk
    exact ⟨m', hm', congrArg Prod.fst hpair⟩
  have hiff : ∀ (k : KvBlockKey) (P : CacheTier → Prop),
      (∃ m, t.lookup k = some m ∧ P m.tier) ↔ ∃ m, s.metadata.lookup k = some m ∧ P m.tier := by
    intro k P
    constructor
    · rintro ⟨m, hm, hP⟩
      obtain ⟨m', hm', htier, -⟩ := hback k m hm
      exact ⟨m', hm', htier ▸ hP⟩
    · rintro ⟨m, hm, hP⟩
      obtain ⟨m', hm', htier⟩ := hforth k m hm
      exact ⟨m', hm', htier ▸ hP⟩
  have hmem : ∀ k, k ∈ t ↔ k ∈ s.metadata := by
    intro k
    have hsome := congrArg Option.isSome (ht k)
    rw [isSome_map, isSome_map] at hsome
    rw [← lookup_isSome, ← lookup_isSome, hsome]
  refine ⟨⟨fun k => (h.tidy.ssd_iff k).trans (hiff k (· = .localSsd)).symm,
    fun k => (h.tidy.dram_iff k).trans (hiff k (· ≠ .localSsd)).symm⟩, fun k m hm htier => ?_, h.index.congr hmem,
    fun k m hm => ?_, h.data, h.dramBytes, h.ssdBytes⟩
  · obtain ⟨m', hm', htier', -⟩ := hback k m hm
    rw [← htier'] at htier ⊢
    exact h.tier k m' hm' htier
  · obtain ⟨m', hm', -, hbytes⟩ := hback k m hm
    obtain ⟨data, hdata, hlen⟩ := h.size k m' hm'
    exact ⟨data, hdata, hbytes ▸ hlen⟩

lemma Accounted.after_get (h : Accounted s held) (d : Disk) (key : KvBlockKey) : Accounted (s.get d key).2 held := by
  have htouch := (h.of_metadata (t := s.metadata.update key fun m => { m with lastAccess := s.clock + 1 })
    fun k => by
      rw [lookup_update]
      split_ifs
      · rw [Option.map_map]
        rfl
      · rfl).with_clock (s.clock + 1) s.nextFile
  rw [LocalKvStore.get]
  cases s.metadata.lookup key with
  | none => exact h
  | some m =>
    simp only
    split_ifs
    · split <;> exact htouch
    · split <;> exact htouch

lemma Accounted.exec (h : Accounted s held) (op : BlockOp) : Accounted (op.exec s).1 (op.note held) := by
  cases op with
  | putDram key data => exact h.putDram key data
  | demoteToSsd key => exact h.demoteToSsd key
  | dropBlock key => exact h.takeOut _ key

/-! ## Victims -/

lemma coldestIn_eq_some {tier : CacheTier} {victim : KvBlockKey} (h : s.coldestIn tier = some victim) :
    ∃ m, s.metadata.lookup victim = some m ∧ m.tier = tier := by
  rw [coldestIn, map_eq_some_iff] at h
  obtain ⟨e, he, rfl⟩ := h
  have hmem := mem_filter.mp (argmin_mem he)
  exact ⟨e.2, mem_items.mp hmem.1, of_decide_eq_true hmem.2⟩

lemma coldestIn_eq_none {tier : CacheTier} (h : s.coldestIn tier = none) {k : KvBlockKey} {m : BlockMeta}
    (hm : s.metadata.lookup k = some m) : m.tier ≠ tier := by
  rw [coldestIn, map_eq_none_iff, argmin_eq_none, filter_eq_nil_iff] at h
  intro htier
  exact h ⟨k, m⟩ (mem_items.mpr hm) (decide_eq_true htier)

lemma heldBytes_of_coldestIn {tier : CacheTier} {keys : Finset KvBlockKey} (hnone : s.coldestIn tier = none)
    (hkeys : ∀ k ∈ keys, ∃ m, s.metadata.lookup k = some m ∧ m.tier = tier) : heldBytes held keys = 0 := by
  have hempty : keys = ∅ := by
    refine Finset.eq_empty_of_forall_notMem fun k hk => ?_
    obtain ⟨m, hm, htier⟩ := hkeys k hk
    exact coldestIn_eq_none hnone hm htier
  rw [hempty]
  rfl

lemma Accounted.dramBytes_eq_zero (h : Accounted s held) (hnone : s.coldestIn .cpuDram = none) : s.dramBytes = 0 := by
  rw [h.dramBytes]
  refine heldBytes_of_coldestIn hnone fun k hk => ?_
  obtain ⟨m, hm, htier⟩ := (h.tidy.dram_iff k).mp (mem_toFinset_keys.mp hk)
  exact ⟨m, hm, h.tier k m hm htier⟩

lemma Accounted.ssdBytes_eq_zero (h : Accounted s held) (hnone : s.coldestIn .localSsd = none) : s.ssdBytes = 0 := by
  rw [h.ssdBytes]
  exact heldBytes_of_coldestIn hnone fun k hk => (h.tidy.ssd_iff k).mp (mem_toFinset_keys.mp hk)

lemma Accounted.card_dram_le (h : Accounted s held) : s.dram.keys.toFinset.card ≤ s.metadata.entries.length := by
  have hsub : s.dram.keys.toFinset ⊆ s.metadata.keys.toFinset := by
    intro k hk
    obtain ⟨m, hm, -⟩ := (h.tidy.dram_iff k).mp (mem_toFinset_keys.mp hk)
    exact mem_toFinset_keys.mpr (mem_iff_exists_lookup.mpr ⟨m, hm⟩)
  have hlen : s.metadata.keys.length = s.metadata.entries.length := length_map _
  exact (Finset.card_le_card hsub).trans ((toFinset_card_le _).trans hlen.le)

end accounted

/-! ## The capacity loops -/

/-- The bytes that are held: those that were put, and those that were found and not put or dropped since. -/
def heldOf (bytes found : KvBlockKey → Option (List UInt8)) (key : KvBlockKey) : Option (List UInt8) :=
  (bytes key).or (found key)

/-- Everything about a store: its bytes are where they belong, and its books are right. -/
structure Sound (d : Disk) (s : LocalKvStore) (bytes found : KvBlockKey → Option (List UInt8)) : Prop where
  shelved : Shelved d s bytes found
  accounted : Accounted s (heldOf bytes found)

def without (gone : List KvBlockKey) (bytes : KvBlockKey → Option (List UInt8)) (key : KvBlockKey) :
    Option (List UInt8) :=
  if key ∈ gone then none else bytes key

section loops

variable (codec : Codec WalRecord) {d : Disk} {s : LocalKvStore} {bytes found : KvBlockKey → Option (List UInt8)}

lemma heldOf_exec (op : BlockOp) (bytes found : KvBlockKey → Option (List UInt8)) :
    heldOf (op.note bytes) (op.forget found) = op.note (heldOf bytes found) := by
  funext k
  cases op with
  | putDram key data =>
    rcases eq_or_ne k key with rfl | hne
    · simp [heldOf, BlockOp.note, BlockOp.forget]
    · simp [heldOf, BlockOp.note, BlockOp.forget, hne]
  | demoteToSsd key => rfl
  | dropBlock key =>
    rcases eq_or_ne k key with rfl | hne
    · simp [heldOf, BlockOp.note, BlockOp.forget]
    · simp [heldOf, BlockOp.note, BlockOp.forget, hne]

lemma Sound.exec (h : Sound d s bytes found) (op : BlockOp) :
    Sound (d.steps codec (op.exec s).2) (op.exec s).1 (op.note bytes) (op.forget found) := by
  refine ⟨h.shelved.exec op, ?_⟩
  rw [heldOf_exec]
  exact h.accounted.exec op

lemma Sound.after_get (h : Sound d s bytes found) (key : KvBlockKey) : Sound d (s.get d key).2 bytes found :=
  ⟨h.shelved.after_get key, h.accounted.after_get d key⟩

lemma without_cons (key : KvBlockKey) (gone : List KvBlockKey) (bytes : KvBlockKey → Option (List UInt8)) :
    without gone (Function.update bytes key none) = without (key :: gone) bytes := by
  funext k
  rw [without, without]
  rcases eq_or_ne k key with rfl | hne
  · simp
  · simp [hne]

lemma without_nil (bytes : KvBlockKey → Option (List UInt8)) : without [] bytes = bytes := by
  funext k
  exact if_neg not_mem_nil

/-- **The first loop ends** with DRAM within its capacity. Every turn moves a block out of DRAM, so a turn for each
block there is enough. -/
lemma Sound.exists_demoteLoop {fuel : ℕ} (h : Sound d s bytes found) (steps : List DiskStep)
    (hfuel : s.dram.keys.toFinset.card < fuel) :
    ∃ s' l, demoteLoop fuel s steps = some (s', steps ++ l) ∧ Sound (d.steps codec l) s' bytes found ∧
      s'.dramBytes ≤ s'.dramCapacity := by
  induction fuel generalizing d s steps with
  | zero => exact absurd hfuel (Nat.not_lt_zero _)
  | succ fuel ih =>
    rw [demoteLoop]
    split_ifs with hover
    · cases hv : s.coldestIn .cpuDram with
      | none =>
        rw [h.accounted.dramBytes_eq_zero hv] at hover
        exact absurd hover (Nat.not_lt_zero _)
      | some victim =>
        obtain ⟨m, hm, htier⟩ := coldestIn_eq_some hv
        have hdram : victim ∈ s.dram := (h.accounted.tidy.dram_iff victim).mpr ⟨m, hm, by simp [htier]⟩
        obtain ⟨data, hdata⟩ := mem_iff_exists_lookup.mp hdram
        have hnext : Sound _ (demoteToSsd victim s).2.1 bytes found := h.exec codec (.demoteToSsd victim)
        have hfewer : (demoteToSsd victim s).2.1.dram.keys.toFinset.card < fuel := by
          rw [demoteToSsd, hdata]
          simp only
          rw [keys_erase, Finset.card_erase_of_mem (mem_toFinset_keys.mpr hdram)]
          have hpos := Finset.card_pos.mpr ⟨victim, mem_toFinset_keys.mpr hdram⟩
          omega
        have hmoved : (demoteToSsd victim s).1 = true := by
          rw [demoteToSsd, hdata]
        obtain ⟨s', l, hloop, hsound, hcap⟩ := ih hnext (steps ++ (demoteToSsd victim s).2.2) hfewer
        refine ⟨s', (demoteToSsd victim s).2.2 ++ l, ?_, ?_, hcap⟩
        · simp only [hmoved, if_true]
          rw [← append_assoc]
          exact hloop
        · rw [Disk.steps_append]
          exact hsound
    · exact ⟨s, [], by rw [append_nil], h, Nat.le_of_not_lt hover⟩

/-- **The second loop ends** with the SSD tier within its capacity, and DRAM as it was. -/
lemma Sound.exists_evictLoop {fuel : ℕ} (h : Sound d s bytes found) (steps : List DiskStep)
    (evicted : List KvBlockKey) (hfuel : s.metadata.entries.length < fuel) (hdram : s.dramBytes ≤ s.dramCapacity) :
    ∃ gone s' l, evictLoop fuel s steps evicted = some (evicted ++ gone, s', steps ++ l) ∧
      Sound (d.steps codec l) s' (without gone bytes) (without gone found) ∧
      s'.dramBytes ≤ s'.dramCapacity ∧ s'.ssdBytes ≤ s'.ssdCapacity := by
  induction fuel generalizing d s bytes found steps evicted with
  | zero => exact absurd hfuel (Nat.not_lt_zero _)
  | succ fuel ih =>
    rw [evictLoop]
    split_ifs with hover
    · cases hv : s.coldestIn .localSsd with
      | none =>
        rw [h.accounted.ssdBytes_eq_zero hv] at hover
        exact absurd hover (Nat.not_lt_zero _)
      | some victim =>
        obtain ⟨m, hm, htier⟩ := coldestIn_eq_some hv
        have hmem : victim ∈ s.metadata := mem_iff_exists_lookup.mpr ⟨m, hm⟩
        have hnext : Sound _ (dropBlock victim s).2.1 _ _ := h.exec codec (.dropBlock victim)
        have hfewer : (dropBlock victim s).2.1.metadata.entries.length < fuel := by
          obtain ⟨hmeta, -⟩ := h.accounted.tidy.takeOut_eq [.append (.remove victim), .syncWal] victim
          have hcard := congrArg Multiset.card (items_eq_cons_erase hm)
          have hlen : s.metadata.entries.length = (s.metadata.erase victim).entries.length + 1 := by
            rwa [Multiset.card_cons] at hcard
          rw [dropBlock, hmeta]
          omega
        have hkept : (dropBlock victim s).2.1.dramBytes ≤ (dropBlock victim s).2.1.dramCapacity := by
          rw [dropBlock, takeOut, hm]
          simp only [htier, if_true]
          exact hdram
        have hdropped : (dropBlock victim s).1 = true := decide_eq_true hmem
        obtain ⟨gone, s', l, hloop, hsound, hcap⟩ := ih hnext (steps ++ (dropBlock victim s).2.2)
          (evicted ++ [victim]) hfewer hkept
        refine ⟨victim :: gone, s', (dropBlock victim s).2.2 ++ l, ?_, ?_, hcap⟩
        · simp only [hdropped, if_true]
          rw [hloop, append_assoc, append_assoc]
          rfl
        · rw [Disk.steps_append, ← without_cons, ← without_cons]
          exact hsound
    · refine ⟨[], s, [], by rw [append_nil, append_nil], ?_, hdram, Nat.le_of_not_lt hover⟩
      rw [without_nil, without_nil]
      exact h

/-- **A put returns**, with both tiers within their capacities: its block is held, and what it evicted is not. -/
lemma Sound.exists_put (h : Sound d s bytes found) (key : KvBlockKey) (data : List UInt8) :
    ∃ tier gone s' l, put key data s = some ((tier, gone), s', l) ∧
      Sound (d.steps codec l) s' (without gone (Function.update bytes key (some data)))
        (without gone (Function.update found key none)) ∧
      s'.dramBytes ≤ s'.dramCapacity ∧ s'.ssdBytes ≤ s'.ssdCapacity := by
  have hput : Sound (d.steps codec (putDram key data s).2) (putDram key data s).1 _ _ := h.exec codec (.putDram key data)
  obtain ⟨s₁, l₁, hdemote, hsound₁, hcap₁⟩ := hput.exists_demoteLoop codec (putDram key data s).2
    (Nat.lt_succ_of_le hput.accounted.card_dram_le)
  obtain ⟨gone, s₂, l₂, hevict, hsound₂, hcap₂⟩ := hsound₁.exists_evictLoop codec
    ((putDram key data s).2 ++ l₁) [] (Nat.lt_succ_self _) hcap₁
  refine ⟨((s₂.metadata.lookup key).map BlockMeta.tier).getD .cpuDram, gone, s₂, (putDram key data s).2 ++ l₁ ++ l₂,
    ?_, ?_, hcap₂⟩
  · rw [put]
    simp only [enforceCapacity, hdemote, bind_eq_bind, bind_some, hevict, nil_append]
    rfl
  · rw [append_assoc, Disk.steps_append, Disk.steps_append]
    exact hsound₂

lemma Sound.get_eq (h : Sound d s bytes found) {key : KvBlockKey} {data : List UInt8} (hdata : bytes key = some data) :
    (s.get d key).1 = .ok data := by
  have hmem : key ∈ s.dram ∨ key ∈ s.ssd := by
    by_contra hout
    rw [not_or] at hout
    rw [h.shelved.absent key hout.1 hout.2] at hdata
    cases hdata
  rcases hmem with hdram | hssd
  · obtain ⟨m, hm, htier⟩ := (h.accounted.tidy.dram_iff key).mp hdram
    obtain ⟨data', hdata'⟩ := mem_iff_exists_lookup.mp hdram
    have hsame := h.shelved.dram key data' hdata'
    rw [hdata] at hsame
    cases hsame
    simp only [LocalKvStore.get, hm, htier, if_false, hdata']
  · obtain ⟨m, hm, htier⟩ := (h.accounted.tidy.ssd_iff key).mp hssd
    obtain ⟨f, hf⟩ := mem_iff_exists_lookup.mp hssd
    exact get_of_ssd hm htier hf (h.shelved.ssd key f data hf hdata)

lemma Sound.of_get_eq (h : Sound d s bytes found) {key : KvBlockKey} {data : List UInt8}
    (hget : (s.get d key).1 = .ok data) : bytes key = some data ∨ bytes key = none ∧ found key = some data := by
  cases hbytes : bytes key with
  | some data' =>
    rw [h.get_eq hbytes] at hget
    cases hget
    exact .inl rfl
  | none =>
    refine .inr ⟨rfl, ?_⟩
    -- the block is resident, and what is in DRAM was put
    have hmem : key ∈ s.metadata := by
      by_contra hout
      exact get_ne_ok hout data hget
    obtain ⟨m, hm⟩ := mem_iff_exists_lookup.mp hmem
    by_cases htier : m.tier = .localSsd
    · obtain ⟨f, hf⟩ := mem_iff_exists_lookup.mp ((h.accounted.tidy.ssd_iff key).mpr ⟨m, hm, htier⟩)
      obtain ⟨data', hfound, hsame⟩ := h.shelved.found key f hf hbytes
      simp only [LocalKvStore.get, hm, htier, if_true, hf, readBlock] at hget
      cases hblock : d.blocks.lookup f with
      | none =>
        rw [hblock] at hget
        cases hget
      | some data'' =>
        rw [hblock] at hget
        cases hget
        rw [hfound, hsame data hblock]
    · obtain ⟨data', hdata'⟩ := mem_iff_exists_lookup.mp ((h.accounted.tidy.dram_iff key).mpr ⟨m, hm, htier⟩)
      rw [h.shelved.dram key data' hdata'] at hbytes
      cases hbytes

end loops

end LocalKvStore

/-! ## Sessions -/

/-- The calls of a byte pool: a `put`, which tiers by itself, one of the operations it consists of, or a `get`. -/
inductive PoolCall where
  | put (key : KvBlockKey) (data : List UInt8)
  | op (op : BlockOp)
  | get (key : KvBlockKey)

/-- A store with its directory, from the time it was opened: the bytes that were put since under each key and not
dropped, and what is left of the blocks that were found in the directory then. -/
structure PoolSession extends Pool where
  found : KvBlockKey → Option (List UInt8)

namespace PoolSession

/-- A store is new, on any directory, or it was recovered from one. -/
inductive Opened (codec : Codec WalRecord) : PoolSession → Prop where
  | new (d : Disk) (dramCapacity ssdCapacity : ℕ) :
      Opened codec ⟨Pool.new dramCapacity ssdCapacity d, fun _ => none⟩
  | recovered {d : Disk} {dramCapacity ssdCapacity : ℕ} {s : LocalKvStore}
      (h : Recovers codec d dramCapacity ssdCapacity s) :
      Opened codec ⟨⟨s, d, fun _ => none⟩, fun k => (s.ssd.lookup k).bind d.blocks.lookup⟩

/-- The session after a call. A put that does not return is `none`. -/
def call (codec : Codec WalRecord) (σ : PoolSession) : PoolCall → Option PoolSession
  | .put key data =>
    (LocalKvStore.put key data σ.store).map fun r =>
      ⟨⟨r.2.1, σ.disk.steps codec r.2.2, without r.1.2 (Function.update σ.bytes key (some data))⟩,
        without r.1.2 (Function.update σ.found key none)⟩
  | .op op =>
    some ⟨⟨(op.exec σ.store).1, σ.disk.steps codec (op.exec σ.store).2, op.note σ.bytes⟩, op.forget σ.found⟩
  | .get key => some ⟨⟨(σ.store.get σ.disk key).2, σ.disk, σ.bytes⟩, σ.found⟩

/-- A call is made, or the hash map of the blocks comes to be iterated in another order. -/
inductive Step (codec : Codec WalRecord) : PoolSession → PoolSession → Prop where
  | call {σ σ' : PoolSession} (c : PoolCall) (h : σ.call codec c = some σ') : Step codec σ σ'
  | rehash {σ : PoolSession} (t : Table KvBlockKey BlockMeta) (h : AList.Shuffled σ.store.metadata t) :
      Step codec σ { σ with store := { σ.store with metadata := t } }

def Sound (σ : PoolSession) : Prop := LocalKvStore.Sound σ.disk σ.store σ.bytes σ.found

variable {codec : Codec WalRecord} {σ σ' : PoolSession}

lemma of_restoreAll {d : Disk} {order : List (Σ _ : KvBlockKey, Commit)} {s s' : LocalKvStore}
    {P : LocalKvStore → Prop} (hstep : ∀ key c s s', P s → restore d key c s = some s' → P s') (hs : P s)
    (h : restoreAll d order s = some s') : P s' := by
  induction order generalizing s with
  | nil =>
    cases h
    exact hs
  | cons e order ih =>
    obtain ⟨s₁, h₁, h₂⟩ := bind_eq_some_iff.mp h
    exact ih (hstep e.1 e.2 s s₁ hs h₁) h₂

lemma exact_restore {d : Disk} {key : KvBlockKey} {c : Commit} {s s' : LocalKvStore}
    (hs : s.dramBytes = 0 ∧ Buckets.Exact KvBlockKey.blockHash (· ∈ s.metadata) s.byHash)
    (h : restore d key c s = some s') :
    s'.dramBytes = 0 ∧ Buckets.Exact KvBlockKey.blockHash (· ∈ s'.metadata) s'.byHash := by
  rw [restore] at h
  split_ifs at h
  · cases h
    refine ⟨hs.1, (hs.2.file key).congr fun k => ?_⟩
    rw [mem_insert, or_comm]
  · cases h
    exact hs

lemma sound_recovered {d : Disk} {dramCapacity ssdCapacity : ℕ} {s : LocalKvStore}
    (h : Recovers codec d dramCapacity ssdCapacity s) :
    LocalKvStore.Sound d s (fun _ => none) fun k => (s.ssd.lookup k).bind d.blocks.lookup := by
  obtain ⟨live, -, hs⟩ := serves_of_recovers h
  obtain ⟨-, order, -, -, hall⟩ := h
  obtain ⟨hzero, hindex⟩ := of_restoreAll (fun _ _ _ _ => exact_restore)
    ⟨rfl, Buckets.exact_empty _ fun k => notMem_empty k⟩ hall
  have hmeta : ∀ k m, s.metadata.lookup k = some m → ∃ f data, s.ssd.lookup k = some f ∧
      d.blocks.lookup f = some data ∧ m = ⟨.localSsd, data.length, 0⟩ := by
    intro k m hm
    rw [hs.metadata_eq, map_eq_some_iff] at hm
    obtain ⟨c, hc, rfl⟩ := hm
    obtain ⟨data, hdata, hlen, -⟩ := verified_iff.mp (trusted_eq_some.mp hc).2
    refine ⟨c.fileId, data, ?_, hdata, ?_⟩
    · rw [hs.ssd_eq, hc]
      rfl
    · rw [hlen]
  have hssd : ∀ k f, s.ssd.lookup k = some f → ∃ data, d.blocks.lookup f = some data := by
    intro k f hf
    obtain ⟨m, hm, -⟩ := (hs.tidy.ssd_iff k).mp (mem_iff_exists_lookup.mpr ⟨f, hf⟩)
    obtain ⟨f', data, hf', hdata, -⟩ := hmeta k m hm
    rw [hf] at hf'
    cases hf'
    exact ⟨data, hdata⟩
  have hnumbered : ∀ k f, s.ssd.lookup k = some f → f ≤ s.nextFile := by
    intro k f hf
    rw [hs.ssd_eq, map_eq_some_iff] at hf
    obtain ⟨c, hc, rfl⟩ := hf
    exact (hs.fileId_lt k c hc).le
  have hsize : ∀ k m, s.metadata.lookup k = some m →
      ∃ data, heldOf (fun _ => none) (fun k => (s.ssd.lookup k).bind d.blocks.lookup) k = some data ∧
        m.bytes = data.length := by
    intro k m hm
    obtain ⟨f, data, hf, hdata, rfl⟩ := hmeta k m hm
    exact ⟨data, by rw [heldOf, hf]; exact hdata, rfl⟩
  have hkeys : s.metadata.keys.toFinset = s.ssd.keys.toFinset := by
    ext k
    rw [mem_toFinset_keys, mem_toFinset_keys, ← lookup_isSome, ← lookup_isSome, hs.metadata_eq,
      hs.ssd_eq, isSome_map, isSome_map]
  refine ⟨⟨hs.tidy, ?_, nofun, fun k f hf _ => ?_, fun _ _ _ => rfl, nofun, hnumbered⟩,
    ⟨hs.tidy, fun k m hm htier => ?_, hindex, hsize, ?_, ?_, ?_⟩⟩
  · rw [hs.dram_eq]
    nofun
  · obtain ⟨data, hdata⟩ := hssd k f hf
    refine ⟨data, by rw [hf]; exact hdata, fun data' hdata' => ?_⟩
    rw [hdata] at hdata'
    exact (Option.some.inj hdata').symm
  · obtain ⟨f, data, hf, hdata, rfl⟩ := hmeta k m hm
    exact absurd rfl htier
  · rw [hs.dram_eq]
    nofun
  · rw [hs.dram_eq]
    exact hzero
  · rw [hs.ssdBytes_eq, ← hkeys]
    exact total_eq_heldBytes hsize

lemma sound_opened (h : Opened codec σ) : σ.Sound := by
  cases h with
  | new d dramCapacity ssdCapacity =>
    exact ⟨backed_iff_shelved.mp (backed_new _ _ _), accounted_new _ _⟩
  | recovered hrec => exact sound_recovered hrec

lemma Sound.put (h : σ.Sound) (key : KvBlockKey) (data : List UInt8) :
    ∃ σ', σ.call codec (.put key data) = some σ' ∧ σ'.Sound ∧
      σ'.store.dramBytes ≤ σ'.store.dramCapacity ∧ σ'.store.ssdBytes ≤ σ'.store.ssdCapacity := by
  obtain ⟨tier, gone, s', l, hput, hsound, hcap⟩ := LocalKvStore.Sound.exists_put codec h key data
  have hcall : σ.call codec (.put key data) = some
      ⟨⟨s', σ.disk.steps codec l, without gone (Function.update σ.bytes key (some data))⟩,
        without gone (Function.update σ.found key none)⟩ := by
    rw [PoolSession.call, hput]
    rfl
  exact ⟨_, hcall, hsound, hcap⟩

/-- **A call returns, and keeps the session sound.** -/
lemma Sound.call (h : σ.Sound) (c : PoolCall) : ∃ σ', σ.call codec c = some σ' ∧ σ'.Sound := by
  cases c with
  | put key data =>
    obtain ⟨σ', hcall, hsound, -⟩ := @Sound.put codec σ h key data
    exact ⟨σ', hcall, hsound⟩
  | op op => exact ⟨_, rfl, LocalKvStore.Sound.exec codec h op⟩
  | get key => exact ⟨_, rfl, LocalKvStore.Sound.after_get h key⟩

lemma Sound.step (h : σ.Sound) (hstep : Step codec σ σ') : σ'.Sound := by
  cases hstep with
  | call c hc =>
    obtain ⟨σ'', hcall, hsound⟩ := @Sound.call codec σ h c
    rw [hc] at hcall
    cases hcall
    exact hsound
  | rehash t ht =>
    have hlookup : ∀ k, t.lookup k = σ.store.metadata.lookup k := fun k => (AList.Shuffled.lookup_eq ht k).symm
    have hacc := h.accounted.of_metadata fun k => by rw [hlookup k]
    exact ⟨⟨hacc.tidy, h.shelved.dram, h.shelved.ssd, h.shelved.found, h.shelved.absent, h.shelved.exclusive,
      h.shelved.numbered⟩, hacc⟩

lemma Sound.run (h : σ.Sound) (hrun : Relation.ReflTransGen (Step codec) σ σ') : σ'.Sound := by
  induction hrun with
  | refl => exact h
  | tail _ hstep ih => exact ih.step hstep

lemma found_step (hstep : Step codec σ σ') (k : KvBlockKey) : σ'.found k = none ∨ σ'.found k = σ.found k := by
  have hupdate : ∀ key, Function.update σ.found key none k = none ∨ Function.update σ.found key none k = σ.found k := by
    intro key
    rcases eq_or_ne k key with rfl | hne
    · exact .inl (update_self _ _ _)
    · exact .inr (update_of_ne hne _ _)
  cases hstep with
  | call c hc =>
    cases c with
    | put key data =>
      obtain ⟨r, -, rfl⟩ := map_eq_some_iff.mp hc
      simp only [without]
      split_ifs
      · exact .inl rfl
      · exact hupdate key
    | op op =>
      cases hc
      cases op with
      | putDram key data => exact hupdate key
      | demoteToSsd key => exact .inr rfl
      | dropBlock key => exact hupdate key
    | get key =>
      cases hc
      exact .inr rfl
  | rehash t ht => exact .inr rfl

lemma found_run (hrun : Relation.ReflTransGen (Step codec) σ σ') (k : KvBlockKey) :
    σ'.found k = none ∨ σ'.found k = σ.found k := by
  induction hrun with
  | refl => exact .inr rfl
  | tail _ hstep ih =>
    rcases found_step hstep k with hnone | hsame
    · exact .inl hnone
    · rw [hsame]
      exact ih

end PoolSession

/-- **A byte pool is consistent** after any calls, from a new or a recovered store: every block is in the tier that
its metadata names and in no other, the content index holds exactly the blocks, and the counters are the sums of
what the tiers hold; `get` returns the bytes that were last put under the key and not dropped since, and otherwise
nothing but what recovery found under that very key; and a put returns with both tiers within their capacities. -/
theorem session_consistent (codec : Codec WalRecord) {σ₀ σ : PoolSession} (hopen : PoolSession.Opened codec σ₀)
    (hrun : Relation.ReflTransGen (PoolSession.Step codec) σ₀ σ) :
    (∀ k m, σ.store.metadata.lookup k = some m →
      (m.tier = .cpuDram ∧ k ∈ σ.store.dram ∧ k ∉ σ.store.ssd) ∨
        (m.tier = .localSsd ∧ k ∈ σ.store.ssd ∧ k ∉ σ.store.dram)) ∧
    (∀ k, k ∈ σ.store.dram ∨ k ∈ σ.store.ssd → k ∈ σ.store.metadata) ∧
    Buckets.Exact KvBlockKey.blockHash (· ∈ σ.store.metadata) σ.store.byHash ∧
    σ.store.dramBytes = σ.store.dram.total List.length ∧
    σ.store.ssdBytes = heldBytes (heldOf σ.bytes σ.found) σ.store.ssd.keys.toFinset ∧
    (∀ k data, σ.bytes k = some data → (σ.store.get σ.disk k).1 = .ok data) ∧
    (∀ k data, (σ.store.get σ.disk k).1 = .ok data →
      σ.bytes k = some data ∨ σ.bytes k = none ∧ σ.found k = some data) ∧
    (∀ k, σ.found k = none ∨ σ.found k = σ₀.found k) ∧
    ∀ key data, ∃ σ', σ.call codec (.put key data) = some σ' ∧
      σ'.store.dramBytes ≤ σ'.store.dramCapacity ∧ σ'.store.ssdBytes ≤ σ'.store.ssdCapacity := by
  have hsound : σ.Sound := (PoolSession.sound_opened hopen).run hrun
  have hacc := hsound.accounted
  refine ⟨fun k m hm => ?_, fun k hk => ?_, hacc.index, ?_, hacc.ssdBytes, fun k data => hsound.get_eq,
    fun k data => hsound.of_get_eq, PoolSession.found_run hrun, fun key data => ?_⟩
  · by_cases htier : m.tier = .localSsd
    · have hssd := (hacc.tidy.ssd_iff k).mpr ⟨m, hm, htier⟩
      exact .inr ⟨htier, hssd, hacc.tidy.not_mem_dram hssd⟩
    · have hdram := (hacc.tidy.dram_iff k).mpr ⟨m, hm, htier⟩
      exact .inl ⟨hacc.tier k m hm htier, hdram, fun hssd => hacc.tidy.not_mem_dram hssd hdram⟩
  · rcases hk with hdram | hssd
    · obtain ⟨m, hm, -⟩ := (hacc.tidy.dram_iff k).mp hdram
      exact mem_iff_exists_lookup.mpr ⟨m, hm⟩
    · obtain ⟨m, hm, -⟩ := (hacc.tidy.ssd_iff k).mp hssd
      exact mem_iff_exists_lookup.mpr ⟨m, hm⟩
  · rw [hacc.dramBytes]
    exact (total_eq_heldBytes fun k data hdata => ⟨data, hacc.data k data hdata, rfl⟩).symm
  · obtain ⟨σ', hcall, -, hcap⟩ := @PoolSession.Sound.put codec σ hsound key data
    exact ⟨σ', hcall, hcap⟩

def twoBlocks : Option PoolSession :=
  Option.bind ((PoolSession.mk (Pool.new 4 4 ⟨none, ∅⟩) fun _ => none).call recordCodec (.put (blockKey "a") [1, 2, 3]))
    fun σ => σ.call recordCodec (.put (blockKey "b") [4, 5, 6])

theorem session_consistent_twoBlocks :
    ∃ σ, twoBlocks = some σ ∧ blockKey "a" ∈ σ.store.ssd ∧ blockKey "b" ∈ σ.store.dram ∧
      (σ.store.get σ.disk (blockKey "a")).1 = .ok [1, 2, 3] ∧
      ∃ σ', σ.call recordCodec (.put (blockKey "c") [7, 8, 9]) = some σ' ∧
        σ'.store.dramBytes ≤ σ'.store.dramCapacity ∧ σ'.store.ssdBytes ≤ σ'.store.ssdCapacity := by
  have hrun : (twoBlocks.any fun σ => decide (blockKey "a" ∈ σ.store.ssd ∧ blockKey "b" ∈ σ.store.dram ∧
      σ.bytes (blockKey "a") = some [1, 2, 3])) = true := by
    decide +kernel
  obtain ⟨σ, hσ, hholds⟩ := (Option.any_eq_true _ _).mp hrun
  obtain ⟨hssd, hdram, hbytes⟩ := of_decide_eq_true hholds
  obtain ⟨σ₁, h₁, h₂⟩ := bind_eq_some_iff.mp hσ
  have hall := session_consistent recordCodec (.new ⟨none, ∅⟩ 4 4)
    (.tail (.single (.call (.put (blockKey "a") [1, 2, 3]) h₁)) (.call (.put (blockKey "b") [4, 5, 6]) h₂))
  exact ⟨σ, hσ, hssd, hdram, hall.2.2.2.2.2.1 _ _ hbytes, hall.2.2.2.2.2.2.2.2 _ _⟩

end QuillCache.Store
