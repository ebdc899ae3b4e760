import QuillCache.Store.Logs

/-!
# `LocalKvStore`: the byte pool of one node

A DRAM tier in memory and an SSD tier of one file per block with a write-ahead log. A directory is a `Disk`. What an
operation does to it is the list of its `DiskStep`s, one for each call of the source that changes a file; a process
that dies in the middle leaves the directory as the first steps have made it. All calls are taken to succeed.

Counters that no operation reads are left out. `u64` counters that grow by one, or by the length of data held in
memory, do not overflow; the sum and the file number that `recover` computes from the log are checked.

A store that was recovered serves exactly the blocks whose last record is a commit that matches its file, whatever the
log and the directory contain (`recover_serves_committed`).

Source: `lib.rs`.
-/

namespace QuillCache.Store

open Lib QuillCache.Core Function List Option
open AList hiding keys

/-! ## The directory -/

/-- The WAL file, if there is one, and the block files `blk-{file_id}.kv` by number. -/
structure Disk where
  wal : Option (List UInt8)
  blocks : Table ℕ (List UInt8)

/-- One call that acts on the directory. -/
inductive DiskStep where
  | create (fileId : ℕ)
  | write (fileId : ℕ) (data : List UInt8)
  | sync (fileId : ℕ)
  | delete (fileId : ℕ)
  | append (record : WalRecord)
  | syncWal

namespace Disk

variable (codec : Codec WalRecord)

def step (d : Disk) : DiskStep → Disk
  | .create fileId => { d with blocks := d.blocks.insert fileId [] }
  | .write fileId data => { d with blocks := d.blocks.update fileId (· ++ data) }
  | .sync _ => d
  | .delete fileId => { d with blocks := d.blocks.erase fileId }
  | .append record => { d with wal := some (Wal.append codec (d.wal.getD []) record) }
  | .syncWal => d

def steps (d : Disk) (l : List DiskStep) : Disk := l.foldl (step codec) d

/-- `LocalKvStore::new` truncates the WAL; block files that are left over stay. -/
def truncated (d : Disk) : Disk := { d with wal := some [] }

section lemmas

variable {codec} (d : Disk) (g n : ℕ)

@[simp] lemma steps_nil : d.steps codec [] = d := rfl

@[simp] lemma steps_cons (a : DiskStep) (l : List DiskStep) :
    d.steps codec (a :: l) = (d.step codec a).steps codec l := rfl

lemma steps_append (l l' : List DiskStep) : d.steps codec (l ++ l') = (d.steps codec l).steps codec l' :=
  List.foldl_append

@[simp] lemma lookup_create : (d.step codec (.create n)).blocks.lookup g =
    if g = n then some [] else d.blocks.lookup g := by
  split_ifs with h
  · rw [h]
    exact lookup_insert _
  · exact lookup_insert_ne h

@[simp] lemma lookup_write (data : List UInt8) : (d.step codec (.write n data)).blocks.lookup g =
    if g = n then (d.blocks.lookup g).map (· ++ data) else d.blocks.lookup g :=
  lookup_update d.blocks n g (· ++ data)

@[simp] lemma lookup_delete : (d.step codec (.delete n)).blocks.lookup g =
    if g = n then none else d.blocks.lookup g := by
  split_ifs with h
  · rw [h]
    exact lookup_erase _ _
  · exact lookup_erase_ne h

@[simp] lemma step_sync : d.step codec (.sync n) = d := rfl

@[simp] lemma step_syncWal : d.step codec .syncWal = d := rfl

@[simp] lemma blocks_append (r : WalRecord) : (d.step codec (.append r)).blocks = d.blocks := rfl

@[simp] lemma wal_create : (d.step codec (.create n)).wal = d.wal := rfl

@[simp] lemma wal_write (data : List UInt8) : (d.step codec (.write n data)).wal = d.wal := rfl

@[simp] lemma wal_delete : (d.step codec (.delete n)).wal = d.wal := rfl

end lemmas

end Disk

/-! ## The store -/

inductive StoreError where
  | notFound
  | unsafeReuse (violation : ReuseViolation)
  | io (message : String)
  deriving DecidableEq

structure BlockMeta where
  tier : CacheTier
  bytes : ℕ
  lastAccess : ℕ
  deriving DecidableEq

/-- A block in the SSD tier is filed under the number of its file. -/
structure LocalKvStore where
  dram : Table KvBlockKey (List UInt8)
  ssd : Table KvBlockKey ℕ
  metadata : Table KvBlockKey BlockMeta
  byHash : Table String (List KvBlockKey)
  dramCapacity : ℕ
  ssdCapacity : ℕ
  dramBytes : ℕ
  ssdBytes : ℕ
  clock : ℕ
  nextFile : ℕ

namespace LocalKvStore

def new (dramCapacity ssdCapacity : ℕ) : LocalKvStore where
  dram := ∅
  ssd := ∅
  metadata := ∅
  byHash := ∅
  dramCapacity := dramCapacity
  ssdCapacity := ssdCapacity
  dramBytes := 0
  ssdBytes := 0
  clock := 0
  nextFile := 0

def index (key : KvBlockKey) (byHash : Table String (List KvBlockKey)) : Table String (List KvBlockKey) :=
  byHash.insert key.blockHash (((byHash.lookup key.blockHash).getD []).insert key)

/-- Take `key` out of the content index, and its hash if no other key carries it. -/
def unindex (key : KvBlockKey) (byHash : Table String (List KvBlockKey)) : Table String (List KvBlockKey) :=
  match byHash.lookup key.blockHash with
  | none => byHash
  | some keys =>
    if (keys.filter (· ≠ key)).isEmpty then byHash.erase key.blockHash
    else byHash.insert key.blockHash (keys.filter (· ≠ key))

/-- Take a block out of whichever tier holds it; `tombstone` is logged before the file of an SSD block is
deleted. -/
def takeOut (tombstone : List DiskStep) (key : KvBlockKey) (s : LocalKvStore) :
    LocalKvStore × List DiskStep :=
  match s.metadata.lookup key with
  | none => (s, [])
  | some m =>
    if m.tier = .localSsd then
      ({ s with
          metadata := s.metadata.erase key
          ssd := s.ssd.erase key
          ssdBytes := s.ssdBytes - m.bytes
          byHash := unindex key s.byHash },
        tombstone ++ (s.ssd.lookup key).toList.map .delete)
    else
      ({ s with
          metadata := s.metadata.erase key
          dram := s.dram.erase key
          dramBytes := s.dramBytes - m.bytes
          byHash := unindex key s.byHash }, [])

def removeInternal (key : KvBlockKey) (s : LocalKvStore) : LocalKvStore × List DiskStep := takeOut [] key s

/-- The result is whether there was such a block. -/
def dropBlock (key : KvBlockKey) (s : LocalKvStore) : Bool × LocalKvStore × List DiskStep :=
  (decide (key ∈ s.metadata), takeOut [.append (.remove key), .syncWal] key s)

def putDram (key : KvBlockKey) (data : List UInt8) (s : LocalKvStore) : LocalKvStore × List DiskStep :=
  let now := s.clock + 1
  let (s, steps) := removeInternal key { s with clock := now }
  ({ s with
      dram := s.dram.insert key data
      dramBytes := s.dramBytes + data.length
      metadata := s.metadata.insert key ⟨.cpuDram, data.length, now⟩
      byHash := index key s.byHash }, steps)

/-- The result is whether the block had bytes in DRAM. -/
def demoteToSsd (key : KvBlockKey) (s : LocalKvStore) : Bool × LocalKvStore × List DiskStep :=
  match s.dram.lookup key with
  | none => (false, s, [])
  | some data =>
    let fileId := s.nextFile + 1
    (true,
      { s with
        dram := s.dram.erase key
        dramBytes := s.dramBytes - data.length
        nextFile := fileId
        ssd := s.ssd.insert key fileId
        ssdBytes := s.ssdBytes + data.length
        metadata := s.metadata.update key fun m => { m with tier := .localSsd } },
      [.create fileId, .write fileId data, .sync fileId,
        .append (.commit key fileId data.length (crc32 data).toNat), .syncWal])

def coldestIn (tier : CacheTier) (s : LocalKvStore) : Option KvBlockKey :=
  ((s.metadata.entries.filter fun e => e.2.tier = tier).argmin fun e => e.2.lastAccess).map Sigma.fst

def demoteLoop : ℕ → LocalKvStore → List DiskStep → Option (LocalKvStore × List DiskStep)
  | 0, _, _ => none
  | fuel + 1, s, steps =>
    if s.dramCapacity < s.dramBytes then
      match s.coldestIn .cpuDram with
      | none => some (s, steps)
      | some victim =>
        let (moved, s', steps') := demoteToSsd victim s
        if moved then demoteLoop fuel s' (steps ++ steps') else some (s', steps ++ steps')
    else some (s, steps)

def evictLoop : ℕ → LocalKvStore → List DiskStep → List KvBlockKey →
    Option (List KvBlockKey × LocalKvStore × List DiskStep)
  | 0, _, _, _ => none
  | fuel + 1, s, steps, evicted =>
    if s.ssdCapacity < s.ssdBytes then
      match s.coldestIn .localSsd with
      | none => some (evicted, s, steps)
      | some victim =>
        let (dropped, s', steps') := dropBlock victim s
        if dropped then evictLoop fuel s' (steps ++ steps') (evicted ++ [victim])
        else some (evicted, s', steps ++ steps')
    else some (evicted, s, steps)

/-- Every iteration moves or drops one block, so a turn for each of them is enough. -/
def enforceCapacity (s : LocalKvStore) (steps : List DiskStep) :
    Option (List KvBlockKey × LocalKvStore × List DiskStep) := do
  let (s, steps) ← demoteLoop (s.metadata.entries.length + 1) s steps
  evictLoop (s.metadata.entries.length + 1) s steps []

/-- The tier the block landed in, and what it pushed out. -/
def put (key : KvBlockKey) (data : List UInt8) (s : LocalKvStore) :
    Option ((CacheTier × List KvBlockKey) × LocalKvStore × List DiskStep) := do
  let (s, steps) := putDram key data s
  let (evicted, s, steps) ← enforceCapacity s steps
  return ((((s.metadata.lookup key).map BlockMeta.tier).getD .cpuDram, evicted), s, steps)

def readBlock (d : Disk) (fileId : ℕ) : Except StoreError (List UInt8) :=
  match d.blocks.lookup fileId with
  | none => .error (.io "No such file or directory (os error 2)")
  | some data => .ok data

def firstViolation (scope : IdentityScope) : List KvBlockKey → Except StoreError (List UInt8)
  | [] => .error .notFound
  | candidate :: candidates =>
    match scope.reuseViolation candidate with
    | some violation => .error (.unsafeReuse violation)
    | none => firstViolation scope candidates

def get (d : Disk) (key : KvBlockKey) (s : LocalKvStore) : Except StoreError (List UInt8) × LocalKvStore :=
  match s.metadata.lookup key with
  | some m =>
    let now := s.clock + 1
    let s' := { s with clock := now, metadata := s.metadata.update key fun m => { m with lastAccess := now } }
    if m.tier = .localSsd then
      match s.ssd.lookup key with
      | none => (.error .notFound, s')
      | some fileId => (readBlock d fileId, s')
    else
      match s.dram.lookup key with
      | none => (.error .notFound, s')
      | some data => (.ok data, s')
  | none => (firstViolation (.fromKey key) ((s.byHash.lookup key.blockHash).getD []), s)

/-! ## Recovery -/

structure Commit where
  fileId : ℕ
  len : ℕ
  crc : ℕ
  deriving DecidableEq

/-- The body of the replay loop: the last record of a key wins. -/
def applyRecord (live : Table KvBlockKey Commit) : WalRecord → Table KvBlockKey Commit
  | .commit key fileId len crc => live.insert key ⟨fileId, len, crc⟩
  | .remove key => live.erase key

/-- The commits that the log ends with; without a log there are none. -/
def liveCommits (codec : Codec WalRecord) (d : Disk) : Option (Table KvBlockKey Commit) :=
  match d.wal with
  | none => some ∅
  | some bytes => Wal.replayInto codec applyRecord bytes ∅

/-- The file of a commit is there, with the recorded length and checksum. -/
def Commit.verified (c : Commit) (d : Disk) : Bool :=
  (d.blocks.lookup c.fileId).any fun data => data.length = c.len ∧ (crc32 data).toNat = c.crc

def restore (d : Disk) (key : KvBlockKey) (c : Commit) (s : LocalKvStore) : Option LocalKvStore :=
  if c.verified d then
    if s.ssdBytes + c.len < 2 ^ 64 ∧ c.fileId + 1 < 2 ^ 64 then
      some { s with
        byHash := index key s.byHash
        metadata := s.metadata.insert key ⟨.localSsd, c.len, 0⟩
        ssd := s.ssd.insert key c.fileId
        ssdBytes := s.ssdBytes + c.len
        nextFile := max s.nextFile (c.fileId + 1) }
    else none
  else some s

def restoreAll (d : Disk) : List (Σ _ : KvBlockKey, Commit) → LocalKvStore → Option LocalKvStore
  | [], s => some s
  | e :: es, s => (restore d e.1 e.2 s).bind (restoreAll d es)

def recover (codec : Codec WalRecord) (d : Disk) (dramCapacity ssdCapacity : ℕ) : Option LocalKvStore := do
  let live ← liveCommits codec d
  restoreAll d live.entries (new dramCapacity ssdCapacity)

/-- `s` is the result of `recover`, for some iteration order of the hash map. -/
def Recovers (codec : Codec WalRecord) (d : Disk) (dramCapacity ssdCapacity : ℕ) (s : LocalKvStore) : Prop :=
  ∃ live order, liveCommits codec d = some live ∧ order.Perm live.entries ∧
    restoreAll d order (new dramCapacity ssdCapacity) = some s

/-! ## The content index -/

def Indexed (t : Table String (List KvBlockKey)) (h : String) (k : KvBlockKey) : Prop :=
  ∃ keys, t.lookup h = some keys ∧ k ∈ keys

section index

variable {t : Table String (List KvBlockKey)} {h : String} {k key : KvBlockKey}

lemma indexed_index : Indexed (index key t) h k ↔ Indexed t h k ∨ (h = key.blockHash ∧ k = key) := by
  by_cases hh : h = key.blockHash
  · subst hh
    simp only [Indexed, index, lookup_insert, Option.some.injEq, exists_eq_left', mem_insert_iff,
      true_and]
    cases hl : t.lookup key.blockHash with
    | none => simp
    | some keys => simp [or_comm]
  · simp only [Indexed, index, lookup_insert_ne hh, hh, false_and, or_false]

end index

/-! ## Tiers -/

structure Tidy (s : LocalKvStore) : Prop where
  ssd_iff : ∀ k, k ∈ s.ssd ↔ ∃ m, s.metadata.lookup k = some m ∧ m.tier = .localSsd
  dram_iff : ∀ k, k ∈ s.dram ↔ ∃ m, s.metadata.lookup k = some m ∧ m.tier ≠ .localSsd

section tidy

variable {s : LocalKvStore}

lemma tidy_new (dramCapacity ssdCapacity : ℕ) : Tidy (new dramCapacity ssdCapacity) := by
  constructor <;> intro k <;> simp [new]

lemma Tidy.not_mem_dram (h : Tidy s) {k : KvBlockKey} (hk : k ∈ s.ssd) : k ∉ s.dram := by
  intro hd
  obtain ⟨m, hm, htier⟩ := (h.ssd_iff k).mp hk
  obtain ⟨m', hm', htier'⟩ := (h.dram_iff k).mp hd
  rw [hm] at hm'
  cases hm'
  exact htier' htier

lemma Tidy.takeOut_eq (h : Tidy s) (tombstone : List DiskStep) (key : KvBlockKey) :
    (takeOut tombstone key s).1.metadata = s.metadata.erase key ∧
    (takeOut tombstone key s).1.ssd = s.ssd.erase key ∧
    (takeOut tombstone key s).1.dram = s.dram.erase key ∧
    (takeOut tombstone key s).1.nextFile = s.nextFile ∧
    (takeOut tombstone key s).2 = (s.ssd.lookup key).elim [] fun f => tombstone ++ [.delete f] := by
  rw [takeOut]
  cases hm : s.metadata.lookup key with
  | none =>
    have hssd : key ∉ s.ssd := fun hk => by
      obtain ⟨m, hm', -⟩ := (h.ssd_iff key).mp hk
      rw [hm] at hm'
      cases hm'
    have hdram : key ∉ s.dram := fun hk => by
      obtain ⟨m, hm', -⟩ := (h.dram_iff key).mp hk
      rw [hm] at hm'
      cases hm'
    simp only [erase_of_notMem (lookup_eq_none.mp hm), erase_of_notMem hssd,
      erase_of_notMem hdram, lookup_eq_none.mpr hssd, elim_none, and_self]
  | some m =>
    by_cases htier : m.tier = .localSsd
    · have hssd : key ∈ s.ssd := (h.ssd_iff key).mpr ⟨m, hm, htier⟩
      obtain ⟨f, hf⟩ := mem_iff_exists_lookup.mp hssd
      simp only [htier, if_true, hf, toList_some, map_singleton, elim_some,
        erase_of_notMem (h.not_mem_dram hssd), and_self]
    · have hdram : key ∈ s.dram := (h.dram_iff key).mpr ⟨m, hm, htier⟩
      have hssd : key ∉ s.ssd := fun hk => h.not_mem_dram hk hdram
      simp only [htier, if_false, erase_of_notMem hssd, lookup_eq_none.mpr hssd,
        elim_none, and_self]

lemma Tidy.takeOut (h : Tidy s) (tombstone : List DiskStep) (key : KvBlockKey) :
    Tidy (takeOut tombstone key s).1 := by
  obtain ⟨hmeta, hssd, hdram, -⟩ := h.takeOut_eq tombstone key
  refine ⟨fun k => ?_, fun k => ?_⟩
  · rw [hssd, hmeta, mem_erase, h.ssd_iff]
    rcases eq_or_ne k key with rfl | hk
    · simp
    · simp [hk, lookup_erase_ne hk]
  · rw [hdram, hmeta, mem_erase, h.dram_iff]
    rcases eq_or_ne k key with rfl | hk
    · simp
    · simp [hk, lookup_erase_ne hk]

lemma Tidy.putDram_eq (h : Tidy s) (key : KvBlockKey) (data : List UInt8) :
    (∃ m, (putDram key data s).1.metadata = (s.metadata.erase key).insert key m ∧ m.tier = .cpuDram) ∧
    (putDram key data s).1.ssd = s.ssd.erase key ∧
    (putDram key data s).1.dram = (s.dram.erase key).insert key data ∧
    (putDram key data s).1.nextFile = s.nextFile ∧
    (putDram key data s).2 = (s.ssd.lookup key).elim [] fun f => [.delete f] := by
  have h' : Tidy { s with clock := s.clock + 1 } := ⟨h.ssd_iff, h.dram_iff⟩
  obtain ⟨hmeta, hssd, hdram, hnext, hsteps⟩ := h'.takeOut_eq [] key
  refine ⟨⟨⟨.cpuDram, data.length, s.clock + 1⟩, ?_, rfl⟩, hssd, ?_, hnext, hsteps⟩
  · exact congrArg (fun t => AList.insert key _ t) hmeta
  · exact congrArg (fun t => AList.insert key data t) hdram

lemma Tidy.putDram (h : Tidy s) (key : KvBlockKey) (data : List UInt8) :
    Tidy (putDram key data s).1 := by
  obtain ⟨⟨m, hmeta, htier⟩, hssd, hdram, -⟩ := h.putDram_eq key data
  refine ⟨fun k => ?_, fun k => ?_⟩
  · rw [hssd, hmeta, mem_erase, h.ssd_iff]
    rcases eq_or_ne k key with rfl | hk
    · simp [htier]
    · simp [hk, lookup_insert_ne hk, lookup_erase_ne hk]
  · rw [hdram, hmeta, mem_insert, mem_erase, h.dram_iff]
    rcases eq_or_ne k key with rfl | hk
    · simp [htier]
    · simp [hk, lookup_insert_ne hk, lookup_erase_ne hk]

lemma Tidy.demoteToSsd (h : Tidy s) (key : KvBlockKey) : Tidy (demoteToSsd key s).2.1 := by
  rw [LocalKvStore.demoteToSsd]
  cases hd : s.dram.lookup key with
  | none => exact h
  | some data =>
    obtain ⟨m, hm, -⟩ := (h.dram_iff key).mp (mem_iff_exists_lookup.mpr ⟨data, hd⟩)
    refine ⟨fun k => ?_, fun k => ?_⟩
    · change k ∈ s.ssd.insert key _ ↔ ∃ m', (s.metadata.update key _).lookup k = some m' ∧ _
      rw [mem_insert, h.ssd_iff, lookup_update]
      rcases eq_or_ne k key with rfl | hk
      · simp [hm]
      · simp [hk]
    · change k ∈ s.dram.erase key ↔ ∃ m', (s.metadata.update key _).lookup k = some m' ∧ _
      rw [mem_erase, h.dram_iff, lookup_update]
      rcases eq_or_ne k key with rfl | hk
      · simp [hm]
      · simp [hk]

end tidy

/-! ## What recovery admits -/

def trusted (d : Disk) (live : Table KvBlockKey Commit) (key : KvBlockKey) : Option Commit :=
  (live.lookup key).filter fun c => c.verified d

/-- The store that serves exactly the trusted commits. -/
structure Serves (f : KvBlockKey → Option Commit) (s : LocalKvStore) : Prop where
  metadata_eq : ∀ k, s.metadata.lookup k = (f k).map fun c => ⟨.localSsd, c.len, 0⟩
  ssd_eq : ∀ k, s.ssd.lookup k = (f k).map Commit.fileId
  dram_eq : s.dram = ∅
  indexed_iff : ∀ h k, Indexed s.byHash h k ↔ h = k.blockHash ∧ (f k).isSome
  ssdBytes_eq : s.ssdBytes = (s.metadata.values.map BlockMeta.bytes).sum
  fileId_lt : ∀ k c, f k = some c → c.fileId < s.nextFile

section recover

variable {d : Disk} {s s' : LocalKvStore} {f : KvBlockKey → Option Commit}

lemma serves_new (dramCapacity ssdCapacity : ℕ) : Serves (fun _ => none) (new dramCapacity ssdCapacity) where
  metadata_eq _ := rfl
  ssd_eq _ := rfl
  dram_eq := rfl
  indexed_iff h k := by
    simp [Indexed, new]
  ssdBytes_eq := rfl
  fileId_lt _ _ h := by cases h

lemma sum_insert {t : Table KvBlockKey BlockMeta} {k : KvBlockKey} (hk : k ∉ t) (m : BlockMeta) :
    ((t.insert k m).values.map BlockMeta.bytes).sum = (t.values.map BlockMeta.bytes).sum + m.bytes := by
  have hitems := items_insert hk m
  have hsum := congrArg (fun x => (x.map fun e => e.2.bytes).sum) hitems
  simpa [AList.items, AList.values, comp_def, add_comm] using hsum

lemma Serves.restore {key : KvBlockKey} {c : Commit} (hs : Serves f s) (hkey : f key = none)
    (h : restore d key c s = some s') :
    Serves (Function.update f key ((some c).filter fun c => c.verified d)) s' := by
  rw [LocalKvStore.restore] at h
  split_ifs at h with hver hfits
  · cases h
    have hf : (some c).filter (fun c => c.verified d) = some c := by simp [Option.filter, hver]
    have hfresh : key ∉ s.metadata := by
      rw [← lookup_eq_none, hs.metadata_eq, hkey]
      rfl
    rw [hf]
    refine ⟨fun k => ?_, fun k => ?_, hs.dram_eq, fun h k => ?_, ?_, fun k c' hk => ?_⟩
    · by_cases hk : k = key
      · rw [hk, update_self]
        exact lookup_insert _
      · rw [update_of_ne hk]
        exact (lookup_insert_ne hk).trans (hs.metadata_eq k)
    · by_cases hk : k = key
      · rw [hk, update_self]
        exact lookup_insert _
      · rw [update_of_ne hk]
        exact (lookup_insert_ne hk).trans (hs.ssd_eq k)
    · rw [indexed_index, hs.indexed_iff]
      by_cases hk : k = key
      · subst hk
        simp [hkey]
      · simp [hk]
    · exact (congrArg (· + c.len) hs.ssdBytes_eq).trans (sum_insert hfresh ⟨.localSsd, c.len, 0⟩).symm
    · by_cases hk' : k = key
      · rw [hk', update_self] at hk
        cases hk
        exact lt_of_lt_of_le (Nat.lt_succ_self _) (le_max_right _ _)
      · rw [update_of_ne hk'] at hk
        exact lt_of_lt_of_le (hs.fileId_lt k c' hk) (le_max_left _ _)
  · cases h
    have hf : (some c).filter (fun c => c.verified d) = none := by simp [Option.filter, hver]
    rw [hf, ← hkey, update_eq_self]
    exact hs

lemma Serves.restoreAll {order : List (Σ _ : KvBlockKey, Commit)} (hs : Serves f s)
    (hnodup : order.NodupKeys) (hfresh : ∀ e ∈ order, f e.1 = none) (h : restoreAll d order s = some s') :
    Serves (fun k => ((order.dlookup k).filter fun c => c.verified d).or (f k)) s' := by
  induction order generalizing s f with
  | nil =>
    cases h
    exact hs
  | cons e order ih =>
    obtain ⟨key, c⟩ := e
    obtain ⟨hnot, hnodup⟩ := nodupKeys_cons.mp hnodup
    obtain ⟨s₁, h₁, h₂⟩ := bind_eq_some_iff.mp h
    have hne : ∀ e ∈ order, e.1 ≠ key := by
      rintro e he rfl
      have hmem : e.1 ∈ order.keys := List.mem_map_of_mem he
      exact hnot hmem
    have hs₁ := hs.restore (hfresh _ mem_cons_self) h₁
    have hs₂ := ih hs₁ hnodup (fun e he => by
      rw [update_of_ne (hne e he)]
      exact hfresh e (mem_cons_of_mem _ he)) h₂
    refine Eq.subst (motive := fun g => Serves g s') (funext fun k => ?_) hs₂
    by_cases hk : k = key
    · subst hk
      rw [update_self, dlookup_cons_eq, dlookup_eq_none.mpr hnot, filter_none,
        none_or, hfresh _ mem_cons_self, or_none]
    · rw [update_of_ne hk, dlookup_cons_ne _ _ hk]

/-- What `recover` builds. -/
theorem serves_of_recovers {codec : Codec WalRecord} {dramCapacity ssdCapacity : ℕ}
    (h : Recovers codec d dramCapacity ssdCapacity s) :
    ∃ live, liveCommits codec d = some live ∧ Serves (trusted d live) s := by
  obtain ⟨live, order, hlive, hperm, hall⟩ := h
  have hnodup : order.NodupKeys := (perm_nodupKeys hperm).mpr live.nodupKeys
  refine ⟨live, hlive, ?_⟩
  have hs := (serves_new dramCapacity ssdCapacity).restoreAll hnodup (fun _ _ => rfl) hall
  refine Eq.subst (motive := fun g => Serves g s) (funext fun k => ?_) hs
  rw [or_none, perm_dlookup k hnodup hperm]
  rfl

lemma Serves.tidy (hs : Serves f s) : Tidy s := by
  refine ⟨fun k => ?_, fun k => ?_⟩
  · rw [← lookup_isSome, hs.ssd_eq, hs.metadata_eq]
    cases f k <;> simp
  · rw [hs.dram_eq, hs.metadata_eq]
    cases f k <;> simp

/-! ### Last records -/

def intactRecords (codec : Codec WalRecord) (d : Disk) : Option (List WalRecord) :=
  match d.wal with
  | none => some []
  | some bytes => Wal.replay codec bytes

def lastRecord (records : List WalRecord) (key : KvBlockKey) : Option WalRecord :=
  (records.filter fun r => r.key = key).getLast?

def commitOf : WalRecord → Option Commit
  | .commit _ fileId len crc => some ⟨fileId, len, crc⟩
  | .remove _ => none

lemma lastRecord_append (records : List WalRecord) (r : WalRecord) (key : KvBlockKey) :
    lastRecord (records ++ [r]) key = if r.key = key then some r else lastRecord records key := by
  rw [lastRecord, filter_append]
  by_cases hr : r.key = key
  · simp [hr]
  · simp [hr, lastRecord]

lemma lookup_applyRecord (live : Table KvBlockKey Commit) (r : WalRecord) (key : KvBlockKey) :
    (applyRecord live r).lookup key = if r.key = key then commitOf r else live.lookup key := by
  cases r with
  | commit k fileId len crc =>
    by_cases hk : k = key
    · subst hk
      simp [applyRecord, WalRecord.key, commitOf]
    · simp [applyRecord, WalRecord.key, hk, lookup_insert_ne (Ne.symm hk)]
  | remove k =>
    by_cases hk : k = key
    · subst hk
      simp [applyRecord, WalRecord.key, commitOf]
    · simp [applyRecord, WalRecord.key, hk, lookup_erase_ne (Ne.symm hk)]

def manifest (records : List WalRecord) : Table KvBlockKey Commit := records.foldl applyRecord ∅

lemma lookup_manifest_append (records : List WalRecord) (r : WalRecord) (key : KvBlockKey) :
    (manifest (records ++ [r])).lookup key = if r.key = key then commitOf r else (manifest records).lookup key := by
  rw [manifest, List.foldl_append, foldl_cons, foldl_nil, lookup_applyRecord]
  rfl

lemma lookup_manifest (records : List WalRecord) (key : KvBlockKey) :
    (manifest records).lookup key = (lastRecord records key).bind commitOf := by
  induction records using List.reverseRecOn with
  | nil => rfl
  | append_singleton records r ih =>
    rw [lookup_manifest_append, lastRecord_append, ih]
    split_ifs <;> rfl

lemma liveCommits_eq (codec : Codec WalRecord) (d : Disk) :
    ∃ records, intactRecords codec d = some records ∧
      liveCommits codec d = some (manifest records) := by
  cases hw : d.wal with
  | none => exact ⟨[], by rw [intactRecords, hw], by rw [liveCommits, hw]; rfl⟩
  | some bytes =>
    obtain ⟨ps, hps⟩ := exists_intact crc32 bytes
    refine ⟨ps.filterMap codec.decode, ?_, ?_⟩
    · rw [intactRecords, hw]
      exact Wal.replay_eq codec hps
    · rw [liveCommits, hw]
      exact Wal.replayInto_eq codec applyRecord hps ∅

lemma commitOf_eq_some {r : WalRecord} {c : Commit} (h : commitOf r = some c) :
    r = .commit r.key c.fileId c.len c.crc := by
  cases r with
  | commit key fileId len crc =>
    cases h
    rfl
  | remove key => cases h

lemma key_of_lastRecord {records : List WalRecord} {key : KvBlockKey} {r : WalRecord}
    (h : lastRecord records key = some r) : r.key = key := by
  have hmem := mem_of_getLast? h
  exact of_decide_eq_true (mem_filter.mp hmem).2

lemma verified_iff {c : Commit} :
    c.verified d = true ↔ ∃ data, d.blocks.lookup c.fileId = some data ∧ data.length = c.len ∧
      (crc32 data).toNat = c.crc := by
  rw [Commit.verified, Option.any_eq_true]
  simp only [decide_eq_true_eq]

lemma trusted_eq_some {live : Table KvBlockKey Commit} {k : KvBlockKey} {c : Commit} :
    trusted d live k = some c ↔ live.lookup k = some c ∧ c.verified d = true :=
  filter_eq_some_iff

lemma firstViolation_ne_ok (scope : IdentityScope) (keys : List KvBlockKey) (data : List UInt8) :
    firstViolation scope keys ≠ .ok data := by
  induction keys with
  | nil => simp [firstViolation]
  | cons k keys ih =>
    rw [firstViolation]
    cases scope.reuseViolation k with
    | none => exact ih
    | some violation => simp

lemma get_ne_ok {key : KvBlockKey} (hkey : key ∉ s.metadata) (data : List UInt8) :
    (get d key s).1 ≠ .ok data := by
  rw [get, lookup_eq_none.mpr hkey]
  exact firstViolation_ne_ok _ _ _

lemma get_of_ssd {key : KvBlockKey} {m : BlockMeta} {fileId : ℕ} {data : List UInt8}
    (hm : s.metadata.lookup key = some m) (htier : m.tier = .localSsd) (hssd : s.ssd.lookup key = some fileId)
    (hdata : d.blocks.lookup fileId = some data) : (get d key s).1 = .ok data := by
  simp only [get, hm, htier, if_true, hssd, readBlock, hdata]

end recover

/-- **Recovery serves committed blocks only**, from every log and every directory: a resident key is one
whose last intact record is a commit, with a file of the recorded length and checksum, and it is served
the bytes of that file; the three indexes hold the same keys; `ssd_bytes` is the sum of the lengths; and
no other key is served. -/
theorem recover_serves_committed (codec : Codec WalRecord) (d : Disk) (dramCapacity ssdCapacity : ℕ)
    (s : LocalKvStore) (h : Recovers codec d dramCapacity ssdCapacity s) :
    (∃ records, intactRecords codec d = some records ∧ ∀ key ∈ s.metadata, ∃ fileId len crc data,
      lastRecord records key = some (.commit key fileId len crc) ∧
      d.blocks.lookup fileId = some data ∧ data.length = len ∧ (crc32 data).toNat = crc ∧
      (s.get d key).1 = .ok data) ∧
    (∀ key, key ∈ s.ssd ↔ key ∈ s.metadata) ∧
    (∀ hash key, Indexed s.byHash hash key ↔ hash = key.blockHash ∧ key ∈ s.metadata) ∧
    s.ssdBytes = (s.metadata.values.map BlockMeta.bytes).sum ∧
    ∀ key, key ∉ s.metadata → ∀ data, (s.get d key).1 ≠ .ok data := by
  obtain ⟨live, hlive, hs⟩ := serves_of_recovers h
  obtain ⟨records, hrecords, hlive'⟩ := liveCommits_eq codec d
  rw [hlive] at hlive'
  cases hlive'
  have hmem : ∀ key, key ∈ s.metadata ↔ (trusted d (manifest records) key).isSome := by
    intro key
    rw [← lookup_isSome, hs.metadata_eq, isSome_map]
  refine ⟨⟨records, hrecords, fun key hkey => ?_⟩, fun key => ?_, fun hash key => ?_, hs.ssdBytes_eq,
    fun key hkey data => get_ne_ok hkey data⟩
  · obtain ⟨c, hc⟩ := isSome_iff_exists.mp ((hmem key).mp hkey)
    obtain ⟨hlookup, hver⟩ := trusted_eq_some.mp hc
    obtain ⟨data, hdata, hlen, hcrc⟩ := verified_iff.mp hver
    rw [lookup_manifest] at hlookup
    obtain ⟨r, hr, hcommit⟩ := bind_eq_some_iff.mp hlookup
    have hkeyr := key_of_lastRecord hr
    rw [commitOf_eq_some hcommit, hkeyr] at hr
    refine ⟨c.fileId, c.len, c.crc, data, hr, hdata, hlen, hcrc, ?_⟩
    have hm := hs.metadata_eq key
    have hssd := hs.ssd_eq key
    rw [hc] at hm hssd
    exact get_of_ssd hm rfl hssd hdata
  · rw [← lookup_isSome, hs.ssd_eq, isSome_map, hmem]
  · rw [hs.indexed_iff, hmem]

lemma recovers_of_recover {codec : Codec WalRecord} {d : Disk} {dramCapacity ssdCapacity : ℕ}
    {s : LocalKvStore} (h : recover codec d dramCapacity ssdCapacity = some s) :
    Recovers codec d dramCapacity ssdCapacity s := by
  obtain ⟨live, hlive, hall⟩ := bind_eq_some_iff.mp h
  exact ⟨live, live.entries, hlive, .refl _, hall⟩

def oneBlock : Disk :=
  (Disk.mk (some []) ∅).steps recordCodec
    (demoteToSsd (blockKey "b") (putDram (blockKey "b") [1, 2, 3] (new 0 0)).1).2.2

theorem recover_serves_committed_oneBlock :
    ∃ s, Recovers recordCodec oneBlock 0 0 s ∧ blockKey "b" ∈ s.metadata ∧
      s.ssdBytes = (s.metadata.values.map BlockMeta.bytes).sum := by
  have hrun : ((recover recordCodec oneBlock 0 0).any fun s => decide (blockKey "b" ∈ s.metadata)) = true := by
    decide +kernel
  obtain ⟨s, hs, hmem⟩ := (Option.any_eq_true _ _).mp hrun
  have hrec := recovers_of_recover hs
  exact ⟨s, hrec, of_decide_eq_true hmem,
    (recover_serves_committed recordCodec oneBlock 0 0 s hrec).2.2.2.1⟩

end LocalKvStore

end QuillCache.Store
