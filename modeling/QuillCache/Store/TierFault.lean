import QuillCache.Store.Tiers

/-!
# A demotion that fails

`demote_to_ssd` takes the bytes out of DRAM before it writes them to a file, and publishes the block in the SSD
tier after the file and the log are durable. A call that fails in between returns early: the bytes are in
neither tier, while the metadata still says that the block is in DRAM (`demoteToSsd_eq_publish`).

Such a block is gone (`failed_demotion_loses_block`). It also stands in the way of later puts: as the coldest
block in DRAM it is chosen as the victim, there is nothing to demote, and the capacity loop gives up
(`failed_demotion_overfills`).
-/

namespace QuillCache.Store

open Lib QuillCache.Core LocalKvStore

/-- The call of `demote_to_ssd` that fails. A write that fails may have written a part. -/
inductive DemoteFault where
  | create
  | write (written : ℕ)
  | sync
  | append (written : ℕ)
  | syncWal

namespace LocalKvStore

def commitRecord (key : KvBlockKey) (fileId : ℕ) (data : List UInt8) : WalRecord :=
  .commit key fileId data.length (crc32 data).toNat

def faultyDisk (codec : Codec WalRecord) (fault : DemoteFault) (key : KvBlockKey) (fileId : ℕ) (data : List UInt8)
    (d : Disk) : Disk :=
  match fault with
  | .create => d
  | .write written => d.steps codec [.create fileId, .write fileId (data.take written)]
  | .sync => d.steps codec [.create fileId, .write fileId data]
  | .append written =>
    let d := d.steps codec [.create fileId, .write fileId data, .sync fileId]
    let wal := d.wal.getD []
    { d with wal := some ((Wal.append codec wal (commitRecord key fileId data)).take (wal.length + written)) }
  | .syncWal =>
    d.steps codec [.create fileId, .write fileId data, .sync fileId, .append (commitRecord key fileId data)]

def lifted (key : KvBlockKey) (data : List UInt8) (s : LocalKvStore) : LocalKvStore :=
  { s with
    dram := s.dram.erase key
    dramBytes := s.dramBytes - data.length
    nextFile := s.nextFile + 1 }

def publish (key : KvBlockKey) (data : List UInt8) (s : LocalKvStore) : LocalKvStore :=
  { s with
    ssd := s.ssd.insert key s.nextFile
    ssdBytes := s.ssdBytes + data.length
    metadata := s.metadata.update key fun m => { m with tier := .localSsd } }

/-- What a failed demotion leaves behind; a block without bytes in DRAM is never written.
Source: `lib.rs` `demote_to_ssd`, one of whose calls fails -/
def demoteFailing (codec : Codec WalRecord) (fault : DemoteFault) (key : KvBlockKey) (s : LocalKvStore) (d : Disk) :
    Option (LocalKvStore × Disk) :=
  (s.dram.lookup key).map fun data =>
    (lifted key data s, faultyDisk codec fault key (lifted key data s).nextFile data d)

/-- A demotion that succeeds does the same first, and publishes the block in the end. -/
theorem demoteToSsd_eq_publish {key : KvBlockKey} {data : List UInt8} {s : LocalKvStore}
    (hdata : s.dram.lookup key = some data) :
    demoteToSsd key s = (true, publish key data (lifted key data s),
      [.create (lifted key data s).nextFile, .write (lifted key data s).nextFile data,
        .sync (lifted key data s).nextFile, .append (commitRecord key (lifted key data s).nextFile data),
        .syncWal]) := by
  rw [demoteToSsd, hdata]
  rfl

/-- What a failed demotion of the block `data` should leave: the block can be read, the counters are the sums of what
is in each tier, and every later put brings both tiers within their capacities. -/
structure Survives (codec : Codec WalRecord) (key : KvBlockKey) (data : List UInt8) (s : LocalKvStore) (d : Disk) :
    Prop where
  readable : (s.get d key).1 = .ok data
  dramBytes : s.dramBytes = s.dram.total List.length
  ssdBytes : s.ssdBytes = s.ssd.total fun f => ((d.blocks.lookup f).getD []).length
  capacity : ∀ key' data', ∃ r s' steps, put key' data' s = some (r, s', steps) ∧
    s'.dram.total List.length ≤ s'.dramCapacity ∧
    (s'.ssd.total fun f => (((d.steps codec steps).blocks.lookup f).getD []).length) ≤ s'.ssdCapacity

section fault

variable {codec : Codec WalRecord} {fault : DemoteFault} {key : KvBlockKey} {data : List UInt8} {s : LocalKvStore}

lemma demoteFailing_eq (hdata : s.dram.lookup key = some data) (d : Disk) :
    demoteFailing codec fault key s d =
      some (lifted key data s, faultyDisk codec fault key (lifted key data s).nextFile data d) := by
  rw [demoteFailing, hdata, Option.map_some]

lemma get_lifted (htidy : s.Tidy) (hdata : s.dram.lookup key = some data) (d' : Disk) :
    ((lifted key data s).get d' key).1 = .error .notFound := by
  obtain ⟨m, hm, htier⟩ := (htidy.dram_iff key).mp (AList.mem_iff_exists_lookup.mpr ⟨data, hdata⟩)
  have hgone : (s.dram.erase key).lookup key = none := AList.lookup_erase _ _
  simp only [LocalKvStore.get, lifted, hm, htier, if_false, hgone]

end fault

end LocalKvStore

/-- **A failed demotion loses its block**, whatever the store, and whichever call fails. -/
theorem failed_demotion_loses_block (codec : Codec WalRecord) (fault : DemoteFault) {d d' : Disk}
    {s s' : LocalKvStore} {bytes found : KvBlockKey → Option (List UInt8)} (hsound : LocalKvStore.Sound d s bytes found)
    {key : KvBlockKey} {data : List UInt8} (hdata : s.dram.lookup key = some data)
    (hfail : demoteFailing codec fault key s d = some (s', d')) : ¬Survives codec key data s' d' := by
  intro hsurvives
  rw [demoteFailing_eq hdata] at hfail
  cases hfail
  have hread := hsurvives.readable
  rw [get_lifted hsound.accounted.tidy hdata] at hread
  cases hread

def crowded : LocalKvStore :=
  (putDram (blockKey "b") [4, 5, 6] (putDram (blockKey "a") [1, 2, 3] (new 4 4)).1).1

lemma lookup_crowded : crowded.dram.lookup (blockKey "a") = some [1, 2, 3] := by decide +kernel

theorem failed_demotion_loses_block_crowded :
    ∃ d s' d', demoteFailing recordCodec .sync (blockKey "a") crowded d = some (s', d') ∧
      ¬Survives recordCodec (blockKey "a") [1, 2, 3] s' d' := by
  have hnew := @PoolSession.sound_opened recordCodec _ (.new ⟨none, ∅⟩ 4 4)
  have hput := hnew.exec recordCodec (.putDram (blockKey "a") [1, 2, 3])
  have hputs : LocalKvStore.Sound _ crowded _ _ := hput.exec recordCodec (.putDram (blockKey "b") [4, 5, 6])
  exact ⟨_, _, _, demoteFailing_eq lookup_crowded _, failed_demotion_loses_block recordCodec .sync hputs lookup_crowded
    (demoteFailing_eq lookup_crowded _)⟩

/-- The file of the colder of two blocks cannot be created: the block cannot be read, and after the next put DRAM
holds six bytes where four are allowed. -/
theorem failed_demotion_overfills :
    crowded.dram.lookup (blockKey "a") = some [1, 2, 3] ∧
    ∃ s' d', demoteFailing recordCodec .create (blockKey "a") crowded ⟨some [], ∅⟩ = some (s', d') ∧
      (s'.get d' (blockKey "a")).1 = .error .notFound ∧
      ∃ r s'' steps, put (blockKey "c") [7, 8, 9] s' = some (r, s'', steps) ∧
        s''.dramCapacity = 4 ∧ s''.dram.total List.length = 6 := by
  have hput : ((put (blockKey "c") [7, 8, 9] (lifted (blockKey "a") [1, 2, 3] crowded)).any fun r =>
      decide (r.2.1.dramCapacity = 4 ∧ r.2.1.dram.total List.length = 6)) = true := by
    decide +kernel
  obtain ⟨r, hr, hholds⟩ := (Option.any_eq_true _ _).mp hput
  have htidy : crowded.Tidy := ((tidy_new 4 4).putDram _ _).putDram _ _
  exact ⟨lookup_crowded, _, _, demoteFailing_eq lookup_crowded _, get_lifted htidy lookup_crowded _, _, _, _, hr,
    of_decide_eq_true hholds⟩

end QuillCache.Store
