import QuillCache.Store.LocalKv

/-!
# `DiskTier`: crashes inside a put

An embedding of `DiskTier`, the durable tier on top of `LocalKvStore`, and what recovery
serves after a crash at any point inside `put`.

Overwriting a key is not atomic: `put` first deletes the old block file, and only then writes the new one
and commits it. After a crash in between, recovery serves neither value (`overwrite_loses_key`).
`overwrite_atomic_iff` says exactly at which points a crash is harmless.

Source: `disk_tier.rs`.
-/

namespace QuillCache.Store

open Lib QuillCache.Core LocalKvStore Option

structure DiskTier where
  store : LocalKvStore

namespace DiskTier

def durableKey (key : ObjectKey) (scope : IdentityScope) : KvBlockKey :=
  ⟨scope.modelId, scope.tokenizerId, scope.adapterId, scope.tenantId, "", key, 0, 0⟩

def openNew : DiskTier := ⟨.new 0 (2 ^ 64 - 1)⟩

def recover (codec : Codec WalRecord) (d : Disk) : Option DiskTier :=
  (LocalKvStore.recover codec d 0 (2 ^ 64 - 1)).map .mk

/-- `t` is the result of `recover`, for some iteration order of the hash map. -/
def Recovers (codec : Codec WalRecord) (d : Disk) (t : DiskTier) : Prop :=
  LocalKvStore.Recovers codec d 0 (2 ^ 64 - 1) t.store

lemma recovers_of_recover {codec : Codec WalRecord} {d : Disk} {t : DiskTier} (h : recover codec d = some t) :
    Recovers codec d t := by
  obtain ⟨s, hs, rfl⟩ := map_eq_some_iff.mp h
  exact LocalKvStore.recovers_of_recover hs

def put (key : ObjectKey) (scope : IdentityScope) (data : List UInt8) (t : DiskTier) :
    ReplicaData × DiskTier × List DiskStep :=
  let durable := durableKey key scope
  let (s, steps) := putDram durable data t.store
  let (_, s, steps') := demoteToSsd durable s
  (.disk ("durable:" ++ key) data.length, ⟨s⟩, steps ++ steps')

def get (d : Disk) (key : ObjectKey) (scope : IdentityScope) (t : DiskTier) :
    Except ErrorCode (List UInt8) × DiskTier :=
  let (r, s) := LocalKvStore.get d (durableKey key scope) t.store
  match r with
  | .ok bytes => (.ok bytes, ⟨s⟩)
  | .error (.unsafeReuse violation) => (.error (.unsafeReuse violation), ⟨s⟩)
  | .error _ => (.error .objectNotFound, ⟨s⟩)

end DiskTier

/-! ## Logs without a torn tail -/

/-- The WAL of the directory consists of the frames of `records`. -/
structure Disk.Clean (codec : Codec WalRecord) (d : Disk) (records : List WalRecord) : Prop where
  wal_eq : d.wal = some (log crc32 (records.map codec.encode))
  fits : ∀ r ∈ records, (codec.encode r).length < 2 ^ 32

section clean

variable {codec : Codec WalRecord} {d d' : Disk} {records : List WalRecord}

lemma Disk.Clean.intact (h : d.Clean codec records) :
    Intact crc32 (log crc32 (records.map codec.encode)) (records.map codec.encode) := by
  refine intact_log fun p hp => ?_
  obtain ⟨r, hr, rfl⟩ := List.mem_map.mp hp
  exact h.fits r hr

lemma Disk.Clean.liveCommits_eq (h : d.Clean codec records) :
    liveCommits codec d = some (manifest records) := by
  rw [liveCommits, h.wal_eq]
  simp only
  rw [Wal.replayInto_eq codec applyRecord h.intact, filterMap_encode]
  rfl

lemma Disk.Clean.congr (h : d.Clean codec records) (hwal : d'.wal = d.wal) : d'.Clean codec records :=
  ⟨hwal.trans h.wal_eq, h.fits⟩

lemma Disk.Clean.append (h : d.Clean codec records) {r : WalRecord} (hfits : (codec.encode r).length < 2 ^ 32) :
    (d.step codec (.append r)).Clean codec (records ++ [r]) := by
  refine ⟨?_, fun x hx => ?_⟩
  · have hlog : log crc32 ((records ++ [r]).map codec.encode) =
        log crc32 (records.map codec.encode) ++ frame crc32 (codec.encode r) := by
      rw [List.map_append, log_append, List.map_singleton, log_cons]
      simp [log]
    rw [hlog]
    change some (Wal.append codec (d.wal.getD []) r) = _
    rw [h.wal_eq]
    rfl
  · rcases List.mem_append.mp hx with hx | hx
    · exact h.fits x hx
    · rw [List.mem_singleton.mp hx]
      exact hfits

lemma get_of_recovers {dramCapacity ssdCapacity : ℕ} {s : LocalKvStore} {live : Table KvBlockKey Commit}
    (hlive : liveCommits codec d = some live)
    (h : LocalKvStore.Recovers codec d dramCapacity ssdCapacity s) (k : KvBlockKey) (bytes : List UInt8) :
    (s.get d k).1 = .ok bytes ↔
      ∃ c, trusted d live k = some c ∧ d.blocks.lookup c.fileId = some bytes := by
  obtain ⟨live', hlive', hs⟩ := serves_of_recovers h
  rw [hlive] at hlive'
  cases hlive'
  cases hc : trusted d live k with
  | none =>
    have hkey : k ∉ s.metadata := by
      rw [← AList.lookup_eq_none, hs.metadata_eq, hc]
      rfl
    simp [get_ne_ok hkey]
  | some c =>
    have hm := hs.metadata_eq k
    have hssd := hs.ssd_eq k
    rw [hc] at hm hssd
    obtain ⟨data, hdata, -⟩ := verified_iff.mp (trusted_eq_some.mp hc).2
    rw [get_of_ssd hm rfl hssd hdata]
    simp [hdata]

end clean

namespace DiskTier

/-- The tier and its directory, between two operations: the log has no torn tail, the blocks that the tier
serves are those that recovery would trust, and files are numbered up to `nextFile`. -/
structure Durable (codec : Codec WalRecord) (t : DiskTier) (d : Disk) (records : List WalRecord) : Prop where
  clean : d.Clean codec records
  tier : ∀ k m, t.store.metadata.lookup k = some m → m.tier = .localSsd
  ssd : ∀ k f, t.store.ssd.lookup k = some f →
    ∃ c, trusted d (manifest records) k = some c ∧ c.fileId = f
  numbered : ∀ k c, trusted d (manifest records) k = some c → c.fileId ≤ t.store.nextFile

lemma durable_of_recovers {codec : Codec WalRecord} {d : Disk} {records : List WalRecord} {t : DiskTier}
    (hclean : d.Clean codec records) (h : Recovers codec d t) : Durable codec t d records := by
  obtain ⟨live, hlive, hs⟩ := serves_of_recovers h
  rw [hclean.liveCommits_eq] at hlive
  cases hlive
  refine ⟨hclean, fun k m hm => ?_, fun k f hf => ?_, fun k c hc => (hs.fileId_lt k c hc).le⟩
  · rw [hs.metadata_eq] at hm
    obtain ⟨c, -, rfl⟩ := map_eq_some_iff.mp hm
    rfl
  · rw [hs.ssd_eq] at hf
    exact map_eq_some_iff.mp hf

/-! ## Overwriting a key -/

def overwriteSteps (durable : KvBlockKey) (f n : ℕ) (data : List UInt8) : List DiskStep :=
  [.delete f, .create n, .write n data, .sync n, .append (.commit durable n data.length (crc32 data).toNat),
    .syncWal]

section overwrite

variable {codec : Codec WalRecord} {t : DiskTier} {d : Disk} {records : List WalRecord} {key : ObjectKey}
  {scope : IdentityScope} {old new : List UInt8}

lemma get_eq_ok {bytes : List UInt8} : (t.get d key scope).1 = .ok bytes ↔
    (t.store.get d (durableKey key scope)).1 = .ok bytes := by
  rw [get]
  generalize t.store.get d (durableKey key scope) = r
  obtain ⟨r, s⟩ := r
  match r with
  | .ok b => simp
  | .error (.unsafeReuse v) => simp
  | .error .notFound => simp
  | .error (.io m) => simp

lemma Durable.served (ht : Durable codec t d records) (hold : (t.get d key scope).1 = .ok old) :
    ∃ m f, t.store.metadata.lookup (durableKey key scope) = some m ∧ m.tier = .localSsd ∧
      t.store.ssd.lookup (durableKey key scope) = some f ∧ d.blocks.lookup f = some old := by
  rw [get_eq_ok, LocalKvStore.get] at hold
  cases hm : t.store.metadata.lookup (durableKey key scope) with
  | none =>
    rw [hm] at hold
    exact absurd hold (firstViolation_ne_ok _ _ _)
  | some m =>
    have htier := ht.tier _ m hm
    simp only [hm, htier, if_true] at hold
    cases hf : t.store.ssd.lookup (durableKey key scope) with
    | none => simp [hf] at hold
    | some f =>
      simp only [hf, readBlock] at hold
      cases hb : d.blocks.lookup f with
      | none => simp [hb] at hold
      | some data =>
        rw [hb] at hold
        cases hold
        exact ⟨m, f, rfl, htier, rfl, hb⟩

lemma put_steps {m : BlockMeta} {f : ℕ} (hm : t.store.metadata.lookup (durableKey key scope) = some m)
    (htier : m.tier = .localSsd) (hf : t.store.ssd.lookup (durableKey key scope) = some f) :
    (t.put key scope new).2.2 =
      overwriteSteps (durableKey key scope) f (t.store.nextFile + 1) new := by
  simp only [put, putDram, removeInternal, takeOut, hm, htier, if_true, hf, demoteToSsd, AList.lookup_insert]
  rfl

section crash

variable {f n i : ℕ} {durable : KvBlockKey}

/-- The directory after the first `i` steps of a put over a block. -/
def crashed (codec : Codec WalRecord) (d : Disk) (durable : KvBlockKey) (f n : ℕ) (data : List UInt8) (i : ℕ) :
    Disk := d.steps codec ((overwriteSteps durable f n data).take i)

lemma lookup_crashed_old (hne : f ≠ n) (hi : 0 < i) :
    (crashed codec d durable f n new i).blocks.lookup f = none := by
  match i, hi with
  | 1, _ | 2, _ | 3, _ | 4, _ | 5, _ | _ + 6, _ => simp [crashed, overwriteSteps, hne]

lemma lookup_crashed_new (hi : 3 ≤ i) :
    (crashed codec d durable f n new i).blocks.lookup n = some new := by
  match i, hi with
  | 3, _ | 4, _ | 5, _ | _ + 6, _ => simp [crashed, overwriteSteps]

lemma lookup_crashed_ne {g : ℕ} (hf : g ≠ f) (hn : g ≠ n) :
    (crashed codec d durable f n new i).blocks.lookup g = d.blocks.lookup g := by
  match i with
  | 0 | 1 | 2 | 3 | 4 | 5 | _ + 6 => simp [crashed, overwriteSteps, hf, hn]

lemma clean_crashed_lt (hclean : d.Clean codec records) (hi : i < 5) :
    (crashed codec d durable f n new i).Clean codec records := by
  match i, hi with
  | 0, _ | 1, _ | 2, _ | 3, _ | 4, _ => exact hclean.congr rfl

lemma clean_crashed_ge (hclean : d.Clean codec records) (hi : 5 ≤ i)
    (hfits : (codec.encode (.commit durable n new.length (crc32 new).toNat)).length < 2 ^ 32) :
    (crashed codec d durable f n new i).Clean codec
      (records ++ [.commit durable n new.length (crc32 new).toNat]) := by
  have hwal : (crashed codec d durable f n new i).wal =
      (d.step codec (.append (.commit durable n new.length (crc32 new).toNat))).wal := by
    match i, hi with
    | 5, _ | _ + 6, _ => simp [crashed, overwriteSteps, Disk.step]
  exact (hclean.append hfits).congr hwal

end crash

/-- A crash at this point is harmless: the old file is not yet deleted; or the commit is logged, no other
block lies in the deleted file, and no other key has a commit for the new file that it would match. -/
def Harmless (t : DiskTier) (d : Disk) (records : List WalRecord) (durable : KvBlockKey) (f : ℕ)
    (new : List UInt8) (i : ℕ) : Prop :=
  i = 0 ∨ (5 ≤ i ∧
    (∀ k c, k ≠ durable → trusted d (manifest records) k = some c → c.fileId ≠ f) ∧
    ∀ k, k ≠ durable → (manifest records).lookup k ≠
      some ⟨t.store.nextFile + 1, new.length, (crc32 new).toNat⟩)

section outcome

variable {f i : ℕ} {durable : KvBlockKey}

lemma old_not_trusted (ht : Durable codec t d records) (hf : t.store.ssd.lookup durable = some f) (hi : 0 < i) :
    trusted (crashed codec d durable f (t.store.nextFile + 1) new i) (manifest records) durable =
      none := by
  obtain ⟨c, hc, rfl⟩ := ht.ssd durable f hf
  have hne : c.fileId ≠ t.store.nextFile + 1 := by
    have := ht.numbered durable c hc
    omega
  rw [trusted, (trusted_eq_some.mp hc).1]
  have hnot : c.verified (crashed codec d durable c.fileId (t.store.nextFile + 1) new i) = false := by
    rw [Commit.verified, lookup_crashed_old hne hi]
    rfl
  simp [Option.filter, hnot]

lemma new_trusted (hi : 5 ≤ i) :
    trusted (crashed codec d durable f (t.store.nextFile + 1) new i)
      (manifest (records ++ [.commit durable (t.store.nextFile + 1) new.length (crc32 new).toNat]))
      durable = some ⟨t.store.nextFile + 1, new.length, (crc32 new).toNat⟩ := by
  rw [trusted_eq_some, lookup_manifest_append]
  refine ⟨if_pos rfl, verified_iff.mpr ⟨new, lookup_crashed_new (by omega), rfl, rfl⟩⟩

lemma trusted_other {n : ℕ} {d' : Disk} {k : KvBlockKey} (hk : k ≠ durable) :
    trusted d' (manifest (records ++ [.commit durable n new.length (crc32 new).toNat])) k =
      trusted d' (manifest records) k := by
  rw [trusted, lookup_manifest_append]
  exact congrArg _ (if_neg (Ne.symm hk))

lemma verified_crashed {c : Commit} {n : ℕ} (hf : c.fileId ≠ f) (hn : c.fileId ≠ n) :
    c.verified (crashed codec d durable f n new i) = c.verified d := by
  rw [Commit.verified, Commit.verified, lookup_crashed_ne hf hn]

/-- The commits of other keys, before and after the crash: both are trusted or none is, for the same file,
exactly if no other block lay in the deleted file and none matches the new one. -/
lemma others_unchanged_iff (ht : Durable codec t d records) (hf : t.store.ssd.lookup durable = some f) (hi : 5 ≤ i) :
    (∀ k, k ≠ durable → ∀ bytes,
      (∃ c, trusted (crashed codec d durable f (t.store.nextFile + 1) new i) (manifest records) k =
        some c ∧ (crashed codec d durable f (t.store.nextFile + 1) new i).blocks.lookup c.fileId = some bytes) ↔
      ∃ c, trusted d (manifest records) k = some c ∧ d.blocks.lookup c.fileId = some bytes) ↔
    (∀ k c, k ≠ durable → trusted d (manifest records) k = some c → c.fileId ≠ f) ∧
      ∀ k, k ≠ durable → (manifest records).lookup k ≠
        some ⟨t.store.nextFile + 1, new.length, (crc32 new).toNat⟩ := by
  have hne : f ≠ t.store.nextFile + 1 := by
    obtain ⟨c, hc, rfl⟩ := ht.ssd durable f hf
    have := ht.numbered durable c hc
    omega
  constructor
  · intro h
    refine ⟨fun k c hk hc hcf => ?_, fun k hk hstale => ?_⟩
    · -- the other block was served before, and is not any more
      obtain ⟨data, hdata, -⟩ := verified_iff.mp (trusted_eq_some.mp hc).2
      obtain ⟨c', hc', hdata'⟩ := (h k hk data).mpr ⟨c, hc, hdata⟩
      have hsame : c' = c := by
        have h₁ := (trusted_eq_some.mp hc).1
        rw [(trusted_eq_some.mp hc').1] at h₁
        exact Option.some.inj h₁
      rw [hsame, hcf, lookup_crashed_old hne (by omega)] at hdata'
      cases hdata'
    · -- the other key was not served before, and is served the new bytes now
      have hnow : trusted (crashed codec d durable f (t.store.nextFile + 1) new i)
          (manifest records) k = some ⟨t.store.nextFile + 1, new.length, (crc32 new).toNat⟩ :=
        trusted_eq_some.mpr ⟨hstale, verified_iff.mpr ⟨new, lookup_crashed_new (by omega), rfl, rfl⟩⟩
      obtain ⟨c, hc, -⟩ := (h k hk new).mp ⟨_, hnow, lookup_crashed_new (by omega)⟩
      have hle := ht.numbered k c hc
      have hsame : c = ⟨t.store.nextFile + 1, new.length, (crc32 new).toNat⟩ := by
        have h₁ := (trusted_eq_some.mp hc).1
        rw [hstale] at h₁
        exact (Option.some.inj h₁).symm
      rw [hsame] at hle
      simp at hle
  · rintro ⟨hunshared, hfresh⟩ k hk bytes
    refine exists_congr fun c => ?_
    by_cases hcn : c.fileId = t.store.nextFile + 1
    · -- no commit for the new file is trusted, before or after
      have hbefore : trusted d (manifest records) k ≠ some c := fun hc => by
        have := ht.numbered k c hc
        omega
      have hafter : trusted (crashed codec d durable f (t.store.nextFile + 1) new i)
          (manifest records) k ≠ some c := fun hc => by
        obtain ⟨hlookup, hver⟩ := trusted_eq_some.mp hc
        obtain ⟨data, hdata, hlen, hcrc⟩ := verified_iff.mp hver
        rw [hcn, lookup_crashed_new (by omega)] at hdata
        cases hdata
        refine hfresh k hk ?_
        rw [hlookup, ← hcn, hlen, hcrc]
      simp [hbefore, hafter]
    · by_cases hcf : c.fileId = f
      · have hbefore : trusted d (manifest records) k ≠ some c :=
          fun hc => hunshared k c hk hc hcf
        have hgone : (crashed codec d durable f (t.store.nextFile + 1) new i).blocks.lookup c.fileId = none := by
          rw [hcf]
          exact lookup_crashed_old hne (by omega)
        simp [hbefore, hgone]
      · rw [trusted_eq_some, trusted_eq_some, verified_crashed hcf hcn, lookup_crashed_ne hcf hcn]

end outcome

end overwrite

/-- **Overwriting is atomic exactly at the harmless points**: for a tier in agreement with its directory, a
key that it serves, and a crash after the first `i` steps of a put over that key, recovery serves the old
or the new bytes for the key and the same as before for all others if and only if the crash is `Harmless`. -/
theorem overwrite_atomic_iff (codec : Codec WalRecord) (t t₀ t' : DiskTier) (d : Disk)
    (records : List WalRecord) (ht : Durable codec t d records) (key : ObjectKey) (scope : IdentityScope)
    (old new : List UInt8) (hold : (t.get d key scope).1 = .ok old) (i : ℕ)
    (hfits : (codec.encode (.commit (durableKey key scope) (t.store.nextFile + 1) new.length
      (crc32 new).toNat)).length < 2 ^ 32)
    (h₀ : Recovers codec d t₀) (h' : Recovers codec (d.steps codec ((t.put key scope new).2.2.take i)) t') :
    (((t'.get (d.steps codec ((t.put key scope new).2.2.take i)) key scope).1 = .ok old ∨
        (t'.get (d.steps codec ((t.put key scope new).2.2.take i)) key scope).1 = .ok new) ∧
      ∀ k, k ≠ durableKey key scope → ∀ bytes,
        (t'.store.get (d.steps codec ((t.put key scope new).2.2.take i)) k).1 = .ok bytes ↔
          (t₀.store.get d k).1 = .ok bytes) ↔
    ∃ f, t.store.ssd.lookup (durableKey key scope) = some f ∧
      Harmless t d records (durableKey key scope) f new i := by
  obtain ⟨m, f, hm, htier, hf, hold⟩ := ht.served hold
  rw [put_steps hm htier hf] at h' ⊢
  change Recovers codec (crashed codec d (durableKey key scope) f (t.store.nextFile + 1) new i) t' at h'
  change (((t'.get (crashed codec d (durableKey key scope) f (t.store.nextFile + 1) new i) key scope).1 = _ ∨
    (t'.get (crashed codec d (durableKey key scope) f (t.store.nextFile + 1) new i) key scope).1 = _) ∧
    ∀ k, _ → ∀ bytes,
      (t'.store.get (crashed codec d (durableKey key scope) f (t.store.nextFile + 1) new i) k).1 = _ ↔ _) ↔ _
  have hbefore := get_of_recovers ht.clean.liveCommits_eq h₀
  obtain ⟨c, hc, hcf⟩ := ht.ssd _ f hf
  simp only [hf, Option.some.injEq, exists_eq_left', get_eq_ok, hbefore]
  rcases Nat.lt_or_ge i 5 with hi | hi
  · have hafter := get_of_recovers (clean_crashed_lt ht.clean hi).liveCommits_eq h'
    simp only [hafter]
    rcases Nat.eq_zero_or_pos i with rfl | hpos
    · -- nothing has happened yet
      refine iff_of_true ⟨.inl ⟨c, hc, hcf ▸ hold⟩, fun k _ bytes => Iff.rfl⟩ (.inl rfl)
    · refine iff_of_false ?_ ?_
      · rw [old_not_trusted ht hf hpos]
        simp
      · rintro (hzero | ⟨hge, -⟩) <;> omega
  · have hafter := get_of_recovers (clean_crashed_ge ht.clean hi hfits).liveCommits_eq h'
    have hnew : (t'.store.get (crashed codec d (durableKey key scope) f (t.store.nextFile + 1) new i)
        (durableKey key scope)).1 = .ok new :=
      (hafter _ _).mpr ⟨_, new_trusted hi, lookup_crashed_new (by omega)⟩
    rw [and_iff_right (.inr hnew), Harmless, ← others_unchanged_iff ht hf hi]
    have hothers : ∀ k, k ≠ durableKey key scope → ∀ bytes,
        (t'.store.get (crashed codec d (durableKey key scope) f (t.store.nextFile + 1) new i) k).1 = .ok bytes ↔
        ∃ c, trusted (crashed codec d (durableKey key scope) f (t.store.nextFile + 1) new i)
          (manifest records) k = some c ∧
          (crashed codec d (durableKey key scope) f (t.store.nextFile + 1) new i).blocks.lookup c.fileId =
            some bytes := by
      intro k hk bytes
      rw [hafter, trusted_other hk]
    constructor
    · intro h
      exact .inr ⟨hi, fun k hk bytes => (hothers k hk bytes).symm.trans (h k hk bytes)⟩
    · rintro (hzero | ⟨-, h⟩) k hk bytes
      · omega
      · exact (hothers k hk bytes).trans (h k hk bytes)

def oneByte : DiskTier × Disk :=
  let (_, t, steps) := openNew.put "k" ⟨"m", "t", none, "u"⟩ [1]
  (t, (Disk.mk (some []) ∅).steps recordCodec steps)

def oneByteRecord : WalRecord := .commit (durableKey "k" ⟨"m", "t", none, "u"⟩) 1 1 (crc32 [1]).toNat

def interrupted (t : DiskTier) (i : ℕ) : Disk :=
  oneByte.2.steps recordCodec ((t.put "k" ⟨"m", "t", none, "u"⟩ [2]).2.2.take i)

theorem overwrite_atomic_iff_oneByte :
    ∃ t t', Recovers recordCodec oneByte.2 t ∧ Recovers recordCodec (interrupted t 6) t' ∧
      ((((t'.get (interrupted t 6) "k" ⟨"m", "t", none, "u"⟩).1 = .ok [1] ∨
          (t'.get (interrupted t 6) "k" ⟨"m", "t", none, "u"⟩).1 = .ok [2]) ∧
        ∀ k, k ≠ durableKey "k" ⟨"m", "t", none, "u"⟩ → ∀ bytes,
          (t'.store.get (interrupted t 6) k).1 = .ok bytes ↔ (t.store.get oneByte.2 k).1 = .ok bytes) ↔
      ∃ f, t.store.ssd.lookup (durableKey "k" ⟨"m", "t", none, "u"⟩) = some f ∧
        Harmless t oneByte.2 [oneByteRecord] (durableKey "k" ⟨"m", "t", none, "u"⟩) f [2] 6) := by
  have hrun : ((recover recordCodec oneByte.2).any fun t =>
      decide ((t.get oneByte.2 "k" ⟨"m", "t", none, "u"⟩).1 = .ok [1] ∧
        (recordCodec.encode (.commit (durableKey "k" ⟨"m", "t", none, "u"⟩) (t.store.nextFile + 1) 1
          (crc32 [2]).toNat)).length < 2 ^ 32 ∧
        (recover recordCodec (interrupted t 6)).isSome = true)) = true := by decide +kernel
  have hclean : oneByte.2.Clean recordCodec [oneByteRecord] := ⟨by decide +kernel, by decide +kernel⟩
  obtain ⟨t, ht, hrun⟩ := (any_eq_true _ _).mp hrun
  obtain ⟨hold, hfits, hrun⟩ := of_decide_eq_true hrun
  obtain ⟨t', ht'⟩ := isSome_iff_exists.mp hrun
  have h := recovers_of_recover ht
  have h' := recovers_of_recover ht'
  exact ⟨t, t', h, h', overwrite_atomic_iff recordCodec t t t' oneByte.2 [oneByteRecord]
    (durable_of_recovers hclean h) "k" ⟨"m", "t", none, "u"⟩ [1] [2] hold 6 hfits h h'⟩

/-- A crash right after `put` has deleted the old file: the key is lost, with its old and its new bytes. -/
theorem overwrite_loses_key :
    (oneByte.1.get oneByte.2 "k" ⟨"m", "t", none, "u"⟩).1 = .ok [1] ∧
      ∃ t', Recovers recordCodec (interrupted oneByte.1 1) t' ∧
        (t'.get (interrupted oneByte.1 1) "k" ⟨"m", "t", none, "u"⟩).1 = .error .objectNotFound := by
  have hrun : ((recover recordCodec (interrupted oneByte.1 1)).any fun t' =>
      decide ((t'.get (interrupted oneByte.1 1) "k" ⟨"m", "t", none, "u"⟩).1 = .error .objectNotFound)) =
        true := by decide +kernel
  obtain ⟨t', ht', hget⟩ := (any_eq_true _ _).mp hrun
  exact ⟨by decide +kernel, t', recovers_of_recover ht', of_decide_eq_true hget⟩

end DiskTier

end QuillCache.Store
