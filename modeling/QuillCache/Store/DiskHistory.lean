import QuillCache.Store.DiskTier

/-!
# Histories of a durable directory

A byte pool goes through puts, demotions and drops, dies at any step of any of them, and is recovered from its
directory. A `Pool` is a store with its directory and the bytes that were last put under each key.

Files are numbered from the blocks that survive a recovery, while the log keeps the commits of blocks whose file is
gone. As long as no file is created under the number of such a commit, the blocks in files never get into each other's
way (`block_files_exclusive`). Otherwise a later recovery may serve one file under two keys (`file_served_twice`).
-/

namespace QuillCache.Store

open Lib QuillCache.Core LocalKvStore Relation AList Function List Option

/-- The operations that move blocks. A `put` is a sequence of them (`put_eq_ops`). -/
inductive BlockOp where
  | putDram (key : KvBlockKey) (data : List UInt8)
  | demoteToSsd (key : KvBlockKey)
  | dropBlock (key : KvBlockKey)

namespace BlockOp

def key : BlockOp → KvBlockKey
  | putDram key _ => key
  | demoteToSsd key => key
  | dropBlock key => key

def exec : BlockOp → LocalKvStore → LocalKvStore × List DiskStep
  | putDram key data, s => LocalKvStore.putDram key data s
  | demoteToSsd key, s => (LocalKvStore.demoteToSsd key s).2
  | dropBlock key, s => (LocalKvStore.dropBlock key s).2

def note : BlockOp → (KvBlockKey → Option (List UInt8)) → KvBlockKey → Option (List UInt8)
  | putDram key data, bytes => Function.update bytes key (some data)
  | demoteToSsd _, bytes => bytes
  | dropBlock key, bytes => Function.update bytes key none

end BlockOp

/-- A store, its directory, and the bytes last put under each key. -/
structure Pool where
  store : LocalKvStore
  disk : Disk
  bytes : KvBlockKey → Option (List UInt8)

namespace Pool

def new (dramCapacity ssdCapacity : ℕ) (d : Disk) : Pool :=
  ⟨.new dramCapacity ssdCapacity, d.truncated, fun _ => none⟩

/-- An operation is done, or the process dies after some of its steps and the store is recovered: what was
not recovered is gone. -/
inductive Step (codec : Codec WalRecord) (allowed : BlockOp → Pool → Prop) (op : BlockOp) : Pool → Pool → Prop where
  | run {σ : Pool} (h : allowed op σ) :
      Step codec allowed op σ
        ⟨(op.exec σ.store).1, σ.disk.steps codec (op.exec σ.store).2, op.note σ.bytes⟩
  | crash {σ : Pool} {s : LocalKvStore} {dramCapacity ssdCapacity : ℕ} (h : allowed op σ) (i : ℕ)
      (hrec : Recovers codec (σ.disk.steps codec ((op.exec σ.store).2.take i)) dramCapacity ssdCapacity s) :
      Step codec allowed op σ
        ⟨s, σ.disk.steps codec ((op.exec σ.store).2.take i), fun k => if k ∈ s.ssd then σ.bytes k else none⟩

/-- The file that a demotion creates has a number that no key's last commit names, and records fit into
frames. -/
def freshFiles (codec : Codec WalRecord) : BlockOp → Pool → Prop
  | .putDram _ _, _ => True
  | .demoteToSsd key, σ => ∀ data, σ.store.dram.lookup key = some data →
      (codec.encode (.commit key (σ.store.nextFile + 1) data.length (crc32 data).toNat)).length < 2 ^ 32 ∧
      ∀ live, liveCommits codec σ.disk = some live → ∀ k c, live.lookup k = some c →
        c.fileId ≠ σ.store.nextFile + 1
  | .dropBlock key, _ => (codec.encode (.remove key)).length < 2 ^ 32

instance (live : Table KvBlockKey Commit) (n : ℕ) :
    Decidable (∀ k c, live.lookup k = some c → c.fileId ≠ n) :=
  decidable_of_iff (∀ e ∈ live.entries, e.2.fileId ≠ n)
    ⟨fun h k c hc => h ⟨k, c⟩ (mem_lookup_iff.mp hc), fun h e he => h e.1 e.2 (mem_lookup_iff.mpr he)⟩

instance (codec : Codec WalRecord) (op : BlockOp) (σ : Pool) : Decidable (freshFiles codec op σ) :=
  match op with
  | .putDram _ _ => isTrue trivial
  | .demoteToSsd key => inferInstanceAs (Decidable (∀ data ∈ σ.store.dram.lookup key,
      (codec.encode (.commit key (σ.store.nextFile + 1) data.length (crc32 data).toNat)).length < 2 ^ 32 ∧
      ∀ live ∈ liveCommits codec σ.disk, ∀ k c, live.lookup k = some c → c.fileId ≠ σ.store.nextFile + 1))
  | .dropBlock key => inferInstanceAs (Decidable ((codec.encode (.remove key)).length < 2 ^ 32))

end Pool

/-! ## The directory -/

/-- The file and the bytes of a committed block whose file is there. -/
def durable (d : Disk) (live : Table KvBlockKey Commit) (k : KvBlockKey) : Option (ℕ × List UInt8) :=
  (live.lookup k).bind fun c => (d.blocks.lookup c.fileId).map fun data => (c.fileId, data)

/-- No two keys have commits for the same file, and a file that is there matches its commit. -/
structure Disk.Sound (codec : Codec WalRecord) (d : Disk) (records : List WalRecord) : Prop where
  clean : d.Clean codec records
  exclusive : ∀ j k c c', (manifest records).lookup j = some c →
    (manifest records).lookup k = some c' → c.fileId = c'.fileId → j = k
  matching : ∀ k c data, (manifest records).lookup k = some c →
    d.blocks.lookup c.fileId = some data → data.length = c.len ∧ (crc32 data).toNat = c.crc

section disk

variable {codec : Codec WalRecord} {d : Disk} {records : List WalRecord} {k key : KvBlockKey} {f n : ℕ}
  {data : List UInt8}

lemma durable_eq_some {live : Table KvBlockKey Commit} : durable d live k = some (f, data) ↔
    ∃ c, live.lookup k = some c ∧ c.fileId = f ∧ d.blocks.lookup f = some data := by
  rw [durable, bind_eq_some_iff]
  refine exists_congr fun c => and_congr_right fun _ => ?_
  rw [map_eq_some_iff]
  constructor
  · rintro ⟨data', hdata', heq⟩
    cases heq
    exact ⟨rfl, hdata'⟩
  · rintro ⟨rfl, hdata⟩
    exact ⟨data, hdata, rfl⟩

lemma Disk.Sound.congr (h : d.Sound codec records) (d' : Disk) (hwal : d'.wal = d.wal)
    (hblocks : ∀ k c, (manifest records).lookup k = some c →
      d'.blocks.lookup c.fileId = d.blocks.lookup c.fileId) :
    d'.Sound codec records ∧
      durable d' (manifest records) = durable d (manifest records) := by
  refine ⟨⟨h.clean.congr hwal, h.exclusive, fun k c data hc hdata => ?_⟩, funext fun k => ?_⟩
  · rw [hblocks k c hc] at hdata
    exact h.matching k c data hc hdata
  · rw [durable, durable]
    cases hc : (manifest records).lookup k with
    | none => rfl
    | some c => rw [bind_some, bind_some, hblocks k c hc]

lemma Disk.Sound.delete (h : d.Sound codec records)
    (hf : durable d (manifest records) key = some (f, data)) :
    (d.step codec (.delete f)).Sound codec records ∧
      durable (d.step codec (.delete f)) (manifest records) =
        Function.update (durable d (manifest records)) key none := by
  obtain ⟨c₀, hc₀, hc₀f, -⟩ := durable_eq_some.mp hf
  refine ⟨⟨h.clean.congr rfl, h.exclusive, fun k c data hc hdata => ?_⟩, funext fun k => ?_⟩
  · rw [Disk.lookup_delete] at hdata
    split_ifs at hdata
    exact h.matching k c data hc hdata
  · by_cases hk : k = key
    · subst hk
      rw [update_self, durable, hc₀, bind_some, Disk.lookup_delete, if_pos hc₀f]
      rfl
    · rw [update_of_ne hk, durable, durable]
      cases hc : (manifest records).lookup k with
      | none => rfl
      | some c =>
        have hne : c.fileId ≠ f := fun heq => hk (h.exclusive k key c c₀ hc hc₀ (heq.trans hc₀f.symm))
        rw [bind_some, bind_some, Disk.lookup_delete, if_neg hne]

lemma Disk.Sound.commit (h : d.Sound codec records)
    (hfits : (codec.encode (.commit key n data.length (crc32 data).toNat)).length < 2 ^ 32)
    (hfresh : ∀ k c, (manifest records).lookup k = some c → c.fileId ≠ n)
    (hdata : d.blocks.lookup n = some data) :
    (d.step codec (.append (.commit key n data.length (crc32 data).toNat))).Sound codec
        (records ++ [.commit key n data.length (crc32 data).toNat]) ∧
      durable (d.step codec (.append (.commit key n data.length (crc32 data).toNat)))
        (manifest (records ++ [.commit key n data.length (crc32 data).toNat])) =
        Function.update (durable d (manifest records)) key (some (n, data)) := by
  have hother : ∀ k, k ≠ key →
      (manifest (records ++ [.commit key n data.length (crc32 data).toNat])).lookup k =
        (manifest records).lookup k := fun k hk => by
    rw [lookup_manifest_append]
    exact if_neg (Ne.symm hk)
  have hkey : (manifest (records ++ [.commit key n data.length (crc32 data).toNat])).lookup key =
      some ⟨n, data.length, (crc32 data).toNat⟩ := by
    rw [lookup_manifest_append]
    exact if_pos rfl
  refine ⟨⟨h.clean.append hfits, fun j k c c' hc hc' heq => ?_, fun k c data' hc hdata' => ?_⟩,
    funext fun k => ?_⟩
  · by_cases hj : j = key <;> by_cases hk : k = key
    · rw [hj, hk]
    · rw [hj, hkey] at hc
      rw [hother k hk] at hc'
      cases hc
      exact absurd heq.symm (hfresh k c' hc')
    · rw [hk, hkey] at hc'
      rw [hother j hj] at hc
      cases hc'
      exact absurd heq (hfresh j c hc)
    · rw [hother j hj] at hc
      rw [hother k hk] at hc'
      exact h.exclusive j k c c' hc hc' heq
  · by_cases hk : k = key
    · rw [hk, hkey] at hc
      cases hc
      rw [Disk.blocks_append, hdata] at hdata'
      cases hdata'
      exact ⟨rfl, rfl⟩
    · rw [hother k hk] at hc
      exact h.matching k c data' hc hdata'
  · by_cases hk : k = key
    · rw [hk, update_self, durable, hkey, bind_some, Disk.blocks_append, hdata]
      rfl
    · rw [update_of_ne hk, durable, durable, hother k hk]
      rfl

lemma Disk.Sound.remove (h : d.Sound codec records) (hfits : (codec.encode (.remove key)).length < 2 ^ 32) :
    (d.step codec (.append (.remove key))).Sound codec (records ++ [.remove key]) ∧
      durable (d.step codec (.append (.remove key))) (manifest (records ++ [.remove key])) =
        Function.update (durable d (manifest records)) key none := by
  have hother : ∀ k, k ≠ key → (manifest (records ++ [.remove key])).lookup k = (manifest records).lookup k :=
    fun k hk => by
      rw [lookup_manifest_append]
      exact if_neg (Ne.symm hk)
  have hkey : (manifest (records ++ [.remove key])).lookup key = none := by
    rw [lookup_manifest_append]
    exact if_pos rfl
  have hback : ∀ k c, (manifest (records ++ [.remove key])).lookup k = some c →
      (manifest records).lookup k = some c := fun k c hc => by
    by_cases hk : k = key
    · rw [hk, hkey] at hc
      cases hc
    · rwa [hother k hk] at hc
  refine ⟨⟨h.clean.append hfits, fun j k c c' hc hc' => h.exclusive j k c c' (hback j c hc) (hback k c' hc'),
    fun k c data hc => h.matching k c data (hback k c hc)⟩, funext fun k => ?_⟩
  by_cases hk : k = key
  · rw [hk, update_self, durable, hkey]
    rfl
  · rw [update_of_ne hk, durable, durable, hother k hk]
    rfl

end disk

/-! ## The pool -/

namespace Pool

/-- The store serves from its SSD tier exactly the committed blocks whose file is there, and every block it
holds has the bytes that were put last. -/
structure Inv (codec : Codec WalRecord) (σ : Pool) (records : List WalRecord) : Prop where
  sound : σ.disk.Sound codec records
  tidy : σ.store.Tidy
  ssd_eq : ∀ k, σ.store.ssd.lookup k = (durable σ.disk (manifest records) k).map Prod.fst
  ssd_bytes : ∀ k f data, durable σ.disk (manifest records) k = some (f, data) → σ.bytes k = some data
  dram_bytes : ∀ k data, σ.store.dram.lookup k = some data → σ.bytes k = some data

section inv

variable {codec : Codec WalRecord} {σ σ' : Pool} {records : List WalRecord} {op : BlockOp}

lemma inv_new (codec : Codec WalRecord) (dramCapacity ssdCapacity : ℕ) (d : Disk) :
    (new dramCapacity ssdCapacity d).Inv codec [] where
  sound := ⟨⟨rfl, nofun⟩, nofun, nofun⟩
  tidy := tidy_new _ _
  ssd_eq _ := rfl
  ssd_bytes _ _ _ h := by cases h
  dram_bytes _ _ h := by cases h

def target (op : BlockOp) (σ : Pool) (live : KvBlockKey → Option (ℕ × List UInt8)) :
    KvBlockKey → Option (ℕ × List UInt8) :=
  match op with
  | .putDram key _ => Function.update live key none
  | .demoteToSsd key => (σ.store.dram.lookup key).elim live fun data =>
    Function.update live key (some (σ.store.nextFile + 1, data))
  | .dropBlock key => Function.update live key none

/-- After any number of steps of an operation the directory is sound, and the committed blocks are those
before the operation or those after it. -/
def Halfway (codec : Codec WalRecord) (op : BlockOp) (σ : Pool) (records : List WalRecord) (i : ℕ) : Prop :=
  ∃ records', (σ.disk.steps codec ((op.exec σ.store).2.take i)).Sound codec records' ∧
    (durable (σ.disk.steps codec ((op.exec σ.store).2.take i)) (manifest records') =
        target op σ (durable σ.disk (manifest records)) ∨
      i < (op.exec σ.store).2.length ∧
      durable (σ.disk.steps codec ((op.exec σ.store).2.take i)) (manifest records') =
        durable σ.disk (manifest records))

variable {k : KvBlockKey}

lemma durable_of_ssd (h : σ.Inv codec records) {f : ℕ} (hf : σ.store.ssd.lookup k = some f) :
    ∃ data, durable σ.disk (manifest records) k = some (f, data) := by
  rw [h.ssd_eq, map_eq_some_iff] at hf
  obtain ⟨⟨f', data⟩, hdurable, rfl⟩ := hf
  exact ⟨data, hdurable⟩

lemma durable_of_not_ssd (h : σ.Inv codec records) (hk : σ.store.ssd.lookup k = none) :
    Function.update (durable σ.disk (manifest records)) k none = durable σ.disk (manifest records) := by
  rw [h.ssd_eq, map_eq_none_iff] at hk
  rw [← hk, update_eq_self]

lemma halfway_putDram (h : σ.Inv codec records) (key : KvBlockKey) (data : List UInt8) (i : ℕ) :
    Halfway codec (.putDram key data) σ records i := by
  obtain ⟨-, -, -, -, hsteps⟩ := h.tidy.putDram_eq key data
  change ((BlockOp.putDram key data).exec σ.store).2 = _ at hsteps
  rw [Halfway, hsteps]
  cases hf : σ.store.ssd.lookup key with
  | none =>
    rw [elim_none, take_nil]
    exact ⟨records, h.sound, .inl (durable_of_not_ssd h hf).symm⟩
  | some f =>
    obtain ⟨old, hold⟩ := durable_of_ssd h hf
    match i with
    | 0 => exact ⟨records, h.sound, .inr ⟨Nat.zero_lt_one, rfl⟩⟩
    | i + 1 =>
      obtain ⟨hsound, hdurable⟩ := h.sound.delete hold
      rw [elim_some, take_succ_cons, take_nil]
      exact ⟨records, hsound, .inl hdurable⟩

lemma halfway_dropBlock (h : σ.Inv codec records) (key : KvBlockKey)
    (hfits : (codec.encode (.remove key)).length < 2 ^ 32) (i : ℕ) :
    Halfway codec (.dropBlock key) σ records i := by
  obtain ⟨-, -, -, -, hsteps⟩ := h.tidy.takeOut_eq [.append (.remove key), .syncWal] key
  change ((BlockOp.dropBlock key).exec σ.store).2 = _ at hsteps
  rw [Halfway, hsteps]
  cases hf : σ.store.ssd.lookup key with
  | none =>
    rw [elim_none, take_nil]
    exact ⟨records, h.sound, .inl (durable_of_not_ssd h hf).symm⟩
  | some f =>
    obtain ⟨old, hold⟩ := durable_of_ssd h hf
    obtain ⟨c₀, hc₀, hc₀f, -⟩ := durable_eq_some.mp hold
    obtain ⟨hsound, hdurable⟩ := h.sound.remove hfits
    -- the tombstone ends the commit, so that the file it named is in nobody's way
    have hunnamed : ∀ k c, (manifest (records ++ [.remove key])).lookup k = some c → c.fileId ≠ f := by
      intro k c hc heq
      rw [lookup_manifest_append] at hc
      split_ifs at hc with hk
      · cases hc
      · exact hk (h.sound.exclusive k key c c₀ hc hc₀ (heq.trans hc₀f.symm)).symm
    match i with
    | 0 => exact ⟨records, h.sound, .inr ⟨by simp, rfl⟩⟩
    | 1 => exact ⟨_, hsound, .inl hdurable⟩
    | 2 => exact ⟨_, hsound, .inl hdurable⟩
    | i + 3 =>
      obtain ⟨hsound', hdurable'⟩ := hsound.congr
        ((σ.disk.step codec (.append (.remove key))).step codec (.delete f)) rfl
        fun k c hc => by rw [Disk.lookup_delete, if_neg (hunnamed k c hc)]
      rw [elim_some, take_of_length_le (by simp)]
      exact ⟨_, hsound', .inl (hdurable'.trans hdurable)⟩

lemma halfway_demoteToSsd (h : σ.Inv codec records) (key : KvBlockKey)
    (hfresh : freshFiles codec (.demoteToSsd key) σ) (i : ℕ) :
    Halfway codec (.demoteToSsd key) σ records i := by
  cases hdram : σ.store.dram.lookup key with
  | none =>
    refine ⟨records, ?_, .inl ?_⟩ <;>
      simp only [BlockOp.exec, LocalKvStore.demoteToSsd, target, hdram, take_nil, Disk.steps_nil,
        elim_none]
    exact h.sound
  | some data =>
    obtain ⟨hfits, hnew⟩ := hfresh data hdram
    have hunnamed : ∀ k c, (manifest records).lookup k = some c → c.fileId ≠ σ.store.nextFile + 1 :=
      hnew _ h.sound.clean.liveCommits_eq
    have hsteps : ((BlockOp.demoteToSsd key).exec σ.store).2 = [.create (σ.store.nextFile + 1),
        .write (σ.store.nextFile + 1) data, .sync (σ.store.nextFile + 1),
        .append (.commit key (σ.store.nextFile + 1) data.length (crc32 data).toNat), .syncWal] := by
      simp only [BlockOp.exec, LocalKvStore.demoteToSsd, hdram]
    have htarget : target (.demoteToSsd key) σ (durable σ.disk (manifest records)) =
        Function.update (durable σ.disk (manifest records)) key (some (σ.store.nextFile + 1, data)) := by
      rw [target, hdram, elim_some]
    rw [Halfway, hsteps, htarget]
    obtain ⟨hcreate, hcreate'⟩ := h.sound.congr (σ.disk.step codec (.create (σ.store.nextFile + 1))) rfl
      fun k c hc => by rw [Disk.lookup_create, if_neg (hunnamed k c hc)]
    obtain ⟨hwrite, hwrite'⟩ := hcreate.congr
      ((σ.disk.step codec (.create (σ.store.nextFile + 1))).step codec (.write (σ.store.nextFile + 1) data))
      rfl fun k c hc => by rw [Disk.lookup_write, if_neg (hunnamed k c hc)]
    obtain ⟨hcommit, hcommit'⟩ := hwrite.commit hfits hunnamed (by
      rw [Disk.lookup_write, if_pos rfl, Disk.lookup_create, if_pos rfl]
      rfl)
    rw [hwrite', hcreate'] at hcommit'
    rcases i with _ | _ | _ | _ | _ | i
    · exact ⟨records, h.sound, .inr ⟨by simp, rfl⟩⟩
    · exact ⟨records, hcreate, .inr ⟨by simp, hcreate'⟩⟩
    · exact ⟨records, hwrite, .inr ⟨by simp, hwrite'.trans hcreate'⟩⟩
    · exact ⟨records, hwrite, .inr ⟨by simp, hwrite'.trans hcreate'⟩⟩
    · exact ⟨_, hcommit, .inl hcommit'⟩
    · rw [take_of_length_le (by simp)]
      exact ⟨_, hcommit, .inl hcommit'⟩

lemma halfway (h : σ.Inv codec records) (hop : freshFiles codec op σ) (i : ℕ) :
    Halfway codec op σ records i := by
  cases op with
  | putDram key data => exact halfway_putDram h key data i
  | demoteToSsd key => exact halfway_demoteToSsd h key hop i
  | dropBlock key => exact halfway_dropBlock h key hop i

lemma inv_of_recovers {d : Disk} {bytes : KvBlockKey → Option (List UInt8)} {s : LocalKvStore}
    {dramCapacity ssdCapacity : ℕ} (hd : d.Sound codec records)
    (hbytes : ∀ k f data, durable d (manifest records) k = some (f, data) → bytes k = some data)
    (hrec : Recovers codec d dramCapacity ssdCapacity s) :
    Inv codec ⟨s, d, fun k => if k ∈ s.ssd then bytes k else none⟩ records := by
  obtain ⟨live, hlive, hs⟩ := serves_of_recovers hrec
  rw [hd.clean.liveCommits_eq] at hlive
  cases hlive
  have hssd : ∀ k, s.ssd.lookup k = (durable d (manifest records) k).map Prod.fst := by
    intro k
    rw [hs.ssd_eq, trusted, durable]
    cases hc : (manifest records).lookup k with
    | none => rfl
    | some c =>
      cases hdata : d.blocks.lookup c.fileId with
      | none =>
        have hver : c.verified d = false := by rw [Commit.verified, hdata, any_none]
        simp [hver, hdata]
      | some data =>
        have hver : c.verified d = true := verified_iff.mpr ⟨data, hdata, hd.matching k c data hc hdata⟩
        simp [hver, hdata]
  refine ⟨hd, hs.tidy, hssd, fun k f data hk => ?_, fun k data hk => ?_⟩
  · have hmem : k ∈ s.ssd := mem_iff_exists_lookup.mpr ⟨f, by rw [hssd, hk]; rfl⟩
    exact (if_pos hmem).trans (hbytes k f data hk)
  · change s.dram.lookup k = some data at hk
    rw [hs.dram_eq] at hk
    cases hk

/-! ### One operation -/

lemma tidy_exec (h : σ.store.Tidy) (op : BlockOp) : (op.exec σ.store).1.Tidy := by
  cases op with
  | putDram key data => exact h.putDram key data
  | demoteToSsd key => exact h.demoteToSsd key
  | dropBlock key => exact h.takeOut _ key

lemma ssd_exec (h : σ.Inv codec records) (op : BlockOp) (k : KvBlockKey) :
    (op.exec σ.store).1.ssd.lookup k = (target op σ (durable σ.disk (manifest records)) k).map Prod.fst := by
  have hremoved : ∀ key, (σ.store.ssd.erase key).lookup k =
      (Function.update (durable σ.disk (manifest records)) key none k).map Prod.fst := by
    intro key
    rcases eq_or_ne k key with rfl | hk
    · rw [lookup_erase, update_self]
      rfl
    · rw [lookup_erase_ne hk, update_of_ne hk, h.ssd_eq]
  cases op with
  | putDram key data =>
    change (LocalKvStore.putDram key data σ.store).1.ssd.lookup k = _
    rw [(h.tidy.putDram_eq key data).2.1]
    exact hremoved key
  | demoteToSsd key =>
    simp only [BlockOp.exec, LocalKvStore.demoteToSsd, target]
    cases hdram : σ.store.dram.lookup key with
    | none => exact h.ssd_eq k
    | some data =>
      simp only [elim_some]
      rcases eq_or_ne k key with rfl | hk
      · rw [lookup_insert, update_self]
        rfl
      · rw [lookup_insert_ne hk, update_of_ne hk, h.ssd_eq]
  | dropBlock key =>
    change (LocalKvStore.takeOut _ key σ.store).1.ssd.lookup k = _
    rw [(h.tidy.takeOut_eq _ key).2.1]
    exact hremoved key

lemma note_of_ne {bytes : KvBlockKey → Option (List UInt8)} (hk : op.key ≠ k) : op.note bytes k = bytes k := by
  cases op with
  | putDram key data => exact update_of_ne (Ne.symm hk) _ _
  | demoteToSsd key => rfl
  | dropBlock key => exact update_of_ne (Ne.symm hk) _ _

lemma target_of_ne {live : KvBlockKey → Option (ℕ × List UInt8)} (hk : op.key ≠ k) : target op σ live k = live k := by
  cases op with
  | putDram key data => exact update_of_ne (Ne.symm hk) _ _
  | demoteToSsd key =>
    rw [target]
    cases σ.store.dram.lookup key with
    | none => rfl
    | some data => exact update_of_ne (Ne.symm hk) _ _
  | dropBlock key => exact update_of_ne (Ne.symm hk) _ _

/-- A block that is committed after an operation has the bytes that were put last, before it and after it:
puts and drops end the claim of their own key, and a demotion moves the bytes. -/
lemma target_bytes (h : σ.Inv codec records) {f : ℕ} {data : List UInt8}
    (hk : target op σ (durable σ.disk (manifest records)) k = some (f, data)) :
    σ.bytes k = some data ∧ op.note σ.bytes k = some data := by
  by_cases hop : op.key = k
  · subst hop
    cases op with
    | putDram key new =>
      simp only [target, BlockOp.key, update_self, reduceCtorEq] at hk
    | demoteToSsd key =>
      have hbytes : σ.bytes key = some data := by
        simp only [target, BlockOp.key] at hk
        cases hdram : σ.store.dram.lookup key with
        | none =>
          rw [hdram] at hk
          exact h.ssd_bytes key f data hk
        | some moved =>
          rw [hdram, elim_some, update_self] at hk
          cases hk
          exact h.dram_bytes key data hdram
      exact ⟨hbytes, hbytes⟩
    | dropBlock key =>
      simp only [target, BlockOp.key, update_self, reduceCtorEq] at hk
  · rw [target_of_ne hop] at hk
    rw [note_of_ne hop]
    exact ⟨h.ssd_bytes k f data hk, h.ssd_bytes k f data hk⟩

lemma dram_exec (h : σ.Inv codec records) {data : List UInt8} (hk : (op.exec σ.store).1.dram.lookup k = some data) :
    op.note σ.bytes k = some data := by
  cases op with
  | putDram key new =>
    change (LocalKvStore.putDram key new σ.store).1.dram.lookup k = _ at hk
    rw [(h.tidy.putDram_eq key new).2.2.1] at hk
    rcases lookup_insert_eq_some.mp hk with ⟨rfl, rfl⟩ | ⟨hne, hk⟩
    · exact update_self _ _ _
    · exact (update_of_ne hne _ _).trans (h.dram_bytes k data (lookup_erase_eq_some.mp hk).2)
  | demoteToSsd key =>
    simp only [BlockOp.exec, LocalKvStore.demoteToSsd] at hk
    cases hdram : σ.store.dram.lookup key with
    | none =>
      rw [hdram] at hk
      exact h.dram_bytes k data hk
    | some moved =>
      rw [hdram] at hk
      exact h.dram_bytes k data (lookup_erase_eq_some.mp hk).2
  | dropBlock key =>
    change (LocalKvStore.takeOut _ key σ.store).1.dram.lookup k = _ at hk
    rw [(h.tidy.takeOut_eq _ key).2.2.1] at hk
    obtain ⟨hne, hk⟩ := lookup_erase_eq_some.mp hk
    exact (update_of_ne hne _ _).trans (h.dram_bytes k data hk)

/-- **A step keeps the invariant**, and the committed blocks of the other keys. -/
lemma inv_step (h : σ.Inv codec records) (hstep : Step codec (freshFiles codec) op σ σ') :
    ∃ records', σ'.Inv codec records' ∧ ∀ k, op.key ≠ k →
      durable σ'.disk (manifest records') k = durable σ.disk (manifest records) k := by
  cases hstep with
  | run hop =>
    obtain ⟨records', hsound, hdurable⟩ := halfway h hop (op.exec σ.store).2.length
    rw [take_length] at hsound hdurable
    have hdone := hdurable.resolve_right fun hc => lt_irrefl _ hc.1
    refine ⟨records', ⟨hsound, tidy_exec h.tidy op, fun k => ?_, fun k f data hk => ?_,
      fun k data hk => dram_exec h hk⟩, fun k hk => ?_⟩
    · rw [ssd_exec h op k, ← hdone]
    · have hk' : durable (σ.disk.steps codec (op.exec σ.store).2) (manifest records') k = some (f, data) := hk
      rw [hdone] at hk'
      exact (target_bytes h hk').2
    · exact (congrFun hdone k).trans (target_of_ne hk)
  | crash hop i hrec =>
    obtain ⟨records', hsound, hdurable⟩ := halfway h hop i
    refine ⟨records', inv_of_recovers hsound (fun k f data hk => ?_) hrec, fun k hk => ?_⟩
    · rcases hdurable with hdone | ⟨-, hsame⟩
      · rw [hdone] at hk
        exact (target_bytes h hk).1
      · rw [hsame] at hk
        exact h.ssd_bytes k f data hk
    · rcases hdurable with hdone | ⟨-, hsame⟩
      · exact (congrFun hdone k).trans (target_of_ne hk)
      · exact congrFun hsame k

def Reachable (codec : Codec WalRecord) (allowed : BlockOp → Pool → Prop) (σ : Pool) : Prop :=
  ∃ dramCapacity ssdCapacity d, ReflTransGen (fun σ σ' => ∃ op, Step codec allowed op σ σ')
    (new dramCapacity ssdCapacity d) σ

lemma inv_reachable (h : Reachable codec (freshFiles codec) σ) : ∃ records, σ.Inv codec records := by
  obtain ⟨dramCapacity, ssdCapacity, d, hsteps⟩ := h
  induction hsteps with
  | refl => exact ⟨[], inv_new codec dramCapacity ssdCapacity d⟩
  | tail _ hstep ih =>
    obtain ⟨records, hinv⟩ := ih
    obtain ⟨op, hstep⟩ := hstep
    obtain ⟨records', hinv', -⟩ := inv_step hinv hstep
    exact ⟨records', hinv'⟩

lemma durable_steps (h : σ.Inv codec records)
    (hsteps : ReflTransGen (fun σ σ' => ∃ op, op.key ≠ k ∧ Step codec (freshFiles codec) op σ σ') σ σ') :
    ∃ records', σ'.Inv codec records' ∧
      durable σ'.disk (manifest records') k = durable σ.disk (manifest records) k := by
  induction hsteps with
  | refl => exact ⟨records, h, rfl⟩
  | tail _ hstep ih =>
    obtain ⟨records₁, hinv₁, hsame₁⟩ := ih
    obtain ⟨op, hk, hstep⟩ := hstep
    obtain ⟨records₂, hinv₂, hsame₂⟩ := inv_step hinv₁ hstep
    exact ⟨records₂, hinv₂, (hsame₂ k hk).trans hsame₁⟩

lemma get_of_durable (h : σ.Inv codec records) {f : ℕ} {data : List UInt8}
    (hk : durable σ.disk (manifest records) k = some (f, data)) :
    σ.store.ssd.lookup k = some f ∧ σ.disk.blocks.lookup f = some data ∧
      (σ.store.get σ.disk k).1 = .ok data := by
  have hssd : σ.store.ssd.lookup k = some f := by
    rw [h.ssd_eq, hk]
    rfl
  obtain ⟨m, hm, htier⟩ := (h.tidy.ssd_iff k).mp (mem_iff_exists_lookup.mpr ⟨f, hssd⟩)
  obtain ⟨-, -, -, hdata⟩ := durable_eq_some.mp hk
  exact ⟨hssd, hdata, get_of_ssd hm htier hssd hdata⟩

end inv

/-- **Blocks in files do not get into each other's way**, in every history in which the files that are
created have numbers that no live commit names: distinct blocks of the SSD tier lie in distinct files; the
file of each of them is there, with the bytes that were put last; and whatever happens to other keys, crashes
and recoveries included, such a block stays readable. -/
theorem block_files_exclusive (codec : Codec WalRecord) (σ : Pool) (h : Reachable codec (freshFiles codec) σ) :
    (∀ j k f, σ.store.ssd.lookup j = some f → σ.store.ssd.lookup k = some f → j = k) ∧
    (∀ k f, σ.store.ssd.lookup k = some f →
      ∃ data, σ.bytes k = some data ∧ σ.disk.blocks.lookup f = some data ∧
        (σ.store.get σ.disk k).1 = .ok data ∧
        ∀ σ', ReflTransGen (fun σ σ' => ∃ op, op.key ≠ k ∧ Step codec (freshFiles codec) op σ σ') σ σ' →
          σ'.store.ssd.lookup k = some f ∧ (σ'.store.get σ'.disk k).1 = .ok data) := by
  obtain ⟨records, hinv⟩ := inv_reachable h
  refine ⟨fun j k f hj hk => ?_, fun k f hk => ?_⟩
  · obtain ⟨dataj, hj⟩ := durable_of_ssd hinv hj
    obtain ⟨datak, hk⟩ := durable_of_ssd hinv hk
    obtain ⟨cj, hcj, hfj, -⟩ := durable_eq_some.mp hj
    obtain ⟨ck, hck, hfk, -⟩ := durable_eq_some.mp hk
    exact hinv.sound.exclusive j k cj ck hcj hck (hfj.trans hfk.symm)
  · obtain ⟨data, hdurable⟩ := durable_of_ssd hinv hk
    obtain ⟨-, hfile, hget⟩ := get_of_durable hinv hdurable
    refine ⟨data, hinv.ssd_bytes k f data hdurable, hfile, hget, fun σ' hsteps => ?_⟩
    obtain ⟨records', hinv', hsame⟩ := durable_steps hinv hsteps
    obtain ⟨hssd', -, hget'⟩ := get_of_durable hinv' (hsame.trans hdurable)
    exact ⟨hssd', hget'⟩

/-! ## Runs -/

def act (codec : Codec WalRecord) (op : BlockOp) (σ : Pool) : Option ℕ → Option Pool
  | none => some ⟨(op.exec σ.store).1, σ.disk.steps codec (op.exec σ.store).2, op.note σ.bytes⟩
  | some i => (LocalKvStore.recover codec (σ.disk.steps codec ((op.exec σ.store).2.take i)) 0 0).map fun s =>
    ⟨s, σ.disk.steps codec ((op.exec σ.store).2.take i), fun k => if k ∈ s.ssd then σ.bytes k else none⟩

section play

variable (codec : Codec WalRecord) (allowed : BlockOp → Pool → Prop) [∀ op σ, Decidable (allowed op σ)]

def play : List (BlockOp × Option ℕ) → Pool → Option Pool
  | [], σ => some σ
  | a :: as, σ => if allowed a.1 σ then (act codec a.1 σ a.2).bind (play as) else none

variable {codec allowed}

omit [∀ op σ, Decidable (allowed op σ)] in
lemma step_of_act {op : BlockOp} {σ σ' : Pool} {i : Option ℕ} (hop : allowed op σ)
    (h : act codec op σ i = some σ') : Step codec allowed op σ σ' := by
  cases i with
  | none =>
    cases h
    exact .run hop
  | some i =>
    obtain ⟨s, hs, rfl⟩ := map_eq_some_iff.mp h
    exact .crash hop i (recovers_of_recover hs)

lemma steps_of_play {as : List (BlockOp × Option ℕ)} {σ σ' : Pool} (h : play codec allowed as σ = some σ') :
    ReflTransGen (fun σ σ' => ∃ op, Step codec allowed op σ σ') σ σ' := by
  induction as generalizing σ with
  | nil =>
    cases h
    exact .refl
  | cons a as ih =>
    rw [play] at h
    split_ifs at h with hop
    obtain ⟨σ₁, h₁, h₂⟩ := bind_eq_some_iff.mp h
    exact .head ⟨a.1, step_of_act hop h₁⟩ (ih h₂)

end play

def numberedOn : List (BlockOp × Option ℕ) :=
  [(.putDram (blockKey "b") [1], none), (.demoteToSsd (blockKey "b"), none),
    (.putDram (blockKey "c") [2], some 0),
    (.putDram (blockKey "c") [2], none), (.demoteToSsd (blockKey "c"), none)]

theorem block_files_exclusive_numberedOn :
    ∃ σ, Reachable recordCodec (freshFiles recordCodec) σ ∧ σ.store.ssd.lookup (blockKey "b") = some 1 ∧
      ∃ data, σ.bytes (blockKey "b") = some data ∧ (σ.store.get σ.disk (blockKey "b")).1 = .ok data := by
  have hrun : ((play recordCodec (freshFiles recordCodec) numberedOn (new 0 0 ⟨some [], ∅⟩)).any fun σ =>
      decide (σ.store.ssd.lookup (blockKey "b") = some 1)) = true := by
    decide +kernel
  obtain ⟨σ, hσ, hb⟩ := (Option.any_eq_true _ _).mp hrun
  have hreach : Reachable recordCodec (freshFiles recordCodec) σ := ⟨0, 0, _, steps_of_play hσ⟩
  have hssd := of_decide_eq_true hb
  obtain ⟨data, hbytes, -, hget, -⟩ := (block_files_exclusive recordCodec σ hreach).2 _ _ hssd
  exact ⟨σ, hreach, hssd, data, hbytes, hget⟩

/-- A block is overwritten, and the process dies when its file is gone; another block with the same bytes is
put, and the process dies again. -/
def numberReused : List (BlockOp × Option ℕ) :=
  [(.putDram (blockKey "b") [1], none), (.demoteToSsd (blockKey "b"), none),
    (.putDram (blockKey "b") [2], some 1),
    (.putDram (blockKey "c") [1], none), (.demoteToSsd (blockKey "c"), none),
    (.dropBlock (blockKey "d"), some 0)]

theorem file_served_twice :
    ∃ σ σ', Reachable recordCodec (fun _ _ => True) σ ∧
      σ.store.ssd.lookup (blockKey "b") = some 1 ∧ σ.store.ssd.lookup (blockKey "c") = some 1 ∧
      σ.bytes (blockKey "b") = none ∧ (σ.store.get σ.disk (blockKey "c")).1 = .ok [1] ∧
      Step recordCodec (fun _ _ => True) (.dropBlock (blockKey "b")) σ σ' ∧
      (σ'.store.get σ'.disk (blockKey "c")).1 = .error (.io "No such file or directory (os error 2)") := by
  have hrun : ((play recordCodec (fun _ _ => True) numberReused (new 0 0 ⟨some [], ∅⟩)).any fun σ =>
      (act recordCodec (.dropBlock (blockKey "b")) σ none).any fun σ' => decide (
        σ.store.ssd.lookup (blockKey "b") = some 1 ∧ σ.store.ssd.lookup (blockKey "c") = some 1 ∧
        σ.bytes (blockKey "b") = none ∧ (σ.store.get σ.disk (blockKey "c")).1 = .ok [1] ∧
        (σ'.store.get σ'.disk (blockKey "c")).1 =
          .error (.io "No such file or directory (os error 2)"))) = true := by
    decide +kernel
  obtain ⟨σ, hσ, hrun⟩ := (Option.any_eq_true _ _).mp hrun
  obtain ⟨σ', hσ', hrun⟩ := (Option.any_eq_true _ _).mp hrun
  obtain ⟨hb, hc, hbytes, hget, hget'⟩ := of_decide_eq_true hrun
  exact ⟨σ, σ', ⟨0, 0, _, steps_of_play hσ⟩, hb, hc, hbytes, hget, step_of_act trivial hσ', hget'⟩

end Pool

/-! ## Puts -/

def BlockOp.execAll : List BlockOp → LocalKvStore → LocalKvStore × List DiskStep
  | [], s => (s, [])
  | op :: ops, s => ((execAll ops (op.exec s).1).1, (op.exec s).2 ++ (execAll ops (op.exec s).1).2)

/-- Operations lead from the store `s`, with `steps` taken so far, to `s'` and `steps'`. -/
def ByOps (s : LocalKvStore) (steps : List DiskStep) (s' : LocalKvStore) (steps' : List DiskStep) : Prop :=
  ∃ ops, s' = (BlockOp.execAll ops s).1 ∧ steps' = steps ++ (BlockOp.execAll ops s).2

section put

variable {s s' : LocalKvStore} {steps steps' : List DiskStep}

lemma ByOps.refl (s : LocalKvStore) (steps : List DiskStep) : ByOps s steps s steps :=
  ⟨[], rfl, (append_nil _).symm⟩

lemma ByOps.head (op : BlockOp) (h : ByOps (op.exec s).1 (steps ++ (op.exec s).2) s' steps') :
    ByOps s steps s' steps' := by
  obtain ⟨ops, hs', hsteps'⟩ := h
  refine ⟨op :: ops, hs', hsteps'.trans ?_⟩
  rw [append_assoc]
  rfl

lemma ByOps.trans {s'' : LocalKvStore} {steps'' : List DiskStep} (h : ByOps s steps s' steps')
    (h' : ByOps s' steps' s'' steps'') : ByOps s steps s'' steps'' := by
  obtain ⟨ops, rfl, rfl⟩ := h
  induction ops generalizing s steps with
  | nil => rwa [BlockOp.execAll, append_nil] at h'
  | cons op ops ih =>
    refine .head op (ih ?_)
    rw [append_assoc]
    exact h'

lemma byOps_demoteLoop {fuel : ℕ} (h : demoteLoop fuel s steps = some (s', steps')) :
    ByOps s steps s' steps' := by
  induction fuel generalizing s steps with
  | zero => cases h
  | succ fuel ih =>
    rw [demoteLoop] at h
    split_ifs at h
    · cases hv : s.coldestIn .cpuDram with
      | none =>
        rw [hv] at h
        cases h
        exact .refl _ _
      | some victim =>
        rw [hv] at h
        simp only at h
        split_ifs at h
        · exact .head (.demoteToSsd victim) (ih h)
        · cases h
          exact .head (.demoteToSsd victim) (.refl _ _)
    · cases h
      exact .refl _ _

lemma byOps_evictLoop {fuel : ℕ} {evicted evicted' : List KvBlockKey}
    (h : evictLoop fuel s steps evicted = some (evicted', s', steps')) : ByOps s steps s' steps' := by
  induction fuel generalizing s steps evicted with
  | zero => cases h
  | succ fuel ih =>
    rw [evictLoop] at h
    split_ifs at h
    · cases hv : s.coldestIn .localSsd with
      | none =>
        rw [hv] at h
        cases h
        exact .refl _ _
      | some victim =>
        rw [hv] at h
        simp only at h
        split_ifs at h
        · exact .head (.dropBlock victim) (ih h)
        · cases h
          exact .head (.dropBlock victim) (.refl _ _)
    · cases h
      exact .refl _ _

/-- A put is a sequence of operations that begins with its own. -/
theorem put_eq_ops {key : KvBlockKey} {data : List UInt8} {r : CacheTier × List KvBlockKey}
    (h : put key data s = some (r, s', steps')) :
    ∃ ops, BlockOp.execAll (.putDram key data :: ops) s = (s', steps') := by
  rw [put] at h
  rcases hp : LocalKvStore.putDram key data s with ⟨s₀, steps₀⟩
  rw [hp] at h
  obtain ⟨⟨evicted, s₂, steps₂⟩, hcap, hret⟩ := bind_eq_some_iff.mp h
  obtain ⟨⟨s₁, steps₁⟩, hdemote, hevict⟩ := bind_eq_some_iff.mp hcap
  cases hret
  obtain ⟨ops, hs', hsteps'⟩ := (byOps_demoteLoop hdemote).trans (byOps_evictLoop hevict)
  refine ⟨ops, ?_⟩
  rw [BlockOp.execAll, BlockOp.exec, hp, hs', hsteps']

end put

end QuillCache.Store
