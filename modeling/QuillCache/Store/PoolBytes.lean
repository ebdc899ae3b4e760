import QuillCache.Store.DiskHistory

/-!
# The bytes of a byte pool

While the process of a byte pool lives, the pool and its directory hold exactly the bytes that were put and
not dropped since, wherever the blocks have been moved: in DRAM, or in a file of their own in the directory.
A pool that was recovered from its directory also has the blocks that were found there. Two of those may lie
in one file, so they are read back only as long as nobody has deleted their file.
-/

namespace QuillCache.Store

open Lib QuillCache.Core LocalKvStore AList Function Option

/-- The store and its directory hold `bytes`. -/
structure LocalKvStore.Backed (d : Disk) (s : LocalKvStore) (bytes : KvBlockKey → Option (List UInt8)) : Prop where
  tidy : s.Tidy
  dram : ∀ k data, s.dram.lookup k = some data → bytes k = some data
  ssd : ∀ k f, s.ssd.lookup k = some f → ∃ data, d.blocks.lookup f = some data ∧ bytes k = some data
  absent : ∀ k, k ∉ s.dram → k ∉ s.ssd → bytes k = none
  exclusive : ∀ j k f, s.ssd.lookup j = some f → s.ssd.lookup k = some f → j = k
  numbered : ∀ k f, s.ssd.lookup k = some f → f ≤ s.nextFile

/-- The store and its directory hold `bytes`, and beside them what is left of the blocks that were `found` in
the directory. -/
structure LocalKvStore.Shelved (d : Disk) (s : LocalKvStore) (bytes found : KvBlockKey → Option (List UInt8)) :
    Prop where
  tidy : s.Tidy
  dram : ∀ k data, s.dram.lookup k = some data → bytes k = some data
  ssd : ∀ k f data, s.ssd.lookup k = some f → bytes k = some data → d.blocks.lookup f = some data
  found : ∀ k f, s.ssd.lookup k = some f → bytes k = none →
    ∃ data, found k = some data ∧ ∀ data', d.blocks.lookup f = some data' → data' = data
  absent : ∀ k, k ∉ s.dram → k ∉ s.ssd → bytes k = none
  exclusive : ∀ j k f, s.ssd.lookup j = some f → s.ssd.lookup k = some f → (bytes k).isSome → j = k
  numbered : ∀ k f, s.ssd.lookup k = some f → f ≤ s.nextFile

/-- An operation that puts or drops a block forgets what was found under its key. -/
def BlockOp.forget : BlockOp → (KvBlockKey → Option (List UInt8)) → KvBlockKey → Option (List UInt8)
  | putDram key _, found => Function.update found key none
  | demoteToSsd _, found => found
  | dropBlock key, found => Function.update found key none

lemma BlockOp.forget_none (op : BlockOp) : op.forget (fun _ => none) = fun _ => none := by
  cases op with
  | putDram key data => exact update_eq_self key _
  | demoteToSsd key => rfl
  | dropBlock key => exact update_eq_self key _

namespace LocalKvStore

section shelved

variable {codec : Codec WalRecord} {d : Disk} {s : LocalKvStore} {bytes found : KvBlockKey → Option (List UInt8)}

lemma Shelved.takeOut (h : Shelved d s bytes found) (key : KvBlockKey) {tombstone : List DiskStep}
    (htomb : ∀ d : Disk, (d.steps codec tombstone).blocks = d.blocks) :
    Shelved (d.steps codec (takeOut tombstone key s).2) (takeOut tombstone key s).1
      (Function.update bytes key none) (Function.update found key none) := by
  obtain ⟨-, hssd, hdram, hnext, hsteps⟩ := h.tidy.takeOut_eq tombstone key
  have hold : ∀ k f, (LocalKvStore.takeOut tombstone key s).1.ssd.lookup k = some f →
      k ≠ key ∧ s.ssd.lookup k = some f := fun k f hf => by
    rw [hssd] at hf
    exact lookup_erase_eq_some.mp hf
  -- a file is either as before, or it is the one that was deleted
  have hfile : ∀ g, (d.steps codec (LocalKvStore.takeOut tombstone key s).2).blocks.lookup g =
      if s.ssd.lookup key = some g then none else d.blocks.lookup g := by
    intro g
    rw [hsteps]
    cases hf : s.ssd.lookup key with
    | none => simp
    | some f =>
      rw [elim_some, Disk.steps_append, Disk.steps_cons, Disk.steps_nil, Disk.lookup_delete, htomb]
      simp only [Option.some.injEq, eq_comm]
  refine ⟨h.tidy.takeOut _ key, fun k b hb => ?_, fun k g b hg hb => ?_, fun k g hg hb => ?_,
    fun k hd hs => ?_, fun j k f hj hk hsome => ?_, fun k f hf => ?_⟩
  · rw [hdram] at hb
    obtain ⟨hne, hb⟩ := lookup_erase_eq_some.mp hb
    rw [update_of_ne hne]
    exact h.dram k b hb
  · obtain ⟨hne, hg⟩ := hold k g hg
    rw [update_of_ne hne] at hb
    have hkept : s.ssd.lookup key ≠ some g := fun hf => hne (h.exclusive key k g hf hg (by rw [hb]; rfl)).symm
    rw [hfile, if_neg hkept]
    exact h.ssd k g b hg hb
  · obtain ⟨hne, hg⟩ := hold k g hg
    rw [update_of_ne hne] at hb ⊢
    obtain ⟨data, hdata, hsame⟩ := h.found k g hg hb
    refine ⟨data, hdata, fun data' hdata' => hsame data' ?_⟩
    rw [hfile] at hdata'
    split_ifs at hdata'
    exact hdata'
  · rcases eq_or_ne k key with rfl | hne
    · exact update_self _ _ _
    · rw [hdram, mem_erase] at hd
      rw [hssd, mem_erase] at hs
      rw [update_of_ne hne]
      exact h.absent k (fun hk => hd ⟨hne, hk⟩) fun hk => hs ⟨hne, hk⟩
  · obtain ⟨hne, hk⟩ := hold k f hk
    rw [update_of_ne hne] at hsome
    exact h.exclusive j k f (hold j f hj).2 hk hsome
  · rw [hnext]
    exact h.numbered k f (hold k f hf).2

lemma Shelved.putDram (h : Shelved d s bytes found) (key : KvBlockKey) (data : List UInt8) :
    Shelved (d.steps codec (putDram key data s).2) (putDram key data s).1
      (Function.update bytes key (some data)) (Function.update found key none) := by
  have hclock : Shelved d { s with clock := s.clock + 1 } bytes found :=
    ⟨⟨h.tidy.ssd_iff, h.tidy.dram_iff⟩, h.dram, h.ssd, h.found, h.absent, h.exclusive, h.numbered⟩
  have hout := @Shelved.takeOut codec _ _ _ _ hclock key [] fun _ => rfl
  obtain ⟨-, hssd, hdram, -, -⟩ := h.tidy.putDram_eq key data
  have hne : ∀ k f, (LocalKvStore.putDram key data s).1.ssd.lookup k = some f → k ≠ key := by
    intro k f hf
    rw [hssd] at hf
    exact (lookup_erase_eq_some.mp hf).1
  refine ⟨h.tidy.putDram key data, fun k b hb => ?_, fun k f b hf hb => ?_, fun k f hf hb => ?_,
    fun k hd hs => ?_, fun j k f hj hk hsome => ?_, hout.numbered⟩
  · rw [hdram] at hb
    rcases lookup_insert_eq_some.mp hb with ⟨rfl, rfl⟩ | ⟨hne, hb⟩
    · exact update_self _ _ _
    · rw [update_of_ne hne]
      exact h.dram k b (lookup_erase_eq_some.mp hb).2
  · have hb' := hout.ssd k f b hf
    rw [update_of_ne (hne k f hf)] at hb hb'
    exact hb' hb
  · have hb' := hout.found k f hf
    rw [update_of_ne (hne k f hf)] at hb hb'
    exact hb' hb
  · have hd' : k ≠ key ∧ k ∉ (LocalKvStore.takeOut [] key { s with clock := s.clock + 1 }).1.dram :=
      not_or.mp fun hk => hd ((mem_insert _).mpr hk)
    have hbk := hout.absent k hd'.2 hs
    rw [update_of_ne hd'.1] at hbk ⊢
    exact hbk
  · have hjk := hout.exclusive j k f hj hk
    rw [update_of_ne (hne k f hk)] at hsome hjk
    exact hjk hsome

lemma Shelved.demoteToSsd (h : Shelved d s bytes found) (key : KvBlockKey) :
    Shelved (d.steps codec (demoteToSsd key s).2.2) (demoteToSsd key s).2.1 bytes found := by
  have htidy := h.tidy.demoteToSsd key
  rw [LocalKvStore.demoteToSsd] at htidy ⊢
  cases hd : s.dram.lookup key with
  | none => exact h
  | some data =>
    simp only [hd] at htidy ⊢
    have hbytes := h.dram key data hd
    -- the new file is not one of those that are in use
    have hnew : ∀ k f, s.ssd.lookup k = some f → f ≠ s.nextFile + 1 := fun k f hf => by
      have hle := h.numbered k f hf
      omega
    refine ⟨htidy, fun k b hb => ?_, fun k f b hf hb => ?_, fun k f hf hb => ?_, fun k hdram hssd => ?_,
      fun j k f hj hk hsome => ?_, fun k f hf => ?_⟩
    · exact h.dram k b (lookup_erase_eq_some.mp hb).2
    · rcases lookup_insert_eq_some.mp hf with ⟨rfl, rfl⟩ | ⟨-, hf⟩
      · rw [hbytes] at hb
        cases hb
        simp
      · simp [hnew k f hf, h.ssd k f b hf hb]
    · rcases lookup_insert_eq_some.mp hf with ⟨rfl, rfl⟩ | ⟨-, hf⟩
      · rw [hbytes] at hb
        cases hb
      · obtain ⟨b, hb, hsame⟩ := h.found k f hf hb
        exact ⟨b, hb, by simpa [hnew k f hf] using hsame⟩
    · rw [mem_insert, not_or] at hssd
      rw [mem_erase] at hdram
      exact h.absent k (fun hk => hdram ⟨hssd.1, hk⟩) hssd.2
    · rcases lookup_insert_eq_some.mp hj with ⟨rfl, rfl⟩ | ⟨-, hj'⟩ <;>
        rcases lookup_insert_eq_some.mp hk with ⟨rfl, hf⟩ | ⟨-, hk'⟩
      · rfl
      · exact absurd rfl (hnew k _ hk')
      · exact absurd hf.symm (hnew j f hj')
      · exact h.exclusive j k f hj' hk' hsome
    · rcases lookup_insert_eq_some.mp hf with ⟨-, rfl⟩ | ⟨-, hf⟩
      · exact le_rfl
      · exact (h.numbered k f hf).trans (Nat.le_succ _)

/-- **An operation keeps the bytes** of all blocks but its own. -/
lemma Shelved.exec (h : Shelved d s bytes found) (op : BlockOp) :
    Shelved (d.steps codec (op.exec s).2) (op.exec s).1 (op.note bytes) (op.forget found) := by
  cases op with
  | putDram key data => exact h.putDram key data
  | demoteToSsd key => exact h.demoteToSsd key
  | dropBlock key => exact h.takeOut key fun _ => rfl

lemma Shelved.after_get (h : Shelved d s bytes found) (key : KvBlockKey) :
    Shelved d (s.get d key).2 bytes found := by
  have htouch : Shelved d { s with
      clock := s.clock + 1
      metadata := s.metadata.update key fun m => { m with lastAccess := s.clock + 1 } } bytes found := by
    refine ⟨⟨fun k => ?_, fun k => ?_⟩, h.dram, h.ssd, h.found, h.absent, h.exclusive, h.numbered⟩
    · rw [h.tidy.ssd_iff, lookup_update]
      split_ifs
      · cases s.metadata.lookup k <;> simp
      · rfl
    · rw [h.tidy.dram_iff, lookup_update]
      split_ifs
      · cases s.metadata.lookup k <;> simp
      · rfl
  rw [LocalKvStore.get]
  cases s.metadata.lookup key with
  | none => exact h
  | some m =>
    simp only
    split_ifs
    · split <;> exact htouch
    · split <;> exact htouch

end shelved

section backed

variable {codec : Codec WalRecord} {d : Disk} {s : LocalKvStore} {bytes : KvBlockKey → Option (List UInt8)}

lemma backed_iff_shelved : Backed d s bytes ↔ Shelved d s bytes fun _ => none := by
  constructor
  · intro h
    refine ⟨h.tidy, h.dram, fun k f data hf hb => ?_, fun k f hf hb => ?_, h.absent,
      fun j k f hj hk _ => h.exclusive j k f hj hk, h.numbered⟩
    · obtain ⟨data', hdata', hb'⟩ := h.ssd k f hf
      rw [hb'] at hb
      cases hb
      exact hdata'
    · obtain ⟨data', -, hb'⟩ := h.ssd k f hf
      rw [hb'] at hb
      cases hb
  · intro h
    have hbytes : ∀ k f, s.ssd.lookup k = some f → ∃ data, bytes k = some data := by
      intro k f hf
      refine ne_none_iff_exists'.mp fun hb => ?_
      obtain ⟨data, hdata, -⟩ := h.found k f hf hb
      cases hdata
    refine ⟨h.tidy, h.dram, fun k f hf => ?_, h.absent, fun j k f hj hk => ?_, h.numbered⟩
    · obtain ⟨data, hb⟩ := hbytes k f hf
      exact ⟨data, h.ssd k f data hf hb, hb⟩
    · exact h.exclusive j k f hj hk (isSome_iff_exists.mpr (hbytes k f hk))

lemma backed_new (d : Disk) (dramCapacity ssdCapacity : ℕ) :
    Backed d (new dramCapacity ssdCapacity) fun _ => none := by
  refine ⟨tidy_new _ _, ?_, ?_, fun _ _ _ => rfl, ?_, ?_⟩ <;> nofun

lemma Backed.exec (h : Backed d s bytes) (op : BlockOp) :
    Backed (d.steps codec (op.exec s).2) (op.exec s).1 (op.note bytes) := by
  refine backed_iff_shelved.mpr ?_
  have hexec := @Shelved.exec codec _ _ _ _ (backed_iff_shelved.mp h) op
  rwa [BlockOp.forget_none] at hexec

lemma firstViolation_toOption (scope : IdentityScope) (keys : List KvBlockKey) :
    (firstViolation scope keys).toOption = none := by
  induction keys with
  | nil => rfl
  | cons k keys ih =>
    rw [firstViolation]
    split
    · rfl
    · exact ih

lemma Backed.get (h : Backed d s bytes) (key : KvBlockKey) : (s.get d key).1.toOption = bytes key := by
  rw [LocalKvStore.get]
  cases hm : s.metadata.lookup key with
  | none =>
    have hdram : key ∉ s.dram := fun hk => by
      obtain ⟨m, hm', -⟩ := (h.tidy.dram_iff key).mp hk
      rw [hm] at hm'
      cases hm'
    have hssd : key ∉ s.ssd := fun hk => by
      obtain ⟨m, hm', -⟩ := (h.tidy.ssd_iff key).mp hk
      rw [hm] at hm'
      cases hm'
    rw [h.absent key hdram hssd]
    exact firstViolation_toOption _ _
  | some m =>
    simp only
    split_ifs with htier
    · obtain ⟨f, hf⟩ := mem_iff_exists_lookup.mp ((h.tidy.ssd_iff key).mpr ⟨m, hm, htier⟩)
      obtain ⟨data, hdata, hbytes⟩ := h.ssd key f hf
      simp only [hf, readBlock, hdata, hbytes, Except.toOption]
    · obtain ⟨data, hdata⟩ := mem_iff_exists_lookup.mp ((h.tidy.dram_iff key).mpr ⟨m, hm, htier⟩)
      simp only [hdata, h.dram key data hdata, Except.toOption]

lemma Backed.after_get (h : Backed d s bytes) (key : KvBlockKey) : Backed d (s.get d key).2 bytes :=
  backed_iff_shelved.mpr ((backed_iff_shelved.mp h).after_get key)

end backed

end LocalKvStore

end QuillCache.Store
