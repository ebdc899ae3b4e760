import QuillCache.Lib.Table

/-!
# Reverse indexes

A reverse index sorts keys into buckets, by a function `bucketOf` of the key. It is exact for a set of keys if
every key of the set is in its bucket, and every bucket is non-empty and holds keys of the set only.
-/

namespace QuillCache.Lib.Buckets

open List
open AList hiding keys

variable {K B : Type} [DecidableEq B]

def file [DecidableEq K] (b : B) (k : K) (t : Table B (List K)) : Table B (List K) :=
  t.insert b (((t.lookup b).getD []).insert k)

/-- Take keys out of a bucket, and take the bucket away if it is empty then. -/
def drop [DecidableEq K] (b : B) (gone : List K) (t : Table B (List K)) : Table B (List K) :=
  match t.lookup b with
  | none => t
  | some keys =>
    if (keys.filter (· ∉ gone)).isEmpty then t.erase b else t.insert b (keys.filter (· ∉ gone))

/-- The buckets hold exactly the keys of `present`. -/
structure Exact (bucketOf : K → B) (present : K → Prop) (t : Table B (List K)) : Prop where
  bucket : ∀ b keys, t.lookup b = some keys →
    keys ≠ [] ∧ keys.Nodup ∧ ∀ k, k ∈ keys ↔ present k ∧ bucketOf k = b
  filed : ∀ k, present k → bucketOf k ∈ t

section exact

variable {bucketOf : K → B} {present present' : K → Prop} {t t' : Table B (List K)} {b : B} {k : K}

lemma exact_empty (bucketOf : K → B) (h : ∀ k, ¬present k) : Exact bucketOf present ∅ :=
  ⟨nofun, fun k hk => absurd hk (h k)⟩

lemma Exact.congr (ht : Exact bucketOf present t) (h : ∀ k, present' k ↔ present k) :
    Exact bucketOf present' t :=
  ⟨fun b keys hb => by simpa only [h] using ht.bucket b keys hb, fun k hk => ht.filed k ((h k).mp hk)⟩

lemma Exact.of_perm (ht : Exact bucketOf present t)
    (h : ∀ b, Option.Rel List.Perm (t.lookup b) (t'.lookup b)) : Exact bucketOf present t' := by
  refine ⟨fun b keys' hb => ?_, fun k hk => ?_⟩
  · have hrel := h b
    rw [hb] at hrel
    cases hkeys : t.lookup b with
    | none =>
      rw [hkeys] at hrel
      cases hrel
    | some keys =>
      rw [hkeys] at hrel
      cases hrel with
      | some hperm =>
        obtain ⟨hne, hnodup, hmem⟩ := ht.bucket b keys hkeys
        exact ⟨fun hnil => hne (hperm.trans (.of_eq hnil)).eq_nil, hperm.nodup_iff.mp hnodup,
          fun k => hperm.mem_iff.symm.trans (hmem k)⟩
  · obtain ⟨keys, hkeys⟩ := mem_iff_exists_lookup.mp (ht.filed k hk)
    have hrel := h (bucketOf k)
    rw [hkeys] at hrel
    cases hkeys' : t'.lookup (bucketOf k) with
    | none =>
      rw [hkeys'] at hrel
      cases hrel
    | some keys' => exact mem_iff_exists_lookup.mpr ⟨keys', hkeys'⟩

lemma Exact.mem_getD (ht : Exact bucketOf present t) :
    k ∈ (t.lookup b).getD [] ↔ present k ∧ bucketOf k = b := by
  cases hb : t.lookup b with
  | some keys => exact (ht.bucket b keys hb).2.2 k
  | none =>
    refine ⟨fun h => absurd h not_mem_nil, ?_⟩
    rintro ⟨hk, rfl⟩
    exact absurd (ht.filed k hk) (lookup_eq_none.mp hb)

lemma Exact.nodup_getD (ht : Exact bucketOf present t) (b : B) : ((t.lookup b).getD []).Nodup := by
  cases hb : t.lookup b with
  | some keys => exact (ht.bucket b keys hb).2.1
  | none => exact nodup_nil

lemma Exact.of_eq_off (ht : Exact bucketOf present t) (hoff : ∀ b', b' ≠ b → t'.lookup b' = t.lookup b')
    (hon : ∀ keys, t'.lookup b = some keys → keys ≠ [] ∧ keys.Nodup ∧ ∀ k, k ∈ keys ↔ present' k ∧ bucketOf k = b)
    (hfiled : (∃ k, present' k ∧ bucketOf k = b) → b ∈ t')
    (hsame : ∀ k, bucketOf k ≠ b → (present' k ↔ present k)) : Exact bucketOf present' t' := by
  refine ⟨fun b' keys hb' => ?_, fun k hk => ?_⟩
  · rcases eq_or_ne b' b with rfl | hne
    · exact hon keys hb'
    · obtain ⟨hne', hnodup, hmem⟩ := ht.bucket b' keys (hoff b' hne ▸ hb')
      refine ⟨hne', hnodup, fun k => (hmem k).trans ?_⟩
      refine and_congr_left fun hk => (hsame k ?_).symm
      rwa [hk]
  · rcases eq_or_ne (bucketOf k) b with hb | hne
    · exact hb ▸ hfiled ⟨k, hk, hb⟩
    · have hmem := ht.filed k ((hsame k hne).mp hk)
      rwa [← lookup_isSome, hoff _ hne, lookup_isSome]

variable [DecidableEq K]

lemma Exact.file (ht : Exact bucketOf present t) (k : K) :
    Exact bucketOf (fun k' => present k' ∨ k' = k) (file (bucketOf k) k t) := by
  refine ht.of_eq_off (b := bucketOf k) (fun b' hne => lookup_insert_ne hne) (fun keys hkeys => ?_)
    (fun _ => (mem_insert _).mpr (.inl rfl)) fun k' hne => or_iff_left fun h => hne (h ▸ rfl)
  rw [Buckets.file, lookup_insert] at hkeys
  cases hkeys
  refine ⟨ne_nil_of_mem mem_insert_self, (ht.nodup_getD _).insert, fun k' => ?_⟩
  rw [mem_insert_iff, ht.mem_getD, or_and_right, or_comm]
  refine or_congr_right ?_
  constructor
  · rintro rfl
    exact ⟨rfl, rfl⟩
  · exact And.left

lemma Exact.drop (ht : Exact bucketOf present t) {gone : List K} (hgone : ∀ k ∈ gone, bucketOf k = b) :
    Exact bucketOf (fun k => present k ∧ k ∉ gone) (drop b gone t) := by
  rw [Buckets.drop]
  cases hb : t.lookup b with
  | none =>
    have hnone : ∀ k, bucketOf k = b → ¬present k := by
      rintro k rfl hk
      exact lookup_eq_none.mp hb (ht.filed k hk)
    refine ht.congr fun k => and_iff_left_of_imp fun hk hmem => hnone k (hgone k hmem) hk
  | some keys =>
    obtain ⟨-, hnodup, hmem⟩ := ht.bucket b keys hb
    have hfilter : ∀ k, k ∈ keys.filter (· ∉ gone) ↔ (present k ∧ k ∉ gone) ∧ bucketOf k = b := by
      intro k
      rw [mem_filter, hmem, decide_eq_true_iff, and_right_comm]
    have hsame : ∀ k, bucketOf k ≠ b → ((present k ∧ k ∉ gone) ↔ present k) := fun k hne =>
      and_iff_left fun hk => hne (hgone k hk)
    simp only
    split_ifs with hempty
    · rw [List.isEmpty_iff] at hempty
      refine ht.of_eq_off (b := b) (fun b' hne => lookup_erase_ne hne) (fun keys' hkeys => ?_) ?_ hsame
      · rw [lookup_erase] at hkeys
        cases hkeys
      · rintro ⟨k, hk⟩
        have hk' := (hfilter k).mpr hk
        rw [hempty] at hk'
        cases hk'
    · refine ht.of_eq_off (b := b) (fun b' hne => lookup_insert_ne hne) (fun keys' hkeys => ?_)
        (fun _ => (mem_insert _).mpr (.inl rfl)) hsame
      rw [lookup_insert] at hkeys
      cases hkeys
      exact ⟨fun h => hempty (List.isEmpty_iff.mpr h), hnodup.filter _, hfilter⟩

lemma Exact.foldl_drop (ht : Exact bucketOf present t) (gone : List K) :
    Exact bucketOf (fun k => present k ∧ k ∉ gone) (gone.foldl (fun t k => Buckets.drop (bucketOf k) [k] t) t) := by
  induction gone generalizing t present with
  | nil => exact ht.congr fun k => and_iff_left not_mem_nil
  | cons g gone ih =>
    have hg : ∀ k ∈ [g], bucketOf k = bucketOf g := fun k hk => by rw [mem_singleton.mp hk]
    refine (ih (ht.drop hg)).congr fun k => ?_
    rw [mem_cons, not_or, mem_singleton, and_assoc]

end exact

section mem

variable [DecidableEq K] {t : Table B (List K)} {b b' : B} {k k' : K}

lemma mem_file : k' ∈ ((file b k t).lookup b').getD [] ↔ k' ∈ (t.lookup b').getD [] ∨ b' = b ∧ k' = k := by
  rcases eq_or_ne b' b with rfl | hne
  · rw [file, lookup_insert, Option.getD_some, mem_insert_iff, or_comm]
    simp
  · rw [file, lookup_insert_ne hne]
    simp [hne]

lemma mem_drop {gone : List K} :
    k' ∈ ((drop b gone t).lookup b').getD [] ↔ k' ∈ (t.lookup b').getD [] ∧ ¬(b' = b ∧ k' ∈ gone) := by
  rw [drop]
  rcases eq_or_ne b' b with rfl | hne
  · cases hb : t.lookup b' with
    | none => simp [hb]
    | some keys =>
      simp only
      split_ifs with hempty
      · rw [lookup_erase]
        have hgone : ∀ k ∈ keys, k ∈ gone := by simpa using hempty
        simpa using hgone k'
      · simp
  · split
    · simp [hne]
    · split_ifs
      · rw [lookup_erase_ne hne]
        simp [hne]
      · rw [lookup_insert_ne hne]
        simp [hne]

end mem

end QuillCache.Lib.Buckets
