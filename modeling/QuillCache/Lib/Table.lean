import Mathlib

/-!
# Finite maps with an iteration order

A hash map is Mathlib's `AList`: a list of entries with distinct keys. The order of the entries is
the order in which the map is iterated; a program that iterates a hash map may see any order, so a
state is only meaningful up to `Shuffled`. The facts that do not depend on the order are stated
about the multiset of the entries, `items`.
-/

namespace QuillCache.Lib

/-- A finite map from `K` to `V` with an iteration order. -/
abbrev Table (K V : Type) := AList fun _ : K => V

end QuillCache.Lib

namespace AList

open QuillCache.Lib AList Function List Multiset
open Option hiding or_assoc

variable {K V W : Type}

def values (t : Table K V) : List V := t.entries.map Sigma.snd

def items (t : Table K V) : Multiset (Σ _ : K, V) := t.entries

def Shuffled (t t' : Table K V) : Prop := t.entries.Perm t'.entries

def total (weight : V → ℕ) (t : Table K V) : ℕ := (t.values.map weight).sum

def mapEntries (f : K → V → W) (t : Table K V) : Table K W where
  entries := t.entries.map fun e => ⟨e.1, f e.1 e.2⟩
  nodupKeys := by
    have h : (t.entries.map Sigma.fst).Nodup := t.nodupKeys
    simpa [List.NodupKeys, List.keys, comp_def] using h

def retain (p : K → V → Bool) (t : Table K V) : Table K V where
  entries := t.entries.filter fun e => p e.1 e.2
  nodupKeys := List.NodupKeys.sublist filter_sublist t.nodupKeys

lemma items_mapEntries (f : K → V → W) (t : Table K V) :
    (mapEntries f t).items = t.items.map fun e => ⟨e.1, f e.1 e.2⟩ := rfl

lemma items_retain (p : K → V → Bool) (t : Table K V) :
    (retain p t).items = t.items.filter fun e => p e.1 e.2 := by
  simp [items, retain]

lemma values_eq_items (t : Table K V) : (t.values : Multiset V) = t.items.map Sigma.snd := rfl

lemma total_eq_items (weight : V → ℕ) (t : Table K V) :
    t.total weight = (t.items.map fun e => weight e.2).sum := by
  simp [total, values, items, comp_def]

lemma total_mono {weight weight' : V → ℕ} (t : Table K V) (h : ∀ v ∈ t.values, weight v ≤ weight' v) :
    t.total weight ≤ t.total weight' := sum_le_sum h

lemma items_nodupKeys (t : Table K V) : (t.items.map Sigma.fst).Nodup :=
  coe_nodup.mpr t.nodupKeys

lemma items_nodup (t : Table K V) : t.items.Nodup := t.items_nodupKeys.of_map

@[simp] lemma items_empty : (∅ : Table K V).items = 0 := rfl

lemma Shuffled.items_eq {t t' : Table K V} (h : Shuffled t t') : t.items = t'.items :=
  coe_eq_coe.mpr h

variable [DecidableEq K]

def update (k : K) (f : V → V) (t : Table K V) : Table K V :=
  mapEntries (fun k' v => if k' = k then f v else v) t

variable {t : Table K V} {k : K}

lemma mem_items {v : V} : (⟨k, v⟩ : Σ _ : K, V) ∈ t.items ↔ t.lookup k = some v :=
  (mem_dlookup_iff t.nodupKeys).symm

lemma mem_iff_exists_lookup : k ∈ t ↔ ∃ v, t.lookup k = some v := by
  rw [← lookup_isSome, isSome_iff_exists]

lemma lookup_erase_eq_some {j : K} {v : V} : (t.erase k).lookup j = some v ↔ j ≠ k ∧ t.lookup j = some v := by
  rcases eq_or_ne j k with rfl | hne
  · simp
  · simp [hne, lookup_erase_ne hne]

lemma lookup_insert_eq_some {j : K} {v w : V} :
    (t.insert k v).lookup j = some w ↔ j = k ∧ v = w ∨ j ≠ k ∧ t.lookup j = some w := by
  rcases eq_or_ne j k with rfl | hne
  · simp
  · simp [hne, lookup_insert_ne hne]

lemma items_insert (h : k ∉ t) (v : V) : (t.insert k v).items = ⟨k, v⟩ ::ₘ t.items := by
  simp only [items, entries_insert_of_notMem h, cons_coe]

lemma items_eq_cons_erase {v : V} (h : t.lookup k = some v) : t.items = ⟨k, v⟩ ::ₘ (t.erase k).items := by
  obtain ⟨v', l₁, l₂, hl₁, hl, herase⟩ :=
    exists_of_kerase (mem_iff_exists_lookup.mpr ⟨v, h⟩ : k ∈ t.entries.keys)
  have hv : v' = v := by
    have hmem : (⟨k, v'⟩ : Σ _ : K, V) ∈ t.items := by
      simp [items, hl]
    exact some_injective _ ((mem_items.mp hmem).symm.trans h)
  subst hv
  refine coe_eq_coe.mpr ?_
  change t.entries.Perm (⟨k, v'⟩ :: List.kerase k t.entries)
  rw [herase, hl]
  exact perm_middle

lemma mem_values {v : V} : v ∈ t.values ↔ ∃ k, t.lookup k = some v := by
  simp only [← mem_items]
  simp [values, items]

lemma total_insert (h : k ∉ t) (weight : V → ℕ) (v : V) :
    (t.insert k v).total weight = weight v + t.total weight := by
  simp only [total_eq_items, items_insert h, Multiset.map_cons, Multiset.sum_cons]

lemma total_erase {v : V} (h : t.lookup k = some v) (weight : V → ℕ) :
    t.total weight = weight v + (t.erase k).total weight := by
  simp only [total_eq_items, items_eq_cons_erase h, Multiset.map_cons, Multiset.sum_cons]

lemma total_insert_erase (t : Table K V) (k : K) (weight : V → ℕ) (v : V) :
    (t.insert k v).total weight = weight v + (t.erase k).total weight := by
  simp [total, values, entries_insert, AList.erase]

lemma erase_of_notMem (h : k ∉ t) : t.erase k = t :=
  AList.ext (kerase_of_notMem_keys h)

lemma items_ext {t t' : Table K V} (h : ∀ k, t.lookup k = t'.lookup k) : t.items = t'.items := by
  refine (Multiset.Nodup.ext t.items_nodup t'.items_nodup).mpr fun e => ?_
  rw [← Sigma.eta e, mem_items, mem_items, h]

lemma Shuffled.lookup_eq {t t' : Table K V} (h : Shuffled t t') (k : K) :
    t.lookup k = t'.lookup k := perm_lookup h

lemma lookup_mapEntries (f : K → V → W) (t : Table K V) (k : K) :
    (mapEntries f t).lookup k = (t.lookup k).map (f k) := by
  cases hl : t.lookup k with
  | none =>
    rw [lookup_eq_none] at hl
    simp only [map_none, lookup_eq_none]
    intro hmem
    rw [AList.mem_keys] at hmem hl
    simp only [AList.keys, List.keys, mapEntries, List.map_map] at hmem hl
    exact hl hmem
  | some v =>
    have hmem : (⟨k, v⟩ : Σ _ : K, V) ∈ t.items := mem_items.mpr hl
    have hmap : (⟨k, f k v⟩ : Σ _ : K, W) ∈ (mapEntries f t).items := by
      rw [items_mapEntries]
      exact Multiset.mem_map_of_mem _ hmem
    exact mem_items.mp hmap

lemma lookup_update (t : Table K V) (k k' : K) (f : V → V) :
    (t.update k f).lookup k' = if k' = k then (t.lookup k').map f else t.lookup k' := by
  rw [update, lookup_mapEntries]
  split_ifs
  · rfl
  · exact Option.map_id'

lemma update_of_notMem (h : k ∉ t) (f : V → V) : t.update k f = t := by
  refine AList.ext ?_
  rw [update, mapEntries]
  refine (map_congr_left fun e he => ?_).trans (List.map_id _)
  have hne : e.1 ≠ k := by
    rintro rfl
    exact h (List.mem_map_of_mem he)
  simp [hne]

lemma lookup_retain (p : K → V → Bool) (t : Table K V) (k : K) :
    (retain p t).lookup k = (t.lookup k).filter (p k) := by
  refine Option.ext fun v => ?_
  have h := @mem_items K V _ (retain p t) k v
  rw [items_retain, Multiset.mem_filter, mem_items] at h
  rw [← h, filter_eq_some_iff]

def insertAll {α : Type} (key : α → K) (val : α → V) (t : Table K V) : List α → Table K V
  | [] => t
  | x :: xs => insertAll key val (t.insert (key x) (val x)) xs

lemma mem_insertAll {α : Type} {key : α → K} {val : α → V} {l : List α} :
    k ∈ insertAll key val t l ↔ (∃ x ∈ l, key x = k) ∨ k ∈ t := by
  induction l generalizing t with
  | nil => simp [insertAll]
  | cons x xs ih =>
    rw [insertAll, ih, mem_insert, exists_mem_cons_iff, or_assoc, or_left_comm, eq_comm]

lemma items_insertAll {α : Type} {key : α → K} {val : α → V} {l : List α} (hl : (l.map key).Nodup)
    (ht : ∀ x ∈ l, key x ∉ t) :
    (insertAll key val t l).items = (l.map fun x => ⟨key x, val x⟩ : List (Σ _ : K, V)) + t.items := by
  induction l generalizing t with
  | nil => rw [insertAll, map_nil, coe_nil, zero_add]
  | cons x xs ih =>
    rw [List.map_cons, List.nodup_cons] at hl
    have hrest : ∀ y ∈ xs, key y ∉ t.insert (key x) (val x) := by
      intro y hy hmem
      rcases (mem_insert t).mp hmem with hxy | hmem
      · exact hl.1 (List.mem_map.mpr ⟨y, hy, hxy⟩)
      · exact ht y (List.mem_cons_of_mem _ hy) hmem
    rw [insertAll, ih hl.2 hrest, items_insert (ht x List.mem_cons_self), List.map_cons, ← cons_coe,
      add_cons, cons_add]

end AList
