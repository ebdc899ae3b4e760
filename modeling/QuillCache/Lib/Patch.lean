import QuillCache.Lib.Table

/-!
# Changes of a finite map

A change deletes some keys and then files some entries; of two entries with the same key the later one
stands. `patch` says what a map holds afterwards, and `AList.patched` carries a change out on a table.

Two changes in a row may be carried out as one, with all deletions first, if no key that the first one
files is deleted by the second one for good (`patch_append`).
-/

namespace QuillCache.Lib

open List Option

variable {K V : Type} [DecidableEq K]

def lastFiled (filed : List (K × V)) (k : K) : Option V :=
  ((filed.filter fun e => e.1 = k).getLast?).map Prod.snd

/-- What a map holds after a change. -/
def patch (deleted : List K) (filed : List (K × V)) (f : K → Option V) (k : K) : Option V :=
  (lastFiled filed k).or (if k ∈ deleted then none else f k)

section lemmas

variable {deleted deleted' : List K} {filed filed' : List (K × V)} {f : K → Option V} {k : K} {v : V}

@[simp] lemma lastFiled_nil : lastFiled ([] : List (K × V)) k = none := rfl

lemma lastFiled_append : lastFiled (filed ++ filed') k = (lastFiled filed' k).or (lastFiled filed k) := by
  simp only [lastFiled, filter_append, getLast?_append]
  cases (filed'.filter fun e => e.1 = k).getLast? <;> simp

lemma lastFiled_concat (e : K × V) :
    lastFiled (filed ++ [e]) k = if e.1 = k then some e.2 else lastFiled filed k := by
  rw [lastFiled_append]
  by_cases h : e.1 = k
  · simp [lastFiled, h]
  · simp [lastFiled, h]

lemma mem_of_lastFiled (h : lastFiled filed k = some v) : (k, v) ∈ filed := by
  rw [lastFiled, map_eq_some_iff] at h
  obtain ⟨e, he, rfl⟩ := h
  have hmem := mem_of_getLast? he
  rw [mem_filter] at hmem
  rw [← of_decide_eq_true hmem.2]
  exact hmem.1

lemma lastFiled_eq_none : lastFiled filed k = none ↔ k ∉ filed.map Prod.fst := by
  rw [lastFiled, map_eq_none_iff, getLast?_eq_none_iff, filter_eq_nil_iff]
  simp only [decide_eq_true_eq, List.mem_map, not_exists, not_and]

lemma lastFiled_of_mem (hmem : (k, v) ∈ filed) (hall : ∀ v', (k, v') ∈ filed → v' = v) :
    lastFiled filed k = some v := by
  cases h : lastFiled filed k with
  | none => exact absurd (List.mem_map_of_mem hmem) (lastFiled_eq_none.mp h)
  | some v' => rw [hall v' (mem_of_lastFiled h)]

@[simp] lemma patch_nil : patch [] ([] : List (K × V)) f = f := by
  funext k
  simp [patch]

lemma patch_of_filed (h : lastFiled filed k = some v) : patch deleted filed f k = some v := by
  rw [patch, h, some_or]

lemma patch_of_deleted (h : k ∉ filed.map Prod.fst) (hdel : k ∈ deleted) : patch deleted filed f k = none := by
  rw [patch, lastFiled_eq_none.mpr h, none_or, if_pos hdel]

lemma patch_of_untouched (h : k ∉ filed.map Prod.fst) (hdel : k ∉ deleted) :
    patch deleted filed f k = f k := by
  rw [patch, lastFiled_eq_none.mpr h, none_or, if_neg hdel]

lemma patch_eq_none (h : patch deleted filed f k = none) : f k = none ∨ k ∈ deleted := by
  rw [patch, or_eq_none_iff] at h
  by_cases hdel : k ∈ deleted
  · exact .inr hdel
  · rw [if_neg hdel] at h
    exact .inl h.2

lemma patch_append (h : ∀ k ∈ deleted', k ∈ filed.map Prod.fst → k ∈ filed'.map Prod.fst) :
    patch (deleted ++ deleted') (filed ++ filed') f = patch deleted' filed' (patch deleted filed f) := by
  funext k
  rw [patch, patch, patch, lastFiled_append]
  cases hlast : lastFiled filed' k with
  | some v => simp
  | none =>
    by_cases hdel : k ∈ deleted'
    · have hfiled : lastFiled filed k = none :=
        lastFiled_eq_none.mpr fun hk => lastFiled_eq_none.mp hlast (h k hdel hk)
      simp [hdel, hfiled]
    · simp [hdel]

end lemmas

end QuillCache.Lib

namespace AList

open QuillCache.Lib List Option

variable {K V : Type} [DecidableEq K]

/-- Carry out a change: first the deletions, then the entries in their order. -/
def patched (deleted : List K) (filed : List (K × V)) (t : Table K V) : Table K V :=
  filed.foldl (fun t e => t.insert e.1 e.2) (deleted.foldl (fun t k => t.erase k) t)

lemma lookup_foldl_erase (deleted : List K) (t : Table K V) (k : K) :
    (deleted.foldl (fun t k => t.erase k) t).lookup k = if k ∈ deleted then none else t.lookup k := by
  induction deleted generalizing t with
  | nil => simp
  | cons d deleted ih =>
    rw [foldl_cons, ih]
    by_cases hk : k ∈ deleted
    · simp [hk]
    · rcases eq_or_ne k d with rfl | hd
      · simp
      · simp [hk, hd, AList.lookup_erase_ne hd]

lemma lookup_foldl_insert (filed : List (K × V)) (t : Table K V) (k : K) :
    (filed.foldl (fun t e => t.insert e.1 e.2) t).lookup k = (lastFiled filed k).or (t.lookup k) := by
  induction filed using List.reverseRecOn with
  | nil => simp
  | append_singleton filed e ih =>
    rw [List.foldl_append, foldl_cons, foldl_nil, lastFiled_concat]
    rcases eq_or_ne k e.1 with rfl | hk
    · simp
    · rw [AList.lookup_insert_ne hk, ih, if_neg hk.symm]

lemma lookup_patched (deleted : List K) (filed : List (K × V)) (t : Table K V) (k : K) :
    (t.patched deleted filed).lookup k = patch deleted filed t.lookup k := by
  rw [patched, lookup_foldl_insert, lookup_foldl_erase, patch]

end AList
