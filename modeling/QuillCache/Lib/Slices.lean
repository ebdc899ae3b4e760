import QuillCache.Lib.Tiling

/-!
# Slices of a list

Checked reads and writes of a range `start .. stop` of a list, as slice indexing does them: a range
that is reversed or reaches beyond the end panics (`none`), and so does copying data of another length
into a range. A write changes the range it names and nothing else.
-/

namespace QuillCache.Lib

open List

variable {α : Type} {l l' data d : List α} {start stop x m n : ℕ}

def readRange (l : List α) (start stop : ℕ) : Option (List α) :=
  if start ≤ stop ∧ stop ≤ l.length then some ((l.drop start).take (stop - start)) else none

def writeRange (l : List α) (start stop : ℕ) (data : List α) : Option (List α) :=
  if start ≤ stop ∧ stop ≤ l.length ∧ data.length = stop - start then
    some (l.take start ++ data ++ l.drop stop)
  else none

lemma readRange_of_le (h : start + m ≤ l.length) :
    readRange l start (start + m) = some ((l.drop start).take m) := by
  rw [readRange, if_pos ⟨Nat.le_add_right _ _, h⟩, Nat.add_sub_cancel_left]

lemma writeRange_of_le (h : start + data.length ≤ l.length) :
    writeRange l start (start + data.length) data =
      some (l.take start ++ data ++ l.drop (start + data.length)) :=
  if_pos ⟨Nat.le_add_right _ _, h, (Nat.add_sub_cancel_left _ _).symm⟩

lemma length_of_writeRange (h : writeRange l start stop data = some l') : l'.length = l.length := by
  rw [writeRange] at h
  split_ifs at h with hr
  cases h
  simp only [length_append, length_take, length_drop]
  omega

lemma readRange_of_writeRange (h : writeRange l start stop data = some l') :
    readRange l' start stop = some data := by
  have hlen := length_of_writeRange h
  rw [writeRange] at h
  split_ifs at h with hr
  cases h
  rw [readRange, if_pos ⟨hr.1, hlen ▸ hr.2.1⟩, ← hr.2.2, append_assoc, drop_append_of_le_length,
    drop_eq_nil_of_le, nil_append, take_left]
  · simp
  · simp only [length_take]
    omega

lemma getElem?_of_writeRange (h : writeRange l start stop data = some l') {i : ℕ}
    (hi : i < start ∨ stop ≤ i) : l'[i]? = l[i]? := by
  rw [writeRange] at h
  split_ifs at h with hr
  cases h
  have htake : (l.take start).length = start := by
    rw [length_take]
    omega
  rcases hi with hi | hi
  · rw [append_assoc, getElem?_append_left (by omega), getElem?_take_of_lt hi]
  · rw [getElem?_append_right (by rw [length_append]; omega), getElem?_drop]
    congr 1
    rw [length_append]
    omega

lemma getElem?_of_writeRange_inside (h : writeRange l start stop data = some l') {i : ℕ} (hi : start ≤ i)
    (hi' : i < stop) : l'[i]? = data[i - start]? := by
  rw [writeRange] at h
  split_ifs at h with hr
  cases h
  have htake : (l.take start).length = start := by
    rw [length_take]
    omega
  rw [append_assoc, getElem?_append_right (by omega), htake, getElem?_append_left (by omega)]

lemma readRange_of_disjoint (h : writeRange l start stop data = some l')
    (hd : RangesDisjoint start (stop - start) x m) :
    readRange l' x (x + m) = readRange l x (x + m) := by
  have hle : start ≤ stop := by
    rw [writeRange] at h
    split_ifs at h with hr
    exact hr.1
  have hslice : (l'.drop x).take m = (l.drop x).take m := by
    refine ext_getElem? fun i => ?_
    by_cases hi : i < m
    · rw [getElem?_take_of_lt hi, getElem?_take_of_lt hi, getElem?_drop,
        getElem?_drop]
      refine getElem?_of_writeRange h ?_
      unfold RangesDisjoint at hd
      omega
    · rw [getElem?_eq_none (by simp only [length_take]; omega),
        getElem?_eq_none (by simp only [length_take]; omega)]
  rw [readRange, readRange, length_of_writeRange h, Nat.add_sub_cancel_left, hslice]

lemma readRange_append (h : readRange l x (x + n) = some d) (data : List α) :
    readRange (l ++ data) x (x + n) = some d := by
  rw [readRange] at h ⊢
  split_ifs at h with hle
  rw [if_pos ⟨hle.1, hle.2.trans (by simp)⟩, ← h, drop_append_of_le_length (by omega),
    take_append_of_le_length (by rw [length_drop]; omega)]

lemma readRange_appended (l data : List α) :
    readRange (l ++ data) l.length (l.length + data.length) = some data := by
  rw [readRange_of_le (by simp), drop_left, take_length]

lemma le_of_readRange (h : readRange l x (x + n) = some d) : x + n ≤ l.length := by
  rw [readRange] at h
  split_ifs at h with hle
  exact hle.2

lemma length_of_readRange (h : readRange l x (x + n) = some d) : d.length = n := by
  have hle := le_of_readRange h
  rw [readRange_of_le hle, Option.some.injEq] at h
  rw [← h, length_take, length_drop]
  omega

end QuillCache.Lib
