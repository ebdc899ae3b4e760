import QuillCache.Lib.Slices

/-!
# Length-prefixed, checksummed frames

A log file is a sequence of frames `[length][checksum][payload]`, where both header fields are 32-bit
little-endian numbers. A reader takes frames from the front until one does not fit into the bytes that
are left or does not match its checksum. `Intact bytes ps` says that the payloads read in this way
are `ps`.

Every byte string has such a list of payloads; whole frames are read back; a frame that was cut short, or
whose damage the checksum detects, ends the list.
-/

namespace QuillCache.Lib

open List

/-- A serialiser with a parser that undoes it. -/
structure Codec (E : Type) where
  encode : E → List UInt8
  decode : List UInt8 → Option E
  decode_encode : ∀ e, decode (encode e) = some e

/-! ## Little-endian numbers -/

/-- The low 32 bits of a number, least significant byte first. -/
def le32 (n : ℕ) : List UInt8 :=
  [UInt8.ofNat n, UInt8.ofNat (n / 2 ^ 8), UInt8.ofNat (n / 2 ^ 16), UInt8.ofNat (n / 2 ^ 24)]

/-- The number of a list of bytes, least significant byte first. -/
def ofLe (bytes : List UInt8) : ℕ := bytes.foldr (fun b n => b.toNat + 2 ^ 8 * n) 0

@[simp] lemma length_le32 (n : ℕ) : (le32 n).length = 4 := rfl

lemma ofLe_le32 {n : ℕ} (h : n < 2 ^ 32) : ofLe (le32 n) = n := by
  simp only [le32, ofLe, List.foldr, UInt8.toNat_ofNat']
  omega

lemma le32_ofLe {bytes : List UInt8} (h : bytes.length = 4) : le32 (ofLe bytes) = bytes := by
  match bytes, h with
  | [a, b, c, d], _ =>
    have ha := a.toNat_lt
    have hb := b.toNat_lt
    have hc := c.toNat_lt
    have hd := d.toNat_lt
    simp only [le32, ofLe, List.foldr, List.cons.injEq, and_true, ← UInt8.toNat_inj, UInt8.toNat_ofNat']
    omega

section frames

variable (crc : List UInt8 → UInt32)

def frame (p : List UInt8) : List UInt8 := le32 p.length ++ le32 (crc p).toNat ++ p

def log (ps : List (List UInt8)) : List UInt8 := (ps.map (frame crc)).flatten

/-- The stored checksum and the payload of the frame at the front, if it fits into the bytes. -/
def parseFrame (bytes : List UInt8) : Option (ℕ × List UInt8) :=
  if 8 ≤ bytes.length ∧ 8 + ofLe (bytes.take 4) ≤ bytes.length then
    some (ofLe ((bytes.drop 4).take 4), (bytes.drop 8).take (ofLe (bytes.take 4)))
  else none

/-- The payloads that are read from the front of the bytes. -/
inductive Intact : List UInt8 → List (List UInt8) → Prop where
  | short {bytes : List UInt8} (h : parseFrame bytes = none) : Intact bytes []
  | mismatch {bytes p : List UInt8} {stored : ℕ} (h : parseFrame bytes = some (stored, p))
      (hcrc : (crc p).toNat ≠ stored) : Intact bytes []
  | frame {bytes p : List UInt8} {ps : List (List UInt8)} (h : parseFrame bytes = some ((crc p).toNat, p))
      (hrest : Intact (bytes.drop (8 + p.length)) ps) : Intact bytes (p :: ps)

variable {crc} {bytes p : List UInt8} {ps ps' : List (List UInt8)}

lemma length_frame : (frame crc p).length = 8 + p.length := by
  simp only [frame, length_append, length_le32]

lemma parseFrame_eq_some {stored : ℕ} (h : parseFrame bytes = some (stored, p)) :
    8 + p.length ≤ bytes.length ∧ p.length = ofLe (bytes.take 4) ∧ stored = ofLe ((bytes.drop 4).take 4) ∧
      p = (bytes.drop 8).take p.length := by
  rw [parseFrame] at h
  split_ifs at h with hfits
  cases h
  have hlen : ((bytes.drop 8).take (ofLe (bytes.take 4))).length = ofLe (bytes.take 4) := by
    simp only [length_take, length_drop]
    omega
  refine ⟨by omega, hlen, rfl, ?_⟩
  rw [hlen]

lemma parseFrame_frame (hp : p.length < 2 ^ 32) (rest : List UInt8) :
    parseFrame (frame crc p ++ rest) = some ((crc p).toNat, p) := by
  have htake : (frame crc p ++ rest).take 4 = le32 p.length := by
    rw [frame, append_assoc, append_assoc, take_left' (length_le32 _)]
  have hdrop : (frame crc p ++ rest).drop 4 = le32 (crc p).toNat ++ (p ++ rest) := by
    rw [frame, append_assoc, append_assoc, drop_left' (length_le32 _)]
  have hpayload : (frame crc p ++ rest).drop 8 = p ++ rest := by
    rw [show 8 = 4 + 4 from rfl, ← drop_drop, hdrop, drop_left' (length_le32 _)]
  have hlen : (frame crc p ++ rest).length = 8 + p.length + rest.length := by
    rw [length_append, length_frame]
  rw [parseFrame, htake, ofLe_le32 hp, if_pos (by omega), hdrop, hpayload, take_left' (length_le32 _),
    ofLe_le32 (UInt32.toNat_lt _), take_left]

lemma drop_frame (rest : List UInt8) : (frame crc p ++ rest).drop (8 + p.length) = rest :=
  drop_left' length_frame

lemma Intact.frame_append (hp : p.length < 2 ^ 32) (h : Intact crc bytes ps) :
    Intact crc (Lib.frame crc p ++ bytes) (p :: ps) := by
  refine .frame (parseFrame_frame hp bytes) ?_
  rw [drop_frame]
  exact h

lemma log_cons : log crc (p :: ps) = frame crc p ++ log crc ps := rfl

lemma log_append : log crc (ps ++ ps') = log crc ps ++ log crc ps' := by
  simp only [log, map_append, flatten_append]

lemma Intact.log_append (hps : ∀ p ∈ ps, p.length < 2 ^ 32) (h : Intact crc bytes ps') :
    Intact crc (log crc ps ++ bytes) (ps ++ ps') := by
  induction ps with
  | nil => exact h
  | cons p ps ih =>
    rw [log_cons, append_assoc, cons_append]
    exact (ih fun q hq => hps q (mem_cons_of_mem _ hq)).frame_append (hps p mem_cons_self)

lemma Intact.torn {n : ℕ} (hp : p.length < 2 ^ 32) (hn : n < (Lib.frame crc p).length) :
    Intact crc ((Lib.frame crc p).take n) [] := by
  refine .short (if_neg fun hfits => ?_)
  have hlen : ((Lib.frame crc p).take n).length = n := by
    rw [length_take]
    omega
  have htake : ((Lib.frame crc p).take n).take 4 = le32 p.length := by
    rw [take_take, min_eq_left (by omega), Lib.frame, append_assoc,
      take_left' (length_le32 _)]
  rw [htake, ofLe_le32 hp, hlen] at hfits
  rw [length_frame] at hn
  omega

lemma Intact.nil : Intact crc [] [] := .short rfl

lemma intact_log (hps : ∀ p ∈ ps, p.length < 2 ^ 32) : Intact crc (log crc ps) ps := by
  have h : Intact crc (log crc ps ++ []) (ps ++ []) := Intact.nil.log_append hps
  rwa [append_nil, append_nil] at h

/-- Of a file that was cut at byte `n`, the frames that lie within the first `n` bytes are read. -/
lemma Intact.take_log (hps : ∀ p ∈ ps, p.length < 2 ^ 32) (n : ℕ) :
    ∃ k ≤ ps.length, (∀ j ≤ ps.length, (log crc (ps.take j)).length ≤ n ↔ j ≤ k) ∧
      Intact crc ((log crc ps).take n) (ps.take k) := by
  induction ps generalizing n with
  | nil =>
    refine ⟨0, le_rfl, fun j hj => ?_, ?_⟩
    · simp [log, Nat.le_zero.mp hj]
    · rw [log, map_nil, flatten_nil, take_nil]
      exact .nil
  | cons p ps ih =>
    have hp := hps p mem_cons_self
    by_cases hn : n < (Lib.frame crc p).length
    · -- already the first frame is cut
      refine ⟨0, Nat.zero_le _, fun j hj => ?_, ?_⟩
      · cases j with
        | zero => simp [log]
        | succ j =>
          rw [take_succ_cons, log_cons, length_append]
          omega
      · rw [log_cons, take_append_of_le_length hn.le]
        exact .torn hp hn
    · obtain ⟨m, rfl⟩ := Nat.exists_eq_add_of_le (not_lt.mp hn)
      obtain ⟨k, hk, hiff, hintact⟩ := ih (fun q hq => hps q (mem_cons_of_mem _ hq)) m
      refine ⟨k + 1, Nat.succ_le_succ hk, fun j hj => ?_, ?_⟩
      · cases j with
        | zero => simp [log]
        | succ j =>
          rw [take_succ_cons, log_cons, length_append, Nat.add_le_add_iff_left,
            hiff j (Nat.succ_le_succ_iff.mp hj), Nat.succ_le_succ_iff]
      · rw [log_cons, take_length_add_append, take_succ_cons]
        exact hintact.frame_append hp

lemma Intact.altered {d rest : List UInt8} (hlen : d.length = (Lib.frame crc p).length)
    (hd : d ≠ Lib.frame crc p)
    (hdetect : ∀ stored q, parseFrame (d ++ rest) = some (stored, q) → q ≠ p ∨ stored ≠ (crc p).toNat →
      (crc q).toNat ≠ stored) :
    Intact crc (d ++ rest) [] := by
  cases hparse : parseFrame (d ++ rest) with
  | none => exact .short hparse
  | some f =>
    obtain ⟨stored, q⟩ := f
    refine .mismatch hparse (hdetect stored q hparse ?_)
    by_contra hsame
    rw [not_or, not_not, not_not] at hsame
    obtain ⟨rfl, rfl⟩ := hsame
    -- the header and the payload would be those of the frame
    obtain ⟨-, hq, hstored, hpayload⟩ := parseFrame_eq_some hparse
    rw [length_frame] at hlen
    rw [take_append_of_le_length (by omega)] at hq
    rw [drop_append_of_le_length (by omega), take_append_of_le_length
      (by rw [length_drop]; omega)] at hstored
    rw [drop_append_of_le_length (by omega), take_append_of_le_length
      (by rw [length_drop]; omega), take_of_length_le (by rw [length_drop]; omega)] at hpayload
    refine hd ?_
    calc d = d.take 4 ++ (d.drop 4).take 4 ++ d.drop 8 := by
          rw [append_assoc, show 8 = 4 + 4 from rfl, ← drop_drop, take_append_drop,
            take_append_drop]
      _ = le32 q.length ++ le32 (crc q).toNat ++ q := by
          rw [hq, hstored, le32_ofLe (by rw [length_take]; omega),
            le32_ofLe (by rw [length_take, length_drop]; omega), ← hpayload]

lemma exists_intact (crc : List UInt8 → UInt32) (bytes : List UInt8) : ∃ ps, Intact crc bytes ps := by
  induction hn : bytes.length using Nat.strong_induction_on generalizing bytes with
  | _ n ih =>
    cases hparse : parseFrame bytes with
    | none => exact ⟨[], .short hparse⟩
    | some f =>
      obtain ⟨stored, p⟩ := f
      by_cases hcrc : (crc p).toNat = stored
      · subst hcrc
        have hle := (parseFrame_eq_some hparse).1
        obtain ⟨ps, hps⟩ := ih _ (by rw [← hn]; simp only [length_drop]; omega)
          (bytes.drop (8 + p.length)) rfl
        exact ⟨p :: ps, .frame hparse hps⟩
      · exact ⟨[], .mismatch hparse hcrc⟩

end frames

end QuillCache.Lib
