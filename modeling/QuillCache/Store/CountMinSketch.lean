import Mathlib.Data.List.FinRange
import Mathlib.Order.Bounds.Defs
import Mathlib.Order.MinMax

/-!
# The count-min sketch

An embedding of `count_min_sketch.rs`, over an arbitrary hash of a key and a row. The sketch is run beside one exact
counter per key, which saturates where the sketch's counters do and is halved whenever the sketch decays; no estimate
is below it (`exact_le_count`), and what an estimate exceeds it by is what the other keys of the cells have counted
(`count_isLeast`).

Source: `count_min_sketch.rs`.
-/

namespace QuillCache.Store

open Function

/-- The rows and counters are those of a vector of `depth` vectors of `width` bytes, which is in memory, so that
`width * depth` does not overflow. -/
structure CountMinSketch where
  width : ℕ
  depth : ℕ
  width_pos : 0 < width
  table : Fin depth → Fin width → ℕ
  totalIncrements : ℕ

namespace CountMinSketch

def defaultWidth : ℕ := 4096

def defaultDepth : ℕ := 4

def new (width depth : ℕ) : CountMinSketch where
  width := if 0 < width then width else defaultWidth
  depth := if 0 < depth then depth else defaultDepth
  width_pos := by
    split_ifs with h
    · exact h
    · decide
  table := fun _ _ => 0
  totalIncrements := 0

/-- Source: `u8::saturating_add`, of one. -/
def saturatingSucc (c : ℕ) : ℕ := min (c + 1) 255

section sketch

variable (hash : String → ℕ → ℕ) (key : String)

def idx (s : CountMinSketch) (i : Fin s.depth) : Fin s.width := ⟨hash key i % s.width, Nat.mod_lt _ s.width_pos⟩

def count (s : CountMinSketch) : ℕ :=
  (List.finRange s.depth).foldl (fun minVal i => min minVal (s.table i (s.idx hash key i))) 255

def decay (s : CountMinSketch) : CountMinSketch where
  width := s.width
  depth := s.depth
  width_pos := s.width_pos
  table := fun i j => s.table i j >>> 1
  totalIncrements := 0

def bump (s : CountMinSketch) : CountMinSketch where
  width := s.width
  depth := s.depth
  width_pos := s.width_pos
  table := fun i => Function.update (s.table i) (s.idx hash key i) (saturatingSucc (s.table i (s.idx hash key i)))
  totalIncrements := s.totalIncrements + 1

def decays (s : CountMinSketch) : Bool := s.width * s.depth ≤ s.totalIncrements + 1

/-- The estimate is taken before the counters decay. -/
def increment (s : CountMinSketch) : ℕ × CountMinSketch :=
  let s' := s.bump hash key
  (s'.count hash key, if s.decays then s'.decay else s')

end sketch

/-! ## Runs beside exact counters -/

inductive Call where
  | increment (key : String)
  | decay

/-- A sketch, and an exact counter of each key. -/
structure Counted where
  sketch : CountMinSketch
  exact : String → ℕ

def halved (exact : String → ℕ) (key : String) : ℕ := exact key / 2

def Counted.step (hash : String → ℕ → ℕ) (c : Counted) : Call → Counted
  | .increment key =>
    let exact := Function.update c.exact key (saturatingSucc (c.exact key))
    ⟨(c.sketch.increment hash key).2, if c.sketch.decays then halved exact else exact⟩
  | .decay => ⟨c.sketch.decay, halved c.exact⟩

/-- No counter of a key is below its exact counter. -/
structure Covers (hash : String → ℕ → ℕ) (s : CountMinSketch) (exact : String → ℕ) : Prop where
  exact_le : ∀ key, exact key ≤ 255
  cell : ∀ key i, exact key ≤ s.table i (s.idx hash key i)

section covers

variable {hash : String → ℕ → ℕ} {s : CountMinSketch} {exact : String → ℕ}

lemma le_foldl_min {ι : Type} {f : ι → ℕ} {l : List ι} {n m : ℕ} :
    n ≤ l.foldl (fun minVal i => min minVal (f i)) m ↔ n ≤ m ∧ ∀ i ∈ l, n ≤ f i := by
  induction l generalizing m with
  | nil => simp
  | cons i l ih => simp [ih, and_assoc]

lemma Covers.le_count (h : Covers hash s exact) (key : String) : exact key ≤ s.count hash key := by
  rw [count, le_foldl_min]
  exact ⟨h.exact_le key, fun i _ => h.cell key i⟩

lemma Covers.bump (h : Covers hash s exact) (key : String) :
    Covers hash (s.bump hash key) (Function.update exact key (saturatingSucc (exact key))) := by
  have hown : ∀ i, saturatingSucc (exact key) ≤ saturatingSucc (s.table i (s.idx hash key i)) := fun i =>
    min_le_min (Nat.succ_le_succ (h.cell key i)) le_rfl
  refine ⟨fun k => ?_, fun k i => ?_⟩
  · by_cases hk : k = key
    · subst hk
      rw [update_self]
      exact min_le_right _ _
    · rw [update_of_ne hk]
      exact h.exact_le k
  · show _ ≤ Function.update (s.table i) (s.idx hash key i) _ (s.idx hash k i)
    by_cases hk : k = key
    · subst hk
      rw [update_self, update_self]
      exact hown i
    · rw [update_of_ne hk]
      by_cases hcell : s.idx hash k i = s.idx hash key i
      · rw [hcell, update_self, ← hcell]
        exact le_min (Nat.le_succ_of_le (h.cell k i)) (h.exact_le k)
      · rw [update_of_ne hcell]
        exact h.cell k i

lemma Covers.decay (h : Covers hash s exact) : Covers hash s.decay (halved exact) := by
  refine ⟨fun key => (Nat.div_le_self _ 2).trans (h.exact_le key), fun key i => ?_⟩
  show exact key / 2 ≤ s.table i (s.idx hash key i) >>> 1
  rw [Nat.shiftRight_eq_div_pow]
  exact Nat.div_le_div_right (h.cell key i)

lemma Covers.step {c : Counted} (h : Covers hash c.sketch c.exact) (call : Call) :
    Covers hash (c.step hash call).sketch (c.step hash call).exact := by
  cases call with
  | increment key =>
    have hbump := h.bump key
    unfold Counted.step increment
    dsimp only
    split_ifs
    · exact hbump.decay
    · exact hbump
  | decay => exact h.decay

end covers

/-- After any run of increments and decays, no estimate is below the exact counter of its key. -/
theorem exact_le_count (hash : String → ℕ → ℕ) (width depth : ℕ) (calls : List Call) (key : String) :
    (calls.foldl (Counted.step hash) ⟨new width depth, fun _ => 0⟩).exact key ≤
      (calls.foldl (Counted.step hash) ⟨new width depth, fun _ => 0⟩).sketch.count hash key := by
  have hrun : ∀ c : Counted, Covers hash c.sketch c.exact →
      Covers hash (calls.foldl (Counted.step hash) c).sketch (calls.foldl (Counted.step hash) c).exact := by
    induction calls with
    | nil => exact fun _ h => h
    | cons call calls ih => exact fun c h => ih _ (h.step call)
  apply Covers.le_count
  apply hrun
  exact ⟨fun _ => Nat.zero_le _, fun _ _ => Nat.zero_le _⟩

/-! ## What an estimate is -/

/-- A sketch, and for each row one exact counter of the increments that fall into the cell of a key. -/
structure Tallied where
  sketch : CountMinSketch
  tally : ℕ → ℕ

/-- The keys that share the cell of `key` in row `i`. -/
def Shares (hash : String → ℕ → ℕ) (key : String) (width i : ℕ) (k : String) : Prop :=
  hash k i % width = hash key i % width

instance {hash : String → ℕ → ℕ} {key : String} {width i : ℕ} : DecidablePred (Shares hash key width i) :=
  fun _ => inferInstanceAs (Decidable (_ = _))

def Tallied.step (hash : String → ℕ → ℕ) (key : String) (c : Tallied) : Call → Tallied
  | .increment k =>
    let tally := fun i => if Shares hash key c.sketch.width i k then saturatingSucc (c.tally i) else c.tally i
    ⟨(c.sketch.increment hash k).2, if c.sketch.decays then fun i => tally i / 2 else tally⟩
  | .decay => ⟨c.sketch.decay, fun i => c.tally i / 2⟩

/-- The cells of a key hold the counters of its rows. -/
structure Tallies (hash : String → ℕ → ℕ) (key : String) (c : Tallied) : Prop where
  pos : 0 < c.sketch.depth
  cell : ∀ r : Fin c.sketch.depth, c.sketch.table r (c.sketch.idx hash key r) = c.tally r
  tally_le : ∀ i, c.tally i ≤ 255

section tallies

variable {hash : String → ℕ → ℕ} {key : String} {c : Tallied}

lemma tallies_new (width depth : ℕ) : Tallies hash key ⟨new width depth, fun _ => 0⟩ := by
  refine ⟨?_, fun _ => rfl, fun _ => Nat.zero_le _⟩
  show 0 < ite _ _ _
  split_ifs with h
  · exact h
  · decide

lemma Tallies.decay (h : Tallies hash key c) : Tallies hash key ⟨c.sketch.decay, fun i => c.tally i / 2⟩ := by
  refine ⟨h.pos, fun r => ?_, fun i => (Nat.div_le_self _ 2).trans (h.tally_le i)⟩
  show c.sketch.table r (c.sketch.idx hash key r) >>> 1 = c.tally r / 2
  rw [h.cell r, Nat.shiftRight_eq_div_pow]

lemma Tallies.bump (h : Tallies hash key c) (k : String) : Tallies hash key ⟨c.sketch.bump hash k,
    fun i => if Shares hash key c.sketch.width i k then saturatingSucc (c.tally i) else c.tally i⟩ := by
  refine ⟨h.pos, fun r => ?_, fun i => ?_⟩
  · have hcell : c.sketch.idx hash key r = c.sketch.idx hash k r ↔ Shares hash key c.sketch.width r k :=
      Fin.ext_iff.trans eq_comm
    show Function.update (c.sketch.table r) (c.sketch.idx hash k r) _ (c.sketch.idx hash key r) = _
    dsimp only
    split_ifs with hshares
    · rw [← hcell.mpr hshares, update_self, h.cell r]
    · rw [update_of_ne fun heq => hshares (hcell.mp heq), h.cell r]
  · dsimp only
    split_ifs
    · exact min_le_right _ _
    · exact h.tally_le i

lemma Tallies.step (h : Tallies hash key c) (call : Call) : Tallies hash key (c.step hash key call) := by
  cases call with
  | increment k =>
    have hbump := h.bump k
    unfold Tallied.step increment
    dsimp only
    split_ifs with hdecays
    · exact hbump.decay
    · exact hbump
  | decay => exact h.decay

lemma foldl_min_mem {ι : Type} {f : ι → ℕ} (l : List ι) (m : ℕ) :
    l.foldl (fun minVal i => min minVal (f i)) m = m ∨ ∃ i ∈ l, l.foldl (fun minVal i => min minVal (f i)) m = f i := by
  induction l generalizing m with
  | nil => exact .inl rfl
  | cons i l ih =>
    rw [List.foldl_cons]
    rcases ih (min m (f i)) with h | ⟨j, hj, h⟩
    · rcases min_choice m (f i) with hm | hi
      · exact .inl (h.trans hm)
      · exact .inr ⟨i, List.mem_cons_self, h.trans hi⟩
    · exact .inr ⟨j, List.mem_cons_of_mem _ hj, h⟩

lemma Tallies.isLeast_count (h : Tallies hash key c) :
    IsLeast {n | ∃ i < c.sketch.depth, n = c.tally i} (c.sketch.count hash key) := by
  have hle : ∀ r : Fin c.sketch.depth, c.sketch.count hash key ≤ c.tally r := fun r =>
    ((le_foldl_min.mp le_rfl).2 r (List.mem_finRange r)).trans (h.cell r).le
  constructor
  · rcases foldl_min_mem (f := fun r => c.sketch.table r (c.sketch.idx hash key r)) (List.finRange c.sketch.depth) 255
      with hmax | ⟨r, -, hr⟩
    · -- every cell is full, that of the first row too
      exact ⟨0, h.pos, (hle ⟨0, h.pos⟩).antisymm ((h.tally_le 0).trans hmax.ge)⟩
    · exact ⟨r, r.isLt, hr.trans (h.cell r)⟩
  · rintro n ⟨i, hi, rfl⟩
    exact hle ⟨i, hi⟩

end tallies

/-- **An estimate is the least, over the rows, of the exact counter of all keys that share the cell of its key.** So it is
exact if there is a row in which nothing else has been counted there. -/
theorem count_isLeast (hash : String → ℕ → ℕ) (width depth : ℕ) (calls : List Call) (key : String) :
    let c := calls.foldl (Tallied.step hash key) ⟨new width depth, fun _ => 0⟩
    IsLeast {n | ∃ i < c.sketch.depth, n = c.tally i} (c.sketch.count hash key) := by
  have hrun : ∀ c : Tallied, Tallies hash key c → Tallies hash key (calls.foldl (Tallied.step hash key) c) := by
    induction calls with
    | nil => exact fun _ h => h
    | cons call calls ih => exact fun c h => ih _ (h.step call)
  exact (hrun _ (tallies_new width depth)).isLeast_count

end CountMinSketch

end QuillCache.Store
