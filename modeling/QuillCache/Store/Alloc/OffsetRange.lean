import QuillCache.Store.Alloc.OffsetSpec

/-!
# Sizes at the end of the 64-bit range

`OffsetAllocator::allocate` rounds a size up to units of `2 ^ multiplier_bits` by an addition, before anything compares
the size with the capacity. In a scaled allocator the addition overflows for the last `2 ^ multiplier_bits` sizes. With
overflow checks the call panics; without them the sum wraps, the request shrinks to no units at all, and the caller gets
an allocation of the size it asked for (`rounding_overflows`). Runs without such sizes stay inside the segment
(`refuses_beyond_capacity`).

Source: `offset_allocator.rs`.
-/

namespace QuillCache.Store

open Lib SmallFloat

/-- Whether the program was built with overflow checks. -/
inductive Arithmetic where
  | checked
  | wrapping

def Arithmetic.add {σ : Type} (mode : Arithmetic) (a b : ℕ) : Exec σ ℕ :=
  match mode with
  | .checked => addChecked 64 a b
  | .wrapping => pure ((a + b) % 2 ^ 64)

namespace OffsetAllocator

/-- `fakeSize`, with the subtraction of one wrapping as well. -/
def fakeSizeIn (mode : Arithmetic) (size : ℕ) : Exec OffsetAllocator ℕ := do
  let a ← get
  if 0 < a.multiplierBits then
    let sum ← mode.add size (1 <<< a.multiplierBits)
    return ((sum + (2 ^ 64 - 1)) % 2 ^ 64) >>> a.multiplierBits
  return size

def recordIn (mode : Arithmetic) (size : ℕ) : Exec OffsetAllocator Unit := do
  let a ← get
  let allocatedSize ← mode.add a.allocatedSize size
  let allocatedNum ← mode.add a.allocatedNum 1
  set { a with allocatedSize, allocatedNum }

/-- `allocate` in either build. The 32-bit sums of the core are checked here in both.
Source: `allocate` -/
def allocateIn (mode : Arithmetic) (size : ℕ) : Exec OffsetAllocator (Option Allocation) :=
  if size = 0 then pure none
  else do
    let fake ← fakeSizeIn mode size
    if maxBinSize < fake then return none
    else
      let allocation ← onCore (CoreAllocator.allocate (fake % 2 ^ 32))
      if allocation.isNoSpace then return none
      else
        recordIn mode size
        let a ← get
        let offset ← mode.add a.base (allocation.offset <<< a.multiplierBits % 2 ^ 64)
        return some ⟨offset, size, allocation⟩

/-- Source: `reserve_exact` -/
def reserveExactIn (mode : Arithmetic) (offset size : ℕ) : Exec OffsetAllocator (Option Allocation) := do
  let a ← get
  if size = 0 ∨ offset < a.base ∨ a.multiplierBits ≠ 0 then return none
  else if 2 ^ 32 ≤ offset - a.base ∨ 2 ^ 32 ≤ size then return none
  else
    match ← onCore (CoreAllocator.reserveExact (offset - a.base) size) with
    | none => return none
    | some core =>
      recordIn mode size
      return some ⟨offset, size, core⟩

/-! ## Both builds agree where no sum overflows -/

section agree

variable {mode : Arithmetic} {a : OffsetAllocator} {size : ℕ}

lemma extends_add {σ : Type} (x y : ℕ) : Extends (mode.add x y : Exec σ ℕ) (addChecked 64 x y) := by
  intro s r h
  obtain ⟨hlt, hr⟩ := Option.ite_none_right_eq_some.mp h
  cases mode with
  | checked => exact h
  | wrapping =>
    rw [Arithmetic.add, Nat.mod_eq_of_lt hlt]
    exact hr

lemma extends_fakeSizeIn (size : ℕ) : Extends (fakeSizeIn mode size) (fakeSize size) := by
  refine Extends.refl.bind fun a => ?_
  split_ifs with hbits
  · intro s r h
    obtain ⟨sum, s', hsum, hr⟩ := bind_eq_some.mp h
    obtain ⟨hlt, hsum'⟩ := Option.ite_none_right_eq_some.mp hsum
    obtain ⟨rfl, rfl⟩ := Prod.mk.inj (Option.some.inj hsum')
    refine bind_eq_some.mpr ⟨_, _, extends_add _ _ _ _ hsum, ?_⟩
    have hone : 1 ≤ 1 <<< a.multiplierBits := by
      rw [Nat.one_shiftLeft]
      exact Nat.one_le_two_pow
    rw [show size + 1 <<< a.multiplierBits + (2 ^ 64 - 1) = size + 1 <<< a.multiplierBits - 1 + 2 ^ 64 by omega,
      Nat.add_mod_right, Nat.mod_eq_of_lt (by omega)]
    exact hr
  · exact Extends.refl

lemma extends_recordIn (size : ℕ) : Extends (recordIn mode size) (record size) :=
  Extends.refl.bind fun _ => (extends_add _ _).bind fun _ => (extends_add _ _).bind fun _ => Extends.refl

theorem extends_allocateIn (size : ℕ) : Extends (allocateIn mode size) (allocate size) := by
  unfold allocateIn allocate
  split_ifs
  · exact Extends.refl
  refine (extends_fakeSizeIn size).bind fun fake => ?_
  split_ifs
  · exact Extends.refl
  refine Extends.refl.bind fun allocation => ?_
  split_ifs
  · exact Extends.refl
  exact (extends_recordIn size).bind fun _ => Extends.refl.bind fun _ => (extends_add _ _).bind fun _ => Extends.refl

lemma extends_reserveExactIn (offset size : ℕ) : Extends (reserveExactIn mode offset size) (reserveExact offset size) := by
  refine Extends.refl.bind fun a => ?_
  split_ifs
  · exact Extends.refl
  · exact Extends.refl
  refine Extends.refl.bind fun out => ?_
  cases out with
  | none => exact Extends.refl
  | some core => exact (extends_recordIn size).bind fun _ => Extends.refl

end agree

/-! ## Runs -/

/-- Rounding the size up to units does not overflow. -/
def Roundable (a : OffsetAllocator) (size : ℕ) : Prop :=
  0 < a.multiplierBits → size + 2 ^ a.multiplierBits < 2 ^ 64

def granted (out : Option Allocation) (live : Multiset Allocation) : Multiset Allocation :=
  out.elim live (· ::ₘ live)

/-- A call on an allocator with its live allocations, of a size that can be rounded up. -/
inductive Step (mode : Arithmetic) :
    OffsetAllocator × Multiset Allocation → OffsetAllocator × Multiset Allocation → Prop
  | allocate {a a' : OffsetAllocator} {live : Multiset Allocation} {size : ℕ} {out : Option Allocation}
      (hsize : size < 2 ^ 64) (hround : a.Roundable size) (hrun : allocateIn mode size a = some (out, a')) :
      Step mode (a, live) (a', granted out live)
  | free {a a' : OffsetAllocator} {live : Multiset Allocation} {x : Allocation} (hrun : free x a = some ((), a')) :
      Step mode (a, x ::ₘ live) (a', live)
  | reserveExact {a a' : OffsetAllocator} {live : Multiset Allocation} {offset size : ℕ} {out : Option Allocation}
      (hrun : reserveExactIn mode offset size a = some (out, a')) : Step mode (a, live) (a', granted out live)

def observed (a : OffsetAllocator) : ℕ × ℕ × Option (ℕ × ℕ) := (a.capacity, a.allocatedSize, a.storageReport)

structure Runs (base capacity : ℕ) (p : OffsetAllocator × Multiset Allocation) : Prop where
  inv : ∃ L, p.1.Inv False p.2 L
  base_eq : p.1.base = base
  capacity_eq : p.1.capacity = capacity

section run

variable {mode : Arithmetic} {a a' : OffsetAllocator} {size base capacity : ℕ} {live : Multiset Allocation}
  {L : List Region} {p p' : OffsetAllocator × Multiset Allocation}

lemma Roundable.unscaled (hround : a.Roundable size) (hlt : ¬size + 2 ^ a.multiplierBits < 2 ^ 64) :
    a.multiplierBits = 0 ∧ 2 ^ 64 ≤ size + 1 := by
  have hbits : a.multiplierBits = 0 := by
    by_contra hne
    exact hlt (hround (Nat.pos_of_ne_zero hne))
  rw [hbits, pow_zero] at hlt
  exact ⟨hbits, not_lt.mp hlt⟩

lemma allocate_of_not_lt (hbits : a.multiplierBits = 0) (hsize : 2 ^ 64 ≤ size + 1) :
    Wp (allocate size) (fun out a' => out = none ∧ a' = a) a := by
  rw [allocate, if_neg (by omega), wp_bind]
  simp only [fakeSize, wp_bind, wp_get, hbits, lt_irrefl, if_false, wp_pure]
  rw [if_pos (by simp only [maxBinSize]; omega), wp_pure]
  exact ⟨rfl, rfl⟩

lemma SameConfig.runs (h : Runs base capacity (a, live)) (hcfg : SameConfig a a') {live' : Multiset Allocation}
    (hinv : ∃ L', a'.Inv False live' L') : Runs base capacity (a', live') :=
  ⟨hinv, hcfg.base_eq.trans h.base_eq, hcfg.capacity_eq.trans h.capacity_eq⟩

lemma Runs.step (h : Runs base capacity p) (hstep : Step mode p p') : Runs base capacity p' := by
  obtain ⟨L, hinv⟩ := h.inv
  cases hstep with
  | @allocate a a' live size out hsize hround hrun =>
    by_cases hlt : size + 2 ^ a.multiplierBits < 2 ^ 64
    · obtain ⟨hcfg, ⟨rfl, hL', -⟩ | ⟨-, x, L', rfl, -, hL'⟩⟩ :=
        ((extends_allocateIn size).wp (allocate_spec hinv hlt)).pc _ _ hrun
      · exact hcfg.runs h hL'
      · exact hcfg.runs h ⟨L', hL'⟩
    · obtain ⟨hbits, hge⟩ := hround.unscaled hlt
      obtain ⟨rfl, rfl⟩ := ((extends_allocateIn size).wp (allocate_of_not_lt hbits hge)).pc _ _ hrun
      exact h
  | free hrun =>
    obtain ⟨hcfg, hL'⟩ := (free_spec hinv).pc _ _ hrun
    exact hcfg.runs h hL'
  | @reserveExact a a' live offset size out hrun =>
    by_cases hbits : a.multiplierBits = 0
    · obtain ⟨hcfg, ⟨rfl, hL', -⟩ | ⟨-, x, L', rfl, -, -, hL'⟩⟩ :=
        ((extends_reserveExactIn offset size).wp (reserveExact_spec hinv hbits offset size)).pc _ _ hrun
      · exact hcfg.runs h hL'
      · exact hcfg.runs h ⟨L', hL'⟩
    · rw [reserveExactIn, bind_eq_some] at hrun
      obtain ⟨a₁, a₂, hget, hrun⟩ := hrun
      cases hget
      rw [if_pos (Or.inr (Or.inr hbits))] at hrun
      cases hrun
      exact h

lemma storageReport_grown (c : CoreAllocator) :
    CoreAllocator.storageReport c.grown = (CoreAllocator.storageReport c).map fun p => (p.1, c.grown) := by
  unfold CoreAllocator.storageReport CoreAllocator.grown
  simp only [bind, StateT.bind, get, getThe, MonadStateOf.get, StateT.get, Option.pure_def, Option.bind_some]
  split_ifs
  · simp only [StateT.bind, subChecked, CoreAllocator.readLeaf, CoreAllocator.leaf, bind]
    split_ifs
    · simp only [Option.bind_some]
      split_ifs
      · simp only [Option.bind_some]
        split_ifs
        · rfl
        · rfl
      · rfl
    · rfl
  · rfl
  · rfl

lemma observed_grown (a : OffsetAllocator) : observed { a with core := a.core.grown } = a.observed := by
  simp only [observed, storageReport, storageReport_grown]
  cases CoreAllocator.storageReport a.core with
  | none => rfl
  | some p => rfl

lemma allocate_of_capacity_lt (hinv : a.Inv False live L) (hround : a.Roundable size) (hsize : a.capacity < size) :
    Wp (allocate size) (fun out a' => out = none ∧ (a' = a ∨ a' = { a with core := a.core.grown })) a := by
  by_cases hlt : size + 2 ^ a.multiplierBits < 2 ^ 64
  · have hpos : 0 < size := Nat.zero_lt_of_lt hsize
    have hunits : a.core.size < a.units size := by
      by_contra hle
      have hfit := (roundUp_units_le_iff hpos).mp (not_lt.mp hle)
      exact absurd (hfit.trans hinv.units_le) (not_le.mpr hsize)
    rw [allocate, if_neg hpos.ne']
    refine Wp.call (fakeSize_spec hlt) ?_
    rintro n a₁ ⟨ha, hn⟩
    rw [ha, hn]
    split_ifs with hbig
    · rw [wp_pure]
      exact ⟨rfl, Or.inl rfl⟩
    have hle : a.units size ≤ maxBinSize := not_lt.mp hbig
    have hmod : a.units size % 2 ^ 32 = a.units size := by
      refine Nat.mod_eq_of_lt ?_
      simp only [maxBinSize] at hle
      omega
    rw [hmod, wp_bind, onCore, wp_focus]
    refine (CoreAllocator.allocate_of_size_lt hinv.core hle hunits).mono ?_
    have hnone : OffsetAllocation.noSpace.isNoSpace = true := by decide
    rintro al c ⟨rfl, rfl | rfl⟩
    · rw [if_pos hnone, wp_pure]
      exact ⟨rfl, Or.inl rfl⟩
    · rw [if_pos hnone, wp_pure]
      exact ⟨rfl, Or.inr rfl⟩
  · obtain ⟨hbits, hge⟩ := hround.unscaled hlt
    exact (allocate_of_not_lt hbits hge).mono fun _ _ h => ⟨h.1, Or.inl h.2⟩

end run

/-- In a run without a size whose rounding overflows, a size beyond the capacity is refused without a panic, nothing
that can be read changes, and every allocation lies inside the segment, with overflow checks and without. -/
theorem refuses_beyond_capacity (mode : Arithmetic) {base capacity initCapacity maxCapacity : ℕ}
    (hroom : base + capacity < 2 ^ 64) (hinit : 0 < initCapacity) (hmax : max initCapacity maxCapacity < unused)
    {a₀ a : OffsetAllocator} {live : Multiset Allocation}
    (hnew : new base capacity initCapacity maxCapacity = some a₀)
    (hrun : Relation.ReflTransGen (Step mode) (a₀, 0) (a, live)) :
    (∀ size < 2 ^ 64, a.Roundable size → capacity < size → ∃ a', allocateIn mode size a = some (none, a') ∧
      a'.observed = a.observed ∧ (a' = a ∨ a' = { a with core := a.core.grown })) ∧
    ∀ x ∈ live, base ≤ x.offset ∧ x.offset + x.size ≤ base + capacity := by
  obtain ⟨a₁, L₀, hnew', hinv₀, hbase₀, hcap₀, -⟩ := @new_spec False base capacity initCapacity maxCapacity hroom hinit hmax
  obtain rfl : a₁ = a₀ := Option.some.inj (hnew'.symm.trans hnew)
  have hruns : Runs base capacity (a, live) := by
    refine Relation.ReflTransGen.head_induction_on (motive := fun p _ => Runs base capacity p → _) hrun id ?_ ?_
    · exact fun hstep _ ih h => ih (h.step hstep)
    · exact ⟨⟨L₀, hinv₀⟩, hbase₀, hcap₀⟩
  obtain ⟨L, hinv⟩ := hruns.inv
  refine ⟨fun size _ hround hsize => ?_, fun x hx => ?_⟩
  · rw [← hruns.capacity_eq] at hsize
    obtain ⟨out, a', hrun', rfl, hkeep⟩ := (extends_allocateIn size).wp (allocate_of_capacity_lt hinv hround hsize)
    refine ⟨a', hrun', ?_, hkeep⟩
    rcases hkeep with rfl | rfl
    · rfl
    · exact observed_grown a
  · obtain ⟨r, -, -, hocc⟩ := hinv.exists_region hx
    have hbounds := (hinv.bounds hx).2
    rw [hruns.base_eq, hruns.capacity_eq] at hbounds
    rw [← hruns.base_eq, hocc.offset_eq] at *
    exact ⟨Nat.le_add_right _ _, hbounds⟩

def doubled : Option OffsetAllocator := new 0 (maxBinSize + 2) 4 8

/-- The run asks for one byte, and then for more than there is. -/
theorem refuses_beyond_capacity_doubled : ∃ a₀ a x a', doubled = some a₀ ∧
    allocateIn .wrapping 1 a₀ = some (some x, a) ∧ x.offset + x.size ≤ 0 + (maxBinSize + 2) ∧
    allocateIn .wrapping (2 ^ 32) a = some (none, a') := by
  have hrun : doubled.any (fun a => decide (a.multiplierBits = 1) && (allocateIn .wrapping 1 a).any fun r =>
      r.1.isSome && decide (r.2.multiplierBits = 1)) = true := by decide +kernel
  obtain ⟨a₀, hnew, hrun⟩ := (Option.any_eq_true _ _).mp hrun
  obtain ⟨hbits, hrun⟩ := Bool.and_eq_true_iff.mp hrun
  obtain ⟨⟨out, a⟩, hone, hrun⟩ := (Option.any_eq_true _ _).mp hrun
  obtain ⟨hsome, hbits'⟩ := Bool.and_eq_true_iff.mp hrun
  obtain ⟨x, rfl⟩ := Option.isSome_iff_exists.mp hsome
  have hround : ∀ {b : OffsetAllocator} {size : ℕ}, b.multiplierBits = 1 → size ≤ 2 ^ 32 → b.Roundable size := by
    intro b size hb hsize _
    rw [hb]
    omega
  obtain ⟨hrefuse, hlive⟩ := refuses_beyond_capacity .wrapping (by decide) (by decide) (by decide) hnew
    (.single (.allocate (by decide) (hround (of_decide_eq_true hbits) (by decide)) hone))
  obtain ⟨a', hbig, -⟩ := hrefuse (2 ^ 32) (by decide) (hround (of_decide_eq_true hbits') le_rfl) (by decide)
  exact ⟨a₀, a, x, a', hnew, hone, (hlive x (Multiset.mem_cons_self x 0)).2, hbig⟩

/-- The largest size makes a checked allocator panic, and a wrapping one grant what is not there. -/
theorem rounding_overflows : ∃ a, doubled = some a ∧ allocateIn .checked (2 ^ 64 - 1) a = none ∧
    ∃ x a', allocateIn .wrapping (2 ^ 64 - 1) a = some (some x, a') ∧ a.base + a.capacity < x.offset + x.size := by
  have hrun : doubled.any (fun a => (allocateIn .checked (2 ^ 64 - 1) a).isNone &&
      (allocateIn .wrapping (2 ^ 64 - 1) a).any fun r => r.1.any fun x =>
        decide (a.base + a.capacity < x.offset + x.size)) = true := by decide +kernel
  obtain ⟨a, hnew, hrun⟩ := (Option.any_eq_true _ _).mp hrun
  obtain ⟨hpanic, hwrap⟩ := Bool.and_eq_true_iff.mp hrun
  obtain ⟨⟨out, a'⟩, hout, hany⟩ := (Option.any_eq_true _ _).mp hwrap
  obtain ⟨x, rfl, hx⟩ := (Option.any_eq_true _ _).mp hany
  exact ⟨a, hnew, Option.isNone_iff_eq_none.mp hpanic, x, a', hout, of_decide_eq_true hx⟩

end OffsetAllocator

end QuillCache.Store
