import QuillCache.Store.SegmentsSpec

/-!
# The reported free region decides

An `OffsetAllocator` rounds requests up and free regions down, and scales both; still, in every state that a run
of it reaches, a request is granted exactly when it is at most the reported largest free region. A placement
asks only segments that report enough, so it succeeds exactly when enough of them do, and takes nothing when it
fails (`placement_exact`).
-/

namespace QuillCache.Store

open Lib SmallFloat

/-! ## Runs of the byte-addressed allocator -/

structure OffsetRun where
  allocator : OffsetAllocator
  live : Multiset Allocation

namespace OffsetRun

inductive Step : OffsetRun → OffsetRun → Prop where
  | allocate {a a' : OffsetAllocator} {live : Multiset Allocation} {size : ℕ} {out : Option Allocation}
      (hrun : OffsetAllocator.allocate size a = some (out, a')) : Step ⟨a, live⟩ ⟨a', out.toList + live⟩
  | free {a a' : OffsetAllocator} {live : Multiset Allocation} {x : Allocation}
      (hrun : OffsetAllocator.free x a = some ((), a')) : Step ⟨a, x ::ₘ live⟩ ⟨a', live⟩
  | reserveExact {a a' : OffsetAllocator} {live : Multiset Allocation} {offset size : ℕ} {out : Option Allocation}
      (hrun : OffsetAllocator.reserveExact offset size a = some (out, a')) : Step ⟨a, live⟩ ⟨a', out.toList + live⟩

end OffsetRun

namespace OffsetAllocator

variable {exact : Prop} {a : OffsetAllocator} {live : Multiset Allocation} {L : List Region}

lemma Inv.capacity_le (h : a.Inv exact live L) (hbits : a.multiplierBits = 0) : a.capacity ≤ maxBinSize := by
  have hsize := h.core.size_le
  rwa [h.size_eq, hbits, Nat.shiftRight_zero] at hsize

lemma Inv.allocate (h : a.Inv False live L) (size : ℕ) :
    Pc (OffsetAllocator.allocate size) (fun out a' => SameConfig a a' ∧
      ∃ L', a'.Inv False (out.toList + live) L') a := by
  by_cases hround : size + 2 ^ a.multiplierBits < 2 ^ 64
  · refine (allocate_spec h hround).pc.mono ?_
    rintro out a' ⟨hcfg, ⟨rfl, ⟨L', hinv⟩, -⟩ | ⟨-, x, L', rfl, -, hinv⟩⟩
    · exact ⟨hcfg, L', by simpa using hinv⟩
    · exact ⟨hcfg, L', by simpa using hinv⟩
  have hkeep : SameConfig a a ∧ ∃ L', a.Inv False ((none : Option Allocation).toList + live) L' :=
    ⟨⟨rfl, rfl, rfl, rfl⟩, L, by simpa using h⟩
  unfold OffsetAllocator.allocate
  split_ifs with hzero
  · exact pc_pure.mpr hkeep
  -- the rounding overflows, or the request is beyond every bin
  have hfake : Pc (fakeSize size) (fun n a' => a' = a ∧ maxBinSize < n) a := by
    simp only [fakeSize, pc_bind, pc_get]
    split_ifs with hbits
    · rw [pc_bind, pc_addChecked, Nat.one_shiftLeft]
      exact fun hlt => absurd hlt hround
    · rw [Nat.eq_zero_of_not_pos hbits, pow_zero] at hround
      refine pc_pure.mpr ⟨rfl, ?_⟩
      simp only [maxBinSize]
      omega
  refine hfake.call ?_
  rintro n a' ⟨rfl, hbig⟩
  rw [if_pos hbig, pc_pure]
  exact hkeep

lemma Inv.reserveExact (h : a.Inv exact live L) (offset size : ℕ) :
    Pc (OffsetAllocator.reserveExact offset size) (fun out a' => SameConfig a a' ∧
      ∃ L', a'.Inv exact (out.toList + live) L') a := by
  by_cases hbits : a.multiplierBits = 0
  · refine (reserveExact_spec h hbits offset size).pc.mono ?_
    rintro out a' ⟨hcfg, ⟨rfl, ⟨L', hinv⟩, -⟩ | ⟨-, x, L', rfl, -, -, hinv⟩⟩
    · exact ⟨hcfg, L', by simpa using hinv⟩
    · exact ⟨hcfg, L', by simpa using hinv⟩
  · simp only [OffsetAllocator.reserveExact, pc_bind, pc_get]
    rw [if_pos (Or.inr (.inr hbits)), pc_pure]
    exact ⟨⟨rfl, rfl, rfl, rfl⟩, L, by simpa using h⟩

/-- **The report decides**: a request of at most the capacity, whose rounding does not overflow, returns, and is
granted exactly when it is at most the largest free region reported. -/
theorem Inv.allocate_iff (h : a.Inv False live L) {size : ℕ} (hpos : 0 < size) (hle : size ≤ a.capacity)
    (hround : 0 < a.multiplierBits → size + 2 ^ a.multiplierBits < 2 ^ 64) :
    ∃ total largest out a', a.storageReport = some (total, largest) ∧
      OffsetAllocator.allocate size a = some (out, a') ∧ (out.isSome = true ↔ size ≤ largest) := by
  have hround' : size + 2 ^ a.multiplierBits < 2 ^ 64 := by
    rcases Nat.eq_zero_or_pos a.multiplierBits with hbits | hbits
    · have hcap := h.capacity_le hbits
      rw [hbits, pow_zero]
      simp only [maxBinSize] at hcap
      omega
    · exact hround hbits
  obtain ⟨total, largest, hreport, -, -, hiff⟩ := storageReport_spec h
  obtain ⟨out, a', hrun, -, hout⟩ := allocate_spec h hround'
  refine ⟨total, largest, out, a', hreport, hrun, ?_⟩
  rw [hiff size hpos]
  rcases hout with ⟨rfl, -, hno⟩ | ⟨hcan, x, -, rfl, -⟩
  · exact iff_of_false (by simp) hno
  · exact iff_of_true rfl hcan

end OffsetAllocator

/-- A run of the allocator of `capacity` bytes at `base` reaches the state `run`. -/
def OffsetRun.Reaches (base capacity initCapacity maxCapacity : ℕ) (run : OffsetRun) : Prop :=
  ∃ a, OffsetAllocator.new base capacity initCapacity maxCapacity = some a ∧
    Relation.ReflTransGen OffsetRun.Step ⟨a, 0⟩ run

lemma OffsetRun.Reaches.inv {base capacity initCapacity maxCapacity : ℕ} {run : OffsetRun}
    (h : run.Reaches base capacity initCapacity maxCapacity) (hroom : base + capacity < 2 ^ 64)
    (hinit : 0 < initCapacity) (hmax : max initCapacity maxCapacity < unused) :
    run.allocator.capacity = capacity ∧ ∃ L, run.allocator.Inv False run.live L := by
  obtain ⟨a, hnew, hrun⟩ := h
  induction hrun with
  | refl =>
    have hspec : ∃ a' L, OffsetAllocator.new base capacity initCapacity maxCapacity = some a' ∧
        a'.Inv False 0 L ∧ _ := OffsetAllocator.new_spec hroom hinit hmax
    obtain ⟨a', L, hnew', hinv, -, hcap, -⟩ := hspec
    cases hnew.symm.trans hnew'
    exact ⟨hcap, L, hinv⟩
  | tail _ hstep ih =>
    obtain ⟨hcap, L, hinv⟩ := ih
    cases hstep with
    | allocate hrun =>
      obtain ⟨hcfg, hinv'⟩ := hinv.allocate _ _ _ hrun
      exact ⟨hcfg.capacity_eq.trans hcap, hinv'⟩
    | free hrun =>
      obtain ⟨hcfg, hinv'⟩ := (OffsetAllocator.free_spec hinv).pc _ _ hrun
      exact ⟨hcfg.capacity_eq.trans hcap, hinv'⟩
    | reserveExact hrun =>
      obtain ⟨hcfg, hinv'⟩ := hinv.reserveExact _ _ _ _ hrun
      exact ⟨hcfg.capacity_eq.trans hcap, hinv'⟩

/-! ## Runs of a segment allocator -/

namespace OffsetBufferAllocator

variable {exact : Prop} {b : OffsetBufferAllocator}

lemma Valid.record {a : OffsetAllocator} {L : List Region} {out : Option Allocation} (h : b.Valid exact)
    (hinv : a.Inv exact (out.toList + b.live.values) L) (hcfg : b.inner.SameConfig a) :
    Valid exact (match out with
      | none => { b with inner := a }
      | some z => { b with inner := a, live := b.live.insert z.offset z }) := by
  cases out with
  | none =>
    exact ⟨⟨L, by simpa using hinv⟩, h.key_eq, hcfg.base_eq.trans h.base_eq, hcfg.maxCapacity_eq.trans h.pool_eq⟩
  | some z => exact (h.insert (by simpa using hinv) hcfg).1

lemma allocate_valid (h : b.Valid False) (size : ℕ) : Pc (allocate size) (fun _ b' => b'.Valid False) b := by
  obtain ⟨L, hL⟩ := h.inner
  rw [allocate, pc_bind, onInner, pc_focus]
  refine (hL.allocate size).mono ?_
  rintro out a ⟨hcfg, L', hinv⟩
  have hvalid := h.record hinv hcfg
  cases out with
  | none => exact pc_pure.mpr hvalid
  | some z =>
    simp only [pc_bind, pc_modify, pc_get, pc_pure]
    exact hvalid

lemma reserve_valid (h : b.Valid exact) (offset size : ℕ) :
    Pc (reserve offset size) (fun _ b' => b'.Valid exact) b := by
  obtain ⟨L, hL⟩ := h.inner
  rw [reserve, pc_bind, onInner, pc_focus]
  refine (hL.reserveExact offset size).mono ?_
  rintro out a ⟨hcfg, L', hinv⟩
  have hvalid := h.record hinv hcfg
  cases out with
  | none => exact pc_pure.mpr hvalid
  | some z =>
    simp only [pc_bind, pc_modify, pc_pure]
    exact hvalid

inductive Step : OffsetBufferAllocator → OffsetBufferAllocator → Prop where
  | allocate {b b' : OffsetBufferAllocator} {size : ℕ} {out : Option AllocatedBuffer}
      (hrun : allocate size b = some (out, b')) : Step b b'
  | deallocate {b b' : OffsetBufferAllocator} {buffer : AllocatedBuffer}
      (hrun : deallocate buffer b = some ((), b')) : Step b b'
  | reserve {b b' : OffsetBufferAllocator} {offset size : ℕ} {ok : Bool}
      (hrun : reserve offset size b = some (ok, b')) : Step b b'

def Reached (b : OffsetBufferAllocator) : Prop :=
  ∃ name capacity b₀, capacity < 2 ^ 64 ∧ new name capacity = some b₀ ∧ Relation.ReflTransGen Step b₀ b

lemma Reached.valid (h : b.Reached) : b.Valid False := by
  obtain ⟨name, capacity, b₀, hcap, hnew, hrun⟩ := h
  induction hrun with
  | refl =>
    have hspec : ∃ b', new name capacity = some b' ∧ b'.Valid False ∧ _ := new_spec name hcap
    obtain ⟨b', hnew', hvalid, -⟩ := hspec
    cases hnew.symm.trans hnew'
    exact hvalid
  | tail _ hstep ih =>
    cases hstep with
    | allocate hrun => exact allocate_valid ih _ _ _ hrun
    | deallocate hrun => exact ((deallocate_valid ih _).pc _ _ hrun).1
    | reserve hrun => exact reserve_valid ih _ _ _ _ hrun

end OffsetBufferAllocator

/-- **Allocation is exact.** In every state that a run of an `OffsetAllocator` reaches, a request of at most the
capacity, whose rounding to scaled units does not overflow, returns, and is granted exactly when it is at most
the reported largest free region. For segments in any such state, both strategies return; they succeed exactly
when at least `replicaNum` segments (that are not excluded) report a region of the size, and otherwise leave
every allocator as it was. -/
theorem placement_exact :
    (∀ base capacity initCapacity maxCapacity run, base + capacity < 2 ^ 64 → 0 < initCapacity →
      max initCapacity maxCapacity < unused → OffsetRun.Reaches base capacity initCapacity maxCapacity run →
      ∀ size, 0 < size → size ≤ capacity →
        (0 < run.allocator.multiplierBits → size + 2 ^ run.allocator.multiplierBits < 2 ^ 64) →
        ∃ total largest out a', run.allocator.storageReport = some (total, largest) ∧
          OffsetAllocator.allocate size run.allocator = some (out, a') ∧ (out.isSome = true ↔ size ≤ largest)) ∧
    (∀ as : List OffsetBufferAllocator, (∀ a ∈ as, a.Reached) →
      ∀ (strategy : AllocationStrategy) size replicaNum preferred excluded, 0 < size →
        ∃ r as', strategy.allocate size replicaNum preferred excluded as = some (r, as') ∧
          (r.isOk = true ↔ replicaNum ≤ as.countP (offers size excluded)) ∧ (r.isOk = false → as' = as)) := by
  refine ⟨fun base capacity initCapacity maxCapacity run hroom hinit hmax hrun size hpos hle hround => ?_,
    fun as has strategy size replicaNum preferred excluded hpos => ?_⟩
  · obtain ⟨hcap, L, hinv⟩ := hrun.inv hroom hinit hmax
    exact hinv.allocate_iff hpos (hcap ▸ hle) hround
  · have hspec := strategy.allocate_exact size replicaNum preferred excluded fun a ha => (has a ha).valid
    obtain ⟨r, as', hrun, ⟨bs, is, rfl, henough, -⟩ | ⟨rfl, hno, rfl⟩⟩ := hspec
    · exact ⟨_, as', hrun, iff_of_true rfl henough, fun h => by cases h⟩
    · exact ⟨_, as', hrun, iff_of_false (by simp [Except.isOk, Except.toBool]) fun h => hno ⟨hpos, h⟩, fun _ => rfl⟩

/-- On a new scaled allocator, and on two new segments. -/
theorem placement_exact_fresh :
    (∃ a total largest out a', OffsetAllocator.new 0 (2 ^ 33) 4 4 = some a ∧ 0 < a.multiplierBits ∧
      a.storageReport = some (total, largest) ∧ OffsetAllocator.allocate 60 a = some (out, a') ∧
      (out.isSome = true ↔ 60 ≤ largest)) ∧
    (∃ b r as', OffsetBufferAllocator.new "a" 100 = some b ∧
      AllocationStrategy.random.allocate 60 1 none [] [b, b] = some (r, as') ∧
      (r.isOk = true ↔ 1 ≤ [b, b].countP (offers 60 [])) ∧ (r.isOk = false → as' = [b, b])) := by
  have ha : ((OffsetAllocator.new 0 (2 ^ 33) 4 4).any fun a => decide (a.multiplierBits = 2)) = true := by decide +kernel
  have hb : (OffsetBufferAllocator.new "a" 100).isSome = true := by decide +kernel
  obtain ⟨a, hnew, hbits⟩ := (Option.any_eq_true _ _).mp ha
  obtain ⟨b, hseg⟩ := Option.isSome_iff_exists.mp hb
  have hbits' : a.multiplierBits = 2 := of_decide_eq_true hbits
  have hreached : ∀ x ∈ [b, b], x.Reached := by
    intro x hx
    have hx' : x = b := by simpa using hx
    exact hx' ▸ ⟨"a", 100, b, by decide, hseg, .refl⟩
  obtain ⟨total, largest, out, a', h⟩ := placement_exact.1 0 (2 ^ 33) 4 4 ⟨a, 0⟩ (by decide) (by decide) (by decide)
    ⟨a, hnew, .refl⟩ 60 (by decide) (by decide) fun _ => by rw [hbits']; decide
  obtain ⟨r, as', hr⟩ := placement_exact.2 [b, b] hreached .random 60 1 none [] (by decide)
  exact ⟨⟨a, total, largest, out, a', hnew, by rw [hbits']; decide, h⟩, b, r, as', hseg, hr⟩

end QuillCache.Store
