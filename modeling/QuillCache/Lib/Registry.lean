import Mathlib

/-!
# A name in several tables

Threads add a name to a registry, claim it, refresh it and remove it again. The registry is spread over three tables
with a lock each: the entries of the name, its announcement, and its owner. `Registry` is what the tables say about one
name, and how far each thread has got with it; `Turn` is one section of one thread.

The tables agree when nobody is at work, if work that would get in the way of other work is not begun
(`Coherent.turn`): a name is not added while another thread adds or removes it, it is not removed while another thread
relies on it, and its owner does not set out to refresh it while it is being removed.
-/

namespace QuillCache.Lib

open Function

/-- How far a thread has got with a name. -/
inductive Role where
  /-- It is not at work on the name. -/
  | quiet
  /-- It has found the name absent, and is to announce it. -/
  | announcing
  /-- It has announced the name, and is to add it. -/
  | adding
  /-- It has added the name, or found it present, and is to enter the owner. -/
  | claiming
  /-- It has found the name owned, and is to renew the announcement. -/
  | refreshing
  /-- It has removed the name, and is to withdraw the announcement. -/
  | withdrawing
  /-- It has withdrawn the announcement, and is to clear the owner. -/
  | releasing
  deriving DecidableEq

namespace Role

/-- In the middle of adding or removing the name. -/
def changing : Role → Bool
  | announcing | adding | withdrawing | releasing => true
  | _ => false

def removing : Role → Bool
  | withdrawing | releasing => true
  | _ => false

/-- To act on the assumption that the name is present. -/
def relying : Role → Bool
  | claiming | refreshing => true
  | _ => false

/-- What a thread counts on, of the entries and the announcement. -/
def Needs : Role → ℕ → Bool → Prop
  | quiet, _, _ => True
  | announcing, count, _ => count = 0
  | adding, count, announced => count = 0 ∧ announced = true
  | claiming, count, _ => 0 < count
  | refreshing, count, _ => 0 < count
  | withdrawing, count, _ => count = 0
  | releasing, count, announced => count = 0 ∧ announced = false

section needs

variable {x : Role} {count : ℕ} {announced : Bool}

lemma needs_iff (hx : x.changing = false) : x.Needs count announced ↔ (x.relying = true → 0 < count) := by
  cases x <;> simp_all [Needs, changing, relying]

lemma Needs.not_changing (h : x.Needs count announced) (hcount : 0 < count) : x.changing = false := by
  cases x <;> simp_all [Needs, changing]

end needs

end Role

/-- What the tables say about one name, and the threads at work on it. -/
structure Registry where
  count : ℕ
  announced : Bool
  owned : Bool
  role : ℕ → Role

namespace Registry

inductive Turn (i : ℕ) : Registry → Registry → Prop where
  | rest (r : Registry) : Turn i r r
  | findAbsent {r : Registry} (hi : r.role i = .quiet) (habsent : r.count = 0)
      (hfree : ∀ j ≠ i, (r.role j).changing = false) :
      Turn i r { r with role := Function.update r.role i .announcing }
  | announce {r : Registry} (hi : r.role i = .announcing) :
      Turn i r { r with announced := true, role := Function.update r.role i .adding }
  | add {r : Registry} (hi : r.role i = .adding) :
      Turn i r { r with count := r.count + 1, role := Function.update r.role i .claiming }
  | findPresent {r : Registry} (hi : r.role i = .quiet) (hpresent : 0 < r.count) :
      Turn i r { r with role := Function.update r.role i .claiming }
  | claim {r : Registry} (hi : r.role i = .claiming) :
      Turn i r { r with owned := true, role := Function.update r.role i .quiet }
  | collect {r : Registry} (hi : r.role i = .quiet) (howned : r.owned = true)
      (hfree : ∀ j ≠ i, (r.role j).removing = false) :
      Turn i r { r with role := Function.update r.role i .refreshing }
  | refresh {r : Registry} (hi : r.role i = .refreshing) :
      Turn i r { r with announced := true, role := Function.update r.role i .quiet }
  | remove {r : Registry} (hi : r.role i = .quiet) (hpresent : 0 < r.count)
      (hfree : ∀ j ≠ i, (r.role j).relying = false) :
      Turn i r { r with count := 0, role := Function.update r.role i .withdrawing }
  | withdraw {r : Registry} (hi : r.role i = .withdrawing) :
      Turn i r { r with announced := false, role := Function.update r.role i .releasing }
  | release {r : Registry} (hi : r.role i = .releasing) :
      Turn i r { r with owned := false, role := Function.update r.role i .quiet }

/-- The tables agree up to the work that is in progress. -/
structure Coherent (r : Registry) : Prop where
  single : r.count ≤ 1
  announced_of_present : 0 < r.count → r.announced = true
  present_of_announced : r.announced = true → 0 < r.count ∨ ∃ j, r.role j = .adding ∨ r.role j = .withdrawing
  present_of_owned : r.owned = true → 0 < r.count ∨ ∃ j, (r.role j).removing = true
  needs : ∀ j, (r.role j).Needs r.count r.announced
  alone : ∀ j k, (r.role j).changing = true → (r.role k).changing = true → j = k

variable {r r' : Registry} {i j : ℕ}

lemma coherent_empty : Coherent ⟨0, false, false, fun _ => .quiet⟩ := by
  refine ⟨Nat.zero_le 1, fun h => absurd h (lt_irrefl 0), ?_, ?_, fun _ => trivial, fun j k hj => ?_⟩
  · intro h
    cases h
  · intro h
    cases h
  · cases hj

lemma Coherent.of_quiet (h : Coherent r) (hquiet : ∀ j, r.role j = .quiet) :
    r.count ≤ 1 ∧ (r.announced = true ↔ 0 < r.count) ∧ (r.owned = true → 0 < r.count) := by
  refine ⟨h.single, ⟨fun hann => ?_, h.announced_of_present⟩, fun howned => ?_⟩
  · refine (h.present_of_announced hann).resolve_right ?_
    rintro ⟨j, hj⟩
    simp [hquiet j] at hj
  · refine (h.present_of_owned howned).resolve_right ?_
    rintro ⟨j, hj⟩
    simp [hquiet j, Role.removing] at hj

lemma Coherent.update (h : Coherent r) {count : ℕ} {announced owned : Bool} {x : Role} (hsingle : count ≤ 1)
    (hpresent : 0 < count → announced = true)
    (hannounced : announced = true → 0 < count ∨ (x = .adding ∨ x = .withdrawing) ∨
      ∃ j ≠ i, r.role j = .adding ∨ r.role j = .withdrawing)
    (howned : owned = true → 0 < count ∨ x.removing = true ∨ ∃ j ≠ i, (r.role j).removing = true)
    (hx : x.Needs count announced) (hothers : ∀ j ≠ i, (r.role j).Needs count announced)
    (halone : x.changing = true → ∀ j ≠ i, (r.role j).changing = false) :
    Coherent ⟨count, announced, owned, Function.update r.role i x⟩ := by
  refine ⟨hsingle, hpresent, fun ha => ?_, fun ho => ?_, ?_, fun j k hj hk => ?_⟩
  · refine (hannounced ha).imp_right fun hex => ?_
    rcases hex with hex | ⟨j, hne, hj⟩
    · exact ⟨i, by simpa only [update_self] using hex⟩
    · exact ⟨j, by simpa only [update_of_ne hne] using hj⟩
  · refine (howned ho).imp_right fun hex => ?_
    rcases hex with hex | ⟨j, hne, hj⟩
    · exact ⟨i, by simpa only [update_self] using hex⟩
    · exact ⟨j, by simpa only [update_of_ne hne] using hj⟩
  · exact (forall_update_iff r.role fun _ y => y.Needs count announced).mpr ⟨hx, hothers⟩
  · simp only [update_apply] at hj hk
    split_ifs at hj hk with hji hki
    · rw [hji, hki]
    · rw [halone hj k hki] at hk
      cases hk
    · rw [halone hk j hji] at hj
      cases hj
    · exact h.alone j k hj hk

lemma Coherent.others (h : Coherent r) (hi : (r.role i).changing = true) (hj : j ≠ i) : (r.role j).changing = false := by
  by_contra hne
  exact hj (h.alone j i (eq_true_of_ne_false hne) hi)

lemma Coherent.announced_by (h : Coherent r) (hadd : r.role i ≠ .adding) (hwith : r.role i ≠ .withdrawing)
    (ha : r.announced = true) : 0 < r.count ∨ ∃ j ≠ i, r.role j = .adding ∨ r.role j = .withdrawing := by
  refine (h.present_of_announced ha).imp_right ?_
  rintro ⟨j, hj⟩
  refine ⟨j, ?_, hj⟩
  rintro rfl
  exact hj.elim hadd hwith

lemma Coherent.owned_by (h : Coherent r) (hi : (r.role i).removing = false) (ho : r.owned = true) :
    0 < r.count ∨ ∃ j ≠ i, (r.role j).removing = true := by
  refine (h.present_of_owned ho).imp_right ?_
  rintro ⟨j, hj⟩
  refine ⟨j, ?_, hj⟩
  rintro rfl
  rw [hi] at hj
  cases hj

lemma Coherent.begin {x : Role} (h : Coherent r) (hi : r.role i = .quiet) (hx : x.Needs r.count r.announced)
    (halone : x.changing = true → ∀ j ≠ i, (r.role j).changing = false) :
    Coherent { r with role := Function.update r.role i x } := by
  refine h.update h.single h.announced_of_present (fun ha => ?_) (fun ho => ?_) hx (fun j _ => h.needs j) halone
  · exact (h.announced_by (by simp [hi]) (by simp [hi]) ha).imp_right .inr
  · exact (h.owned_by (by simp [hi, Role.removing]) ho).imp_right .inr

/-- **One section of one thread keeps the tables coherent.** -/
theorem Coherent.turn (h : Coherent r) (hturn : Turn i r r') : Coherent r' := by
  have hneeds := h.needs i
  cases hturn with
  | rest => exact h
  | findAbsent hi habsent hfree => exact h.begin hi habsent fun _ => hfree
  | findPresent hi hpresent => exact h.begin hi hpresent nofun
  | collect hi howned hfree =>
    refine h.begin hi ?_ nofun
    -- whoever removes the name would be another thread
    have hquiet : (r.role i).removing = false := by simp [hi, Role.removing]
    refine (h.owned_by hquiet howned).resolve_right ?_
    rintro ⟨j, hne, hj⟩
    rw [hfree j hne] at hj
    cases hj
  | announce hi =>
    have halone : ∀ j ≠ i, (r.role j).changing = false := fun j hne => h.others (by simp [hi, Role.changing]) hne
    rw [hi] at hneeds
    refine h.update h.single (fun _ => rfl) (fun _ => .inr (.inl (.inl rfl)))
      (fun ho => (h.owned_by (by simp [hi, Role.removing]) ho).imp_right .inr) ⟨hneeds, rfl⟩
      (fun j hne => ?_) fun _ => halone
    rw [Role.needs_iff (halone j hne)]
    exact (Role.needs_iff (halone j hne)).mp (h.needs j)
  | add hi =>
    have halone : ∀ j ≠ i, (r.role j).changing = false := fun j hne => h.others (by simp [hi, Role.changing]) hne
    rw [hi] at hneeds
    obtain ⟨hzero, hann⟩ := hneeds
    refine h.update (by omega) (fun _ => hann) (fun _ => .inl (Nat.succ_pos _)) (fun _ => .inl (Nat.succ_pos _))
      (Nat.succ_pos _) (fun j hne => ?_) nofun
    exact (Role.needs_iff (halone j hne)).mpr fun _ => Nat.succ_pos _
  | claim hi =>
    rw [hi] at hneeds
    refine h.update h.single h.announced_of_present (fun _ => .inl hneeds) (fun _ => .inl hneeds) trivial
      (fun j _ => h.needs j) nofun
  | refresh hi =>
    rw [hi] at hneeds
    -- the name is present, so nobody is in the middle of changing it
    have halone : ∀ j, (r.role j).changing = false := fun j => (h.needs j).not_changing hneeds
    refine h.update h.single (fun _ => rfl) (fun _ => .inl hneeds)
      (fun ho => (h.owned_by (by simp [hi, Role.removing]) ho).imp_right .inr) trivial
      (fun j _ => ?_) nofun
    exact (Role.needs_iff (halone j)).mpr fun _ => hneeds
  | remove hi hpresent hfree =>
    have halone : ∀ j, (r.role j).changing = false := fun j => (h.needs j).not_changing hpresent
    refine h.update (Nat.zero_le 1) (fun h0 => absurd h0 (lt_irrefl 0)) (fun _ => .inr (.inl (.inr rfl)))
      (fun _ => .inr (.inl rfl)) rfl (fun j hne => ?_) fun _ j _ => halone j
    rw [Role.needs_iff (halone j), hfree j hne]
    exact nofun
  | withdraw hi =>
    have halone : ∀ j ≠ i, (r.role j).changing = false := fun j hne => h.others (by simp [hi, Role.changing]) hne
    rw [hi] at hneeds
    refine h.update h.single (fun hpos => ?_) (fun ha => by cases ha) (fun _ => .inr (.inl rfl)) ⟨hneeds, rfl⟩
      (fun j hne => ?_) fun _ => halone
    · exact absurd hneeds hpos.ne'
    · rw [Role.needs_iff (halone j hne)]
      exact (Role.needs_iff (halone j hne)).mp (h.needs j)
  | release hi =>
    have halone : ∀ j ≠ i, (r.role j).changing = false := fun j hne => h.others (by simp [hi, Role.changing]) hne
    rw [hi] at hneeds
    refine h.update h.single h.announced_of_present (fun ha => ?_) (fun ho => by cases ho) trivial
      (fun j _ => h.needs j) nofun
    rw [hneeds.2] at ha
    cases ha

end Registry

end QuillCache.Lib
