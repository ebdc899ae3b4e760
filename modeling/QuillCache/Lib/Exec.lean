import Mathlib

/-!
# Stateful code that may panic

A program over a mutable state `σ` that may panic (an index out of range, an arithmetic overflow)
is a `StateT σ Option α`: `none` is the panic. `Wp m Q s` says that `m`, run from `s`, does not
panic and ends in a result and a state satisfying `Q` — a total-correctness weakest precondition.
The rules below are equivalences, so that a straight-line program is unfolded by `simp only` with
them; a call of a function with a specification is replaced with `Wp.call`. `Pc m Q s` is the weaker
statement that allows `m` to panic.
-/

namespace QuillCache.Lib

open Option

variable {σ τ α β : Type}

/-- A program over the state `σ` that may panic (`none`). -/
abbrev Exec (σ α : Type) := StateT σ Option α

def abort : Exec σ α := fun _ => none

def check (p : Prop) [Decidable p] : Exec σ Unit := fun s => if p then some ((), s) else none

/-- Unsigned subtraction of the source: underflow panics. -/
def subChecked (a b : ℕ) : Exec σ ℕ := fun s => if b ≤ a then some (a - b, s) else none

/-- Addition on `w`-bit unsigned integers: overflow panics. -/
def addChecked (w a b : ℕ) : Exec σ ℕ := fun s => if a + b < 2 ^ w then some (a + b, s) else none

/-- Run a program on one part of the state: `get` reads the part and `put` writes it back. -/
def focus (get : σ → τ) (put : σ → τ → σ) (m : Exec τ α) : Exec σ α :=
  fun s => (m (get s)).map fun r => (r.1, put s r.2)

/-- `m`, run from `s`, does not panic, and its result and final state satisfy `Q`. -/
def Wp (m : Exec σ α) (Q : α → σ → Prop) (s : σ) : Prop := ∃ a s', m s = some (a, s') ∧ Q a s'

variable {s : σ} {Q : α → σ → Prop}

lemma wp_pure {a : α} : Wp (pure a) Q s ↔ Q a s := by
  constructor
  · rintro ⟨a', s', h, hq⟩
    cases h
    exact hq
  · intro h
    exact ⟨a, s, rfl, h⟩

variable {m : Exec σ α} {f : α → Exec σ β}

lemma wp_bind {Q : β → σ → Prop} : Wp (m >>= f) Q s ↔ Wp m (fun a s' => Wp (f a) Q s') s := by
  constructor
  · rintro ⟨b, s'', h, hq⟩
    change Option.bind (m s) (fun p => f p.1 p.2) = some (b, s'') at h
    rw [bind_eq_some_iff] at h
    obtain ⟨⟨a, s'⟩, hm, hf⟩ := h
    exact ⟨a, s', hm, b, s'', hf, hq⟩
  · rintro ⟨a, s', hm, b, s'', hf, hq⟩
    refine ⟨b, s'', ?_, hq⟩
    change Option.bind (m s) (fun p => f p.1 p.2) = some (b, s'')
    rw [hm]
    exact hf

lemma wp_get {Q : σ → σ → Prop} : Wp get Q s ↔ Q s s := by
  constructor
  · rintro ⟨a, s', h, hq⟩
    cases h
    exact hq
  · intro h
    exact ⟨s, s, rfl, h⟩

lemma wp_set {s₁ : σ} {Q : PUnit → σ → Prop} : Wp (set s₁) Q s ↔ Q ⟨⟩ s₁ := by
  constructor
  · rintro ⟨a, s', h, hq⟩
    cases h
    exact hq
  · intro h
    exact ⟨⟨⟩, s₁, rfl, h⟩

lemma wp_modify {f : σ → σ} {Q : PUnit → σ → Prop} : Wp (modify f) Q s ↔ Q ⟨⟩ (f s) := by
  constructor
  · rintro ⟨a, s', h, hq⟩
    cases h
    exact hq
  · intro h
    exact ⟨⟨⟩, f s, rfl, h⟩

/-- A conditional that either panics or returns. The primitives of a program are of this shape. -/
lemma wp_guarded {p : Prop} [Decidable p] {a : α} {s' s : σ} (hm : m s = if p then some (a, s') else none) :
    Wp m Q s ↔ p ∧ Q a s' := by
  constructor
  · rintro ⟨b, t, h, hq⟩
    rw [hm] at h
    split_ifs at h with hp
    cases h
    exact ⟨hp, hq⟩
  · rintro ⟨hp, hq⟩
    exact ⟨a, s', by rw [hm, if_pos hp], hq⟩

lemma wp_check {p : Prop} [Decidable p] {Q : Unit → σ → Prop} :
    Wp (check p) Q s ↔ p ∧ Q () s := wp_guarded rfl

lemma wp_subChecked {a b : ℕ} {Q : ℕ → σ → Prop} :
    Wp (subChecked a b) Q s ↔ b ≤ a ∧ Q (a - b) s := wp_guarded rfl

lemma wp_addChecked {w a b : ℕ} {Q : ℕ → σ → Prop} :
    Wp (addChecked w a b) Q s ↔ a + b < 2 ^ w ∧ Q (a + b) s := wp_guarded rfl

lemma wp_focus {get : σ → τ} {put : σ → τ → σ} {m : Exec τ α} :
    Wp (focus get put m) Q s ↔ Wp m (fun a t => Q a (put s t)) (get s) := by
  constructor
  · rintro ⟨a, s', h, hq⟩
    change (m (get s)).map (fun r => (r.1, put s r.2)) = some (a, s') at h
    rw [map_eq_some_iff] at h
    obtain ⟨⟨a', t⟩, hm, hr⟩ := h
    cases hr
    exact ⟨a', t, hm, hq⟩
  · rintro ⟨a, t, hm, hq⟩
    exact ⟨a, put s t, by simp [focus, hm], hq⟩

lemma Wp.mono {Q Q' : α → σ → Prop} (h : Wp m Q s) (hQ : ∀ a s', Q a s' → Q' a s') : Wp m Q' s := by
  obtain ⟨a, s', hm, hq⟩ := h
  exact ⟨a, s', hm, hQ a s' hq⟩

/-- The rule for a call: a specification of `m`, then the continuation from any state it allows. -/
lemma Wp.call {R : α → σ → Prop} {Q : β → σ → Prop} (h : Wp m R s) (hf : ∀ a s', R a s' → Wp (f a) Q s') :
    Wp (m >>= f) Q s :=
  wp_bind.mpr (h.mono hf)

/-- If `m`, run from `s`, does not panic, its result and final state satisfy `Q`. -/
def Pc (m : Exec σ α) (Q : α → σ → Prop) (s : σ) : Prop := ∀ a s', m s = some (a, s') → Q a s'

lemma Wp.pc (h : Wp m Q s) : Pc m Q s := by
  obtain ⟨a, s', hm, hq⟩ := h
  intro b t hb
  rw [hm] at hb
  cases hb
  exact hq

lemma pc_pure {a : α} : Pc (pure a) Q s ↔ Q a s := by
  constructor
  · exact fun h => h a s rfl
  · exact fun h => (wp_pure.mpr h).pc

lemma pc_bind {Q : β → σ → Prop} : Pc (m >>= f) Q s ↔ Pc m (fun a s' => Pc (f a) Q s') s := by
  constructor
  · intro h a s' hm b s'' hf
    exact h b s'' (bind_eq_some_iff.mpr ⟨(a, s'), hm, hf⟩)
  · intro h b s'' hb
    obtain ⟨⟨a, s'⟩, hm, hf⟩ := bind_eq_some_iff.mp hb
    exact h a s' hm b s'' hf

lemma bind_eq_some {s s'' : σ} {b : β} :
    (m >>= f) s = some (b, s'') ↔ ∃ a s', m s = some (a, s') ∧ f a s' = some (b, s'') := by
  change Option.bind (m s) (fun p => f p.1 p.2) = some (b, s'') ↔ _
  rw [bind_eq_some_iff]
  exact Prod.exists

lemma pc_get {Q : σ → σ → Prop} : Pc get Q s ↔ Q s s :=
  ⟨fun h => h s s rfl, fun h => (wp_get.mpr h).pc⟩

lemma pc_set {s₁ : σ} {Q : PUnit → σ → Prop} : Pc (set s₁) Q s ↔ Q ⟨⟩ s₁ :=
  ⟨fun h => h ⟨⟩ s₁ rfl, fun h => (wp_set.mpr h).pc⟩

lemma pc_modify {f : σ → σ} {Q : PUnit → σ → Prop} : Pc (modify f) Q s ↔ Q ⟨⟩ (f s) :=
  ⟨fun h => h ⟨⟩ (f s) rfl, fun h => (wp_modify.mpr h).pc⟩

lemma pc_addChecked {w a b : ℕ} {Q : ℕ → σ → Prop} : Pc (addChecked w a b) Q s ↔ (a + b < 2 ^ w → Q (a + b) s) := by
  constructor
  · intro h hlt
    exact h _ s (if_pos hlt)
  · intro h c s' hc
    rw [addChecked] at hc
    split_ifs at hc with hlt
    cases hc
    exact h hlt

lemma Pc.mono {Q Q' : α → σ → Prop} (h : Pc m Q s) (hQ : ∀ a s', Q a s' → Q' a s') : Pc m Q' s :=
  fun a s' hm => hQ a s' (h a s' hm)

lemma Pc.call {R : α → σ → Prop} {Q : β → σ → Prop} (h : Pc m R s) (hf : ∀ a s', R a s' → Pc (f a) Q s') :
    Pc (m >>= f) Q s :=
  pc_bind.mpr (h.mono hf)

lemma pc_focus {get : σ → τ} {put : σ → τ → σ} {m : Exec τ α} :
    Pc (focus get put m) Q s ↔ Pc m (fun a t => Q a (put s t)) (get s) := by
  constructor
  · intro h a t hm
    exact h a _ (map_eq_some_iff.mpr ⟨(a, t), hm, rfl⟩)
  · intro h a s' hm
    obtain ⟨⟨a', t⟩, hmt, hr⟩ := map_eq_some_iff.mp hm
    cases hr
    exact h a' t hmt

lemma focus_eq_some {get : σ → τ} {put : σ → τ → σ} {m : Exec τ α} {s s' : σ} {a : α} :
    focus get put m s = some (a, s') ↔ ∃ t, m (get s) = some (a, t) ∧ s' = put s t := by
  constructor
  · intro h
    obtain ⟨⟨a', t⟩, hm, hr⟩ := map_eq_some_iff.mp h
    cases hr
    exact ⟨t, hm, rfl⟩
  · rintro ⟨t, hm, rfl⟩
    exact map_eq_some_iff.mpr ⟨(a, t), hm, rfl⟩

/-- Wherever `m` does not panic, `m'` does the same. -/
def Extends (m' m : Exec σ α) : Prop := ∀ s r, m s = some r → m' s = some r

lemma Extends.refl : Extends m m := fun _ _ h => h

lemma Extends.bind {m' : Exec σ α} {f' : α → Exec σ β} (hm : Extends m' m) (hf : ∀ a, Extends (f' a) (f a)) :
    Extends (m' >>= f') (m >>= f) := by
  rintro s ⟨b, s''⟩ h
  obtain ⟨a, s', ha, hb⟩ := bind_eq_some.mp h
  exact bind_eq_some.mpr ⟨a, s', hm s _ ha, hf a s' _ hb⟩

lemma Extends.wp {m' : Exec σ α} (hm : Extends m' m) (h : Wp m Q s) : Wp m' Q s := by
  obtain ⟨a, s', hrun, hq⟩ := h
  exact ⟨a, s', hm s _ hrun, hq⟩

end QuillCache.Lib
