import QuillCache.Lib.Exec

/-!
# Threads that share a state and one main mutex

A thread runs a `Prog`: a sequence of atomic sections over the shared state, between which it may take and release one
main mutex. A section stands for a critical section of a leaf mutex or for one atomic access; its label says to an
observer what kind of section it is. Threads are interleaved section by section; one that panics has no step.

`Guarded` is the proof rule for what the main mutex protects, a `view` of the state: a thread without the mutex must
not change the view; the holder knows it exactly, keeps the invariant `always` after each section, and has
re-established the stronger invariant `free` when it releases the mutex. Then `always` holds in every reachable state
and `free` whenever the mutex is free (`Safe.run`), in particular at the end of every serial run (`Guarded.run`).
-/

namespace QuillCache.Lib

open Function
open Option hiding bind_assoc

/-- A program of atomic labelled sections over the shared state `σ`. -/
inductive Prog (Λ σ α : Type) : Type 1 where
  | ret (a : α)
  | sec {β : Type} (label : Λ) (m : Exec σ β) (k : β → Prog Λ σ α)
  | lock (k : Prog Λ σ α)
  | unlock (k : Prog Λ σ α)

namespace Prog

variable {Λ σ α β : Type}

def bind (p : Prog Λ σ α) (f : α → Prog Λ σ β) : Prog Λ σ β :=
  match p with
  | ret a => f a
  | sec l m k => sec l m fun b => (k b).bind f
  | lock k => lock (k.bind f)
  | unlock k => unlock (k.bind f)

instance : Monad (Prog Λ σ) where
  pure := ret
  bind := bind

lemma bind_ret (p : Prog Λ σ α) : p.bind ret = p := by
  induction p with
  | ret a => rfl
  | sec l m k ih => exact congrArg (sec l m) (funext ih)
  | lock k ih => exact congrArg lock ih
  | unlock k ih => exact congrArg unlock ih

def section_ (l : Λ) (m : Exec σ α) : Prog Λ σ α := sec l m ret

def acquire : Prog Λ σ Unit := lock (ret ())

def release : Prog Λ σ Unit := unlock (ret ())

def run : Prog Λ σ α → Exec σ α
  | ret a => Pure.pure a
  | sec _ m k => m >>= fun b => (k b).run
  | lock k => k.run
  | unlock k => k.run

@[simp] lemma run_pure (a : α) : (Pure.pure a : Prog Λ σ α).run = Pure.pure a := rfl

@[simp] lemma run_section (l : Λ) (m : Exec σ α) : (section_ l m).run = m := by
  simp only [section_, run]
  exact bind_pure m

@[simp] lemma run_acquire : (acquire : Prog Λ σ Unit).run = Pure.pure () := rfl

@[simp] lemma run_release : (release : Prog Λ σ Unit).run = Pure.pure () := rfl

@[simp] lemma run_bind (p : Prog Λ σ α) (f : α → Prog Λ σ β) :
    (p >>= f).run = p.run >>= fun a => (f a).run := by
  change (p.bind f).run = _
  induction p with
  | ret a => simp only [bind, run, pure_bind]
  | sec l m k ih => simp only [bind, run, ih, bind_assoc]
  | lock k ih => simpa only [bind, run] using ih
  | unlock k ih => simpa only [bind, run] using ih

end Prog

/-! ## The proof rule -/

/-- What is asked of the users of the main mutex. -/
structure Discipline (Λ σ V : Type) where
  /-- The part of the state that the mutex protects. -/
  view : σ → V
  /-- The invariant of the view after every section. -/
  always : V → Prop
  /-- The invariant of the view while the mutex is free. -/
  free : V → Prop
  /-- The states from which a section of a given label is considered. -/
  assume : Λ → σ → Prop
  /-- The invariant of the free mutex is the stronger one. -/
  always_of_free : ∀ v, free v → always v

namespace Prog

variable {Λ σ V α β : Type}

/-- The program keeps the discipline of the main mutex. `h` is the view while the mutex is held, and
`none` while it is not; `Q` is required of the result and of the state of the mutex at the end. -/
def Guarded (d : Discipline Λ σ V) (Q : α → Option V → Prop) : Prog Λ σ α → Option V → Prop
  | ret a, h => Q a h
  | sec l m k, none => ∀ s, d.assume l s → ∀ b s', m s = some (b, s') →
      d.view s' = d.view s ∧ Guarded d Q (k b) none
  | sec l m k, some v => ∀ s, d.view s = v → d.assume l s → ∀ b s', m s = some (b, s') →
      d.always (d.view s') ∧ Guarded d Q (k b) (some (d.view s'))
  | lock k, none => ∀ v, d.free v → Guarded d Q k (some v)
  | lock _, some _ => False
  | unlock _, none => False
  | unlock k, some v => d.free v ∧ Guarded d Q k none

section guarded

variable {d : Discipline Λ σ V} {Q Q' : α → Option V → Prop} {p : Prog Λ σ α} {h : Option V}

lemma Guarded.bind {R : β → Option V → Prop} {f : α → Prog Λ σ β} (hp : Guarded d Q p h)
    (hf : ∀ a h, Q a h → Guarded d R (f a) h) : Guarded d R (p >>= f) h := by
  change Guarded d R (p.bind f) h
  induction p generalizing h with
  | ret a => exact hf a h hp
  | sec l m k ih =>
    cases h with
    | none => exact fun s hs b s' hm => ⟨(hp s hs b s' hm).1, ih b (hp s hs b s' hm).2⟩
    | some v => exact fun s hv hs b s' hm => ⟨(hp s hv hs b s' hm).1, ih b (hp s hv hs b s' hm).2⟩
  | lock k ih =>
    cases h with
    | none => exact fun v hv => ih (hp v hv)
    | some v => exact hp
  | unlock k ih =>
    cases h with
    | none => exact hp
    | some v => exact ⟨hp.1, ih hp.2⟩

lemma guarded_pure {a : α} (hQ : Q a h) : Guarded d Q (Pure.pure a) h := hQ

lemma Guarded.mono (hp : Guarded d Q p h) (hQ : ∀ a h, Q a h → Q' a h) : Guarded d Q' p h := by
  have hbind := hp.bind (f := Pure.pure) fun a h' ha => guarded_pure (hQ a h' ha)
  rwa [show p >>= Pure.pure = p from bind_ret p] at hbind

lemma guarded_quiet {l : Λ} {m : Exec σ α} (hh : ∀ v ∈ h, d.always v)
    (hm : ∀ s, d.assume l s → Pc m (fun _ s' => d.view s' = d.view s) s) :
    Guarded d (fun _ h' => h' = h) (section_ l m) h := by
  cases h with
  | none => exact fun s hs a s' hrun => ⟨hm s hs a s' hrun, rfl⟩
  | some v =>
    rintro s rfl hs a s' hrun
    rw [hm s hs a s' hrun]
    exact ⟨hh _ rfl, rfl⟩

lemma guarded_held {l : Λ} {m : Exec σ α} {v : V}
    (hm : ∀ s, d.view s = v → d.assume l s →
      Pc m (fun a s' => d.always (d.view s') ∧ Q a (some (d.view s'))) s) :
    Guarded d Q (section_ l m) (some v) :=
  hm

lemma guarded_acquire : Guarded d (fun _ h => ∃ v, h = some v ∧ d.free v) acquire none :=
  fun v hv => ⟨v, rfl, hv⟩

lemma guarded_release {v : V} (hv : d.free v) :
    Guarded d (fun _ h => h = none) release (some v) :=
  ⟨hv, rfl⟩

/-- A guarded program, run alone, ends in a state with the view it ends with, or with the invariant. -/
theorem Guarded.run_from {s : σ} (hp : Guarded d Q p h) (hassume : ∀ l s, d.assume l s)
    (hview : ∀ v ∈ h, d.view s = v) (hfree : h = none → d.free (d.view s)) :
    Pc p.run (fun a s' => ∃ h', Q a h' ∧ (∀ v ∈ h', d.view s' = v) ∧ (h' = none → d.free (d.view s'))) s := by
  induction p generalizing h s with
  | ret a => exact pc_pure.mpr ⟨h, hp, hview, hfree⟩
  | sec l m k ih =>
    refine pc_bind.mpr fun b s₁ hm => ?_
    cases h with
    | none =>
      obtain ⟨hsame, hrest⟩ := hp s (hassume l s) b s₁ hm
      exact ih b hrest (by simp) fun _ => hsame ▸ hfree rfl
    | some v => exact ih b (hp s (hview v rfl) (hassume l s) b s₁ hm).2 (by simp) (by simp)
  | lock k ih =>
    cases h with
    | none => exact ih (hp _ (hfree rfl)) (by simp) (by simp)
    | some v => exact hp.elim
  | unlock k ih =>
    cases h with
    | none => exact hp.elim
    | some v => exact ih hp.2 (by simp) fun _ => hview v rfl ▸ hp.1

/-- A guarded program, run alone from a state with the invariant, re-establishes it. -/
theorem Guarded.run (hp : Guarded d (fun _ h => h = none) p none) (hassume : ∀ l s, d.assume l s)
    {s : σ} (hs : d.free (d.view s)) : Pc p.run (fun _ s' => d.free (d.view s')) s := by
  refine (hp.run_from hassume (by simp) fun _ => hs).mono ?_
  rintro _ s' ⟨h', hnone, -, hfree⟩
  exact hfree hnone

end guarded

/-! ### Facts about all sections of a program -/

/-- The label of the next section, if the next step is a section. -/
def next : Prog Λ σ α → Option Λ
  | sec l _ _ => some l
  | _ => none

/-- Every section of the program, whatever the results of the sections before it, satisfies `P`. -/
def Every (P : ∀ {β : Type}, Λ → Exec σ β → Prop) : Prog Λ σ α → Prop
  | ret _ => True
  | sec l m k => P l m ∧ ∀ b, Every P (k b)
  | lock k => Every P k
  | unlock k => Every P k

section sections

variable {P P' : ∀ {β : Type}, Λ → Exec σ β → Prop} {p : Prog Λ σ α} {f : α → Prog Λ σ β}

lemma Every.bind (hp : p.Every P) (hf : ∀ a, (f a).Every P) : (p >>= f).Every P := by
  change (p.bind f).Every P
  induction p with
  | ret a => exact hf a
  | sec l m k ih => exact ⟨hp.1, fun b => ih b (hp.2 b)⟩
  | lock k ih => exact ih hp
  | unlock k ih => exact ih hp

lemma Every.mono (hp : p.Every P) (h : ∀ {β : Type} (l : Λ) (m : Exec σ β), P l m → P' l m) :
    p.Every P' := by
  induction p with
  | ret a => trivial
  | sec l m k ih => exact ⟨h l m hp.1, fun b => ih b (hp.2 b)⟩
  | lock k ih => exact ih hp
  | unlock k ih => exact ih hp

lemma every_of_forall (h : ∀ {β : Type} (l : Λ) (m : Exec σ β), P l m) : p.Every P := by
  induction p with
  | ret a => trivial
  | sec l m k ih => exact ⟨h l m, ih⟩
  | lock k ih => exact ih
  | unlock k ih => exact ih

lemma every_pure (a : α) : (Pure.pure a : Prog Λ σ α).Every P := trivial

lemma every_section {l : Λ} {m : Exec σ α} (h : P l m) : (section_ l m).Every P := ⟨h, fun _ => trivial⟩

lemma every_acquire : (acquire : Prog Λ σ Unit).Every P := trivial

lemma every_release : (release : Prog Λ σ Unit).Every P := trivial

end sections

end Prog

/-! ## Interleavings -/

/-- What the threads of a system may do: the operations they run, the states from which a section of a
given label is considered, and the changes of the state that are not the work of any thread. -/
structure System (Λ σ ι : Type) where
  prog : ι → Prog Λ σ Unit
  assume : Λ → σ → Prop
  env : σ → σ → Prop

/-- The shared state, the holder of the main mutex, and what each thread has left to do. -/
structure Config (Λ σ : Type) where
  shared : σ
  holder : Option ℕ
  threads : ℕ → Prog Λ σ Unit

namespace Config

variable {Λ σ V ι : Type} {d : Discipline Λ σ V} {sys : System Λ σ ι}

/-- The state of the main mutex as thread `i` sees it: the view, if it is the holder. -/
def seen (view : σ → V) (c : Config Λ σ) (i : ℕ) : Option V :=
  if c.holder = some i then some (view c.shared) else none

inductive Step (sys : System Λ σ ι) : Config Λ σ → Config Λ σ → Prop where
  | sec {c : Config Λ σ} {i : ℕ} {β : Type} {l : Λ} {m : Exec σ β} {k : β → Prog Λ σ Unit} {b : β}
      {s' : σ} (hi : c.threads i = .sec l m k) (hassume : sys.assume l c.shared)
      (hm : m c.shared = some (b, s')) :
      Step sys c ⟨s', c.holder, Function.update c.threads i (k b)⟩
  | lock {c : Config Λ σ} {i : ℕ} {k : Prog Λ σ Unit} (hi : c.threads i = .lock k)
      (hfree : c.holder = none) :
      Step sys c ⟨c.shared, some i, Function.update c.threads i k⟩
  | unlock {c : Config Λ σ} {i : ℕ} {k : Prog Λ σ Unit} (hi : c.threads i = .unlock k)
      (hheld : c.holder = some i) :
      Step sys c ⟨c.shared, none, Function.update c.threads i k⟩
  | start {c : Config Λ σ} {i : ℕ} {op : ι} (hi : c.threads i = .ret ()) :
      Step sys c ⟨c.shared, c.holder, Function.update c.threads i (sys.prog op)⟩
  | env {c : Config Λ σ} {s' : σ} (hs : sys.env c.shared s') :
      Step sys c ⟨s', c.holder, c.threads⟩

/-- Every thread keeps the discipline from here on, and the invariants hold. -/
structure Safe (d : Discipline Λ σ V) (c : Config Λ σ) : Prop where
  guarded : ∀ i, (c.threads i).Guarded d (fun _ h => h = none) (c.seen d.view i)
  always : d.always (d.view c.shared)
  free : c.holder = none → d.free (d.view c.shared)

private lemma guarded_update {c c' : Config Λ σ} {i : ℕ} {p : Prog Λ σ Unit}
    (hc : ∀ j, (c.threads j).Guarded d (fun _ h => h = none) (c.seen d.view j))
    (hi : p.Guarded d (fun _ h => h = none) (c'.seen d.view i))
    (hother : ∀ j, j ≠ i → c'.seen d.view j = c.seen d.view j)
    (hthreads : c'.threads = Function.update c.threads i p) (j : ℕ) :
    (c'.threads j).Guarded d (fun _ h => h = none) (c'.seen d.view j) := by
  rw [hthreads]
  by_cases hj : j = i
  · subst hj
    rwa [update_self]
  · rw [update_of_ne hj, hother j hj]
    exact hc j

section steps

variable (hassume : sys.assume = d.assume)
  (hprog : ∀ op, (sys.prog op).Guarded d (fun _ h => h = none) none)
  (henv : ∀ s s', sys.env s s' → d.view s' = d.view s)
include hassume hprog henv

lemma Safe.step {c c' : Config Λ σ} (hc : Safe d c) (hstep : Step sys c c') : Safe d c' := by
  obtain ⟨hg, halways, hfree⟩ := hc
  cases hstep with
  | @sec i β l m k b s' hi hl hm =>
    rw [hassume] at hl
    have hgi := hg i
    rw [hi] at hgi
    by_cases hheld : c.holder = some i
    · -- the holder: only it sees the view
      rw [seen, if_pos hheld] at hgi
      obtain ⟨halways', hrest⟩ := hgi _ rfl hl b s' hm
      refine ⟨guarded_update hg ?_ (fun j hj => ?_) rfl, halways', fun hnone => ?_⟩
      · rw [seen, if_pos hheld]
        exact hrest
      · have hne : c.holder ≠ some j := fun h => hj (some_injective _ (h.symm.trans hheld))
        simp only [seen, if_neg hne]
      · rw [show c.holder = none from hnone] at hheld
        cases hheld
    · -- any other thread leaves the view alone
      rw [seen, if_neg hheld] at hgi
      obtain ⟨hview, hrest⟩ := hgi _ hl b s' hm
      refine ⟨guarded_update hg ?_ (fun j _ => ?_) rfl, hview.symm ▸ halways, fun hnone => ?_⟩
      · rw [seen, if_neg hheld]
        exact hrest
      · simp only [seen, hview]
      · rw [show d.view s' = d.view c.shared from hview]
        exact hfree hnone
  | @lock i k hi hnone =>
    have hgi := hg i
    rw [hi, seen, if_neg (by simp [hnone])] at hgi
    refine ⟨guarded_update hg ?_ (fun j hj => ?_) rfl, halways, by simp⟩
    · rw [seen, if_pos rfl]
      exact hgi _ (hfree hnone)
    · have hne : some i ≠ some j := fun h => hj (some_injective _ h).symm
      simp only [seen, if_neg hne, hnone, if_neg (some_ne_none j).symm]
  | @unlock i k hi hheld =>
    have hgi := hg i
    rw [hi, seen, if_pos hheld] at hgi
    refine ⟨guarded_update hg ?_ (fun j hj => ?_) rfl, halways, fun _ => hgi.1⟩
    · rw [seen, if_neg (some_ne_none i).symm]
      exact hgi.2
    · have hne : c.holder ≠ some j := fun h => hj (some_injective _ (h.symm.trans hheld))
      simp only [seen, if_neg (some_ne_none j).symm, if_neg hne]
  | @start i op hi =>
    have hgi := hg i
    rw [hi] at hgi
    refine ⟨guarded_update hg ?_ (fun j _ => rfl) rfl, halways, hfree⟩
    -- an idle thread does not hold the mutex
    have hnone : c.seen d.view i = none := hgi
    exact hnone ▸ hprog op
  | @env s' hs =>
    have hview := henv _ _ hs
    refine ⟨fun i => ?_, hview.symm ▸ halways, fun hnone => ?_⟩
    · have : seen d.view ⟨s', c.holder, c.threads⟩ i = c.seen d.view i := by simp only [seen, hview]
      rw [this]
      exact hg i
    · rw [show d.view s' = d.view c.shared from hview]
      exact hfree hnone

/-- **Whole runs**: a system of guarded programs stays safe in every interleaving. -/
theorem Safe.run {c c' : Config Λ σ} (hc : Safe d c)
    (hrun : Relation.ReflTransGen (Step sys) c c') : Safe d c' := by
  induction hrun with
  | refl => exact hc
  | tail _ hstep ih => exact ih.step hassume hprog henv hstep

end steps

/-! ### Schedules -/

section schedules

variable (sys) [∀ l s, Decidable (sys.assume l s)]

/-- The next move of thread `i`: start an operation, or do the next step of its program. -/
def move (c : Config Λ σ) (i : ℕ) : Option ι → Option (Config Λ σ)
  | some op =>
    match c.threads i with
    | .ret () => some ⟨c.shared, c.holder, Function.update c.threads i (sys.prog op)⟩
    | _ => none
  | none =>
    match c.threads i with
    | .ret () => none
    | .sec l m k =>
      if sys.assume l c.shared then
        (m c.shared).map fun r => ⟨r.2, c.holder, Function.update c.threads i (k r.1)⟩
      else none
    | .lock k =>
      if c.holder = none then some ⟨c.shared, some i, Function.update c.threads i k⟩ else none
    | .unlock k =>
      if c.holder = some i then some ⟨c.shared, none, Function.update c.threads i k⟩ else none

def play : List (ℕ × Option ι) → Config Λ σ → Option (Config Λ σ)
  | [], c => some c
  | (i, a) :: rest, c => (c.move sys i a).bind (play rest)

variable {sys}

variable {c c' : Config Λ σ}

lemma step_of_move {i : ℕ} {a : Option ι} (h : c.move sys i a = some c') : Step sys c c' := by
  unfold move at h
  split at h <;> split at h
  · cases h
    exact .start ‹_›
  · cases h
  · cases h
  · rename_i hi
    split_ifs at h with hassume
    obtain ⟨⟨b, s'⟩, hm, rfl⟩ := map_eq_some_iff.mp h
    exact .sec hi hassume hm
  · split_ifs at h with hfree
    cases h
    exact .lock ‹_› hfree
  · split_ifs at h with hheld
    cases h
    exact .unlock ‹_› hheld

lemma start_of_move {i : ℕ} {op : ι} (h : c.move sys i (some op) = some c') :
    c.threads i = .ret () ∧ c' = ⟨c.shared, c.holder, Function.update c.threads i (sys.prog op)⟩ := by
  simp only [move] at h
  split at h
  · exact ⟨‹_›, (Option.some.inj h).symm⟩
  · cases h

lemma threads_of_move {i j : ℕ} {a : Option ι} (h : c.move sys i a = some c') (hj : j ≠ i) :
    c'.threads j = c.threads j := by
  unfold move at h
  split at h <;> split at h
  · cases h
    exact update_of_ne hj _ _
  · cases h
  · cases h
  · split_ifs at h
    obtain ⟨r, -, rfl⟩ := map_eq_some_iff.mp h
    exact update_of_ne hj _ _
  · split_ifs at h
    cases h
    exact update_of_ne hj _ _
  · split_ifs at h
    cases h
    exact update_of_ne hj _ _

lemma threads_of_play {moves : List (ℕ × Option ι)} {j : ℕ} (h : play sys moves c = some c')
    (hj : ∀ x ∈ moves, j ≠ x.1) : c'.threads j = c.threads j := by
  induction moves generalizing c with
  | nil =>
    cases h
    rfl
  | cons move rest ih =>
    obtain ⟨c₁, hmove, hrest⟩ := bind_eq_some_iff.mp h
    rw [ih hrest fun x hx => hj x (List.mem_cons_of_mem _ hx)]
    exact threads_of_move hmove (hj move List.mem_cons_self)

lemma steps_of_play {moves : List (ℕ × Option ι)} (h : play sys moves c = some c') :
    Relation.ReflTransGen (Step sys) c c' := by
  induction moves generalizing c with
  | nil =>
    cases h
    exact .refl
  | cons move rest ih =>
    obtain ⟨c₁, hmove, hrest⟩ := bind_eq_some_iff.mp h
    exact .head (step_of_move hmove) (ih hrest)

end schedules

/-! ### Moves of one thread -/

inductive Moves (i : ℕ) : Config Λ σ → Config Λ σ → Prop where
  | sec {c : Config Λ σ} {β : Type} {l : Λ} {m : Exec σ β} {k : β → Prog Λ σ Unit} {b : β} {s' : σ}
      (hi : c.threads i = .sec l m k) (hm : m c.shared = some (b, s')) :
      Moves i c ⟨s', c.holder, Function.update c.threads i (k b)⟩
  | lock {c : Config Λ σ} {k : Prog Λ σ Unit} (hi : c.threads i = .lock k) (hfree : c.holder = none) :
      Moves i c ⟨c.shared, some i, Function.update c.threads i k⟩
  | unlock {c : Config Λ σ} {k : Prog Λ σ Unit} (hi : c.threads i = .unlock k) (hheld : c.holder = some i) :
      Moves i c ⟨c.shared, none, Function.update c.threads i k⟩

section moves

variable {c c' : Config Λ σ} {i : ℕ}

lemma Moves.step (h : c.Moves i c') (hassume : ∀ l s, sys.assume l s) : Step sys c c' := by
  cases h with
  | sec hi hm => exact .sec hi (hassume _ _) hm
  | lock hi hfree => exact .lock hi hfree
  | unlock hi hheld => exact .unlock hi hheld

lemma moves_of_move [∀ l s, Decidable (sys.assume l s)] (h : c.move sys i none = some c') : c.Moves i c' := by
  simp only [move] at h
  split at h
  · cases h
  · rename_i hi
    split_ifs at h
    obtain ⟨⟨b, s'⟩, hm, rfl⟩ := map_eq_some_iff.mp h
    exact .sec hi hm
  · split_ifs at h with hfree
    cases h
    exact .lock ‹_› hfree
  · split_ifs at h with hheld
    cases h
    exact .unlock ‹_› hheld

lemma Moves.threads_of_ne (h : c.Moves i c') {j : ℕ} (hj : j ≠ i) : c'.threads j = c.threads j := by
  cases h <;> exact update_of_ne hj _ _

lemma Moves.every {P : ∀ {β : Type}, Λ → Exec σ β → Prop} (h : c.Moves i c')
    (hp : (c.threads i).Every P) : (c'.threads i).Every P := by
  cases h with
  | sec hi hm =>
    rw [hi] at hp
    simp only [update_self]
    exact hp.2 _
  | lock hi hfree =>
    rw [hi] at hp
    simp only [update_self]
    exact hp
  | unlock hi hheld =>
    rw [hi] at hp
    simp only [update_self]
    exact hp

end moves

def idle (s : σ) : Config Λ σ := ⟨s, none, fun _ => .ret ()⟩

lemma safe_idle {s : σ} (hs : d.free (d.view s)) : Safe d (idle s : Config Λ σ) :=
  ⟨fun _ => rfl, d.always_of_free _ hs, fun _ => hs⟩

end Config

end QuillCache.Lib
