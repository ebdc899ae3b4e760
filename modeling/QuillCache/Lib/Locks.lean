import QuillCache.Lib.Threads

/-!
# Threads that take many mutexes

A program of `Lib.Threads` has one main mutex; its sections stand for critical sections of other mutexes. Here they are
put back: `Expands` says that a `LockProg` is such a program in which every section takes its mutexes before it
accesses the state and releases them after. A panic ends the thread: the mutexes it holds are released and poisoned,
and a thread that takes a poisoned mutex panics.

If the mutexes have ranks, and every thread takes a mutex only while all those it holds have a lower rank (`Ordered`),
there is no deadlock: the thread that holds the highest mutex of all can go on (`Ranked.progress`). A program that
takes and releases its main mutex in turn (`Bracketed`), and whose sections take mutexes of increasing rank above it,
keeps the order.
-/

namespace QuillCache.Lib

open Function

/-- A program of accesses to the shared state `σ` that takes and releases the mutexes `M`. -/
inductive LockProg (M Λ σ α : Type) : Type 1 where
  | ret (a : α)
  | act {β : Type} (label : Λ) (m : Exec σ β) (k : β → LockProg M Λ σ α)
  | acquire (x : M) (k : LockProg M Λ σ α)
  | release (x : M) (k : LockProg M Λ σ α)

namespace LockProg

variable {M Λ σ α : Type}

def acquireAll (xs : List M) (p : LockProg M Λ σ α) : LockProg M Λ σ α := xs.foldr acquire p

def releaseAll (xs : List M) (p : LockProg M Λ σ α) : LockProg M Λ σ α := xs.foldr release p

/-- Every mutex ranks above those that are held when it is taken, and only held mutexes are released. `held` are the
mutexes held at the beginning; none is held at the end. -/
def Ordered (rank : M → ℕ) : LockProg M Λ σ α → Set M → Prop
  | ret _, held => held = ∅
  | act _ _ k, held => ∀ b, Ordered rank (k b) held
  | acquire x k, held => (∀ y ∈ held, rank y < rank x) ∧ Ordered rank k (insert x held)
  | release x k, held => x ∈ held ∧ Ordered rank k (held \ {x})

section ordered

variable {rank : M → ℕ} {p : LockProg M Λ σ α} {held : Set M} {xs : List M}

lemma ordered_acquireAll (hrank : ∀ y ∈ held, ∀ x ∈ xs, rank y < rank x)
    (hsorted : xs.Pairwise fun x y => rank x < rank y) (hp : Ordered rank p (held ∪ { x | x ∈ xs })) :
    Ordered rank (acquireAll xs p) held := by
  induction xs generalizing held with
  | nil =>
    have hnone : held ∪ { x | x ∈ ([] : List M) } = held := by simp
    rwa [hnone] at hp
  | cons x xs ih =>
    obtain ⟨hx, hsorted⟩ := List.pairwise_cons.mp hsorted
    refine ⟨fun y hy => hrank y hy x List.mem_cons_self, ih ?_ hsorted ?_⟩
    · rintro y (rfl | hy) z hz
      · exact hx z hz
      · exact hrank y hy z (List.mem_cons_of_mem _ hz)
    · have hset : insert x held ∪ { y | y ∈ xs } = held ∪ { y | y ∈ x :: xs } := by
        ext y
        simp only [Set.mem_union, Set.mem_insert_iff, Set.mem_ofPred_eq, List.mem_cons]
        tauto
      rwa [hset]

lemma ordered_releaseAll (hnodup : xs.Nodup) (hout : ∀ x ∈ xs, x ∉ held) (hp : Ordered rank p held) :
    Ordered rank (releaseAll xs p) (held ∪ { x | x ∈ xs }) := by
  induction xs with
  | nil =>
    have hnone : held ∪ { x | x ∈ ([] : List M) } = held := by simp
    rwa [hnone]
  | cons x xs ih =>
    obtain ⟨hx, hnodup⟩ := List.nodup_cons.mp hnodup
    have hset : (held ∪ { y | y ∈ x :: xs }) \ {x} = held ∪ { y | y ∈ xs } := by
      ext y
      have hxheld : x ∉ held := hout x List.mem_cons_self
      simp only [Set.mem_sdiff, Set.mem_union, Set.mem_ofPred_eq, List.mem_cons, Set.mem_singleton_iff]
      constructor
      · rintro ⟨hy | rfl | hy, hne⟩
        · exact .inl hy
        · exact absurd rfl hne
        · exact .inr hy
      · rintro (hy | hy)
        · exact ⟨.inl hy, fun h => hxheld (h ▸ hy)⟩
        · exact ⟨.inr (.inr hy), fun h => hx (h ▸ hy)⟩
    refine ⟨.inr List.mem_cons_self, ?_⟩
    rw [hset]
    exact ih hnodup fun y hy => hout y (List.mem_cons_of_mem _ hy)

end ordered

end LockProg

/-! ## The mutexes of the sections -/

namespace Prog

variable {M Λ σ α β : Type}

/-- The program with the mutexes of its sections, among which `Guards` leaves a choice. -/
inductive Expands (main : M) (Guards : Λ → List M → Prop) : Prog Λ σ α → LockProg M Λ σ α → Prop where
  | ret (a : α) : Expands main Guards (.ret a) (.ret a)
  | sec {β : Type} {l : Λ} {m : Exec σ β} {k : β → Prog Λ σ α} {q : β → LockProg M Λ σ α} {xs : List M}
      (hxs : Guards l xs) (hk : ∀ b, Expands main Guards (k b) (q b)) :
      Expands main Guards (.sec l m k) (.acquireAll xs (.act l m fun b => .releaseAll xs (q b)))
  | lock {k : Prog Λ σ α} {q : LockProg M Λ σ α} (hk : Expands main Guards k q) :
      Expands main Guards (.lock k) (.acquire main q)
  | unlock {k : Prog Λ σ α} {q : LockProg M Λ σ α} (hk : Expands main Guards k q) :
      Expands main Guards (.unlock k) (.release main q)

/-- The program in which a section takes the mutexes that its label says. -/
def expand (main : M) (mutexes : Λ → List M) : Prog Λ σ α → LockProg M Λ σ α
  | ret a => .ret a
  | sec l m k => .acquireAll (mutexes l) (.act l m fun b => .releaseAll (mutexes l) ((k b).expand main mutexes))
  | lock k => .acquire main (k.expand main mutexes)
  | unlock k => .release main (k.expand main mutexes)

lemma expands_expand {main : M} {Guards : Λ → List M → Prop} {mutexes : Λ → List M} (h : ∀ l, Guards l (mutexes l))
    (p : Prog Λ σ α) : Expands main Guards p (p.expand main mutexes) := by
  induction p with
  | ret a => exact .ret a
  | sec l m k ih => exact .sec (h l) ih
  | lock k ih => exact .lock ih
  | unlock k ih => exact .unlock ih

/-- The main mutex is taken and released in turn; `locked` says whether it is held at the beginning, and `Q` is required
of the result and of whether it is held at the end. -/
def Bracketed (Q : α → Bool → Prop) : Prog Λ σ α → Bool → Prop
  | ret a, locked => Q a locked
  | sec _ _ k, locked => ∀ b, Bracketed Q (k b) locked
  | lock k, locked => locked = false ∧ Bracketed Q k true
  | unlock k, locked => locked = true ∧ Bracketed Q k false

/-- The program neither takes nor releases the main mutex. -/
def Inner (p : Prog Λ σ α) : Prop := ∀ locked, Bracketed (fun _ locked' => locked' = locked) p locked

/-- The program releases the main mutex, which it holds at the beginning. -/
def Holding (p : Prog Λ σ α) : Prop := Bracketed (fun _ locked => locked = false) p true

/-- The program begins and ends without the main mutex. -/
def Outer (p : Prog Λ σ α) : Prop := Bracketed (fun _ locked => locked = false) p false

section bracketed

variable {p : Prog Λ σ α} {f : α → Prog Λ σ β}

lemma Bracketed.bind {Q : α → Bool → Prop} {R : β → Bool → Prop} {locked : Bool} (hp : Bracketed Q p locked)
    (hf : ∀ a locked, Q a locked → Bracketed R (f a) locked) : Bracketed R (p >>= f) locked := by
  change Bracketed R (p.bind f) locked
  induction p generalizing locked with
  | ret a => exact hf a locked hp
  | sec l m k ih => exact fun b => ih b (hp b)
  | lock k ih => exact ⟨hp.1, ih hp.2⟩
  | unlock k ih => exact ⟨hp.1, ih hp.2⟩

lemma inner_pure (a : α) : Inner (Pure.pure a : Prog Λ σ α) := fun _ => rfl

lemma inner_section {l : Λ} {m : Exec σ α} : Inner (section_ l m) := fun _ _ => rfl

lemma Inner.bind (hp : Inner p) (hf : ∀ a, Inner (f a)) : Inner (p >>= f) := by
  intro locked
  refine (hp locked).bind fun a locked' h => ?_
  rw [h]
  exact hf a locked

lemma Inner.holding (hp : Inner p) (hf : ∀ a, Holding (f a)) : Holding (p >>= f) := by
  refine (hp true).bind fun a locked h => ?_
  rw [h]
  exact hf a

lemma Inner.outer (hp : Inner p) : Outer p := hp false

lemma Outer.bind (hp : Outer p) (hf : ∀ a, Outer (f a)) : Outer (p >>= f) := by
  refine Bracketed.bind hp fun a locked h => ?_
  rw [h]
  exact hf a

lemma Inner.then_outer (hp : Inner p) (hf : ∀ a, Outer (f a)) : Outer (p >>= f) := hp.outer.bind hf

lemma outer_acquire {f : Unit → Prog Λ σ β} (hf : Holding (f ())) : Outer (acquire >>= f) := ⟨rfl, hf⟩

lemma holding_release {f : Unit → Prog Λ σ β} (hf : Outer (f ())) : Holding (release >>= f) := ⟨rfl, hf⟩

end bracketed

def mainHeld (main : M) (locked : Bool) : Set M := { x | locked = true ∧ x = main }

/-- **A program that takes its main mutex in turn keeps the order**, whatever mutexes of higher rank its sections take. -/
theorem Bracketed.ordered {main : M} {Guards : Λ → List M → Prop} {rank : M → ℕ} {p : Prog Λ σ α}
    {q : LockProg M Λ σ α} {locked : Bool}
    (hguards : ∀ l xs, Guards l xs → xs.Pairwise (fun x y => rank x < rank y) ∧ ∀ x ∈ xs, rank main < rank x)
    (hp : Bracketed (fun _ locked => locked = false) p locked) (hq : Expands main Guards p q) :
    q.Ordered rank (mainHeld main locked) := by
  induction hq generalizing locked with
  | ret a => exact Set.eq_empty_of_forall_notMem fun x hx => Bool.false_ne_true ((hp : locked = false).symm.trans hx.1)
  | @sec β l m k q xs hxs hk ih =>
    obtain ⟨hsorted, hmain⟩ := hguards l xs hxs
    have habove : ∀ y ∈ mainHeld main locked, ∀ x ∈ xs, rank y < rank x := fun y hy x hx => hy.2 ▸ hmain x hx
    refine LockProg.ordered_acquireAll habove hsorted fun b => ?_
    refine LockProg.ordered_releaseAll (hsorted.imp fun hlt heq => (heq ▸ hlt).false) ?_ (ih b (hp b))
    exact fun x hx hmem => lt_irrefl _ (habove x hmem x hx)
  | lock hk ih =>
    obtain ⟨rfl, hp⟩ := hp
    refine ⟨fun y hy => absurd hy.1 Bool.false_ne_true, ?_⟩
    have hset : insert main (mainHeld main false) = mainHeld main true := by
      ext x
      simp [mainHeld]
    rw [hset]
    exact ih hp
  | unlock hk ih =>
    obtain ⟨rfl, hp⟩ := hp
    refine ⟨⟨rfl, rfl⟩, ?_⟩
    have hset : mainHeld main true \ {main} = mainHeld main false := by
      ext x
      simp [mainHeld]
    rw [hset]
    exact ih hp

end Prog

/-! ## Interleavings -/

/-- The shared state, the holder of each mutex, the mutexes that a panic has poisoned, and what each thread has left
to do. -/
structure LockConfig (ι M Λ σ : Type) where
  shared : σ
  holder : M → Option ι
  poisoned : M → Bool
  threads : ι → LockProg M Λ σ Unit

namespace LockConfig

variable {ι M Λ σ : Type} [DecidableEq ι] [DecidableEq M]

/-- Thread `i` panics: it ends, and leaves the mutexes it holds free and poisoned. -/
def abort (c : LockConfig ι M Λ σ) (i : ι) : LockConfig ι M Λ σ where
  shared := c.shared
  holder x := if c.holder x = some i then none else c.holder x
  poisoned x := c.poisoned x || decide (c.holder x = some i)
  threads := Function.update c.threads i (.ret ())

inductive Step (i : ι) : LockConfig ι M Λ σ → LockConfig ι M Λ σ → Prop where
  | act {c : LockConfig ι M Λ σ} {β : Type} {l : Λ} {m : Exec σ β} {k : β → LockProg M Λ σ Unit} {b : β} {s' : σ}
      (hi : c.threads i = .act l m k) (hm : m c.shared = some (b, s')) :
      Step i c { c with shared := s', threads := Function.update c.threads i (k b) }
  | panic {c : LockConfig ι M Λ σ} {β : Type} {l : Λ} {m : Exec σ β} {k : β → LockProg M Λ σ Unit}
      (hi : c.threads i = .act l m k) (hm : m c.shared = none) : Step i c (c.abort i)
  | acquire {c : LockConfig ι M Λ σ} {x : M} {k : LockProg M Λ σ Unit} (hi : c.threads i = .acquire x k)
      (hfree : c.holder x = none) (hclean : c.poisoned x = false) :
      Step i c { c with
        holder := Function.update c.holder x (some i), threads := Function.update c.threads i k }
  | poisoned {c : LockConfig ι M Λ σ} {x : M} {k : LockProg M Λ σ Unit} (hi : c.threads i = .acquire x k)
      (hfree : c.holder x = none) (hpoison : c.poisoned x = true) : Step i c (c.abort i)
  | release {c : LockConfig ι M Λ σ} {x : M} {k : LockProg M Λ σ Unit} (hi : c.threads i = .release x k)
      (hheld : c.holder x = some i) :
      Step i c { c with holder := Function.update c.holder x none, threads := Function.update c.threads i k }

def held (c : LockConfig ι M Λ σ) (i : ι) : Set M := { x | c.holder x = some i }

def Wants (c : LockConfig ι M Λ σ) (i : ι) (x : M) : Prop := ∃ k, c.threads i = .acquire x k

def Engaged (c : LockConfig ι M Λ σ) (i : ι) : Prop := ∃ x, c.holder x = some i ∨ c.Wants i x

def CanStep (c : LockConfig ι M Λ σ) (i : ι) : Prop := ∃ c', Step i c c'

def Finished (c : LockConfig ι M Λ σ) (i : ι) : Prop := c.threads i = .ret ()

/-- Every thread keeps the order of the mutexes from here on. -/
def Ranked (rank : M → ℕ) (c : LockConfig ι M Λ σ) : Prop :=
  ∀ i, (c.threads i).Ordered rank (c.held i)

section steps

variable {rank : M → ℕ} {c c' : LockConfig ι M Λ σ} {i : ι}

omit [DecidableEq M] in
lemma Ranked.update {p : LockProg M Λ σ Unit} (h : Ranked rank c) (hthreads : c'.threads = Function.update c.threads i p)
    (hp : p.Ordered rank (c'.held i)) (hothers : ∀ j ≠ i, c'.held j = c.held j) :
    Ranked rank c' := by
  intro j
  rw [hthreads]
  rcases eq_or_ne j i with rfl | hne
  · rwa [update_self]
  · rw [update_of_ne hne, hothers j hne]
    exact h j

omit [DecidableEq M] in
lemma Ranked.abort (h : Ranked rank c) (i : ι) : Ranked rank (c.abort i) := by
  refine h.update rfl ?_ fun j hne => ?_
  · refine Set.eq_empty_of_forall_notMem fun x hx => ?_
    have hx' : (if c.holder x = some i then none else c.holder x) = some i := hx
    split_ifs at hx' with hi
    exact hi hx'
  · ext x
    simp only [held, LockConfig.abort, Set.mem_ofPred_eq]
    split_ifs with hi
    · simp [hi, hne.symm]
    · rfl

lemma Ranked.step (h : Ranked rank c) (hstep : Step i c c') : Ranked rank c' := by
  have hi := h i
  cases hstep with
  | act hthread hm =>
    rw [hthread] at hi
    exact h.update rfl (hi _) fun _ _ => rfl
  | panic hthread hm => exact h.abort i
  | poisoned hthread hfree hpoison => exact h.abort i
  | @acquire x k hthread hfree hclean =>
    rw [hthread] at hi
    refine h.update rfl ?_ fun j hne => ?_
    · have hset : held { c with
          holder := Function.update c.holder x (some i), threads := Function.update c.threads i k } i =
          insert x (c.held i) := by
        ext y
        simp only [held, Set.mem_ofPred_eq, Set.mem_insert_iff, update_apply]
        split_ifs with hy <;> simp [hy]
      rw [hset]
      exact hi.2
    · ext y
      simp only [held, Set.mem_ofPred_eq, update_apply]
      split_ifs with hy
      · simp [hy, hfree, hne.symm]
      · rfl
  | @release x k hthread hheld =>
    rw [hthread] at hi
    refine h.update rfl ?_ fun j hne => ?_
    · have hset : held { c with
          holder := Function.update c.holder x none, threads := Function.update c.threads i k } i =
          c.held i \ {x} := by
        ext y
        simp only [held, Set.mem_ofPred_eq, Set.mem_sdiff, Set.mem_singleton_iff, update_apply]
        split_ifs with hy <;> simp [hy]
      rw [hset]
      exact hi.2
    · ext y
      simp only [held, Set.mem_ofPred_eq, update_apply]
      split_ifs with hy
      · simp [hy, hheld, hne.symm]
      · rfl

lemma Ranked.run (h : Ranked rank c) (hrun : Relation.ReflTransGen (fun c c' => ∃ i, Step i c c') c c') :
    Ranked rank c' := by
  induction hrun with
  | refl => exact h
  | tail _ hstep ih =>
    obtain ⟨i, hi⟩ := hstep
    exact ih.step hi

omit [DecidableEq ι] [DecidableEq M] in
lemma Ranked.not_reentrant (h : Ranked rank c) {x : M} (hx : c.Wants i x) : c.holder x ≠ some i := by
  obtain ⟨k, hk⟩ := hx
  have hi := h i
  rw [hk] at hi
  exact fun hheld => lt_irrefl _ (hi.1 x hheld)

/-- A thread that is not finished can go on, unless it asks for a mutex that is taken. -/
lemma Ranked.canStep (h : Ranked rank c) (hunfinished : ¬c.Finished i) (hfree : ∀ x, c.Wants i x → c.holder x = none) :
    c.CanStep i := by
  have hi := h i
  cases hthread : c.threads i with
  | ret a => exact absurd hthread hunfinished
  | act l m k =>
    cases hm : m c.shared with
    | none => exact ⟨_, .panic hthread hm⟩
    | some r => exact ⟨_, .act hthread hm⟩
  | acquire x k =>
    cases hp : c.poisoned x with
    | false => exact ⟨_, .acquire hthread (hfree x ⟨k, hthread⟩) hp⟩
    | true => exact ⟨_, .poisoned hthread (hfree x ⟨k, hthread⟩) hp⟩
  | release x k =>
    rw [hthread] at hi
    exact ⟨_, .release hthread hi.1⟩

omit [DecidableEq ι] [DecidableEq M] in
lemma Ranked.unfinished_of_held (h : Ranked rank c) {x : M} (hx : c.holder x = some i) : ¬c.Finished i := by
  intro hfinished
  have hi := h i
  rw [hfinished] at hi
  have hempty : c.held i = ∅ := hi
  exact Set.notMem_empty x (hempty ▸ hx)

omit [DecidableEq ι] [DecidableEq M] in
lemma Ranked.unfinished_of_engaged (h : Ranked rank c) (hi : c.Engaged i) : ¬c.Finished i := by
  obtain ⟨x, hx | ⟨k, hk⟩⟩ := hi
  · exact h.unfinished_of_held hx
  · unfold Finished
    rw [hk]
    exact nofun

/-- **The holder of the highest mutex can go on.** -/
lemma Ranked.exists_holder_canStep [Finite M] (h : Ranked rank c) (hheld : ∃ x, c.holder x ≠ none) :
    ∃ i x, c.holder x = some i ∧ c.CanStep i := by
  obtain ⟨x, hx, hmax⟩ := Set.exists_max_image { x | c.holder x ≠ none } rank (Set.toFinite _) hheld
  obtain ⟨i, hi⟩ := Option.ne_none_iff_exists'.mp hx
  refine ⟨i, x, hi, h.canStep (h.unfinished_of_held hi) ?_⟩
  rintro y ⟨k, hk⟩
  -- what it asks for ranks above all mutexes that are held
  have hthread := h i
  rw [hk] at hthread
  by_contra hy
  exact absurd (hthread.1 x hi) (Nat.not_lt.mpr (hmax y hy))

/-- **No deadlock**: if a thread holds or wants a mutex, one of those can take a step; and a thread that is not finished
and neither holds nor wants a mutex can take one. -/
theorem Ranked.progress [Finite M] (h : Ranked rank c) :
    ((∃ i, c.Engaged i) → ∃ i, c.Engaged i ∧ c.CanStep i) ∧ ∀ i, ¬c.Finished i → ¬c.Engaged i → c.CanStep i := by
  refine ⟨fun hengaged => ?_, fun i hunfinished hi => h.canStep hunfinished fun x hx => absurd ⟨x, .inr hx⟩ hi⟩
  by_cases hheld : ∃ x, c.holder x ≠ none
  · obtain ⟨i, x, hi, hstep⟩ := h.exists_holder_canStep hheld
    exact ⟨i, ⟨x, .inl hi⟩, hstep⟩
  · -- all mutexes are free, so that a thread which wants one gets it
    have hfree : ∀ x, c.holder x = none := fun x => by_contra fun hx => hheld ⟨x, hx⟩
    obtain ⟨i, hi⟩ := hengaged
    exact ⟨i, hi, h.canStep (h.unfinished_of_engaged hi) fun y _ => hfree y⟩

end steps

end LockConfig

end QuillCache.Lib
