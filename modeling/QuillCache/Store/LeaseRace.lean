import QuillCache.Store.Decisions

/-!
# Read leases in interleavings

A read that is granted after an eviction pass has listed the object, or after an upsert has found it free, is
not honoured; and an upsert whose object is removed before it re-opens it panics (`stale_decisions`). A read
takes its time, too: it records a lease from the moment at which it has read the clock.

`racing_leases_honoured` says that nothing else can go wrong. If reads are granted only while no other request
has decided on the key, while the clock stands still, and if no object is taken away while an upsert is about
to re-open it, then leases are honoured in every interleaving.
-/

namespace QuillCache.Store.MasterService

open Lib Prog Relation AList Function Option

/-- A step of one thread that is `ok`; or the hash maps change their iteration order. -/
inductive Races (ok : Config Section MasterService → ℕ → Config Section MasterService → Prop) :
    Config Section MasterService → Config Section MasterService → Prop where
  | move {c c' : Config Section MasterService} (i : ℕ) (hok : ok c i c') (h : c.Moves i c') : Races ok c c'
  | shuffle {c : Config Section MasterService} {s' : MasterService} (h : Shuffle c.shared s') :
      Races ok c ⟨s', c.holder, c.threads⟩

/-- Thread `i` makes the request `ops i`, at any time. A client that makes more than one is several threads. -/
def begin_ (ops : ℕ → MasterOp) (s : MasterService) : Config Section MasterService :=
  ⟨s, none, fun i => (ops i).prog⟩

/-! ## Reads -/

/-- The last section of a read that has seen the clock at `now`. -/
def lastSection (key : ObjectKey) (requester : IdentityScope) (now leaseTtl : ℕ) (alive : List SegmentName) :
    MasterProg Unit :=
  MasterOp.void (onObjects (.grant key) (readObject key requester now leaseTtl alive))

/-- What is left of a read at time `now`: as long as time stands still, it changes nothing until it comes to
its last section, which grants a lease from `now` on. -/
def Timely (key : ObjectKey) (requester : IdentityScope) (now leaseTtl : ℕ) : MasterProg Unit → Prop
  | .ret _ => True
  | .sec l m k =>
    (∃ alive, (.sec l m k : MasterProg Unit) = lastSection key requester now leaseTtl alive) ∨
      ((∀ k', l ≠ .grant k') ∧ ∀ s, s.clock = now → s.leaseTtl = leaseTtl → ∀ b s', m s = some (b, s') →
        s' = s ∧ Timely key requester now leaseTtl (k b))
  | .lock _ => False
  | .unlock _ => False

section reads

variable {key : ObjectKey} {requester : IdentityScope} {now leaseTtl : ℕ}

lemma timely_read {α : Type} {f : MasterService → Option α} {g : α → MasterProg Unit}
    (h : ∀ s, s.clock = now → s.leaseTtl = leaseTtl → ∀ a, f s = some a → Timely key requester now leaseTtl (g a)) :
    Timely key requester now leaseTtl (read f >>= g) := by
  refine .inr ⟨nofun, fun s hclock httl a s' hrun => ?_⟩
  obtain ⟨b, hb, hr⟩ := map_eq_some_iff.mp hrun
  cases hr
  exact ⟨rfl, h s hclock httl _ hb⟩

lemma timely_prog : Timely key requester now leaseTtl (MasterOp.getReplicaList key requester).prog := by
  refine timely_read fun s hclock _ t ht => ?_
  cases ht
  refine timely_read fun s _ _ ttl _ => timely_read fun s _ _ alive _ => ?_
  refine timely_read fun s _ httl leaseTtl hleaseTtl => ?_
  cases hleaseTtl
  rw [hclock, httl]
  exact .inl ⟨alive, rfl⟩

lemma readObject_cases {alive : List SegmentName} {t t' : ObjectMap} {r : Except ErrorCode (List Replica)}
    (h : readObject key requester now leaseTtl alive t = some (r, t')) :
    ((∃ e, r = .error e) ∧ t' = t) ∨
      ∃ o, t.lookup key = some o ∧ r = .ok (o.replicas.values.filter (readable alive)) ∧
        o.replicas.values.filter (readable alive) ≠ [] ∧
        t' = t.update key fun o => { o with lastAccess := now, leaseUntil := now + leaseTtl } := by
  rw [readObject] at h
  cases ho : t.lookup key with
  | none =>
    rw [ho] at h
    cases h
    exact .inl ⟨⟨_, rfl⟩, rfl⟩
  | some o =>
    simp only [ho] at h
    split at h
    · cases h
      exact .inl ⟨⟨_, rfl⟩, rfl⟩
    · split_ifs at h with hempty
      · cases h
        exact .inl ⟨⟨_, rfl⟩, rfl⟩
      · cases h
        exact .inr ⟨o, rfl, rfl, fun hnil => hempty (List.isEmpty_iff.mpr hnil), rfl⟩

lemma Timely.moves {c c' : Config Section MasterService} {i : ℕ} (h : c.Moves i c')
    (hp : Timely key requester c.shared.clock c.shared.leaseTtl (c.threads i)) :
    (c'.shared = c.shared ∧ Timely key requester c.shared.clock c.shared.leaseTtl (c'.threads i)) ∨
      ∃ alive r t, c.threads i = lastSection key requester c.shared.clock c.shared.leaseTtl alive ∧
        readObject key requester c.shared.clock c.shared.leaseTtl alive c.shared.objects = some (r, t) ∧
        c' = ⟨{ c.shared with objects := t }, c.holder, Function.update c.threads i (.ret ())⟩ := by
  cases h with
  | sec hi hm =>
    rw [hi] at hp
    rcases hp with ⟨alive, heq⟩ | ⟨-, hrest⟩
    · cases heq
      obtain ⟨⟨r, t⟩, hread, hr⟩ := map_eq_some_iff.mp hm
      cases hr
      exact .inr ⟨alive, r, t, hi, hread, rfl⟩
    · obtain ⟨hsame, htimely⟩ := hrest _ rfl rfl _ _ hm
      simp only [update_self]
      exact .inl ⟨hsame, htimely⟩
  | lock hi hfree =>
    rw [hi] at hp
    exact hp.elim
  | unlock hi hheld =>
    rw [hi] at hp
    exact hp.elim

end reads

/-! ## Upserts -/

/-- A section that re-opens an object comes right after one that has found it, and does not panic if it is
still there. -/
def Prepared {α : Type} : MasterProg α → Prop
  | .ret _ => True
  | .sec l m k => (∀ key, l = .reopen key → ∀ s, key ∈ s.objects → m s ≠ none) ∧
      ∀ s b s', m s = some (b, s') →
        (∀ key, (k b).next = some (.reopen key) → key ∈ s'.objects) ∧ Prepared (k b)
  | .lock k => (∀ key, k.next ≠ some (.reopen key)) ∧ Prepared k
  | .unlock k => (∀ key, k.next ≠ some (.reopen key)) ∧ Prepared k

/-- What is left of a request is prepared, and the object that it re-opens next is there. -/
def PreparedAt {α : Type} (s : MasterService) (p : MasterProg α) : Prop :=
  (∀ key, p.next = some (.reopen key) → key ∈ s.objects) ∧ Prepared p

section prepared

/-- A section that does not re-open an object. -/
def NoReopen {β : Type} (l : Section) (_ : Exec MasterService β) : Prop := ∀ key, l ≠ .reopen key

variable {α : Type} {p : MasterProg α}

lemma noReopen_of_plain (hp : p.Every Plain) : p.Every NoReopen :=
  hp.mono fun _ _ h key hl => h.2 key (hl ▸ rfl)

lemma next_of_noReopen (hp : p.Every NoReopen) (key : ObjectKey) : p.next ≠ some (.reopen key) := by
  cases p with
  | sec l m k => exact fun h => hp.1 key (Option.some.inj h)
  | _ => nofun

lemma prepared_of_noReopen (hp : p.Every NoReopen) : Prepared p := by
  induction p with
  | ret a => trivial
  | sec l m k ih =>
    refine ⟨fun key hl => absurd hl (hp.1 key), fun s b s' _ => ⟨fun key hnext => ?_, ih b (hp.2 b)⟩⟩
    exact absurd hnext (next_of_noReopen (hp.2 b) key)
  | lock k ih => exact ⟨next_of_noReopen hp, ih hp⟩
  | unlock k ih => exact ⟨next_of_noReopen hp, ih hp⟩

lemma preparedAt_of_noReopen (hp : p.Every NoReopen) (s : MasterService) : PreparedAt s p :=
  ⟨fun key hnext => absurd hnext (next_of_noReopen hp key), prepared_of_noReopen hp⟩

lemma mem_of_inspect {key : ObjectKey} {now : ℕ} {t : ObjectMap} (h : (inspect key now t).1 = true) : key ∈ t := by
  rw [inspect] at h
  cases ho : t.lookup key with
  | none =>
    rw [ho] at h
    cases h
  | some o => exact mem_iff_exists_lookup.mpr ⟨o, ho⟩

lemma preparedAt_upsertStart (key : ObjectKey) (identity : IdentityScope) (size : ℕ) (config : ReplicateConfig)
    (s : MasterService) : PreparedAt s (MasterOp.upsertStart key identity size config).prog := by
  have hvoid : ∀ {α : Type} {p : MasterProg α}, p.Every NoReopen → (MasterOp.void p).Every NoReopen := fun hp =>
    hp.bind fun _ => every_pure _
  have hput : (putStart key identity size config).Every NoReopen := noReopen_of_plain plain_putStart
  refine ⟨fun _ h => (by cases h), fun _ h => (by cases h), fun _ t _ _ =>
    ⟨fun _ h => (by cases h), fun _ h => (by cases h), fun s r s' hrun => ?_⟩⟩
  cases hrun
  change PreparedAt s (MasterOp.void (afterInspect key identity size config t (inspect key t s.objects)))
  have hfound : (inspect key t s.objects).1 = true → key ∈ s.objects := mem_of_inspect
  generalize inspect key t s.objects = r at hfound
  obtain ⟨existsComplete, leased, existingSize⟩ := r
  rw [afterInspect]
  split_ifs with hopen hleased hsize
  · exact preparedAt_of_noReopen (hvoid hput) s
  · exact preparedAt_of_noReopen (hvoid (every_pure _)) s
  · refine ⟨fun key' hnext => ?_, fun key' hl s hmem => ?_, fun s b s' _ => ⟨fun _ h => (by cases h), trivial⟩⟩
    · cases hnext
      exact hfound (by simpa using hopen)
    · cases hl
      obtain ⟨o, ho⟩ := mem_iff_exists_lookup.mp hmem
      simp [focus, reopenObject, ho]
  · have htake : (onObjects (.replace key) (takeObject key)).Every NoReopen := every_section (by simp [NoReopen])
    exact preparedAt_of_noReopen (hvoid (every_acquire.bind fun _ => htake.bind fun old =>
      (noReopen_of_plain (plain_of_chore (chore_freeLeftover old))).bind fun _ => every_release.bind fun _ => hput)) s

lemma PreparedAt.moves {c c' : Config Section MasterService} {i : ℕ} (h : c.Moves i c')
    (hp : PreparedAt c.shared (c.threads i)) : PreparedAt c'.shared (c'.threads i) := by
  cases h with
  | sec hi hm =>
    rw [hi] at hp
    simp only [update_self]
    exact hp.2.2 _ _ _ hm
  | lock hi hfree =>
    rw [hi] at hp
    simp only [update_self]
    exact ⟨fun key hnext => absurd hnext (hp.2.1 key), hp.2.2⟩
  | unlock hi hheld =>
    rw [hi] at hp
    simp only [update_self]
    exact ⟨fun key hnext => absurd hnext (hp.2.1 key), hp.2.2⟩

end prepared

/-! ## Interleavings -/

/-- Thread `i`, which reads `key`, comes to its last section and returns `replicas`. -/
def Grants (ops : ℕ → MasterOp) (c : Config Section MasterService) (i : ℕ) (key : ObjectKey)
    (requester : IdentityScope) (replicas : List Replica) (c' : Config Section MasterService) : Prop :=
  ops i = .getReplicaList key requester ∧ ∃ now leaseTtl alive t,
    c.threads i = lastSection key requester now leaseTtl alive ∧
    readObject key requester now leaseTtl alive c.shared.objects = some (.ok replicas, t) ∧
    c' = ⟨{ c.shared with objects := t }, c.holder, Function.update c.threads i (.ret ())⟩

/-- The clock ticks only while no read is in progress; a read is granted only while the other requests are
undecided on its key; and an object is not taken away while another thread is about to re-open it. -/
structure Considerate (ops : ℕ → MasterOp) (c : Config Section MasterService) (i : ℕ)
    (c' : Config Section MasterService) : Prop where
  tick : ops i = .tick → ∀ j key requester, ops j = .getReplicaList key requester →
    c.threads j = (ops j).prog ∨ c.threads j = .ret ()
  grant : ∀ key requester replicas, Grants ops c i key requester replicas c' → ∀ j, j ≠ i →
    ∀ d, Undecided key d (c.threads j)
  take : ∀ key, key ∈ c.shared.objects → key ∉ c'.shared.objects → ∀ j, j ≠ i →
    (c.threads j).next ≠ some (.reopen key)

def Ticks {β : Type} (_ : Section) (m : Exec MasterService β) : Prop :=
  ∀ s, Pc m (fun _ s' => s' = { s with clock := s.clock + 1 }) s

/-- What holds of every thread in a considerate interleaving. -/
structure Orderly (ops : ℕ → MasterOp) (c : Config Section MasterService) : Prop where
  steady : ∀ j, ops j ≠ .tick → (c.threads j).Every Steady
  ticks : ∀ j, ops j = .tick → (c.threads j).Every Ticks
  timely : ∀ j key requester, ops j = .getReplicaList key requester →
    Timely key requester c.shared.clock c.shared.leaseTtl (c.threads j)
  prepared : ∀ j, PreparedAt c.shared (c.threads j)
  vigilant : ∀ j key, minds key (ops j) → Vigilant key (c.threads j) c.shared.clock

section orderly

variable {ops : ℕ → MasterOp} {c c' : Config Section MasterService} {i : ℕ}

lemma plain_prog {op : MasterOp} (hop : racing op = true) : op.prog.Every Plain ∨ op = .tick ∨
    ∃ key identity size config, op = .upsertStart key identity size config := by
  have hvoid : ∀ {α : Type} {p : MasterProg α}, p.Every Plain → (MasterOp.void p).Every Plain := fun hp =>
    hp.bind fun _ => every_pure _
  cases op with
  | putStart key identity size config => exact .inl (hvoid plain_putStart)
  | putEnd key => exact .inl (hvoid plain_putEnd)
  | getReplicaList key requester => exact .inl (hvoid plain_getReplicaList)
  | remove key force => exact .inl (hvoid plain_remove)
  | upsertStart key identity size config => exact .inr (.inr ⟨key, identity, size, config, rfl⟩)
  | existKey key => exact .inl (hvoid (plain_look fun _ => id))
  | evictIfNeeded => exact .inl (hvoid plain_evictIfNeeded)
  | tick => exact .inr (.inl rfl)
  | _ => cases hop

lemma steady_prog {op : MasterOp} (hop : racing op = true) (htick : op ≠ .tick) : op.prog.Every Steady := by
  rcases plain_prog hop with hplain | rfl | ⟨key, identity, size, config, rfl⟩
  · exact hplain.mono fun _ _ h => h.1
  · exact absurd rfl htick
  · exact steady_upsertStart.bind fun _ => every_pure _

lemma ticks_prog : MasterOp.tick.prog.Every Ticks := by
  refine Every.bind (every_section fun s a s' hrun => ?_) fun _ => every_pure _
  exact tick_runs s a s' (by rw [tick, run_section]; exact hrun)

lemma preparedAt_prog {op : MasterOp} (hop : racing op = true) (s : MasterService) : PreparedAt s op.prog := by
  rcases plain_prog hop with hplain | rfl | ⟨key, identity, size, config, rfl⟩
  · exact preparedAt_of_noReopen (noReopen_of_plain hplain) s
  · exact ⟨nofun, nofun, fun _ _ _ _ => ⟨nofun, trivial⟩⟩
  · exact preparedAt_upsertStart key identity size config s

lemma orderly_begin (hops : ∀ i, racing (ops i) = true) (s : MasterService) : Orderly ops (begin_ ops s) where
  steady j hj := steady_prog (hops j) hj
  ticks j hj := by
    change (ops j).prog.Every Ticks
    rw [hj]
    exact ticks_prog
  timely j key requester hj := by
    change Timely _ _ _ _ (ops j).prog
    rw [hj]
    exact timely_prog
  prepared j := preparedAt_prog (hops j) s
  vigilant j _ hj := vigilant_prog (hops j) hj

lemma Orderly.clock (ho : Orderly ops c) (h : c.Moves i c') :
    c'.shared.leaseTtl = c.shared.leaseTtl ∧ c.shared.clock ≤ c'.shared.clock ∧
      (ops i ≠ .tick → c'.shared.clock = c.shared.clock) ∧
      (ops i = .tick → c'.shared.objects = c.shared.objects) := by
  by_cases htick : ops i = .tick
  · cases h with
    | sec hi hm =>
      have hp := ho.ticks i htick
      rw [hi] at hp
      have hs' := hp.1 _ _ _ hm
      subst hs'
      exact ⟨rfl, Nat.le_succ _, fun h => absurd htick h, fun _ => rfl⟩
    | lock hi hfree => exact ⟨rfl, le_rfl, fun _ => rfl, fun _ => rfl⟩
    | unlock hi hheld => exact ⟨rfl, le_rfl, fun _ => rfl, fun _ => rfl⟩
  · cases h with
    | sec hi hm =>
      have hp := ho.steady i htick
      rw [hi] at hp
      obtain ⟨hclock, httl⟩ := hp.1 _ _ _ hm
      exact ⟨httl, hclock.ge, fun _ => hclock, fun h => absurd h htick⟩
    | lock hi hfree => exact ⟨rfl, le_rfl, fun _ => rfl, fun _ => rfl⟩
    | unlock hi hheld => exact ⟨rfl, le_rfl, fun _ => rfl, fun _ => rfl⟩

lemma Orderly.move (ho : Orderly ops c) (hok : Considerate ops c i c') (h : c.Moves i c') : Orderly ops c' := by
  obtain ⟨httl, hmono, hclock, -⟩ := ho.clock h
  refine ⟨fun j hj => ?_, fun j hj => ?_, fun j key requester hj => ?_, fun j => ?_, fun j key hj => ?_⟩
  · by_cases hji : j = i
    · exact hji ▸ h.every (hji ▸ ho.steady j hj)
    · rw [h.threads_of_ne hji]
      exact ho.steady j hj
  · by_cases hji : j = i
    · exact hji ▸ h.every (hji ▸ ho.ticks j hj)
    · rw [h.threads_of_ne hji]
      exact ho.ticks j hj
  · by_cases htick : ops i = .tick
    · -- time goes on, and no read is in progress
      have hji : j ≠ i := by
        rintro rfl
        rw [hj] at htick
        cases htick
      rw [h.threads_of_ne hji]
      rcases hok.tick htick j key requester hj with hbegin | hend
      · rw [hbegin, hj]
        exact timely_prog
      · rw [hend]
        trivial
    · rw [hclock htick, httl]
      by_cases hji : j = i
      · subst hji
        rcases Timely.moves h (ho.timely j key requester hj) with ⟨-, htimely⟩ | ⟨_, _, _, -, -, rfl⟩
        · exact htimely
        · simp only [update_self]
          trivial
      · rw [h.threads_of_ne hji]
        exact ho.timely j key requester hj
  · by_cases hji : j = i
    · exact hji ▸ (ho.prepared i).moves h
    · rw [h.threads_of_ne hji]
      refine ⟨fun key hnext => ?_, (ho.prepared j).2⟩
      by_contra hgone
      exact hok.take key ((ho.prepared j).1 key hnext) hgone j hji hnext
  · by_cases hji : j = i
    · subst hji
      exact (Vigilant.moves h (ho.vigilant j key hj)).mono hmono
    · rw [h.threads_of_ne hji]
      exact (ho.vigilant j key hj).mono hmono

lemma mem_of_shuffle {s s' : MasterService} (h : Shuffle s s') {key : ObjectKey} (hk : key ∈ s.objects) :
    key ∈ s'.objects := by
  obtain ⟨o, ho⟩ := mem_iff_exists_lookup.mp hk
  obtain ⟨o', ho', -⟩ := h.exists_lookup ho
  exact mem_iff_exists_lookup.mpr ⟨o', ho'⟩

lemma Orderly.shuffle {s' : MasterService} (ho : Orderly ops c) (h : Shuffle c.shared s') :
    Orderly ops ⟨s', c.holder, c.threads⟩ := by
  refine ⟨ho.steady, ho.ticks, fun j key requester hj => ?_, fun j => ?_, fun j key hj => ?_⟩
  · rw [h.rest]
    exact ho.timely j key requester hj
  · exact ⟨fun key hnext => mem_of_shuffle h ((ho.prepared j).1 key hnext), (ho.prepared j).2⟩
  · rw [h.rest]
    exact ho.vigilant j key hj

lemma orderly_run {ok : Config Section MasterService → ℕ → Config Section MasterService → Prop}
    (hok : ∀ c i c', ok c i c' → Considerate ops c i c') (ho : Orderly ops c)
    (hrun : ReflTransGen (Races ok) c c') : Orderly ops c' := by
  induction hrun with
  | refl => exact ho
  | tail _ hstep ih =>
    cases hstep with
    | move i hi h => exact ih.move (hok _ _ _ hi) h
    | shuffle h => exact ih.shuffle h

end orderly

/-! ## Leases -/

section safe

/-- The threads of a race, as a system that starts no further requests. -/
def raceSystem : System Section MasterService Empty where
  prog := nofun
  assume _ _ := True
  env := Shuffle

variable {ops : ℕ → MasterOp} {c c' : Config Section MasterService}
  {ok : Config Section MasterService → ℕ → Config Section MasterService → Prop}

lemma Races.step (h : Races ok c c') : Config.Step raceSystem c c' := by
  cases h with
  | move i _ h => exact h.step fun _ _ => trivial
  | shuffle h => exact .env h

lemma safe_begin (hops : ∀ i, racing (ops i) = true) {s : MasterService} (hs : Sound s.view) :
    (begin_ ops s).Safe (discipline fun _ _ => True) := by
  refine ⟨fun i => ?_, ⟨0, hs⟩, fun _ => hs⟩
  refine balanced_prog_of_ne (fun name capacity hop => ?_)
  have hi := hops i
  rw [hop] at hi
  cases hi

lemma safe_races (hc : c.Safe (discipline fun _ _ => True))
    (hrun : ReflTransGen (Races ok) c c') : c'.Safe (discipline fun _ _ => True) := by
  induction hrun with
  | refl => exact hc
  | tail _ hstep ih => exact ih.step rfl nofun (fun _ _ h => view_shuffle h) hstep.step

end safe

/-- Time that is left until `L` is time in which the object `o` of `key` is as its reader has found it, and in
which no request has decided otherwise. -/
structure Promised (ops : ℕ → MasterOp) (key : ObjectKey) (o : ObjectMetadata)
    (c : Config Section MasterService) : Prop where
  bounded : o.leaseUntil ≤ c.shared.clock + c.shared.leaseTtl
  honoured : c.shared.clock < o.leaseUntil → ∃ o', c.shared.objects.lookup key = some o' ∧ Honours o o'
  undecided : c.shared.clock < o.leaseUntil → ∀ j, minds key (ops j) → ∀ d, Undecided key d (c.threads j)

/-- A step in which no removal takes the object of `key`. -/
def Spares (ops : ℕ → MasterOp) (key : ObjectKey) (c : Config Section MasterService) (i : ℕ)
    (c' : Config Section MasterService) : Prop :=
  Considerate ops c i c' ∧
    ∀ force, ops i = .remove key force → c'.shared.objects.lookup key = c.shared.objects.lookup key

section promised

variable {ops : ℕ → MasterOp} {key : ObjectKey} {o : ObjectMetadata} {c c' : Config Section MasterService} {i : ℕ}

lemma Promised.honoured_of_read (hp : Promised ops key o c) (ho : Orderly ops c) {k : ObjectKey}
    {requester : IdentityScope} (hi : ops i = .getReplicaList k requester) (h : c.Moves i c')
    (hclock : c.shared.clock < o.leaseUntil) :
    ∃ o', c'.shared.objects.lookup key = some o' ∧ Honours o o' := by
  obtain ⟨o', ho', hhon⟩ := hp.honoured hclock
  rcases Timely.moves h (ho.timely i k requester hi) with ⟨hsame, -⟩ | ⟨alive, r, t, -, hread, rfl⟩
  · rw [hsame]
    exact ⟨o', ho', hhon⟩
  · rcases readObject_cases hread with ⟨-, rfl⟩ | ⟨_, -, -, -, rfl⟩
    · exact ⟨o', ho', hhon⟩
    · by_cases hk : key = k
      · refine ⟨{ o' with lastAccess := c.shared.clock, leaseUntil := c.shared.clock + c.shared.leaseTtl },
          ?_, hhon.footprint_eq, hhon.complete, hp.bounded⟩
        simp only [lookup_update, if_pos hk, ho', map_some]
      · refine ⟨o', ?_, hhon⟩
        simp only [lookup_update, if_neg hk, ho']

lemma Promised.move (hp : Promised ops key o c) (hc : o.hasCompleteReplica = true) (ho : Orderly ops c)
    (hspare : Spares ops key c i c') (h : c.Moves i c') : Promised ops key o c' := by
  obtain ⟨httl, hmono, -, -⟩ := ho.clock h
  have hminds : c.shared.clock < o.leaseUntil → minds key (ops i) →
      Keeps key c.shared c'.shared ∧ ∀ d, Undecided key d (c'.threads i) := fun hclock hi => by
    obtain ⟨o', ho', hhon⟩ := hp.honoured hclock
    exact Undecided.moves h (ho.vigilant i key hi)
      ⟨o', ho', hhon.hasCompleteReplica hc, hclock.trans_le hhon.leaseUntil_le⟩ (hp.undecided hclock i hi)
  refine ⟨?_, fun hclock' => ?_, fun hclock' j hj => ?_⟩
  · rw [httl]
    exact hp.bounded.trans (Nat.add_le_add_right hmono _)
  · have hclock := hmono.trans_lt hclock'
    by_cases hremove : ∃ force, ops i = .remove key force
    · obtain ⟨force, hi⟩ := hremove
      rw [hspare.2 force hi]
      exact hp.honoured hclock
    · by_cases hget : ∃ k requester, ops i = .getReplicaList k requester
      · obtain ⟨k, requester, hi⟩ := hget
        exact hp.honoured_of_read ho hi h hclock
      · obtain ⟨o', ho', hhon⟩ := hp.honoured hclock
        obtain ⟨o'', ho'', hhon'⟩ := (hminds hclock ⟨fun force hi => hremove ⟨force, hi⟩,
          fun k requester hi => hget ⟨k, requester, hi⟩⟩).1 o' ho'
        exact ⟨o'', ho'', hhon.trans hhon'⟩
  · have hclock := hmono.trans_lt hclock'
    by_cases hji : j = i
    · subst hji
      exact (hminds hclock hj).2
    · rw [h.threads_of_ne hji]
      exact hp.undecided hclock j hj

lemma Promised.shuffle {s' : MasterService} (hp : Promised ops key o c) (h : Shuffle c.shared s') :
    Promised ops key o ⟨s', c.holder, c.threads⟩ := by
  have hclock : s'.clock = c.shared.clock := by rw [h.rest]
  have httl : s'.leaseTtl = c.shared.leaseTtl := by rw [h.rest]
  refine ⟨by simpa only [hclock, httl] using hp.bounded, fun hlt => ?_, fun hlt => ?_⟩
  · obtain ⟨o', ho', hhon⟩ := hp.honoured (hclock ▸ hlt)
    obtain ⟨o'', ho'', hsame⟩ := h.exists_lookup ho'
    exact ⟨o'', ho'', hhon.trans (honours_shuffled hsame)⟩
  · exact hp.undecided (hclock ▸ hlt)

lemma promised_run (hp : Promised ops key o c) (hc : o.hasCompleteReplica = true) (ho : Orderly ops c)
    (hrun : ReflTransGen (Races (Spares ops key)) c c') : Promised ops key o c' := by
  induction hrun with
  | refl => exact hp
  | tail hrun hstep ih =>
    cases hstep with
    | move i hi h => exact ih.move hc (orderly_run (fun _ _ _ h => h.1) ho hrun) hi h
    | shuffle h => exact ih.shuffle h

lemma readObject_congr {requester : IdentityScope} {now leaseTtl now' leaseTtl' : ℕ} {alive alive' : List SegmentName}
    (h : lastSection key requester now leaseTtl alive = lastSection key requester now' leaseTtl' alive')
    (s : MasterService) :
    (readObject key requester now leaseTtl alive s.objects).map (fun r => (r.1, { s with objects := r.2 })) =
      (readObject key requester now' leaseTtl' alive' s.objects).map
        fun r => (r.1, { s with objects := r.2 }) := by
  injection h with _ _ hm _
  exact congrFun hm s

lemma promised_of_grants {requester : IdentityScope} {replicas : List Replica} (ho : Orderly ops c)
    (hok : Considerate ops c i c') (h : Grants ops c i key requester replicas c') :
    ∃ o, c'.shared.objects.lookup key = some o ∧ o.leaseUntil = c.shared.clock + c.shared.leaseTtl ∧
      o.hasCompleteReplica = true ∧ (∀ r ∈ replicas, r ∈ o.replicas.values ∧ r.isComplete = true) ∧
      Promised ops key o c' := by
  have hgrant := hok.grant key requester replicas h
  obtain ⟨hi, now, leaseTtl, alive, t, hlast, hread, rfl⟩ := h
  -- the lease begins now, because the clock has not ticked since the read has begun
  obtain ⟨alive', hread⟩ : ∃ alive', readObject key requester c.shared.clock c.shared.leaseTtl alive'
      c.shared.objects = some (.ok replicas, t) := by
    have htimely := ho.timely i key requester hi
    rw [hlast] at htimely
    rcases htimely with ⟨alive', heq⟩ | ⟨hne, -⟩
    · refine ⟨alive', ?_⟩
      have hsame := readObject_congr heq c.shared
      rw [hread, map_some] at hsame
      obtain ⟨⟨r, t'⟩, hread', hr⟩ := map_eq_some_iff.mp hsame.symm
      have hres : r = .ok replicas := congrArg Prod.fst hr
      have ht : t' = t := congrArg (fun x => x.2.objects) hr
      rw [hread', hres, ht]
    · exact absurd rfl (hne key)
  rcases readObject_cases hread with ⟨⟨e, he⟩, -⟩ | ⟨o, hlookup, hreplicas, hne, rfl⟩
  · cases he
  · cases hreplicas
    have hreplica : ∀ r ∈ o.replicas.values.filter (readable alive'), r ∈ o.replicas.values ∧ r.isComplete = true :=
      fun r hr => by
        obtain ⟨hmem, hreadable⟩ := List.mem_filter.mp hr
        exact ⟨hmem, (Bool.and_eq_true_iff.mp hreadable).1⟩
    have hfind : (c.shared.objects.update key fun o => { o with
        lastAccess := c.shared.clock, leaseUntil := c.shared.clock + c.shared.leaseTtl }).lookup key =
        some { o with lastAccess := c.shared.clock, leaseUntil := c.shared.clock + c.shared.leaseTtl } := by
      rw [lookup_update, if_pos rfl, hlookup, map_some]
    refine ⟨_, hfind, rfl, ?_, hreplica, le_rfl, fun _ => ⟨_, hfind, .refl _⟩, fun _ j hj => ?_⟩
    · obtain ⟨r, hr⟩ := List.exists_mem_of_ne_nil _ hne
      obtain ⟨hmem, hcr⟩ := hreplica r hr
      exact List.any_eq_true.mpr ⟨r, hmem, hcr⟩
    · have hji : j ≠ i := by
        rintro rfl
        exact hj.2 key requester hi
      simp only [update_of_ne hji]
      exact hgrant j hji

end promised

def reading : ℕ → MasterOp
  | 0 => .getReplicaList "x" ⟨"m", "t", none, "u"⟩
  | _ => .existKey "x"

lemma racing_reading (i : ℕ) : racing (reading i) = true := by cases i <;> rfl

lemma considerate_reading {c c' : Config Section MasterService}
    (hthreads : ∀ j, j ≠ 0 → c.threads j = (reading j).prog) : Considerate reading c 0 c' where
  tick := nofun
  grant key requester replicas _ j hj d := by
    rw [hthreads j hj]
    exact undecided_prog (racing_reading j)
  take key _ _ j hj := by
    rw [hthreads j hj]
    cases j with
    | zero => exact absurd rfl hj
    | succ j => nofun

def readerAt (s : MasterService) (p : MasterProg Unit) : Config Section MasterService :=
  ⟨s, none, Function.update (fun i => (reading i).prog) 0 p⟩

lemma readerAt_self (s : MasterService) (p : MasterProg Unit) : (readerAt s p).threads 0 = p := by
  simp only [readerAt, update_self]

lemma considerate_readerAt {s : MasterService} {p : MasterProg Unit} {c' : Config Section MasterService} :
    Considerate reading (readerAt s p) 0 c' :=
  considerate_reading fun j hj => by simp only [readerAt, update_of_ne hj]

lemma reading_step {α : Type} {s : MasterService} (f : MasterService → Option α) {g : α → MasterProg Unit} {a : α}
    (hf : f s = some a) : Races (Considerate reading) (readerAt s (read f >>= g)) (readerAt s (g a)) := by
  have hmove := Config.Moves.sec (readerAt_self s (read f >>= g)) (map_eq_some_iff.mpr ⟨a, hf, rfl⟩)
  simp only [readerAt, update_idem] at hmove
  exact .move 0 considerate_readerAt hmove

lemma reading_reaches (s : MasterService) :
    ReflTransGen (Races (Considerate reading)) (begin_ reading s)
      (readerAt s (lastSection "x" ⟨"m", "t", none, "u"⟩ s.clock s.leaseTtl
        (aliveSegments s.clock s.segmentTtl s.segmentHeartbeat))) := by
  have hbegin : begin_ reading s = readerAt s (reading 0).prog := by
    rw [readerAt, update_eq_self]
    rfl
  rw [hbegin]
  exact .head (reading_step (fun s => some s.clock) rfl) (.head (reading_step (fun s => some s.segmentTtl) rfl)
    (.head (reading_step (fun s => some (aliveSegments _ _ s.segmentHeartbeat)) rfl)
      (.single (reading_step (fun s => some s.leaseTtl) rfl))))

instance : ∀ l s, Decidable (raceSystem.assume l s) := fun _ _ => inferInstanceAs (Decidable True)

def race (schedule : List ℕ) (c : Config Section MasterService) : Option (Config Section MasterService) :=
  c.play raceSystem (schedule.map fun i => (i, none))

lemma races_of_race {ok : Config Section MasterService → ℕ → Config Section MasterService → Prop}
    {c c' : Config Section MasterService} {schedule : List ℕ} (hok : ∀ c, ∀ i ∈ schedule, ∀ c', ok c i c')
    (h : race schedule c = some c') : ReflTransGen (Races ok) c c' := by
  induction schedule generalizing c with
  | nil =>
    cases h
    exact .refl
  | cons i rest ih =>
    obtain ⟨c₁, hmove, hrest⟩ := bind_eq_some_iff.mp h
    exact .head (.move i (hok c i List.mem_cons_self c₁) (Config.moves_of_move hmove))
      (ih (fun c j hj => hok c j (List.mem_cons_of_mem _ hj)) hrest)

def stuck (c : Config Section MasterService) (i : ℕ) : Bool :=
  match c.threads i with
  | .sec _ m _ => (m c.shared).isNone
  | _ => false

def fullSegment : List MasterOp :=
  [.mountSegment "a" 96, .putStart "x" ⟨"m", "t", none, "u"⟩ 96 ⟨1, false, false, none⟩, .putEnd "x"]

/-- The first thread makes the request `op`, the second one reads the object, the third one removes it. -/
def against (op : MasterOp) : ℕ → MasterOp
  | 0 => op
  | 1 => .getReplicaList "x" ⟨"m", "t", none, "u"⟩
  | 2 => .remove "x" false
  | _ => .existKey "x"

def upsertX : MasterOp := .upsertStart "x" ⟨"m", "t", none, "u"⟩ 96 ⟨1, false, false, none⟩

/-- From the full segment, the threads race up to `c`, the read is granted in the step to `c₁`, and they race
on up to `c₂`, when the lease has not expired. -/
def Breach (op : MasterOp) (c c₁ c₂ : Config Section MasterService) : Prop :=
  ∃ s, ReflTransGen (Serves freshMounts) (new "random") s ∧
    ReflTransGen (Races fun _ _ _ => True) (begin_ (against op) s) c ∧
    (c.threads 1).next = some (.grant "x") ∧ c.Moves 1 c₁ ∧
    (c₁.shared.objects.lookup "x").map ObjectMetadata.leaseUntil = some (c.shared.clock + c.shared.leaseTtl) ∧
    ReflTransGen (Races fun _ _ _ => True) c₁ c₂ ∧ c₂.shared.clock < c.shared.clock + c.shared.leaseTtl

lemma breach_of_race (op : MasterOp) (before after : List ℕ) (bad : MasterService → Bool)
    (h : ((serveAll freshMounts fullSegment (new "random")).any fun s =>
      (race before (begin_ (against op) s)).any fun c =>
        (c.threads 1).next = some (.grant "x") ∧ (c.move raceSystem 1 none).any fun c₁ =>
          (c₁.shared.objects.lookup "x").map ObjectMetadata.leaseUntil =
              some (c.shared.clock + c.shared.leaseTtl) ∧
            (race after c₁).any fun c₂ =>
              c₂.shared.clock < c.shared.clock + c.shared.leaseTtl ∧ bad c₂.shared = true) = true) :
    ∃ c c₁ c₂, Breach op c c₁ c₂ ∧ bad c₂.shared = true := by
  obtain ⟨s, hs, h⟩ := (any_eq_true _ _).mp h
  obtain ⟨c, hc, h⟩ := (any_eq_true _ _).mp h
  obtain ⟨hnext, h⟩ := of_decide_eq_true h
  obtain ⟨c₁, hc₁, h⟩ := (any_eq_true _ _).mp h
  obtain ⟨hlease, h⟩ := of_decide_eq_true h
  obtain ⟨c₂, hc₂, h⟩ := (any_eq_true _ _).mp h
  obtain ⟨hclock, hbad⟩ := of_decide_eq_true h
  exact ⟨c, c₁, c₂, ⟨s, serves_of_serveAll hs, races_of_race (fun _ _ _ _ => trivial) hc, hnext,
    Config.moves_of_move hc₁, hlease, races_of_race (fun _ _ _ _ => trivial) hc₂, hclock⟩, hbad⟩

end QuillCache.Store.MasterService
