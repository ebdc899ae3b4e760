import QuillCache.Store.MasterRun

/-!
# What each operation does when it runs alone

One lemma per operation of `MasterService` says everything a serial run of it can do: which objects it
removes and adds, what it appends to the log, and that the view stays `Sound`. The lemmas are stated for
runs that do not panic; the theorems about runs of a whole system are derived from them, and no
operation is unfolded again.

What an operation does to the objects does not depend on the names of the segments: it is enough that each
allocator is in order (`Intact`). That the view stays `Sound` is what the discipline of the segments mutex
says (`sound_runs`).
-/

namespace QuillCache.Store.MasterService

open Lib Prog List Option
open Function hiding update
open AList hiding keys

/-- The operation, run alone from `s`, ends in `Q` unless it panics. -/
abbrev Runs {α : Type} (p : MasterProg α) (Q : α → MasterService → Prop) (s : MasterService) : Prop :=
  Pc p.run Q s

section rules

variable {α β : Type} {s : MasterService} {Q : α → MasterService → Prop}

lemma run_bind_apply (p : MasterProg α) (f : α → MasterProg β) (s : MasterService) :
    (p >>= f).run s = (p.run s).bind fun r => (f r.1).run r.2 := by
  rw [run_bind]
  rfl

lemma runs_pure {a : α} : Runs (pure a) Q s ↔ Q a s := pc_pure

lemma runs_bind {p : MasterProg α} {f : α → MasterProg β} {R : β → MasterService → Prop} :
    Runs (p >>= f) R s ↔ Runs p (fun a s' => Runs (f a) R s') s := by
  rw [Runs, run_bind]
  exact pc_bind

variable {l : Section}

lemma runs_section {m : Exec MasterService α} : Runs (section_ l m) Q s ↔ Pc m Q s := by
  rw [Runs, run_section]

lemma runs_acquire {Q : Unit → MasterService → Prop} : Runs acquire Q s ↔ Q () s := pc_pure

lemma runs_release {Q : Unit → MasterService → Prop} : Runs release Q s ↔ Q () s := pc_pure

lemma runs_onObjects {m : Exec ObjectMap α} :
    Runs (onObjects l m) Q s ↔ Pc m (fun a t => Q a { s with objects := t }) s.objects :=
  runs_section.trans pc_focus

lemma runs_onSegments {m : Exec SegmentState α} :
    Runs (onSegments m) Q s ↔ Pc m (fun a g => Q a { s with segments := g }) s.segments :=
  runs_section.trans pc_focus

lemma runs_read {f : MasterService → Option α} : Runs (look l f) Q s ↔ ∀ a, f s = some a → Q a s := by
  rw [look, runs_section]
  constructor
  · exact fun h a ha => h a s (map_eq_some_iff.mpr ⟨a, ha, rfl⟩)
  · intro h a s' hrun
    obtain ⟨b, hb, hr⟩ := map_eq_some_iff.mp hrun
    cases hr
    exact h a hb

lemma runs_update {Q : Unit → MasterService → Prop} {f : MasterService → MasterService} :
    Runs (update f) Q s ↔ Q () (f s) := by
  rw [update, runs_section]
  exact pc_modify

lemma runs_logOp {Q : Unit → MasterService → Prop} {entry : OpLogEntry} :
    Runs (logOp entry) Q s ↔ Q () { s with oplog := s.oplog.map (· ++ [entry]) } := by
  rw [logOp, runs_section]
  exact pc_modify

lemma runs_void {p : MasterProg α} {R : MasterService → Prop} :
    Runs (MasterOp.void p) (fun _ s' => R s') s ↔ Runs p (fun _ s' => R s') s := by
  rw [MasterOp.void, runs_bind]
  exact forall_congr' fun _ => forall_congr' fun _ => imp_congr_right fun _ => runs_pure

/-- The operation, run alone from `s`, does not panic and ends in `Q`. -/
abbrev Completes {α : Type} (p : MasterProg α) (Q : α → MasterService → Prop) (s : MasterService) :
    Prop := Wp p.run Q s

lemma completes_pure {a : α} : Completes (pure a) Q s ↔ Q a s := wp_pure

lemma completes_bind {p : MasterProg α} {f : α → MasterProg β} {R : β → MasterService → Prop} :
    Completes (p >>= f) R s ↔ Completes p (fun a s' => Completes (f a) R s') s := by
  rw [Completes, run_bind]
  exact wp_bind

lemma completes_acquire {Q : Unit → MasterService → Prop} : Completes acquire Q s ↔ Q () s := wp_pure

lemma completes_release {Q : Unit → MasterService → Prop} : Completes release Q s ↔ Q () s := wp_pure

lemma completes_onObjects {m : Exec ObjectMap α} :
    Completes (onObjects l m) Q s ↔ Wp m (fun a t => Q a { s with objects := t }) s.objects := by
  rw [Completes, onObjects, run_section]
  exact wp_focus

lemma completes_read {f : MasterService → Option α} : Completes (look l f) Q s ↔ ∃ a, f s = some a ∧ Q a s := by
  rw [Completes, look, run_section]
  constructor
  · rintro ⟨a, s', hrun, hq⟩
    obtain ⟨b, hb, hr⟩ := map_eq_some_iff.mp hrun
    cases hr
    exact ⟨a, hb, hq⟩
  · rintro ⟨a, ha, hq⟩
    exact ⟨a, s, map_eq_some_iff.mpr ⟨a, ha, rfl⟩, hq⟩

lemma completes_logOp {Q : Unit → MasterService → Prop} {entry : OpLogEntry} :
    Completes (logOp entry) Q s ↔ Q () { s with oplog := s.oplog.map (· ++ [entry]) } := by
  rw [Completes, logOp, run_section]
  exact wp_modify

lemma runs_now {Q : ℕ → MasterService → Prop} : Runs now Q s ↔ Q s.clock s := by
  rw [now, runs_read]
  simp

end rules

/-! ## Eviction -/

/-- The same master except for objects, ledgers and log. -/
structure Frame (s s' : MasterService) : Prop where
  fleet : SameFleet s.segments.allocators s'.segments.allocators
  strategy_eq : s'.segments.strategy = s.segments.strategy
  rest : s' = { s with objects := s'.objects, segments := s'.segments, oplog := s'.oplog }

lemma Frame.clock_eq {s s' : MasterService} (h : Frame s s') : s'.clock = s.clock := by
  rw [h.rest]

lemma Frame.trans {s₁ s₂ s₃ : MasterService} (h₁ : Frame s₁ s₂) (h₂ : Frame s₂ s₃) : Frame s₁ s₃ := by
  refine ⟨h₁.fleet.trans h₂.fleet, h₂.strategy_eq.trans h₁.strategy_eq, ?_⟩
  rw [h₂.rest, h₁.rest]

/-- The objects `ks` were evicted, each with a log entry. -/
structure Evicts (s : MasterService) (ks : List ObjectKey) (s' : MasterService) : Prop where
  frame : Frame s s'
  lookup_eq : ∀ k, s'.objects.lookup k = if k ∈ ks then none else s.objects.lookup k
  victim : ∀ k ∈ ks, ∃ o, s.objects.lookup k = some o ∧ evictable s.clock o = true
  nodup : ks.Nodup
  oplog_eq : s'.oplog = s.oplog.map (· ++ ks.map .removed)
  nextReplicaId_eq : s'.segments.nextReplicaId = s.segments.nextReplicaId

section

variable {s s' : MasterService}

lemma Frame.refl (s : MasterService) : Frame s s := ⟨SameFleet.refl _, rfl, rfl⟩

lemma Evicts.nil (h : Frame s s') (hobjects : s'.objects = s.objects) (hoplog : s'.oplog = s.oplog)
    (hnext : s'.segments.nextReplicaId = s.segments.nextReplicaId) : Evicts s [] s' :=
  ⟨h, by simp [hobjects], by simp, nodup_nil, by simp [hoplog], hnext⟩

lemma Evicts.refl (s : MasterService) : Evicts s [] s := .nil (.refl s) rfl rfl rfl

lemma Evicts.trans {s₁ s₂ s₃ : MasterService} {ks₁ ks₂ : List ObjectKey} (h₁ : Evicts s₁ ks₁ s₂)
    (h₂ : Evicts s₂ ks₂ s₃) : Evicts s₁ (ks₁ ++ ks₂) s₃ := by
  have hvictim : ∀ k ∈ ks₂, k ∉ ks₁ ∧ ∃ o, s₁.objects.lookup k = some o ∧ evictable s₁.clock o = true := by
    intro k hk
    obtain ⟨o, ho, hev⟩ := h₂.victim k hk
    rw [h₁.lookup_eq] at ho
    split_ifs at ho with hmem
    rw [h₁.frame.clock_eq] at hev
    exact ⟨hmem, o, ho, hev⟩
  refine ⟨h₁.frame.trans h₂.frame, fun k => ?_, fun k hk => ?_, ?_, ?_,
    h₂.nextReplicaId_eq.trans h₁.nextReplicaId_eq⟩
  · rw [h₂.lookup_eq, h₁.lookup_eq]
    by_cases hk₁ : k ∈ ks₁ <;> by_cases hk₂ : k ∈ ks₂ <;> simp [hk₁, hk₂]
  · rcases mem_append.mp hk with hk | hk
    · exact h₁.victim k hk
    · exact (hvictim k hk).2
  · exact nodup_append.mpr ⟨h₁.nodup, h₂.nodup, fun a ha b hb hab =>
      (hvictim b hb).1 (hab ▸ ha)⟩
  · rw [h₂.oplog_eq, h₁.oplog_eq, Option.map_map, map_append]
    refine congrArg (fun f => s₁.oplog.map f) (funext fun log => ?_)
    simp

lemma mem_victims {now : ℕ} {t : ObjectMap} {k : ObjectKey} :
    k ∈ victims now t ↔ ∃ o, t.lookup k = some o ∧ evictable now o = true := by
  simp only [victims, List.mem_map, mem_insertionSort, mem_filter]
  constructor
  · rintro ⟨_, ⟨e, ⟨he, hev⟩, rfl⟩, rfl⟩
    exact ⟨e.2, mem_lookup_iff.mpr he, hev⟩
  · rintro ⟨o, ho, hev⟩
    exact ⟨_, ⟨⟨k, o⟩, ⟨mem_lookup_iff.mp ho, hev⟩, rfl⟩, rfl⟩

variable {o : ObjectMetadata}

lemma sound_runs {α : Type} {p : MasterProg α} (hp : Balanced (fun _ _ => True) p)
    (hs : Sound s.view) : Runs p (fun _ s' => Sound s'.view) s :=
  hp.run (fun _ _ => trivial) hs

lemma sound_runs_held {α : Type} {p : MasterProg α} {v : View} (hp : p.Guarded (discipline fun _ _ => True)
    (fun _ h => ∃ v', h = some v' ∧ Sound v' ∧ Shrunk v v') (some s.view)) : Runs p (fun _ s' => Sound s'.view) s := by
  intro r s' hrun
  obtain ⟨_, ⟨v', rfl, hsound, -⟩, hview, -⟩ :=
    hp.run_from (fun _ _ => trivial) (by simp [discipline]) (by simp) r s' hrun
  have hview : s'.view = v' := hview v' rfl
  rwa [hview]

lemma Runs.sound {α : Type} {p : MasterProg α} {Q : α → MasterService → Prop} (h : Runs p Q s)
    (hp : Balanced (fun _ _ => True) p) (hs : Sound s.view) : Runs p (fun r s' => Sound s'.view ∧ Q r s') s :=
  fun r s' hrun => ⟨sound_runs hp hs r s' hrun, h r s' hrun⟩

def Intact (s : MasterService) : Prop := ∀ a ∈ s.segments.allocators, a.Valid False

variable {key : ObjectKey}

lemma freeObject_completes (hs : Intact s) :
    Completes (freeObject o) (fun _ s' => Intact s' ∧ Frame s s' ∧ s'.objects = s.objects ∧
      s'.oplog = s.oplog ∧ s'.segments.nextReplicaId = s.segments.nextReplicaId) s := by
  rw [Completes, freeObject, onSegments, run_section, wp_focus, SegmentState.freeReplicas,
    SegmentState.onAllocators, wp_focus]
  refine (freeEach_valid hs).mono ?_
  rintro _ as ⟨hvalid, hsame⟩
  exact ⟨hvalid, ⟨hsame, rfl, rfl⟩, rfl, rfl, rfl⟩

def evictObject (key : ObjectKey) : MasterProg Unit := do
  match ← onObjects (.evict key) (takeObject key) with
  | none => return ()
  | some o => do
    freeObject o
    logOp (.removed key)

def evictEach : List ObjectKey → MasterProg Unit
  | [] => return ()
  | key :: keys => do
    evictObject key
    evictEach keys

lemma Evicts.one {s₁ : MasterService} (ho : s.objects.lookup key = some o) (hev : evictable s.clock o = true)
    (hframe : Frame { s with objects := s.objects.erase key } s₁) (hobjects : s₁.objects = s.objects.erase key)
    (hoplog : s₁.oplog = s.oplog) (hnext : s₁.segments.nextReplicaId = s.segments.nextReplicaId) :
    Evicts s [key] { s₁ with oplog := s₁.oplog.map (· ++ [.removed key]) } := by
  refine ⟨⟨hframe.fleet, hframe.strategy_eq, ?_⟩, fun k => ?_, ?_, nodup_singleton _, ?_, hnext⟩
  · rw [hframe.rest]
  · simp only [hobjects, mem_singleton]
    split_ifs with hk
    · rw [hk, lookup_erase]
    · exact lookup_erase_ne hk
  · rintro k hk
    rw [mem_singleton.mp hk]
    exact ⟨o, ho, hev⟩
  · simp [hoplog]

lemma evictObject_completes (hs : Intact s) (ho : s.objects.lookup key = some o)
    (hev : evictable s.clock o = true) :
    Completes (evictObject key) (fun _ s' => Intact s' ∧ Evicts s [key] s') s := by
  rw [evictObject, completes_bind, completes_onObjects]
  refine ⟨_, _, rfl, ?_⟩
  rw [ho]
  have hs' : Intact { s with objects := s.objects.erase key } := hs
  refine completes_bind.mpr ((freeObject_completes hs').mono ?_)
  rintro _ s₁ ⟨hintact, hframe, hobjects, hoplog, hnext⟩
  rw [completes_logOp]
  exact ⟨hintact, .one ho hev hframe hobjects hoplog hnext⟩

variable {goal : SegmentState → Option Bool} {keys : List ObjectKey}

lemma evictLoop_cons {n : ℕ} (ho : s.objects.lookup key = some o) :
    (evictLoop goal n (key :: keys)).run s = (goal s.segments).bind fun stop =>
      if stop then some (n, s)
      else ((evictObject key).run s).bind fun r => (evictLoop goal (n + 1) keys).run r.2 := by
  have htake : (onObjects (.evict key) (takeObject key)).run s =
      some (some o, { s with objects := s.objects.erase key }) := by
    rw [onObjects, run_section, focus, takeObject, ho]
    rfl
  have hread : (look .silent fun s => goal s.segments).run s = (goal s.segments).map fun stop => (stop, s) := by
    rw [look, run_section]
  rw [evictLoop, run_bind_apply, hread, bind_map]
  refine congrArg (goal s.segments).bind (funext fun stop => ?_)
  cases stop with
  | true => rfl
  | false =>
    simp only [comp_apply, Bool.false_eq_true, if_false, evictObject, run_bind_apply, htake,
      bind_some, bind_assoc]

/-- The objects `keys` are evicted in turn, up to the first point at which `goal` is met. -/
structure Stops (goal : SegmentState → Option Bool) (s : MasterService) (keys : List ObjectKey) (count : ℕ)
    (s' : MasterService) : Prop where
  count_le : count ≤ keys.length
  run_eq : (evictEach (keys.take count)).run s = some ((), s')
  before : ∀ n < count, ∃ t, (evictEach (keys.take n)).run s = some ((), t) ∧ goal t.segments = some false
  reached : count < keys.length → goal s'.segments = some true

lemma Stops.zero (h : 0 < keys.length → goal s.segments = some true) : Stops goal s keys 0 s :=
  ⟨Nat.zero_le _, rfl, fun n hn => absurd hn (Nat.not_lt_zero n), h⟩

lemma Stops.cons {count : ℕ} {s₁ : MasterService} (hrun : (evictObject key).run s = some ((), s₁))
    (hgoal : goal s.segments = some false) (h : Stops goal s₁ keys count s') :
    Stops goal s (key :: keys) (count + 1) s' := by
  have hcons : ∀ ks t, (evictEach ks).run s₁ = some ((), t) → (evictEach (key :: ks)).run s = some ((), t) := by
    intro ks t ht
    rw [evictEach, run_bind]
    exact bind_eq_some.mpr ⟨(), s₁, hrun, ht⟩
  refine ⟨Nat.succ_le_succ h.count_le, hcons _ _ h.run_eq, fun n hn => ?_, fun hlt =>
    h.reached (Nat.lt_of_succ_lt_succ hlt)⟩
  cases n with
  | zero => exact ⟨s, rfl, hgoal⟩
  | succ n =>
    obtain ⟨t, ht, hfalse⟩ := h.before n (Nat.lt_of_succ_lt_succ hn)
    exact ⟨t, hcons _ _ ht, hfalse⟩

lemma evicts_rest (h : Evicts s [key] s') (hnodup : (key :: keys).Nodup)
    (hkeys : ∀ k ∈ key :: keys, ∃ o, s.objects.lookup k = some o ∧ evictable s.clock o = true) :
    ∀ k ∈ keys, ∃ o, s'.objects.lookup k = some o ∧ evictable s'.clock o = true := by
  intro k hk
  rw [h.lookup_eq, h.frame.clock_eq, if_neg]
  · exact hkeys k (mem_cons_of_mem _ hk)
  · intro hmem
    exact (nodup_cons.mp hnodup).1 (mem_singleton.mp hmem ▸ hk)

lemma evictLoop_stops {n : ℕ} (hs : Intact s) (hnodup : keys.Nodup)
    (hkeys : ∀ k ∈ keys, ∃ o, s.objects.lookup k = some o ∧ evictable s.clock o = true) :
    Runs (evictLoop goal n keys) (fun m s' => Intact s' ∧
      ∃ count, m = n + count ∧ Stops goal s keys count s' ∧ Evicts s (keys.take count) s') s := by
  induction keys generalizing n s with
  | nil => exact runs_pure.mpr ⟨hs, 0, rfl, .zero fun h => absurd h (Nat.lt_irrefl 0), .refl s⟩
  | cons key keys ih =>
    obtain ⟨o, ho, hev⟩ := hkeys key mem_cons_self
    obtain ⟨_, s₁, hrun₁, hintact, hevicts⟩ := evictObject_completes hs ho hev
    intro m s' hrun
    rw [evictLoop_cons ho] at hrun
    obtain ⟨stop, hgoal, hrun⟩ := bind_eq_some_iff.mp hrun
    cases stop with
    | true =>
      cases hrun
      exact ⟨hs, 0, rfl, .zero fun _ => hgoal, .refl s⟩
    | false =>
      rw [if_neg Bool.false_ne_true, hrun₁, bind_some] at hrun
      obtain ⟨hintact', count, rfl, hstops, hevicts'⟩ := ih hintact (nodup_cons.mp hnodup).2 (evicts_rest hevicts hnodup hkeys) _ _ hrun
      exact ⟨hintact', count + 1, by omega, hstops.cons hrun₁ hgoal, hevicts.trans hevicts'⟩

lemma victims_perm (now : ℕ) (t : ObjectMap) :
    (victims now t).Perm ((t.entries.filter fun e => evictable now e.2).map Sigma.fst) := by
  have hperm := ((t.entries.filter fun e => evictable now e.2).map
    fun e => (e.1, e.2.lastAccess, e.2.softPinned)).perm_insertionSort colder
  have hmap := hperm.map Prod.fst
  rwa [List.map_map] at hmap

lemma victims_nodup (now : ℕ) (t : ObjectMap) : (victims now t).Nodup := by
  rw [(victims_perm now t).nodup_iff]
  exact t.nodupKeys.sublist filter_sublist

def Pass (goal : SegmentState → Option Bool) (s : MasterService) (count : ℕ) (s' : MasterService) : Prop :=
  Stops goal s (victims s.clock s.objects) count s' ∧ Evicts s ((victims s.clock s.objects).take count) s'

lemma victims_pass (hs : Intact s) :
    Runs (do let keys ← victimsColdestFirst; evictLoop goal 0 keys)
      (fun count s' => Intact s' ∧ Pass goal s count s') s := by
  rw [runs_bind, victimsColdestFirst, runs_bind, runs_now, runs_read]
  rintro keys hkeys
  cases hkeys
  refine (evictLoop_stops hs (victims_nodup _ _) fun k hk => mem_victims.mp hk).mono ?_
  rintro _ s' ⟨hs', count, rfl, hstops, hevicts⟩
  rw [Nat.zero_add]
  exact ⟨hs', hstops, hevicts⟩

lemma evictIfNeededLocked_pass (hs : Intact s) :
    Runs evictIfNeededLocked (fun count s' => Intact s' ∧
      ((evictionDue s = some none ∧ count = 0 ∧ s' = s) ∨
        ∃ target, evictionDue s = some (some target) ∧ Pass (downTo target) s count s')) s := by
  rw [evictIfNeededLocked, runs_bind, runs_read]
  intro due hdue
  cases due with
  | none => exact runs_pure.mpr ⟨hs, .inl ⟨hdue, rfl, rfl⟩⟩
  | some target =>
    refine (victims_pass hs).mono fun count s' hpass => ⟨hpass.1, .inr ⟨target, hdue, hpass.2⟩⟩

lemma evictIfNeeded_pass (hs : Intact s) :
    Runs evictIfNeeded (fun count s' => Intact s' ∧
      ((evictionDue s = some none ∧ count = 0 ∧ s' = s) ∨
        ∃ target, evictionDue s = some (some target) ∧ Pass (downTo target) s count s')) s := by
  rw [evictIfNeeded, runs_bind, runs_acquire, runs_bind]
  refine (evictIfNeededLocked_pass hs).mono fun count s' hpass => ?_
  rwa [runs_bind, runs_release, runs_pure]

lemma evictIfNeeded_runs (hs : Sound s.view) :
    Runs evictIfNeeded (fun _ s' => Sound s'.view ∧ ∃ ks, Evicts s ks s') s := by
  refine ((evictIfNeeded_pass hs.fleet.valid).sound balanced_evictIfNeeded hs).mono ?_
  rintro _ s' ⟨hsound, -, ⟨-, -, rfl⟩ | ⟨target, -, hpass⟩⟩
  · exact ⟨hsound, [], .refl s'⟩
  · exact ⟨hsound, _, hpass.2⟩

/-! ## Allocation -/

structure Grant (size replicaNum : ℕ) (bs : List AllocatedBuffer) : Prop where
  length_eq : bs.length = replicaNum
  size_eq : ∀ b ∈ bs, b.size = size
  names_nodup : (bs.map AllocatedBuffer.segmentName).Nodup

/-- No object needs to go for this request: no watermark pass is due, and enough segments fit. -/
def HasRoom (s : MasterService) (size replicaNum : ℕ) : Prop :=
  evictionDue s = some none ∧ Fits s.segments.allocators size replicaNum

instance (s : MasterService) (size replicaNum : ℕ) : Decidable (HasRoom s size replicaNum) :=
  inferInstanceAs (Decidable (_ ∧ _))

lemma askStrategy_intact {size replicaNum : ℕ} {preferred : Option SegmentName} (hs : Intact s) :
    Runs (onSegments (askStrategy size replicaNum preferred)) (fun r s' => Intact s' ∧ Evicts s [] s' ∧
      ((∃ bs, r = .ok bs ∧ bs.length = replicaNum ∧ ∀ b ∈ bs, b.size = size) ∨
        (r = .error .noAvailableSegment ∧ s' = s ∧
          ¬(0 < size ∧ replicaNum ≤ s.segments.allocators.countP (offers size []))))) s := by
  have hspec := s.segments.strategy.allocate_exact size replicaNum preferred [] hs
  refine runs_onSegments.mpr ?_
  change Pc (SegmentState.onAllocators _) _ s.segments
  refine pc_focus.mpr (hspec.pc.mono ?_)
  rintro r as (⟨bs, is, rfl, -, hlen, hvalid, hsame, -, hsizes, -⟩ | ⟨rfl, hno, rfl⟩)
  · exact ⟨hvalid, .nil ⟨hsame, rfl, rfl⟩ rfl rfl rfl, .inl ⟨bs, rfl, hlen, hsizes⟩⟩
  · exact ⟨hs, .refl s, .inr ⟨rfl, rfl, hno⟩⟩

/-- The segments cannot take the replicas, and the eviction for them has freed as many bytes as they need, or
all it could. -/
def Short (size replicaNum : ℕ) (s : MasterService) : Prop :=
  ¬(0 < size ∧ replicaNum ≤ s.segments.allocators.countP (offers size [])) ∧
    (freed (min (size * replicaNum) (2 ^ 64 - 1)) s.segments = some true ∨
      ∀ k o, s.objects.lookup k = some o → evictable s.clock o = false)

lemma Pass.done {count : ℕ} (h : Pass goal s count s') :
    goal s'.segments = some true ∨ ∀ k o, s'.objects.lookup k = some o → evictable s'.clock o = false := by
  obtain ⟨hstops, hevicts⟩ := h
  rcases hstops.count_le.lt_or_eq with hlt | heq
  · exact Or.inl (hstops.reached hlt)
  · refine .inr fun k o ho => ?_
    rw [heq, take_length] at hevicts
    rw [hevicts.lookup_eq] at ho
    split_ifs at ho with hk
    rw [hevicts.frame.clock_eq]
    by_contra hev
    exact hk (mem_victims.mpr ⟨o, ho, by simpa using hev⟩)

lemma allocateReplicas_intact {size replicaNum : ℕ} {preferred : Option SegmentName} (hs : Intact s) :
    Runs (allocateReplicas size replicaNum preferred) (fun r s' => Intact s' ∧
      (∃ ks, Evicts s ks s' ∧ (HasRoom s size replicaNum → ks = [])) ∧
      ((∃ bs, r = .ok bs ∧ bs.length = replicaNum ∧ ∀ b ∈ bs, b.size = size) ∨
        (r = .error .noAvailableSegment ∧ Short size replicaNum s'))) s := by
  rw [allocateReplicas, runs_bind]
  refine (evictIfNeededLocked_pass hs).mono ?_
  rintro _ s₁ ⟨hs₁, hpass₁⟩
  have hks₁ : ∃ ks, Evicts s ks s₁ ∧ (evictionDue s = some none → ks = [] ∧ s₁ = s) := by
    rcases hpass₁ with ⟨-, -, rfl⟩ | ⟨target, hdue, hpass⟩
    · exact ⟨[], .refl s₁, fun _ => ⟨rfl, rfl⟩⟩
    · refine ⟨_, hpass.2, fun hnone => ?_⟩
      rw [hdue] at hnone
      cases hnone
  obtain ⟨ks₁, hks₁, hidle⟩ := hks₁
  rw [runs_bind]
  refine (askStrategy_intact hs₁).mono ?_
  rintro _ s₂ ⟨hs₂, hks₂, ⟨bs, rfl, hbs⟩ | ⟨rfl, rfl, hno⟩⟩
  · refine runs_pure.mpr ⟨hs₂, ⟨_, hks₁.trans hks₂, fun hroom => ?_⟩, .inl ⟨bs, rfl, hbs⟩⟩
    rw [append_nil]
    exact (hidle hroom.1).1
  have hfull : ¬HasRoom s size replicaNum := by
    rintro ⟨hdue, hfits⟩
    rw [(hidle hdue).2] at hno
    exact hno ((fits_iff hs).mp hfits)
  dsimp only
  rw [runs_bind]
  refine (victims_pass hs₂).mono ?_
  rintro _ s₃ ⟨hs₃, hpass₃⟩
  refine (askStrategy_intact hs₃).mono ?_
  rintro _ s₄ ⟨hs₄, hks₄, ⟨bs, rfl, hbs⟩ | ⟨rfl, rfl, hno⟩⟩
  · exact ⟨hs₄, ⟨_, (hks₁.trans hpass₃.2).trans hks₄, fun hroom => absurd hroom hfull⟩, .inl ⟨bs, rfl, hbs⟩⟩
  · exact ⟨hs₄, ⟨_, hks₁.trans hpass₃.2, fun hroom => absurd hroom hfull⟩, .inr ⟨rfl, hno, hpass₃.done⟩⟩

/-! ## Two-phase put -/

/-- Only `key` and the evicted objects `ks` have changed. -/
structure PutFrame (s : MasterService) (key : ObjectKey) (ks : List ObjectKey) (s' : MasterService) :
    Prop where
  frame : Frame s s'
  lookup_ne : ∀ k, k ≠ key → s'.objects.lookup k = if k ∈ ks then none else s.objects.lookup k
  victim : ∀ k ∈ ks, k ≠ key ∧ ∃ o, s.objects.lookup k = some o ∧ evictable s.clock o = true
  nodup : ks.Nodup
  oplog_eq : s'.oplog = s.oplog.map (· ++ ks.map .removed)

/-- A new object for the granted buffers `bs`, with ids from `n` on. -/
structure Fresh (identity : IdentityScope) (config : ReplicateConfig) (clock n : ℕ)
    (bs : List AllocatedBuffer) (o : ObjectMetadata) : Prop where
  footprint_eq : o.footprint = granted n bs
  initialized : ∀ r ∈ o.replicas.values, r.status = .initialized
  identity_eq : o.identity = identity
  leaseUntil_eq : o.leaseUntil = 0
  lastAccess_eq : o.lastAccess = clock
  softPinned_eq : o.softPinned = config.withSoftPin
  hardPinned_eq : o.hardPinned = config.withHardPin

variable {config : ReplicateConfig}

lemma Fresh.hasCompleteReplica {identity : IdentityScope} {clock n : ℕ} {bs : List AllocatedBuffer}
    (h : Fresh identity config clock n bs o) : o.hasCompleteReplica = false := by
  rw [ObjectMetadata.hasCompleteReplica, List.any_eq_false]
  intro r hr
  simp [Replica.isComplete, h.initialized r hr]

def isComplete (s : MasterService) (key : ObjectKey) : Bool :=
  (s.objects.lookup key).any ObjectMetadata.hasCompleteReplica

/-- The object under `key` was dropped, and `entries` were logged. -/
structure Drops (s : MasterService) (key : ObjectKey) (entries : List OpLogEntry)
    (s' : MasterService) : Prop where
  frame : Frame s s'
  objects_eq : s'.objects = s.objects.erase key
  oplog_eq : s'.oplog = s.oplog.map (· ++ entries)
  nextReplicaId_eq : s'.segments.nextReplicaId = s.segments.nextReplicaId

lemma freeLeftover_intact (hs : Intact s) (key : ObjectKey) :
    Runs (freeLeftover (s.objects.lookup key)) (fun _ s' => Intact s' ∧ Drops s key [] s' ∧
      (s.objects.lookup key = none → s' = s)) { s with objects := s.objects.erase key } := by
  cases ho : s.objects.lookup key with
  | none =>
    rw [freeLeftover, runs_pure]
    have hsame : ({ s with objects := s.objects.erase key } : MasterService) = s := by
      rw [erase_of_notMem (lookup_eq_none.mp ho)]
    exact ⟨hs, ⟨⟨SameFleet.refl _, rfl, rfl⟩, rfl, by simp, rfl⟩, fun _ => hsame⟩
  | some o =>
    have hs' : Intact { s with objects := s.objects.erase key } := hs
    refine (freeObject_completes hs').pc.mono ?_
    rintro _ s' ⟨hintact, hframe, hobjects, hoplog, hnext⟩
    refine ⟨hintact, ⟨⟨hframe.fleet, hframe.strategy_eq, ?_⟩, hobjects, ?_, hnext⟩, by simp⟩
    · rw [hframe.rest]
    · simp [hoplog]

lemma freeLeftover_runs (hs : Sound s.view) (key : ObjectKey) :
    Runs (freeLeftover (s.objects.lookup key)) (fun _ s' => Sound s'.view ∧ Drops s key [] s')
      { s with objects := s.objects.erase key } := by
  intro r s' hrun
  exact ⟨sound_runs_held (held_freeLeftover (Owes.takeOut hs key)) r s' hrun,
    (freeLeftover_intact hs.fleet.valid key r s' hrun).2.1⟩

lemma Drops.evicts {s₁ s₂ : MasterService} {ks : List ObjectKey} (h₁ : Drops s key [] s₁) (h₂ : Evicts s₁ ks s₂) :
    PutFrame s key ks s₂ ∧ s₂.objects.lookup key = none ∧
      s₂.segments.nextReplicaId = s.segments.nextReplicaId := by
  have hne : ∀ k ∈ ks, k ≠ key := by
    rintro k hk rfl
    obtain ⟨o, ho, -⟩ := h₂.victim k hk
    rw [h₁.objects_eq, lookup_erase] at ho
    cases ho
  refine ⟨⟨h₁.frame.trans h₂.frame, fun k hk => ?_, fun k hk => ?_, h₂.nodup, ?_⟩, ?_,
    h₂.nextReplicaId_eq.trans h₁.nextReplicaId_eq⟩
  · rw [h₂.lookup_eq, h₁.objects_eq, lookup_erase_ne hk]
  · obtain ⟨o, ho, hev⟩ := h₂.victim k hk
    rw [h₁.objects_eq, lookup_erase_ne (hne k hk)] at ho
    rw [h₁.frame.clock_eq] at hev
    exact ⟨hne k hk, o, ho, hev⟩
  · rw [h₂.oplog_eq, h₁.oplog_eq, Option.map_map]
    simp [comp_def]
  · rw [h₂.lookup_eq, h₁.objects_eq, lookup_erase, ite_self]

/-- What a `put_start` that was not refused at once did. -/
def Started (s : MasterService) (key : ObjectKey) (identity : IdentityScope) (size : ℕ)
    (config : ReplicateConfig) (r : Except ErrorCode (List AllocatedBuffer)) (s' : MasterService) : Prop :=
  match r with
  | .ok bs => Grant size config.replicaNum bs ∧
      (∃ o, s'.objects.lookup key = some o ∧
        Fresh identity config s.clock s.segments.nextReplicaId bs o) ∧
      s'.segments.nextReplicaId = s.segments.nextReplicaId + bs.length
  | .error _ => s'.objects.lookup key = none ∧
      s'.segments.nextReplicaId = s.segments.nextReplicaId

/-- What a `put_start` that was not refused at once did, whatever is mounted. -/
def Begun (s : MasterService) (key : ObjectKey) (identity : IdentityScope) (size : ℕ)
    (config : ReplicateConfig) (r : Except ErrorCode (List AllocatedBuffer)) (s' : MasterService) : Prop :=
  (∃ bs o, r = .ok bs ∧ bs.length = config.replicaNum ∧ (∀ b ∈ bs, b.size = size) ∧
      s'.objects.lookup key = some o ∧ Fresh identity config s.clock s.segments.nextReplicaId bs o) ∨
    (r = .error .noAvailableSegment ∧ s'.objects.lookup key = none ∧ Short size config.replicaNum s')

/-- What `put_start` does, whatever is mounted: refuse a readable key, or reclaim the key, evict some objects
and record a new object for the buffers that the strategy grants. -/
theorem putStart_spec {identity : IdentityScope} {size : ℕ} (hs : Intact s) :
    Runs (putStart key identity size config) (fun r s' => Intact s' ∧
      ((r = .error .objectAlreadyExists ∧ s' = s ∧ s.isComplete key = true) ∨
        (s.isComplete key = false ∧ (∃ ks, PutFrame s key ks s' ∧
          (s.objects.lookup key = none → HasRoom s size config.replicaNum → ks = [])) ∧
          Begun s key identity size config r s' ∧
          s'.segments.nextReplicaId = s.segments.nextReplicaId + (r.toOption.getD []).length))) s := by
  rw [putStart, runs_bind, runs_acquire, runs_bind, runs_onObjects]
  intro r t hrun
  rw [takeLeftover] at hrun
  split_ifs at hrun with hcomplete
  · cases hrun
    rw [runs_bind, runs_release, runs_pure]
    exact ⟨hs, .inl ⟨rfl, rfl, hcomplete⟩⟩
  cases hrun
  have hnot : s.isComplete key = false := by simpa [isComplete] using hcomplete
  rw [runs_bind]
  refine (freeLeftover_intact hs key).mono ?_
  rintro _ s₁ ⟨hs₁, hdrops, hsame⟩
  rw [runs_bind]
  refine (allocateReplicas_intact hs₁).mono ?_
  rintro _ s₂ ⟨hs₂, ⟨ks, hevicts, hroom⟩, hanswer⟩
  obtain ⟨hframe, hnone, hnext⟩ := hdrops.evicts hevicts
  have hroom' : s.objects.lookup key = none → HasRoom s size config.replicaNum → ks = [] :=
    fun habsent h => hroom ((hsame habsent).symm ▸ h)
  rcases hanswer with ⟨bs, rfl, hlen, hsizes⟩ | ⟨rfl, hshort⟩
  · dsimp only
    rw [runs_bind, runs_onSegments]
    refine (assignIds_empty bs s₂.segments).mono ?_
    rintro rs g ⟨rfl, -, hinit, hfp⟩
    rw [hnext] at hfp
    rw [runs_bind, runs_now, insertObject, runs_bind, runs_onObjects]
    rintro _ t hrun
    cases hrun
    rw [runs_bind, runs_release, runs_pure]
    refine ⟨hs₂, .inr ⟨hnot, ⟨ks, ⟨⟨hframe.frame.fleet, hframe.frame.strategy_eq, ?_⟩, fun k hk => ?_,
      hframe.victim, hframe.nodup, hframe.oplog_eq⟩, hroom'⟩, .inl ⟨bs, _, rfl, hlen, hsizes,
      lookup_insert _, hfp, hinit, rfl, rfl, hframe.frame.clock_eq, rfl, rfl⟩,
      congrArg (· + bs.length) hnext⟩⟩
    · rw [hframe.frame.rest]
    · rw [← hframe.lookup_ne k hk]
      exact lookup_insert_ne hk
  · dsimp only
    rw [runs_bind, runs_release, runs_pure]
    exact ⟨hs₂, .inr ⟨hnot, ⟨ks, hframe, hroom'⟩, .inr ⟨rfl, hnone, hshort⟩, hnext⟩⟩

theorem putStart_runs {identity : IdentityScope} {size : ℕ} (hs : Sound s.view) :
    Runs (putStart key identity size config) (fun r s' => Sound s'.view ∧
      ((r = .error .objectAlreadyExists ∧ s' = s ∧ s.isComplete key = true) ∨
        (s.isComplete key = false ∧ ∃ ks, PutFrame s key ks s' ∧
          (s.objects.lookup key = none → HasRoom s size config.replicaNum → ks = []) ∧
          Started s key identity size config r s'))) s := by
  refine ((putStart_spec hs.fleet.valid).sound (balanced_putStart key identity size config) hs).mono ?_
  rintro r s' ⟨hsound, -, hrefused | ⟨hopen, ⟨ks, hframe, hroom⟩, hbegun, hnext⟩⟩
  · exact ⟨hsound, .inl hrefused⟩
  refine ⟨hsound, .inr ⟨hopen, ks, hframe, hroom, ?_⟩⟩
  rcases hbegun with ⟨bs, o, rfl, hlen, hsizes, ho, hfresh⟩ | ⟨rfl, hnone, -⟩
  · -- the replicas of an object are on different segments
    have hnames := (hsound.ok _ (mem_footprints_of_lookup ho)).distinct
    rw [hfresh.footprint_eq, granted_buffers, Multiset.map_coe, Multiset.coe_nodup] at hnames
    exact ⟨⟨hlen, hsizes, hnames⟩, ⟨o, ho, hfresh⟩, hnext⟩
  · exact ⟨hnone, hnext⟩

/-- What `put_end` does; it never panics. -/
theorem putEnd_completes (key : ObjectKey) (s : MasterService) :
    Completes (putEnd key) (fun r s' =>
      (s.objects.lookup key = none ∧ r = .error .objectNotFound ∧ s' = s) ∨
      (∃ o, s.objects.lookup key = some o ∧ r = .ok () ∧ s' = { s with
        objects := s.objects.update key (·.withStatus .complete)
        oplog := s.oplog.map (· ++ [commitEntry key (o.withStatus .complete)]) })) s := by
  rw [putEnd, completes_bind, completes_read]
  refine ⟨_, rfl, ?_⟩
  rw [completes_bind, completes_onObjects]
  refine ⟨_, _, rfl, ?_⟩
  cases ho : s.objects.lookup key with
  | none =>
    refine completes_pure.mpr (.inl ⟨rfl, rfl, ?_⟩)
    rw [update_of_notMem (lookup_eq_none.mp ho)]
  | some o =>
    rw [map_some]
    refine completes_bind.mpr ?_
    cases hlog : s.oplog with
    | none => exact completes_pure.mpr (completes_pure.mpr (.inr ⟨o, rfl, rfl, rfl⟩))
    | some log => exact completes_logOp.mpr (completes_pure.mpr (.inr ⟨o, rfl, rfl, rfl⟩))

/-- What `put_revoke` does, whatever is mounted. -/
theorem putRevoke_intact (hs : Intact s) :
    Runs (putRevoke key) (fun r s' => Intact s' ∧
      ((s.objects.lookup key = none ∧ r = .error .objectNotFound ∧ s' = s) ∨
        (∃ o, s.objects.lookup key = some o ∧ r = .ok () ∧ Drops s key [] s'))) s := by
  rw [putRevoke, runs_bind, runs_acquire, runs_bind, runs_onObjects]
  rintro r t hrun
  cases hrun
  have hfree := freeLeftover_intact hs key
  cases ho : s.objects.lookup key with
  | none =>
    rw [runs_bind, runs_release, runs_pure, erase_of_notMem (lookup_eq_none.mp ho)]
    exact ⟨hs, .inl ⟨rfl, rfl, rfl⟩⟩
  | some o =>
    rw [ho] at hfree
    refine runs_bind.mpr (hfree.mono ?_)
    rintro _ s' ⟨hs', hdrops, -⟩
    rw [runs_bind, runs_release, runs_pure]
    exact ⟨hs', .inr ⟨o, rfl, rfl, hdrops⟩⟩

lemma putRevoke_runs (hs : Sound s.view) :
    Runs (putRevoke key) (fun r s' => Sound s'.view ∧
      ((s.objects.lookup key = none ∧ r = .error .objectNotFound ∧ s' = s) ∨
        (∃ o, s.objects.lookup key = some o ∧ r = .ok () ∧ Drops s key [] s'))) s :=
  ((putRevoke_intact hs.fleet.valid).sound (balanced_putRevoke key) hs).mono fun _ _ h => ⟨h.1, h.2.2⟩

/-! ## Read, remove and the segments -/

/-- What `get_replica_list` does: a guarded read, and a lease on the object. -/
theorem getReplicaList_runs (key : ObjectKey) (requester : IdentityScope) (s : MasterService) :
    Runs (getReplicaList key requester) (fun r s' =>
      (∃ e, r = .error e ∧ s' = s) ∨
      (∃ o, s.objects.lookup key = some o ∧ o.identity.reuseViolationAgainst requester = none ∧
        r = .ok (o.replicas.values.filter
          (readable (aliveSegments s.clock s.segmentTtl s.segmentHeartbeat))) ∧
        o.replicas.values.filter (readable (aliveSegments s.clock s.segmentTtl s.segmentHeartbeat)) ≠ [] ∧
        s' = { s with objects := s.objects.update key fun o =>
          { o with lastAccess := s.clock, leaseUntil := s.clock + s.leaseTtl } })) s := by
  simp only [getReplicaList, runs_bind, runs_now, runs_read, Option.some.injEq, forall_eq',
    runs_onObjects]
  intro r t hrun
  rw [readObject] at hrun
  cases ho : s.objects.lookup key with
  | none =>
    rw [ho] at hrun
    cases hrun
    exact .inl ⟨_, rfl, rfl⟩
  | some o =>
    simp only [ho] at hrun
    cases hviolation : o.identity.reuseViolationAgainst requester with
    | some violation =>
      rw [hviolation] at hrun
      cases hrun
      exact .inl ⟨_, rfl, rfl⟩
    | none =>
      simp only [hviolation] at hrun
      split_ifs at hrun with hempty
      · cases hrun
        exact .inl ⟨_, rfl, rfl⟩
      · cases hrun
        exact .inr ⟨o, rfl, hviolation, rfl, fun h => hempty (List.isEmpty_iff.mpr h), rfl⟩

/-- What `remove` does, whatever is mounted. -/
theorem remove_intact {force : Bool} (hs : Intact s) :
    Runs (remove key force) (fun r s' => Intact s' ∧
      ((∃ e, r = .error e ∧ s' = s) ∨
        (∃ o, s.objects.lookup key = some o ∧ (o.leaseUntil ≤ s.clock ∨ force = true) ∧ r = .ok () ∧
          Drops s key [.removed key] s'))) s := by
  simp only [remove, runs_bind, runs_now, runs_acquire, runs_onObjects]
  intro r t hrun
  rw [takeUnleased] at hrun
  have hfree := freeLeftover_intact hs key
  cases ho : s.objects.lookup key with
  | none =>
    rw [ho] at hrun
    cases hrun
    rw [runs_bind, runs_release, runs_pure]
    exact ⟨hs, .inl ⟨_, rfl, rfl⟩⟩
  | some o =>
    rw [ho] at hfree
    simp only [ho] at hrun
    split_ifs at hrun with hleased
    · cases hrun
      rw [runs_bind, runs_release, runs_pure]
      exact ⟨hs, .inl ⟨_, rfl, rfl⟩⟩
    · cases hrun
      have hfree_or : o.leaseUntil ≤ s.clock ∨ force = true := by
        by_contra! hc
        exact hleased ⟨hc.1, by simp [hc.2]⟩
      simp only [runs_bind, runs_release, runs_logOp, runs_pure]
      refine hfree.mono ?_
      rintro _ s' ⟨hs', hdrops, -⟩
      refine ⟨hs', .inr ⟨o, rfl, hfree_or, trivial, ⟨hdrops.frame.fleet, hdrops.frame.strategy_eq, ?_⟩,
        hdrops.objects_eq, ?_, hdrops.nextReplicaId_eq⟩⟩
      · rw [hdrops.frame.rest]
      · simp [hdrops.oplog_eq]

lemma remove_runs {force : Bool} (hs : Sound s.view) :
    Runs (remove key force) (fun r s' => Sound s'.view ∧
      ((∃ e, r = .error e ∧ s' = s) ∨
        (∃ o, s.objects.lookup key = some o ∧ (o.leaseUntil ≤ s.clock ∨ force = true) ∧ r = .ok () ∧
          Drops s key [.removed key] s'))) s :=
  ((remove_intact hs.fleet.valid).sound (balanced_remove key force) hs).mono fun _ _ h => ⟨h.1, h.2.2⟩

theorem mountSegment_runs {name : SegmentName} {capacity : ℕ} (hs : Sound s.view)
    (hname : name ∉ s.segments.names) (hcap : capacity < 2 ^ 64) :
    Runs (mountSegment name capacity) (fun _ s' => Sound s'.view ∧
      ∃ a, OffsetBufferAllocator.new name capacity = some a ∧ s' = { s with
        segmentHeartbeat := s.segmentHeartbeat.insert name s.clock
        segments := { s.segments with allocators := s.segments.allocators ++ [a] }
        oplog := s.oplog.map (· ++ [.segmentMounted name capacity]) }) s := by
  obtain ⟨a, hnew, -, -, hsound⟩ := Owes.push hs hname hcap
  simp only [mountSegment, runs_bind, runs_update, runs_acquire, runs_section, runs_release,
    runs_logOp]
  intro _ s' hrun
  rw [pushSegment, hnew] at hrun
  cases hrun
  exact ⟨hsound, a, hnew, rfl⟩

def unmounted (s : MasterService) (name : SegmentName) : MasterService :=
  { s with
    objects := dropSegmentReplicas name s.objects
    segments := { s.segments with
      allocators := s.segments.allocators.filter fun a => a.segmentName ≠ name }
    segmentHeartbeat := s.segmentHeartbeat.erase name
    segmentOwner := s.segmentOwner.erase name
    oplog := s.oplog.map (· ++ [.segmentUnmounted name]) }

lemma lookup_dropSegmentReplicas (name : SegmentName) (t : ObjectMap) (k : ObjectKey) :
    (dropSegmentReplicas name t).lookup k =
      ((t.lookup k).map (·.withoutSegment name)).filter fun o => !o.replicas.entries.isEmpty := by
  rw [dropSegmentReplicas, lookup_retain, lookup_mapEntries]

theorem unmountSegment_runs (name : SegmentName) (s : MasterService) :
    Runs (unmountSegment name) (fun r s' =>
      (name ∉ s.segments.names ∧ r = .error .segmentNotFound ∧ s' = s) ∨
      (name ∈ s.segments.names ∧ r = .ok () ∧ s' = s.unmounted name)) s := by
  simp only [unmountSegment, runs_bind, runs_acquire, runs_read, Option.some.injEq, forall_eq']
  have hmounted : (s.segments.allocators.any fun a => decide (a.segmentName = name)) = true ↔
      name ∈ s.segments.names := by
    simp [SegmentState.names]
  split_ifs with hnot
  · rw [runs_bind, runs_release, runs_pure]
    refine .inl ⟨fun hmem => ?_, rfl, rfl⟩
    rw [hmounted.mpr hmem] at hnot
    cases hnot
  · have hmem : name ∈ s.segments.names := by
      rw [← hmounted]
      simpa using hnot
    simp only [runs_bind, runs_onObjects, runs_onSegments, runs_release, runs_update, runs_logOp,
      runs_pure]
    intro _ t ht _ g hg
    cases ht
    cases hg
    exact .inr ⟨hmem, trivial, rfl⟩

lemma tick_runs (s : MasterService) :
    Runs tick (fun _ s' => s' = { s with clock := s.clock + 1 }) s := by
  rw [tick, runs_section, pc_bind, pc_get, pc_bind, pc_set, pc_addChecked]
  intro hlt
  rw [Nat.mod_eq_of_lt hlt]

end

end QuillCache.Store.MasterService
