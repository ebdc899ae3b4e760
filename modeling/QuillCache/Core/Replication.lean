import QuillCache.Core.Plan
import QuillCache.Lib.Ranked

/-!
# Replication of hot prefixes

An embedding of `plan_replications` and of `ControlPlane::replication_plan` (`control.rs`). The two
loops come to this (`planReplications_eq`): the hot prefixes are taken by access count and hash, each is due a copy on
its least loaded non-holders, and the list of all these copies is cut at `max_actions`.

A prefix is identified by its scope and its hash, but only the hash breaks ties. So two tenants' prefixes with one hash
and one count are planned in the order in which they come, which is that of a hash map (`plan_perm_iff`).

`HotnessTracker` counts the requests that touch a prefix and halves its counts now and then; what it calls hot is what an
exact counter of each prefix calls hot (`hot_by_history`).

Source: `replication.rs`.
-/

namespace QuillCache.Core

open Lib Store List

structure ReplicationConfig where
  targetReplicas : ℕ := 2
  hotnessThreshold : ℕ := 8
  maxActions : ℕ := 32

structure PrefixResidency where
  scope : IdentityScope
  prefixHash : String
  holders : List String
  accesses : ℕ
  deriving DecidableEq

structure WorkerLoad where
  id : String
  load : ℕ
  deriving DecidableEq

structure ReplicationAction where
  scope : IdentityScope
  prefixHash : String
  fromWorker : String
  toWorker : String
  accesses : ℕ
  deriving DecidableEq

def WorkerLoad.rank (w : WorkerLoad) : ℕ ×ₗ String := toLex (w.load, w.id)

namespace PrefixResidency

def rank (p : PrefixResidency) : ℕᵒᵈ ×ₗ String := toLex (OrderDual.toDual p.accesses, p.prefixHash)

def key (p : PrefixResidency) : IdentityScope × String := (p.scope, p.prefixHash)

def Wanting (cfg : ReplicationConfig) (p : PrefixResidency) : Prop :=
  cfg.hotnessThreshold ≤ p.accesses ∧ p.holders ≠ [] ∧ p.holders.length < cfg.targetReplicas

instance (cfg : ReplicationConfig) (p : PrefixResidency) : Decidable (p.Wanting cfg) :=
  inferInstanceAs (Decidable (_ ∧ _))

/-- The least loaded holder; an unlisted one if none is listed. -/
def source (byLoad : List WorkerLoad) (p : PrefixResidency) : String :=
  ((byLoad.find? fun w => w.id ∈ p.holders).map WorkerLoad.id).getD (p.holders.headD "")

def action (byLoad : List WorkerLoad) (p : PrefixResidency) (w : WorkerLoad) : ReplicationAction :=
  ⟨p.scope, p.prefixHash, p.source byLoad, w.id, p.accesses⟩

end PrefixResidency

section plan

variable (cfg : ReplicationConfig) (byLoad : List WorkerLoad)

def copyLoop (p : PrefixResidency) : List WorkerLoad → ℕ → List ReplicationAction → List ReplicationAction
  | [], _, actions => actions
  | w :: ws, added, actions =>
    if cfg.targetReplicas - p.holders.length ≤ added ∨ cfg.maxActions ≤ actions.length then actions
    else if w.id ∈ p.holders then copyLoop p ws added actions
    else copyLoop p ws (added + 1) (actions ++ [p.action byLoad w])

def planLoop : List PrefixResidency → List ReplicationAction → List ReplicationAction
  | [], actions => actions
  | p :: hot, actions =>
    if cfg.maxActions ≤ actions.length then actions else planLoop hot (copyLoop cfg byLoad p byLoad 0 actions)

def hotFirst (prefixes : List PrefixResidency) : List PrefixResidency :=
  sortByKey PrefixResidency.rank (prefixes.filter (·.Wanting cfg))

def planReplications (prefixes : List PrefixResidency) (workers : List WorkerLoad) : List ReplicationAction :=
  planLoop cfg (sortByKey WorkerLoad.rank workers) (hotFirst cfg prefixes) []

def targets (p : PrefixResidency) : List WorkerLoad :=
  (byLoad.filter fun w => w.id ∉ p.holders).take (cfg.targetReplicas - p.holders.length)

def due (p : PrefixResidency) : List ReplicationAction := (targets cfg byLoad p).map (p.action byLoad)

end plan

section closed

variable {cfg : ReplicationConfig} {byLoad : List WorkerLoad}

lemma copyLoop_eq (p : PrefixResidency) (ws : List WorkerLoad) (added : ℕ) (actions : List ReplicationAction) :
    copyLoop cfg byLoad p ws added actions = actions ++
      ((((ws.filter fun w => w.id ∉ p.holders).take (cfg.targetReplicas - p.holders.length - added)).map
        (p.action byLoad)).take (cfg.maxActions - actions.length)) := by
  induction ws generalizing added actions with
  | nil => simp [copyLoop]
  | cons w ws ih =>
    rw [copyLoop]
    split_ifs with hstop hheld
    · rcases hstop with hstop | hstop
      · rw [Nat.sub_eq_zero_of_le hstop, take_zero, map_nil, take_nil, append_nil]
      · rw [Nat.sub_eq_zero_of_le hstop, take_zero, append_nil]
    · rw [ih, filter_cons_of_neg (by simpa using hheld)]
    · obtain ⟨hneed, hroom⟩ := not_or.mp hstop
      obtain ⟨need, hn⟩ := Nat.exists_eq_succ_of_ne_zero (Nat.sub_ne_zero_of_lt (not_le.mp hneed))
      obtain ⟨room, hr⟩ := Nat.exists_eq_succ_of_ne_zero (Nat.sub_ne_zero_of_lt (not_le.mp hroom))
      have hneed' : cfg.targetReplicas - p.holders.length - (added + 1) = need := by omega
      have hroom' : cfg.maxActions - (actions.length + 1) = room := by omega
      rw [ih, filter_cons_of_pos (by simpa using hheld), hn, hr, take_succ_cons, map_cons,
        take_succ_cons, append_assoc, singleton_append, length_append, length_singleton,
        hneed', hroom']

lemma planLoop_eq (hot : List PrefixResidency) (actions : List ReplicationAction) :
    planLoop cfg byLoad hot actions =
      actions ++ (hot.flatMap (due cfg byLoad)).take (cfg.maxActions - actions.length) := by
  induction hot generalizing actions with
  | nil => simp [planLoop]
  | cons p hot ih =>
    rw [planLoop]
    split_ifs with hfull
    · rw [Nat.sub_eq_zero_of_le hfull, take_zero, append_nil]
    · rw [ih, copyLoop_eq, append_assoc, flatMap_cons, take_append]
      refine congrArg _ (congrArg₂ _ rfl (congrArg (List.take · _) ?_))
      simp only [due, targets, length_append, length_take, Nat.sub_zero]
      omega

lemma planReplications_eq (prefixes : List PrefixResidency) (workers : List WorkerLoad) :
    planReplications cfg prefixes workers =
      ((hotFirst cfg prefixes).flatMap (due cfg (sortByKey WorkerLoad.rank workers))).take cfg.maxActions := by
  rw [planReplications, planLoop_eq, nil_append]
  rfl

end closed

/-! ## What a plan does -/

def ReplicationAction.Of (p : PrefixResidency) (a : ReplicationAction) : Prop := (a.scope, a.prefixHash) = p.key

instance (p : PrefixResidency) : DecidablePred (ReplicationAction.Of p) :=
  fun a => inferInstanceAs (Decidable ((a.scope, a.prefixHash) = p.key))

/-- The copies of a prefix go to its least loaded non-holders, ties by id, as many as are missing or as there are. -/
structure Served (cfg : ReplicationConfig) (workers : List WorkerLoad) (p : PrefixResidency)
    (copies : List ReplicationAction) : Prop where
  count : copies.length = min (cfg.targetReplicas - p.holders.length) (workers.filter (·.id ∉ p.holders)).length
  least : ∃ ws : List WorkerLoad, copies.map ReplicationAction.toWorker = ws.map WorkerLoad.id ∧
    ws.Pairwise (·.rank < ·.rank) ∧ (∀ w ∈ ws, w ∈ workers ∧ w.id ∉ p.holders) ∧
    ∀ w ∈ workers, w.id ∉ p.holders → w ∉ ws → ∀ v ∈ ws, v.rank < w.rank

structure Planned (cfg : ReplicationConfig) (prefixes : List PrefixResidency) (workers : List WorkerLoad)
    (plan : List ReplicationAction) : Prop where
  copies : ∀ a ∈ plan, ∃ p ∈ prefixes, a.Of p ∧ a.accesses = p.accesses ∧ a.fromWorker ∈ p.holders ∧
    (∀ w ∈ workers, w.id ∈ p.holders → ∃ v ∈ workers, v.id = a.fromWorker ∧ v.rank ≤ w.rank) ∧
    ∃ w ∈ workers, w.id = a.toWorker ∧ w.id ∉ p.holders
  once : (plan.map fun a => (a.scope, a.prefixHash, a.toWorker)).Nodup
  enough : ∀ p ∈ prefixes, plan.filter (·.Of p) ≠ [] →
    p.holders.length + (plan.filter (·.Of p)).length ≤ cfg.targetReplicas
  capped : plan.length ≤ cfg.maxActions
  hottest : plan.Pairwise fun a b => b.accesses ≤ a.accesses
  served : ∀ before p after, hotFirst cfg prefixes = before ++ p :: after →
    ((before ++ [p]).flatMap (due cfg (sortByKey WorkerLoad.rank workers))).length ≤ cfg.maxActions →
    Served cfg workers p (plan.filter (·.Of p))

section planned

variable {cfg : ReplicationConfig} {prefixes : List PrefixResidency} {workers byLoad : List WorkerLoad}
  {p q : PrefixResidency} {a : ReplicationAction}

lemma rank_injective : WorkerLoad.rank.Injective := by
  rintro ⟨id, load⟩ ⟨id', load'⟩ h
  cases toLex.injective h
  rfl

lemma mem_due : a ∈ due cfg byLoad p ↔ ∃ w ∈ targets cfg byLoad p, p.action byLoad w = a := mem_map

lemma of_mem_targets {w : WorkerLoad} (h : w ∈ targets cfg byLoad p) : w ∈ byLoad ∧ w.id ∉ p.holders := by
  simpa using mem_filter.mp (mem_of_mem_take h)

lemma mem_hotFirst : p ∈ hotFirst cfg prefixes ↔ p ∈ prefixes ∧ p.Wanting cfg := by
  rw [hotFirst, (sortByKey_perm _ _).mem_iff, mem_filter, decide_eq_true_iff]

lemma source_spec (hsorted : byLoad.Pairwise (·.rank ≤ ·.rank)) (hne : p.holders ≠ []) :
    p.source byLoad ∈ p.holders ∧
      ∀ w ∈ byLoad, w.id ∈ p.holders → ∃ v ∈ byLoad, v.id = p.source byLoad ∧ v.rank ≤ w.rank := by
  unfold PrefixResidency.source
  cases hfind : byLoad.find? fun w => w.id ∈ p.holders with
  | none =>
    refine ⟨?_, fun w hw hheld => absurd hheld (by simpa using find?_eq_none.mp hfind w hw)⟩
    obtain ⟨h, hs, heq⟩ := exists_cons_of_ne_nil hne
    rw [heq]
    exact mem_cons_self
  | some v =>
    obtain ⟨hv, before, after, heq, hbefore⟩ := find?_eq_some_iff_append.mp hfind
    refine ⟨by simpa using hv, fun w hw hheld => ⟨v, mem_of_find?_eq_some hfind, rfl, ?_⟩⟩
    rw [heq] at hw hsorted
    rcases mem_append.mp hw with hw | hw
    · exact absurd hheld (by simpa using hbefore w hw)
    · rcases mem_cons.mp hw with rfl | hw
      · exact le_rfl
      · exact rel_of_pairwise_cons (pairwise_append.mp hsorted).2.1 hw

lemma due_served (hids : (workers.map WorkerLoad.id).Nodup) :
    Served cfg workers p (due cfg (sortByKey WorkerLoad.rank workers) p) := by
  have hperm := sortByKey_perm WorkerLoad.rank workers
  have hlt : (sortByKey WorkerLoad.rank workers).Pairwise (·.rank < ·.rank) := by
    refine ((pairwise_sortByKey WorkerLoad.rank workers).and (hperm.nodup_iff.mpr hids.of_map)).imp ?_
    rintro a b ⟨hle, hne⟩
    exact lt_of_le_of_ne hle fun h => hne (rank_injective h)
  have hfilter := hlt.sublist (filter_sublist (p := fun w => w.id ∉ p.holders))
  constructor
  · rw [due, length_map, targets, length_take, (hperm.filter _).length_eq]
  · refine ⟨targets cfg (sortByKey WorkerLoad.rank workers) p, ?_, hfilter.sublist (take_sublist _ _),
      fun w hw => ?_, fun w hw hheld hw' v hv => ?_⟩
    · rw [due, map_map]
      rfl
    · obtain ⟨hmem, hheld⟩ := of_mem_targets hw
      exact ⟨hperm.mem_iff.mp hmem, hheld⟩
    · -- what is not taken comes after all that is
      rw [targets] at hw' hv
      have hmem : w ∈ (sortByKey WorkerLoad.rank workers).filter (fun w => w.id ∉ p.holders) :=
        mem_filter.mpr ⟨hperm.mem_iff.mpr hw, by simpa using hheld⟩
      rw [← take_append_drop (cfg.targetReplicas - p.holders.length) (List.filter _ _)] at hmem hfilter
      exact (pairwise_append.mp hfilter).2.2 v hv w ((mem_append.mp hmem).resolve_left hw')

lemma filter_flatMap_due {l : List PrefixResidency} (h : ∀ q ∈ l, q.key ≠ p.key) :
    (l.flatMap (due cfg byLoad)).filter (·.Of p) = [] := by
  rw [filter_eq_nil_iff]
  intro a ha
  obtain ⟨q, hq, ha⟩ := mem_flatMap.mp ha
  obtain ⟨w, -, rfl⟩ := mem_due.mp ha
  exact fun hof => h q hq (of_decide_eq_true hof)

lemma keys_hotFirst (cfg : ReplicationConfig) (hkeys : (prefixes.map PrefixResidency.key).Nodup) :
    (hotFirst cfg prefixes).Pairwise fun p q => p.key ≠ q.key := by
  rw [← pairwise_map]
  refine ((sortByKey_perm _ _).map _).nodup_iff.mpr (hkeys.sublist ?_)
  exact filter_sublist.map _

lemma filter_plan (hkeys : (prefixes.map PrefixResidency.key).Nodup) {before after : List PrefixResidency}
    (hsplit : hotFirst cfg prefixes = before ++ p :: after) :
    (planReplications cfg prefixes workers).filter (·.Of p) =
      (due cfg (sortByKey WorkerLoad.rank workers) p).take
        (cfg.maxActions - (before.flatMap (due cfg (sortByKey WorkerLoad.rank workers))).length) := by
  have hpair := keys_hotFirst cfg hkeys
  rw [hsplit, pairwise_append, pairwise_cons] at hpair
  obtain ⟨-, ⟨hafter, -⟩, hbefore⟩ := hpair
  have hnil : ∀ l : List PrefixResidency, (∀ q ∈ l, q.key ≠ p.key) → ∀ n,
      ((l.flatMap (due cfg (sortByKey WorkerLoad.rank workers))).take n).filter (·.Of p) = [] := by
    intro l hl n
    exact sublist_nil.mp (filter_flatMap_due hl ▸ (take_sublist _ _).filter _)
  rw [planReplications_eq, hsplit, flatMap_append, flatMap_cons, take_append, take_append,
    filter_append, filter_append, hnil _ fun q hq => hbefore q hq p mem_cons_self,
    hnil _ fun q hq => (hafter q hq).symm, nil_append, append_nil, filter_eq_self]
  intro a ha
  obtain ⟨w, -, rfl⟩ := mem_due.mp (mem_of_mem_take ha)
  exact decide_eq_true rfl

lemma accesses_le_of_rank_le (h : p.rank ≤ q.rank) : q.accesses ≤ p.accesses := by
  rcases Prod.Lex.le_iff.mp h with hlt | ⟨heq, -⟩
  · exact (OrderDual.toDual_lt_toDual.mp hlt).le
  · exact (OrderDual.toDual.injective heq).ge

end planned

/-- The plan for prefixes with distinct keys and workers with distinct ids. -/
theorem plan_planned (cfg : ReplicationConfig) (prefixes : List PrefixResidency) (workers : List WorkerLoad)
    (hkeys : (prefixes.map PrefixResidency.key).Nodup) (hids : (workers.map WorkerLoad.id).Nodup) :
    Planned cfg prefixes workers (planReplications cfg prefixes workers) := by
  have hperm := sortByKey_perm WorkerLoad.rank workers
  have hsub : (planReplications cfg prefixes workers).Sublist
      ((hotFirst cfg prefixes).flatMap (due cfg (sortByKey WorkerLoad.rank workers))) := by
    rw [planReplications_eq]
    exact take_sublist _ _
  refine ⟨fun a ha => ?_, ?_, fun p hp hne => ?_, ?_, ?_, fun before p after hsplit hroom => ?_⟩
  · obtain ⟨p, hp, ha⟩ := mem_flatMap.mp (hsub.subset ha)
    obtain ⟨hlisted, -, hheld, -⟩ := mem_hotFirst.mp hp
    obtain ⟨w, hw, rfl⟩ := mem_due.mp ha
    obtain ⟨hmem, hnot⟩ := of_mem_targets hw
    obtain ⟨hsource, hleast⟩ := source_spec (pairwise_sortByKey WorkerLoad.rank workers) hheld
    simp only [hperm.mem_iff] at hleast hmem
    exact ⟨p, hlisted, rfl, rfl, hsource, hleast, w, hmem, rfl, hnot⟩
  · refine (hsub.map _).nodup ?_
    rw [map_flatMap, nodup_flatMap]
    refine ⟨fun p _ => ?_, (keys_hotFirst cfg hkeys).imp fun hne => ?_⟩
    · rw [due, map_map]
      have hids' : ((targets cfg (sortByKey WorkerLoad.rank workers) p).map WorkerLoad.id).Nodup :=
        ((hperm.map _).nodup_iff.mpr hids).sublist (((take_sublist _ _).trans filter_sublist).map _)
      exact Nodup.of_map (fun t : IdentityScope × String × String => t.2.2) (by rwa [map_map])
    · rintro t ht ht'
      obtain ⟨a, ha, rfl⟩ := mem_map.mp ht
      obtain ⟨a', ha', heq⟩ := mem_map.mp ht'
      obtain ⟨w, -, rfl⟩ := mem_due.mp ha
      obtain ⟨w', -, rfl⟩ := mem_due.mp ha'
      simp only [PrefixResidency.action, Prod.mk.injEq] at heq
      exact hne (Prod.ext heq.1.symm heq.2.1.symm)
  · by_cases hhot : p ∈ hotFirst cfg prefixes
    · obtain ⟨before, after, hsplit⟩ := append_of_mem hhot
      have hwant := (mem_hotFirst.mp hhot).2.2.2
      have hlen : ((planReplications cfg prefixes workers).filter (·.Of p)).length ≤
          cfg.targetReplicas - p.holders.length := by
        rw [filter_plan hkeys hsplit, due, length_take, length_map, targets, length_take]
        omega
      omega
    · -- no other planned prefix has its key
      refine absurd (sublist_nil.mp ?_) hne
      rw [← filter_flatMap_due (p := p) (l := hotFirst cfg prefixes) fun q hq heq => ?_]
      · exact hsub.filter _
      · obtain rfl := inj_on_of_nodup_map hkeys (mem_hotFirst.mp hq).1 hp heq
        exact hhot hq
  · rw [planReplications_eq]
    exact length_take_le _ _
  · refine List.Pairwise.sublist hsub (pairwise_flatMap.mpr ⟨fun p _ => ?_, ?_⟩)
    · refine pairwise_map.mpr (pairwise_of_forall fun _ _ => ?_)
      exact le_rfl
    · refine (pairwise_sortByKey _ _).imp fun hle a ha a' ha' => ?_
      obtain ⟨w, -, rfl⟩ := mem_due.mp ha
      obtain ⟨w', -, rfl⟩ := mem_due.mp ha'
      exact accesses_le_of_rank_le hle
  · rw [filter_plan hkeys hsplit, take_of_length_le]
    · exact due_served hids
    · rw [flatMap_append, length_append, flatMap_singleton] at hroom
      omega

def sharedPrefix (tenantId : String) (holders : List String) : PrefixResidency :=
  ⟨⟨"m", "t", none, tenantId⟩, "h", holders, 8⟩

def twoWorkers : List WorkerLoad := [⟨"w", 0⟩, ⟨"v", 0⟩]

/-- The prefix of one tenant, and two workers. -/
theorem plan_planned_sharedPrefix : (planReplications {} [sharedPrefix "a" ["w"]] twoWorkers).length ≤ 32 :=
  (plan_planned {} [sharedPrefix "a" ["w"]] twoWorkers (by decide) (by decide)).capped

/-- A prefix that is on too many workers already stays there. -/
theorem overreplicated_stays : planReplications { targetReplicas := 1 } [sharedPrefix "a" ["w", "v"]] twoWorkers = [] ∧
    (1 : ℕ) < (sharedPrefix "a" ["w", "v"]).holders.length := by decide

/-! ## The order of the prefixes -/

section order

variable {I : Type} [IndexBackend I]

def hot (counts : Table (IdentityScope × String) ℕ) (threshold : ℕ) : List (IdentityScope × String × ℕ) :=
  (counts.entries.filter fun e => threshold ≤ e.2).map fun e => (e.1.1, e.1.2, e.2)

/-- Source: `control.rs` `ControlPlane::replication_plan` (the holders of a prefix). -/
def residencyOf (residency : I) (entry : IdentityScope × String × ℕ) : PrefixResidency where
  scope := entry.1
  prefixHash := entry.2.1
  holders := ((((IndexBackend.prefixScan entry.1 entry.2.1 residency).filter fun r =>
    r.tier = .hbm ∨ r.tier = .remoteHbm).map CacheResidency.workerId).insertionSort (· ≤ ·)).dedup
  accesses := entry.2.2

def residencies (cfg : ReplicationConfig) (residency : I) (counts : Table (IdentityScope × String) ℕ) :
    List PrefixResidency :=
  (hot counts cfg.hotnessThreshold).map (residencyOf residency)

/-- The two loads are `u32`, and so is their sum.
Source: `control.rs` `ControlPlane::replication_plan` (the loads of the workers). -/
def workerLoads (c : ServingPlane I) : Option (List WorkerLoad) :=
  c.workers.mapM fun w =>
    if w.runningDecodes + w.queuedPrefillTokens < 2 ^ 32 then
      some ⟨w.id, w.runningDecodes + w.queuedPrefillTokens⟩
    else none

def replicationPlan (cfg : ReplicationConfig) (counts : Table (IdentityScope × String) ℕ) (c : ServingPlane I) :
    Option (List ReplicationAction) :=
  (workerLoads c).map fun workers => planReplications cfg (residencies cfg c.residency counts) workers

/-- Of two prefixes with one hash and one count, either one is due no copy, or both come after the cut. -/
def Untied (cfg : ReplicationConfig) (prefixes : List PrefixResidency) (workers : List WorkerLoad) : Prop :=
  Separated PrefixResidency.rank (due cfg (sortByKey WorkerLoad.rank workers)) cfg.maxActions
    (prefixes.filter (·.Wanting cfg))

variable {cfg : ReplicationConfig} {prefixes prefixes' : List PrefixResidency} {workers workers' : List WorkerLoad}

lemma head?_due_ne {byLoad : List WorkerLoad} {p q : PrefixResidency} (hkey : p.key ≠ q.key)
    (hp : due cfg byLoad p ≠ []) : (due cfg byLoad p).head? ≠ (due cfg byLoad q).head? := by
  intro heq
  obtain ⟨a, l, ha⟩ := exists_cons_of_ne_nil hp
  rw [ha, head?_cons] at heq
  obtain ⟨w, -, rfl⟩ := mem_due.mp (ha ▸ mem_cons_self : a ∈ due cfg byLoad p)
  obtain ⟨w', -, hw'⟩ := mem_due.mp (mem_of_mem_head? heq.symm)
  simp only [PrefixResidency.action, ReplicationAction.mk.injEq] at hw'
  exact hkey (Prod.ext hw'.1.symm hw'.2.1.symm)

lemma Untied.plan_eq (h : Untied cfg prefixes workers) (hp : prefixes'.Perm prefixes) (hw : workers'.Perm workers) :
    planReplications cfg prefixes' workers' = planReplications cfg prefixes workers := by
  rw [planReplications_eq, planReplications_eq, sortByKey_eq_of_perm rank_injective hw]
  exact Separated.take_eq h (hp.filter _) (.refl _)

end order

/-- Plans are the same for every order of the prefixes and the workers if and only if no tie between two prefixes is
reached; then the control plane's plan is the same for every order of its counts. -/
theorem plan_perm_iff {I : Type} [IndexBackend I] (cfg : ReplicationConfig) :
    (∀ prefixes workers, (prefixes.map PrefixResidency.key).Nodup →
      ((∀ prefixes' workers', prefixes'.Perm prefixes → workers'.Perm workers →
        planReplications cfg prefixes' workers' = planReplications cfg prefixes workers) ↔
          Untied cfg prefixes workers)) ∧
    ∀ (c : ServingPlane I) (counts counts' : Table (IdentityScope × String) ℕ), counts'.Shuffled counts →
      (∀ workers, workerLoads c = some workers → Untied cfg (residencies cfg c.residency counts) workers) →
      replicationPlan cfg counts' c = replicationPlan cfg counts c := by
  refine ⟨fun prefixes workers hkeys => ⟨fun h => ?_, fun h _ _ hp hw => h.plan_eq hp hw⟩,
    fun c counts counts' hshuffled h => ?_⟩
  · refine (take_flatMap_perm_iff fun p hp q hq hne _ hdp _ => head?_due_ne (fun hkey => hne ?_) hdp).mp fun l hl => ?_
    · exact inj_on_of_nodup_map hkeys (mem_of_mem_filter hp) (mem_of_mem_filter hq) hkey
    · -- the prefixes that are planned in the given order, before all others
      have hall : ∀ p ∈ l, p.Wanting cfg := fun p hp => by simpa using (mem_filter.mp (hl.mem_iff.mp hp)).2
      have hfilter : (l ++ prefixes.filter (¬·.Wanting cfg)).filter (·.Wanting cfg) = l := by
        rw [filter_append, filter_filter, filter_eq_self.mpr (by simpa using hall)]
        simp
      have hperm : (l ++ prefixes.filter (¬·.Wanting cfg)).Perm prefixes := by
        refine (hl.append_right _).trans ?_
        simpa using filter_append_perm (fun p => decide (p.Wanting cfg)) prefixes
      have hplan := h _ workers hperm (.refl _)
      rw [planReplications_eq, planReplications_eq, hotFirst, hfilter] at hplan
      exact hplan
  · unfold replicationPlan
    cases hloads : workerLoads c with
    | none => rfl
    | some workers =>
      refine congrArg some ((h workers hloads).plan_eq (Perm.map _ (Perm.map _ ?_)) (.refl _))
      exact hshuffled.filter _

/-- Two tenants' prefixes with one hash and one count are planned in the order in which they are listed. -/
theorem tied_tenants : planReplications {} [sharedPrefix "a" ["w"], sharedPrefix "b" ["w"]] twoWorkers ≠
    planReplications {} [sharedPrefix "b" ["w"], sharedPrefix "a" ["w"]] twoWorkers := by decide

/-- One tenant's prefix is not tied. -/
theorem plan_perm_iff_sharedPrefix : planReplications {} [sharedPrefix "a" ["w"]] twoWorkers.reverse =
    planReplications {} [sharedPrefix "a" ["w"]] twoWorkers := by
  refine ((plan_perm_iff (I := MemoryIndex) {}).1 [sharedPrefix "a" ["w"]] twoWorkers (by decide)).mpr ?_ _ _ (.refl _)
    (reverse_perm _)
  intro p hp q hq hne
  simp only [mem_filter, mem_singleton] at hp hq
  exact absurd (hp.1.trans hq.1.symm) hne

/-! ## Counting -/

namespace HotnessTracker

abbrev Counts := Table (IdentityScope × String) ℕ

def prefixOf (block : KvBlockKey) : IdentityScope × String := (IdentityScope.fromKey block, block.prefixHash)

/-- The body of the loop over the blocks, with the prefixes that were seen. A `u32` that overflows panics. -/
def recordBlock (st : List (IdentityScope × String) × Counts) (block : KvBlockKey) :
    Option (List (IdentityScope × String) × Counts) :=
  if prefixOf block ∈ st.1 then some st
  else
    let n := (st.2.lookup (prefixOf block)).getD 0 + 1
    if n < 2 ^ 32 then some (prefixOf block :: st.1, st.2.insert (prefixOf block) n) else none

def recordRequest (request : RequestShape) (counts : Counts) : Option Counts :=
  (request.blocks.foldlM recordBlock ([], counts)).map Prod.snd

def decay (counts : Counts) : Counts := (counts.mapEntries fun _ n => n / 2).retain fun _ n => 0 < n

/-- What a tracker is told. -/
inductive Event where
  | request (request : RequestShape)
  | halve

def run (counts : Counts) : Event → Option Counts
  | .request r => recordRequest r counts
  | .halve => some (decay counts)

/-- An exact counter of one prefix. -/
def tally (key : IdentityScope × String) (n : ℕ) : Event → ℕ
  | .request r => if ∃ block ∈ r.blocks, prefixOf block = key then n + 1 else n
  | .halve => n / 2

section tallied

variable {key : IdentityScope × String} {counts counts' : Counts} {n : IdentityScope × String → ℕ}

lemma lookup_record {blocks : List KvBlockKey} {seen seen' : List (IdentityScope × String)}
    (h : blocks.foldlM recordBlock (seen, counts) = some (seen', counts')) :
    counts'.lookup key = if key ∉ seen ∧ ∃ block ∈ blocks, prefixOf block = key then
      some ((counts.lookup key).getD 0 + 1) else counts.lookup key := by
  induction blocks generalizing seen counts with
  | nil =>
    cases h
    simp
  | cons block blocks ih =>
    rw [foldlM_cons] at h
    obtain ⟨⟨seen₁, counts₁⟩, hblock, h⟩ := Option.bind_eq_some_iff.mp h
    have hrest := ih h
    simp only [recordBlock] at hblock
    split_ifs at hblock with hseen
    · cases hblock
      have hblock : prefixOf block = key → key ∈ seen := fun heq => heq ▸ hseen
      rw [hrest]
      congr 1
      simp only [mem_cons, exists_eq_or_imp, eq_iff_iff]
      tauto
    · cases hblock
      by_cases hkey : prefixOf block = key
      · subst hkey
        rw [hrest, if_neg fun h => h.1 mem_cons_self, if_pos ⟨hseen, block, mem_cons_self, rfl⟩, AList.lookup_insert]
      · rw [hrest, AList.lookup_insert_ne (Ne.symm hkey)]
        congr 1
        simp [hkey, Ne.symm hkey]

/-- The counts are those of exact counters, and there is none at zero. -/
def Tallied (counts : Counts) (n : IdentityScope × String → ℕ) : Prop :=
  ∀ key, (counts.lookup key).getD 0 = n key ∧ counts.lookup key ≠ some 0

lemma Tallied.run (h : Tallied counts n) {e : Event} (hrun : run counts e = some counts') :
    Tallied counts' fun key => tally key (n key) e := by
  intro key
  obtain ⟨hcount, hpos⟩ := h key
  cases e with
  | request r =>
    obtain ⟨⟨seen, counts₁⟩, hfold, rfl⟩ := Option.map_eq_some_iff.mp hrun
    simp only [lookup_record hfold, not_mem_nil, not_false_iff, true_and, tally]
    split_ifs
    · exact ⟨congrArg Nat.succ hcount, fun h => Nat.succ_ne_zero _ (Option.some.inj h)⟩
    · exact ⟨hcount, hpos⟩
  | halve =>
    cases hrun
    rw [decay, AList.lookup_retain, AList.lookup_mapEntries]
    show _ = n key / 2 ∧ _
    rw [← hcount]
    cases counts.lookup key with
    | none => exact ⟨rfl, nofun⟩
    | some v =>
      rw [Option.map_some, Option.filter_some]
      split_ifs with hhalf
      · exact ⟨rfl, fun h => (of_decide_eq_true hhalf).ne' (Option.some.inj h)⟩
      · exact ⟨(Nat.eq_zero_of_not_pos fun h => hhalf (decide_eq_true h)).symm, nofun⟩

end tallied

/-- **What is hot by count is hot by history.** After any requests and decays, the tracker lists each prefix that an
exact counter puts at the threshold, once and with its count, and no other.
Source: `HotnessTracker::record_request`, `decay`, `hot` -/
theorem hot_by_history (events : List Event) (counts : Counts) (hrun : events.foldlM run ∅ = some counts)
    (threshold : ℕ) : ((hot counts threshold).map fun e => (e.1, e.2.1)).Nodup ∧
      ∀ scope prefixHash n, (scope, prefixHash, n) ∈ hot counts threshold ↔
        n = events.foldl (tally (scope, prefixHash)) 0 ∧ 0 < n ∧ threshold ≤ n := by
  have htallied : ∀ (events : List Event) (start : Counts) (n : IdentityScope × String → ℕ), Tallied start n →
      events.foldlM run start = some counts → Tallied counts fun key => events.foldl (tally key) (n key) := by
    intro events
    induction events with
    | nil =>
      intro start n h hrun
      cases hrun
      exact h
    | cons e events ih =>
      intro start n h hrun
      rw [foldlM_cons] at hrun
      obtain ⟨counts₁, hrun₁, hrun⟩ := Option.bind_eq_some_iff.mp hrun
      exact ih counts₁ _ (h.run hrun₁) hrun
  have h := htallied events ∅ (fun _ => 0) (fun _ => ⟨rfl, nofun⟩) hrun
  constructor
  · rw [hot, map_map]
    exact (counts.nodupKeys.sublist filter_sublist : NodupKeys _)
  · intro scope prefixHash n
    have hmem : (scope, prefixHash, n) ∈ hot counts threshold ↔
        counts.lookup (scope, prefixHash) = some n ∧ threshold ≤ n := by
      rw [← AList.mem_items]
      simp [hot, AList.items]
    obtain ⟨hcount, hpos⟩ := h (scope, prefixHash)
    dsimp only at hcount
    rw [hmem, ← hcount]
    cases hlookup : counts.lookup (scope, prefixHash) with
    | none => exact ⟨fun h => absurd h.1.symm (Option.some_ne_none n), fun h => absurd h.1 h.2.1.ne'⟩
    | some v =>
      have hv : v ≠ 0 := fun h => hpos (h ▸ hlookup)
      simp only [Option.some.injEq, Option.getD_some, eq_comm (a := v)]
      refine ⟨fun h => ⟨h.1, Nat.pos_of_ne_zero (h.1 ▸ hv), h.2⟩, fun h => ⟨h.1, h.2.2⟩⟩

/-- Three requests for a block, and a decay. -/
theorem hot_by_history_decayed :
    let r := Event.request (sampleRequest [sampleBlock "root" "a" 0, sampleBlock "root" "b" 0])
    ∃ counts, [r, r, r, .halve].foldlM run ∅ = some counts ∧ (⟨"m", "t", none, "u"⟩, "root", 1) ∈ hot counts 1 := by
  intro r
  refine ⟨_, rfl, ((hot_by_history [r, r, r, .halve] _ rfl 1).2 _ _ _).mpr ?_⟩
  decide

end HotnessTracker

end QuillCache.Core
