import Mathlib.Data.Prod.Lex
import QuillCache.Core.Router

/-!
# Routing policies

The policies of `router.rs`. They share the accounting of `plan_for_worker` and differ in the worker that they pick, so
each takes the plan of every worker as a function; it computes those that it looks at.

The hash of a key (`DefaultHasher`) is a parameter, and so is the index that `DynamoCostRouter` computes from its float
costs. `max_by_key` returns the last maximum, `min_by_key` the first minimum.

A plan serves each block in the cheapest way there is, so a further record of residency makes no plan worse, nor the
choice among them: the score that the greedy policy takes (`greedy_improves`) and the violation that the SLO-aware policy
takes (`slo_improves`) only ever fall, though the request may then go to another worker.

Source: `router.rs`.
-/

namespace QuillCache.Core

open Lib List Option

/-! ## The policies -/

/-- What `route` returns; `none` is an overflow. -/
abbrev Routed := Option (Except RouterError RouteDecision)

section policies

variable (hash : String → UInt64) (request : RequestShape) (plan : WorkerState → Option RouteDecision)
  (workers : List WorkerState)

def greedyScore (worker : WorkerState) (d : RouteDecision) : ℕ :=
  d.estimatedTtftUs + d.estimatedTpotUs + d.sloViolationUs * 4 + worker.runningDecodes * 1000

def greedyStep (best : Option (ℕ × RouteDecision)) (worker : WorkerState) : Option (Option (ℕ × RouteDecision)) := do
  let decision ← plan worker
  let score ← u64 (greedyScore worker decision)
  return if best.all fun b => score < b.1 then some (score, decision) else best

/-- Source: `GreedyStatePlaneRouter::route` -/
def greedyStatePlane : Routed := do
  if workers.isEmpty then return .error .noWorkers
  let best ← workers.foldlM (greedyStep plan) none
  let (_, decision) ← best
  return .ok decision

/-- Source: `LeastLoadedRouter::route` -/
def leastLoaded : Routed :=
  match workers.argmin fun worker => worker.queuedPrefillTokens + worker.runningDecodes * 1000 with
  | none => some (.error .noWorkers)
  | some target => (plan target).map .ok

def planAt (idx : ℕ) : Routed := do
  let target ← workers[idx]?
  let decision ← plan target
  return .ok decision

def homeIdx (key : String) : ℕ := (hash key).toNat % workers.length

def affinityKey : String := (request.blocks.head?.map KvBlockKey.prefixHash).getD request.id

/-- Source: `PrefixAffinityRouter::route` -/
def prefixAffinity : Routed :=
  if workers.isEmpty then some (.error .noWorkers)
  else planAt plan workers (homeIdx hash workers (affinityKey request))

/-- The counter that `next` is raised to is left out. Source: `RoundRobinRouter::route`. -/
def roundRobin (next : ℕ) : Routed :=
  if workers.isEmpty then some (.error .noWorkers) else planAt plan workers (next % workers.length)

/-- Source: `SloAwareRouter::route` -/
def sloAware : Routed := do
  if workers.isEmpty then return .error .noWorkers
  let plans ← workers.mapM plan
  let feasible := (plans.filter fun d => d.sloViolationUs = 0).reverse.argmax fun d =>
    toLex (d.localHits.length, OrderDual.toDual d.estimatedTtftUs)
  let chosen := feasible.or (plans.argmin fun d => toLex (d.sloViolationUs, OrderDual.toDual d.localHits.length))
  let decision ← chosen
  return .ok decision

def sessionKey : String := (request.sessionId.or (request.blocks.head?.map KvBlockKey.prefixHash)).getD request.id

/-- Source: `SessionAffinityRouter::route` -/
def sessionAffinity : Routed := do
  if workers.isEmpty then return .error .noWorkers
  let plans ← workers.mapM plan
  let warmest := plans.reverse.argmax fun d => d.localHits.length
  match warmest.filter fun d => !d.localHits.isEmpty with
  | some decision => return .ok decision
  | none => planAt plan workers (homeIdx hash workers (sessionKey request))

/-- The index is what the float costs give. Source: `DynamoCostRouter::route`. -/
def dynamoCost (idx : ℕ) : Routed :=
  if workers.isEmpty then some (.error .noWorkers) else planAt plan workers idx

end policies

/-- The policies with their cost models; round-robin carries its counter, and the policy of Dynamo the choice that it
makes. -/
inductive RoutingPolicy where
  | greedyStatePlane (cost : CostModel)
  | leastLoaded (cost : CostModel)
  | prefixAffinity (cost : CostModel)
  | roundRobin (cost : CostModel) (next : ℕ)
  | sloAware (cost : CostModel)
  | sessionAffinity (cost : CostModel)
  | dynamoCost (cost : CostModel) (idx : RequestShape → List WorkerState → List CacheResidency → ℕ)

namespace RoutingPolicy

def cost : RoutingPolicy → CostModel
  | greedyStatePlane cost | leastLoaded cost | prefixAffinity cost | roundRobin cost _ | sloAware cost
  | sessionAffinity cost | dynamoCost cost _ => cost

def route (hash : String → UInt64) (policy : RoutingPolicy) (request : RequestShape) (workers : List WorkerState)
    (residency : List CacheResidency) : Routed :=
  let plan := fun target => planForWorker policy.cost request target (workerById workers) residency
  match policy with
  | greedyStatePlane _ => Core.greedyStatePlane plan workers
  | leastLoaded _ => Core.leastLoaded plan workers
  | prefixAffinity _ => Core.prefixAffinity hash request plan workers
  | roundRobin _ next => Core.roundRobin plan workers next
  | sloAware _ => Core.sloAware plan workers
  | sessionAffinity _ => Core.sessionAffinity hash request plan workers
  | dynamoCost _ idx => Core.dynamoCost plan workers (idx request workers residency)

end RoutingPolicy

/-! ## What the policies return -/

section returned

variable {hash : String → UInt64} {request : RequestShape} {plan : WorkerState → Option RouteDecision}
  {workers : List WorkerState} {d : RouteDecision}

def scoredPlan (plan : WorkerState → Option RouteDecision) (worker : WorkerState) : Option (ℕ × RouteDecision) := do
  let decision ← plan worker
  let score ← u64 (greedyScore worker decision)
  return (score, decision)

lemma foldlM_greedyStep (workers : List WorkerState) :
    workers.foldlM (greedyStep plan) none = (workers.mapM (scoredPlan plan)).map (List.argmin Prod.fst) := by
  induction workers using List.reverseRecOn with
  | nil => rfl
  | append_singleton workers worker ih =>
    rw [foldlM_append, ih, mapM_append]
    cases workers.mapM (scoredPlan plan) with
    | none => rfl
    | some plans =>
      simp only [map_some, bind_eq_bind, bind_some, foldlM_cons, foldlM_nil,
        mapM_cons, mapM_nil, greedyStep, scoredPlan]
      cases plan worker with
      | none => rfl
      | some decision =>
        simp only [bind_some]
        cases u64 (greedyScore worker decision) with
        | none => rfl
        | some score =>
          simp only [bind_some, Option.pure_def, map_some, argmin_concat]
          cases plans.argmin Prod.fst with
          | none => rfl
          | some best =>
            simp only [all_some, decide_eq_true_eq]

lemma forall₂_of_mapM {α β : Type} {f : α → Option β} {l : List α} {bs : List β} (h : l.mapM f = some bs) :
    List.Forall₂ (fun a b => f a = some b) l bs := by
  induction l generalizing bs with
  | nil =>
    cases h
    exact .nil
  | cons a l ih =>
    rw [mapM_cons] at h
    obtain ⟨b, hb, h⟩ := bind_eq_some_iff.mp h
    obtain ⟨bs', hbs', h⟩ := bind_eq_some_iff.mp h
    cases h
    exact .cons hb (ih hbs')

lemma mapM_of_forall {α β : Type} {f : α → Option β} {g : α → β} {l : List α} (h : ∀ a ∈ l, f a = some (g a)) :
    l.mapM f = some (l.map g) := by
  induction l with
  | nil => rfl
  | cons a l ih =>
    obtain ⟨ha, hl⟩ := forall_mem_cons.mp h
    rw [mapM_cons, ha, ih hl]
    rfl

lemma mem_of_mapM {α β : Type} {f : α → Option β} {l : List α} {bs : List β} (h : l.mapM f = some bs) {b : β}
    (hb : b ∈ bs) : ∃ a ∈ l, f a = some b := by
  have hall := forall₂_of_mapM h
  clear h
  induction hall with
  | nil => exact absurd hb not_mem_nil
  | cons hfa _ ih =>
    rcases mem_cons.mp hb with rfl | hb
    · exact ⟨_, mem_cons_self, hfa⟩
    · obtain ⟨a, ha, hfa⟩ := ih hb
      exact ⟨a, mem_cons_of_mem _ ha, hfa⟩

lemma planAt_ok {idx : ℕ} (h : planAt plan workers idx = some (.ok d)) : ∃ w ∈ workers, plan w = some d := by
  unfold planAt at h
  obtain ⟨w, hw, h⟩ := bind_eq_some_iff.mp h
  obtain ⟨d', hd', h⟩ := bind_eq_some_iff.mp h
  cases h
  exact ⟨w, mem_of_getElem? hw, hd'⟩

lemma guarded_planAt_ok {idx : ℕ}
    (h : (if workers.isEmpty then some (.error .noWorkers) else planAt plan workers idx) = some (.ok d)) :
    ∃ w ∈ workers, plan w = some d := by
  split_ifs at h with hempty
  · cases h
  · exact planAt_ok h

lemma greedyStatePlane_ok (h : Core.greedyStatePlane plan workers = some (.ok d)) :
    ∃ plans score, workers.mapM (scoredPlan plan) = some plans ∧ plans.argmin Prod.fst = some (score, d) := by
  unfold Core.greedyStatePlane at h
  split_ifs at h with hempty
  · cases h
  · rw [foldlM_greedyStep] at h
    obtain ⟨best, hbest, h⟩ := bind_eq_some_iff.mp h
    obtain ⟨plans, hplans, rfl⟩ := map_eq_some_iff.mp hbest
    obtain ⟨⟨score, d'⟩, hmin, h⟩ := bind_eq_some_iff.mp h
    cases h
    exact ⟨plans, score, hplans, hmin⟩

lemma sloAware_ok (h : Core.sloAware plan workers = some (.ok d)) : ∃ w ∈ workers, plan w = some d := by
  unfold Core.sloAware at h
  split_ifs at h with hempty
  · cases h
  · obtain ⟨plans, hplans, h⟩ := bind_eq_some_iff.mp h
    obtain ⟨d', hchosen, h⟩ := bind_eq_some_iff.mp h
    cases h
    rcases or_eq_some_iff.mp hchosen with hfeasible | ⟨-, hleast⟩
    · have hmem := mem_reverse.mp (argmax_mem hfeasible)
      exact mem_of_mapM hplans (mem_of_mem_filter hmem)
    · exact mem_of_mapM hplans (argmin_mem hleast)

lemma sessionAffinity_ok (h : Core.sessionAffinity hash request plan workers = some (.ok d)) :
    ∃ w ∈ workers, plan w = some d := by
  unfold Core.sessionAffinity at h
  split_ifs at h with hempty
  · cases h
  · obtain ⟨plans, hplans, h⟩ := bind_eq_some_iff.mp h
    simp only at h
    split at h
    · rename_i d' hwarmest
      cases h
      have hmem := argmax_mem (filter_eq_some_iff.mp hwarmest).1
      exact mem_of_mapM hplans (mem_reverse.mp hmem)
    · exact planAt_ok h

lemma route_ok {policy : RoutingPolicy} {residency : List CacheResidency}
    (h : policy.route hash request workers residency = some (.ok d)) :
    ∃ w ∈ workers, planForWorker policy.cost request w (workerById workers) residency = some d := by
  cases policy with
  | greedyStatePlane cost =>
    obtain ⟨plans, score, hplans, hmin⟩ := greedyStatePlane_ok h
    obtain ⟨w, hw, hscored⟩ := mem_of_mapM hplans (argmin_mem hmin)
    obtain ⟨d', hd', hscored⟩ := bind_eq_some_iff.mp hscored
    obtain ⟨score', -, hscored⟩ := bind_eq_some_iff.mp hscored
    cases hscored
    exact ⟨w, hw, hd'⟩
  | leastLoaded cost =>
    simp only [RoutingPolicy.route, Core.leastLoaded] at h
    split at h
    · cases h
    · rename_i target htarget
      obtain ⟨d', hd', h⟩ := map_eq_some_iff.mp h
      cases h
      exact ⟨target, argmin_mem htarget, hd'⟩
  | prefixAffinity cost => exact guarded_planAt_ok h
  | roundRobin cost next => exact guarded_planAt_ok h
  | sloAware cost => exact sloAware_ok h
  | sessionAffinity cost => exact sessionAffinity_ok h
  | dynamoCost cost idx => exact guarded_planAt_ok h

end returned

/-! ## More copies -/

section warmer

variable {cost : CostModel} {request : RequestShape} {workers : List WorkerState} {plan : WorkerState → Option RouteDecision}
  {residency residency' : List CacheResidency} {d d' : RouteDecision} {target : WorkerState}

lemma plan_improves {fleet : String → Option WorkerState} (hsub : residency ⊆ residency')
    (h : planForWorker cost request target fleet residency = some d)
    (h' : planForWorker cost request target fleet residency' = some d') :
    d'.estimatedTtftUs ≤ d.estimatedTtftUs ∧ d'.estimatedTpotUs = d.estimatedTpotUs ∧
      d'.sloViolationUs ≤ d.sloViolationUs := by
  obtain ⟨-, rfl⟩ := fits_of_planForWorker h
  obtain ⟨-, rfl⟩ := fits_of_planForWorker h'
  exact ⟨ttftUs_le_of_subset hsub, rfl, violationUs_le_of_subset hsub⟩

lemma exists_of_mapM {α β : Type} {f : α → Option β} {l : List α} {bs : List β} (h : l.mapM f = some bs) {a : α}
    (ha : a ∈ l) : ∃ b ∈ bs, f a = some b := by
  obtain ⟨n, rfl⟩ := mem_iff_get.mp ha
  have hall := forall₂_of_mapM h
  have hn : n < bs.length := hall.length_eq ▸ n.isLt
  exact ⟨bs.get ⟨n, hn⟩, get_mem bs _, hall.get n.isLt hn⟩

/-- The greedy policy takes a plan of the least score. -/
lemma greedyStatePlane_least (h : Core.greedyStatePlane plan workers = some (.ok d)) :
    ∃ w ∈ workers, plan w = some d ∧ ∀ v ∈ workers, ∃ p, plan v = some p ∧ greedyScore w d ≤ greedyScore v p := by
  have hscored : ∀ {v score p}, scoredPlan plan v = some (score, p) → plan v = some p ∧ greedyScore v p = score := by
    intro v score p hv
    obtain ⟨p', hp, hv⟩ := bind_eq_some_iff.mp hv
    obtain ⟨score', hscore, hv⟩ := bind_eq_some_iff.mp hv
    cases hv
    exact ⟨hp, (u64_eq_some.mp hscore).2⟩
  obtain ⟨plans, score, hplans, hmin⟩ := greedyStatePlane_ok h
  obtain ⟨w, hw, hscore⟩ := mem_of_mapM hplans (argmin_mem hmin)
  obtain ⟨hplan, hscore⟩ := hscored hscore
  refine ⟨w, hw, hplan, fun v hv => ?_⟩
  obtain ⟨⟨score', p⟩, hmem, hv⟩ := exists_of_mapM hplans hv
  obtain ⟨hp, hscore'⟩ := hscored hv
  refine ⟨p, hp, ?_⟩
  rw [hscore, hscore']
  exact le_of_mem_argmin hmem hmin

/-- The SLO-aware policy takes a plan of the least violation. -/
lemma sloAware_least (h : Core.sloAware plan workers = some (.ok d)) :
    ∃ w ∈ workers, plan w = some d ∧ ∀ v ∈ workers, ∃ p, plan v = some p ∧ d.sloViolationUs ≤ p.sloViolationUs := by
  obtain ⟨w, hw, hplan⟩ := sloAware_ok h
  refine ⟨w, hw, hplan, fun v hv => ?_⟩
  unfold Core.sloAware at h
  split_ifs at h
  · cases h
  obtain ⟨plans, hplans, h⟩ := bind_eq_some_iff.mp h
  obtain ⟨d', hchosen, h⟩ := bind_eq_some_iff.mp h
  cases h
  obtain ⟨p, hmem, hp⟩ := exists_of_mapM hplans hv
  refine ⟨p, hp, ?_⟩
  rcases or_eq_some_iff.mp hchosen with hfeasible | ⟨-, hleast⟩
  · have hzero := of_decide_eq_true (mem_filter.mp (mem_reverse.mp (argmax_mem hfeasible))).2
    rw [hzero]
    exact Nat.zero_le _
  · rcases Prod.Lex.le_iff.mp (le_of_mem_argmin hmem hleast) with hlt | ⟨heq, -⟩
    · exact hlt.le
    · exact heq.le

end warmer

/-- **More copies never raise the greedy score.** Source: `GreedyStatePlaneRouter::route` -/
theorem greedy_improves (hash : String → UInt64) (cost : CostModel) (request : RequestShape) (workers : List WorkerState)
    (residency residency' : List CacheResidency) (hsub : residency ⊆ residency') (d d' : RouteDecision)
    (h : (RoutingPolicy.greedyStatePlane cost).route hash request workers residency = some (.ok d))
    (h' : (RoutingPolicy.greedyStatePlane cost).route hash request workers residency' = some (.ok d')) :
    ∃ w ∈ workers, ∃ w' ∈ workers, d.workerId = w.id ∧ d'.workerId = w'.id ∧
      greedyScore w' d' ≤ greedyScore w d := by
  obtain ⟨w, hw, hplan, -⟩ := greedyStatePlane_least h
  obtain ⟨w', hw', hplan', hleast⟩ := greedyStatePlane_least h'
  obtain ⟨p, hp, hle⟩ := hleast w hw
  refine ⟨w, hw, w', hw', ?_, ?_, hle.trans ?_⟩
  · obtain ⟨-, rfl⟩ := fits_of_planForWorker hplan
    rfl
  · obtain ⟨-, rfl⟩ := fits_of_planForWorker hplan'
    rfl
  · obtain ⟨httft, htpot, hviolation⟩ := plan_improves hsub hplan hp
    unfold greedyScore
    omega

def idleAndBusy : List WorkerState :=
  [{ id := "v", localityDomain := "x" }, { id := "w", localityDomain := "x", runningDecodes := 1 }]

/-- With a copy on the busier worker, the block is fetched from there. -/
theorem greedy_improves_fetched :
    let a := sampleBlock "root" "a" 0
    let route := (RoutingPolicy.greedyStatePlane {}).route (fun _ => 0) (sampleRequest [a]) idleAndBusy
    let d : RouteDecision := ⟨"r", "v", [], [], [⟨a, 2880⟩], 2880, 1280, 0⟩
    let d' : RouteDecision := ⟨"r", "v", [], [⟨a, "w", .hbm, 1024, 20⟩], [], 20, 1280, 0⟩
    route [] = some (.ok d) ∧ route [.hbm "w" a 1024] = some (.ok d') ∧ ∃ w ∈ idleAndBusy, ∃ w' ∈ idleAndBusy,
      d.workerId = w.id ∧ d'.workerId = w'.id ∧ greedyScore w' d' ≤ greedyScore w d := by
  intro a route d d'
  have hcold : route [] = some (.ok d) := by decide +kernel
  have hwarm : route [.hbm "w" a 1024] = some (.ok d') := by decide +kernel
  exact ⟨hcold, hwarm, greedy_improves _ _ _ _ _ _ (nil_subset _) d d' hcold hwarm⟩

/-- **More copies never raise the violation** of the plan that the SLO-aware policy takes, which is the least there is;
a request whose SLO can be met on some worker is routed so that it is met. Source: `SloAwareRouter::route` -/
theorem slo_improves (hash : String → UInt64) (cost : CostModel) (request : RequestShape) (workers : List WorkerState)
    (residency residency' : List CacheResidency) (hsub : residency ⊆ residency') (d d' : RouteDecision)
    (h : (RoutingPolicy.sloAware cost).route hash request workers residency = some (.ok d))
    (h' : (RoutingPolicy.sloAware cost).route hash request workers residency' = some (.ok d')) :
    d'.sloViolationUs ≤ d.sloViolationUs ∧
      ∀ w ∈ workers, d.sloViolationUs ≤ violationUs cost request w (workerById workers) residency := by
  obtain ⟨w, hw, hplan, hleast⟩ := sloAware_least h
  obtain ⟨w', hw', hplan', hleast'⟩ := sloAware_least h'
  obtain ⟨p, hp, hle⟩ := hleast' w hw
  refine ⟨hle.trans (plan_improves hsub hplan hp).2.2, fun v hv => ?_⟩
  obtain ⟨p, hp, hle⟩ := hleast v hv
  obtain ⟨-, rfl⟩ := fits_of_planForWorker hp
  exact hle

/-- An SLO that is met only with the copy, for which the request moves. -/
theorem slo_improves_met :
    let a := sampleBlock "root" "a" 0
    let request := { sampleRequest [a] with slo := { ttftMs := 1 } }
    let route := (RoutingPolicy.sloAware {}).route (fun _ => 0) request idleAndBusy
    let d : RouteDecision := ⟨"r", "v", [], [], [⟨a, 2880⟩], 2880, 1280, 1880⟩
    let d' : RouteDecision := ⟨"r", "w", [a], [], [], 5, 2780, 0⟩
    route [] = some (.ok d) ∧ route [.hbm "w" a 1024] = some (.ok d') ∧ d'.sloViolationUs ≤ d.sloViolationUs := by
  intro a request route d d'
  have hcold : route [] = some (.ok d) := by decide +kernel
  have hwarm : route [.hbm "w" a 1024] = some (.ok d') := by decide +kernel
  exact ⟨hcold, hwarm, (slo_improves _ _ _ _ _ _ (nil_subset _) d d' hcold hwarm).1⟩

end QuillCache.Core
