import QuillCache.Core.Control
import QuillCache.Core.Policies

/-!
# Routing and admission by the control plane

The part of `ControlPlane` that routes a request: `route` asks the policy with a snapshot of the index,
`plan` with point lookups of the request's blocks and only the workers that can decode, and `admit` rejects a request
whose plan violates its SLO by more than a limit. What the conductor picks is a parameter; the counts of hot prefixes are
left out.

Source: `control.rs`.
-/

namespace QuillCache.Core

open Lib Store List

/-! ## The control plane -/

/-- An engine with its place in the fleet. Source: `quillcache-core` `EngineEndpoint`. -/
structure ConfiguredEngine extends EngineEndpoint where
  role : EngineRole := .aggregated
  localityDomain : String

def ConfiguredEngine.workerState (self : ConfiguredEngine) : WorkerState where
  id := self.id
  role := self.role
  localityDomain := self.localityDomain

inductive ServingMode where
  | aggregated
  | disaggregated
  deriving DecidableEq

inductive PlanActionKind where
  | useLocal
  | fetch
  | recompute
  | runPrefill
  | decode
  deriving DecidableEq

structure PlanAction where
  kind : PlanActionKind
  workerId : String
  sourceWorkerId : Option String
  key : Option KvBlockKey
  tier : Option CacheTier
  estimatedUs : ℕ
  deriving DecidableEq

structure RequestPlan where
  mode : ServingMode
  executionWorkerId : String
  prefillWorkerId : Option String
  decodeWorkerId : String
  route : RouteDecision
  actions : List PlanAction
  deriving DecidableEq

inductive AdmissionDecision where
  | admitted (plan : RequestPlan)
  | reject (reason : String) (bestSloViolationUs : ℕ)
  deriving DecidableEq

/-- With `use_conductor`, the conductor picks a worker from the request and the workers.
Source: `ControlPlane`. -/
structure ServingPlane (I : Type) extends ControlPlane I where
  workers : List WorkerState
  router : RoutingPolicy
  conductor : Option (RequestShape → List WorkerState → Option String) := none
  costModel : CostModel := {}
  maxSloViolationUs : Option ℕ := none

namespace ServingPlane

variable {I : Type} [IndexBackend I]

def withIndexAndPolicy (engines : List ConfiguredEngine) (residency : I) (router : RoutingPolicy) : ServingPlane I where
  engines := engines.map ConfiguredEngine.toEngineEndpoint
  residency := residency
  dataPlane := none
  workers := engines.map ConfiguredEngine.workerState
  router := router

def new (engines : List ConfiguredEngine) : ServingPlane MemoryIndex :=
  withIndexAndPolicy engines {} (.greedyStatePlane {})

def withAdmissionSloLimit (maxViolationUs : ℕ) (self : ServingPlane I) : ServingPlane I :=
  { self with maxSloViolationUs := some maxViolationUs }

def beginRequest (engineId : String) (self : ServingPlane I) : ServingPlane I :=
  match self.workers.findIdx? fun w => w.id = engineId with
  | some k => { self with
      workers := self.workers.modify k fun w => { w with runningDecodes := min (w.runningDecodes + 1) (2 ^ 32 - 1) } }
  | none => self

def decide (hash : String → UInt64) (request : RequestShape) (routeWorkers : List WorkerState)
    (residency : List CacheResidency) (self : ServingPlane I) : Option (Except ControlError RouteDecision) :=
  match ((self.conductor.bind fun pick => pick request routeWorkers).bind fun workerId =>
      routeWorkers.find? fun w => w.id = workerId) with
  | some target => (planForWorker self.costModel request target (workerById routeWorkers) residency).map .ok
  | none => (self.router.route hash request routeWorkers residency).map (Except.mapError ControlError.router)

def route (hash : String → UInt64) (request : RequestShape) (self : ServingPlane I) :
    Option (Except ControlError RouteDecision) :=
  self.decide hash request self.workers (IndexBackend.snapshot self.residency)

/-- The records of a request's blocks, as `plan` looks them up. -/
def located (request : RequestShape) (self : ServingPlane I) : List CacheResidency :=
  request.blocks.flatMap fun block => IndexBackend.locate block self.residency

/-- The workers that `plan` chooses from: those that can decode, or all if none can. -/
def routeWorkers (self : ServingPlane I) : List WorkerState :=
  let decodeWorkers := self.workers.filter fun worker => worker.role.canDecode
  if decodeWorkers.isEmpty then self.workers else decodeWorkers

/-- The worker that prefills for another one that only decodes. -/
def prefillWorker (route : RouteDecision) (self : ServingPlane I) : Option String :=
  let decodeRole := ((self.workers.find? fun worker => worker.id = route.workerId).map WorkerState.role).getD
    .aggregated
  if decodeRole = .decode ∧ !route.recomputes.isEmpty then
    ((self.workers.filter fun worker => worker.role.canPrefill).argmin fun worker =>
      worker.queuedPrefillTokens + worker.runningDecodes * 1000).map WorkerState.id
  else none

def planActions (route : RouteDecision) (prefillWorkerId : Option String) : List PlanAction :=
  (route.localHits.map fun key => ⟨.useLocal, route.workerId, none, some key, some .hbm, 0⟩) ++
  (route.transfers.map fun transfer =>
    ⟨.fetch, route.workerId, some transfer.fromWorkerId, some transfer.key, some transfer.tier, transfer.estimatedUs⟩) ++
  (route.recomputes.map fun recompute =>
    ⟨if prefillWorkerId.isSome then .runPrefill else .recompute, prefillWorkerId.getD route.workerId, none,
      some recompute.key, none, recompute.estimatedUs⟩) ++
  [⟨.decode, route.workerId, prefillWorkerId, none, none, route.estimatedTpotUs⟩]

def plan (hash : String → UInt64) (request : RequestShape) (self : ServingPlane I) :
    Option (Except ControlError RequestPlan) :=
  (self.decide hash request self.routeWorkers (self.located request)).map <| Except.map fun route =>
    let prefillWorkerId := self.prefillWorker route
    { mode := if prefillWorkerId.isSome then .disaggregated else .aggregated
      executionWorkerId := route.workerId
      prefillWorkerId := prefillWorkerId
      decodeWorkerId := route.workerId
      route := route
      actions := planActions route prefillWorkerId }

def judge (plan : RequestPlan) (self : ServingPlane I) : AdmissionDecision :=
  match self.maxSloViolationUs.filter fun limit => limit < plan.route.sloViolationUs with
  | some limit =>
    .reject ("overloaded: best worker '" ++ plan.route.workerId ++ "' would violate SLO by " ++
      toString plan.route.sloViolationUs ++ "us (limit " ++ toString limit ++ "us)") plan.route.sloViolationUs
  | none => .admitted plan

/-- Source: `ControlPlane::admit` -/
def admitRequest (hash : String → UInt64) (request : RequestShape) (self : ServingPlane I) :
    Option (Except ControlError AdmissionDecision) :=
  (self.plan hash request).map <| Except.map self.judge

end ServingPlane

/-! ## Point lookups and snapshots -/

section lookups

variable {cost : CostModel} {request : RequestShape} {target : WorkerState} {workers : String → Option WorkerState}
  {residency residency' : List CacheResidency}

/-- Two lists of records that a plan cannot tell apart: for each block of the request they hold the same copies, and
have the same first cheapest one. -/
structure Indistinct (cost : CostModel) (request : RequestShape) (target : WorkerState)
    (workers : String → Option WorkerState) (residency residency' : List CacheResidency) : Prop where
  copies : ∀ block ∈ request.blocks, ∀ entry : CacheResidency, entry.key = block → (entry ∈ residency ↔ entry ∈ residency')
  cheapest : ∀ block ∈ request.blocks,
    cheapestCopy cost target workers residency block = cheapestCopy cost target workers residency' block

lemma Indistinct.symm (h : Indistinct cost request target workers residency residency') :
    Indistinct cost request target workers residency' residency :=
  ⟨fun block hblock entry hkey => (h.copies block hblock entry hkey).symm,
    fun block hblock => (h.cheapest block hblock).symm⟩

lemma Indistinct.serve_eq (h : Indistinct cost request target workers residency residency') {block : KvBlockKey}
    (hblock : block ∈ request.blocks) :
    serve cost target workers residency block = serve cost target workers residency' block := by
  unfold serve
  rw [h.cheapest block hblock]

lemma Indistinct.ttftUs_eq (h : Indistinct cost request target workers residency residency') :
    ttftUs cost request target workers residency = ttftUs cost request target workers residency' := by
  unfold ttftUs
  rw [← sum_serve, ← sum_serve]
  congr 2
  exact map_congr_left fun block hblock => congrArg Service.us (h.serve_eq hblock)

lemma Indistinct.fits (h : Indistinct cost request target workers residency residency')
    (hfits : Fits cost request target workers residency) : Fits cost request target workers residency' := by
  have httft := h.ttftUs_eq
  refine ⟨?_, httft ▸ hfits.ttft, hfits.tpot, hfits.ttftBudget, hfits.tpotBudget, ?_⟩
  · intro block hblock
    obtain ⟨hprefill, hcopies⟩ := hfits.blocks block hblock
    exact ⟨hprefill, fun entry hmem hkey => hcopies entry ((h.copies block hblock entry hkey).mpr hmem) hkey⟩
  · have hviolation := hfits.violation
    rw [violationUs, httft] at hviolation
    exact hviolation

lemma Indistinct.accountedPlan_eq (h : Indistinct cost request target workers residency residency') :
    accountedPlan cost request target workers residency = accountedPlan cost request target workers residency' := by
  have hserve : request.blocks.map (serve cost target workers residency) =
      request.blocks.map (serve cost target workers residency') :=
    map_congr_left fun block hblock => h.serve_eq hblock
  unfold accountedPlan violationUs
  rw [hserve, h.ttftUs_eq]

lemma Indistinct.planForWorker_eq (h : Indistinct cost request target workers residency residency') :
    planForWorker cost request target workers residency = planForWorker cost request target workers residency' := by
  apply Option.ext
  intro d
  rw [planForWorker_eq_some, planForWorker_eq_some, h.accountedPlan_eq]
  exact and_congr_left fun _ => ⟨h.fits, h.symm.fits⟩

lemma filter_locate {idx : MemoryIndex} (hidx : idx.Exact) (block block' : KvBlockKey) :
    ((idx.locate block').filter fun entry => entry.key = block) = if block' = block then idx.locate block else [] := by
  rw [MemoryIndex.filter_records_of_key fun entry hentry => hidx.mem_locate hentry]
  split_ifs with hblock
  · rw [hblock]
  · rfl

/-- The copies of a block among the records that are looked up for all blocks: those of the block, as often as it
occurs. -/
lemma filter_flatMap_locate {idx : MemoryIndex} (hidx : idx.Exact) {blocks : List KvBlockKey} {block : KvBlockKey}
    (hblock : block ∈ blocks) : ∃ again, again ⊆ idx.locate block ∧
      ((blocks.flatMap fun block' => idx.locate block').filter fun entry => entry.key = block) =
        idx.locate block ++ again := by
  obtain ⟨before, after, rfl, hbefore⟩ := eq_append_cons_of_mem hblock
  refine ⟨after.flatMap fun block' => if block' = block then idx.locate block else [], ?_, ?_⟩
  · intro entry hentry
    obtain ⟨block', -, hmem⟩ := mem_flatMap.mp hentry
    split_ifs at hmem
    · exact hmem
    · exact absurd hmem not_mem_nil
  · have hnil : (before.flatMap fun block' => if block' = block then idx.locate block else []) = [] := by
      refine flatMap_eq_nil_iff.mpr fun block' hblock' => if_neg ?_
      rintro rfl
      exact hbefore hblock'
    rw [filter_flatMap]
    simp only [filter_locate hidx, flatMap_append, flatMap_cons, hnil, if_true, nil_append]

lemma indistinct_lookups {idx : MemoryIndex} (hidx : idx.Exact) :
    Indistinct cost request target workers (request.blocks.flatMap fun block => idx.locate block) idx.snapshot := by
  have hboth : ∀ block ∈ request.blocks, ∃ again, again ⊆ idx.locate block ∧
      ((request.blocks.flatMap fun block' => idx.locate block').filter fun entry => entry.key = block) =
        (idx.snapshot.filter fun entry => entry.key = block) ++ again := by
    intro block hblock
    rw [MemoryIndex.filter_snapshot hidx]
    exact filter_flatMap_locate hidx hblock
  constructor
  · intro block hblock entry hkey
    rw [MemoryIndex.mem_snapshot hidx, hkey, mem_flatMap]
    constructor
    · rintro ⟨block', -, hmem⟩
      rw [← hkey, hidx.mem_locate hmem]
      exact hmem
    · intro hmem
      exact ⟨block, hblock, hmem⟩
  · intro block hblock
    obtain ⟨again, hagain, hfilter⟩ := hboth block hblock
    unfold cheapestCopy
    rw [hfilter]
    apply argmin_append_of_subset
    rw [MemoryIndex.filter_snapshot hidx]
    exact hagain

end lookups

namespace ServingPlane

variable {hash : String → UInt64} {request : RequestShape} {workers : List WorkerState}

/-- The policies whose choice depends on the records through the plans only, and that keep no state. -/
def ReadsPlans (policy : RoutingPolicy) : Prop :=
  ∃ cost, policy = .greedyStatePlane cost ∨ policy = .leastLoaded cost ∨ policy = .prefixAffinity cost ∨
    policy = .sloAware cost ∨ policy = .sessionAffinity cost

lemma route_congr {policy : RoutingPolicy} {residency residency' : List CacheResidency} (hpolicy : ReadsPlans policy)
    (h : ∀ target, planForWorker policy.cost request target (workerById workers) residency =
      planForWorker policy.cost request target (workerById workers) residency') :
    policy.route hash request workers residency = policy.route hash request workers residency' := by
  have hplan := funext h
  obtain ⟨cost, rfl | rfl | rfl | rfl | rfl⟩ := hpolicy
  all_goals
    unfold RoutingPolicy.route
    simp only [hplan]

lemma routeWorkers_eq {I : Type} [IndexBackend I] {c : ServingPlane I}
    (h : (∀ w ∈ c.workers, w.role.canDecode = true) ∨ ∀ w ∈ c.workers, w.role.canDecode = false) :
    c.routeWorkers = c.workers := by
  unfold routeWorkers
  rcases h with h | h
  · rw [filter_eq_self.mpr h, ite_self]
  · have hnil : c.workers.filter (fun worker => worker.role.canDecode) = [] :=
      filter_eq_nil_iff.mpr fun w hw => by rw [h w hw]; exact Bool.false_ne_true
    simp only [hnil, isEmpty_nil, if_true]

/-- **Point lookups route as a snapshot does.** With an index in memory that calls have led to, whatever the request,
and in a fleet in which all workers or none can decode, the route of `plan` is the one of `route`, for every policy that
goes by the plans and whatever the conductor picks.
Source: `ControlPlane::plan`, `ControlPlane::route` -/
theorem plan_routes_as_route (hash : String → UInt64) (request : RequestShape) (c : ServingPlane MemoryIndex)
    (hidx : c.residency.Reachable) (hpolicy : ReadsPlans c.router)
    (hroles : (∀ w ∈ c.workers, w.role.canDecode = true) ∨ ∀ w ∈ c.workers, w.role.canDecode = false) :
    (c.plan hash request).map (Except.map RequestPlan.route) = c.route hash request := by
  have hplan : ∀ cost target, planForWorker cost request target (workerById c.workers) (c.located request) =
      planForWorker cost request target (workerById c.workers) (IndexBackend.snapshot c.residency) := fun cost target =>
    (indistinct_lookups (MemoryIndex.exact_reachable hidx)).planForWorker_eq
  have hdecide : c.decide hash request c.workers (c.located request) = c.route hash request := by
    unfold route decide
    split
    · rw [hplan]
    · rw [route_congr hpolicy (hplan c.router.cost)]
  rw [plan, routeWorkers_eq hroles, hdecide, Option.map_map]
  refine (Option.map_congr fun routed _ => ?_).trans (Option.map_id_apply)
  cases routed <;> rfl

def sampleEngines (fleet : List (String × EngineRole)) : List ConfiguredEngine :=
  fleet.map fun e => { id := e.1, modelId := "m", tokenizerId := "t", tenantId := "u", role := e.2, localityDomain := "x" }

/-- A block that occurs twice is fetched twice, from the first of two copies that cost the same. -/
theorem plan_routes_as_route_twoCopies :
    let c : ServingPlane MemoryIndex := withIndexAndPolicy (sampleEngines [("w", .aggregated), ("v", .decode)])
      ([.put (.hbm "p" (sampleBlock "root" "a" 0) 1024), .put (.hbm "q" (sampleBlock "root" "a" 0) 1024)].foldl
        (fun idx op => (IndexOp.run op idx).2) {}) (.sloAware {})
    let request := sampleRequest [sampleBlock "root" "a" 0, sampleBlock "root" "a" 0]
    (c.plan (fun _ => 0) request).map (Except.map RequestPlan.route) = c.route (fun _ => 0) request ∧
      (c.route (fun _ => 0) request).any fun routed => routed.toOption.any fun d =>
        d.transfers.map TransferPlan.fromWorkerId = ["p", "p"] := by
  intro c request
  refine ⟨plan_routes_as_route _ _ _ (MemoryIndex.reachable_of_ops _) ⟨{}, ?_⟩ (.inl ?_), by decide +kernel⟩
  · exact Or.inr (Or.inr (Or.inr (.inl rfl)))
  · decide

end ServingPlane

end QuillCache.Core
