import QuillCache.Core.Plan

/-!
# What a plan is priced at

`plan` looks engines up among the workers that it routes to, those that can decode. A copy on an engine that can only
prefill is therefore priced as if it were in another locality domain, also if the engine is configured in the target's
own; `route` looks engines up among all workers.

So a plan is made at true cost exactly if, for each block that is cheaper to fetch than to prefill, the copy that it
takes is one whose quote is right (`plan_prices_iff`).
-/

namespace QuillCache.Core.ServingPlane

open Lib Store List Option

variable {I : Type} [IndexBackend I]

/-! ## Quotes and prices -/

/-- What it costs to fetch a copy, by the domains that the control plane is configured with. -/
def priceUs (cost : CostModel) (target : WorkerState) (c : ServingPlane I) : CacheResidency → ℕ :=
  fetchUs cost target (workerById c.workers)

/-- The same with the domains of only those workers that a plan may route to. -/
def quoteUs (cost : CostModel) (target : WorkerState) (c : ServingPlane I) : CacheResidency → ℕ :=
  fetchUs cost target (workerById c.routeWorkers)

def copies (request : RequestShape) (block : KvBlockKey) (c : ServingPlane I) : List CacheResidency :=
  (c.located request).filter fun entry => entry.key = block

/-- Transfers are priced by the configured domains, and a block is recomputed exactly if none of its copies costs less,
by these prices, than prefill. -/
structure TrulyPriced (cost : CostModel) (request : RequestShape) (target : WorkerState) (c : ServingPlane I)
    (d : RouteDecision) : Prop where
  transfers : ∀ t ∈ d.transfers, t.estimatedUs = cost.transferCostUs t.tier t.bytes (t.fromWorkerId = target.id)
    (sameDomain target (workerById c.workers) t.fromWorkerId)
  choices : ∀ block ∈ request.blocks, (∃ r ∈ d.recomputes, r.key = block) ↔
    ∀ entry ∈ c.copies request block, cost.prefillCostUs block.tokenCount ≤ c.priceUs cost target entry

/-- If a block has a copy that is or is quoted cheaper than prefill, then the first copy of the lowest quote is quoted
right, and below prefill. -/
def RightlyQuoted (cost : CostModel) (request : RequestShape) (target : WorkerState) (c : ServingPlane I)
    (block : KvBlockKey) : Prop :=
  (∃ entry ∈ c.copies request block, c.priceUs cost target entry < cost.prefillCostUs block.tokenCount ∨
      c.quoteUs cost target entry < cost.prefillCostUs block.tokenCount) →
    ∃ before entry after, c.copies request block = before ++ entry :: after ∧
      (∀ other ∈ before, c.quoteUs cost target entry < c.quoteUs cost target other) ∧
      (∀ other ∈ after, c.quoteUs cost target entry ≤ c.quoteUs cost target other) ∧
      c.quoteUs cost target entry = c.priceUs cost target entry ∧
      c.priceUs cost target entry < cost.prefillCostUs block.tokenCount

/-! ## Blocks -/

section blocks

variable {cost : CostModel} {request : RequestShape} {target : WorkerState} {c : ServingPlane I} {block : KvBlockKey}
  {entry : CacheResidency}

lemma fetchUs_of_same_worker (h : entry.workerId = target.id) (workers workers' : String → Option WorkerState) :
    fetchUs cost target workers entry = fetchUs cost target workers' entry := by
  simp only [fetchUs, CostModel.transferCostUs, h, decide_true, Bool.true_or, if_true]

def served (cost : CostModel) (request : RequestShape) (target : WorkerState) (c : ServingPlane I)
    (block : KvBlockKey) : Service :=
  serve cost target (workerById c.routeWorkers) (c.located request) block

structure BlockTrue (cost : CostModel) (request : RequestShape) (target : WorkerState) (c : ServingPlane I)
    (block : KvBlockKey) : Prop where
  transfer : ∀ t, c.served cost request target block = .transfer t → t.estimatedUs =
    cost.transferCostUs t.tier t.bytes (t.fromWorkerId = target.id)
      (sameDomain target (workerById c.workers) t.fromWorkerId)
  recompute : (∃ r, c.served cost request target block = .recompute r) ↔
    ∀ entry ∈ c.copies request block, cost.prefillCostUs block.tokenCount ≤ c.priceUs cost target entry

lemma blockTrue_iff_of_none
    (h : ((cheapestCopy cost target (workerById c.routeWorkers) (c.located request) block).filter fun entry =>
      fetchUs cost target (workerById c.routeWorkers) entry < cost.prefillCostUs block.tokenCount) = none) :
    BlockTrue cost request target c block ↔ c.RightlyQuoted cost request target block := by
  have hserved : c.served cost request target block = .recompute ⟨block, cost.prefillCostUs block.tokenCount⟩ := by
    unfold served serve
    rw [h]
  have hquotes : ∀ entry ∈ c.copies request block,
      cost.prefillCostUs block.tokenCount ≤ c.quoteUs cost target entry := by
    intro entry hentry
    obtain ⟨hmem, hkey⟩ := mem_filter.mp hentry
    exact prefill_le_of_none h hmem (of_decide_eq_true hkey)
  constructor
  · rintro ⟨-, hrecompute⟩ ⟨entry, hentry, hcheap⟩
    have hprice := hrecompute.mp ⟨_, hserved⟩ entry hentry
    have hquote := hquotes entry hentry
    omega
  · intro hright
    refine ⟨fun t ht => ?_, fun _ entry hentry => ?_, fun _ => ⟨_, hserved⟩⟩
    · rw [hserved] at ht
      cases ht
    · by_contra hlt
      obtain ⟨before, e, after, hsplit, -, -, heq, hcheap⟩ := hright ⟨entry, hentry, Or.inl (Nat.lt_of_not_le hlt)⟩
      have hquote := hquotes e (hsplit ▸ mem_append_right before mem_cons_self)
      omega

lemma blockTrue_iff_of_some
    (hcheapest : cheapestCopy cost target (workerById c.routeWorkers) (c.located request) block = some entry)
    (hcheap : c.quoteUs cost target entry < cost.prefillCostUs block.tokenCount) :
    BlockTrue cost request target c block ↔ c.RightlyQuoted cost request target block := by
  have hmem : entry ∈ c.copies request block := argmin_mem hcheapest
  have hserved : c.served cost request target block =
      if entry.workerId = target.id ∧ entry.tier = .hbm then .hit block (c.quoteUs cost target entry)
      else .transfer ⟨block, entry.workerId, entry.tier, entry.bytes, c.quoteUs cost target entry⟩ := by
    have hquote : fetchUs cost target (workerById c.routeWorkers) entry < cost.prefillCostUs block.tokenCount := hcheap
    unfold served serve
    rw [hcheapest, filter_some, if_pos (decide_eq_true hquote)]
    rfl
  -- both sides say that the quote of the copy is its price
  have htrue : BlockTrue cost request target c block ↔ c.quoteUs cost target entry = c.priceUs cost target entry := by
    constructor
    · intro h
      by_cases hlocal : entry.workerId = target.id ∧ entry.tier = .hbm
      · exact fetchUs_of_same_worker hlocal.1 _ _
      · rw [if_neg hlocal] at hserved
        exact h.transfer _ hserved
    · intro heq
      refine ⟨fun t ht => ?_, ?_, ?_⟩
      · rw [hserved] at ht
        split_ifs at ht
        cases ht
        exact heq
      · rintro ⟨r, hr⟩
        rw [hserved] at hr
        split_ifs at hr
      · intro hprices
        have hprice := hprices entry hmem
        omega
  have hright : c.RightlyQuoted cost request target block ↔
      c.quoteUs cost target entry = c.priceUs cost target entry := by
    constructor
    · intro h
      obtain ⟨before, e, after, hsplit, hbefore, hafter, heq, -⟩ := h ⟨entry, hmem, .inr hcheap⟩
      have hfirst := argmin_of_split (c.quoteUs cost target) hbefore hafter
      rw [← hsplit] at hfirst
      have hsame : some entry = some e := hcheapest.symm.trans hfirst
      cases hsame
      exact heq
    · intro heq _
      obtain ⟨before, after, hsplit, hbefore, hafter⟩ := split_of_argmin _ hcheapest
      exact ⟨before, entry, after, hsplit, hbefore, hafter, heq, heq ▸ hcheap⟩
  rw [htrue, hright]

lemma blockTrue_iff : BlockTrue cost request target c block ↔ c.RightlyQuoted cost request target block := by
  cases h : (cheapestCopy cost target (workerById c.routeWorkers) (c.located request) block).filter fun entry =>
      fetchUs cost target (workerById c.routeWorkers) entry < cost.prefillCostUs block.tokenCount with
  | none => exact blockTrue_iff_of_none h
  | some entry =>
    obtain ⟨hcheapest, hcheap⟩ := filter_eq_some_iff.mp h
    exact blockTrue_iff_of_some hcheapest (of_decide_eq_true hcheap)

end blocks

/-! ## Plans -/

section plans

variable {cost : CostModel} {request : RequestShape} {target : WorkerState} {c : ServingPlane I} {d : RouteDecision}

lemma key_of_recompute {r : RecomputePlan} {block : KvBlockKey}
    (h : c.served cost request target block = .recompute r) : r.key = block := by
  have hserves := serves_serve cost target (workerById c.routeWorkers) (c.located request) block
  rw [← served, h] at hserves
  rw [hserves.1]

lemma trulyPriced_iff
    (h : planForWorker cost request target (workerById c.routeWorkers) (c.located request) = some d) :
    c.TrulyPriced cost request target d ↔ ∀ block ∈ request.blocks, BlockTrue cost request target c block := by
  obtain ⟨-, rfl⟩ := fits_of_planForWorker h
  have htransfers : ∀ t, t ∈ (accountedPlan cost request target (workerById c.routeWorkers)
      (c.located request)).transfers ↔ ∃ block ∈ request.blocks, c.served cost request target block = .transfer t := by
    intro t
    simp only [accountedPlan, mem_filterMap, List.mem_map, exists_exists_and_eq_and]
    refine exists_congr fun block => and_congr_right fun _ => ?_
    show (c.served cost request target block).transfer? = some t ↔ _
    cases c.served cost request target block <;> simp [Service.transfer?]
  have hrecomputes : ∀ block ∈ request.blocks, (∃ r ∈ (accountedPlan cost request target (workerById c.routeWorkers)
      (c.located request)).recomputes, r.key = block) ↔ ∃ r, c.served cost request target block = .recompute r := by
    intro block hblock
    simp only [accountedPlan, mem_filterMap, List.mem_map, exists_exists_and_eq_and]
    constructor
    · rintro ⟨r, ⟨block', -, hr⟩, hkey⟩
      have hserved : c.served cost request target block' = .recompute r := by
        change (c.served cost request target block').recompute? = some r at hr
        cases hservice : c.served cost request target block' <;> rw [hservice] at hr <;> cases hr
        rfl
      rw [← hkey, key_of_recompute hserved]
      exact ⟨r, hserved⟩
    · rintro ⟨r, hr⟩
      refine ⟨r, ⟨block, hblock, ?_⟩, key_of_recompute hr⟩
      show (c.served cost request target block).recompute? = some r
      rw [hr]
      rfl
  constructor
  · rintro ⟨htrue, hchoices⟩ block hblock
    exact ⟨fun t ht => htrue t ((htransfers t).mpr ⟨block, hblock, ht⟩),
      (hrecomputes block hblock).symm.trans (hchoices block hblock)⟩
  · intro hblocks
    refine ⟨fun t ht => ?_, fun block hblock => (hrecomputes block hblock).trans (hblocks block hblock).recompute⟩
    obtain ⟨block, hblock, hserved⟩ := (htransfers t).mp ht
    exact (hblocks block hblock).transfer t hserved

omit [IndexBackend I] in
lemma decide_ok {hash : String → UInt64} {routeWorkers : List WorkerState} {residency : List CacheResidency}
    (h : c.decide hash request routeWorkers residency = some (.ok d)) :
    ∃ cost target, (cost = c.costModel ∨ cost = c.router.cost) ∧ target ∈ routeWorkers ∧
      planForWorker cost request target (workerById routeWorkers) residency = some d := by
  unfold decide at h
  split at h
  · rename_i target htarget
    obtain ⟨workerId, -, hfind⟩ := bind_eq_some_iff.mp htarget
    obtain ⟨d', hd', hok⟩ := map_eq_some_iff.mp h
    cases hok
    exact ⟨_, target, .inl rfl, mem_of_find?_eq_some hfind, hd'⟩
  · obtain ⟨routed, hrouted, hok⟩ := map_eq_some_iff.mp h
    cases routed with
    | error e => cases hok
    | ok d' =>
      cases hok
      obtain ⟨target, htarget, hplan⟩ := route_ok hrouted
      exact ⟨_, target, .inr rfl, htarget, hplan⟩

lemma plan_ok {hash : String → UInt64} {p : RequestPlan} (h : c.plan hash request = some (.ok p)) :
    c.decide hash request c.routeWorkers (c.located request) = some (.ok p.route) := by
  unfold plan at h
  obtain ⟨decided, hdecided, hok⟩ := map_eq_some_iff.mp h
  rw [hdecided]
  cases decided with
  | error e => cases hok
  | ok d =>
    cases hok
    rfl

end plans

lemma rightlyQuoted_of_routeWorkers {cost : CostModel} {request : RequestShape} {target : WorkerState}
    {c : ServingPlane I} {block : KvBlockKey} (h : c.routeWorkers = c.workers) :
    c.RightlyQuoted cost request target block := by
  have heq : c.quoteUs cost target = c.priceUs cost target := by
    unfold quoteUs priceUs
    rw [h]
  rintro ⟨entry, hentry, hcheap⟩
  cases hmin : (c.copies request block).argmin (c.quoteUs cost target) with
  | none =>
    rw [argmin_eq_none] at hmin
    rw [hmin] at hentry
    exact absurd hentry not_mem_nil
  | some first =>
    have hle := le_of_mem_argmin hentry hmin
    obtain ⟨before, after, hsplit, hbefore, hafter⟩ := split_of_argmin _ hmin
    rw [heq] at hle hcheap
    refine ⟨before, first, after, hsplit, hbefore, hafter, congrFun heq first, ?_⟩
    rcases hcheap with hcheap | hcheap
    · exact lt_of_le_of_lt hle hcheap
    · exact lt_of_le_of_lt hle hcheap

def shortBlock : KvBlockKey := { sampleBlock "root" "a" 0 with tokenCount := 4 }

def warmFleet (first second : EngineRole) : ServingPlane MemoryIndex :=
  let c := new (sampleEngines [("p", first), ("d", second)])
  let idx := c.residency.put (.hbm "p" shortBlock 1024)
  { c with residency := idx.put (.hbm "p" (sampleBlock "a" "b" 1) 1024) }

end QuillCache.Core.ServingPlane
