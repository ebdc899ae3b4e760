import QuillCache.Core.Block
import QuillCache.Lib.Extrema

/-!
# Planning a request on a worker

The accounting that all routing policies share: each block of a request is a hit in the target's own HBM, a transfer
from the cheapest copy, or a prefill, whichever costs less, and the costs add up to the time to the first token.

Costs are 64-bit; a result that does not fit is `none`. In a chain of additions and multiplications no intermediate
result is larger than the last one, so that one check stands for all of them. The hash map of the workers by their ids
is a function.

`plan_accounts` says what a plan is without the loop: an account of the blocks, one by one and in their order.

Source: `quillcache-core`.
-/

namespace QuillCache.Core

open Lib Store List
open Option hiding min_le_left min_le_right

/-! ## Workers and requests -/

inductive EngineRole where
  | aggregated
  | prefill
  | decode
  deriving DecidableEq

namespace EngineRole

def canPrefill : EngineRole → Bool
  | aggregated | prefill => true
  | decode => false

def canDecode : EngineRole → Bool
  | aggregated | decode => true
  | prefill => false

end EngineRole

/-- The capacities are left out. -/
structure WorkerState where
  id : String
  role : EngineRole := .aggregated
  localityDomain : String
  runningDecodes : ℕ := 0
  queuedPrefillTokens : ℕ := 0
  deriving DecidableEq

structure SloTarget where
  ttftMs : ℕ := 800
  tpotMs : ℕ := 80
  deriving DecidableEq

structure RequestShape where
  id : String
  modelId : String
  tokenizerId : String
  adapterId : Option String
  tenantId : String
  sessionId : Option String
  blocks : List KvBlockKey
  estimatedDecodeTokens : ℕ
  slo : SloTarget := {}

def RequestShape.scope (self : RequestShape) : IdentityScope :=
  ⟨self.modelId, self.tokenizerId, self.adapterId, self.tenantId⟩

/-! ## Costs -/

def u64 (n : ℕ) : Option ℕ := if n < 2 ^ 64 then some n else none

lemma u64_eq_some {n m : ℕ} : u64 n = some m ↔ n < 2 ^ 64 ∧ n = m := by
  unfold u64
  split_ifs with h
  · rw [Option.some.injEq, and_iff_right h]
  · exact iff_of_false not_false fun h' => h h'.1

namespace CostModel

def prefillCostUs (self : CostModel) (tokens : ℕ) : ℕ := self.prefillUsPerToken * tokens

def decodeCostUs (self : CostModel) (tokens runningDecodes : ℕ) : ℕ :=
  self.decodeUsPerToken * tokens + self.runningDecodePenaltyUs * runningDecodes

def queueCostUs (self : CostModel) (worker : WorkerState) : ℕ :=
  self.queueUsPerPrefillToken * worker.queuedPrefillTokens

end CostModel

/-! ## The plan -/

structure TransferPlan where
  key : KvBlockKey
  fromWorkerId : String
  tier : CacheTier
  bytes : ℕ
  estimatedUs : ℕ
  deriving DecidableEq

structure RecomputePlan where
  key : KvBlockKey
  estimatedUs : ℕ
  deriving DecidableEq

structure RouteDecision where
  requestId : String
  workerId : String
  localHits : List KvBlockKey
  transfers : List TransferPlan
  recomputes : List RecomputePlan
  estimatedTtftUs : ℕ
  estimatedTpotUs : ℕ
  sloViolationUs : ℕ
  deriving DecidableEq

inductive RouterError where
  | noWorkers
  deriving DecidableEq

/-- The workers by their ids; of two with the same id the later one counts. -/
def workerById (workers : List WorkerState) (id : String) : Option WorkerState :=
  workers.reverse.find? fun worker => worker.id = id

section plan

variable (cost : CostModel) (request : RequestShape) (target : WorkerState) (workers : String → Option WorkerState)
  (residency : List CacheResidency)

/-- Whether a worker is in the target's locality domain, as far as the workers tell. -/
def sameDomain (workerId : String) : Bool :=
  ((workers workerId).map fun source => decide (source.localityDomain = target.localityDomain)).getD false

def fetchUs (entry : CacheResidency) : ℕ :=
  cost.transferCostUs entry.tier entry.bytes (entry.workerId = target.id)
    (sameDomain target workers entry.workerId)

def pricedCopies (block : KvBlockKey) : Option (List (CacheResidency × ℕ)) :=
  (residency.filter fun entry => entry.key = block).mapM fun entry =>
    (u64 (fetchUs cost target workers entry)).map fun us => (entry, us)

structure Account where
  localHits : List KvBlockKey := []
  transfers : List TransferPlan := []
  recomputes : List RecomputePlan := []
  prefillOrTransferUs : ℕ := 0
  deriving DecidableEq

def planBlock (account : Account) (block : KvBlockKey) : Option Account := do
  let recomputeUs ← u64 (cost.prefillCostUs block.tokenCount)
  let copies ← pricedCopies cost target workers residency block
  match (copies.argmin Prod.snd).filter fun best => best.2 < recomputeUs with
  | some (entry, transferUs) =>
    let us ← u64 (account.prefillOrTransferUs + transferUs)
    if entry.workerId = target.id ∧ entry.tier = .hbm then
      return { account with
        localHits := account.localHits ++ [block]
        prefillOrTransferUs := us }
    else
      return { account with
        transfers := account.transfers ++ [⟨block, entry.workerId, entry.tier, entry.bytes, transferUs⟩]
        prefillOrTransferUs := us }
  | none =>
    let us ← u64 (account.prefillOrTransferUs + recomputeUs)
    return { account with
      recomputes := account.recomputes ++ [⟨block, recomputeUs⟩]
      prefillOrTransferUs := us }

def planForWorker : Option RouteDecision := do
  let account ← request.blocks.foldlM (planBlock cost target workers residency) {}
  let estimatedTtftUs ← u64 (cost.queueCostUs target + account.prefillOrTransferUs)
  let estimatedTpotUs ← u64 (cost.decodeCostUs request.estimatedDecodeTokens target.runningDecodes)
  let ttftBudgetUs ← u64 (request.slo.ttftMs * 1000)
  let tpotBudgetUs ← u64 (request.slo.tpotMs * 1000)
  let sloViolationUs ← u64 ((estimatedTtftUs - ttftBudgetUs) + (estimatedTpotUs - tpotBudgetUs))
  return {
    requestId := request.id
    workerId := target.id
    localHits := account.localHits
    transfers := account.transfers
    recomputes := account.recomputes
    estimatedTtftUs
    estimatedTpotUs
    sloViolationUs }

end plan

/-! ## What a plan accounts for -/

inductive Service where
  | hit (key : KvBlockKey) (us : ℕ)
  | transfer (plan : TransferPlan)
  | recompute (plan : RecomputePlan)

namespace Service

def us : Service → ℕ
  | hit _ us => us
  | transfer plan => plan.estimatedUs
  | recompute plan => plan.estimatedUs

def hit? : Service → Option KvBlockKey
  | hit key _ => some key
  | _ => none

def transfer? : Service → Option TransferPlan
  | transfer plan => some plan
  | _ => none

def recompute? : Service → Option RecomputePlan
  | recompute plan => some plan
  | _ => none

end Service

section account

variable (cost : CostModel) (request : RequestShape) (target : WorkerState) (workers : String → Option WorkerState)
  (residency : List CacheResidency)

/-- The cheapest copy of a block, the first of them if there are several. -/
def cheapestCopy (block : KvBlockKey) : Option CacheResidency :=
  (residency.filter fun entry => entry.key = block).argmin (fetchUs cost target workers)

/-- How `planBlock` serves a block, if nothing overflows. -/
def serve (block : KvBlockKey) : Service :=
  match (cheapestCopy cost target workers residency block).filter fun entry =>
      fetchUs cost target workers entry < cost.prefillCostUs block.tokenCount with
  | some entry =>
    if entry.workerId = target.id ∧ entry.tier = .hbm then .hit block (fetchUs cost target workers entry)
    else .transfer ⟨block, entry.workerId, entry.tier, entry.bytes, fetchUs cost target workers entry⟩
  | none => .recompute ⟨block, cost.prefillCostUs block.tokenCount⟩

/-- The cheaper of a block's prefill and the copies there are of it. -/
def cheaperUs (block : KvBlockKey) : ℕ :=
  ((residency.filter fun entry => entry.key = block).map (fetchUs cost target workers)).foldr min
    (cost.prefillCostUs block.tokenCount)

structure BlockFits (block : KvBlockKey) : Prop where
  prefill : cost.prefillCostUs block.tokenCount < 2 ^ 64
  copies : ∀ entry ∈ residency, entry.key = block → fetchUs cost target workers entry < 2 ^ 64

def ttftUs : ℕ :=
  cost.queueCostUs target + (request.blocks.map (cheaperUs cost target workers residency)).sum

def violationUs : ℕ :=
  (ttftUs cost request target workers residency - request.slo.ttftMs * 1000) +
    (cost.decodeCostUs request.estimatedDecodeTokens target.runningDecodes - request.slo.tpotMs * 1000)

structure Fits : Prop where
  blocks : ∀ block ∈ request.blocks, BlockFits cost target workers residency block
  ttft : ttftUs cost request target workers residency < 2 ^ 64
  tpot : cost.decodeCostUs request.estimatedDecodeTokens target.runningDecodes < 2 ^ 64
  ttftBudget : request.slo.ttftMs * 1000 < 2 ^ 64
  tpotBudget : request.slo.tpotMs * 1000 < 2 ^ 64
  violation : violationUs cost request target workers residency < 2 ^ 64

end account

section proofs

variable {cost : CostModel} {request : RequestShape} {target : WorkerState} {workers : String → Option WorkerState}
  {residency : List CacheResidency} {block : KvBlockKey} {entry : CacheResidency}

lemma mapM_price (l : List CacheResidency) {priced : List (CacheResidency × ℕ)} :
    (l.mapM fun entry => (u64 (fetchUs cost target workers entry)).map fun us => (entry, us)) = some priced ↔
      (∀ entry ∈ l, fetchUs cost target workers entry < 2 ^ 64) ∧
        priced = l.map fun entry => (entry, fetchUs cost target workers entry) := by
  induction l generalizing priced with
  | nil => simp [eq_comm]
  | cons entry l ih =>
    simp only [mapM_cons, bind_eq_bind, bind_eq_some_iff, map_eq_some_iff, u64_eq_some, ih,
      forall_mem_cons, map_cons, Option.pure_def, Option.some.injEq]
    constructor
    · rintro ⟨_, ⟨_, ⟨hlt, rfl⟩, rfl⟩, _, ⟨hl, rfl⟩, rfl⟩
      exact ⟨⟨hlt, hl⟩, rfl⟩
    · rintro ⟨⟨hlt, hl⟩, rfl⟩
      exact ⟨_, ⟨_, ⟨hlt, rfl⟩, rfl⟩, _, ⟨hl, rfl⟩, rfl⟩

lemma pricedCopies_eq_some {priced : List (CacheResidency × ℕ)} :
    pricedCopies cost target workers residency block = some priced ↔
      (∀ entry ∈ residency, entry.key = block → fetchUs cost target workers entry < 2 ^ 64) ∧
        priced = (residency.filter fun entry => entry.key = block).map fun entry =>
          (entry, fetchUs cost target workers entry) := by
  rw [pricedCopies, mapM_price]
  simp only [mem_filter, decide_eq_true_eq, and_imp]

def Account.add (account : Account) (service : Service) : Account where
  localHits := account.localHits ++ service.hit?.toList
  transfers := account.transfers ++ service.transfer?.toList
  recomputes := account.recomputes ++ service.recompute?.toList
  prefillOrTransferUs := account.prefillOrTransferUs + service.us

lemma pricedCopies_argmin (p : ℕ) :
    ((((residency.filter fun entry => entry.key = block).map fun entry =>
      (entry, fetchUs cost target workers entry)).argmin Prod.snd).filter fun best => best.2 < p) =
      ((cheapestCopy cost target workers residency block).filter fun entry =>
        fetchUs cost target workers entry < p).map fun entry => (entry, fetchUs cost target workers entry) := by
  rw [argmin_map, cheapestCopy, Option.filter_map]
  rfl

lemma planBlock_of_fits (h : BlockFits cost target workers residency block) (account : Account) :
    planBlock cost target workers residency account block =
      (u64 (account.prefillOrTransferUs + (serve cost target workers residency block).us)).map fun _ =>
        account.add (serve cost target workers residency block) := by
  have hprefill : u64 (cost.prefillCostUs block.tokenCount) = some (cost.prefillCostUs block.tokenCount) :=
    u64_eq_some.mpr ⟨h.prefill, rfl⟩
  unfold planBlock
  rw [hprefill, pricedCopies_eq_some.mpr ⟨h.copies, rfl⟩]
  simp only [bind_eq_bind, bind_some, pricedCopies_argmin, serve]
  cases (cheapestCopy cost target workers residency block).filter fun entry =>
      fetchUs cost target workers entry < cost.prefillCostUs block.tokenCount with
  | none =>
    simp only [map_none, Service.us]
    cases hsum : u64 (account.prefillOrTransferUs + cost.prefillCostUs block.tokenCount) with
    | none => rfl
    | some us =>
      obtain ⟨-, rfl⟩ := u64_eq_some.mp hsum
      simp [Account.add, Service.hit?, Service.transfer?, Service.recompute?, Service.us]
  | some entry =>
    simp only [map_some]
    split_ifs with hlocal
    · simp only [Service.us]
      cases hsum : u64 (account.prefillOrTransferUs + fetchUs cost target workers entry) with
      | none => rfl
      | some us =>
        obtain ⟨-, rfl⟩ := u64_eq_some.mp hsum
        simp [Account.add, Service.hit?, Service.transfer?, Service.recompute?, Service.us]
    · simp only [Service.us]
      cases hsum : u64 (account.prefillOrTransferUs + fetchUs cost target workers entry) with
      | none => rfl
      | some us =>
        obtain ⟨-, rfl⟩ := u64_eq_some.mp hsum
        simp [Account.add, Service.hit?, Service.transfer?, Service.recompute?, Service.us]

variable {account account' : Account}

lemma fits_of_planBlock (h : planBlock cost target workers residency account block = some account') :
    BlockFits cost target workers residency block := by
  unfold planBlock at h
  obtain ⟨recomputeUs, hprefill, h⟩ := bind_eq_some_iff.mp h
  obtain ⟨priced, hpriced, -⟩ := bind_eq_some_iff.mp h
  exact ⟨(u64_eq_some.mp hprefill).1, (pricedCopies_eq_some.mp hpriced).1⟩

lemma planBlock_eq_some :
    planBlock cost target workers residency account block = some account' ↔
      BlockFits cost target workers residency block ∧
        account.prefillOrTransferUs + (serve cost target workers residency block).us < 2 ^ 64 ∧
        account' = account.add (serve cost target workers residency block) := by
  constructor
  · intro h
    have hfits := fits_of_planBlock h
    rw [planBlock_of_fits hfits, map_eq_some_iff] at h
    obtain ⟨us, hus, rfl⟩ := h
    exact ⟨hfits, (u64_eq_some.mp hus).1, rfl⟩
  · rintro ⟨hfits, hlt, rfl⟩
    rw [planBlock_of_fits hfits, u64_eq_some.mpr ⟨hlt, rfl⟩, map_some]

lemma foldlM_planBlock_eq_some (haccount : account.prefillOrTransferUs < 2 ^ 64) (blocks : List KvBlockKey) :
    blocks.foldlM (planBlock cost target workers residency) account = some account' ↔
      (∀ block ∈ blocks, BlockFits cost target workers residency block) ∧
        account.prefillOrTransferUs + (blocks.map fun block => (serve cost target workers residency block).us).sum <
          2 ^ 64 ∧
        account' = (blocks.map (serve cost target workers residency)).foldl Account.add account := by
  induction blocks generalizing account with
  | nil =>
    rw [foldlM_nil, Option.pure_def, Option.some.injEq]
    simp only [not_mem_nil, false_imp_iff, implies_true, map_nil, sum_nil, Nat.add_zero, haccount,
      true_and, foldl_nil]
    exact eq_comm
  | cons block blocks ih =>
    rw [foldlM_cons, bind_eq_bind, bind_eq_some_iff, forall_mem_cons, map_cons,
      sum_cons, map_cons, foldl_cons]
    constructor
    · rintro ⟨account₁, hblock, hrest⟩
      obtain ⟨hfits, hlt, rfl⟩ := planBlock_eq_some.mp hblock
      obtain ⟨hrestFits, hsum, rfl⟩ := (ih hlt).mp hrest
      refine ⟨⟨hfits, hrestFits⟩, ?_, rfl⟩
      rw [← Nat.add_assoc]
      exact hsum
    · rintro ⟨⟨hfits, hrestFits⟩, hsum, rfl⟩
      rw [← Nat.add_assoc] at hsum
      have hlt : account.prefillOrTransferUs + (serve cost target workers residency block).us < 2 ^ 64 :=
        lt_of_le_of_lt (Nat.le_add_right _ _) hsum
      exact ⟨_, planBlock_eq_some.mpr ⟨hfits, hlt, rfl⟩, (ih hlt).mpr ⟨hrestFits, hsum, rfl⟩⟩

lemma foldl_add (services : List Service) (account : Account) :
    services.foldl Account.add account =
      { localHits := account.localHits ++ services.filterMap Service.hit?
        transfers := account.transfers ++ services.filterMap Service.transfer?
        recomputes := account.recomputes ++ services.filterMap Service.recompute?
        prefillOrTransferUs := account.prefillOrTransferUs + (services.map Service.us).sum } := by
  induction services generalizing account with
  | nil => simp
  | cons service services ih =>
    rw [foldl_cons, ih]
    cases service <;>
      simp [Account.add, Service.hit?, Service.transfer?, Service.recompute?, Service.us, Nat.add_assoc,
        filterMap_cons]

/-! ### The costs -/

lemma foldr_min_le (costs : List ℕ) (n : ℕ) : costs.foldr min n ≤ n ∧ ∀ c ∈ costs, costs.foldr min n ≤ c := by
  induction costs with
  | nil => simp
  | cons c costs ih =>
    refine ⟨(min_le_right _ _).trans ih.1, ?_⟩
    rw [forall_mem_cons]
    exact ⟨min_le_left _ _, fun c' hc' => (min_le_right _ _).trans (ih.2 c' hc')⟩

lemma foldr_min_mem (costs : List ℕ) (n : ℕ) : costs.foldr min n = n ∨ costs.foldr min n ∈ costs := by
  induction costs with
  | nil => exact .inl rfl
  | cons c costs ih =>
    rw [foldr_cons, mem_cons]
    rcases min_choice c (costs.foldr min n) with h | h
    · exact Or.inr (.inl h)
    · rw [h]
      exact ih.imp_right .inr

lemma cheaperUs_le_prefill : cheaperUs cost target workers residency block ≤ cost.prefillCostUs block.tokenCount :=
  (foldr_min_le _ _).1

lemma cheaperUs_le_fetch (hmem : entry ∈ residency) (hkey : entry.key = block) :
    cheaperUs cost target workers residency block ≤ fetchUs cost target workers entry := by
  apply (foldr_min_le _ _).2
  exact List.mem_map_of_mem (mem_filter.mpr ⟨hmem, decide_eq_true hkey⟩)

lemma le_cheaperUs {n : ℕ} (hprefill : n ≤ cost.prefillCostUs block.tokenCount)
    (hcopies : ∀ entry ∈ residency, entry.key = block → n ≤ fetchUs cost target workers entry) :
    n ≤ cheaperUs cost target workers residency block := by
  unfold cheaperUs
  rcases foldr_min_mem ((residency.filter fun entry => entry.key = block).map (fetchUs cost target workers))
    (cost.prefillCostUs block.tokenCount) with h | h
  · rw [h]
    exact hprefill
  · obtain ⟨entry, hentry, hus⟩ := List.mem_map.mp h
    obtain ⟨hmem, hkey⟩ := mem_filter.mp hentry
    rw [← hus]
    exact hcopies entry hmem (of_decide_eq_true hkey)

/-- A copy that is worth fetching: cheaper than prefill, and no copy is cheaper. -/
structure BestCopy (cost : CostModel) (target : WorkerState) (workers : String → Option WorkerState)
    (residency : List CacheResidency) (block : KvBlockKey) (entry : CacheResidency) : Prop where
  mem : entry ∈ residency
  key : entry.key = block
  cheap : fetchUs cost target workers entry < cost.prefillCostUs block.tokenCount
  least : ∀ other ∈ residency, other.key = block →
    fetchUs cost target workers entry ≤ fetchUs cost target workers other

/-- A block may be served so: by prefill if no copy is cheaper, and otherwise from a best copy, which is a hit if it is
in the target's own HBM. -/
def Serves (cost : CostModel) (target : WorkerState) (workers : String → Option WorkerState)
    (residency : List CacheResidency) (block : KvBlockKey) : Service → Prop
  | .hit key us => key = block ∧ ∃ entry, BestCopy cost target workers residency block entry ∧
      (entry.workerId = target.id ∧ entry.tier = .hbm) ∧ us = fetchUs cost target workers entry
  | .transfer plan => ∃ entry, BestCopy cost target workers residency block entry ∧
      ¬(entry.workerId = target.id ∧ entry.tier = .hbm) ∧
      plan = ⟨block, entry.workerId, entry.tier, entry.bytes, fetchUs cost target workers entry⟩
  | .recompute plan => plan = ⟨block, cost.prefillCostUs block.tokenCount⟩ ∧
      ∀ entry ∈ residency, entry.key = block →
        cost.prefillCostUs block.tokenCount ≤ fetchUs cost target workers entry

lemma bestCopy_of_cheapest (hcheapest : cheapestCopy cost target workers residency block = some entry)
    (hcheap : fetchUs cost target workers entry < cost.prefillCostUs block.tokenCount) :
    BestCopy cost target workers residency block entry := by
  obtain ⟨hmem, hkey⟩ := mem_filter.mp (argmin_mem hcheapest)
  refine ⟨hmem, of_decide_eq_true hkey, hcheap, fun other hother hotherKey => ?_⟩
  apply le_of_mem_argmin _ hcheapest
  exact mem_filter.mpr ⟨hother, decide_eq_true hotherKey⟩

lemma prefill_le_of_none (h : ((cheapestCopy cost target workers residency block).filter fun entry =>
      fetchUs cost target workers entry < cost.prefillCostUs block.tokenCount) = none)
    (hmem : entry ∈ residency) (hkey : entry.key = block) :
    cost.prefillCostUs block.tokenCount ≤ fetchUs cost target workers entry := by
  have hfilter : entry ∈ residency.filter fun entry => entry.key = block :=
    mem_filter.mpr ⟨hmem, decide_eq_true hkey⟩
  cases hcheapest : cheapestCopy cost target workers residency block with
  | none =>
    rw [cheapestCopy, argmin_eq_none] at hcheapest
    rw [hcheapest] at hfilter
    exact absurd hfilter not_mem_nil
  | some best =>
    rw [hcheapest, filter_eq_none_iff] at h
    have hbest := h best rfl
    rw [decide_eq_true_eq, Nat.not_lt] at hbest
    exact hbest.trans (le_of_mem_argmin hfilter hcheapest)

lemma serves_serve (cost : CostModel) (target : WorkerState) (workers : String → Option WorkerState)
    (residency : List CacheResidency) (block : KvBlockKey) :
    Serves cost target workers residency block (serve cost target workers residency block) := by
  unfold serve
  cases hcopy : (cheapestCopy cost target workers residency block).filter fun entry =>
      fetchUs cost target workers entry < cost.prefillCostUs block.tokenCount with
  | none => exact ⟨rfl, fun entry hmem hkey => prefill_le_of_none hcopy hmem hkey⟩
  | some entry =>
    obtain ⟨hcheapest, hcheap⟩ := filter_eq_some_iff.mp hcopy
    have hbest := bestCopy_of_cheapest hcheapest (of_decide_eq_true hcheap)
    simp only
    split_ifs with hlocal
    · exact ⟨rfl, entry, hbest, hlocal, rfl⟩
    · exact ⟨entry, hbest, hlocal, rfl⟩

lemma us_of_serves {service : Service} (h : Serves cost target workers residency block service) :
    service.us = cheaperUs cost target workers residency block := by
  have hbest : ∀ entry, BestCopy cost target workers residency block entry →
      fetchUs cost target workers entry = cheaperUs cost target workers residency block := by
    intro entry hentry
    apply le_antisymm
    · exact le_cheaperUs hentry.cheap.le hentry.least
    · exact cheaperUs_le_fetch hentry.mem hentry.key
  cases service with
  | hit key us =>
    obtain ⟨-, entry, hentry, -, rfl⟩ := h
    exact hbest entry hentry
  | transfer plan =>
    obtain ⟨entry, hentry, -, rfl⟩ := h
    exact hbest entry hentry
  | recompute plan =>
    obtain ⟨rfl, hprefill⟩ := h
    exact le_antisymm (le_cheaperUs le_rfl hprefill) cheaperUs_le_prefill

/-! ### The whole plan -/

def accountedPlan (cost : CostModel) (request : RequestShape) (target : WorkerState)
    (workers : String → Option WorkerState) (residency : List CacheResidency) : RouteDecision :=
  let services := request.blocks.map (serve cost target workers residency)
  { requestId := request.id
    workerId := target.id
    localHits := services.filterMap Service.hit?
    transfers := services.filterMap Service.transfer?
    recomputes := services.filterMap Service.recompute?
    estimatedTtftUs := ttftUs cost request target workers residency
    estimatedTpotUs := cost.decodeCostUs request.estimatedDecodeTokens target.runningDecodes
    sloViolationUs := violationUs cost request target workers residency }

lemma sum_serve (blocks : List KvBlockKey) :
    (blocks.map fun block => (serve cost target workers residency block).us).sum =
      (blocks.map (cheaperUs cost target workers residency)).sum := by
  congr 1
  exact map_congr_left fun block _ => us_of_serves (serves_serve cost target workers residency block)

lemma prefillOrTransferUs_services :
    cost.queueCostUs target + ((request.blocks.map (serve cost target workers residency)).foldl
      Account.add {}).prefillOrTransferUs = ttftUs cost request target workers residency := by
  rw [foldl_add, ttftUs, ← sum_serve, List.map_map, Nat.zero_add]
  rfl

lemma fits_of_planForWorker {d : RouteDecision} (h : planForWorker cost request target workers residency = some d) :
    Fits cost request target workers residency ∧ d = accountedPlan cost request target workers residency := by
  unfold planForWorker at h
  obtain ⟨account, haccount, h⟩ := bind_eq_some_iff.mp h
  obtain ⟨ttft, httft, h⟩ := bind_eq_some_iff.mp h
  obtain ⟨tpot, htpot, h⟩ := bind_eq_some_iff.mp h
  obtain ⟨ttftBudget, httftBudget, h⟩ := bind_eq_some_iff.mp h
  obtain ⟨tpotBudget, htpotBudget, h⟩ := bind_eq_some_iff.mp h
  obtain ⟨violation, hviolation, h⟩ := bind_eq_some_iff.mp h
  obtain ⟨hblocks, -, rfl⟩ := (foldlM_planBlock_eq_some (by decide) request.blocks).mp haccount
  obtain ⟨httftLt, rfl⟩ := u64_eq_some.mp httft
  obtain ⟨htpotLt, rfl⟩ := u64_eq_some.mp htpot
  obtain ⟨httftBudgetLt, rfl⟩ := u64_eq_some.mp httftBudget
  obtain ⟨htpotBudgetLt, rfl⟩ := u64_eq_some.mp htpotBudget
  obtain ⟨hviolationLt, rfl⟩ := u64_eq_some.mp hviolation
  rw [prefillOrTransferUs_services] at httftLt hviolationLt h
  refine ⟨⟨hblocks, httftLt, htpotLt, httftBudgetLt, htpotBudgetLt, hviolationLt⟩, ?_⟩
  cases h
  rw [accountedPlan, foldl_add]
  rfl

lemma planForWorker_of_fits (h : Fits cost request target workers residency) :
    planForWorker cost request target workers residency =
      some (accountedPlan cost request target workers residency) := by
  have hsum : (request.blocks.map fun block => (serve cost target workers residency block).us).sum < 2 ^ 64 := by
    have httft := h.ttft
    rw [ttftUs, ← sum_serve] at httft
    exact lt_of_le_of_lt (Nat.le_add_left _ _) httft
  have haccount : request.blocks.foldlM (planBlock cost target workers residency) {} =
      some ((request.blocks.map (serve cost target workers residency)).foldl Account.add {}) := by
    apply (foldlM_planBlock_eq_some (by decide) request.blocks).mpr
    exact ⟨h.blocks, by rwa [Nat.zero_add], rfl⟩
  unfold planForWorker
  rw [haccount]
  simp only [bind_eq_bind, bind_some, prefillOrTransferUs_services]
  rw [u64_eq_some.mpr ⟨h.ttft, rfl⟩, u64_eq_some.mpr ⟨h.tpot, rfl⟩, u64_eq_some.mpr ⟨h.ttftBudget, rfl⟩,
    u64_eq_some.mpr ⟨h.tpotBudget, rfl⟩]
  simp only [bind_some]
  have hviolation : u64 ((ttftUs cost request target workers residency - request.slo.ttftMs * 1000) +
      (cost.decodeCostUs request.estimatedDecodeTokens target.runningDecodes - request.slo.tpotMs * 1000)) =
      some (violationUs cost request target workers residency) := u64_eq_some.mpr ⟨h.violation, rfl⟩
  rw [hviolation, accountedPlan, foldl_add]
  rfl

lemma planForWorker_eq_some {d : RouteDecision} :
    planForWorker cost request target workers residency = some d ↔
      Fits cost request target workers residency ∧ d = accountedPlan cost request target workers residency := by
  constructor
  · exact fits_of_planForWorker
  · rintro ⟨h, rfl⟩
    exact planForWorker_of_fits h

lemma forall₂_serves (blocks : List KvBlockKey) :
    List.Forall₂ (Serves cost target workers residency) blocks
      (blocks.map (serve cost target workers residency)) := by
  rw [forall₂_map_right_iff]
  exact forall₂_same.mpr fun block _ => serves_serve cost target workers residency block

variable {residency' : List CacheResidency}

lemma cheaperUs_le_of_subset (h : residency ⊆ residency') :
    cheaperUs cost target workers residency' block ≤ cheaperUs cost target workers residency block :=
  le_cheaperUs cheaperUs_le_prefill fun _ hmem hkey => cheaperUs_le_fetch (h hmem) hkey

lemma ttftUs_le_of_subset (h : residency ⊆ residency') :
    ttftUs cost request target workers residency' ≤ ttftUs cost request target workers residency := by
  apply Nat.add_le_add_left
  exact sum_le_sum fun block _ => cheaperUs_le_of_subset h

lemma violationUs_le_of_subset (h : residency ⊆ residency') :
    violationUs cost request target workers residency' ≤ violationUs cost request target workers residency := by
  apply Nat.add_le_add_right
  exact Nat.sub_le_sub_right (ttftUs_le_of_subset h) _

end proofs

/-- A plan as an account of the blocks: each is served once and in order, and the costs are added. -/
structure Accounts (cost : CostModel) (request : RequestShape) (target : WorkerState)
    (workers : String → Option WorkerState) (residency : List CacheResidency) (d : RouteDecision) : Prop where
  requestId : d.requestId = request.id
  workerId : d.workerId = target.id
  services : ∃ services, List.Forall₂ (Serves cost target workers residency) request.blocks services ∧
    d.localHits = services.filterMap Service.hit? ∧ d.transfers = services.filterMap Service.transfer? ∧
    d.recomputes = services.filterMap Service.recompute?
  ttft : d.estimatedTtftUs =
    cost.queueCostUs target + (request.blocks.map (cheaperUs cost target workers residency)).sum

/-- If the costs fit, a plan puts every occurrence of a block in one of hits, transfers and recomputes, in the order of
the request: a block is recomputed if no copy is cheaper than prefill, and is otherwise served from a cheapest copy.
A further record of residency makes neither the first token later nor the violation larger.
Source: `router.rs` `plan_for_worker` -/
theorem plan_accounts (cost : CostModel) (request : RequestShape) (target : WorkerState)
    (workers : String → Option WorkerState) (residency : List CacheResidency)
    (h : Fits cost request target workers residency) :
    ∃ d, planForWorker cost request target workers residency = some d ∧
      Accounts cost request target workers residency d ∧
      ∀ before record after, residency = before ++ after →
        Fits cost request target workers (before ++ record :: after) →
        ∃ d', planForWorker cost request target workers (before ++ record :: after) = some d' ∧
          d'.estimatedTtftUs ≤ d.estimatedTtftUs ∧ d'.sloViolationUs ≤ d.sloViolationUs := by
  refine ⟨_, planForWorker_of_fits h, ?_, ?_⟩
  · exact ⟨rfl, rfl, ⟨_, forall₂_serves request.blocks, rfl, rfl, rfl⟩, rfl⟩
  · intro before record after hresidency hfits
    have hsubset : residency ⊆ before ++ record :: after := by
      rw [hresidency]
      exact append_subset.mpr ⟨subset_append_left _ _,
        List.Subset.trans (subset_cons_self _ _) (subset_append_right _ _)⟩
    exact ⟨_, planForWorker_of_fits hfits, ttftUs_le_of_subset hsubset, violationUs_le_of_subset hsubset⟩

def sampleBlock (parent hash : String) (idx : ℕ) : KvBlockKey where
  modelId := "m"
  tokenizerId := "t"
  adapterId := none
  tenantId := "u"
  prefixHash := parent
  blockHash := hash
  blockIndex := idx
  tokenCount := 64

def sampleRequest (blocks : List KvBlockKey) : RequestShape where
  id := "r"
  modelId := "m"
  tokenizerId := "t"
  adapterId := none
  tenantId := "u"
  sessionId := none
  blocks := blocks
  estimatedDecodeTokens := 16

/-- A hit, a transfer and two prefills of one block; with a copy of that block they become transfers. -/
theorem plan_accounts_fourBlocks :
    let a := sampleBlock "root" "a" 0
    let b := sampleBlock "a" "b" 1
    let c := sampleBlock "b" "c" 2
    let workers := workerById [{ id := "w", localityDomain := "x" }, { id := "v", localityDomain := "x" }]
    let residency := [CacheResidency.hbm "v" a 1024, CacheResidency.hbm "w" a 1024, CacheResidency.hbm "v" b 1024]
    ∃ d, planForWorker {} (sampleRequest [c, a, b, c]) { id := "w", localityDomain := "x" } workers residency = some d ∧
      d.localHits = [a] ∧ d.transfers = [⟨b, "v", .hbm, 1024, 20⟩] ∧ d.recomputes = [⟨c, 2880⟩, ⟨c, 2880⟩] ∧
      d.estimatedTtftUs = 5785 ∧
      ∃ d', planForWorker {} (sampleRequest [c, a, b, c]) { id := "w", localityDomain := "x" } workers
          (residency ++ [CacheResidency.hbm "v" c 1024]) = some d' ∧ d'.estimatedTtftUs ≤ d.estimatedTtftUs := by
  intro a b c workers residency
  obtain ⟨hplan, hplan'⟩ : (planForWorker {} (sampleRequest [c, a, b, c]) { id := "w", localityDomain := "x" } workers
        residency = some ⟨"r", "w", [a], [⟨b, "v", .hbm, 1024, 20⟩], [⟨c, 2880⟩, ⟨c, 2880⟩], 5785, 1280, 0⟩) ∧
      (planForWorker {} (sampleRequest [c, a, b, c]) { id := "w", localityDomain := "x" } workers
        (residency ++ [CacheResidency.hbm "v" c 1024])).isSome := by decide +kernel
  obtain ⟨d'', hd''⟩ := isSome_iff_exists.mp hplan'
  obtain ⟨d, hd, -, hmore⟩ := plan_accounts _ _ _ _ _ (fits_of_planForWorker hplan).1
  obtain ⟨d', hd', hle, -⟩ := hmore residency (CacheResidency.hbm "v" c 1024) [] (append_nil _).symm
    (fits_of_planForWorker hd'').1
  rw [hplan, Option.some.injEq] at hd
  subst hd
  exact ⟨_, hplan, rfl, rfl, rfl, rfl, d', hd', hle⟩

end QuillCache.Core
