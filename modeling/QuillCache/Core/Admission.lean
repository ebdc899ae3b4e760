import QuillCache.Core.Pricing

/-!
# Whom admission turns away

`admit` rejects a request if the plan that the policy has picked violates the SLO by more than a limit, and reports that
violation as the best there is. The default policy does not minimise violations but a score, in which a violation weighs
four times and every running decode of the worker another 1000 us, so that a worker without a violation can lose to one
that has one.

So a rejection is justified exactly if every worker that would be wrong to go by is beaten in the score by another one
(`admission_iff`).
-/

namespace QuillCache.Core.ServingPlane

open Lib Store List Option

variable {I : Type} [IndexBackend I]

section scores

variable (cost : CostModel) (request : RequestShape) (c : ServingPlane I) (worker : WorkerState)

def planOn : Option RouteDecision :=
  planForWorker cost request worker (workerById c.routeWorkers) (c.located request)

def violationOn : ℕ := violationUs cost request worker (workerById c.routeWorkers) (c.located request)

def scoreOn : ℕ :=
  ttftUs cost request worker (workerById c.routeWorkers) (c.located request) +
    cost.decodeCostUs request.estimatedDecodeTokens worker.runningDecodes + c.violationOn cost request worker * 4 +
    worker.runningDecodes * 1000

structure FitsOn : Prop where
  plan : Fits cost request worker (workerById c.routeWorkers) (c.located request)
  score : c.scoreOn cost request worker < 2 ^ 64

end scores

/-- A request is rejected only if every worker that it could be routed to violates the SLO by more than the limit, and
the violation that is reported is the smallest of them. -/
def RejectsRightly (hash : String → UInt64) (cost : CostModel) (request : RequestShape) (limit : ℕ)
    (c : ServingPlane I) : Prop :=
  ∀ reason best, c.admitRequest hash request = some (.ok (.reject reason best)) →
    (∀ w ∈ c.routeWorkers, ∃ d, c.planOn cost request w = some d ∧ limit < d.sloViolationUs ∧
      best ≤ d.sloViolationUs) ∧
    ∃ w ∈ c.routeWorkers, ∃ d, c.planOn cost request w = some d ∧ d.sloViolationUs = best

/-- A worker whose violation is above the limit although another's is smaller has a better one: with a lower score, or
with the same score and earlier in the list. -/
def Outscored (cost : CostModel) (request : RequestShape) (limit : ℕ) (c : ServingPlane I) : Prop :=
  ∀ before w after, c.routeWorkers = before ++ w :: after → limit < c.violationOn cost request w →
    (∃ v ∈ c.routeWorkers, c.violationOn cost request v < c.violationOn cost request w) →
    (∃ v ∈ before, c.scoreOn cost request v ≤ c.scoreOn cost request w) ∨
      ∃ v ∈ after, c.scoreOn cost request v < c.scoreOn cost request w

section admission

variable {hash : String → UInt64} {cost : CostModel} {request : RequestShape} {limit : ℕ} {c : ServingPlane I}
  {w : WorkerState}

lemma planOn_of_fits (h : c.FitsOn cost request w) : c.planOn cost request w =
    some (accountedPlan cost request w (workerById c.routeWorkers) (c.located request)) :=
  planForWorker_of_fits h.plan

lemma scoredPlan_of_fits (h : c.FitsOn cost request w) : scoredPlan (c.planOn cost request) w =
    some (c.scoreOn cost request w, accountedPlan cost request w (workerById c.routeWorkers) (c.located request)) := by
  have hscore : u64 (greedyScore w (accountedPlan cost request w (workerById c.routeWorkers) (c.located request))) =
      some (c.scoreOn cost request w) := u64_eq_some.mpr ⟨h.score, rfl⟩
  unfold scoredPlan
  rw [planOn_of_fits h]
  simp only [bind_eq_bind, bind_some, hscore]
  rfl

lemma greedyStatePlane_of_fits (hfits : ∀ v ∈ c.routeWorkers, c.FitsOn cost request v)
    (hmin : c.routeWorkers.argmin (c.scoreOn cost request) = some w) :
    Core.greedyStatePlane (c.planOn cost request) c.routeWorkers =
      some (.ok (accountedPlan cost request w (workerById c.routeWorkers) (c.located request))) := by
  have hplans : c.routeWorkers.mapM (scoredPlan (c.planOn cost request)) = some (c.routeWorkers.map fun v =>
      (c.scoreOn cost request v, accountedPlan cost request v (workerById c.routeWorkers) (c.located request))) :=
    mapM_of_forall fun v hv => scoredPlan_of_fits (hfits v hv)
  have hbest : (c.routeWorkers.map fun v => (c.scoreOn cost request v, accountedPlan cost request v
      (workerById c.routeWorkers) (c.located request))).argmin Prod.fst =
      some (c.scoreOn cost request w, accountedPlan cost request w (workerById c.routeWorkers) (c.located request)) := by
    rw [argmin_map]
    exact congrArg (Option.map _) hmin
  have hne : ¬c.routeWorkers.isEmpty = true := by
    rw [List.isEmpty_iff]
    intro hnil
    exact absurd (hnil ▸ argmin_mem hmin) not_mem_nil
  unfold Core.greedyStatePlane
  rw [if_neg hne, foldlM_greedyStep, hplans, map_some, hbest]
  rfl

lemma admitRequest_of_fits (hash : String → UInt64) (hconductor : c.conductor = none) (hrouter : c.router = .greedyStatePlane cost)
    (hfits : ∀ v ∈ c.routeWorkers, c.FitsOn cost request v)
    (hmin : c.routeWorkers.argmin (c.scoreOn cost request) = some w) :
    ∃ p, p.route = accountedPlan cost request w (workerById c.routeWorkers) (c.located request) ∧
      c.admitRequest hash request = some (.ok (c.judge p)) := by
  have hdecide : c.decide hash request c.routeWorkers (c.located request) =
      some (.ok (accountedPlan cost request w (workerById c.routeWorkers) (c.located request))) := by
    have hroute : c.router.route hash request c.routeWorkers (c.located request) =
        some (.ok (accountedPlan cost request w (workerById c.routeWorkers) (c.located request))) := by
      rw [hrouter]
      exact greedyStatePlane_of_fits hfits hmin
    unfold decide
    rw [hconductor, bind_none, bind_none]
    simp only [hroute, map_some]
    rfl
  unfold admitRequest plan
  rw [hdecide]
  exact ⟨_, rfl, rfl⟩

lemma admitRequest_of_nil (hconductor : c.conductor = none) (hrouter : c.router = .greedyStatePlane cost)
    (hnil : c.routeWorkers = []) : c.admitRequest hash request = some (.error (.router .noWorkers)) := by
  unfold admitRequest plan decide
  rw [hconductor, hrouter, hnil]
  rfl

lemma rejectsRightly_iff_of_fits (hconductor : c.conductor = none) (hrouter : c.router = .greedyStatePlane cost)
    (hlimit : c.maxSloViolationUs = some limit) (hfits : ∀ v ∈ c.routeWorkers, c.FitsOn cost request v)
    (hmin : c.routeWorkers.argmin (c.scoreOn cost request) = some w) :
    c.RejectsRightly hash cost request limit ↔ (limit < c.violationOn cost request w →
      ∀ v ∈ c.routeWorkers, c.violationOn cost request w ≤ c.violationOn cost request v) := by
  obtain ⟨p, hroute, hadmits⟩ := admitRequest_of_fits hash hconductor hrouter hfits hmin
  have hviolation : p.route.sloViolationUs = c.violationOn cost request w := by
    rw [hroute]
    rfl
  have hplan : ∀ v ∈ c.routeWorkers, ∃ d, c.planOn cost request v = some d ∧
      d.sloViolationUs = c.violationOn cost request v := fun v hv => ⟨_, planOn_of_fits (hfits v hv), rfl⟩
  constructor
  · intro hright hlt v hv
    have hjudge : ∃ reason, c.judge p = .reject reason p.route.sloViolationUs := by
      unfold judge
      rw [hlimit, filter_some, if_pos (by rw [hviolation]; exact decide_eq_true hlt)]
      exact ⟨_, rfl⟩
    obtain ⟨reason, hreason⟩ := hjudge
    rw [hreason] at hadmits
    obtain ⟨d, hd, -, hbest⟩ := (hright _ _ hadmits).1 v hv
    obtain ⟨d', hd', hv'⟩ := hplan v hv
    cases hd.symm.trans hd'
    rw [← hviolation, ← hv']
    exact hbest
  · intro hleast reason best hreject
    rw [hadmits, Option.some.injEq, Except.ok.injEq] at hreject
    unfold judge at hreject
    rw [hlimit, filter_some] at hreject
    split_ifs at hreject with hlt
    · rw [AdmissionDecision.reject.injEq, hviolation] at hreject
      obtain ⟨-, rfl⟩ := hreject
      have hlt' : limit < c.violationOn cost request w := hviolation ▸ of_decide_eq_true hlt
      refine ⟨fun v hv => ?_, w, argmin_mem hmin, hplan w (argmin_mem hmin)⟩
      obtain ⟨d, hd, hv'⟩ := hplan v hv
      have hle := hleast hlt' v hv
      exact ⟨d, hd, hv' ▸ lt_of_lt_of_le hlt' hle, hv' ▸ hle⟩

lemma outscored_iff_of_argmin (hmin : c.routeWorkers.argmin (c.scoreOn cost request) = some w) :
    c.Outscored cost request limit ↔ (limit < c.violationOn cost request w →
      ∀ v ∈ c.routeWorkers, c.violationOn cost request w ≤ c.violationOn cost request v) := by
  constructor
  · intro hout hlt v hv
    by_contra hle
    obtain ⟨before, after, hsplit, hbefore, hafter⟩ := split_of_argmin _ hmin
    rcases hout before w after hsplit hlt ⟨v, hv, Nat.lt_of_not_le hle⟩ with ⟨u, hu, hscore⟩ | ⟨u, hu, hscore⟩
    · exact absurd hscore (Nat.not_le_of_lt (hbefore u hu))
    · exact absurd hscore (Nat.not_lt_of_le (hafter u hu))
  · intro hleast before w' after hsplit hlt hsmaller
    by_contra hbest
    push Not at hbest
    have hfirst := argmin_of_split (c.scoreOn cost request) hbest.1 hbest.2
    rw [← hsplit] at hfirst
    cases hmin.symm.trans hfirst
    obtain ⟨v, hv, hv'⟩ := hsmaller
    exact absurd (hleast hlt v hv) (Nat.not_le_of_lt hv')

end admission

/-- **Whom admission turns away.** With the default policy, a limit, and costs that fit 64 bits, a rejection means that
no worker that the request could be routed to stays within the limit, and reports the smallest violation, exactly if
every worker that is above the limit although another's violation is smaller is outscored.
Source: `control.rs` `ControlPlane::admit` -/
theorem admission_iff {I : Type} [IndexBackend I] (hash : String → UInt64) (cost : CostModel) (request : RequestShape)
    (limit : ℕ) (c : ServingPlane I) (hconductor : c.conductor = none) (hrouter : c.router = .greedyStatePlane cost)
    (hlimit : c.maxSloViolationUs = some limit) (hfits : ∀ w ∈ c.routeWorkers, c.FitsOn cost request w) :
    c.RejectsRightly hash cost request limit ↔ c.Outscored cost request limit := by
  cases hmin : c.routeWorkers.argmin (c.scoreOn cost request) with
  | none =>
    have hnil := argmin_eq_none.mp hmin
    refine iff_of_true (fun reason best hreject => ?_) fun before w after hsplit => ?_
    · rw [admitRequest_of_nil hconductor hrouter hnil] at hreject
      cases hreject
    · rw [hnil] at hsplit
      exact absurd hsplit.symm (append_ne_nil_of_right_ne_nil _ (cons_ne_nil _ _))
  | some w =>
    rw [rejectsRightly_iff_of_fits hconductor hrouter hlimit hfits hmin, outscored_iff_of_argmin hmin]

def longRequest (tokens : ℕ) : RequestShape :=
  sampleRequest [{ sampleBlock "root" "a" 0 with tokenCount := tokens }, { sampleBlock "a" "b" 1 with tokenCount := 1 }]

/-- Two engines, the first of which holds the block of a single token, and a limit of five microseconds. -/
def limitedFleet : ServingPlane MemoryIndex :=
  let c := new (sampleEngines [("a", .aggregated), ("b", .aggregated)])
  let idx := c.residency.put (.hbm "a" { sampleBlock "a" "b" 1 with tokenCount := 1 } (4 * 1024 * 1024))
  withAdmissionSloLimit 5 { c with residency := idx }

lemma fitsOn_of_isSome {cost : CostModel} {request : RequestShape} {c : ServingPlane I}
    (h : ∀ w ∈ c.routeWorkers, (c.planOn cost request w).isSome ∧ c.scoreOn cost request w < 2 ^ 64) :
    ∀ w ∈ c.routeWorkers, c.FitsOn cost request w := by
  intro w hw
  obtain ⟨hsome, hscore⟩ := h w hw
  obtain ⟨d, hd⟩ := isSome_iff_exists.mp hsome
  exact ⟨(fits_of_planForWorker hd).1, hscore⟩

/-- If both engines are idle, a request that is too long for both is rejected with the smaller violation. -/
theorem admission_iff_idleFleet :
    limitedFleet.RejectsRightly (fun _ => 0) {} (longRequest 17800) 5 ∧
      ((limitedFleet.admitRequest (fun _ => 0) (longRequest 17800)).any fun admission => admission.toOption =
        some (.reject "overloaded: best worker 'a' would violate SLO by 1005us (limit 5us)" 1005)) = true := by
  have hmin : limitedFleet.routeWorkers.argmin (limitedFleet.scoreOn {} (longRequest 17800)) =
      some { id := "a", localityDomain := "x" } := by decide +kernel
  refine ⟨(admission_iff _ _ _ _ _ rfl rfl rfl (fitsOn_of_isSome ?_)).mpr ((outscored_iff_of_argmin hmin).mpr ?_), ?_⟩
  all_goals decide +kernel

/-- If the first engine is decoding another request, a request that it would serve in time is rejected, for the sake of
the second one's violation. -/
theorem limitedFleet_rejects_wrongly :
    let c := limitedFleet.beginRequest "a"
    ((c.admitRequest (fun _ => 0) (longRequest 17777)).any fun admission => admission.toOption =
      some (.reject "overloaded: best worker 'b' would violate SLO by 10us (limit 5us)" 10)) = true ∧
    ∃ w ∈ c.routeWorkers, w.id = "a" ∧
      (c.planOn {} (longRequest 17777) w).map RouteDecision.sloViolationUs = some 0 := by
  decide +kernel

end QuillCache.Core.ServingPlane
