import QuillCache.Core.Policies
import QuillCache.Gateway.Shape

/-!
# Where prefix affinity sends the gateway's requests

`PrefixAffinityRouter` hashes the `prefix_hash` of the first block, which it takes for the longest shared prefix. The
`prefix_hash` of a block is the hash of its parent, and the first block of a request has none: the gateway puts the
session id there, or `"root"`.

So all requests without a session id have one affinity key and go to one worker. Requests with different first blocks
are told apart never, that is, exactly if there is nothing to tell apart (`affinity_iff`).
-/

namespace QuillCache.Gateway

open Store QuillCache.Core Option

def firstHash (shape : RequestShape) : Option String := shape.blocks.head?.map KvBlockKey.blockHash

/-- Two requests are kept apart by prefix affinity if their first blocks differ, and sent to one worker if they do not. -/
structure Affine (shape shape' : RequestShape) : Prop where
  apart : firstHash shape ≠ firstHash shape' → affinityKey shape ≠ affinityKey shape'
  together : firstHash shape = firstHash shape' →
    ∀ (hash : String → UInt64) (cost : CostModel) (workers : List Core.WorkerState) (residency residency' : List CacheResidency)
      (d d' : RouteDecision),
      (RoutingPolicy.prefixAffinity cost).route hash shape workers residency = some (.ok d) →
      (RoutingPolicy.prefixAffinity cost).route hash shape' workers residency' = some (.ok d') → d.workerId = d'.workerId

section affinity

variable {host : Host} {payload : Value} {modelId tokenizerId tenantId : String}

lemma head_chainKeys {scope : IdentityScope} {tokenCount idx : ℕ} {parent : String} {hashes : List String}
    (h : hashes ≠ []) : (chainKeys scope tokenCount parent idx hashes).head?.map KvBlockKey.prefixHash = some parent := by
  cases hashes with
  | nil => exact absurd rfl h
  | cons hash hashes => rfl

lemma head_fallbackBlocks :
    (fallbackBlocks host payload modelId tokenizerId tenantId).head?.map KvBlockKey.prefixHash = some "root" := by
  rw [fallbackBlocks]
  split_ifs with hempty
  · rfl
  · have hlen : 0 < (promptText host payload).toList.length := by
      rw [List.isEmpty_iff] at hempty
      exact List.length_pos_iff.mpr hempty
    rw [fallbackMaxBlocks, fallbackLoop, if_pos hlen]
    rfl

lemma affinityKey_of_shape (h : (requestShapeFromPayload host payload).1.sessionId = none) :
    affinityKey (requestShapeFromPayload host payload).1 = "root" := by
  have hhead : (requestShapeFromPayload host payload).1.blocks.head?.map KvBlockKey.prefixHash = some "root" := by
    simp only [requestShapeFromPayload] at h ⊢
    cases hhints : (hintsOf payload).filter fun hints => !hints.blockHashes.isEmpty with
    | none => exact head_fallbackBlocks
    | some hints =>
      obtain ⟨hsome, hhashes⟩ := filter_eq_some_iff.mp hhints
      rw [hsome, bind_some] at h
      rw [map_some, getD_some, RequestKvHints.toBlocks, h]
      apply head_chainKeys
      simpa using hhashes
  rw [affinityKey, hhead, getD_some]

lemma workerId_of_planAt {request : RequestShape} {cost : CostModel} {workers : List Core.WorkerState}
    {table : String → Option Core.WorkerState} {residency : List CacheResidency} {idx : ℕ} {d : RouteDecision}
    (h : planAt (fun target => planForWorker cost request target table residency) workers idx = some (.ok d)) :
    (workers[idx]?).map Core.WorkerState.id = some d.workerId := by
  unfold planAt at h
  obtain ⟨target, htarget, h⟩ := bind_eq_some_iff.mp h
  obtain ⟨d', hd', h⟩ := bind_eq_some_iff.mp h
  cases h
  obtain ⟨-, rfl⟩ := fits_of_planForWorker hd'
  rw [htarget]
  rfl

lemma workerId_of_affinityKey {shape shape' : RequestShape} (h : affinityKey shape = affinityKey shape')
    {hash : String → UInt64} {cost : CostModel} {workers : List Core.WorkerState} {residency residency' : List CacheResidency}
    {d d' : RouteDecision} (hd : (RoutingPolicy.prefixAffinity cost).route hash shape workers residency = some (.ok d))
    (hd' : (RoutingPolicy.prefixAffinity cost).route hash shape' workers residency' = some (.ok d')) :
    d.workerId = d'.workerId := by
  simp only [RoutingPolicy.route, Core.prefixAffinity] at hd hd'
  split_ifs at hd hd' with hempty
  · cases hd
  · have hworker := workerId_of_planAt hd
    rw [h, workerId_of_planAt hd'] at hworker
    exact (Option.some.inj hworker).symm

end affinity

/-- **Where prefix affinity sends requests.** Two requests that the gateway builds from bodies without a session id are
kept apart as their first blocks are, and sent to one worker if these are the same, exactly if the first blocks have the
same hash.
Source: `router.rs` `PrefixAffinityRouter::route`; `gateway.rs` `request_shape_from_payload` -/
theorem affinity_iff (host host' : Host) (payload payload' : Value)
    (h : (requestShapeFromPayload host payload).1.sessionId = none)
    (h' : (requestShapeFromPayload host' payload').1.sessionId = none) :
    Affine (requestShapeFromPayload host payload).1 (requestShapeFromPayload host' payload').1 ↔
      firstHash (requestShapeFromPayload host payload).1 = firstHash (requestShapeFromPayload host' payload').1 := by
  have hkey : affinityKey (requestShapeFromPayload host payload).1 =
      affinityKey (requestShapeFromPayload host' payload').1 := by
    rw [affinityKey_of_shape h, affinityKey_of_shape h']
  constructor
  · intro haffine
    by_contra hne
    exact haffine.apart hne hkey
  · intro heq
    refine ⟨fun hne => absurd heq hne, ?_⟩
    intro _ hash cost workers residency residency' d d' hd hd'
    exact workerId_of_affinityKey hkey hd hd'

def hinted (blockHash : String) : Value :=
  .object [("model", .string "m"), ("quillcache", .object [("block_hashes", .array [.string blockHash])])]

/-- Requests that share their first block. -/
theorem affinity_iff_hinted :
    Affine (requestShapeFromPayload plainHost (hinted "a")).1 (requestShapeFromPayload plainHost (hinted "a")).1 :=
  (affinity_iff plainHost plainHost (hinted "a") (hinted "a") rfl rfl).mpr rfl

/-- Two requests with different first blocks have one affinity key, so that they go to one worker for every hash and in
every fleet. -/
theorem hinted_not_kept_apart :
    firstHash (requestShapeFromPayload plainHost (hinted "a")).1 = some "a" ∧
    firstHash (requestShapeFromPayload plainHost (hinted "b")).1 = some "b" ∧
    affinityKey (requestShapeFromPayload plainHost (hinted "a")).1 = "root" ∧
    affinityKey (requestShapeFromPayload plainHost (hinted "b")).1 = "root" ∧
    ∀ (hash : String → UInt64) (workers : List Core.WorkerState),
      homeIdx hash workers (affinityKey (requestShapeFromPayload plainHost (hinted "a")).1) =
        homeIdx hash workers (affinityKey (requestShapeFromPayload plainHost (hinted "b")).1) := by
  have hkeys : firstHash (requestShapeFromPayload plainHost (hinted "a")).1 = some "a" ∧
      firstHash (requestShapeFromPayload plainHost (hinted "b")).1 = some "b" ∧
      affinityKey (requestShapeFromPayload plainHost (hinted "a")).1 = "root" ∧
      affinityKey (requestShapeFromPayload plainHost (hinted "b")).1 = "root" := by decide +kernel
  obtain ⟨hfirst, hfirst', hroot, hroot'⟩ := hkeys
  refine ⟨hfirst, hfirst', hroot, hroot', fun hash workers => ?_⟩
  rw [hroot, hroot']

end QuillCache.Gateway
