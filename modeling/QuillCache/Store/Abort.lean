import QuillCache.Store.RealClient

/-!
# A put that fails over the network

`RealClient::put` is `put_start`, one transfer for each granted buffer, and `put_end`. An `Outage` says what the network
does to one transfer: the segment may not open, the connection may fail before the bytes are written, or break after
that.

`put` returns at the first failure and never calls `put_revoke`. So the object stays in flight and its buffers stay
allocated, unless `put_start` itself refuses: an error leaves nothing behind exactly if no transfer fails
(`put_aborts_iff`).

Source: `client.rs`.
-/

namespace QuillCache.Store

open Lib Transfer Relation AList List Option

/-- What the network does to the transfer of one buffer. -/
inductive Outage where
  | healthy
  | cannotOpen
  | beforeWrite
  | afterWrite
  deriving DecidableEq

namespace RealClient

/-! ## The client over a network that fails -/

def sendReplicaOver (outage : Outage) (data : List UInt8) (buffer : AllocatedBuffer) :
    Exec TransferEngine (Except ErrorCode Unit) := do
  if outage = .cannotOpen then return .error .segmentNotFound
  match ← TransferEngine.openSegment buffer.segmentName with
  | .error _ => return .error .segmentNotFound
  | .ok segment =>
    let source ← TransferEngine.registerLocalMemory data
    if outage = .beforeWrite then return .error .bufferOverflow
    match ← TransferEngine.submitTransfer [⟨.write, source, segment, buffer.offset, buffer.size⟩] with
    | .error _ => return .error .bufferOverflow
    | .ok () => if outage = .afterWrite then return .error .bufferOverflow else return .ok ()

def sendReplicasOver (data : List UInt8) : (ℕ → Outage) → List AllocatedBuffer →
    Exec TransferEngine (Except ErrorCode Unit)
  | _, [] => return .ok ()
  | outages, buffer :: buffers => do
    match ← sendReplicaOver (outages 0) data buffer with
    | .error e => return .error e
    | .ok () => sendReplicasOver data (fun i => outages (i + 1)) buffers

def putOver (outages : ℕ → Outage) (key : ObjectKey) (identity : IdentityScope) (data : List UInt8)
    (config : ReplicateConfig) : Exec RealClient (Except ErrorCode Unit) := do
  match ← onMaster (MasterService.putStart key identity data.length config) with
  | .error e => return .error e
  | .ok buffers =>
    match ← onEngine (sendReplicasOver data outages buffers) with
    | .error e => return .error e
    | .ok () => onMaster (MasterService.putEnd key)

lemma sendReplicasOver_healthy (data : List UInt8) (buffers : List AllocatedBuffer) :
    sendReplicasOver data (fun _ => .healthy) buffers = sendReplicas data buffers := by
  induction buffers with
  | nil => rfl
  | cons buffer buffers ih =>
    unfold sendReplicasOver sendReplicas
    rw [ih]
    rfl

/-- Over a healthy network it is the client's `put`. -/
theorem putOver_healthy (key : ObjectKey) (identity : IdentityScope) (data : List UInt8) (config : ReplicateConfig) :
    putOver (fun _ => .healthy) key identity data config = put key identity data config := by
  have hsend : sendReplicasOver data (fun _ => .healthy) = sendReplicas data :=
    funext (sendReplicasOver_healthy data)
  unfold putOver
  rewrite [hsend]
  rfl

/-- One call over the network; in between, the segments and the client's engine may change in any way. A call that
panics has no step, and neither has the mount of a mounted name. -/
inductive Call : RealClient → RealClient → Prop where
  | mount {c c' : RealClient} {name : SegmentName} {capacity : ℕ} (hname : name ∉ c.master.segments.names)
      (hcap : capacity < 2 ^ 64) (hrun : mount name capacity c = some ((), c')) : Call c c'
  | put {c c' : RealClient} {outages : ℕ → Outage} {key : ObjectKey} {identity : IdentityScope} {data : List UInt8}
      {config : ReplicateConfig} {r : Except ErrorCode Unit}
      (hrun : putOver outages key identity data config c = some (r, c')) : Call c c'
  | get {c c' : RealClient} {key : ObjectKey} {identity : IdentityScope} {r : Except ErrorCode (List UInt8)}
      (hrun : get key identity c = some (r, c')) : Call c c'
  | tick {c c' : RealClient} {r : ℕ} (hrun : onMaster MasterService.tick c = some (r, c')) : Call c c'
  | engine {c : RealClient} (e : TransferEngine) : Call c { c with engine := e }
  | shuffle {c : RealClient} {m : MasterService} (hm : Shuffle c.master m) : Call c { c with master := m }

/-! ## What a failed put leaves -/

/-- The objects of before a call that it has neither evicted nor, under its own key, reclaimed. -/
def survivors (key : ObjectKey) (before after : MasterService) : List ObjectMetadata :=
  (before.objects.retain fun k o => decide (k ∈ after.objects) && !(decide (k = key) && !o.hasCompleteReplica)).values

/-- Nothing is left of a put: the key has no object in flight, and the bytes allocated are those of the objects that have
survived. -/
structure LeavesNothing (key : ObjectKey) (before after : MasterService) : Prop where
  settled : ∀ o, after.objects.lookup key = some o → o.hasCompleteReplica = true
  allocated : after.segments.allocated = SegmentState.sumChecked
    (((survivors key before after).flatMap fun o => o.replicas.values).map Replica.size)

section aborts

variable {c c' : RealClient} {outages : ℕ → Outage} {key : ObjectKey} {identity : IdentityScope} {data : List UInt8}
  {config : ReplicateConfig} {m : MasterService}

lemma sound_call (h : Sound c.master.view) (hcall : Call c c') : Sound c'.master.view := by
  cases hcall with
  | mount hname hcap hrun =>
    obtain ⟨m, hm, rfl⟩ := onMaster_eq_some.mp hrun
    exact (MasterService.mountSegment_runs h hname hcap _ _ hm).1
  | put hrun =>
    obtain ⟨r₀, c₀, hstart, hrest⟩ := bind_eq_some.mp hrun
    obtain ⟨m, hm, rfl⟩ := onMaster_eq_some.mp hstart
    have hsound := (MasterService.putStart_runs h _ _ hm).1
    cases r₀ with
    | error err =>
      cases hrest
      exact hsound
    | ok bs =>
      obtain ⟨r₁, c₁, hsend, hend⟩ := bind_eq_some.mp hrest
      obtain ⟨e, -, rfl⟩ := onEngine_eq_some hsend
      cases r₁ with
      | error err =>
        cases hend
        exact hsound
      | ok u =>
        obtain ⟨m', hm', rfl⟩ := onMaster_eq_some.mp hend
        exact MasterService.sound_runs (MasterService.balanced_putEnd _) hsound _ _ hm'
  | get hrun =>
    obtain ⟨r₀, c₀, hread, hrest⟩ := bind_eq_some.mp hrun
    obtain ⟨m, hm, rfl⟩ := onMaster_eq_some.mp hread
    have hsound := MasterService.sound_runs (MasterService.balanced_getReplicaList _ _) h _ _ hm
    cases r₀ with
    | error err =>
      cases hrest
      exact hsound
    | ok replicas =>
      cases hfirst : firstMemoryBuffer replicas with
      | error err =>
        simp only [hfirst] at hrest
        cases hrest
        exact hsound
      | ok buffer =>
        simp only [hfirst] at hrest
        obtain ⟨e, -, rfl⟩ := onEngine_eq_some hrest
        exact hsound
  | tick hrun =>
    obtain ⟨m, hm, rfl⟩ := onMaster_eq_some.mp hrun
    rw [MasterService.tick_runs c.master _ _ hm]
    exact h
  | engine e => exact h
  | shuffle hm => exact view_shuffle hm ▸ h

lemma sound_calls {strategy : String} {engine : TransferEngine}
    (h : ReflTransGen Call (new strategy engine) c) : Sound c.master.view := by
  induction h with
  | refl => exact MasterService.sound_new strategy
  | tail _ hcall ih => exact sound_call ih hcall

lemma sum_replicas (t : ObjectMap) : ((t.values.flatMap fun o => o.replicas.values).map Replica.size).sum =
    t.total fun o => (o.replicas.values.map Replica.size).sum := by
  rw [AList.total, map_flatMap, flatMap_def, sum_flatten, List.map_map]
  rfl

lemma leavesNothing_of_survivors (hs : Sound m.view)
    (hsettled : ∀ o, m.objects.lookup key = some o → o.hasCompleteReplica = true)
    (hkept : ∀ k o, m.objects.lookup k = some o → c.master.objects.lookup k = some o) :
    LeavesNothing key c.master m := by
  refine ⟨hsettled, ?_⟩
  rw [MasterService.allocated_of_sound hs]
  apply SegmentState.sumChecked_congr
  rw [MasterService.replicas, survivors, sum_replicas, sum_replicas, total_eq_items, total_eq_items]
  congr 2
  apply items_ext
  intro k
  rw [lookup_retain]
  cases hk : m.objects.lookup k with
  | none =>
    have hnot : k ∉ m.objects := lookup_eq_none.mp hk
    refine (filter_eq_none_iff.mpr fun o _ => ?_).symm
    rw [decide_eq_false hnot, Bool.false_and]
    exact Bool.false_ne_true
  | some o =>
    have hmem : k ∈ m.objects := mem_iff_exists_lookup.mpr ⟨o, hk⟩
    refine (filter_eq_some_iff.mpr ⟨hkept k o hk, ?_⟩).symm
    rw [decide_eq_true hmem, Bool.true_and]
    by_cases hkey : k = key
    · rw [hsettled o (hkey ▸ hk), Bool.not_true, Bool.and_false, Bool.not_false]
    · rw [decide_eq_false hkey, Bool.false_and, Bool.not_false]

lemma leavesNothing_of_refused {err : ErrorCode} (hs : Sound c.master.view)
    (hm : (MasterService.putStart key identity data.length config).run c.master = some (.error err, m)) :
    LeavesNothing key c.master m := by
  obtain ⟨hsound, ⟨-, rfl, hcomplete⟩ | ⟨-, ks, hframe, -, hnone, -⟩⟩ := MasterService.putStart_runs hs _ _ hm
  · refine leavesNothing_of_survivors hsound (fun o ho => ?_) fun k o ho => ho
    rw [MasterService.isComplete, ho, any_some] at hcomplete
    exact hcomplete
  · refine leavesNothing_of_survivors hsound (fun o ho => ?_) fun k o ho => ?_
    · rw [hnone] at ho
      cases ho
    · have hne : k ≠ key := by
        rintro rfl
        rw [hnone] at ho
        cases ho
      rw [hframe.lookup_ne k hne] at ho
      split_ifs at ho
      exact ho

lemma in_flight_of_granted {bs : List AllocatedBuffer} (hs : Sound c.master.view)
    (hm : (MasterService.putStart key identity data.length config).run c.master = some (.ok bs, m)) :
    ∃ o, m.objects.lookup key = some o ∧ o.hasCompleteReplica = false := by
  obtain ⟨-, ⟨hr, -⟩ | ⟨-, ks, -, -, -, ⟨o, ho, hfresh⟩, -⟩⟩ := MasterService.putStart_runs hs _ _ hm
  · cases hr
  · exact ⟨o, ho, hfresh.hasCompleteReplica⟩

lemma putEnd_not_error {err : ErrorCode} {m' : MasterService} {o : ObjectMetadata} (ho : m.objects.lookup key = some o)
    (hm' : (MasterService.putEnd key).run m = some (.error err, m')) : False := by
  obtain ⟨hnone, -⟩ | ⟨o', -, hr, -⟩ := (MasterService.putEnd_completes key m).pc _ _ hm'
  · rw [ho] at hnone
    cases hnone
  · cases hr

end aborts

/-- **What a failed put leaves.** In every client that calls have led to, a put that returns an error has left nothing
exactly if no transfer to the granted buffers fails.
Source: `put` -/
theorem put_aborts_iff (strategy : String) (engine : TransferEngine) (c : RealClient)
    (hc : ReflTransGen Call (new strategy engine) c) (outages : ℕ → Outage) (key : ObjectKey)
    (identity : IdentityScope) (data : List UInt8) (config : ReplicateConfig) :
    (∀ err c', putOver outages key identity data config c = some (.error err, c') →
      LeavesNothing key c.master c'.master) ↔
    ∀ bs m, (MasterService.putStart key identity data.length config).run c.master = some (.ok bs, m) →
      ∀ err e, sendReplicasOver data outages bs c.engine ≠ some (.error err, e) := by
  have hs := sound_calls hc
  constructor
  · intro hclean bs m hm err e he
    have hput : putOver outages key identity data config c = some (.error err, ⟨m, e⟩) := by
      refine bind_eq_some.mpr ⟨.ok bs, { c with master := m }, onMaster_eq_some.mpr ⟨m, hm, rfl⟩, ?_⟩
      refine bind_eq_some.mpr ⟨.error err, ⟨m, e⟩, ?_, rfl⟩
      exact map_eq_some_iff.mpr ⟨(.error err, e), he, rfl⟩
    obtain ⟨o, ho, hopen⟩ := in_flight_of_granted hs hm
    rw [(hclean err _ hput).settled o ho] at hopen
    cases hopen
  · intro hsent err c' hput
    obtain ⟨r₀, c₀, hstart, hrest⟩ := bind_eq_some.mp hput
    obtain ⟨m, hm, rfl⟩ := onMaster_eq_some.mp hstart
    cases r₀ with
    | error err' =>
      cases hrest
      exact leavesNothing_of_refused hs hm
    | ok bs =>
      obtain ⟨r₁, c₁, hsend, hend⟩ := bind_eq_some.mp hrest
      obtain ⟨e, he, rfl⟩ := onEngine_eq_some hsend
      cases r₁ with
      | error err' => exact absurd he (hsent bs m hm err' e)
      | ok u =>
        -- `put_end` finds the object that `put_start` has recorded
        obtain ⟨m', hm', rfl⟩ := onMaster_eq_some.mp hend
        obtain ⟨o, ho, -⟩ := in_flight_of_granted hs hm
        exact (putEnd_not_error ho hm').elim

def tooLong : List UInt8 := List.replicate 5 0

/-- A put that finds no room leaves nothing, whatever the network would do. -/
theorem put_aborts_iff_tooLong :
    ∃ c c', ReflTransGen Call (new "random" emptyEngine) c ∧
      putOver (fun _ => .cannotOpen) "k" ⟨"m", "t", none, "u"⟩ tooLong {} c =
        some (.error .noAvailableSegment, c') ∧ LeavesNothing "k" c.master c'.master := by
  have hrun : ((mount "seg-0" 4 (new "random" emptyEngine)).any fun x =>
      ((MasterService.putStart "k" ⟨"m", "t", none, "u"⟩ tooLong.length {}).run x.2.master).any fun y =>
        y.1 = .error .noAvailableSegment) = true := by decide +kernel
  obtain ⟨⟨u, c⟩, hmount, hstart⟩ := (Option.any_eq_true _ _).mp hrun
  obtain ⟨⟨r, m⟩, hm, hr⟩ := (Option.any_eq_true _ _).mp hstart
  obtain rfl : r = .error .noAvailableSegment := of_decide_eq_true hr
  have hreach : ReflTransGen Call (new "random" emptyEngine) c :=
    .single (.mount (by simp [new, MasterService.new, SegmentState.names]) (by norm_num) hmount)
  have hput : putOver (fun _ => .cannotOpen) "k" ⟨"m", "t", none, "u"⟩ tooLong {} c =
      some (.error .noAvailableSegment, { c with master := m }) :=
    bind_eq_some.mpr ⟨_, _, onMaster_eq_some.mpr ⟨m, hm, rfl⟩, rfl⟩
  refine ⟨c, _, hreach, hput, (put_aborts_iff "random" emptyEngine c hreach _ _ _ _ _).mpr ?_ _ _ hput⟩
  intro bs m' hm'
  rw [hm] at hm'
  cases hm'

/-- A connection that fails before the write leaves the object in flight, and its three bytes allocated. -/
theorem put_leaves_object :
    ∃ c c', ReflTransGen Call (new "random" emptyEngine) c ∧ c.master.objects.keys = [] ∧
      putOver (fun _ => .beforeWrite) "k" ⟨"m", "t", none, "u"⟩ [1, 2, 3] {} c = some (.error .bufferOverflow, c') ∧
      (c'.master.objects.lookup "k").map ObjectMetadata.hasCompleteReplica = some false ∧
      c'.master.segments.allocated = some 3 := by
  have hrun : ((mount "seg-0" 4096 (new "random" emptyEngine)).any fun x =>
      decide (x.2.master.objects.keys = []) &&
      (putOver (fun _ => .beforeWrite) "k" ⟨"m", "t", none, "u"⟩ [1, 2, 3] {} x.2).any fun y =>
        y.1 = .error .bufferOverflow ∧
        (y.2.master.objects.lookup "k").map ObjectMetadata.hasCompleteReplica = some false ∧
        y.2.master.segments.allocated = some 3) = true := by decide +kernel
  obtain ⟨⟨u, c⟩, hmount, hrest⟩ := (Option.any_eq_true _ _).mp hrun
  obtain ⟨hempty, hput⟩ := Bool.and_eq_true_iff.mp hrest
  obtain ⟨⟨r, c'⟩, hput, hleft⟩ := (Option.any_eq_true _ _).mp hput
  obtain ⟨rfl, hobject, hallocated⟩ := of_decide_eq_true hleft
  exact ⟨c, c', .single (.mount (by simp [new, MasterService.new, SegmentState.names]) (by norm_num) hmount),
    of_decide_eq_true hempty, hput, hobject, hallocated⟩

end RealClient

end QuillCache.Store
