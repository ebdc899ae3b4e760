import QuillCache.Store.MasterHistory

/-!
# What holds whatever is mounted

A name that is mounted twice breaks the bookkeeping of a master (`remount_hands_out_twice`), but not its
allocators: each of them stays in order, since freeing a buffer frees what the allocator has recorded at its
offset, or nothing. `Intact` holds in every serial run, and is enough to say which objects an operation removes, adds and keeps.
-/

namespace QuillCache.Store.MasterService

open Lib Prog List Multiset Option
open AList hiding keys

section

variable {s s' : MasterService} {key : ObjectKey}

/-- The order in which two objects are evicted: soft-pinned ones last, then the oldest access first. -/
def goesBefore (o p : ObjectMetadata) : Prop :=
  (o.softPinned = false ∧ p.softPinned = true) ∨ (o.softPinned = p.softPinned ∧ o.lastAccess ≤ p.lastAccess)

instance : IsTrans (ObjectKey × ℕ × Bool) colder := ⟨fun a b c => by
  rintro (⟨h₁, h₂⟩ | ⟨h₁, h₂⟩) (⟨h₃, h₄⟩ | ⟨h₃, h₄⟩)
  · rw [h₂] at h₃
    cases h₃
  · exact .inl ⟨h₁, h₃ ▸ h₂⟩
  · exact .inl ⟨h₁.trans h₃, h₄⟩
  · exact .inr ⟨h₁.trans h₃, h₂.trans h₄⟩⟩

instance : Std.Total colder := ⟨fun a b => by
  unfold colder
  rcases le_total a.2.1 b.2.1 with h | h <;> cases a.2.2 <;> cases b.2.2 <;> simp [h]⟩

lemma victims_sorted (now : ℕ) (t : ObjectMap) : (victims now t).Pairwise fun k l =>
    ∀ o p, t.lookup k = some o → t.lookup l = some p → goesBefore o p := by
  have hsorted := pairwise_insertionSort colder
    ((t.entries.filter fun e => evictable now e.2).map fun e => (e.1, e.2.lastAccess, e.2.softPinned))
  have hentry : ∀ c ∈ List.insertionSort colder
      ((t.entries.filter fun e => evictable now e.2).map fun e => (e.1, e.2.lastAccess, e.2.softPinned)),
      ∀ o, t.lookup c.1 = some o → c.2 = (o.lastAccess, o.softPinned) := by
    intro c hc o ho
    obtain ⟨e, he, rfl⟩ := List.mem_map.mp ((mem_insertionSort colder).mp hc)
    have he' := mem_lookup_iff.mpr (List.mem_filter.mp he).1
    rw [ho] at he'
    cases he'
    rfl
  rw [victims, pairwise_map]
  refine hsorted.imp_of_mem fun {c d} hc hd hcd o p ho hp => ?_
  rw [colder, hentry c hc o ho, hentry d hd p hp] at hcd
  exact hcd

/-- What `put_start` does, whatever is mounted. -/
theorem putStart_intact {identity : IdentityScope} {size : ℕ} {config : ReplicateConfig} (hs : Intact s) :
    Runs (putStart key identity size config) (fun r s' => Intact s' ∧
      ((r = .error .objectAlreadyExists ∧ s' = s ∧ s.isComplete key = true) ∨
        (s.isComplete key = false ∧ (∃ ks, PutFrame s key ks s') ∧ Begun s key identity size config r s'))) s := by
  refine (putStart_spec hs).mono ?_
  rintro r s' ⟨hs', hrefused | ⟨hopen, ⟨ks, hframe, -⟩, hbegun, -⟩⟩
  · exact ⟨hs', .inl hrefused⟩
  · exact ⟨hs', .inr ⟨hopen, ⟨ks, hframe⟩, hbegun⟩⟩

/-! ## Upsert -/

/-- The size that `upsert_start` compares with: that of the first replica. -/
def existingSize (o : ObjectMetadata) : ℕ := (o.replicas.values.head?.map Replica.size).getD 0

/-- What a `put_start` of a key without a readable object did. -/
def Puts (s : MasterService) (key : ObjectKey) (identity : IdentityScope) (size : ℕ) (config : ReplicateConfig)
    (r : Except ErrorCode (List AllocatedBuffer)) (s' : MasterService) : Prop :=
  (∃ ks, PutFrame s key ks s') ∧ Begun s key identity size config r s'

/-- What an `upsert_start` that finds the readable object `o` did: refuse it while it is leased, re-open it,
or drop it and start a put. -/
def Replaces (s : MasterService) (key : ObjectKey) (identity : IdentityScope) (size : ℕ)
    (config : ReplicateConfig) (o : ObjectMetadata) (r : Except ErrorCode (List AllocatedBuffer))
    (s' : MasterService) : Prop :=
  (s.clock < o.leaseUntil ∧ r = .error .objectNotReady ∧ s' = s) ∨
    (o.leaseUntil ≤ s.clock ∧ existingSize o = size ∧
      r = .ok (o.replicas.values.filterMap fun r => r.data.buffer?) ∧
      s' = { s with objects := s.objects.update key fun o =>
        { o.withStatus .initialized with identity, lastAccess := s.clock } }) ∨
    (o.leaseUntil ≤ s.clock ∧ existingSize o ≠ size ∧
      ∃ s₁, Intact s₁ ∧ Drops s key [] s₁ ∧ Puts s₁ key identity size config r s')

/-- What `upsert_start` does, whatever is mounted. -/
theorem upsertStart_intact {identity : IdentityScope} {size : ℕ} {config : ReplicateConfig} (hs : Intact s) :
    Runs (upsertStart key identity size config) (fun r s' => Intact s' ∧
      ((s.isComplete key = false ∧ Puts s key identity size config r s') ∨
        ∃ o, s.objects.lookup key = some o ∧ o.hasCompleteReplica = true ∧
          Replaces s key identity size config o r s')) s := by
  have hput : ∀ {s₁ : MasterService}, Intact s₁ → s₁.isComplete key = false →
      Runs (putStart key identity size config) (fun r s' => Intact s' ∧ Puts s₁ key identity size config r s') s₁ := by
    intro s₁ hs₁ hopen
    refine (putStart_intact hs₁).mono ?_
    rintro r s' ⟨hs', ⟨-, -, hcomplete⟩ | ⟨-, hputs⟩⟩
    · rw [hopen] at hcomplete
      cases hcomplete
    · exact ⟨hs', hputs⟩
  rw [upsertStart, runs_bind, runs_now, runs_bind, runs_read]
  rintro ⟨existsComplete, leased, size'⟩ hinspect
  simp only [inspect] at hinspect
  cases ho : s.objects.lookup key with
  | none =>
    have hopen : s.isComplete key = false := by simp [isComplete, ho]
    rw [ho] at hinspect
    cases hinspect
    exact (hput hs hopen).mono fun _ _ h => ⟨h.1, .inl ⟨hopen, h.2⟩⟩
  | some o =>
    rw [ho] at hinspect
    cases hinspect
    dsimp only
    split_ifs with hopen hleased hsize
    · have hopen : s.isComplete key = false := by simpa [isComplete, ho] using hopen
      exact (hput hs hopen).mono fun _ _ h => ⟨h.1, .inl ⟨hopen, h.2⟩⟩
    · have hcomplete : o.hasCompleteReplica = true := by simpa using hopen
      exact runs_pure.mpr ⟨hs, .inr ⟨o, rfl, hcomplete, .inl ⟨by simpa using hleased, rfl, rfl⟩⟩⟩
    · have hcomplete : o.hasCompleteReplica = true := by simpa using hopen
      have hfree : o.leaseUntil ≤ s.clock := by simpa using hleased
      rw [runs_bind, runs_onObjects]
      intro bs t hrun
      rw [reopenObject, ho] at hrun
      cases hrun
      rw [runs_pure]
      exact ⟨hs, .inr ⟨o, rfl, hcomplete, Or.inr (.inl ⟨hfree, hsize, rfl, rfl⟩)⟩⟩
    · have hcomplete : o.hasCompleteReplica = true := by simpa using hopen
      have hfree : o.leaseUntil ≤ s.clock := by simpa using hleased
      simp only [runs_bind, runs_acquire, runs_onObjects]
      intro old t hrun
      cases hrun
      refine (freeLeftover_intact hs key).mono ?_
      rintro _ s₁ ⟨hs₁, hdrops, -⟩
      rw [runs_release]
      have hgone : s₁.isComplete key = false := by
        rw [isComplete, hdrops.objects_eq, lookup_erase]
        rfl
      refine (hput hs₁ hgone).mono fun _ _ h => ?_
      exact ⟨h.1, .inr ⟨o, rfl, hcomplete, Or.inr (.inr ⟨hfree, hsize, s₁, hs₁, hdrops, h.2⟩)⟩⟩

end

/-! ## Replica sizes -/

def Uniform (f : Footprint) : Prop := ∃ n, ∀ r ∈ f, r.2.2.size = n

/-- The allocators are in order in `s'`, and every object of it has replicas of one size, or replicas that it
had in `s`. -/
structure Inherits (s s' : MasterService) : Prop where
  intact : Intact s'
  replicas : ∀ k o', s'.objects.lookup k = some o' →
    Uniform o'.footprint ∨ ∃ o, s.objects.lookup k = some o ∧ o'.footprint ≤ o.footprint

section inherits

variable {s s' s'' : MasterService} {key : ObjectKey}

lemma Uniform.mono {f f' : Footprint} (h : Uniform f) (hle : f' ≤ f) : Uniform f' := by
  obtain ⟨n, hn⟩ := h
  exact ⟨n, fun r hr => hn r (mem_of_le hle hr)⟩

lemma Inherits.of_lookup (hs : Intact s') (h : ∀ k o', s'.objects.lookup k = some o' →
    ∃ o, s.objects.lookup k = some o ∧ o'.footprint ≤ o.footprint) : Inherits s s' :=
  ⟨hs, fun k o' ho' => Or.inr (h k o' ho')⟩

lemma Inherits.refl (hs : Intact s) : Inherits s s := .of_lookup hs fun _ o ho => ⟨o, ho, le_rfl⟩

lemma Inherits.trans (h : Inherits s s') (h' : Inherits s' s'') : Inherits s s'' := by
  refine ⟨h'.intact, fun k o'' ho'' => ?_⟩
  rcases h'.replicas k o'' ho'' with hu | ⟨o', ho', hle'⟩
  · exact .inl hu
  rcases h.replicas k o' ho' with hu | ⟨o, ho, hle⟩
  · exact Or.inl (hu.mono hle')
  · exact .inr ⟨o, ho, hle'.trans hle⟩

lemma Drops.inherits {entries : List OpLogEntry} (h : Drops s key entries s') (hs : Intact s') : Inherits s s' := by
  refine .of_lookup hs fun k o' ho' => ⟨o', ?_, le_rfl⟩
  rw [h.objects_eq] at ho'
  exact (lookup_erase_eq_some.mp ho').2

lemma Evicts.inherits {ks : List ObjectKey} (h : Evicts s ks s') (hs : Intact s') : Inherits s s' := by
  refine .of_lookup hs fun k o' ho' => ⟨o', ?_, le_rfl⟩
  rw [h.lookup_eq] at ho'
  split_ifs at ho'
  exact ho'

lemma inherits_update {f : ObjectMetadata → ObjectMetadata} (hs : Intact s')
    (hobjects : s'.objects = s.objects.update key f) (hf : ∀ o, (f o).footprint = o.footprint) : Inherits s s' := by
  refine .of_lookup hs fun k o' ho' => ?_
  rw [hobjects, lookup_update] at ho'
  split_ifs at ho' with hk
  · obtain ⟨o, ho, rfl⟩ := map_eq_some_iff.mp ho'
    exact ⟨o, hk ▸ ho, (hf o).le⟩
  · exact ⟨o', ho', le_rfl⟩

variable {config : ReplicateConfig} {identity : IdentityScope}

lemma Fresh.size_eq {clock n size : ℕ} {bs : List AllocatedBuffer} {o : ObjectMetadata}
    (h : Fresh identity config clock n bs o) (hsize : ∀ b ∈ bs, b.size = size) :
    ∀ r ∈ o.footprint, r.2.2.size = size := by
  rw [h.footprint_eq, granted]
  simp only [mem_coe, List.mem_map]
  rintro _ ⟨⟨b, i⟩, hb, rfl⟩
  exact hsize b (fst_mem_of_mem_zipIdx hb)

lemma Puts.inherits {size : ℕ} {r : Except ErrorCode (List AllocatedBuffer)}
    (h : Puts s key identity size config r s') (hs : Intact s') : Inherits s s' := by
  obtain ⟨⟨ks, hframe⟩, hbegun⟩ := h
  refine ⟨hs, fun k o' ho' => ?_⟩
  by_cases hk : k = key
  · rw [hk] at ho'
    rcases hbegun with ⟨bs, o, -, -, hsize, ho, hfresh⟩ | ⟨-, hnone, -⟩
    · rw [ho] at ho'
      cases ho'
      exact .inl ⟨size, hfresh.size_eq hsize⟩
    · rw [hnone] at ho'
      cases ho'
  · rw [hframe.lookup_ne k hk] at ho'
    split_ifs at ho'
    exact .inr ⟨o', ho', le_rfl⟩

/-! ## All requests -/

lemma putStart_inherits {size : ℕ} (hs : Intact s) :
    Runs (putStart key identity size config) (fun _ s' => Inherits s s') s := by
  refine (putStart_intact hs).mono ?_
  rintro r s' ⟨hs', ⟨-, rfl, -⟩ | ⟨-, hputs⟩⟩
  · exact .refl hs'
  · exact Puts.inherits hputs hs'

lemma putEnd_inherits (hs : Intact s) : Runs (putEnd key) (fun _ s' => Inherits s s') s := by
  refine (putEnd_completes key s).pc.mono ?_
  rintro r s' (⟨-, -, rfl⟩ | ⟨o, -, -, rfl⟩)
  · exact .refl hs
  · exact inherits_update hs rfl (footprint_withStatus .complete)

lemma putRevoke_inherits (hs : Intact s) : Runs (putRevoke key) (fun _ s' => Inherits s s') s := by
  refine (putRevoke_intact hs).mono ?_
  rintro _ s' ⟨hs', ⟨-, -, rfl⟩ | ⟨o, -, -, hdrops⟩⟩
  · exact .refl hs'
  · exact hdrops.inherits hs'

lemma getReplicaList_inherits {requester : IdentityScope} (hs : Intact s) :
    Runs (getReplicaList key requester) (fun _ s' => Inherits s s') s := by
  refine (getReplicaList_runs key requester s).mono ?_
  rintro _ s' (⟨_, -, rfl⟩ | ⟨_, -, -, -, -, rfl⟩)
  · exact .refl hs
  · exact inherits_update (f := fun o => { o with lastAccess := s.clock, leaseUntil := s.clock + s.leaseTtl }) hs rfl
      fun _ => rfl

lemma upsertStart_inherits {size : ℕ} (hs : Intact s) :
    Runs (upsertStart key identity size config) (fun _ s' => Inherits s s') s := by
  refine (upsertStart_intact hs).mono ?_
  rintro r s' ⟨hs', ⟨-, hputs⟩ | ⟨o, -, -, ⟨-, -, rfl⟩ | ⟨-, -, -, rfl⟩ | ⟨-, -, s₁, hs₁, hdrops, hputs⟩⟩⟩
  · exact hputs.inherits hs'
  · exact .refl hs'
  · exact inherits_update (f := fun o => { o.withStatus .initialized with identity, lastAccess := s.clock }) hs' rfl
      (footprint_withStatus .initialized)
  · exact (hdrops.inherits hs₁).trans (hputs.inherits hs')

lemma composes_inherits : Composes fun p => ∀ s, Intact s → Runs p (fun _ s' => Inherits s s') s where
  pure _ _ hs := runs_pure.mpr (.refl hs)
  bind hp hf s hs := runs_bind.mpr ((hp s hs).mono fun a s₁ h₁ => (hf a s₁ h₁.intact).mono fun _ _ h₂ => h₁.trans h₂)

lemma mountSegment_inherits {name : SegmentName} {capacity : ℕ} (hs : Intact s) (hcap : capacity < 2 ^ 64) :
    Runs (mountSegment name capacity) (fun _ s' => Inherits s s') s := by
  have hspec : ∃ a, OffsetBufferAllocator.new name capacity = some a ∧ a.Valid False ∧ _ :=
    OffsetBufferAllocator.new_spec name hcap
  obtain ⟨a, hnew, hvalid, -⟩ := hspec
  simp only [mountSegment, runs_bind, runs_update, runs_acquire, runs_section, runs_release, runs_logOp]
  intro _ s' hrun
  rw [pushSegment, hnew] at hrun
  cases hrun
  refine .of_lookup (fun c hc => ?_) fun _ o ho => ⟨o, ho, le_rfl⟩
  rcases mem_append.mp hc with hc | hc
  · exact hs c hc
  · rw [List.mem_singleton.mp hc]
    exact hvalid

lemma unmountSegment_inherits {name : SegmentName} (hs : Intact s) :
    Runs (unmountSegment name) (fun _ s' => Inherits s s') s := by
  refine (unmountSegment_runs name s).mono ?_
  rintro r s' (⟨-, -, rfl⟩ | ⟨-, -, rfl⟩)
  · exact .refl hs
  · refine .of_lookup (fun a ha => hs a (List.mem_of_mem_filter ha)) fun k o' ho' => ?_
    have ho' : (dropSegmentReplicas name s.objects).lookup k = some o' := ho'
    rw [lookup_dropSegmentReplicas] at ho'
    obtain ⟨hmap, -⟩ := filter_eq_some_iff.mp ho'
    obtain ⟨o, ho, rfl⟩ := map_eq_some_iff.mp hmap
    refine ⟨o, ho, ?_⟩
    rw [ObjectMetadata.footprint, ObjectMetadata.footprint, ObjectMetadata.withoutSegment, items_retain]
    exact map_le_map (Multiset.filter_le _ _)

/-- What every request keeps, whatever is mounted. -/
theorem prog_inherits {op : MasterOp} (hs : Intact s) (hmount : anyMounts op s) :
    Runs op.prog (fun _ s' => Inherits s s') s := by
  cases op with
  | mountSegment name capacity => exact mountSegment_inherits hs (hmount (name, capacity) rfl)
  | unmountSegment name => exact runs_void.mpr (unmountSegment_inherits hs)
  | putStart key identity size config => exact runs_void.mpr (putStart_inherits hs)
  | putEnd key => exact runs_void.mpr (putEnd_inherits hs)
  | putRevoke key => exact runs_void.mpr (putRevoke_inherits hs)
  | getReplicaList key requester => exact runs_void.mpr (getReplicaList_inherits hs)
  | remove key force =>
    refine runs_void.mpr ((remove_intact hs).mono ?_)
    rintro _ s' ⟨hs', ⟨_, -, rfl⟩ | ⟨o, -, -, -, hdrops⟩⟩
    · exact .refl hs'
    · exact hdrops.inherits hs'
  | upsertStart key identity size config => exact runs_void.mpr (upsertStart_inherits hs)
  | batchPutStart items config =>
    exact runs_void.mpr (composes_inherits.batchPutStartLoop (fun _ _ _ _ h => putStart_inherits h)
      (fun _ _ h => putRevoke_inherits h) [] [] items s hs)
  | batchPutEnd keys => exact runs_void.mpr (composes_inherits.eachKey keys (fun _ _ _ h => putEnd_inherits h) s hs)
  | batchPutRevoke keys => exact runs_void.mpr (composes_inherits.eachKey keys (fun _ _ _ h => putRevoke_inherits h) s hs)
  | batchGetReplicaList keys requester =>
    exact runs_void.mpr (composes_inherits.batchGetReplicaListLoop (fun _ _ h => getReplicaList_inherits h) [] keys s hs)
  | existKey key => exact runs_void.mpr (runs_read.mpr fun _ _ => .refl hs)
  | evictIfNeeded =>
    refine runs_void.mpr ((evictIfNeeded_pass hs).mono ?_)
    rintro _ s' ⟨hs', ⟨-, -, rfl⟩ | ⟨target, -, hpass⟩⟩
    · exact .refl hs'
    · exact hpass.2.inherits hs'
  | tick =>
    refine runs_void.mpr ((tick_runs s).mono ?_)
    rintro _ s' rfl
    exact .of_lookup hs fun _ o ho => ⟨o, ho, le_rfl⟩

/-! ## Reachable states, whatever is mounted -/

/-- A serial run in which a mount may name a segment that is mounted. -/
inductive UsesAny : MasterService → MasterService → Prop where
  | serves {s s' : MasterService} (h : Serves anyMounts s s') : UsesAny s s'
  | tunes {s s' : MasterService} (h : s' = { s with
      segmentHeartbeat := s'.segmentHeartbeat, segmentTtl := s'.segmentTtl, segmentOwner := s'.segmentOwner }) :
      UsesAny s s'

def ReachableAny (s : MasterService) : Prop :=
  ∃ strategy logging, Relation.ReflTransGen UsesAny (started strategy logging) s

lemma inherits_usesAny (hs : Intact s) (h : UsesAny s s') : Inherits s s' := by
  cases h with
  | serves h =>
    cases h with
    | op op hallowed hrun => exact prog_inherits hs hallowed _ _ hrun
    | shuffle h =>
      refine .of_lookup ?_ fun k o' ho' => ?_
      · rw [h.rest]
        exact hs
      · obtain ⟨o, ho, hshuffled⟩ := h.exists_before ho'
        exact ⟨o, ho, (footprint_eq_of_shuffled hshuffled).le⟩
  | tunes h =>
    rw [h]
    exact .of_lookup hs fun _ o ho => ⟨o, ho, le_rfl⟩

/-- The invariant of all serial runs. -/
theorem ReachableAny.intact (h : ReachableAny s) :
    Intact s ∧ ∀ k o, s.objects.lookup k = some o → Uniform o.footprint := by
  obtain ⟨strategy, logging, hrun⟩ := h
  induction hrun with
  | refl =>
    cases logging with
    | false => exact ⟨by simp [Intact, started, new], by simp [started, new]⟩
    | true => exact ⟨by simp [Intact, started, new, enableOplog], by simp [started, new, enableOplog]⟩
  | tail _ hstep ih =>
    have hinherits := inherits_usesAny ih.1 hstep
    refine ⟨hinherits.intact, fun k o' ho' => ?_⟩
    rcases hinherits.replicas k o' ho' with hu | ⟨o, ho, hle⟩
    · exact hu
    · exact (ih.2 k o ho).mono hle

lemma Reachable.any (h : Reachable s) : ReachableAny s := by
  obtain ⟨strategy, logging, hrun⟩ := h
  refine ⟨strategy, logging, hrun.lift id fun t t' hstep => ?_⟩
  cases hstep with
  | serves h =>
    cases h with
    | op op hallowed hrun => exact .serves (.op op (fun m hm => (hallowed m hm).2) hrun)
    | shuffle h => exact .serves (.shuffle h)
  | tunes h => exact .tunes h

lemma reachableAny_of_serveAll {ops : List MasterOp} {strategy : String}
    (h : serveAll anyMounts ops (new strategy) = some s) : ReachableAny s :=
  ⟨strategy, false, (serves_of_serveAll h).lift id fun _ _ hstep => UsesAny.serves hstep⟩

end inherits

end QuillCache.Store.MasterService
