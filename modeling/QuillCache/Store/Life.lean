import QuillCache.Store.MasterHistory

/-!
# What can happen to an object

In a serial run every change of an object is one of a few events, each with the condition under which the
master lets it happen: a put is started over an object that is not readable, an object is evicted when it is
neither pinned nor leased, and so on. `prog_alters` says which events a request can cause under which key.
Claims about the objects of a master are then about events, not about operations.
-/

namespace QuillCache.Store.MasterService

open Lib Prog Relation AList

inductive ObjectEvent where
  | start
  | reclaim
  | finish
  | revoke
  | grant
  | evict
  | remove (force : Bool)
  | reopen
  | replace
  | detach (name : SegmentName)

/-- An event at time `now`, from the object under a key to the object under it afterwards. -/
inductive Happens (now leaseTtl : ℕ) : ObjectEvent → Option ObjectMetadata → Option ObjectMetadata → Prop where
  | start {old : Option ObjectMetadata} {o : ObjectMetadata}
      (hold : old.any ObjectMetadata.hasCompleteReplica = false) (hlease : o.leaseUntil = 0)
      (hopen : o.hasCompleteReplica = false) : Happens now leaseTtl .start old (some o)
  | reclaim {o : ObjectMetadata} (hopen : o.hasCompleteReplica = false) :
      Happens now leaseTtl .reclaim (some o) none
  | finish {o : ObjectMetadata} : Happens now leaseTtl .finish (some o) (some (o.withStatus .complete))
  | revoke {o : ObjectMetadata} : Happens now leaseTtl .revoke (some o) none
  | grant {o : ObjectMetadata} : Happens now leaseTtl .grant (some o)
      (some { o with lastAccess := now, leaseUntil := now + leaseTtl })
  | evict {o : ObjectMetadata} (hev : evictable now o = true) : Happens now leaseTtl .evict (some o) none
  | remove {o : ObjectMetadata} {force : Bool} (hfree : o.leaseUntil ≤ now ∨ force = true) :
      Happens now leaseTtl (.remove force) (some o) none
  | reopen {o : ObjectMetadata} {identity : IdentityScope} (hfree : o.leaseUntil ≤ now) :
      Happens now leaseTtl .reopen (some o)
        (some { o.withStatus .initialized with identity, lastAccess := now })
  | replace {o : ObjectMetadata} (hfree : o.leaseUntil ≤ now) : Happens now leaseTtl .replace (some o) none
  | detach {o : ObjectMetadata} {name : SegmentName} : Happens now leaseTtl (.detach name) (some o)
      ((some (o.withoutSegment name)).filter fun o => !o.replicas.entries.isEmpty)

/-- From `s` to `s'` only the events in `P` have happened, at the time of `s`. -/
structure Alters (P : ObjectKey → ObjectEvent → Prop) (s s' : MasterService) : Prop where
  sound : Sound s'.view
  clock_eq : s'.clock = s.clock
  leaseTtl_eq : s'.leaseTtl = s.leaseTtl
  lives : ∀ k, ReflTransGen (fun x y => ∃ e, P k e ∧ Happens s.clock s.leaseTtl e x y)
    (s.objects.lookup k) (s'.objects.lookup k)

section alters

variable {P P' : ObjectKey → ObjectEvent → Prop} {s s' s'' : MasterService} {key : ObjectKey}

lemma Alters.of_lookup (hs : Sound s'.view) (hclock : s'.clock = s.clock) (httl : s'.leaseTtl = s.leaseTtl)
    (hlookup : ∀ k, s'.objects.lookup k = s.objects.lookup k) : Alters P s s' :=
  ⟨hs, hclock, httl, fun k => by rw [hlookup]⟩

lemma Alters.refl (hs : Sound s.view) : Alters P s s := .of_lookup hs rfl rfl fun _ => rfl

lemma Alters.trans (h : Alters P s s') (h' : Alters P s' s'') : Alters P s s'' := by
  refine ⟨h'.sound, h'.clock_eq.trans h.clock_eq, h'.leaseTtl_eq.trans h.leaseTtl_eq, fun k => ?_⟩
  have hlives := h'.lives k
  rw [h.clock_eq, h.leaseTtl_eq] at hlives
  exact (h.lives k).trans hlives

lemma Alters.mono (h : Alters P s s') (hP : ∀ k e, P k e → P' k e) : Alters P' s s' := by
  refine ⟨h.sound, h.clock_eq, h.leaseTtl_eq, fun k => ?_⟩
  refine ReflTransGen.mono ?_ _ _ (h.lives k)
  rintro x y ⟨e, he, hh⟩
  exact ⟨e, hP k e he, hh⟩

lemma Alters.one {e : ObjectEvent} (hs : Sound s'.view) (hclock : s'.clock = s.clock)
    (httl : s'.leaseTtl = s.leaseTtl) (hP : P key e)
    (hkey : Happens s.clock s.leaseTtl e (s.objects.lookup key) (s'.objects.lookup key))
    (hne : ∀ k, k ≠ key → s'.objects.lookup k = s.objects.lookup k) : Alters P s s' := by
  refine ⟨hs, hclock, httl, fun k => ?_⟩
  by_cases hk : k = key
  · rw [hk]
    exact .single ⟨e, hP, hkey⟩
  · rw [hne k hk]

lemma Frame.leaseTtl_eq (h : Frame s s') : s'.leaseTtl = s.leaseTtl := by
  rw [h.rest]

lemma Evicts.alters {ks : List ObjectKey} (h : Evicts s ks s') (hs : Sound s'.view)
    (hP : ∀ k, P k .evict) : Alters P s s' := by
  refine ⟨hs, h.frame.clock_eq, h.frame.leaseTtl_eq, fun k => ?_⟩
  rw [h.lookup_eq]
  split_ifs with hk
  · obtain ⟨o, ho, hev⟩ := h.victim k hk
    rw [ho]
    exact .single ⟨.evict, hP k, .evict hev⟩
  · exact .refl

lemma Drops.alters {entries : List OpLogEntry} {o : ObjectMetadata} {e : ObjectEvent}
    (h : Drops s key entries s') (hs : Sound s'.view) (ho : s.objects.lookup key = some o) (hP : P key e)
    (he : Happens s.clock s.leaseTtl e (some o) none) : Alters P s s' := by
  refine .one hs h.frame.clock_eq h.frame.leaseTtl_eq hP ?_ fun k hk => ?_
  · rw [ho, h.objects_eq, lookup_erase]
    exact he
  · rw [h.objects_eq, lookup_erase_ne hk]

lemma Alters.not_complete (h : Alters P s s') (hP : ∀ k e, P k e → e = .start ∨ e = .reclaim ∨ e = .evict)
    (hk : s.isComplete key = false) : s'.isComplete key = false := by
  rw [isComplete] at hk ⊢
  have hlives := h.lives key
  revert hlives hk
  generalize s.objects.lookup key = x
  generalize s'.objects.lookup key = y
  intro hk hlives
  induction hlives with
  | refl => exact hk
  | tail _ hstep ih =>
    obtain ⟨e, he, hh⟩ := hstep
    rcases hP key e he with rfl | rfl | rfl
    · cases hh with
      | start _ _ hopen => exact hopen
    · cases hh
      rfl
    · cases hh
      rfl

end alters

/-! ## Requests -/

def putStartEvents (key : ObjectKey) (k : ObjectKey) (e : ObjectEvent) : Prop :=
  k = key ∧ (e = .start ∨ e = .reclaim) ∨ e = .evict

section requests

variable {s : MasterService}

lemma putStart_alters (key : ObjectKey) (identity : IdentityScope) (size : ℕ) (config : ReplicateConfig)
    (hs : Sound s.view) :
    Runs (putStart key identity size config) (fun r s' => Alters (putStartEvents key) s s' ∧
      (∀ bs, r = .ok bs → s.isComplete key = false ∧ s'.isComplete key = false)) s := by
  refine (putStart_runs hs).mono ?_
  rintro r s' ⟨hs', ⟨rfl, rfl, -⟩ | ⟨hopen, ks, hframe, -, hstarted⟩⟩
  · exact ⟨.refl hs', fun _ h => by cases h⟩
  have hother : ∀ k, k ≠ key → ReflTransGen (fun x y => ∃ e, putStartEvents key k e ∧
      Happens s.clock s.leaseTtl e x y) (s.objects.lookup k) (s'.objects.lookup k) := by
    intro k hk
    rw [hframe.lookup_ne k hk]
    split_ifs with hmem
    · obtain ⟨-, o, ho, hev⟩ := hframe.victim k hmem
      rw [ho]
      exact .single ⟨.evict, .inr rfl, .evict hev⟩
    · exact .refl
  have hkey : ReflTransGen (fun x y => ∃ e, putStartEvents key key e ∧
      Happens s.clock s.leaseTtl e x y) (s.objects.lookup key) (s'.objects.lookup key) ∧
      ∀ bs, r = .ok bs → s'.isComplete key = false := by
    cases r with
    | ok bs =>
      obtain ⟨-, ⟨o, ho, hfresh⟩, -⟩ := hstarted
      rw [isComplete, ho]
      exact ⟨.single ⟨.start, .inl ⟨rfl, .inl rfl⟩, .start hopen hfresh.leaseUntil_eq
        hfresh.hasCompleteReplica⟩, fun _ _ => hfresh.hasCompleteReplica⟩
    | error e =>
      refine ⟨?_, fun _ h => by cases h⟩
      rw [isComplete] at hopen
      rw [hstarted.1]
      cases ho : s.objects.lookup key with
      | none => exact .refl
      | some o =>
        rw [ho] at hopen
        exact .single ⟨.reclaim, .inl ⟨rfl, .inr rfl⟩, .reclaim hopen⟩
  refine ⟨⟨hs', hframe.frame.clock_eq, hframe.frame.leaseTtl_eq, fun k => ?_⟩,
    fun bs hbs => ⟨hopen, hkey.2 bs hbs⟩⟩
  by_cases hk : k = key
  · rw [hk]
    exact hkey.1
  · exact hother k hk

lemma putEnd_alters (key : ObjectKey) (hs : Sound s.view) :
    Runs (putEnd key) (fun _ s' => Alters (fun k e => k = key ∧ e = .finish) s s') s := by
  intro r s' hrun
  have hs' := sound_runs (balanced_putEnd key) hs _ _ hrun
  rcases (putEnd_completes key s).pc _ _ hrun with ⟨-, -, rfl⟩ | ⟨o, ho, -, rfl⟩
  · exact .refl hs'
  · refine .one hs' rfl rfl ⟨rfl, rfl⟩ ?_ fun k hk => ?_
    · rw [lookup_update, if_pos rfl, ho]
      exact .finish
    · rw [lookup_update, if_neg hk]

lemma putRevoke_alters (key : ObjectKey) (hs : Sound s.view) :
    Runs (putRevoke key) (fun _ s' => Alters (fun k e => k = key ∧ e = .revoke) s s' ∧
      (s.isComplete key = false → Alters (fun k e => k = key ∧ e = .reclaim) s s')) s := by
  refine (putRevoke_runs hs).mono ?_
  rintro r s' ⟨hs', ⟨-, -, rfl⟩ | ⟨o, ho, -, hdrops⟩⟩
  · exact ⟨.refl hs', fun _ => .refl hs'⟩
  · refine ⟨hdrops.alters hs' ho ⟨rfl, rfl⟩ .revoke, fun hopen => ?_⟩
    rw [isComplete, ho] at hopen
    exact hdrops.alters hs' ho ⟨rfl, rfl⟩ (.reclaim hopen)

lemma getReplicaList_alters (key : ObjectKey) (requester : IdentityScope) (hs : Sound s.view) :
    Runs (getReplicaList key requester) (fun _ s' => Alters (fun k e => k = key ∧ e = .grant) s s') s := by
  intro r s' hrun
  have hs' := sound_runs (balanced_getReplicaList key requester) hs _ _ hrun
  rcases getReplicaList_runs key requester s _ _ hrun with ⟨_, -, rfl⟩ | ⟨o, ho, -, -, -, rfl⟩
  · exact .refl hs'
  · refine .one hs' rfl rfl ⟨rfl, rfl⟩ ?_ fun k hk => ?_
    · rw [lookup_update, if_pos rfl, ho]
      exact .grant
    · rw [lookup_update, if_neg hk]

lemma remove_alters (key : ObjectKey) (force : Bool) (hs : Sound s.view) :
    Runs (remove key force) (fun _ s' => Alters (fun k e => k = key ∧ e = .remove force) s s') s := by
  refine (remove_runs hs).mono ?_
  rintro r s' ⟨hs', ⟨_, -, rfl⟩ | ⟨o, ho, hfree, -, hdrops⟩⟩
  · exact .refl hs'
  · exact hdrops.alters hs' ho ⟨rfl, rfl⟩ (.remove hfree)

lemma unmountSegment_alters (name : SegmentName) (hs : Sound s.view) :
    Runs (unmountSegment name) (fun _ s' => Alters (fun _ e => e = .detach name) s s') s := by
  intro r s' hrun
  have hs' := sound_runs (balanced_unmountSegment name) hs _ _ hrun
  rcases unmountSegment_runs name s _ _ hrun with ⟨-, -, rfl⟩ | ⟨-, -, rfl⟩
  · exact .refl hs'
  · refine ⟨hs', rfl, rfl, fun k => ?_⟩
    change ReflTransGen _ _ ((dropSegmentReplicas name s.objects).lookup k)
    rw [lookup_dropSegmentReplicas]
    cases s.objects.lookup k with
    | none => exact .refl
    | some o => exact .single ⟨.detach name, rfl, .detach⟩

def upsertStartEvents (key : ObjectKey) (k : ObjectKey) (e : ObjectEvent) : Prop :=
  putStartEvents key k e ∨ k = key ∧ (e = .reopen ∨ e = .replace)

lemma upsertStart_alters (key : ObjectKey) (identity : IdentityScope) (size : ℕ) (config : ReplicateConfig)
    (hs : Sound s.view) :
    Runs (upsertStart key identity size config) (fun _ s' => Alters (upsertStartEvents key) s s') s := by
  have hput : ∀ {s₁ : MasterService}, Alters (upsertStartEvents key) s s₁ →
      Runs (putStart key identity size config) (fun _ s' => Alters (upsertStartEvents key) s s') s₁ := by
    intro s₁ h₁
    refine (putStart_alters key identity size config h₁.sound).mono ?_
    rintro _ s' ⟨h', -⟩
    exact h₁.trans (h'.mono fun _ _ => .inl)
  rw [upsertStart, runs_bind, runs_now, runs_bind, runs_read]
  rintro ⟨existsComplete, leased, existingSize⟩ hinspect
  simp only [inspect] at hinspect
  cases ho : s.objects.lookup key with
  | none =>
    rw [ho] at hinspect
    cases hinspect
    exact hput (.refl hs)
  | some o =>
    rw [ho] at hinspect
    cases hinspect
    dsimp only
    split_ifs with hopen hleased hsize
    · exact hput (.refl hs)
    · exact runs_pure.mpr (.refl hs)
    · have hfree : o.leaseUntil ≤ s.clock := by simpa using hleased
      rw [runs_bind, runs_onObjects]
      intro bs t hrun
      have hview := reopenObject_footprints key identity s.clock s.objects _ _ hrun
      rw [reopenObject, ho] at hrun
      cases hrun
      rw [runs_pure]
      refine .one ?_ rfl rfl (.inr ⟨rfl, .inl rfl⟩) ?_ fun k hk => ?_
      · rw [view, hview]
        exact hs
      · rw [lookup_update, if_pos rfl, ho]
        exact .reopen hfree
      · rw [lookup_update, if_neg hk]
    · have hfree : o.leaseUntil ≤ s.clock := by simpa using hleased
      simp only [runs_bind, runs_acquire, runs_onObjects]
      intro old t hrun
      cases hrun
      refine (freeLeftover_runs hs key).mono ?_
      rintro _ s₁ ⟨hs₁, hdrops⟩
      rw [runs_release]
      exact hput (hdrops.alters hs₁ ho (.inr ⟨rfl, .inr rfl⟩) (.replace hfree))

/-! ### Batches -/

lemma revokeAll_alters {keys : List ObjectKey} (hs : Sound s.view)
    (hopen : ∀ k ∈ keys, s.isComplete k = false) :
    Runs (revokeAll keys) (fun _ s' => Alters (fun k e => k ∈ keys ∧ e = .reclaim) s s') s := by
  induction keys generalizing s with
  | nil => exact runs_pure.mpr (.refl hs)
  | cons key keys ih =>
    rw [revokeAll, runs_bind]
    refine (putRevoke_alters key hs).mono ?_
    rintro _ s₁ ⟨-, h₁⟩
    have h₁ := h₁ (hopen key List.mem_cons_self)
    have hopen₁ : ∀ k ∈ keys, s₁.isComplete k = false := fun k hk =>
      h₁.not_complete (fun _ _ he => Or.inr (.inl he.2)) (hopen k (List.mem_cons_of_mem _ hk))
    refine (ih h₁.sound hopen₁).mono fun _ s₂ h₂ => ?_
    refine (h₁.mono ?_).trans (h₂.mono ?_)
    · rintro k e ⟨rfl, rfl⟩
      exact ⟨List.mem_cons_self, rfl⟩
    · rintro k e ⟨hk, rfl⟩
      exact ⟨List.mem_cons_of_mem _ hk, rfl⟩

def batchEvents (_ : ObjectKey) (e : ObjectEvent) : Prop := e = .start ∨ e = .reclaim ∨ e = .evict

lemma batchPutStartLoop_alters (config : ReplicateConfig) {out : List (List AllocatedBuffer)}
    {started : List ObjectKey} {items : List (ObjectKey × IdentityScope × ℕ)} (hs : Sound s.view)
    (hopen : ∀ k ∈ started, s.isComplete k = false) :
    Runs (batchPutStartLoop config out started items) (fun _ s' => Alters batchEvents s s') s := by
  induction items generalizing s out started with
  | nil => exact runs_pure.mpr (.refl hs)
  | cons item items ih =>
    obtain ⟨key, identity, size⟩ := item
    rw [batchPutStartLoop, runs_bind]
    refine (putStart_alters key identity size config hs).mono ?_
    rintro r s₁ ⟨h₁, hok⟩
    have h₁ : Alters batchEvents s s₁ := h₁.mono fun k e he => by
      rcases he with ⟨-, he | he⟩ | he
      · exact .inl he
      · exact Or.inr (.inl he)
      · exact Or.inr (.inr he)
    have hopen₁ : ∀ k ∈ started, s₁.isComplete k = false := fun k hk =>
      h₁.not_complete (fun _ _ he => he) (hopen k hk)
    cases r with
    | ok bs =>
      refine (ih h₁.sound fun k hk => ?_).mono fun _ s₂ h₂ => h₁.trans h₂
      rcases List.mem_append.mp hk with hk | hk
      · exact hopen₁ k hk
      · rw [List.mem_singleton.mp hk]
        exact (hok bs rfl).2
    | error e =>
      rw [runs_bind]
      refine (revokeAll_alters h₁.sound hopen₁).mono fun _ s₂ h₂ => runs_pure.mpr ?_
      exact h₁.trans (h₂.mono fun k e he => Or.inr (.inl he.2))

lemma composes_alters {P : ObjectKey → ObjectEvent → Prop} :
    Composes fun p => ∀ s, Sound s.view → Runs p (fun _ s' => Alters P s s') s where
  pure _ _ hs := runs_pure.mpr (.refl hs)
  bind hp hf s hs := runs_bind.mpr ((hp s hs).mono fun a s₁ h₁ => (hf a s₁ h₁.sound).mono fun _ _ h₂ => h₁.trans h₂)

end requests

/-! ## All requests -/

def revokes : MasterOp → List ObjectKey
  | .putRevoke key => [key]
  | .batchPutRevoke keys => keys
  | _ => []

/-- The events that a request may cause under `k`: revocations, removals and the loss of a segment are those
it asks for. -/
def may (op : MasterOp) (k : ObjectKey) : ObjectEvent → Prop
  | .revoke => k ∈ revokes op
  | .remove force => op = .remove k force
  | .detach name => op = .unmountSegment name
  | .start | .reclaim | .finish | .grant | .evict | .reopen | .replace => True

/-- What a request can do to the objects, unless it is a tick of the clock. -/
theorem prog_alters {op : MasterOp} {s : MasterService} (hs : Sound s.view) (hmount : freshMounts op s)
    (htick : op ≠ .tick) : Runs op.prog (fun _ s' => Alters (may op) s s') s := by
  cases op with
  | mountSegment name capacity =>
    obtain ⟨hname, hcap⟩ := hmount (name, capacity) rfl
    refine (mountSegment_runs hs hname hcap).mono ?_
    rintro _ s' ⟨hs', a, -, rfl⟩
    exact .of_lookup hs' rfl rfl fun _ => rfl
  | unmountSegment name =>
    refine runs_void.mpr ((unmountSegment_alters name hs).mono fun _ s' h => h.mono ?_)
    rintro k e rfl
    rfl
  | putStart key identity size config =>
    refine runs_void.mpr ((putStart_alters key identity size config hs).mono fun _ s' h => h.1.mono ?_)
    rintro k e (⟨rfl, rfl | rfl⟩ | rfl) <;> trivial
  | putEnd key =>
    refine runs_void.mpr ((putEnd_alters key hs).mono fun _ s' h => h.mono ?_)
    rintro k e ⟨rfl, rfl⟩
    trivial
  | putRevoke key =>
    refine runs_void.mpr ((putRevoke_alters key hs).mono fun _ s' h => h.1.mono ?_)
    rintro k e ⟨rfl, rfl⟩
    exact List.mem_singleton_self _
  | getReplicaList key requester =>
    refine runs_void.mpr ((getReplicaList_alters key requester hs).mono fun _ s' h => h.mono ?_)
    rintro k e ⟨rfl, rfl⟩
    trivial
  | remove key force =>
    refine runs_void.mpr ((remove_alters key force hs).mono fun _ s' h => h.mono ?_)
    rintro k e ⟨rfl, rfl⟩
    rfl
  | upsertStart key identity size config =>
    refine runs_void.mpr ((upsertStart_alters key identity size config hs).mono fun _ s' h => h.mono ?_)
    rintro k e ((⟨rfl, rfl | rfl⟩ | rfl) | ⟨rfl, rfl | rfl⟩) <;> trivial
  | batchPutStart items config =>
    refine runs_void.mpr ((batchPutStartLoop_alters config hs (by simp)).mono fun _ s' h => h.mono ?_)
    rintro k e (rfl | rfl | rfl) <;> trivial
  | batchPutEnd keys =>
    refine runs_void.mpr (composes_alters.eachKey keys (fun key _ s hs => ?_) s hs)
    refine (putEnd_alters key hs).mono fun _ s' h => h.mono ?_
    rintro k e ⟨rfl, rfl⟩
    trivial
  | batchPutRevoke keys =>
    refine runs_void.mpr (composes_alters.eachKey keys (fun key hkey s hs => ?_) s hs)
    refine (putRevoke_alters key hs).mono fun _ s' h => h.1.mono ?_
    rintro k e ⟨rfl, rfl⟩
    exact hkey
  | batchGetReplicaList keys requester =>
    refine runs_void.mpr (composes_alters.batchGetReplicaListLoop (fun key s hs => ?_) [] keys s hs)
    refine (getReplicaList_alters key requester hs).mono fun _ s' h => h.mono ?_
    rintro k e ⟨rfl, rfl⟩
    trivial
  | existKey key => exact runs_void.mpr (runs_read.mpr fun _ _ => .refl hs)
  | evictIfNeeded =>
    refine runs_void.mpr ((evictIfNeeded_runs hs).mono ?_)
    rintro _ s' ⟨hs', ks, hks⟩
    exact hks.alters hs' fun _ => trivial
  | tick => exact absurd rfl htick

end QuillCache.Store.MasterService
