import QuillCache.Store.Life

/-!
# Read leases in serial runs

`get_replica_list` promises that what it returned stays readable until `lease_until`. Puts, evictions, upserts
and removals that are not forced keep the promise (`lease_honoured`), because each of the events they cause
is one that an active lease rules out. `put_revoke` does not look at the lease, nor at whether the put is
still in flight, and takes a leased object away (`revoke_ignores_lease`).
-/

namespace QuillCache.Store.MasterService

open Lib Relation Multiset Option

/-- `o'` is the object `o` with all that a reader of `o` relies on. -/
structure Honours (o o' : ObjectMetadata) : Prop where
  footprint_eq : o'.footprint = o.footprint
  complete : ∀ r ∈ o.replicas.values, r.isComplete = true → r ∈ o'.replicas.values
  leaseUntil_le : o.leaseUntil ≤ o'.leaseUntil

/-- No lease reaches beyond the longest one that can be granted now. -/
def LeasesBounded (s : MasterService) : Prop :=
  ∀ k o, s.objects.lookup k = some o → o.leaseUntil ≤ s.clock + s.leaseTtl

/-- A request may take the object `o` of `key` away: it is a forced removal, or unmounts a segment on which
`o` has a replica. -/
def mayTake (key : ObjectKey) (o : ObjectMetadata) : MasterOp → Prop
  | .remove k true => k = key
  | .unmountSegment name => ∃ r ∈ o.footprint, r.2.2.segmentName = some name
  | _ => False

section honours

variable {o o' o'' : ObjectMetadata} {now leaseTtl : ℕ} {e : ObjectEvent} {x y : Option ObjectMetadata}

lemma Honours.refl (o : ObjectMetadata) : Honours o o := ⟨rfl, fun _ hr _ => hr, le_rfl⟩

lemma Honours.trans (h : Honours o o') (h' : Honours o' o'') : Honours o o'' :=
  ⟨h'.footprint_eq.trans h.footprint_eq, fun r hr hc => h'.complete r (h.complete r hr hc) hc,
    h.leaseUntil_le.trans h'.leaseUntil_le⟩

lemma Honours.hasCompleteReplica (h : Honours o o') (hc : o.hasCompleteReplica = true) :
    o'.hasCompleteReplica = true := by
  obtain ⟨r, hr, hcr⟩ := List.any_eq_true.mp hc
  exact List.any_eq_true.mpr ⟨r, h.complete r hr hcr, hcr⟩

lemma honours_shuffled (h : o.Shuffled o') : Honours o o' := by
  refine ⟨footprint_eq_of_shuffled h, fun r hr _ => ?_, ?_⟩
  · have hvalues : o.replicas.values.Perm o'.replicas.values := h.1.map _
    exact hvalues.mem_iff.mp hr
  · rw [h.2]

lemma honours_finish (o : ObjectMetadata) : Honours o (o.withStatus .complete) := by
  refine ⟨footprint_withStatus _ o, fun r hr hc => ?_, le_rfl⟩
  obtain ⟨e, he, rfl⟩ := List.mem_map.mp hr
  have hstatus : e.2.status = .complete := by simpa [Replica.isComplete] using hc
  refine List.mem_map.mpr ⟨⟨e.1, { e.2 with status := .complete }⟩, List.mem_map.mpr ⟨e, he, rfl⟩, ?_⟩
  rw [← hstatus]

lemma withoutSegment_eq_self {name : SegmentName} (h : ∀ r ∈ o.footprint, r.2.2.segmentName ≠ some name) :
    o.withoutSegment name = o := by
  have hkeep : o.replicas.retain (fun _ r => r.segmentName ≠ some name) = o.replicas := by
    refine AList.ext (List.filter_eq_self.mpr fun e he => ?_)
    exact decide_eq_true (h (e.1, e.2.id, e.2.data) (Multiset.mem_map_of_mem _ (mem_coe.mpr he)))
  rw [ObjectMetadata.withoutSegment, hkeep]

/-- **An event honours an active lease**, unless it is a revocation, a forced removal, or the loss of a
segment of the object. -/
lemma honours_happens (hh : Happens now leaseTtl e (some o) y) (hc : o.hasCompleteReplica = true)
    (hlease : now < o.leaseUntil) (hbound : o.leaseUntil ≤ now + leaseTtl) (hrevoke : e ≠ .revoke)
    (hremove : e ≠ .remove true)
    (hdetach : ∀ name, e = .detach name → ∀ r ∈ o.footprint, r.2.2.segmentName ≠ some name) :
    ∃ o', y = some o' ∧ Honours o o' := by
  cases hh with
  | start hold =>
    rw [any_some, hc] at hold
    cases hold
  | reclaim hopen =>
    rw [hc] at hopen
    cases hopen
  | finish => exact ⟨_, rfl, honours_finish o⟩
  | revoke => exact absurd rfl hrevoke
  | grant => exact ⟨_, rfl, rfl, fun r hr _ => hr, hbound⟩
  | evict hev =>
    rw [evictable, Bool.and_eq_true, decide_eq_true_eq] at hev
    exact absurd hlease (not_lt.mpr hev.2)
  | @remove _ force hfree =>
    rcases hfree with hfree | rfl
    · exact absurd hlease (not_lt.mpr hfree)
    · exact absurd rfl hremove
  | reopen hfree => exact absurd hlease (not_lt.mpr hfree)
  | replace hfree => exact absurd hlease (not_lt.mpr hfree)
  | @detach _ name =>
    rw [withoutSegment_eq_self (hdetach name rfl)]
    refine ⟨o, filter_eq_some_iff.mpr ⟨rfl, ?_⟩, .refl o⟩
    obtain ⟨r, hr, -⟩ := List.any_eq_true.mp hc
    obtain ⟨e, he, -⟩ := List.mem_map.mp hr
    simpa using List.ne_nil_of_mem he

lemma bounded_happens (hh : Happens now leaseTtl e x y) (hx : ∀ o ∈ x, o.leaseUntil ≤ now + leaseTtl) :
    ∀ o ∈ y, o.leaseUntil ≤ now + leaseTtl := by
  intro o ho
  cases hh with
  | start _ hlease =>
    cases ho
    rw [hlease]
    exact Nat.zero_le _
  | @finish o₀ =>
    cases ho
    exact hx o₀ rfl
  | grant =>
    cases ho
    exact le_rfl
  | @reopen o₀ =>
    cases ho
    exact hx o₀ rfl
  | @detach o₀ name =>
    obtain ⟨heq, -⟩ := filter_eq_some_iff.mp ho
    cases heq
    exact hx o₀ rfl
  | _ => cases ho

section lives

variable {P : ObjectEvent → Prop}

lemma bounded_lives (h : ReflTransGen (fun x y => ∃ e, P e ∧ Happens now leaseTtl e x y) x y)
    (hx : ∀ o ∈ x, o.leaseUntil ≤ now + leaseTtl) : ∀ o ∈ y, o.leaseUntil ≤ now + leaseTtl := by
  induction h with
  | refl => exact hx
  | tail _ hstep ih =>
    obtain ⟨e, -, hh⟩ := hstep
    exact bounded_happens hh ih

lemma honours_lives (h : ReflTransGen (fun x y => ∃ e, P e ∧ Happens now leaseTtl e x y) (some o) y)
    (hc : o.hasCompleteReplica = true) (hlease : now < o.leaseUntil) (hbound : o.leaseUntil ≤ now + leaseTtl)
    (hrevoke : ¬P .revoke) (hremove : ¬P (.remove true))
    (hdetach : ∀ name, P (.detach name) → ∀ r ∈ o.footprint, r.2.2.segmentName ≠ some name) :
    ∃ o', y = some o' ∧ Honours o o' := by
  induction h with
  | refl => exact ⟨o, rfl, .refl o⟩
  | @tail y z hxy hstep ih =>
    obtain ⟨e, he, hh⟩ := hstep
    obtain ⟨o₁, rfl, hhon⟩ := ih
    have hbound₁ : o₁.leaseUntil ≤ now + leaseTtl :=
      bounded_lives hxy (fun o' ho' => by cases ho'; exact hbound) o₁ rfl
    obtain ⟨o₂, ho₂, hhon₂⟩ := honours_happens hh (hhon.hasCompleteReplica hc)
      (hlease.trans_le hhon.leaseUntil_le) hbound₁ (fun heq => hrevoke (heq ▸ he))
      (fun heq => hremove (heq ▸ he)) (fun name heq => hhon.footprint_eq ▸ hdetach name (heq ▸ he))
    exact ⟨o₂, ho₂, hhon.trans hhon₂⟩

end lives

end honours

/-! ## Runs -/

section runs

variable {s s' : MasterService} {key : ObjectKey} {o : ObjectMetadata}
  {allowed : MasterOp → MasterService → Prop}

/-- Mounts name segments that are not mounted, and revocations name objects that are not leased. -/
def leaseSafe (op : MasterOp) (s : MasterService) : Prop :=
  freshMounts op s ∧ ∀ k ∈ revokes op, ∀ o ∈ s.objects.lookup k, o.leaseUntil ≤ s.clock

instance (op : MasterOp) (s : MasterService) : Decidable (leaseSafe op s) :=
  inferInstanceAs (Decidable (_ ∧ ∀ k ∈ revokes op, ∀ o ∈ s.objects.lookup k, o.leaseUntil ≤ s.clock))

lemma bounded_serves (hallowed : ∀ op s, allowed op s → leaseSafe op s) (hs : Sound s.view)
    (hb : LeasesBounded s) (hstep : Serves allowed s s') :
    Sound s'.view ∧ LeasesBounded s' ∧ s.clock ≤ s'.clock := by
  cases hstep with
  | op op hop hrun =>
    by_cases htick : op = .tick
    · subst htick
      have hs' := runs_void.mpr (tick_runs s) _ _ hrun
      subst hs'
      exact ⟨hs, fun k o ho => (hb k o ho).trans (by simp), Nat.le_succ _⟩
    · have h := prog_alters hs (hallowed op s hop).1 htick _ _ hrun
      refine ⟨h.sound, fun k => ?_, h.clock_eq.ge⟩
      rw [h.clock_eq, h.leaseTtl_eq]
      exact bounded_lives (h.lives k) (hb k)
  | shuffle h =>
    refine ⟨view_shuffle h ▸ hs, fun k o' ho' => ?_, by rw [h.rest]⟩
    obtain ⟨o, ho, hsame⟩ := h.exists_before ho'
    rw [h.rest, hsame.2]
    exact hb k o ho

lemma bounded_run (hallowed : ∀ op s, allowed op s → leaseSafe op s) (hs : Sound s.view)
    (hb : LeasesBounded s) (hrun : ReflTransGen (Serves allowed) s s') :
    Sound s'.view ∧ LeasesBounded s' ∧ s.clock ≤ s'.clock := by
  induction hrun with
  | refl => exact ⟨hs, hb, le_rfl⟩
  | tail _ hstep ih =>
    obtain ⟨hs', hb', hclock⟩ := bounded_serves hallowed ih.1 ih.2.1 hstep
    exact ⟨hs', hb', ih.2.2.trans hclock⟩

lemma honours_serves (hs : Sound s.view) (hb : LeasesBounded s) (ho : s.objects.lookup key = some o)
    (hc : o.hasCompleteReplica = true) (hlease : s.clock < o.leaseUntil)
    (hstep : Serves (fun op s => leaseSafe op s ∧ ¬mayTake key o op) s s') :
    ∃ o', s'.objects.lookup key = some o' ∧ Honours o o' := by
  cases hstep with
  | op op hop hrun =>
    obtain ⟨⟨hmounts, hrevokes⟩, htake⟩ := hop
    by_cases htick : op = .tick
    · subst htick
      have hs' := runs_void.mpr (tick_runs s) _ _ hrun
      subst hs'
      exact ⟨o, ho, .refl o⟩
    · have hlives := (prog_alters hs hmounts htick _ _ hrun).lives key
      rw [ho] at hlives
      refine honours_lives hlives hc hlease (hb key o ho) (fun hmem => ?_) (fun heq => ?_)
        fun name heq r hr hname => ?_
      · exact absurd hlease (not_lt.mpr (hrevokes key hmem o ho))
      · rw [show op = .remove key true from heq] at htake
        exact htake rfl
      · rw [show op = .unmountSegment name from heq] at htake
        exact htake ⟨r, hr, hname⟩
  | shuffle h =>
    obtain ⟨o', ho', hsame⟩ := h.exists_lookup ho
    exact ⟨o', ho', honours_shuffled hsame⟩

lemma mayTake_of_honours {o' : ObjectMetadata} (h : Honours o o') (op : MasterOp) :
    mayTake key o' op ↔ mayTake key o op := by
  cases op with
  | unmountSegment name => simp only [mayTake, h.footprint_eq]
  | remove k force => cases force <;> rfl
  | _ => rfl

/-- **Whole runs** honour a lease that is still active at the end. -/
lemma honours_run (hs : Sound s.view) (hb : LeasesBounded s) (ho : s.objects.lookup key = some o)
    (hc : o.hasCompleteReplica = true)
    (hrun : ReflTransGen (Serves fun op s => leaseSafe op s ∧ ¬mayTake key o op) s s')
    (hlease : s'.clock < o.leaseUntil) : ∃ o', s'.objects.lookup key = some o' ∧ Honours o o' := by
  induction hrun with
  | refl => exact ⟨o, ho, .refl o⟩
  | @tail s₁ s₂ hrun₁ hstep ih =>
    obtain ⟨hs₁, hb₁, -⟩ := bounded_run (fun _ _ h => h.1) hs hb hrun₁
    -- the clock does not go back, so the lease was active all the time
    have hclock := (bounded_serves (fun _ _ h => h.1) hs₁ hb₁ hstep).2.2.trans_lt hlease
    obtain ⟨o₁, ho₁, hhon₁⟩ := ih hclock
    have hstep₁ : Serves (fun op s => leaseSafe op s ∧ ¬mayTake key o₁ op) s₁ s₂ := by
      simpa only [mayTake_of_honours hhon₁] using hstep
    obtain ⟨o₂, ho₂, hhon₂⟩ := honours_serves hs₁ hb₁ ho₁ (hhon₁.hasCompleteReplica hc)
      (hclock.trans_le hhon₁.leaseUntil_le) hstep₁
    exact ⟨o₂, ho₂, hhon₁.trans hhon₂⟩

lemma bounded_new (strategy : String) : LeasesBounded (new strategy) := by
  intro k o ho
  cases ho

lemma granted_of_get {requester : IdentityScope} {replicas : List Replica}
    (hget : (getReplicaList key requester).run s = some (.ok replicas, s')) :
    ∃ o, s'.objects.lookup key = some o ∧ o.hasCompleteReplica = true ∧
      o.leaseUntil = s.clock + s.leaseTtl ∧ ∀ r ∈ replicas, r ∈ o.replicas.values ∧ r.isComplete = true := by
  rcases getReplicaList_runs key requester s _ _ hget with ⟨e, he, -⟩ | ⟨o, ho, -, hr, hne, rfl⟩
  · cases he
  · cases hr
    have hreadable : ∀ r ∈ o.replicas.values.filter
        (readable (aliveSegments s.clock s.segmentTtl s.segmentHeartbeat)),
        r ∈ o.replicas.values ∧ r.isComplete = true := by
      intro r hr
      obtain ⟨hmem, hr⟩ := List.mem_filter.mp hr
      exact ⟨hmem, (Bool.and_eq_true _ _ ▸ hr).1⟩
    obtain ⟨r, hr⟩ := List.exists_mem_of_ne_nil _ hne
    refine ⟨{ o with lastAccess := s.clock, leaseUntil := s.clock + s.leaseTtl }, ?_, ?_, rfl, hreadable⟩
    · rw [AList.lookup_update, if_pos rfl, ho]
      rfl
    · exact List.any_eq_true.mpr ⟨r, hreadable r hr⟩

end runs

/-- **Leases are honoured**, in every serial run in which revocations name objects that are not leased (and
mounts name segments that are not mounted): after a read, as long as the clock is below the lease and unless
the object is removed by force or one of its segments is unmounted, the object keeps its replicas and their
buffers, those that were returned stay complete, and `lease_until` does not decrease. -/
theorem lease_honoured (strategy : String) (s s₁ : MasterService) (key : ObjectKey) (requester : IdentityScope)
    (replicas : List Replica) (hreach : ReflTransGen (Serves leaseSafe) (new strategy) s)
    (hget : (getReplicaList key requester).run s = some (.ok replicas, s₁)) :
    ∃ o, s₁.objects.lookup key = some o ∧ o.leaseUntil = s.clock + s.leaseTtl ∧
      ∀ s₂ s₃, ReflTransGen (Serves fun op t => leaseSafe op t ∧ ¬mayTake key o op) s₁ s₂ →
        ReflTransGen (Serves fun op t => leaseSafe op t ∧ ¬mayTake key o op) s₂ s₃ →
        s₃.clock < o.leaseUntil →
        ∃ o₂ o₃, s₂.objects.lookup key = some o₂ ∧ s₃.objects.lookup key = some o₃ ∧
          o₃.footprint = o.footprint ∧ (∀ b ∈ o.footprint.buffers, b ∈ s₃.liveEntries) ∧
          (∀ r ∈ replicas, r ∈ o₃.replicas.values ∧ r.isComplete = true) ∧
          (∀ r ∈ o₂.replicas.values, r.isComplete = true → r ∈ o₃.replicas.values) ∧
          o.leaseUntil ≤ o₂.leaseUntil ∧ o₂.leaseUntil ≤ o₃.leaseUntil := by
  obtain ⟨hs, hb, -⟩ := bounded_run (fun _ _ h => h) (sound_new strategy) (bounded_new strategy) hreach
  have halters := getReplicaList_alters key requester hs _ _ hget
  have hb₁ : LeasesBounded s₁ := fun k => by
    rw [halters.clock_eq, halters.leaseTtl_eq]
    exact bounded_lives (halters.lives k) (hb k)
  obtain ⟨o, ho, hc, hlease, hreplicas⟩ := granted_of_get hget
  refine ⟨o, ho, hlease, fun s₂ s₃ h₂ h₃ hclock => ?_⟩
  obtain ⟨hs₂, hb₂, -⟩ := bounded_run (fun _ _ h => h.1) halters.sound hb₁ h₂
  obtain ⟨hs₃, -, hmono⟩ := bounded_run (fun _ _ h => h.1) hs₂ hb₂ h₃
  obtain ⟨o₂, ho₂, hhon₂⟩ := honours_run halters.sound hb₁ ho hc h₂ (hmono.trans_lt hclock)
  have h₃' : ReflTransGen (Serves fun op t => leaseSafe op t ∧ ¬mayTake key o₂ op) s₂ s₃ := by
    simpa only [mayTake_of_honours hhon₂] using h₃
  obtain ⟨o₃, ho₃, hhon₃⟩ := honours_run hs₂ hb₂ ho₂ (hhon₂.hasCompleteReplica hc) h₃'
    (hclock.trans_le hhon₂.leaseUntil_le)
  have hhon := hhon₂.trans hhon₃
  refine ⟨o₂, o₃, ho₂, ho₃, hhon.footprint_eq, fun b hb => ?_, fun r hr => ?_, hhon₃.complete,
    hhon₂.leaseUntil_le, hhon₃.leaseUntil_le⟩
  · rw [← hhon.footprint_eq] at hb
    rw [← mem_coe, coe_liveEntries]
    exact hs₃.mem_live ho₃ hb
  · obtain ⟨hmem, hcomplete⟩ := hreplicas r hr
    exact ⟨hhon.complete r hmem hcomplete, hcomplete⟩

def onePut : List MasterOp :=
  [.mountSegment "a" 1024, .putStart "x" ⟨"m", "t", none, "u"⟩ 100 ⟨1, false, false, none⟩, .putEnd "x"]

theorem lease_honoured_onePut :
    ∃ s s₁ replicas o₃, ReflTransGen (Serves leaseSafe) (new "random") s ∧
      (getReplicaList "x" ⟨"m", "t", none, "u"⟩).run s = some (.ok replicas, s₁) ∧
      s₁.objects.lookup "x" = some o₃ ∧ s.clock + s.leaseTtl ≤ o₃.leaseUntil := by
  have hrun : ((serveAll leaseSafe onePut (new "random")).any fun s =>
      ((getReplicaList "x" ⟨"m", "t", none, "u"⟩).run s).any fun r =>
        r.1.toOption.isSome ∧ r.2.clock < s.clock + s.leaseTtl) = true := by decide +kernel
  obtain ⟨s, hs, hrun⟩ := (any_eq_true _ _).mp hrun
  obtain ⟨⟨r, s₁⟩, hget, hok⟩ := (any_eq_true _ _).mp hrun
  obtain ⟨hok, hclock⟩ := of_decide_eq_true hok
  cases r with
  | error e => cases hok
  | ok replicas =>
    have hreach := serves_of_serveAll hs
    obtain ⟨o, ho, hlease, hhon⟩ := lease_honoured "random" s s₁ "x" _ replicas hreach hget
    obtain ⟨o₂, o₃, -, ho₃, -, -, -, -, hle₂, hle₃⟩ := hhon s₁ s₁ .refl .refl (hlease ▸ hclock)
    exact ⟨s, s₁, replicas, o₃, hreach, hget, ho₃, hlease ▸ hle₂.trans hle₃⟩

/-- A put that has long been ended is revoked while its object is leased. -/
theorem revoke_ignores_lease :
    ∃ s s₁ s₂ replicas, ReflTransGen (Serves freshMounts) (new "random") s ∧
      (getReplicaList "x" ⟨"m", "t", none, "u"⟩).run s = some (.ok replicas, s₁) ∧
      (putRevoke "x").run s₁ = some (.ok (), s₂) ∧ s₂.clock < s.clock + s.leaseTtl ∧
      s₁.liveEntries.length = 1 ∧ s₂.objects.lookup "x" = none ∧ s₂.liveEntries = [] := by
  have hrun : ((serveAll freshMounts onePut (new "random")).any fun s =>
      ((getReplicaList "x" ⟨"m", "t", none, "u"⟩).run s).any fun r =>
        r.1.toOption.isSome ∧ ((putRevoke "x").run r.2).any fun r₂ =>
          r₂.1.toOption.isSome ∧ r₂.2.clock < s.clock + s.leaseTtl ∧ r.2.liveEntries.length = 1 ∧
          (r₂.2.objects.lookup "x").isNone ∧ r₂.2.liveEntries = []) = true := by decide +kernel
  obtain ⟨s, hs, hrun⟩ := (any_eq_true _ _).mp hrun
  obtain ⟨⟨r, s₁⟩, hget, hok⟩ := (any_eq_true _ _).mp hrun
  obtain ⟨hok, hrevoke⟩ := of_decide_eq_true hok
  obtain ⟨⟨r₂, s₂⟩, hrevoke, hok₂⟩ := (any_eq_true _ _).mp hrevoke
  obtain ⟨hok₂, hclock, hlive, hgone, hempty⟩ := of_decide_eq_true hok₂
  cases r with
  | error e => cases hok
  | ok replicas =>
    cases r₂ with
    | error e => cases hok₂
    | ok _ => exact ⟨s, s₁, s₂, replicas, serves_of_serveAll hs, hget, hrevoke, hclock, hlive,
        isNone_iff_eq_none.mp hgone, hempty⟩

end QuillCache.Store.MasterService
