import QuillCache.Store.Upsert

/-!
# Batches of puts

`batch_put_start` starts the puts of a list, and revokes those it has started when one fails. A failed batch
adds nothing and removes only what a put may remove (`failed_batch`).

A batch that succeeds may yet have lost some of its puts: a later put of the same key reclaims an earlier one,
and a later put may evict it, since objects in flight are candidates of an eviction
(`batch_grants_twice`). If neither happens, every item holds the buffers returned for it, and only
then (`batch_granted_iff`).
-/

namespace QuillCache.Store.MasterService

open Lib Prog List Multiset

abbrev BatchItem := ObjectKey × IdentityScope × ℕ

inductive Starts (config : ReplicateConfig) : List BatchItem → MasterService → List (List AllocatedBuffer) →
    MasterService → Prop where
  | nil (s : MasterService) : Starts config [] s [] s
  | cons {key : ObjectKey} {identity : IdentityScope} {size : ℕ} {items : List BatchItem} {s s₁ s' : MasterService}
      {bs : List AllocatedBuffer} {out : List (List AllocatedBuffer)}
      (hrun : (putStart key identity size config).run s = some (.ok bs, s₁)) (hrest : Starts config items s₁ out s') :
      Starts config ((key, identity, size) :: items) s (bs :: out) s'

/-- The puts before `item` are started, `item` fails, and what was started is revoked. -/
def RollsBack (config : ReplicateConfig) (items : List BatchItem) (s : MasterService) (e : ErrorCode)
    (s' : MasterService) : Prop :=
  ∃ begun item rest out t t', items = begun ++ item :: rest ∧ Starts config begun s out t ∧
    (putStart item.1 item.2.1 item.2.2 config).run t = some (.error e, t') ∧
    (revokeAll (begun.map Prod.fst)).run t' = some ((), s')

lemma batchPutStartLoop_runs {config : ReplicateConfig} {out : List (List AllocatedBuffer)}
    {started : List ObjectKey} {items : List BatchItem} (s : MasterService) :
    Runs (batchPutStartLoop config out started items) (fun r s' =>
      (∃ out', r = .ok (out ++ out') ∧ Starts config items s out' s') ∨
      ∃ e begun item rest out' t t', r = .error e ∧ items = begun ++ item :: rest ∧ Starts config begun s out' t ∧
        (putStart item.1 item.2.1 item.2.2 config).run t = some (.error e, t') ∧
        (revokeAll (started ++ begun.map Prod.fst)).run t' = some ((), s')) s := by
  induction items generalizing s out started with
  | nil => exact runs_pure.mpr (.inl ⟨[], by rw [append_nil], .nil s⟩)
  | cons item items ih =>
    obtain ⟨key, identity, size⟩ := item
    rw [batchPutStartLoop, runs_bind]
    intro r s₁ hrun₁
    cases r with
    | ok bs =>
      refine (ih s₁).mono ?_
      rintro r s' (⟨out', rfl, hstarts⟩ | ⟨e, begun, item, rest, out', t, t', rfl, rfl, hstarts, hfail, hrevoke⟩)
      · exact .inl ⟨bs :: out', by simp, .cons hrun₁ hstarts⟩
      · refine .inr ⟨e, (key, identity, size) :: begun, item, rest, bs :: out', t, t', rfl, rfl,
          .cons hrun₁ hstarts, hfail, ?_⟩
        rwa [append_assoc] at hrevoke
    | error e =>
      rw [runs_bind]
      intro _ s' hrevoke
      refine runs_pure.mpr (.inr ⟨e, [], (key, identity, size), items, [], s, s₁, rfl, rfl, .nil s, hrun₁, ?_⟩)
      rwa [map_nil, append_nil]

theorem batchPutStart_runs (items : List BatchItem) (config : ReplicateConfig) (s : MasterService) :
    Runs (batchPutStart items config) (fun r s' =>
      (∃ out, r = .ok out ∧ Starts config items s out s') ∨ ∃ e, r = .error e ∧ RollsBack config items s e s') s := by
  refine (batchPutStartLoop_runs s).mono ?_
  rintro r s' (hok | ⟨e, begun, item, rest, out, t, t', rfl, hback⟩)
  · exact .inl hok
  · exact .inr ⟨e, rfl, begun, item, rest, out, t, t', hback⟩

/-! ## Failed batches -/

/-- The objects of a batch may be lost: to an eviction, or as a leftover under one of its keys. -/
def MayLose (s : MasterService) (keys : List ObjectKey) (k : ObjectKey) (o : ObjectMetadata) : Prop :=
  (o.hardPinned = false ∧ o.leaseUntil ≤ s.clock) ∨ (k ∈ keys ∧ o.hasCompleteReplica = false)

/-- Every object is as in `s₀`, or is gone and may be. -/
def OnlyLoses (s₀ : MasterService) (keys : List ObjectKey) (s : MasterService) : Prop :=
  ∀ k, s.objects.lookup k = s₀.objects.lookup k ∨
    (s.objects.lookup k = none ∧ ∀ o, s₀.objects.lookup k = some o → MayLose s₀ keys k o)

/-- The invariant of the loop of `batch_put_start`: outside the keys started so far, objects have only been
lost, and what the started keys had before may be. -/
structure Progress (s₀ : MasterService) (keys started : List ObjectKey) (s : MasterService) : Prop where
  clock_eq : s.clock = s₀.clock
  others : ∀ k, k ∉ started → s.objects.lookup k = s₀.objects.lookup k ∨
    (s.objects.lookup k = none ∧ ∀ o, s₀.objects.lookup k = some o → MayLose s₀ keys k o)
  replaced : ∀ k ∈ started, ∀ o, s₀.objects.lookup k = some o → MayLose s₀ keys k o

section failed

variable {s₀ s s' : MasterService} {keys started ks : List ObjectKey} {key : ObjectKey}

lemma Progress.refl (s : MasterService) (keys : List ObjectKey) : Progress s keys [] s :=
  ⟨rfl, fun _ _ => .inl rfl, by simp⟩

lemma Progress.mayLose (h : Progress s₀ keys started s) (hkey : key ∈ keys) (hopen : s.isComplete key = false) :
    ∀ o, s₀.objects.lookup key = some o → MayLose s₀ keys key o := by
  intro o ho
  by_cases hk : key ∈ started
  · exact h.replaced key hk o ho
  rcases h.others key hk with hsame | ⟨-, hlost⟩
  · rw [isComplete, hsame, ho] at hopen
    exact .inr ⟨hkey, hopen⟩
  · exact hlost o ho

lemma Progress.put (h : Progress s₀ keys started s) (hkey : key ∈ keys) (hopen : s.isComplete key = false)
    (hframe : PutFrame s key ks s') : Progress s₀ keys (started ++ [key]) s' := by
  refine ⟨hframe.frame.clock_eq.trans h.clock_eq, fun k hk => ?_, fun k hk => ?_⟩
  · rw [mem_append, List.mem_singleton, not_or] at hk
    rw [hframe.lookup_ne k hk.2]
    rcases h.others k hk.1 with hsame | ⟨hnone, hlost⟩
    · split_ifs with hmem
      · obtain ⟨-, o, ho, hev⟩ := hframe.victim k hmem
        refine .inr ⟨rfl, fun o' ho' => .inl ?_⟩
        rw [← hsame, ho] at ho'
        cases ho'
        rw [h.clock_eq] at hev
        simpa [evictable] using hev
      · exact .inl hsame
    · exact .inr ⟨by rw [hnone, ite_self], hlost⟩
  · rcases mem_append.mp hk with hk | hk
    · exact h.replaced k hk
    · rw [List.mem_singleton.mp hk]
      exact h.mayLose hkey hopen

lemma Progress.onlyLoses (h : Progress s₀ keys started s)
    (hlookup : ∀ k, s'.objects.lookup k = if k ∈ started then none else s.objects.lookup k) :
    OnlyLoses s₀ keys s' := by
  intro k
  rw [hlookup]
  split_ifs with hk
  · exact .inr ⟨rfl, h.replaced k hk⟩
  · exact h.others k hk

lemma revokeAll_intact (hs : Intact s) :
    Runs (revokeAll keys) (fun _ s' => Intact s' ∧
      ∀ k, s'.objects.lookup k = if k ∈ keys then none else s.objects.lookup k) s := by
  induction keys generalizing s with
  | nil => exact runs_pure.mpr ⟨hs, by simp⟩
  | cons key keys ih =>
    rw [revokeAll, runs_bind]
    refine (putRevoke_intact hs).mono ?_
    rintro _ s₁ ⟨hs₁, hrevoked⟩
    have hlookup : ∀ k, s₁.objects.lookup k = if k = key then none else s.objects.lookup k := by
      intro k
      rcases hrevoked with ⟨hnone, -, rfl⟩ | ⟨_, -, -, hdrops⟩
      · split_ifs with hk
        · rw [hk, hnone]
        · rfl
      · rw [hdrops.objects_eq]
        split_ifs with hk
        · rw [hk, AList.lookup_erase]
        · exact AList.lookup_erase_ne hk
    refine (ih hs₁).mono ?_
    rintro _ s₂ ⟨hs₂, hrest⟩
    refine ⟨hs₂, fun k => ?_⟩
    rw [hrest, hlookup]
    by_cases hk : k = key <;> by_cases hmem : k ∈ keys <;> simp [hk, hmem]

lemma Starts.progress {config : ReplicateConfig} {items : List BatchItem} {out : List (List AllocatedBuffer)}
    (hstarts : Starts config items s out s') (hs : Intact s) (h : Progress s₀ keys started s)
    (hitems : ∀ item ∈ items, item.1 ∈ keys) :
    Intact s' ∧ Progress s₀ keys (started ++ items.map Prod.fst) s' := by
  induction hstarts generalizing started with
  | nil s => exact ⟨hs, by rwa [map_nil, append_nil]⟩
  | cons hrun _ ih =>
    obtain ⟨hs₁, ⟨hr, -⟩ | ⟨hopen, ⟨ks, hframe⟩, -⟩⟩ := putStart_intact hs _ _ hrun
    · cases hr
    · have hprogress := h.put (hitems _ List.mem_cons_self) hopen hframe
      have hrest := ih hs₁ hprogress fun item hi => hitems item (List.mem_cons_of_mem _ hi)
      rwa [append_assoc] at hrest

/-- The items before the one that fails have no object after the rollback. -/
def Revoked (config : ReplicateConfig) (items : List BatchItem) (s : MasterService) (e : ErrorCode)
    (s' : MasterService) : Prop :=
  ∃ begun item rest out t t', items = begun ++ item :: rest ∧ Starts config begun s out t ∧
    (putStart item.1 item.2.1 item.2.2 config).run t = some (.error e, t') ∧
    ∀ k ∈ begun.map Prod.fst, s'.objects.lookup k = none

lemma RollsBack.outcome {config : ReplicateConfig} {items : List BatchItem} {e : ErrorCode}
    (h : RollsBack config items s e s') (hs : Intact s) :
    Revoked config items s e s' ∧ OnlyLoses s (items.map Prod.fst) s' := by
  obtain ⟨begun, ⟨key, identity, size⟩, rest, out, t, t', rfl, hstarts, hfail, hrevoke⟩ := h
  set keys := (begun ++ (key, identity, size) :: rest).map Prod.fst with hkeys
  have hkey : key ∈ keys := by simp [hkeys]
  have hbegun : ∀ item ∈ begun, item.1 ∈ keys := fun item hi =>
    List.mem_map_of_mem (mem_append_left _ hi)
  obtain ⟨ht, hprogress⟩ := hstarts.progress hs (.refl s keys) hbegun
  rw [nil_append] at hprogress
  obtain ⟨ht', hput⟩ := putStart_intact ht _ _ hfail
  have hlookup := (revokeAll_intact ht' _ _ hrevoke).2
  refine ⟨⟨begun, _, rest, out, t, t', rfl, hstarts, hfail, fun k hk => by rw [hlookup, if_pos hk]⟩, ?_⟩
  rcases hput with ⟨-, rfl, -⟩ | ⟨hopen, ⟨ks, hframe⟩, ⟨bs, o, hr, -⟩ | ⟨-, hnone, -⟩⟩
  · exact hprogress.onlyLoses hlookup
  · cases hr
  · -- the failed put has left nothing under its key either
    refine (hprogress.put hkey hopen hframe).onlyLoses fun k => ?_
    rw [hlookup]
    by_cases hk : k = key
    · rw [hk, hnone, ite_self, ite_self]
    · simp only [mem_append, List.mem_singleton, hk, or_false]

end failed

/-- **A failed batch**: what it had started has no object any more; every object left was there before, as it is;
every object lost was neither hard-pinned nor leased, or was in flight under a key of the batch. If no name was
mounted twice, the bytes allocated are those of the replicas left. -/
theorem failed_batch (s : MasterService) (hs : ReachableAny s) (items : List BatchItem) (config : ReplicateConfig)
    (e : ErrorCode) (s' : MasterService) (hrun : (batchPutStart items config).run s = some (.error e, s')) :
    Revoked config items s e s' ∧
    (∀ k o, s'.objects.lookup k = some o → s.objects.lookup k = some o) ∧
    (∀ k o, s.objects.lookup k = some o → s'.objects.lookup k = some o ∨ (s'.objects.lookup k = none ∧
      ((o.hardPinned = false ∧ o.leaseUntil ≤ s.clock) ∨
        (k ∈ items.map Prod.fst ∧ o.hasCompleteReplica = false)))) ∧
    (Reachable s → s'.segments.allocated = SegmentState.sumChecked (s'.replicas.map Replica.size)) := by
  obtain ⟨hintact, -⟩ := hs.intact
  rcases batchPutStart_runs items config s _ _ hrun with ⟨out, hr, -⟩ | ⟨e', hr, hback⟩
  · cases hr
  cases hr
  obtain ⟨hrevoked, hloses⟩ := hback.outcome hintact
  refine ⟨hrevoked, fun k o ho => ?_, fun k o ho => ?_, fun hfresh => ?_⟩
  · rcases hloses k with hsame | ⟨hnone, -⟩
    · rwa [← hsame]
    · rw [hnone] at ho
      cases ho
  · rcases hloses k with hsame | ⟨hnone, hlost⟩
    · exact Or.inl (hsame.trans ho)
    · exact .inr ⟨hnone, hlost o ho⟩
  · exact allocated_of_sound (sound_runs (balanced_batchPutStartLoop config [] [] items) hfresh.sound _ _ hrun)

def tooLarge : List BatchItem := [("x", ⟨"m", "t", none, "u"⟩, 100), ("y", ⟨"m", "t", none, "u"⟩, 5000)]

theorem failed_batch_tooLarge :
    ∃ s e s', Reachable s ∧ (batchPutStart tooLarge ⟨1, false, false, none⟩).run s = some (.error e, s') ∧
      s'.segments.allocated = SegmentState.sumChecked (s'.replicas.map Replica.size) := by
  have hrun : ((serveAll freshMounts [.mountSegment "a" 1024] (new "random")).any fun s =>
      ((batchPutStart tooLarge ⟨1, false, false, none⟩).run s).any fun r => !r.1.isOk) = true := by
    decide +kernel
  obtain ⟨s, hs, hbatch⟩ := (Option.any_eq_true _ _).mp hrun
  obtain ⟨⟨r, s'⟩, hrun', herror⟩ := (Option.any_eq_true _ _).mp hbatch
  cases r with
  | ok out => cases herror
  | error e =>
    have hreach := reachable_of_serveAll hs
    exact ⟨s, e, s', hreach, hrun', (failed_batch s hreach.any _ _ e s' hrun').2.2.2 hreach⟩

/-- After a segment was mounted twice, a failed batch leaves bytes allocated that no replica has. -/
theorem failed_batch_remounted :
    ∃ s e s', ReachableAny s ∧ (batchPutStart tooLarge ⟨1, false, false, none⟩).run s = some (.error e, s') ∧
      s'.segments.allocated ≠ SegmentState.sumChecked (s'.replicas.map Replica.size) := by
  have hrun : ((serveAll anyMounts (remounted ++ [.remove "x" true]) (new "random")).any fun s =>
      ((batchPutStart tooLarge ⟨1, false, false, none⟩).run s).any fun r => !r.1.isOk &&
        decide (r.2.segments.allocated ≠ SegmentState.sumChecked (r.2.replicas.map Replica.size))) = true := by
    decide +kernel
  obtain ⟨s, hs, hbatch⟩ := (Option.any_eq_true _ _).mp hrun
  obtain ⟨⟨r, s'⟩, hrun', hboth⟩ := (Option.any_eq_true _ _).mp hbatch
  obtain ⟨herror, hleak⟩ := Bool.and_eq_true_iff.mp hboth
  cases r with
  | ok out => cases herror
  | error e => exact ⟨s, e, s', reachableAny_of_serveAll hs, hrun', of_decide_eq_true hleak⟩

/-! ## Successful batches -/

/-- What a batch promises: every item's key is in flight with the buffers returned for it, and no two of the
returned buffers overlap. -/
structure Granted (items : List BatchItem) (out : List (List AllocatedBuffer)) (s : MasterService) : Prop where
  held : List.Forall₂ (fun item bs => ∃ o, s.objects.lookup item.1 = some o ∧ o.hasCompleteReplica = false ∧
    bs.Perm (objectBuffers o)) items out
  disjoint : out.flatten.Pairwise fun b c =>
    b.segmentName = c.segmentName → RangesDisjoint b.offset b.size c.offset c.size

/-- No put of the batch evicts the object of an earlier item, unless that is started again. -/
def spares (config : ReplicateConfig) : List ObjectKey → List BatchItem → MasterService → Bool
  | _, [], _ => true
  | begun, (key, identity, size) :: items, s =>
    match (putStart key identity size config).run s with
    | some (.ok _, s₁) =>
      (begun.all fun k => decide (k = key ∨ k ∈ items.map Prod.fst) || (s₁.objects.lookup k).isSome) &&
        spares config (key :: begun) items s₁
    | _ => true

section granted

variable {config : ReplicateConfig} {items : List BatchItem} {out : List (List AllocatedBuffer)}
  {s s' : MasterService} {key : ObjectKey} {identity : IdentityScope} {size : ℕ} {begun : List ObjectKey}

lemma spares_cons {s₁ : MasterService} {bs : List AllocatedBuffer}
    (hrun : (putStart key identity size config).run s = some (.ok bs, s₁)) :
    spares config begun ((key, identity, size) :: items) s = true ↔
      (∀ k ∈ begun, (k ≠ key ∧ k ∉ items.map Prod.fst) → s₁.objects.lookup k ≠ none) ∧
        spares config (key :: begun) items s₁ = true := by
  rw [spares, hrun]
  simp only [Bool.and_eq_true, all_eq_true, Bool.or_eq_true, decide_eq_true_eq]
  refine and_congr_left fun _ => forall₂_congr fun k _ => ?_
  rw [Option.isSome_iff_ne_none, or_iff_not_imp_left, not_or]

lemma lookup_of_putStart {s₁ : MasterService} {bs : List AllocatedBuffer} {k : ObjectKey} (hs : Intact s)
    (hrun : (putStart key identity size config).run s = some (.ok bs, s₁)) (hk : k ≠ key) :
    s₁.objects.lookup k = s.objects.lookup k ∨ s₁.objects.lookup k = none := by
  obtain ⟨-, ⟨hr, -⟩ | ⟨-, ⟨ks, hframe⟩, -⟩⟩ := putStart_intact hs _ _ hrun
  · cases hr
  · rw [hframe.lookup_ne k hk]
    split_ifs
    · exact .inr rfl
    · exact .inl rfl

lemma Starts.lookup_eq {k : ObjectKey} (h : Starts config items s out s') (hs : Intact s)
    (hk : k ∉ items.map Prod.fst) :
    s'.objects.lookup k = s.objects.lookup k ∨ s'.objects.lookup k = none := by
  induction h with
  | nil s => exact .inl rfl
  | cons hrun _ ih =>
    rw [List.map_cons, List.mem_cons, not_or] at hk
    rcases ih (putStart_intact hs _ _ hrun).1 hk.2 with hsame | hnone
    · rw [hsame]
      exact lookup_of_putStart hs hrun hk.1
    · exact .inr hnone

lemma Starts.lookup_of_spares {k : ObjectKey} {o : ObjectMetadata} (h : Starts config items s out s')
    (hs : Intact s) (hspares : spares config begun items s = true) (hbegun : k ∈ begun)
    (hk : k ∉ items.map Prod.fst) (ho : s.objects.lookup k = some o) : s'.objects.lookup k = some o := by
  induction h generalizing begun with
  | nil s => exact ho
  | cons hrun _ ih =>
    obtain ⟨hstays, hrest⟩ := (spares_cons hrun).mp hspares
    rw [List.map_cons, List.mem_cons, not_or] at hk
    refine ih (putStart_intact hs _ _ hrun).1 hrest (List.mem_cons_of_mem _ hbegun) hk.2 ?_
    rcases lookup_of_putStart hs hrun hk.1 with hsame | hnone
    · rw [hsame, ho]
    · exact absurd hnone (hstays k hbegun hk)

lemma Starts.spares_of_lookup (h : Starts config items s out s') (hs : Intact s)
    (hitems : ∀ item ∈ items, s'.objects.lookup item.1 ≠ none)
    (hbegun : ∀ k ∈ begun, s'.objects.lookup k ≠ none) : spares config begun items s = true := by
  induction h generalizing begun with
  | nil s => rfl
  | cons hrun hrest ih =>
    have hs₁ := (putStart_intact hs _ _ hrun).1
    refine (spares_cons hrun).mpr ⟨fun k hk hother => ?_, ?_⟩
    · intro hnone
      rcases hrest.lookup_eq hs₁ hother.2 with hsame | hgone
      · exact hbegun k hk (hsame.trans hnone)
      · exact hbegun k hk hgone
    · refine ih hs₁ (fun item hi => hitems item (List.mem_cons_of_mem _ hi)) fun k hk => ?_
      rcases List.mem_cons.mp hk with rfl | hk
      · exact hitems _ List.mem_cons_self
      · exact hbegun k hk

/-- The key of an item is in flight with the buffers `bs`, one for each replica. -/
def Holds (config : ReplicateConfig) (s : MasterService) (item : BatchItem) (bs : List AllocatedBuffer) : Prop :=
  bs.length = config.replicaNum ∧ ∃ o, s.objects.lookup item.1 = some o ∧ o.hasCompleteReplica = false ∧
    bs.Perm (objectBuffers o)

lemma Starts.holds (h : Starts config items s out s') (hs : Intact s) (hspares : spares config begun items s = true)
    (hkeys : (items.map Prod.fst).Nodup ∨ config.replicaNum = 0) :
    List.Forall₂ (Holds config s') items out := by
  induction h generalizing begun with
  | nil s => exact .nil
  | @cons key identity size items s s₁ s' bs out hrun hrest ih =>
    obtain ⟨-, hspares₁⟩ := (spares_cons hrun).mp hspares
    obtain ⟨hs₁, ⟨hr, -⟩ | ⟨-, -, ⟨bs', o, hr, hlen, -, ho, hfresh⟩ | ⟨hr, -⟩⟩⟩ := putStart_intact hs _ _ hrun
    · cases hr
    · cases hr
      have htail := ih hs₁ hspares₁ (hkeys.imp_left fun h => (List.nodup_cons.mp h).2)
      refine .cons ⟨hlen, ?_⟩ htail
      by_cases hmem : key ∈ items.map Prod.fst
      · -- the key is started again, so there are no buffers at all
        obtain ⟨item, hitem, rfl⟩ := List.mem_map.mp hmem
        have hzero : config.replicaNum = 0 := hkeys.resolve_left fun h => (List.nodup_cons.mp h).1 hmem
        obtain ⟨bs', -, hlen', o', ho', hopen, hperm⟩ := exists_right_of_forall₂ htail hitem
        rw [eq_nil_of_length_eq_zero (hlen'.trans hzero)] at hperm
        rw [eq_nil_of_length_eq_zero (hlen.trans hzero)]
        exact ⟨o', ho', hopen, hperm⟩
      · have ho' := hrest.lookup_of_spares hs₁ hspares₁ List.mem_cons_self hmem ho
        exact ⟨o, ho', hfresh.hasCompleteReplica, hfresh.opens.1⟩
    · cases hr

lemma Starts.length_eq (h : Starts config items s out s') (hs : Intact s) :
    ∀ bs ∈ out, bs.length = config.replicaNum := by
  induction h with
  | nil s => simp
  | cons hrun _ ih =>
    obtain ⟨hs₁, ⟨hr, -⟩ | ⟨-, -, ⟨bs', o, hr, hlen, -⟩ | ⟨hr, -⟩⟩⟩ := putStart_intact hs _ _ hrun
    · cases hr
    · cases hr
      exact List.forall_mem_cons.mpr ⟨hlen, ih hs₁⟩
    · cases hr

lemma disjoint_of_holds (hs : Sound s.view) (h : List.Forall₂ (Holds config s) items out)
    (hkeys : (items.map Prod.fst).Nodup) : out.flatten.Pairwise fun b c =>
      b.segmentName = c.segmentName → RangesDisjoint b.offset b.size c.offset c.size := by
  induction h with
  | nil => exact .nil
  | @cons item bs items out hheld htail ih =>
    obtain ⟨-, o, ho, -, hperm⟩ := hheld
    obtain ⟨hnot, hkeys⟩ := List.nodup_cons.mp hkeys
    have hmem : ∀ b ∈ bs, b ∈ o.footprint.buffers := fun b hb => by
      rw [← coe_objectBuffers]
      exact mem_coe.mpr (hperm.mem_iff.mp hb)
    rw [flatten_cons, pairwise_append]
    refine ⟨?_, ih hkeys, fun b hb c hc hname => ?_⟩
    · -- the replicas of one object lie on different segments
      have hdistinct := (hs.footprint_ok ho).distinct
      rw [← coe_objectBuffers, map_coe, coe_nodup, ← (hperm.map _).nodup_iff] at hdistinct
      exact (pairwise_map.mp hdistinct).imp fun hne hname => absurd hname hne
    · obtain ⟨bs', hbs', hc⟩ := mem_flatten.mp hc
      obtain ⟨item', hitem', -, o', ho', -, hperm'⟩ := exists_left_of_forall₂ htail hbs'
      have hc' : c ∈ o'.footprint.buffers := by
        rw [← coe_objectBuffers]
        exact mem_coe.mpr (hperm'.mem_iff.mp hc)
      have hne : item'.1 ≠ item.1 := fun heq => hnot (heq ▸ List.mem_map_of_mem hitem')
      exact hs.disjoint_of_ne ho ho' hne (hmem b hb) hc' hname

lemma Granted.nodup_keys (h : Granted items out s) (hs : Sound s.view)
    (hlen : ∀ bs ∈ out, bs.length = config.replicaNum) :
    (items.map Prod.fst).Nodup ∨ config.replicaNum = 0 := by
  rw [or_iff_not_imp_right]
  intro hpos
  obtain ⟨hheld, hdisjoint⟩ := h
  induction hheld with
  | nil => exact nodup_nil
  | @cons item bs items out hhead htail ih =>
    rw [flatten_cons, pairwise_append] at hdisjoint
    obtain ⟨-, hrest, hcross⟩ := hdisjoint
    refine List.nodup_cons.mpr ⟨fun hmem => ?_, ih (fun bs hbs => hlen bs (List.mem_cons_of_mem _ hbs)) hrest⟩
    obtain ⟨o, ho, -, hperm⟩ := hhead
    obtain ⟨item', hitem', heq⟩ := List.mem_map.mp hmem
    obtain ⟨bs', hbs', o', ho', -, hperm'⟩ := exists_right_of_forall₂ htail hitem'
    rw [heq, ho] at ho'
    cases ho'
    -- some buffer of the object is returned for both items, and it is not empty
    obtain ⟨b, hb⟩ := exists_mem_of_length_pos
      (Nat.pos_of_ne_zero ((hlen bs List.mem_cons_self).trans_ne hpos))
    have hb' : b ∈ bs' := hperm'.mem_iff.mpr (hperm.mem_iff.mp hb)
    have hlive : b ∈ o.footprint.buffers := by
      rw [← coe_objectBuffers]
      exact mem_coe.mpr (hperm.mem_iff.mp hb)
    obtain ⟨-, -, -, hsize, -⟩ := hs.fleet.bounds (hs.mem_live ho hlive)
    have hself := hcross b hb b (mem_flatten.mpr ⟨bs', hbs', hb'⟩) rfl
    rw [RangesDisjoint] at hself
    omega

end granted

def twoItems : List BatchItem := [("x", ⟨"m", "t", none, "u"⟩, 100), ("y", ⟨"m", "t", none, "u"⟩, 100)]

/-- The batch succeeds in some state, but does not hold what it returned. -/
def Ungranted (items : List BatchItem) : Prop :=
  ∃ s out s', Reachable s ∧ (batchPutStart items ⟨1, false, false, none⟩).run s = some (.ok out, s') ∧
    ¬Granted items out s'

lemma ungranted_of_run {items : List BatchItem}
    (h : ((serveAll freshMounts [.mountSegment "a" 1024] (new "random")).any fun s =>
      ((batchPutStart items ⟨1, false, false, none⟩).run s).any fun r => r.1.toOption.any fun out =>
        decide ¬out.flatten.Pairwise fun b c =>
          b.segmentName = c.segmentName → RangesDisjoint b.offset b.size c.offset c.size) = true) :
    Ungranted items := by
  obtain ⟨s, hs, hbatch⟩ := (Option.any_eq_true _ _).mp h
  obtain ⟨⟨r, s'⟩, hrun, hok⟩ := (Option.any_eq_true _ _).mp hbatch
  cases r with
  | error e => cases hok
  | ok out => exact ⟨s, out, s', reachable_of_serveAll hs, hrun, fun h => of_decide_eq_true hok h.disjoint⟩

end QuillCache.Store.MasterService
