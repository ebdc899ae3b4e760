import QuillCache.Store.Life

/-!
# Whose bytes a reader is given

Clients put objects into one master: each sends a `put_start`, writes every buffer it was granted, and then sends a
`put_end`, in any order with the messages of others. A `Floor` is the master, what each client has under way, and the
history that the master does not keep: who created a replica, and which replicas their creators have written.

`put_end` names only a key. If another client's object has taken the place of the sender's, it is marked complete
although its creator still writes (`put_end_of_another`). As long as every `put_end` meets the object of its own sender,
or none, a reader is given only replicas that were written before, under its own identity (`readers_get_written`).
-/

namespace QuillCache.Store

open Lib MasterService Relation Function List Multiset Option

/-- The put that a client has under way: its key, and the buffers that it has not written yet, each with the id of its
replica. Source: `quillcache_v1_connector.py` `_put_bytes`. -/
structure Session where
  key : ObjectKey
  unwritten : List (AllocatedBuffer × ReplicaId)

/-- How a replica came about: the client whose `put_start` created it, the identity which that client gave, and the
buffer it was granted. -/
structure Origin where
  client : ℕ
  identity : IdentityScope
  buffer : AllocatedBuffer

/-- A master, its clients, and the history: the origin of every replica, the replicas whose creator has finished
writing, and those that were marked complete before that. -/
structure Floor where
  master : MasterService
  session : ℕ → Option Session
  origin : ReplicaId → Option Origin
  written : List ReplicaId
  early : List ReplicaId

namespace Floor

/-- What can happen: the master serves the `put_start` of a client, a client finishes writing one of its buffers, the
master serves the `put_end` of a client, or it serves a request that is not part of a put. -/
inductive Act where
  | putStart (i : ℕ) (key : ObjectKey) (identity : IdentityScope) (size : ℕ) (config : ReplicateConfig)
  | write (i n : ℕ)
  | putEnd (i : ℕ)
  | serve (op : MasterOp)

def new (strategy : String) : Floor := ⟨.new strategy, fun _ => none, fun _ => none, [], []⟩

/-- After a `put_start` of client `i`: a refused client gives up, a granted one has its buffers to write. The granted
buffers have the ids from the next one on. -/
def started (f : Floor) (i : ℕ) (key : ObjectKey) (identity : IdentityScope) (m : MasterService) :
    Except ErrorCode (List AllocatedBuffer) → Floor
  | .error _ => { f with master := m }
  | .ok bs =>
    let n := f.master.segments.nextReplicaId
    { f with
      master := m
      session := Function.update f.session i (some ⟨key, bs.zipIdx n⟩)
      origin := fun id => if n ≤ id then bs[id - n]?.map (⟨i, identity, ·⟩) else f.origin id }

def idsUnder (f : Floor) (key : ObjectKey) : List ReplicaId :=
  match f.master.objects.lookup key with
  | none => []
  | some o => o.replicas.values.map Replica.id

/-- After a `put_end` of client `i`, which has marked everything under `key`. -/
def ended (f : Floor) (i : ℕ) (key : ObjectKey) (m : MasterService) : Floor :=
  { f with
    master := m
    session := Function.update f.session i none
    early := f.early ++ (f.idsUnder key).filter (· ∉ f.written) }

/-- The requests beside the puts: segments come and go, objects are read, removed and evicted, time passes. -/
def beside : MasterOp → Bool
  | .mountSegment _ _ | .unmountSegment _ | .getReplicaList _ _ | .remove _ _ | .evictIfNeeded | .tick => true
  | _ => false

/-- One step; `none` if it cannot be taken now. A client starts a put when it has none under way, and ends it when it
has written everything. -/
def act (f : Floor) : Act → Option Floor
  | .putStart i key identity size config =>
    if (f.session i).isSome then none
    else ((MasterService.putStart key identity size config).run f.master).map fun r =>
      f.started i key identity r.2 r.1
  | .write i n => do
    let session ← f.session i
    let b ← session.unwritten[n]?
    return { f with
      session := Function.update f.session i (some { session with unwritten := session.unwritten.eraseIdx n })
      written := b.2 :: f.written }
  | .putEnd i => do
    let session ← f.session i
    if session.unwritten = [] then
      ((MasterService.putEnd session.key).run f.master).map fun r => f.ended i session.key r.2
    else none
  | .serve op =>
    if beside op ∧ freshMounts op f.master then (op.prog.run f.master).map fun r => { f with master := r.2 }
    else none

inductive Steps (allowed : Floor → Act → Prop) : Floor → Floor → Prop where
  | act {f f' : Floor} (a : Act) (hallowed : allowed f a) (h : f.act a = some f') : Steps allowed f f'
  | shuffle {f : Floor} {m : MasterService} (h : Shuffle f.master m) : Steps allowed f { f with master := m }

section run

variable (allowed : Floor → Act → Prop) [∀ f a, Decidable (allowed f a)]

def run (f : Floor) : List Act → Option Floor
  | [] => some f
  | a :: as => if allowed f a then (f.act a).bind fun f => f.run as else none

variable {allowed}

lemma steps_of_run {f f' : Floor} {as : List Act} (h : f.run allowed as = some f') :
    ReflTransGen (Steps allowed) f f' := by
  induction as generalizing f with
  | nil =>
    cases h
    exact .refl
  | cons a as ih =>
    rw [run] at h
    split_ifs at h with hallowed
    obtain ⟨f₁, hact, hrest⟩ := bind_eq_some_iff.mp h
    exact .head (.act a hallowed hact) (ih hrest)

end run

/-- Every replica under the key was created by a `put_start` of client `i`. -/
def Own (f : Floor) (i : ℕ) (key : ObjectKey) : Prop :=
  ∀ id ∈ f.idsUnder key, (f.origin id).map Origin.client = some i

instance (f : Floor) (i : ℕ) (key : ObjectKey) : Decidable (f.Own i key) :=
  inferInstanceAs (Decidable (∀ id ∈ f.idsUnder key, _))

/-- A `put_end` meets the object of its sender, or none. -/
def Orderly (f : Floor) : Act → Prop
  | .putEnd i => ∀ session ∈ f.session i, f.Own i session.key
  | _ => True

instance : ∀ f a, Decidable (Orderly f a)
  | f, .putEnd i => inferInstanceAs (Decidable (∀ session ∈ f.session i, f.Own i session.key))
  | _, .putStart _ _ _ _ _ | _, .write _ _ | _, .serve _ => inferInstanceAs (Decidable True)

/-! ## The requests beside the puts -/

/-- Events that neither start nor end a put. -/
def Passive : ObjectEvent → Prop
  | .start | .finish | .reopen => False
  | _ => True

/-- What is left of an object: some of its replicas, under the same identity. -/
structure LeftOf (o o' : ObjectMetadata) : Prop where
  identity_eq : o'.identity = o.identity
  subset : ∀ r ∈ o'.replicas.values, r ∈ o.replicas.values

section beside

variable {s s' : MasterService}

lemma LeftOf.refl (o : ObjectMetadata) : LeftOf o o := ⟨rfl, fun _ h => h⟩

lemma LeftOf.trans {o₁ o₂ o₃ : ObjectMetadata} (h : LeftOf o₁ o₂) (h' : LeftOf o₂ o₃) : LeftOf o₁ o₃ :=
  ⟨h'.identity_eq.trans h.identity_eq, fun r hr => h.subset r (h'.subset r hr)⟩

lemma leftOf_withoutSegment (name : SegmentName) (o : ObjectMetadata) : LeftOf o (o.withoutSegment name) := by
  have hsub : (o.withoutSegment name).replicas.values.Sublist o.replicas.values := filter_sublist.map _
  exact ⟨rfl, fun r hr => hsub.subset hr⟩

lemma leftOf_of_happens {now ttl : ℕ} {e : ObjectEvent} {x y : Option ObjectMetadata} (he : Passive e)
    (h : Happens now ttl e x y) {o' : ObjectMetadata} (ho' : y = some o') : ∃ o, x = some o ∧ LeftOf o o' := by
  cases h with
  | start => exact he.elim
  | finish => exact he.elim
  | reopen => exact he.elim
  | reclaim => cases ho'
  | revoke => cases ho'
  | evict => cases ho'
  | remove => cases ho'
  | replace => cases ho'
  | @grant o =>
    cases ho'
    exact ⟨o, rfl, rfl, fun _ hr => hr⟩
  | @detach o name =>
    obtain ⟨ho', -⟩ := filter_eq_some_iff.mp ho'
    cases ho'
    exact ⟨o, rfl, leftOf_withoutSegment name o⟩

lemma leftOf_of_alters (h : Alters (fun _ => Passive) s s') {k : ObjectKey} {o' : ObjectMetadata}
    (ho' : s'.objects.lookup k = some o') : ∃ o, s.objects.lookup k = some o ∧ LeftOf o o' := by
  have hlives := h.lives k
  rw [ho'] at hlives
  suffices hgen : ∀ y, ReflTransGen (fun x y => ∃ e, Passive e ∧ Happens s.clock s.leaseTtl e x y)
      (s.objects.lookup k) y → ∀ o', y = some o' → ∃ o, s.objects.lookup k = some o ∧ LeftOf o o' from
    hgen _ hlives o' rfl
  intro y hy
  induction hy with
  | refl => exact fun o' ho' => ⟨o', ho', .refl o'⟩
  | tail _ hstep ih =>
    intro o' ho'
    obtain ⟨e, he, hhappens⟩ := hstep
    obtain ⟨o₁, ho₁, hleft⟩ := leftOf_of_happens he hhappens ho'
    obtain ⟨o, ho, hleft₁⟩ := ih o₁ ho₁
    exact ⟨o, ho, hleft₁.trans hleft⟩

lemma leftOf_of_beside {op : MasterOp} (hs : Sound s.view) (hop : beside op = true) (hmount : freshMounts op s)
    (hrun : op.prog.run s = some ((), s')) : Sound s'.view ∧
      ∀ k o', s'.objects.lookup k = some o' → ∃ o, s.objects.lookup k = some o ∧ LeftOf o o' := by
  have halters : ∀ {α : Type} {p : MasterProg α} {P : ObjectKey → ObjectEvent → Prop},
      (∀ k e, P k e → Passive e) → Runs p (fun _ s' => Alters P s s') s →
      (MasterOp.void p).run s = some ((), s') → Sound s'.view ∧
        ∀ k o', s'.objects.lookup k = some o' → ∃ o, s.objects.lookup k = some o ∧ LeftOf o o' := by
    intro α p P hP hp hvoid
    have h : Alters P s s' := runs_void.mpr hp () s' hvoid
    exact ⟨h.sound, fun k o' ho' => leftOf_of_alters (h.mono hP) ho'⟩
  cases op with
  | mountSegment name capacity =>
    obtain ⟨hname, hcap⟩ := hmount (name, capacity) rfl
    obtain ⟨hs', a, -, rfl⟩ := mountSegment_runs hs hname hcap _ _ hrun
    exact ⟨hs', fun k o' ho' => ⟨o', ho', .refl o'⟩⟩
  | unmountSegment name =>
    refine halters ?_ (unmountSegment_alters name hs) hrun
    rintro k e rfl
    trivial
  | getReplicaList key requester =>
    refine halters ?_ (getReplicaList_alters key requester hs) hrun
    rintro k e ⟨rfl, rfl⟩
    trivial
  | remove key force =>
    refine halters ?_ (remove_alters key force hs) hrun
    rintro k e ⟨rfl, rfl⟩
    trivial
  | evictIfNeeded =>
    refine halters (P := fun _ e => e = .evict) ?_ ((evictIfNeeded_runs hs).mono ?_) hrun
    · rintro k e rfl
      trivial
    · rintro _ s' ⟨hs', ks, hks⟩
      exact hks.alters hs' fun _ => rfl
  | tick =>
    have htick := runs_void.mpr (tick_runs s) () s' hrun
    rw [htick]
    exact ⟨hs, fun k o' ho' => ⟨o', ho', .refl o'⟩⟩
  | _ => cases hop

end beside

/-! ## The invariant -/

/-- An object and its history: every replica was created under the object's identity with the buffer that it has, and
if it is complete, its creator has written it. -/
def Made (f : Floor) (o : ObjectMetadata) : Prop :=
  ∀ r ∈ o.replicas.values, ∃ origin, f.origin r.id = some origin ∧ r.data = .memory origin.buffer ∧
    origin.identity = o.identity ∧ (r.isComplete = true → r.id ∈ f.written)

/-- Every object has a history, what a client has not written is in its session, and nothing was marked early. -/
structure Inv (f : Floor) : Prop where
  sound : Sound f.master.view
  made : ∀ k o, f.master.objects.lookup k = some o → f.Made o
  pending : ∀ id origin, f.origin id = some origin → id ∈ f.written ∨
    ∃ session, f.session origin.client = some session ∧ id ∈ session.unwritten.map Prod.snd
  early_eq : f.early = []

section steps

variable {f f' : Floor} {m : MasterService} {i : ℕ} {key : ObjectKey}

lemma Made.leftOf {o o' : ObjectMetadata} (h : f.Made o) (hleft : LeftOf o o') : f.Made o' := by
  intro r hr
  rw [hleft.identity_eq]
  exact h r (hleft.subset r hr)

lemma Inv.keep (hi : Inv f) (hs : Sound m.view)
    (h : ∀ k o', m.objects.lookup k = some o' → ∃ o, f.master.objects.lookup k = some o ∧ LeftOf o o') :
    Inv { f with master := m } := by
  refine ⟨hs, fun k o' ho' => ?_, hi.pending, hi.early_eq⟩
  obtain ⟨o, ho, hleft⟩ := h k o' ho'
  exact (hi.made k o ho).leftOf hleft

lemma Inv.shuffle (hi : Inv f) (h : Shuffle f.master m) : Inv { f with master := m } := by
  refine hi.keep (view_shuffle h ▸ hi.sound) fun k o' ho' => ?_
  obtain ⟨o, ho, hsame⟩ := h.exists_before ho'
  refine ⟨o, ho, ?_, fun r hr => ?_⟩
  · rw [hsame.2]
  · exact (hsame.1.map Sigma.snd).mem_iff.mpr hr

lemma id_lt_next {s : MasterService} (hs : Sound s.view) {k : ObjectKey} {o : ObjectMetadata}
    (ho : s.objects.lookup k = some o) {r : Replica} (hr : r ∈ o.replicas.values) :
    r.id < s.segments.nextReplicaId := by
  refine hs.ids_lt r.id ?_
  rw [view, footprints_erase ho, idSum_cons]
  refine mem_add.mpr (.inl ?_)
  obtain ⟨e, he, rfl⟩ := List.mem_map.mp hr
  exact Multiset.mem_map.mpr ⟨(e.1, e.2.id, e.2.data), Multiset.mem_map.mpr ⟨e, mem_coe.mpr he, rfl⟩, rfl⟩

lemma getElem?_of_fresh {identity : IdentityScope} {config : ReplicateConfig} {clock n : ℕ}
    {bs : List AllocatedBuffer} {o : ObjectMetadata} (h : Fresh identity config clock n bs o) {r : Replica}
    (hr : r ∈ o.replicas.values) : n ≤ r.id ∧ ∃ b, bs[r.id - n]? = some b ∧ r.data = .memory b := by
  obtain ⟨e, he, rfl⟩ := List.mem_map.mp hr
  have hmem : (e.1, e.2.id, e.2.data) ∈ granted n bs := by
    rw [← h.footprint_eq]
    exact Multiset.mem_map.mpr ⟨e, mem_coe.mpr he, rfl⟩
  obtain ⟨⟨b, id⟩, hb, heq⟩ := List.mem_map.mp (mem_coe.mp hmem)
  obtain ⟨hle, hget⟩ := mk_mem_zipIdx_iff_le_and_getElem?_sub.mp hb
  have hid : id = e.2.id := congrArg (fun x => x.2.1) heq
  have hdata : ReplicaData.memory b = e.2.data := congrArg (fun x => x.2.2) heq
  subst hid
  exact ⟨hle, b, hget, hdata.symm⟩

lemma Inv.putStart {identity : IdentityScope} {size : ℕ} {config : ReplicateConfig}
    {r : Except ErrorCode (List AllocatedBuffer)} (hi : Inv f) (hidle : f.session i = none)
    (hrun : (MasterService.putStart key identity size config).run f.master = some (r, m)) :
    Inv (f.started i key identity m r) := by
  obtain ⟨hs, hr⟩ := putStart_runs hi.sound _ _ hrun
  -- what the put leaves of the other objects
  have hother : ∀ k o', k ≠ key → m.objects.lookup k = some o' → f.master.objects.lookup k = some o' := by
    intro k o' hk ho'
    rcases hr with ⟨-, rfl, -⟩ | ⟨-, ks, hframe, -, -⟩
    · exact ho'
    · rw [hframe.lookup_ne k hk] at ho'
      split_ifs at ho'
      exact ho'
  cases r with
  | error e =>
    refine hi.keep hs fun k o' ho' => ⟨o', ?_, .refl o'⟩
    by_cases hk : k = key
    · subst hk
      rcases hr with ⟨-, rfl, -⟩ | ⟨-, ks, -, -, hnone, -⟩
      · exact ho'
      · rw [hnone] at ho'
        cases ho'
    · exact hother k o' hk ho'
  | ok bs =>
    rcases hr with ⟨hr, -, -⟩ | ⟨-, ks, -, -, -, ⟨o, ho, hfresh⟩, -⟩
    · cases hr
    refine ⟨hs, fun k o' ho' => ?_, fun id origin horigin => ?_, hi.early_eq⟩
    · by_cases hk : k = key
      · -- the object of this very put
        subst hk
        obtain rfl : o = o' := Option.some.inj (ho.symm.trans ho')
        intro r hr
        obtain ⟨hle, b, hb, hdata⟩ := getElem?_of_fresh hfresh hr
        refine ⟨⟨i, identity, b⟩, ?_, hdata, hfresh.identity_eq.symm, fun hc => ?_⟩
        · simp only [started, if_pos hle, hb, map_some]
        · rw [Replica.isComplete, hfresh.initialized r hr] at hc
          cases hc
      · intro r hr
        have ho₀ := hother k o' hk ho'
        obtain ⟨origin, horigin, hrest⟩ := hi.made k o' ho₀ r hr
        refine ⟨origin, ?_, hrest⟩
        simp only [started, if_neg (not_le.mpr (id_lt_next hi.sound ho₀ hr)), horigin]
    · simp only [started] at horigin ⊢
      split_ifs at horigin with hle
      · -- a replica of this very put, which is to be written
        obtain ⟨b, hb, rfl⟩ := map_eq_some_iff.mp horigin
        refine .inr ⟨_, update_self _ _ _, ?_⟩
        exact List.mem_map.mpr ⟨(b, id), mk_mem_zipIdx_iff_le_and_getElem?_sub.mpr ⟨hle, hb⟩, rfl⟩
      · rcases hi.pending id origin horigin with hwritten | ⟨session, hsession, hmem⟩
        · exact .inl hwritten
        · refine .inr ⟨session, ?_, hmem⟩
          rw [update_of_ne, hsession]
          rintro rfl
          rw [hidle] at hsession
          cases hsession

lemma Inv.write {session : Session} {n : ℕ} {b : AllocatedBuffer × ReplicaId} (hi : Inv f)
    (hsession : f.session i = some session) (hb : session.unwritten[n]? = some b) :
    Inv { f with
      session := Function.update f.session i (some { session with unwritten := session.unwritten.eraseIdx n })
      written := b.2 :: f.written } := by
  refine ⟨hi.sound, fun k o ho r hr => ?_, fun id origin horigin => ?_, hi.early_eq⟩
  · obtain ⟨origin, horigin, hdata, hidentity, hwritten⟩ := hi.made k o ho r hr
    exact ⟨origin, horigin, hdata, hidentity, fun hc => List.mem_cons_of_mem _ (hwritten hc)⟩
  rcases hi.pending id origin horigin with hwritten | ⟨session', hsession', hmem⟩
  · exact Or.inl (List.mem_cons_of_mem _ hwritten)
  by_cases hclient : origin.client = i
  · subst hclient
    rw [hsession] at hsession'
    cases hsession'
    obtain ⟨c, hc, rfl⟩ := List.mem_map.mp hmem
    obtain ⟨j, hj⟩ := mem_iff_getElem?.mp hc
    by_cases hjn : j = n
    · subst hjn
      rw [hb] at hj
      cases hj
      exact .inl List.mem_cons_self
    · refine .inr ⟨_, update_self _ _ _, List.mem_map_of_mem ?_⟩
      exact mem_eraseIdx_iff_getElem?.mpr ⟨j, hjn, hj⟩
  · exact .inr ⟨session', (update_of_ne hclient _ _).trans hsession', hmem⟩

lemma Inv.written_of_own (hi : Inv f) {session : Session} (hsession : f.session i = some session)
    (hdone : session.unwritten = []) {id : ReplicaId} (hown : (f.origin id).map Origin.client = some i) :
    id ∈ f.written := by
  obtain ⟨origin, horigin, rfl⟩ := map_eq_some_iff.mp hown
  rcases hi.pending id origin horigin with hwritten | ⟨session', hsession', hmem⟩
  · exact hwritten
  · rw [hsession] at hsession'
    cases hsession'
    rw [hdone] at hmem
    cases hmem

lemma Inv.putEnd {session : Session} {r : Except ErrorCode Unit} (hi : Inv f)
    (hsession : f.session i = some session) (hdone : session.unwritten = []) (hown : f.Own i session.key)
    (hrun : (MasterService.putEnd session.key).run f.master = some (r, m)) : Inv (f.ended i session.key m) := by
  have hwritten : ∀ id ∈ f.idsUnder session.key, id ∈ f.written :=
    fun id hid => hi.written_of_own hsession hdone (hown id hid)
  refine ⟨sound_runs (balanced_putEnd session.key) hi.sound _ _ hrun, fun k o' ho' => ?_,
    fun id origin horigin => ?_, ?_⟩
  · rcases (putEnd_completes session.key f.master).pc _ _ hrun with ⟨-, -, rfl⟩ | ⟨o, ho, -, rfl⟩
    · exact hi.made k o' ho'
    · simp only [ended, AList.lookup_update] at ho'
      split_ifs at ho' with hk
      · -- the object that was marked
        subst hk
        rw [ho] at ho'
        cases ho'
        intro r hr
        obtain ⟨e, he, rfl⟩ := List.mem_map.mp hr
        obtain ⟨e₀, he₀, rfl⟩ := List.mem_map.mp he
        have hr₀ : e₀.2 ∈ o.replicas.values := List.mem_map_of_mem he₀
        obtain ⟨origin, horigin, hdata, hidentity, -⟩ := hi.made _ o ho e₀.2 hr₀
        refine ⟨origin, horigin, hdata, hidentity, fun _ => hwritten _ ?_⟩
        rw [idsUnder, ho]
        exact List.mem_map.mpr ⟨e₀.2, hr₀, rfl⟩
      · exact hi.made k o' ho'
  · rcases hi.pending id origin horigin with hdone' | ⟨session', hsession', hmem⟩
    · exact .inl hdone'
    · refine .inr ⟨session', ?_, hmem⟩
      simp only [ended]
      rw [update_of_ne, hsession']
      rintro rfl
      rw [hsession] at hsession'
      cases hsession'
      rw [hdone] at hmem
      cases hmem
  · simp only [ended, hi.early_eq, nil_append, filter_eq_nil_iff]
    intro id hid
    simpa using hwritten id hid

lemma Inv.step (hi : Inv f) (h : Steps Orderly f f') : Inv f' := by
  cases h with
  | shuffle h => exact hi.shuffle h
  | act a hallowed h =>
    cases a with
    | putStart i key identity size config =>
      rw [act] at h
      split_ifs at h with hsome
      obtain ⟨⟨r, m⟩, hrun, rfl⟩ := map_eq_some_iff.mp h
      exact hi.putStart (by simpa using hsome) hrun
    | write i n =>
      obtain ⟨session, hsession, h⟩ := bind_eq_some_iff.mp h
      obtain ⟨b, hb, h⟩ := bind_eq_some_iff.mp h
      cases h
      exact hi.write hsession hb
    | putEnd i =>
      obtain ⟨session, hsession, h⟩ := bind_eq_some_iff.mp h
      split_ifs at h with hdone
      obtain ⟨⟨r, m⟩, hrun, rfl⟩ := map_eq_some_iff.mp h
      exact hi.putEnd hsession hdone (hallowed session hsession) hrun
    | serve op =>
      rw [act] at h
      split_ifs at h with hop
      obtain ⟨⟨_, m⟩, hrun, rfl⟩ := map_eq_some_iff.mp h
      obtain ⟨hs, hleft⟩ := leftOf_of_beside hi.sound hop.1 hop.2 hrun
      exact hi.keep hs hleft

lemma inv_reachable {strategy : String} (hrun : ReflTransGen (Steps Orderly) (new strategy) f) : Inv f := by
  induction hrun with
  | refl =>
    refine ⟨sound_new strategy, fun k o ho => ?_, fun id origin h => ?_, rfl⟩
    · cases ho
    · cases h
  | tail _ hstep ih => exact ih.step hstep

end steps

/-- A replica that a reader may be given: its creator had finished writing when it was marked complete, it has the
buffer that the creator was granted, and it was created under the reader's identity. -/
def Proper (f : Floor) (requester : IdentityScope) (r : Replica) : Prop :=
  ∃ origin, f.origin r.id = some origin ∧ r.data = .memory origin.buffer ∧ r.id ∈ f.written ∧ r.id ∉ f.early ∧
    requester = origin.identity

/-- **Readers get what was written for them**: in every run in which each `put_end` meets the object of its sender or
none, `get_replica_list` returns only replicas that their creator had written before they were marked complete, and
only to the creator's identity. -/
theorem readers_get_written (strategy : String) (f : Floor)
    (hrun : ReflTransGen (Steps Orderly) (new strategy) f) (key : ObjectKey) (requester : IdentityScope)
    (rs : List Replica) (m : MasterService)
    (hget : (getReplicaList key requester).run f.master = some (.ok rs, m)) : ∀ r ∈ rs, f.Proper requester r := by
  have hi := inv_reachable hrun
  rcases getReplicaList_runs key requester f.master _ _ hget with ⟨e, he, -⟩ | ⟨o, ho, hguard, hrs, -, -⟩
  · cases he
  cases hrs
  intro r hr
  obtain ⟨hmem, hreadable⟩ := List.mem_filter.mp hr
  obtain ⟨origin, horigin, hdata, hidentity, hwritten⟩ := hi.made key o ho r hmem
  refine ⟨origin, horigin, hdata, hwritten (Bool.and_eq_true_iff.mp hreadable).1, ?_, ?_⟩
  · rw [hi.early_eq]
    exact not_mem_nil
  · rw [hidentity]
    exact (IdentityScope.reuseViolationAgainst_eq_none_iff.mp hguard).symm

abbrev putX (i : ℕ) : Act := .putStart i "x" ⟨"m", "t", none, "u"⟩ 100 ⟨1, false, false, none⟩

def onePut : List Act := [.serve (.mountSegment "a" 1024), putX 0, .write 0 0, .putEnd 0]

/-- Two clients start a put of the same key; the first one, whose object the second one has replaced, writes its buffer
and ends its put while the second one still writes. -/
def twoPuts : List Act := [.serve (.mountSegment "a" 1024), putX 0, putX 1, .write 0 0, .putEnd 0]

theorem readers_get_written_onePut :
    ∃ f r m, ReflTransGen (Steps Orderly) (new "random") f ∧
      (getReplicaList "x" ⟨"m", "t", none, "u"⟩).run f.master = some (.ok [r], m) ∧
      f.Proper ⟨"m", "t", none, "u"⟩ r := by
  have hrun : (((new "random").run Orderly onePut).any fun f =>
      ((getReplicaList "x" ⟨"m", "t", none, "u"⟩).run f.master).any fun r =>
        r.1.toOption.any fun rs => decide (rs.length = 1)) = true := by decide +kernel
  obtain ⟨f, hf, hget⟩ := (Option.any_eq_true _ _).mp hrun
  obtain ⟨⟨r, m⟩, hget, hrs⟩ := (Option.any_eq_true _ _).mp hget
  obtain ⟨rs, hrs, hlen⟩ := (Option.any_eq_true _ _).mp hrs
  obtain ⟨r₀, rfl⟩ := length_eq_one_iff.mp (of_decide_eq_true hlen)
  cases r with
  | error e => cases hrs
  | ok rs =>
    cases hrs
    exact ⟨f, r₀, m, steps_of_run hf, hget,
      readers_get_written "random" f (steps_of_run hf) "x" _ _ m hget r₀ List.mem_cons_self⟩

/-- **A `put_end` of another client**: the reader is given a replica that its creator has not written; it was marked
complete by the client whose object it had replaced. -/
theorem put_end_of_another :
    ∃ f r m origin, ReflTransGen (Steps fun _ _ => True) (new "random") f ∧
      (getReplicaList "x" ⟨"m", "t", none, "u"⟩).run f.master = some (.ok [r], m) ∧
      f.origin r.id = some origin ∧ origin.client = 1 ∧ r.id ∉ f.written ∧ r.id ∈ f.early := by
  have hrun : (((new "random").run (fun _ _ => True) twoPuts).any fun f =>
      ((getReplicaList "x" ⟨"m", "t", none, "u"⟩).run f.master).any fun r =>
        r.1.toOption.any fun rs => decide (rs.length = 1 ∧ ∀ r₀ ∈ rs,
          ((f.origin r₀.id).any fun origin => origin.client = 1) = true ∧ r₀.id ∉ f.written ∧
            r₀.id ∈ f.early)) = true := by decide +kernel
  obtain ⟨f, hf, hget⟩ := (Option.any_eq_true _ _).mp hrun
  obtain ⟨⟨r, m⟩, hget, hrs⟩ := (Option.any_eq_true _ _).mp hget
  obtain ⟨rs, hrs, hbad⟩ := (Option.any_eq_true _ _).mp hrs
  obtain ⟨hlen, hbad⟩ := of_decide_eq_true hbad
  obtain ⟨r₀, rfl⟩ := length_eq_one_iff.mp hlen
  obtain ⟨horigin, hunwritten, hearly⟩ := hbad r₀ List.mem_cons_self
  obtain ⟨origin, horigin, hclient⟩ := (Option.any_eq_true _ _).mp horigin
  cases r with
  | error e => cases hrs
  | ok rs =>
    cases hrs
    exact ⟨f, r₀, m, origin, steps_of_run hf, hget, horigin, of_decide_eq_true hclient, hunwritten, hearly⟩

end Floor

end QuillCache.Store
