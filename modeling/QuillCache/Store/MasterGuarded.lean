import QuillCache.Store.MasterView

/-!
# Every operation keeps the discipline of the segments mutex

The specifications of the operations of `MasterService` as users of the segments mutex. After every
section the buffers of the objects are handed out (`∃ D, Owes False D`), and a thread that releases the mutex
owes nothing (`Sound`). No operation but `mountSegment` needs an assumption on the states in which its
sections run; that one needs a name that is not mounted yet.
-/

namespace QuillCache.Store

open Lib Multiset

namespace MasterService

open Prog

def discipline (assume : Section → MasterService → Prop) : Discipline Section MasterService View where
  view := view
  always v := ∃ D, Owes False D v
  free := Sound
  assume := assume
  always_of_free _ h := ⟨0, h⟩

section

variable {assume : Section → MasterService → Prop} {α : Type} {v : View} {h : Option View}
  {Q : α → Option View → Prop}

/-! ## Sections -/

lemma guarded_read {l : Section} (hh : ∀ v ∈ h, ∃ D, Owes False D v) (f : MasterService → Option α) :
    (look l f).Guarded (discipline assume) (fun _ h' => h' = h) h := by
  refine guarded_quiet hh fun s _ a s' hrun => ?_
  obtain ⟨_, _, hr⟩ := Option.map_eq_some_iff.mp hrun
  cases hr
  rfl

lemma guarded_logOp (hh : ∀ v ∈ h, ∃ D, Owes False D v) (entry : OpLogEntry) :
    (logOp entry).Guarded (discipline assume) (fun _ h' => h' = h) h := by
  refine guarded_quiet hh fun s _ a s' hrun => ?_
  cases hrun
  rfl

lemma guarded_update {f : MasterService → MasterService} (hf : ∀ s, (f s).view = s.view) :
    (update f).Guarded (discipline assume) (fun _ h' => h' = none) none := by
  refine guarded_quiet (by simp) fun s _ a s' hrun => ?_
  cases hrun
  exact hf s

lemma guarded_onObjects {l : Section} {m : Exec ObjectMap α}
    (hm : ∀ t, Pc m (fun _ t' => footprints t' = footprints t) t) :
    (onObjects l m).Guarded (discipline assume) (fun _ h' => h' = none) none := by
  refine guarded_quiet (by simp) fun s _ => pc_focus.mpr ((hm s.objects).mono fun _ t' ht => ?_)
  simp only [discipline, view, ht]

lemma held_onObjects {l : Section} {m : Exec ObjectMap α}
    (hm : ∀ t, footprints t = v.objects → Pc m (fun a t' =>
      (∃ D, Owes False D ⟨v.segments, footprints t'⟩) ∧ Q a (some ⟨v.segments, footprints t'⟩)) t) :
    (onObjects l m).Guarded (discipline assume) Q (some v) := by
  refine guarded_held fun s hs _ => pc_focus.mpr ?_
  subst hs
  exact hm s.objects rfl

lemma held_onSegments {m : Exec SegmentState α}
    (hm : Pc m (fun a g => (∃ D, Owes False D ⟨g, v.objects⟩) ∧ Q a (some ⟨g, v.objects⟩)) v.segments) :
    (onSegments m).Guarded (discipline assume) Q (some v) := by
  refine guarded_held fun s hs _ => pc_focus.mpr ?_
  subst hs
  exact hm

/-! ## Eviction -/

/-- Objects may have gone and no replica id was used. -/
structure Shrunk (v v' : View) : Prop where
  objects_le : v'.objects ≤ v.objects
  nextReplicaId_eq : v'.segments.nextReplicaId = v.segments.nextReplicaId

lemma Shrunk.refl (v : View) : Shrunk v v := ⟨le_rfl, rfl⟩

lemma Shrunk.trans {v₁ v₂ v₃ : View} (h₁ : Shrunk v₁ v₂) (h₂ : Shrunk v₂ v₃) : Shrunk v₁ v₃ :=
  ⟨h₂.objects_le.trans h₁.objects_le, h₂.nextReplicaId_eq.trans h₁.nextReplicaId_eq⟩

/-- The holder has taken out `r`, whatever was under `key`, and has yet to free it. -/
def Taken (key : ObjectKey) (v : View) (r : Option ObjectMetadata) (h : Option View) : Prop :=
  ∃ v', h = some v' ∧ Owes False (owed r) v' ∧ Shrunk v v' ∧ key ∉ v'.objects.map Prod.fst

variable {key : ObjectKey}

lemma taken_erase {t : ObjectMap} (hv : Sound v) (ht : footprints t = v.objects) :
    (∃ D, Owes False D ⟨v.segments, footprints (t.erase key)⟩) ∧
      Taken key v (t.lookup key) (some ⟨v.segments, footprints (t.erase key)⟩) := by
  have hsound : Sound ⟨v.segments, footprints t⟩ := ht ▸ hv
  have howes := hsound.takeOut key
  refine ⟨⟨_, howes⟩, _, rfl, howes, ⟨ht ▸ footprints_erase_le t key, rfl⟩, fun hmem => ?_⟩
  exact AList.mem_erase.mp (mem_keys_footprints.mp hmem) |>.1 rfl

lemma held_takeObject {l : Section} (hv : Sound v) :
    (onObjects l (takeObject key)).Guarded (discipline assume) (Taken key v) (some v) := by
  refine held_onObjects fun t ht r t' hrun => ?_
  cases hrun
  exact taken_erase hv ht

lemma held_freeObject {o : ObjectMetadata} (hv : Owes False o.footprint.buffers v) :
    (freeObject o).Guarded (discipline assume)
      (fun _ h => ∃ v', h = some v' ∧ Sound v' ∧ Shrunk v v') (some v) := by
  have hv' : Owes False (o.footprint.buffers + 0) v := by rwa [add_zero]
  refine held_onSegments ((hv'.free rfl).pc.mono fun _ g hg => ?_)
  exact ⟨⟨0, hg.1⟩, _, rfl, hg.1, le_rfl, hg.2.2.1⟩

lemma held_freeLeftover {r : Option ObjectMetadata} (hv : Owes False (owed r) v) :
    (freeLeftover r).Guarded (discipline assume)
      (fun _ h => ∃ v', h = some v' ∧ Sound v' ∧ Shrunk v v') (some v) := by
  cases r with
  | none => exact guarded_pure ⟨v, rfl, hv, Shrunk.refl v⟩
  | some o => exact held_freeObject hv

lemma held_evictLoop {enough : SegmentState → Option Bool} {evicted : ℕ} {keys : List ObjectKey}
    (hv : Sound v) : (evictLoop enough evicted keys).Guarded (discipline assume)
      (fun _ h => ∃ v', h = some v' ∧ Sound v' ∧ Shrunk v v') (some v) := by
  induction keys generalizing evicted v with
  | nil => exact guarded_pure ⟨v, rfl, hv, Shrunk.refl v⟩
  | cons key keys ih =>
    refine (guarded_read (by simpa using ⟨0, hv⟩) _).bind ?_
    rintro stop _ rfl
    cases stop with
    | true => exact guarded_pure ⟨v, rfl, hv, Shrunk.refl v⟩
    | false =>
      refine (held_takeObject hv).bind ?_
      rintro r _ ⟨v₁, rfl, howes, hshrunk, -⟩
      cases r with
      | none =>
        refine (ih howes).mono ?_
        rintro _ _ ⟨v₂, rfl, hsound, hshrunk'⟩
        exact ⟨v₂, rfl, hsound, hshrunk.trans hshrunk'⟩
      | some o =>
        refine (held_freeObject howes).bind ?_
        rintro _ _ ⟨v₂, rfl, hsound, hshrunk₂⟩
        refine (guarded_logOp (by simpa using ⟨0, hsound⟩) _).bind ?_
        rintro _ _ rfl
        refine (ih hsound).mono ?_
        rintro _ _ ⟨v₃, rfl, hsound', hshrunk₃⟩
        exact ⟨v₃, rfl, hsound', (hshrunk.trans hshrunk₂).trans hshrunk₃⟩

lemma held_victimsColdestFirst (hv : Sound v) :
    victimsColdestFirst.Guarded (discipline assume) (fun _ h => h = some v) (some v) := by
  refine (guarded_read (by simpa using ⟨0, hv⟩) _).bind ?_
  rintro t _ rfl
  exact guarded_read (by simpa using ⟨0, hv⟩) _

lemma held_evictIfNeededLocked (hv : Sound v) :
    evictIfNeededLocked.Guarded (discipline assume)
      (fun _ h => ∃ v', h = some v' ∧ Sound v' ∧ Shrunk v v') (some v) := by
  refine (guarded_read (by simpa using ⟨0, hv⟩) _).bind ?_
  rintro due _ rfl
  cases due with
  | none => exact guarded_pure ⟨v, rfl, hv, Shrunk.refl v⟩
  | some target =>
    refine (held_victimsColdestFirst hv).bind ?_
    rintro keys _ rfl
    exact held_evictLoop hv

lemma held_evictToFit {needed : ℕ} (hv : Sound v) :
    (evictToFit needed).Guarded (discipline assume)
      (fun _ h => ∃ v', h = some v' ∧ Sound v' ∧ Shrunk v v') (some v) := by
  refine (held_victimsColdestFirst hv).bind ?_
  rintro keys _ rfl
  exact held_evictLoop hv

/-- The strategy has answered: with buffers that are owed, or with an error. -/
def Answered (v : View) (r : Except ErrorCode (List AllocatedBuffer)) (h : Option View) : Prop :=
  ∃ v', h = some v' ∧ Shrunk v v' ∧ match r with
    | .ok bs => Owes False bs v' ∧ (bs.map AllocatedBuffer.segmentName).Nodup
    | .error _ => Sound v'

lemma held_askStrategy {size replicaNum : ℕ} {preferred : Option SegmentName} (hv : Sound v) :
    (onSegments (askStrategy size replicaNum preferred)).Guarded (discipline assume) (Answered v)
      (some v) := by
  refine held_onSegments ((hv.place size replicaNum preferred).pc.mono ?_)
  rintro r g ⟨-, hnext, -, ⟨bs, rfl, -, -, hnames, howes⟩ | ⟨rfl, -, hsound⟩⟩
  · rw [add_zero] at howes
    exact ⟨⟨_, howes⟩, _, rfl, ⟨le_rfl, hnext⟩, howes, hnames⟩
  · exact ⟨⟨0, hsound⟩, _, rfl, ⟨le_rfl, hnext⟩, hsound⟩

lemma held_allocateReplicas {size replicaNum : ℕ} {preferred : Option SegmentName} (hv : Sound v) :
    (allocateReplicas size replicaNum preferred).Guarded (discipline assume) (Answered v) (some v) := by
  refine (held_evictIfNeededLocked hv).bind ?_
  rintro _ _ ⟨v₁, rfl, hv₁, hs₁⟩
  refine (held_askStrategy hv₁).bind ?_
  rintro r _ ⟨v₂, rfl, hs₂, hr⟩
  have hs := hs₁.trans hs₂
  cases r with
  | ok bs => exact guarded_pure ⟨v₂, rfl, hs, hr⟩
  | error e =>
    cases e with
    | noAvailableSegment =>
      refine (held_evictToFit hr).bind ?_
      rintro _ _ ⟨v₃, rfl, hv₃, hs₃⟩
      refine (held_askStrategy hv₃).mono ?_
      rintro r _ ⟨v₄, rfl, hs₄, hr⟩
      exact ⟨v₄, rfl, (hs.trans hs₃).trans hs₄, hr⟩
    | _ => exact guarded_pure ⟨v₂, rfl, hs, hr⟩

/-! ## Put, revoke, remove -/

/-- The operation starts and ends with the mutex free. -/
abbrev Balanced (assume : Section → MasterService → Prop) (p : MasterProg α) : Prop :=
  p.Guarded (discipline assume) (fun _ h => h = none) none

lemma guarded_release_pure {a : α} (hv : Sound v) :
    Guarded (discipline assume) (fun _ h => h = none) (release >>= fun _ => pure a) (some v) :=
  Guarded.bind (guarded_release hv) fun _ _ hh => guarded_pure hh

lemma held_takeLeftover (hv : Sound v) :
    (onObjects (.reclaim key) (takeLeftover key)).Guarded (discipline assume)
      (fun r h => match r with
        | .error _ => h = some v
        | .ok leftover => Taken key v leftover h) (some v) := by
  refine held_onObjects fun t ht r t' hrun => ?_
  rw [takeLeftover] at hrun
  split_ifs at hrun
  · cases hrun
    rw [ht]
    exact ⟨⟨0, hv⟩, rfl⟩
  · cases hrun
    exact taken_erase hv ht

lemma held_assignIds {bs : List AllocatedBuffer} (howes : Owes False bs v) :
    (onSegments (assignIds bs ∅)).Guarded (discipline assume)
      (fun rs h => ∃ g, h = some ⟨g, v.objects⟩ ∧ Owes False bs ⟨g, v.objects⟩ ∧
        g.nextReplicaId = v.segments.nextReplicaId + bs.length ∧
        rs.items.map (fun e => (e.1, e.2.id, e.2.data)) = granted v.segments.nextReplicaId bs)
      (some v) := by
  refine held_onSegments ((assignIds_empty bs v.segments).mono ?_)
  rintro rs g ⟨rfl, hnext, -, hfp⟩
  have howes' : Owes False bs ⟨{ v.segments with nextReplicaId := v.segments.nextReplicaId + bs.length },
      v.objects⟩ :=
    ⟨howes.fleet, howes.live_eq, howes.ok, howes.ids_nodup,
      fun i hi => Nat.lt_add_right _ (howes.ids_lt i hi), hnext howes.next_lt⟩
  exact ⟨⟨_, howes'⟩, _, rfl, howes', rfl, hfp⟩

lemma held_insertObject {o : ObjectMetadata} {bs : List AllocatedBuffer} {n : ℕ} (howes : Owes False bs v)
    (hkey : key ∉ v.objects.map Prod.fst) (hids : ∀ i ∈ idSum v.objects, i < n)
    (hnext : v.segments.nextReplicaId = n + bs.length) (hnames : (bs.map AllocatedBuffer.segmentName).Nodup)
    (ho : o.footprint = granted n bs) :
    (insertObject key o).Guarded (discipline assume) (fun _ h => ∃ v', h = some v' ∧ Sound v')
      (some v) := by
  refine held_onObjects fun t ht _ t' hrun => ?_
  cases hrun
  have hnot : key ∉ t := fun hmem => hkey (ht ▸ mem_keys_footprints.mpr hmem)
  have hsound : Sound ⟨v.segments, footprints (t.insert key o)⟩ := by
    rw [footprints_insert hnot, ho, ht]
    exact howes.insert hids hnext hnames
  exact ⟨⟨0, hsound⟩, _, rfl, hsound⟩

theorem balanced_putStart (key : ObjectKey) (identity : IdentityScope) (size : ℕ)
    (config : ReplicateConfig) : Balanced assume (putStart key identity size config) := by
  refine guarded_acquire.bind ?_
  rintro _ _ ⟨v, rfl, hv⟩
  refine (held_takeLeftover hv).bind ?_
  rintro (e | leftover) h hr
  · rw [hr]
    exact guarded_release_pure hv
  obtain ⟨v₁, rfl, howes, hs₁, hkey⟩ := hr
  refine (held_freeLeftover howes).bind ?_
  rintro _ _ ⟨v₂, rfl, hv₂, hs₂⟩
  refine (held_allocateReplicas hv₂).bind ?_
  rintro (e | bs) _ ⟨v₃, rfl, hs₃, hr⟩
  · exact guarded_release_pure hr
  obtain ⟨howes₃, hnames⟩ := hr
  refine (held_assignIds howes₃).bind ?_
  rintro rs _ ⟨g, rfl, howes₄, hnext, hfp⟩
  refine (guarded_read (by simpa using ⟨_, howes₄⟩) _).bind ?_
  rintro t _ rfl
  have hkey₃ : key ∉ v₃.objects.map Prod.fst := fun hmem =>
    hkey (mem_of_le (map_le_map (hs₂.trans hs₃).objects_le) hmem)
  refine Guarded.bind (held_insertObject howes₄ hkey₃ howes₃.ids_lt hnext hnames ?_) ?_
  · exact hfp
  · rintro _ _ ⟨v₅, rfl, hv₅⟩
    exact guarded_release_pure hv₅

theorem balanced_putRevoke (key : ObjectKey) : Balanced assume (putRevoke key) := by
  refine guarded_acquire.bind ?_
  rintro _ _ ⟨v, rfl, hv⟩
  refine (held_takeObject hv).bind ?_
  rintro (_ | o) _ ⟨v₁, rfl, howes, -, -⟩
  · exact guarded_release_pure howes
  · refine (held_freeObject howes).bind ?_
    rintro _ _ ⟨v₂, rfl, hv₂, -⟩
    exact guarded_release_pure hv₂

lemma held_takeUnleased {now : ℕ} {force : Bool} (hv : Sound v) :
    (onObjects (.retire key) (takeUnleased key now force)).Guarded (discipline assume)
      (fun r h => match r with
        | .error _ => h = some v
        | .ok o => Taken key v (some o) h) (some v) := by
  refine held_onObjects fun t ht r t' hrun => ?_
  have htaken := @taken_erase v key t hv ht
  have hkept : (∃ D, Owes False D ⟨v.segments, footprints t⟩) ∧
      some (⟨v.segments, footprints t⟩ : View) = some v := by
    rw [ht]
    exact ⟨⟨0, hv⟩, rfl⟩
  rw [takeUnleased] at hrun
  cases ho : t.lookup key with
  | none =>
    rw [ho] at hrun
    cases hrun
    exact hkept
  | some o =>
    simp only [ho] at hrun htaken
    split_ifs at hrun
    · cases hrun
      exact hkept
    · cases hrun
      exact htaken

theorem balanced_remove (key : ObjectKey) (force : Bool) : Balanced assume (remove key force) := by
  refine (guarded_read (by simp) _).bind ?_
  rintro t _ rfl
  refine guarded_acquire.bind ?_
  rintro _ _ ⟨v, rfl, hv⟩
  refine (held_takeUnleased hv).bind ?_
  rintro (e | o) h hr
  · rw [hr]
    exact guarded_release_pure hv
  · obtain ⟨v₁, rfl, howes, -, -⟩ := hr
    refine (held_freeObject howes).bind ?_
    rintro _ _ ⟨v₂, rfl, hv₂, -⟩
    refine (guarded_release hv₂).bind ?_
    rintro _ _ rfl
    refine (guarded_logOp (by simp) _).bind ?_
    rintro _ _ rfl
    exact guarded_pure rfl

/-! ## Operations that leave the footprints alone -/

lemma completeObject_footprints (key : ObjectKey) (t : ObjectMap) :
    Pc (completeObject key) (fun _ t' => footprints t' = footprints t) t := by
  rintro r t' hrun
  cases hrun
  exact footprints_update (footprint_withStatus .complete) key t

lemma readObject_footprints (key : ObjectKey) (requester : IdentityScope) (now leaseTtl : ℕ)
    (alive : List SegmentName) (t : ObjectMap) :
    Pc (readObject key requester now leaseTtl alive) (fun _ t' => footprints t' = footprints t) t := by
  intro r t' hrun
  rw [readObject] at hrun
  split at hrun
  · cases hrun
    rfl
  split at hrun
  · cases hrun
    rfl
  -- only the access time and the lease of the object change
  dsimp only at hrun
  split_ifs at hrun
  · cases hrun
    rfl
  · cases hrun
    refine footprints_update (fun _ => ?_) key t
    rfl

lemma reopenObject_footprints (key : ObjectKey) (identity : IdentityScope) (now : ℕ) (t : ObjectMap) :
    Pc (reopenObject key identity now) (fun _ t' => footprints t' = footprints t) t := by
  intro r t' hrun
  rw [reopenObject] at hrun
  split at hrun
  · cases hrun
  · cases hrun
    refine footprints_update (fun o => ?_) key t
    exact footprint_withStatus .initialized o

theorem balanced_putEnd (key : ObjectKey) : Balanced assume (putEnd key) := by
  refine (guarded_read (by simp) _).bind ?_
  rintro logging _ rfl
  refine (guarded_onObjects (completeObject_footprints key)).bind ?_
  rintro (_ | o) _ rfl
  · exact guarded_pure rfl
  · cases logging with
    | false => exact guarded_pure rfl
    | true =>
      refine (guarded_logOp (by simp) _).bind ?_
      rintro _ _ rfl
      exact guarded_pure rfl

theorem balanced_getReplicaList (key : ObjectKey) (requester : IdentityScope) :
    Balanced assume (getReplicaList key requester) := by
  refine (guarded_read (by simp) _).bind ?_
  rintro t _ rfl
  refine (guarded_read (by simp) _).bind ?_
  rintro ttl _ rfl
  refine (guarded_read (by simp) _).bind ?_
  rintro alive _ rfl
  refine (guarded_read (by simp) _).bind ?_
  rintro leaseTtl _ rfl
  exact guarded_onObjects (readObject_footprints key requester t leaseTtl alive)

theorem balanced_existKey (key : ObjectKey) : Balanced assume (existKey key) :=
  guarded_read (by simp) _

theorem balanced_tick : Balanced assume tick := by
  refine guarded_quiet (by simp) fun s _ => ?_
  simp only [pc_bind, pc_get, pc_set, pc_addChecked]
  exact fun _ => rfl

theorem balanced_evictIfNeeded : Balanced assume evictIfNeeded := by
  refine guarded_acquire.bind ?_
  rintro _ _ ⟨v, rfl, hv⟩
  refine (held_evictIfNeededLocked hv).bind ?_
  rintro evicted _ ⟨v', rfl, hv', -⟩
  exact guarded_release_pure hv'

/-! ## Upsert and the batch forms -/

theorem balanced_upsertStart (key : ObjectKey) (identity : IdentityScope) (size : ℕ)
    (config : ReplicateConfig) : Balanced assume (upsertStart key identity size config) := by
  refine (guarded_read (by simp) _).bind ?_
  rintro t _ rfl
  refine (guarded_read (by simp) _).bind ?_
  rintro ⟨existsComplete, leased, existingSize⟩ _ rfl
  dsimp only
  split_ifs
  · exact balanced_putStart key identity size config
  · exact guarded_pure rfl
  · refine (guarded_onObjects (reopenObject_footprints key identity t)).bind ?_
    rintro buffers _ rfl
    exact guarded_pure rfl
  · refine guarded_acquire.bind ?_
    rintro _ _ ⟨v, rfl, hv⟩
    refine (held_takeObject hv).bind ?_
    rintro old _ ⟨v₁, rfl, howes, -, -⟩
    refine (held_freeLeftover howes).bind ?_
    rintro _ _ ⟨v₂, rfl, hv₂, -⟩
    refine (guarded_release hv₂).bind ?_
    rintro _ _ rfl
    exact balanced_putStart key identity size config

/-- A property of programs that holds of a sequence if it holds of its parts. -/
structure Composes (P : ∀ {α : Type}, MasterProg α → Prop) : Prop where
  pure {α : Type} (a : α) : P (Pure.pure a : MasterProg α)
  bind {α β : Type} {p : MasterProg α} {f : α → MasterProg β} (hp : P p) (hf : ∀ a, P (f a)) : P (p >>= f)

section composes

variable {P : ∀ {α : Type}, MasterProg α → Prop} (hP : Composes P)

include hP

lemma Composes.void {p : MasterProg α} (hp : P p) : P (MasterOp.void p) := hP.bind hp fun _ => hP.pure ()

lemma Composes.batchPutStartLoop {config : ReplicateConfig}
    (hput : ∀ key identity size, P (putStart key identity size config)) (hrevoke : ∀ key, P (putRevoke key)) (out : List (List AllocatedBuffer)) (started : List ObjectKey)
    (items : List (ObjectKey × IdentityScope × ℕ)) : P (batchPutStartLoop config out started items) := by
  have hrevokeAll : ∀ keys, P (revokeAll keys) := by
    intro keys
    induction keys with
    | nil => exact hP.pure ()
    | cons key keys ih => exact hP.bind (hrevoke key) fun _ => ih
  induction items generalizing out started with
  | nil => exact hP.pure _
  | cons item items ih =>
    obtain ⟨key, identity, size⟩ := item
    refine hP.bind (hput key identity size) fun r => ?_
    cases r with
    | error e => exact hP.bind (hrevokeAll started) fun _ => hP.pure _
    | ok buffers => exact ih _ _

lemma Composes.eachKey {f : ObjectKey → MasterProg (Except ErrorCode Unit)} (keys : List ObjectKey)
    (hf : ∀ key ∈ keys, P (f key)) : P (eachKey f keys) := by
  induction keys with
  | nil => exact hP.pure _
  | cons key keys ih =>
    refine hP.bind (hf key List.mem_cons_self) fun r => ?_
    cases r with
    | error e => exact hP.pure _
    | ok _ => exact ih fun k hk => hf k (List.mem_cons_of_mem _ hk)

lemma Composes.batchGetReplicaListLoop {requester : IdentityScope} (hget : ∀ key, P (getReplicaList key requester))
    (out : List (List Replica)) (keys : List ObjectKey) : P (batchGetReplicaListLoop requester out keys) := by
  induction keys generalizing out with
  | nil => exact hP.pure _
  | cons key keys ih =>
    refine hP.bind (hget key) fun r => ?_
    cases r with
    | error e => exact hP.pure _
    | ok replicas => exact ih _

end composes

lemma composes_balanced : Composes (Balanced assume) where
  pure _ := guarded_pure rfl
  bind hp hf := by
    refine Guarded.bind hp ?_
    rintro a _ rfl
    exact hf a

lemma balanced_batchPutStartLoop (config : ReplicateConfig) (out : List (List AllocatedBuffer))
    (started : List ObjectKey) (items : List (ObjectKey × IdentityScope × ℕ)) :
    Balanced assume (batchPutStartLoop config out started items) :=
  composes_balanced.batchPutStartLoop (fun key identity size => balanced_putStart key identity size config)
    balanced_putRevoke out started items

/-! ## Mounting and unmounting -/

/-- Mounting a name that is not mounted at the moment of the push. -/
theorem balanced_mountSegment {name : SegmentName} {capacity : ℕ}
    (hpush : ∀ s, assume (.push name capacity) s →
      name ∉ s.segments.allocators.map OffsetBufferAllocator.segmentName ∧ capacity < 2 ^ 64) :
    Balanced assume (mountSegment name capacity) := by
  refine Guarded.bind (guarded_update fun s => ?_) ?_
  · rfl
  rintro _ _ rfl
  refine guarded_acquire.bind ?_
  rintro _ _ ⟨v, rfl, hv⟩
  have hheld : (section_ (.push name capacity) (pushSegment name capacity)).Guarded (discipline assume)
      (fun _ h => ∃ v', h = some v' ∧ Sound v') (some v) := by
    refine guarded_held fun s hs hassume _ s' hrun => ?_
    obtain ⟨hname, hcap⟩ := hpush s hassume
    subst hs
    obtain ⟨a, hnew, -, -, hsound⟩ := Owes.push hv hname hcap
    rw [pushSegment, hnew] at hrun
    cases hrun
    exact ⟨⟨0, hsound⟩, _, rfl, hsound⟩
  refine hheld.bind ?_
  rintro _ _ ⟨v', rfl, hv'⟩
  refine (guarded_release hv').bind ?_
  rintro _ _ rfl
  exact guarded_logOp (by simp) _

lemma held_dropSegmentReplicas {name : SegmentName} (hv : Sound v) :
    (onObjects .silent (modify (dropSegmentReplicas name))).Guarded (discipline assume)
      (fun _ h => h = some ⟨v.segments, dropFootprints name v.objects⟩) (some v) := by
  refine held_onObjects fun t ht _ t' hrun => ?_
  cases hrun
  rw [footprints_dropSegmentReplicas, ht]
  exact ⟨⟨_, hv.dropReplicas name⟩, rfl⟩

lemma held_dropAllocator {name : SegmentName} (hv : Sound v) :
    (onSegments (modify fun s =>
      { s with allocators := s.allocators.filter fun a => a.segmentName ≠ name })).Guarded
      (discipline assume) (fun _ h => ∃ v', h = some v' ∧ Sound v')
      (some ⟨v.segments, dropFootprints name v.objects⟩) := by
  refine held_onSegments fun _ g hrun => ?_
  cases hrun
  have hrest : ∀ b ∈ bufferSum (dropFootprints name v.objects), b.segmentName ≠ name := fun b hb => by
    rw [bufferSum_dropFootprints] at hb
    exact (mem_filter.mp hb).2
  have hsound := (hv.dropReplicas name).dropAllocator hrest
  rw [add_zero, filter_eq_nil.mpr fun b hb => (mem_filter.mp hb).2] at hsound
  exact ⟨⟨0, hsound⟩, _, rfl, hsound⟩

theorem balanced_unmountSegment (name : SegmentName) : Balanced assume (unmountSegment name) := by
  refine guarded_acquire.bind ?_
  rintro _ _ ⟨v, rfl, hv⟩
  refine (guarded_read (by simpa using ⟨0, hv⟩) _).bind ?_
  rintro mounted _ rfl
  split_ifs
  · exact guarded_release_pure hv
  · refine (held_dropSegmentReplicas hv).bind ?_
    rintro _ _ rfl
    refine (held_dropAllocator hv).bind ?_
    rintro _ _ ⟨v', rfl, hv'⟩
    refine (guarded_release hv').bind ?_
    rintro _ _ rfl
    refine Guarded.bind (guarded_update fun s => ?_) ?_
    · rfl
    rintro _ _ rfl
    refine Guarded.bind (guarded_update fun s => ?_) ?_
    · rfl
    rintro _ _ rfl
    refine (guarded_logOp (by simp) _).bind ?_
    rintro _ _ rfl
    exact guarded_pure rfl

/-! ## All operations -/

lemma balanced_void {p : MasterProg α} (hp : Balanced assume p) : Balanced assume (MasterOp.void p) :=
  composes_balanced.void hp

/-- Every operation but a mount keeps the discipline, whatever the states its sections run in. -/
theorem balanced_prog_of_ne {op : MasterOp} (hop : ∀ name capacity, op ≠ .mountSegment name capacity) :
    Balanced assume op.prog := by
  cases op with
  | mountSegment name capacity => exact absurd rfl (hop name capacity)
  | unmountSegment name => exact balanced_void (balanced_unmountSegment name)
  | putStart key identity size config => exact balanced_void (balanced_putStart key identity size config)
  | putEnd key => exact balanced_void (balanced_putEnd key)
  | putRevoke key => exact balanced_void (balanced_putRevoke key)
  | getReplicaList key requester => exact balanced_void (balanced_getReplicaList key requester)
  | remove key force => exact balanced_void (balanced_remove key force)
  | upsertStart key identity size config =>
    exact balanced_void (balanced_upsertStart key identity size config)
  | batchPutStart items config =>
    exact balanced_void (balanced_batchPutStartLoop config [] [] items)
  | batchPutEnd keys => exact balanced_void (composes_balanced.eachKey keys fun key _ => balanced_putEnd key)
  | batchPutRevoke keys => exact balanced_void (composes_balanced.eachKey keys fun key _ => balanced_putRevoke key)
  | batchGetReplicaList keys requester =>
    exact balanced_void (composes_balanced.batchGetReplicaListLoop
      (fun key => balanced_getReplicaList key requester) [] keys)
  | existKey key => exact balanced_void (balanced_existKey key)
  | evictIfNeeded => exact balanced_void balanced_evictIfNeeded
  | tick => exact balanced_void balanced_tick

/-- So does a mount, if names are pushed only while they are not mounted. -/
theorem balanced_prog (hpush : ∀ name capacity s, assume (.push name capacity) s →
      name ∉ s.segments.allocators.map OffsetBufferAllocator.segmentName ∧ capacity < 2 ^ 64)
    (op : MasterOp) : Balanced assume op.prog := by
  by_cases hop : ∃ name capacity, op = .mountSegment name capacity
  · obtain ⟨name, capacity, rfl⟩ := hop
    exact balanced_mountSegment (hpush name capacity)
  · exact balanced_prog_of_ne fun name capacity h => hop ⟨name, capacity, h⟩

end

end MasterService

end QuillCache.Store
