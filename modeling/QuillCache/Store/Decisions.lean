import QuillCache.Store.Lease

/-!
# Decisions

Eviction and `upsert_start` decide in one section what they do in a later one: an eviction pass works through a list of
candidates without looking at the objects again, and an upsert re-opens or replaces an object that it has found
complete and free a moment ago. `put_start` creates an object where it has found none.

A request is `Undecided` on a key if it does not carry a decision on it out before it decides anew, as every request is
before it begins (`undecided_prog`). Requests are `Vigilant`: nothing else touches a leased object, and no decision is
made against one (`vigilant_prog`). So a request that is undecided when a lease is granted leaves the object alone
(`Undecided.moves`).
-/

namespace QuillCache.Store.MasterService

open Lib Prog AList Function Option

def racing : MasterOp → Bool
  | .putStart _ _ _ _ | .putEnd _ | .getReplicaList _ _ | .remove _ _ | .upsertStart _ _ _ _ | .existKey _
  | .evictIfNeeded | .tick => true
  | _ => false

def Leased (key : ObjectKey) (s : MasterService) : Prop :=
  ∃ o, s.objects.lookup key = some o ∧ o.hasCompleteReplica = true ∧ s.clock < o.leaseUntil

/-- The object of `key` keeps all that its readers rely on. -/
def Keeps (key : ObjectKey) (s s' : MasterService) : Prop :=
  ∀ o, s.objects.lookup key = some o → ∃ o', s'.objects.lookup key = some o' ∧ Honours o o'

/-! ## Decisions -/

/-- What is decided in one section and carried out in a later one: to evict the objects of a list, to re-open
or replace an object that is free, and to create an object where there is none. -/
inductive Decision where
  | evict
  | rewrite
  | create

def Decision.madeIn (key : ObjectKey) : Decision → Section → Prop
  | .evict, .choose => True
  | .rewrite, .inspect k => k = key
  | .create, .reclaim k => k = key
  | _, _ => False

/-- The sections that carry a decision on the object of `key` out. -/
def Decision.doneIn (key : ObjectKey) : Decision → Section → Prop
  | .evict, .evict k => k = key
  | .rewrite, .reopen k => k = key
  | .rewrite, .replace k => k = key
  | .create, .insert k => k = key
  | _, _ => False

/-- What is left of a request does not carry a decision on `key` out, unless it decides anew before. -/
def Undecided {α : Type} (key : ObjectKey) (d : Decision) : MasterProg α → Prop
  | .ret _ => True
  | .sec l _ k => ¬d.doneIn key l ∧ (d.madeIn key l ∨ ∀ b, Undecided key d (k b))
  | .lock k => Undecided key d k
  | .unlock k => Undecided key d k

section undecided

variable {α β : Type} {key : ObjectKey} {d : Decision} {p : MasterProg α} {f : α → MasterProg β}

lemma Undecided.bind (hp : Undecided key d p) (hf : ∀ a, Undecided key d (f a)) : Undecided key d (p >>= f) := by
  change Undecided key d (p.bind f)
  induction p with
  | ret a => exact hf a
  | sec l m k ih => exact ⟨hp.1, hp.2.imp id fun h b => ih b (h b)⟩
  | lock k ih => exact ih hp
  | unlock k ih => exact ih hp

lemma undecided_of_every (hp : p.Every fun l _ => ¬d.doneIn key l) : Undecided key d p := by
  induction p with
  | ret a => trivial
  | sec l m k ih => exact ⟨hp.1, .inr fun b => ih b (hp.2 b)⟩
  | lock k ih => exact ih hp
  | unlock k ih => exact ih hp

lemma undecided_of_madeIn {l : Section} {m : Exec MasterService α} (hdone : ¬d.doneIn key l)
    (hmade : d.madeIn key l) : Undecided key d (section_ l m >>= f) := ⟨hdone, .inl hmade⟩

end undecided

/-! ## What the sections of a request do -/

def Steady {β : Type} (_ : Section) (m : Exec MasterService β) : Prop :=
  ∀ s, Pc m (fun _ s' => s'.clock = s.clock ∧ s'.leaseTtl = s.leaseTtl) s

/-- A section that leaves the clock alone and does not touch an object that an upsert has inspected. -/
def Plain {β : Type} (l : Section) (m : Exec MasterService β) : Prop :=
  Steady l m ∧ ∀ key, ¬Decision.rewrite.doneIn key l

def chores : Section → Bool
  | .silent | .choose | .evict _ | .append _ => true
  | _ => false

def Chore {β : Type} (l : Section) (m : Exec MasterService β) : Prop := Steady l m ∧ chores l = true

section plain

variable {α : Type} {key : ObjectKey} {d : Decision} {p : MasterProg α}

variable {l : Section}

lemma not_doneIn_of_chores (hl : chores l = true) (hd : d ≠ .evict) : ¬d.doneIn key l := by
  cases l <;> cases d <;> first | exact absurd rfl hd | exact id | cases hl

lemma madeIn_of_chores (hl : chores l = true) (hmade : d.madeIn key l) : d = .evict := by
  cases l <;> cases d <;> first | rfl | exact hmade.elim | cases hl

lemma plain_of_chore (hp : p.Every Chore) : p.Every Plain :=
  hp.mono fun _ _ h => ⟨h.1, fun _ => not_doneIn_of_chores h.2 nofun⟩

variable {f : MasterService → Option α}

lemma steady_look : (look l f).Every Steady := by
  refine every_section fun s a s' hrun => ?_
  obtain ⟨b, -, hr⟩ := map_eq_some_iff.mp hrun
  cases hr
  exact ⟨rfl, rfl⟩

lemma steady_onObjects {m : Exec ObjectMap α} : (onObjects l m).Every Steady := by
  refine every_section fun s a s' hrun => ?_
  obtain ⟨r, -, hr⟩ := map_eq_some_iff.mp hrun
  cases hr
  exact ⟨rfl, rfl⟩

lemma chore_look (hl : chores l = true) : (look l f).Every Chore :=
  every_section ⟨steady_look.1, hl⟩

lemma chore_onSegments {m : Exec SegmentState α} : (onSegments m).Every Chore := by
  refine every_section ⟨fun s a s' hrun => ?_, rfl⟩
  obtain ⟨r, -, hr⟩ := map_eq_some_iff.mp hrun
  cases hr
  exact ⟨rfl, rfl⟩

lemma chore_logOp (entry : OpLogEntry) : (logOp entry).Every Chore := by
  refine every_section ⟨fun s a s' hrun => ?_, rfl⟩
  cases hrun
  exact ⟨rfl, rfl⟩

lemma chore_evictLoop {enough : SegmentState → Option Bool} {n : ℕ} {keys : List ObjectKey} :
    (evictLoop enough n keys).Every Chore := by
  induction keys generalizing n with
  | nil => exact every_pure _
  | cons key keys ih =>
    rw [evictLoop]
    refine (chore_look rfl).bind fun stop => ?_
    split_ifs
    · exact every_pure _
    · have htake : (onObjects (.evict key) (takeObject key)).Every Chore :=
        every_section ⟨steady_onObjects.1, rfl⟩
      refine htake.bind fun o => ?_
      cases o with
      | none => exact ih
      | some o => exact chore_onSegments.bind fun _ => (chore_logOp _).bind fun _ => ih

lemma chore_victimsColdestFirst : victimsColdestFirst.Every Chore :=
  (chore_look rfl).bind fun _ => chore_look rfl

lemma chore_evictIfNeededLocked : evictIfNeededLocked.Every Chore := by
  refine (chore_look rfl).bind fun due => ?_
  cases due with
  | none => exact every_pure _
  | some target => exact chore_victimsColdestFirst.bind fun _ => chore_evictLoop

lemma chore_allocateReplicas {size replicaNum : ℕ} {preferred : Option SegmentName} :
    (allocateReplicas size replicaNum preferred).Every Chore := by
  refine chore_evictIfNeededLocked.bind fun _ => chore_onSegments.bind fun r => ?_
  rcases r with e | bs
  · cases e with
    | noAvailableSegment =>
      exact (chore_victimsColdestFirst.bind fun _ => chore_evictLoop).bind fun _ => chore_onSegments
    | _ => exact every_pure _
  · exact every_pure _

lemma chore_freeLeftover (r : Option ObjectMetadata) : (freeLeftover r).Every Chore := by
  cases r with
  | none => exact every_pure _
  | some o => exact chore_onSegments

lemma plain_look (hl : ∀ key, ¬Decision.rewrite.doneIn key l) : (look l f).Every Plain :=
  every_section ⟨steady_look.1, hl⟩

lemma plain_onObjects {m : Exec ObjectMap α} (hl : ∀ key, ¬Decision.rewrite.doneIn key l) :
    (onObjects l m).Every Plain :=
  every_section ⟨steady_onObjects.1, hl⟩

variable {key : ObjectKey}

lemma plain_putStart {identity : IdentityScope} {size : ℕ} {config : ReplicateConfig} :
    (putStart key identity size config).Every Plain := by
  refine every_acquire.bind fun _ => (plain_onObjects fun _ => id).bind fun r => ?_
  rcases r with e | leftover
  · exact every_release.bind fun _ => every_pure _
  · refine (plain_of_chore (chore_freeLeftover leftover)).bind fun _ =>
      (plain_of_chore chore_allocateReplicas).bind fun r => ?_
    rcases r with e | bs
    · exact every_release.bind fun _ => every_pure _
    · exact (plain_of_chore chore_onSegments).bind fun _ => (plain_look fun _ => id).bind fun _ =>
        (plain_onObjects fun _ => id).bind fun _ => every_release.bind fun _ => every_pure _

lemma plain_putEnd : (putEnd key).Every Plain := by
  refine (plain_look fun _ => id).bind fun logging => (plain_onObjects fun _ => id).bind fun r => ?_
  cases r with
  | none => exact every_pure _
  | some o =>
    cases logging with
    | false => exact (every_pure ()).bind fun _ => every_pure _
    | true => exact (plain_of_chore (chore_logOp _)).bind fun _ => every_pure _

lemma plain_getReplicaList {requester : IdentityScope} : (getReplicaList key requester).Every Plain :=
  (plain_look fun _ => id).bind fun _ => (plain_look fun _ => id).bind fun _ =>
    (plain_look fun _ => id).bind fun _ => (plain_look fun _ => id).bind fun _ => plain_onObjects fun _ => id

lemma plain_remove {force : Bool} : (remove key force).Every Plain := by
  refine (plain_look fun _ => id).bind fun _ => every_acquire.bind fun _ =>
    (plain_onObjects fun _ => id).bind fun r => ?_
  rcases r with e | o
  · exact every_release.bind fun _ => every_pure _
  · exact (plain_of_chore chore_onSegments).bind fun _ => every_release.bind fun _ =>
      (plain_of_chore (chore_logOp _)).bind fun _ => every_pure _

lemma plain_evictIfNeeded : evictIfNeeded.Every Plain :=
  every_acquire.bind fun _ => (plain_of_chore chore_evictIfNeededLocked).bind fun _ =>
    every_release.bind fun _ => every_pure _

lemma steady_upsertStart {identity : IdentityScope} {size : ℕ} {config : ReplicateConfig} :
    (upsertStart key identity size config).Every Steady := by
  have hput : (putStart key identity size config).Every Steady := plain_putStart.mono fun _ _ h => h.1
  refine steady_look.bind fun _ => steady_look.bind fun r => ?_
  obtain ⟨existsComplete, leased, existingSize⟩ := r
  dsimp only
  split_ifs
  · exact hput
  · exact every_pure _
  · exact steady_onObjects.bind fun _ => every_pure _
  · exact every_acquire.bind fun _ => steady_onObjects.bind fun r =>
      ((chore_freeLeftover r).mono fun _ _ h => h.1).bind fun _ => every_release.bind fun _ => hput

end plain

/-! ## Requests that have not begun are undecided -/

section begin_undecided

variable {α : Type} {key : ObjectKey} {d : Decision}

lemma undecided_of_chore {p : MasterProg α} (hp : p.Every Chore) (hd : d ≠ .evict) : Undecided key d p :=
  undecided_of_every (hp.mono fun _ _ h => not_doneIn_of_chores h.2 hd)

lemma undecided_void {p : MasterProg α} (hp : Undecided key d p) : Undecided key d (MasterOp.void p) :=
  hp.bind fun _ => trivial

lemma undecided_evictLoop {enough : SegmentState → Option Bool} {n : ℕ} {keys : List ObjectKey}
    (hkeys : key ∉ keys) : Undecided key .evict (evictLoop enough n keys) := by
  induction keys generalizing n with
  | nil => trivial
  | cons k keys ih =>
    have ih := fun n => @ih n (List.not_mem_of_not_mem_cons hkeys)
    have htake : Undecided key .evict (onObjects (.evict k) (takeObject k)) :=
      ⟨fun hk => List.ne_of_not_mem_cons hkeys hk.symm, .inr fun _ => trivial⟩
    rw [evictLoop]
    refine Undecided.bind ⟨id, .inr fun _ => trivial⟩ fun stop => ?_
    split_ifs
    · trivial
    · refine htake.bind fun o => ?_
      cases o with
      | none => exact ih _
      | some o =>
        refine Undecided.bind ⟨id, .inr fun _ => trivial⟩ fun _ =>
          Undecided.bind ⟨id, .inr fun _ => trivial⟩ fun _ => ih _

lemma undecided_evictPass {f : List ObjectKey → MasterProg α} :
    Undecided key .evict (victimsColdestFirst >>= f) :=
  ⟨id, .inr fun _ => undecided_of_madeIn id trivial⟩

lemma undecided_evictIfNeededLocked : Undecided key d evictIfNeededLocked := by
  by_cases hd : d = .evict
  · subst hd
    refine Undecided.bind ⟨id, .inr fun _ => trivial⟩ fun due => ?_
    cases due with
    | none => trivial
    | some target => exact undecided_evictPass
  · exact undecided_of_chore chore_evictIfNeededLocked hd

lemma undecided_allocateReplicas {size replicaNum : ℕ} {preferred : Option SegmentName} :
    Undecided key d (allocateReplicas size replicaNum preferred) := by
  by_cases hd : d = .evict
  · subst hd
    refine undecided_evictIfNeededLocked.bind fun _ => Undecided.bind ⟨id, .inr fun _ => trivial⟩ fun r => ?_
    rcases r with e | bs
    · cases e with
      | noAvailableSegment => exact undecided_evictPass.bind fun _ => ⟨id, .inr fun _ => trivial⟩
      | _ => trivial
    · trivial
  · exact undecided_of_chore chore_allocateReplicas hd

lemma not_doneIn_silent : ¬d.doneIn key .silent := by cases d <;> exact id

lemma undecided_freeLeftover (r : Option ObjectMetadata) : Undecided key d (freeLeftover r) := by
  cases r with
  | none => trivial
  | some o => exact ⟨not_doneIn_silent, .inr fun _ => trivial⟩

lemma undecided_putStart {k : ObjectKey} {identity : IdentityScope} {size : ℕ} {config : ReplicateConfig} :
    Undecided key d (putStart k identity size config) := by
  have hreclaim : ¬d.doneIn key (.reclaim k) := by cases d <;> exact id
  -- the put of the key itself looks whether there is an object before it creates one
  by_cases hmade : d.madeIn key (.reclaim k)
  · exact ⟨hreclaim, .inl hmade⟩
  · have hinsert : ¬d.doneIn key (.insert k) := by cases d <;> exact hmade
    refine Undecided.bind trivial fun _ => Undecided.bind ⟨hreclaim, .inr fun _ => trivial⟩ fun r => ?_
    rcases r with e | leftover
    · trivial
    · refine (undecided_freeLeftover leftover).bind fun _ => undecided_allocateReplicas.bind fun r => ?_
      rcases r with e | bs
      · trivial
      · exact ⟨not_doneIn_silent, .inr fun _ => ⟨not_doneIn_silent, .inr fun _ =>
          ⟨hinsert, .inr fun _ => trivial⟩⟩⟩

/-- What an upsert does with what it has found. -/
def afterInspect (key : ObjectKey) (identity : IdentityScope) (size : ℕ) (config : ReplicateConfig) (now : ℕ) :
    Bool × Bool × ℕ → MasterProg (Except ErrorCode (List AllocatedBuffer))
  | (existsComplete, leased, existingSize) =>
    if !existsComplete then putStart key identity size config
    else if leased then pure (.error .objectNotReady)
    else if existingSize = size then do
      let buffers ← onObjects (.reopen key) (reopenObject key identity now)
      return .ok buffers
    else do
      acquire
      let old ← onObjects (.replace key) (takeObject key)
      freeLeftover old
      release
      putStart key identity size config

lemma upsertStart_eq (key : ObjectKey) (identity : IdentityScope) (size : ℕ) (config : ReplicateConfig) :
    upsertStart key identity size config = now >>= fun t =>
      look (.inspect key) (fun s => some (inspect key t s.objects)) >>= afterInspect key identity size config t :=
  rfl

lemma undecided_upsertStart {k : ObjectKey} {identity : IdentityScope} {size : ℕ} {config : ReplicateConfig} :
    Undecided key d (upsertStart k identity size config) := by
  have hinspect : ¬d.doneIn key (.inspect k) := by cases d <;> exact id
  rw [upsertStart_eq]
  refine Undecided.bind ⟨not_doneIn_silent, .inr fun _ => trivial⟩ fun t => ?_
  by_cases hmade : d.madeIn key (.inspect k)
  · exact undecided_of_madeIn hinspect hmade
  · have hreopen : ¬d.doneIn key (.reopen k) := by cases d <;> exact hmade
    have hreplace : ¬d.doneIn key (.replace k) := by cases d <;> exact hmade
    refine Undecided.bind ⟨hinspect, .inr fun _ => trivial⟩ fun r => ?_
    obtain ⟨existsComplete, leased, existingSize⟩ := r
    rw [afterInspect]
    split_ifs
    · exact undecided_putStart
    · trivial
    · exact ⟨hreopen, .inr fun _ => trivial⟩
    · refine ⟨hreplace, .inr fun r => ?_⟩
      exact (undecided_freeLeftover r).bind fun _ => undecided_putStart

lemma undecided_prog {op : MasterOp} (hop : racing op = true) : Undecided key d op.prog := by
  have hgrant : ∀ k, ¬d.doneIn key (.grant k) := by cases d <;> exact fun _ => id
  have hretire : ∀ k, ¬d.doneIn key (.retire k) := by cases d <;> exact fun _ => id
  have hfinish : ∀ k, ¬d.doneIn key (.finish k) := by cases d <;> exact fun _ => id
  have happend : ∀ entry, ¬d.doneIn key (.append entry) := by cases d <;> exact fun _ => id
  cases op with
  | putStart k identity size config => exact undecided_void undecided_putStart
  | putEnd k =>
    refine ⟨not_doneIn_silent, .inr fun logging => ⟨hfinish k, .inr fun r => ?_⟩⟩
    cases r with
    | none => trivial
    | some o =>
      cases logging with
      | false => trivial
      | true => exact ⟨happend _, .inr fun _ => trivial⟩
  | getReplicaList k requester =>
    exact ⟨not_doneIn_silent, .inr fun _ => ⟨not_doneIn_silent, .inr fun _ => ⟨not_doneIn_silent,
      .inr fun _ => ⟨not_doneIn_silent, .inr fun _ => ⟨hgrant k, .inr fun _ => trivial⟩⟩⟩⟩⟩
  | remove k force =>
    refine ⟨not_doneIn_silent, .inr fun _ => ⟨hretire k, .inr fun r => ?_⟩⟩
    rcases r with e | o
    · trivial
    · exact ⟨not_doneIn_silent, .inr fun _ => ⟨happend _, .inr fun _ => trivial⟩⟩
  | upsertStart k identity size config => exact undecided_void undecided_upsertStart
  | existKey k => exact ⟨not_doneIn_silent, .inr fun _ => trivial⟩
  | evictIfNeeded => exact undecided_void (undecided_evictIfNeededLocked.bind fun _ => trivial)
  | tick => exact ⟨not_doneIn_silent, .inr fun _ => trivial⟩
  | _ => cases hop

end begin_undecided

/-! ## Requests decide well -/

/-- What is left of a request, at time `T` or later, finds out whether the object of `key` is leased when it
decides on it, and leaves it alone otherwise. -/
def Vigilant {α : Type} (key : ObjectKey) : MasterProg α → ℕ → Prop
  | .ret _, _ => True
  | .sec l m k, T => ∀ s, T ≤ s.clock → ∀ b s', m s = some (b, s') →
      (Leased key s → (∀ d : Decision, ¬d.doneIn key l) → Keeps key s s') ∧
      (Leased key s → ∀ d : Decision, d.madeIn key l → Undecided key d (k b)) ∧ Vigilant key (k b) s.clock
  | .lock k, T => Vigilant key k T
  | .unlock k, T => Vigilant key k T

section vigilant

variable {α β : Type} {key : ObjectKey} {T : ℕ} {p : MasterProg α} {f : α → MasterProg β}

lemma Vigilant.mono {T' : ℕ} (hp : Vigilant key p T) (hT : T ≤ T') : Vigilant key p T' := by
  induction p with
  | ret a => trivial
  | sec l m k ih => exact fun s hs => hp s (hT.trans hs)
  | lock k ih => exact ih hp
  | unlock k ih => exact ih hp

lemma Vigilant.bind {A : Decision → Prop} (hp : Vigilant key p T)
    (hmade : p.Every fun l _ => ∀ d : Decision, d.madeIn key l → A d)
    (hf : ∀ a T', T ≤ T' → Vigilant key (f a) T') (hfree : ∀ a d, A d → Undecided key d (f a)) :
    Vigilant key (p >>= f) T := by
  change Vigilant key (p.bind f) T
  induction p generalizing T with
  | ret a => exact hf a T le_rfl
  | sec l m k ih =>
    intro s hs b s' hm
    obtain ⟨hkeeps, hdecides, hrest⟩ := hp s hs b s' hm
    refine ⟨hkeeps, fun hleased d hd => ?_, ih b hrest (hmade.2 b) fun a T' hT' => hf a T' (hs.trans hT')⟩
    exact (hdecides hleased d hd).bind fun a => hfree a d (hmade.1 d hd)
  | lock k ih => exact ih hp hmade hf
  | unlock k ih => exact ih hp hmade hf

lemma vigilant_section {l : Section} {m : Exec MasterService α} (hl : ∀ d : Decision, ¬d.madeIn key l)
    (hm : (∀ d : Decision, ¬d.doneIn key l) → ∀ s, Pc m (fun _ s' => Keeps key s s') s)
    (hf : ∀ a T', T ≤ T' → Vigilant key (f a) T') : Vigilant key (section_ l m >>= f) T :=
  fun s hs a s' hrun => ⟨fun _ hdone => hm hdone s a s' hrun, fun _ d hd => absurd hd (hl d), hf a _ hs⟩

lemma keeps_of_objects_eq {s s' : MasterService} (h : s'.objects = s.objects) : Keeps key s s' :=
  fun o ho => ⟨o, h ▸ ho, .refl o⟩

lemma keeps_of_lookup_eq {s : MasterService} {t : ObjectMap} (h : t.lookup key = s.objects.lookup key) :
    Keeps key s { s with objects := t } :=
  fun o ho => ⟨o, h.trans ho, .refl o⟩

lemma not_madeIn_silent (d : Decision) : ¬d.madeIn key .silent := by cases d <;> exact id

lemma vigilant_read {g : MasterService → Option α} (hf : ∀ a T', T ≤ T' → Vigilant key (f a) T') :
    Vigilant key (read g >>= f) T := by
  refine vigilant_section not_madeIn_silent (fun _ s a s' hrun => ?_) hf
  obtain ⟨_, -, hr⟩ := map_eq_some_iff.mp hrun
  cases hr
  exact keeps_of_objects_eq rfl

lemma vigilant_now {f : ℕ → MasterProg β} (hf : ∀ t, T ≤ t → Vigilant key (f t) t) :
    Vigilant key (now >>= f) T := by
  intro s hs t s' hrun
  cases hrun
  exact ⟨fun _ _ => keeps_of_objects_eq rfl, fun _ d hd => absurd hd (not_madeIn_silent d), hf _ hs⟩

lemma vigilant_onSegments {m : Exec SegmentState α} (hf : ∀ a T', T ≤ T' → Vigilant key (f a) T') :
    Vigilant key (onSegments m >>= f) T := by
  refine vigilant_section not_madeIn_silent (fun _ s a s' hrun => ?_) hf
  obtain ⟨_, -, hr⟩ := map_eq_some_iff.mp hrun
  cases hr
  exact keeps_of_objects_eq rfl

lemma vigilant_logOp {entry : OpLogEntry} {f : Unit → MasterProg β} (hf : ∀ a T', T ≤ T' → Vigilant key (f a) T') :
    Vigilant key (logOp entry >>= f) T := by
  refine vigilant_section (fun d => by cases d <;> exact id) (fun _ s a s' hrun => ?_) hf
  cases hrun
  exact keeps_of_objects_eq rfl

lemma vigilant_onObjects {l : Section} {m : Exec ObjectMap α} (hl : ∀ d : Decision, ¬d.madeIn key l)
    (hm : (∀ d : Decision, ¬d.doneIn key l) → ∀ s : MasterService,
      Pc m (fun _ t => Keeps key s { s with objects := t }) s.objects)
    (hf : ∀ a T', T ≤ T' → Vigilant key (f a) T') : Vigilant key (onObjects l m >>= f) T := by
  refine vigilant_section hl (fun hdone s a s' hrun => ?_) hf
  obtain ⟨⟨b, t⟩, hb, hr⟩ := map_eq_some_iff.mp hrun
  cases hr
  exact hm hdone s b t hb

variable {k : ObjectKey}

lemma keeps_takeObject (hk : k ≠ key) (s : MasterService) :
    Pc (takeObject k) (fun _ t => Keeps key s { s with objects := t }) s.objects := by
  intro r t hrun
  cases hrun
  exact keeps_of_lookup_eq (lookup_erase_ne (Ne.symm hk))

lemma vigilant_evictLoop {enough : SegmentState → Option Bool} {n : ℕ} {keys : List ObjectKey} :
    Vigilant key (evictLoop enough n keys) T := by
  induction keys generalizing n T with
  | nil => trivial
  | cons k keys ih =>
    rw [evictLoop]
    refine vigilant_read fun stop T' _ => ?_
    split_ifs
    · trivial
    · refine vigilant_onObjects (fun d => by cases d <;> exact id)
        (fun hdone s => keeps_takeObject (hdone .evict) s) fun o T' _ => ?_
      cases o with
      | none => exact ih
      | some o => exact vigilant_onSegments fun _ _ _ => vigilant_logOp fun _ _ _ => ih

lemma vigilant_evictPass {enough : SegmentState → Option Bool} {n : ℕ} :
    Vigilant key (victimsColdestFirst >>= evictLoop enough n) T := by
  refine vigilant_now fun t _ s hs keys s' hrun => ?_
  cases hrun
  refine ⟨fun _ _ => keeps_of_objects_eq rfl, fun ⟨o, ho, _, hlease⟩ d hd => ?_, vigilant_evictLoop⟩
  obtain rfl : d = .evict := madeIn_of_chores rfl hd
  refine undecided_evictLoop fun hmem => ?_
  obtain ⟨o', ho', hev⟩ := mem_victims.mp hmem
  rw [ho] at ho'
  cases ho'
  rw [evictable, Bool.and_eq_true, decide_eq_true_eq] at hev
  exact absurd (hs.trans_lt hlease) (not_lt.mpr hev.2)

lemma vigilant_evictIfNeededLocked : Vigilant key evictIfNeededLocked T := by
  refine vigilant_read fun due T' _ => ?_
  cases due with
  | none => trivial
  | some target => exact vigilant_evictPass

lemma Vigilant.bind_chore (hp : Vigilant key p T) (hchore : p.Every Chore)
    (hf : ∀ a T', T ≤ T' → Vigilant key (f a) T') (hfree : ∀ a, Undecided key .evict (f a)) :
    Vigilant key (p >>= f) T :=
  hp.bind (A := (· = .evict)) (hchore.mono fun _ _ h _ hd => madeIn_of_chores h.2 hd) hf
    fun a _ hd => hd ▸ hfree a

lemma vigilant_allocateReplicas {size replicaNum : ℕ} {preferred : Option SegmentName} :
    Vigilant key (allocateReplicas size replicaNum preferred) T := by
  refine vigilant_evictIfNeededLocked.bind_chore chore_evictIfNeededLocked
    (fun _ T' _ => vigilant_onSegments fun r _ _ => ?_) fun _ => Undecided.bind ⟨id, .inr fun _ => trivial⟩ fun r => ?_
  · rcases r with e | bs
    · cases e with
      | noAvailableSegment =>
        exact vigilant_evictPass.bind_chore (chore_victimsColdestFirst.bind fun _ => chore_evictLoop)
          (fun _ _ _ => vigilant_onSegments fun _ _ _ => trivial) fun _ => ⟨id, .inr fun _ => trivial⟩
      | _ => trivial
    · trivial
  · rcases r with e | bs
    · cases e with
      | noAvailableSegment => exact undecided_evictPass.bind fun _ => ⟨id, .inr fun _ => trivial⟩
      | _ => trivial
    · trivial

lemma vigilant_freeLeftover {f : Unit → MasterProg β} (r : Option ObjectMetadata)
    (hf : ∀ T', T ≤ T' → Vigilant key (f ()) T') : Vigilant key (freeLeftover r >>= f) T := by
  cases r with
  | none => exact hf T le_rfl
  | some o => exact vigilant_onSegments fun _ => hf

variable {identity : IdentityScope} {config : ReplicateConfig}

lemma vigilant_putStart {size : ℕ} : Vigilant key (putStart k identity size config) T := by
  intro s hs r s' hrun
  obtain ⟨⟨r, t⟩, htake, hr⟩ := map_eq_some_iff.mp hrun
  cases hr
  -- what the first section finds, if the key is leased
  have hleft : Leased key s → (∃ e, r = .error e) ∧ t = s.objects ∨ k ≠ key ∧ t = s.objects.erase k := by
    rintro ⟨o, ho, hc, -⟩
    rw [takeLeftover] at htake
    split_ifs at htake with hcomplete
    · cases htake
      exact .inl ⟨⟨_, rfl⟩, rfl⟩
    · cases htake
      refine .inr ⟨?_, rfl⟩
      rintro rfl
      rw [ho, any_some] at hcomplete
      exact hcomplete hc
  refine ⟨fun hleased _ => ?_, fun hleased d hd => ?_, ?_⟩
  · rcases hleft hleased with ⟨-, rfl⟩ | ⟨hk, rfl⟩
    · exact keeps_of_lookup_eq rfl
    · exact keeps_of_lookup_eq (lookup_erase_ne (Ne.symm hk))
  · rcases hleft hleased with ⟨⟨e, rfl⟩, -⟩ | ⟨hk, -⟩
    · trivial
    · cases d <;> first | exact absurd hd hk | exact hd.elim
  · rcases r with e | leftover
    · trivial
    · refine vigilant_freeLeftover leftover fun T' _ => vigilant_allocateReplicas.bind_chore chore_allocateReplicas
        (fun r T'' _ => ?_) fun r => ?_
      · rcases r with e | bs
        · trivial
        · refine vigilant_onSegments fun _ _ _ => vigilant_read fun _ _ _ =>
            vigilant_onObjects (fun d => by cases d <;> exact id) (fun hdone s r t hinsert => ?_) fun _ _ _ => trivial
          cases hinsert
          exact keeps_of_lookup_eq (lookup_insert_ne (Ne.symm (hdone .create)))
      · rcases r with e | bs
        · trivial
        · exact ⟨id, .inr fun _ => ⟨id, .inr fun _ => ⟨id, .inr fun _ => trivial⟩⟩⟩

lemma vigilant_putEnd : Vigilant key (putEnd k) T := by
  refine vigilant_read fun logging _ _ => vigilant_onObjects (fun d => by cases d <;> exact id)
    (fun _ s r t hrun o ho => ?_) fun r _ _ => ?_
  · cases hrun
    by_cases hk : key = k
    · refine ⟨o.withStatus .complete, ?_, honours_finish o⟩
      simp only [lookup_update, if_pos hk, ho, map_some]
    · exact ⟨o, by simp only [lookup_update, if_neg hk, ho], .refl o⟩
  · cases r with
    | none => trivial
    | some o =>
      cases logging with
      | false => trivial
      | true => exact vigilant_logOp fun _ _ _ => trivial

lemma vigilant_remove {force : Bool} (hk : k ≠ key) : Vigilant key (remove k force) T := by
  refine vigilant_read fun t _ _ => vigilant_onObjects (fun d => by cases d <;> exact id)
    (fun _ s r t hrun => ?_) fun r _ _ => ?_
  · rw [takeUnleased] at hrun
    split at hrun
    · cases hrun
      exact keeps_of_lookup_eq rfl
    · split_ifs at hrun
      · cases hrun
        exact keeps_of_lookup_eq rfl
      · cases hrun
        exact keeps_of_lookup_eq (lookup_erase_ne (Ne.symm hk))
  · rcases r with e | o
    · trivial
    · exact vigilant_onSegments fun _ _ _ => vigilant_logOp fun _ _ _ => trivial

lemma vigilant_afterInspect {size t : ℕ} {r : Bool × Bool × ℕ} :
    Vigilant key (afterInspect k identity size config t r) T := by
  obtain ⟨existsComplete, leased, existingSize⟩ := r
  rw [afterInspect]
  split_ifs
  · exact vigilant_putStart
  · trivial
  · refine vigilant_onObjects (fun d => by cases d <;> exact id) (fun hdone s r t hrun o ho => ?_)
      fun _ _ _ => trivial
    rw [reopenObject] at hrun
    split at hrun
    · cases hrun
    · cases hrun
      exact ⟨o, by simp only [lookup_update, if_neg (Ne.symm (hdone .rewrite)), ho], .refl o⟩
  · exact vigilant_onObjects (fun d => by cases d <;> exact id)
      (fun hdone s => keeps_takeObject (hdone .rewrite) s) fun r _ _ =>
        vigilant_freeLeftover r fun _ _ => vigilant_putStart

lemma vigilant_upsertStart {size : ℕ} : Vigilant key (upsertStart k identity size config) T := by
  rw [upsertStart_eq]
  refine vigilant_now fun t _ s hs r s' hrun => ?_
  cases hrun
  refine ⟨fun _ _ => keeps_of_objects_eq rfl, fun ⟨o, ho, hc, hlease⟩ d hd => ?_, vigilant_afterInspect⟩
  have hk : k = key := by cases d <;> first | exact hd | exact hd.elim
  subst hk
  have hinspect : inspect k t s.objects = (true, true, (o.replicas.values.head?.map Replica.size).getD 0) := by
    simp only [inspect, ho, hc, hs.trans_lt hlease, decide_true]
  change Undecided k d (afterInspect k identity size config t (inspect k t s.objects))
  rw [hinspect]
  trivial

lemma vigilant_void (hp : Vigilant key p T) : Vigilant key (MasterOp.void p) T :=
  hp.bind (A := fun _ => True) (every_of_forall fun _ _ _ _ => trivial) (fun _ _ _ => trivial) fun _ _ _ => trivial

/-- The requests that must not touch the object of `key` while it is leased. -/
def minds (key : ObjectKey) (op : MasterOp) : Prop :=
  (∀ force, op ≠ .remove key force) ∧ ∀ k requester, op ≠ .getReplicaList k requester

lemma vigilant_prog {op : MasterOp} (hop : racing op = true) (hminds : minds key op) : Vigilant key op.prog T := by
  cases op with
  | putStart k identity size config => exact vigilant_void vigilant_putStart
  | putEnd k => exact vigilant_void vigilant_putEnd
  | getReplicaList k requester => exact absurd rfl (hminds.2 k requester)
  | remove k force => exact vigilant_void (vigilant_remove fun hk => hminds.1 force (hk ▸ rfl))
  | upsertStart k identity size config => exact vigilant_void vigilant_upsertStart
  | existKey k => exact vigilant_read fun _ _ _ => trivial
  | evictIfNeeded =>
    exact vigilant_void (vigilant_evictIfNeededLocked.bind_chore chore_evictIfNeededLocked
      (fun _ _ _ => trivial) fun _ => trivial)
  | tick =>
    refine vigilant_section not_madeIn_silent (fun _ s a s' hrun => ?_) fun _ _ _ => trivial
    rw [tick_runs s a s' (by rw [tick, run_section]; exact hrun)]
    exact keeps_of_objects_eq rfl
  | _ => cases hop

lemma Vigilant.moves {c c' : Config Section MasterService} {i : ℕ} (h : c.Moves i c')
    (hp : Vigilant key (c.threads i) c.shared.clock) : Vigilant key (c'.threads i) c.shared.clock := by
  cases h with
  | sec hi hm =>
    rw [hi] at hp
    simp only [update_self]
    exact (hp _ le_rfl _ _ hm).2.2
  | lock hi hfree =>
    rw [hi] at hp
    simp only [update_self]
    exact hp
  | unlock hi hheld =>
    rw [hi] at hp
    simp only [update_self]
    exact hp

lemma Undecided.moves {c c' : Config Section MasterService} {i : ℕ} (h : c.Moves i c')
    (hp : Vigilant key (c.threads i) c.shared.clock) (hleased : Leased key c.shared)
    (hu : ∀ d, Undecided key d (c.threads i)) :
    Keeps key c.shared c'.shared ∧ ∀ d, Undecided key d (c'.threads i) := by
  cases h with
  | sec hi hm =>
    rw [hi] at hp hu
    obtain ⟨hkeeps, hdecides, -⟩ := hp _ le_rfl _ _ hm
    simp only [update_self]
    refine ⟨hkeeps hleased fun d => (hu d).1, fun d => ?_⟩
    rcases (hu d).2 with hmade | hrest
    · exact hdecides hleased d hmade
    · exact hrest _
  | lock hi hfree =>
    rw [hi] at hu
    simp only [update_self]
    exact ⟨keeps_of_objects_eq rfl, hu⟩
  | unlock hi hheld =>
    rw [hi] at hu
    simp only [update_self]
    exact ⟨keeps_of_objects_eq rfl, hu⟩

end vigilant

end QuillCache.Store.MasterService
