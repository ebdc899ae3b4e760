import QuillCache.Store.Intact
import QuillCache.Store.ReplaySerial

/-!
# Changes and their log entries

`put_end`, `remove` and an eviction change an object in one section and append the entry for it in a later one. `Books`
says of a program which sections leave an entry to append, and that each of them is appended before the program ends.

`Trails` keeps a master beside the live one, without the changes whose entries are outstanding: it is what the log
recovers. A section in good order keeps it on the trail (`Trails.acts`), and an append lets it catch up by one change,
whichever comes first.
-/

namespace QuillCache.Store.MasterService

open Lib Prog Relation List Option
open AList hiding keys

/-! ## What a thread has still to append -/

/-- What a thread is bound to: the entry that it has still to append, a key that it has found free of an object, and
whether it holds the segments mutex. -/
structure Debt where
  entry : Option OpLogEntry
  absent : Option ObjectKey
  held : Bool

abbrev Debt.none : Debt := ⟨Option.none, Option.none, false⟩

/-- A section that changes no object and no log. -/
structure Quiet (s s' : MasterService) : Prop where
  objects_eq : s'.objects = s.objects
  oplog_eq : s'.oplog = s.oplog
  mounted_eq : s'.segments.mounted = s.segments.mounted
  next_le : s.segments.nextReplicaId ≤ s'.segments.nextReplicaId

/-- What a section with a given label does to the objects and the log, and to the debt of its thread. -/
inductive Acts (s s' : MasterService) : Section → Debt → Debt → Prop where
  | quiet {l : Section} {g : Debt} (hl : l = .silent ∨ l = .choose) (h : Quiet s s') : Acts s s' l g g
  | refused {l : Section} {g : Debt} {key : ObjectKey} (hl : l = .reclaim key ∨ l = .retire key ∨ l = .evict key)
      (h : s' = s) : Acts s s' l g g
  | reclaim {key : ObjectKey} (hopen : s.isComplete key = false) (h : s' = { s with objects := s.objects.erase key }) :
      Acts s s' (.reclaim key) ⟨none, none, true⟩ ⟨none, some key, true⟩
  | take {l : Section} {key : ObjectKey} {o : ObjectMetadata} {absent : Option ObjectKey} {held : Bool}
      (hl : l = .retire key ∨ l = .evict key) (ho : s.objects.lookup key = some o)
      (h : s' = { s with objects := s.objects.erase key }) : 
      Acts s s' l ⟨none, absent, held⟩ ⟨some (.removed key), absent, held⟩
  | finish {key : ObjectKey} {absent : Option ObjectKey} {held : Bool}
      (h : s' = { s with objects := s.objects.update key (·.withStatus .complete) }) :
      Acts s s' (.finish key) ⟨none, absent, held⟩
        ⟨(s.objects.lookup key).map fun o => commitEntry key (o.withStatus .complete), absent, held⟩
  | insert {key : ObjectKey} {o : ObjectMetadata} (hopen : o.hasCompleteReplica = false)
      (h : s' = { s with objects := s.objects.insert key o }) : 
      Acts s s' (.insert key) ⟨none, some key, true⟩ ⟨none, none, true⟩
  | append {entry : OpLogEntry} {absent : Option ObjectKey} {held : Bool}
      (h : s' = { s with oplog := s.oplog.map (· ++ [entry]) }) :
      Acts s s' (.append entry) ⟨some entry, absent, held⟩ ⟨none, absent, held⟩

/-- The program keeps its books: run from `g`, every section acts on the debt as its label says, and `Q` holds of the
debt at the end. A key is known to be free only while the mutex is held. -/
def Books {α : Type} (Q : α → Debt → Prop) : MasterProg α → Debt → Prop
  | .ret a, g => Q a g
  | .sec l m k, g => ∀ s b s', s.oplog.isSome = true → Intact s → m s = some (b, s') →
      ∃ g', Acts s s' l g g' ∧ Books Q (k b) g'
  | .lock k, g => Books Q k ⟨g.entry, none, true⟩
  | .unlock k, g => Books Q k ⟨g.entry, none, false⟩

section books

variable {α β : Type} {Q : α → Debt → Prop} {R : β → Debt → Prop} {p : MasterProg α} {f : α → MasterProg β} {g : Debt}

lemma Books.bind (hp : Books Q p g) (hf : ∀ a g, Q a g → Books R (f a) g) : Books R (p >>= f) g := by
  change Books R (p.bind f) g
  induction p generalizing g with
  | ret a => exact hf a g hp
  | sec l m k ih =>
    intro s b s' hlog hs hm
    obtain ⟨g', hacts, hrest⟩ := hp s b s' hlog hs hm
    exact ⟨g', hacts, ih b hrest⟩
  | lock k ih => exact ih hp
  | unlock k ih => exact ih hp

lemma books_pure {a : α} (h : Q a g) : Books Q (pure a) g := h

lemma books_section {l : Section} {m : Exec MasterService α} (h : ∀ s, s.oplog.isSome = true → Intact s →
    Runs (section_ l m) (fun a s' => ∃ g', Acts s s' l g g' ∧ Q a g') s) : Books Q (section_ l m) g :=
  fun s a s' hlog hs hm => runs_section.mp (h s hlog hs) a s' hm

lemma books_acquire {f : Unit → MasterProg β} (hf : Books R (f ()) ⟨g.entry, none, true⟩) :
    Books R (acquire >>= f) g := hf

lemma books_release {f : Unit → MasterProg β} (hf : Books R (f ()) ⟨g.entry, none, false⟩) :
    Books R (release >>= f) g := hf

abbrev Steadily (p : MasterProg α) (g : Debt) : Prop := Books (fun _ g' => g' = g) p g

lemma Steadily.bind (hp : Steadily p g) (hf : ∀ a, Books R (f a) g) : Books R (p >>= f) g :=
  Books.bind hp fun a _ hg => hg ▸ hf a

lemma quiet_refl (s : MasterService) : Quiet s s := ⟨rfl, rfl, rfl, le_rfl⟩

lemma books_look {l : Section} (hl : l = .silent ∨ l = .choose) (f : MasterService → Option α) :
    Steadily (look l f) g :=
  books_section fun s _ _ => runs_read.mpr fun _ _ => ⟨g, .quiet hl (quiet_refl s), rfl⟩

lemma books_read (f : MasterService → Option α) : Steadily (read f) g := books_look (.inl rfl) f

lemma books_freeObject (o : ObjectMetadata) : Steadily (freeObject o) g := by
  refine books_section fun s _ hs => (freeObject_completes hs).pc.mono ?_
  rintro _ s' ⟨-, hframe, hobjects, hoplog, hnext⟩
  exact ⟨g, .quiet (.inl rfl) ⟨hobjects, hoplog, mounted_of_sameFleet hframe.fleet, hnext.ge⟩, rfl⟩

lemma books_askStrategy (size replicaNum : ℕ) (preferred : Option SegmentName) :
    Steadily (onSegments (askStrategy size replicaNum preferred)) g := by
  refine books_section fun s _ hs => runs_onSegments.mpr fun r segments hrun => ?_
  obtain ⟨-, hevicts, -⟩ := runs_onSegments.mp (askStrategy_intact hs) r segments hrun
  exact ⟨g, .quiet (.inl rfl) ⟨rfl, rfl, mounted_of_sameFleet hevicts.frame.fleet, hevicts.nextReplicaId_eq.ge⟩, rfl⟩

lemma books_assignIds (bs : List AllocatedBuffer) :
    Books (fun rs g' => g' = g ∧ ∀ r ∈ rs.values, r.status = .initialized) (onSegments (assignIds bs ∅)) g := by
  refine books_section fun s _ _ => runs_onSegments.mpr ?_
  refine (assignIds_empty bs s.segments).mono ?_
  rintro rs segments ⟨rfl, -, hinit, -⟩
  exact ⟨g, .quiet (.inl rfl) ⟨rfl, rfl, rfl, Nat.le_add_right _ _⟩, rfl, hinit⟩

lemma books_logOp {entry : OpLogEntry} {absent : Option ObjectKey} {held : Bool} :
    Books (fun _ g' => g' = ⟨none, absent, held⟩) (logOp entry) ⟨some entry, absent, held⟩ :=
  books_section fun _ _ _ => runs_logOp.mpr ⟨_, .append rfl, rfl⟩

/-! ### Eviction -/

variable {absent : Option ObjectKey} {held : Bool}

lemma books_evictLoop {enough : SegmentState → Option Bool} {n : ℕ} {keys : List ObjectKey} :
    Steadily (evictLoop enough n keys) ⟨none, absent, held⟩ := by
  induction keys generalizing n with
  | nil => exact books_pure rfl
  | cons key keys ih =>
    rw [evictLoop]
    refine (books_read _).bind fun stop => ?_
    split_ifs
    · exact books_pure rfl
    have htake : Books (fun r g' => (r = none ∧ g' = ⟨none, absent, held⟩) ∨
        ∃ o, r = some o ∧ g' = ⟨some (.removed key), absent, held⟩) (onObjects (.evict key) (takeObject key))
        ⟨none, absent, held⟩ := by
      refine books_section fun s _ _ => runs_onObjects.mpr ?_
      rintro r t hrun
      cases hrun
      cases ho : s.objects.lookup key with
      | none =>
        rw [erase_of_notMem (lookup_eq_none.mp ho)]
        exact ⟨_, .refused (Or.inr (.inr rfl)) rfl, .inl ⟨rfl, rfl⟩⟩
      | some o => exact ⟨_, .take (.inr rfl) ho rfl, .inr ⟨o, rfl, rfl⟩⟩
    refine htake.bind ?_
    rintro _ _ (⟨rfl, rfl⟩ | ⟨o, rfl, rfl⟩)
    · exact ih
    · refine (books_freeObject o).bind fun _ => books_logOp.bind ?_
      rintro _ _ rfl
      exact ih

lemma books_victims {enough : SegmentState → Option Bool} {n : ℕ} :
    Steadily (do let keys ← victimsColdestFirst; evictLoop enough n keys) ⟨none, absent, held⟩ := by
  have hvictims : Steadily victimsColdestFirst (⟨none, absent, held⟩ : Debt) :=
    (books_read _).bind fun _ => books_look (.inr rfl) _
  exact hvictims.bind fun _ => books_evictLoop

lemma books_evictIfNeededLocked : Steadily evictIfNeededLocked ⟨none, absent, held⟩ := by
  refine (books_read _).bind fun due => ?_
  cases due with
  | none => exact books_pure rfl
  | some target => exact books_victims

lemma books_allocateReplicas {size replicaNum : ℕ} {preferred : Option SegmentName} :
    Steadily (allocateReplicas size replicaNum preferred) ⟨none, absent, held⟩ := by
  refine books_evictIfNeededLocked.bind fun _ => (books_askStrategy _ _ _).bind fun r => ?_
  cases r with
  | ok bs => exact books_pure rfl
  | error e =>
    cases e with
    | noAvailableSegment => exact books_victims.bind fun _ => books_askStrategy _ _ _
    | _ => exact books_pure rfl

/-! ### Requests -/

lemma books_takeLeftover (key : ObjectKey) :
    Books (fun r g' => (∃ e, r = .error e ∧ g' = ⟨none, none, true⟩) ∨ ∃ old, r = .ok old ∧ g' = ⟨none, some key, true⟩)
      (onObjects (.reclaim key) (takeLeftover key)) ⟨none, none, true⟩ := by
  refine books_section fun s _ _ => runs_onObjects.mpr fun r t hrun => ?_
  rw [takeLeftover] at hrun
  split_ifs at hrun with hcomplete
  · cases hrun
    exact ⟨_, .refused (.inl rfl) rfl, .inl ⟨_, rfl, rfl⟩⟩
  · cases hrun
    exact ⟨_, .reclaim (by simpa [isComplete] using hcomplete) rfl, .inr ⟨_, rfl, rfl⟩⟩

lemma books_freeLeftover (old : Option ObjectMetadata) : Steadily (freeLeftover old) g := by
  cases old with
  | none => exact books_pure rfl
  | some o => exact books_freeObject o

lemma books_insertObject {key : ObjectKey} {o : ObjectMetadata} (hopen : o.hasCompleteReplica = false) :
    Books (fun _ g' => g' = ⟨none, none, true⟩) (insertObject key o) ⟨none, some key, true⟩ := by
  refine books_section fun s _ _ => runs_onObjects.mpr ?_
  rintro _ t hrun
  cases hrun
  exact ⟨_, .insert hopen rfl, rfl⟩

lemma books_putStart (key : ObjectKey) (identity : IdentityScope) (size : ℕ) (config : ReplicateConfig) :
    Steadily (putStart key identity size config) .none := by
  refine books_acquire ((books_takeLeftover key).bind ?_)
  rintro _ _ (⟨e, rfl, rfl⟩ | ⟨old, rfl, rfl⟩)
  · exact books_release (books_pure rfl)
  refine (books_freeLeftover old).bind fun _ => books_allocateReplicas.bind fun r => ?_
  cases r with
  | error e => exact books_release (books_pure rfl)
  | ok bs =>
    refine (books_assignIds bs).bind ?_
    rintro rs _ ⟨rfl, hinit⟩
    refine (books_read _).bind fun t => (books_insertObject ?_).bind ?_
    · rw [ObjectMetadata.hasCompleteReplica, List.any_eq_false]
      intro r hr
      simp [Replica.isComplete, hinit r hr]
    · rintro _ _ rfl
      exact books_release (books_pure rfl)

lemma books_putEnd (key : ObjectKey) : Steadily (putEnd key) .none := by
  have hread : Books (fun logging g' => logging = true ∧ g' = Debt.none)
      (read fun s => some s.oplog.isSome) .none := by
    refine books_section fun s hlog _ => runs_read.mpr fun logging hlogging => ?_
    exact ⟨_, .quiet (.inl rfl) (quiet_refl s), (Option.some.inj hlogging).symm.trans hlog, rfl⟩
  have hfinish : Books (fun r g' => g' = ⟨r.map (commitEntry key), none, false⟩)
      (onObjects (.finish key) (completeObject key)) .none := by
    refine books_section fun s _ _ => runs_onObjects.mpr ?_
    rintro r t hrun
    cases hrun
    refine ⟨_, .finish rfl, ?_⟩
    rw [Option.map_map]
    rfl
  refine hread.bind ?_
  rintro _ _ ⟨rfl, rfl⟩
  refine hfinish.bind ?_
  rintro r _ rfl
  cases r with
  | none => exact books_pure rfl
  | some o =>
    refine books_logOp.bind ?_
    rintro _ _ rfl
    exact books_pure rfl

lemma books_remove (key : ObjectKey) (force : Bool) : Steadily (remove key force) .none := by
  refine (books_read _).bind fun t => books_acquire ?_
  have htake : Books (fun r g' => (∃ e, r = .error e ∧ g' = ⟨none, none, true⟩) ∨
      ∃ o, r = .ok o ∧ g' = ⟨some (.removed key), none, true⟩) (onObjects (.retire key) (takeUnleased key t force))
      ⟨none, none, true⟩ := by
    refine books_section fun s _ _ => runs_onObjects.mpr fun r t' hrun => ?_
    rw [takeUnleased] at hrun
    cases ho : s.objects.lookup key with
    | none =>
      rw [ho] at hrun
      cases hrun
      exact ⟨_, .refused (Or.inr (.inl rfl)) rfl, .inl ⟨_, rfl, rfl⟩⟩
    | some o =>
      simp only [ho] at hrun
      split_ifs at hrun
      · cases hrun
        exact ⟨_, .refused (Or.inr (.inl rfl)) rfl, .inl ⟨_, rfl, rfl⟩⟩
      · cases hrun
        exact ⟨_, .take (.inl rfl) ho rfl, .inr ⟨_, rfl, rfl⟩⟩
  refine htake.bind ?_
  rintro _ _ (⟨e, rfl, rfl⟩ | ⟨o, rfl, rfl⟩)
  · exact books_release (books_pure rfl)
  · refine (books_freeObject o).bind fun _ => books_release (books_logOp.bind ?_)
    rintro _ _ rfl
    exact books_pure rfl

lemma books_evictIfNeeded : Steadily evictIfNeeded .none :=
  books_acquire (books_evictIfNeededLocked.bind fun _ => books_release (books_pure rfl))

/-- The requests that race for the log: `put_start`, `put_end`, `remove` and evictions. -/
def logs : MasterOp → Bool
  | .putStart _ _ _ _ | .putEnd _ | .remove _ _ | .evictIfNeeded => true
  | _ => false

lemma books_prog {op : MasterOp} (hop : logs op = true) : Steadily op.prog .none := by
  cases op with
  | putStart key identity size config => exact (books_putStart key identity size config).bind fun _ => books_pure rfl
  | putEnd key => exact (books_putEnd key).bind fun _ => books_pure rfl
  | remove key force => exact (books_remove key force).bind fun _ => books_pure rfl
  | evictIfNeeded => exact books_evictIfNeeded.bind fun _ => books_pure rfl
  | _ => cases hop

end books

/-! ## The master that the log recovers -/

def entryKey : OpLogEntry → Option ObjectKey
  | .putCommitted key _ _ _ _ => some key
  | .removed key => some key
  | .segmentMounted _ _ | .segmentUnmounted _ => none

def isRemoval : OpLogEntry → Bool
  | .removed _ => true
  | _ => false

def NoEntry (es : List OpLogEntry) (key : ObjectKey) : Prop := ∀ e ∈ es, entryKey e ≠ some key

instance (es : List OpLogEntry) (key : ObjectKey) : Decidable (NoEntry es key) :=
  inferInstanceAs (Decidable (∀ e ∈ es, _))

/-- The outstanding entries after a section, read off its label and the states around it: a put that is ended and an
object that is taken out leave an entry to append. -/
def noted (l : Option Section) (s s' : MasterService) (es : List OpLogEntry) : List OpLogEntry :=
  match l with
  | some (.finish key) => es ++ ((s'.objects.lookup key).map (commitEntry key)).toList
  | some (.retire key) | some (.evict key) =>
    if key ∈ s.objects ∧ key ∉ s'.objects then es ++ [.removed key] else es
  | some (.append entry) => es.erase entry
  | _ => es

/-- Sections in good order, while the entries `es` are outstanding: a put is ended before its object is complete; an
object is completed, taken out or recorded only while no entry of its key is outstanding; and no object is recorded
while a removal is. -/
def orderly (es : List OpLogEntry) (s : MasterService) : Section → Prop
  | .finish key => key ∈ s.objects → s.isComplete key = false ∧ NoEntry es key
  | .retire key | .evict key => key ∈ s.objects → NoEntry es key
  | .reclaim key => key ∈ s.objects → s.isComplete key = false → NoEntry es key
  | .insert key => NoEntry es key ∧ ∀ e ∈ es, isRemoval e = false
  | _ => True

/-- How the objects `t` of the master that the log recovers, complete or not, stand to the live objects `u`. -/
inductive Behind (t u : ObjectMap) (es : List OpLogEntry) (k : ObjectKey) : Prop where
  | same (hes : NoEntry es k) (h : Option.Rel Agrees (t.lookup k) (u.lookup k))
  | committing {o o' : ObjectMetadata} (hes : commitEntry k (o.withStatus .complete) ∈ es) (ht : t.lookup k = some o)
      (hopen : o.hasCompleteReplica = false) (hu : u.lookup k = some o') (h : Agrees (o.withStatus .complete) o')
  | removing (hes : .removed k ∈ es) (hu : u.lookup k = none)

/-- The log recovers a master that lacks the outstanding changes. -/
structure Trails (strategy : String) (s : MasterService) (es : List OpLogEntry) : Prop where
  keys_nodup : (es.map entryKey).Nodup
  keys_some : ∀ e ∈ es, ∃ k, entryKey e = some k
  recovers : ∃ t log m, s.oplog = some log ∧ Replays (new strategy) log m ∧ Mirrors { s with objects := t } m ∧
    Packed { s with objects := t } ∧ ∀ k, Behind t s.objects es k

section trails

variable {strategy : String} {s s' : MasterService} {t t' u u' : ObjectMap} {es : List OpLogEntry} {k key : ObjectKey}
  {D : Multiset AllocatedBuffer}

lemma Trails.entry_unique (h : Trails strategy s es) {e e' : OpLogEntry} (he : e ∈ es) (he' : e' ∈ es)
    (hkey : entryKey e = entryKey e') : e = e' := inj_on_of_nodup_map h.keys_nodup he he' hkey

lemma Behind.rel (h : Behind t u es k) (hes : NoEntry es k) : Option.Rel Agrees (t.lookup k) (u.lookup k) := by
  cases h with
  | same _ h => exact h
  | committing hmem => exact absurd rfl (hes _ hmem)
  | removing hmem => exact absurd rfl (hes _ hmem)

lemma Behind.lookup (h : Behind t u es k) (ht : t'.lookup k = t.lookup k) (hu : u'.lookup k = u.lookup k) :
    Behind t' u' es k := by
  cases h with
  | same hes h => exact .same hes (by rwa [ht, hu])
  | committing hes ht' hopen hu' h => exact .committing hes (ht.trans ht') hopen (hu.trans hu') h
  | removing hes hu' => exact .removing hes (hu.trans hu')

lemma Behind.congr (h : Behind t u es k) (hrel : Option.Rel Agrees (u.lookup k) (u'.lookup k)) : Behind t u' es k := by
  cases h with
  | same hes h => exact .same hes (rel_agrees_trans h hrel)
  | committing hes ht hopen hu h =>
    obtain ⟨o'', hu', hagrees⟩ := exists_agrees_right (hu ▸ hrel)
    exact .committing hes ht hopen hu' (h.trans hagrees)
  | removing hes hu => exact .removing hes (eq_none_of_rel (hu ▸ hrel))

lemma Behind.note {e : OpLogEntry} (h : Behind t u es k) (he : entryKey e ≠ some k) : Behind t u (es ++ [e]) k := by
  cases h with
  | same hes h =>
    refine .same (fun e' he' => ?_) h
    rcases mem_append.mp he' with he' | he'
    · exact hes e' he'
    · rwa [mem_singleton.mp he']
  | committing hes ht hopen hu h => exact .committing (mem_append_left _ hes) ht hopen hu h
  | removing hes hu => exact .removing (mem_append_left _ hes) hu

lemma Behind.append {e : OpLogEntry} (h : Behind t u es k) (he : entryKey e ≠ some k) : Behind t u (es.erase e) k := by
  have hmem : ∀ {e'}, e' ∈ es → entryKey e' = some k → e' ∈ es.erase e := by
    intro e' he' hkey
    refine (mem_erase_of_ne ?_).mpr he'
    rintro rfl
    exact he hkey
  cases h with
  | same hes h => exact .same (fun e' he' => hes e' (mem_of_mem_erase he')) h
  | committing hes ht hopen hu h => exact .committing (hmem hes rfl) ht hopen hu h
  | removing hes hu => exact .removing (hmem hes rfl) hu

lemma Trails.keys_note (h : Trails strategy s es) {e : OpLogEntry} (he : entryKey e = some key) (hes : NoEntry es key) :
    ((es ++ [e]).map entryKey).Nodup ∧ ∀ e' ∈ es ++ [e], ∃ k, entryKey e' = some k := by
  constructor
  · rw [map_append, map_singleton]
    refine nodup_append.mpr ⟨h.keys_nodup, nodup_singleton _, ?_⟩
    rintro x hx y hy rfl
    obtain ⟨e', he', rfl⟩ := List.mem_map.mp hx
    exact hes e' he' ((mem_singleton.mp hy).trans he)
  · intro e' he'
    rcases mem_append.mp he' with he' | he'
    · exact h.keys_some e' he'
    · exact ⟨key, by rwa [mem_singleton.mp he']⟩

/-! ### One section -/

lemma Trails.quiet (h : Trails strategy s es) (hquiet : Quiet s s') (hs' : Owes False D s'.view) :
    Trails strategy s' es := by
  obtain ⟨t, log, m, hlog, hreplays, hmirrors, hpacked, hbehind⟩ := h.recovers
  refine ⟨h.keys_nodup, h.keys_some, t, log, m, hquiet.oplog_eq.trans hlog, hreplays, ?_, ?_, ?_⟩
  · exact hmirrors.congr hquiet.mounted_eq hquiet.next_le fun k => Or.inl (rel_agrees_refl _)
  · exact hpacked.mono hquiet.mounted_eq le_rfl hquiet.next_le hs'.next_lt
  · rw [hquiet.objects_eq]
    exact hbehind

lemma Trails.shuffle (h : Trails strategy s es) (hshuffle : Shuffle s s') : Trails strategy s' es := by
  obtain ⟨t, log, m, hlog, hreplays, hmirrors, hpacked, hbehind⟩ := h.recovers
  have hsame : ({ s' with objects := t } : MasterService) = { s with objects := t } := by rw [hshuffle.rest]
  refine ⟨h.keys_nodup, h.keys_some, t, log, m, ?_, hreplays, hsame ▸ hmirrors, hsame ▸ hpacked, fun k => ?_⟩
  · rw [hshuffle.rest]
    exact hlog
  · exact (hbehind k).congr (rel_of_shuffle hshuffle k)

lemma Trails.reclaim (h : Trails strategy s es) (hopen : s.isComplete key = false) (hes : key ∈ s.objects → NoEntry es key) :
    Trails strategy { s with objects := s.objects.erase key } es := by
  by_cases hkey : key ∈ s.objects
  swap
  · rwa [erase_of_notMem hkey]
  obtain ⟨t, log, m, hlog, hreplays, hmirrors, hpacked, hbehind⟩ := h.recovers
  have hrel := (hbehind key).rel (hes hkey)
  have hopen' : ({ s with objects := t } : MasterService).isComplete key = false := by
    rw [← hopen]
    exact (isComplete_congr hrel).symm
  refine ⟨h.keys_nodup, h.keys_some, t.erase key, log, m, hlog, hreplays, ?_, ?_, fun k => ?_⟩
  · refine hmirrors.congr rfl le_rfl fun k => ?_
    by_cases hk : k = key
    · rw [hk]
      refine .inr ⟨hopen', ?_⟩
      rw [isComplete, lookup_erase]
      rfl
    · rw [lookup_erase_ne hk]
      exact Or.inl (rel_agrees_refl _)
  · exact hpacked.mono rfl (footprints_erase_le t key) le_rfl hpacked.next_lt
  · by_cases hk : k = key
    · rw [hk]
      refine .same (hes hkey) ?_
      rw [lookup_erase, lookup_erase]
      exact .none
    · exact (hbehind k).lookup (lookup_erase_ne hk) (lookup_erase_ne hk)

lemma Trails.take (h : Trails strategy s es) (hes : NoEntry es key) :
    Trails strategy { s with objects := s.objects.erase key } (es ++ [.removed key]) := by
  obtain ⟨t, log, m, hlog, hreplays, hmirrors, hpacked, hbehind⟩ := h.recovers
  obtain ⟨hnodup, hsome⟩ := h.keys_note (e := .removed key) rfl hes
  refine ⟨hnodup, hsome, t, log, m, hlog, hreplays, hmirrors, hpacked, fun k => ?_⟩
  by_cases hk : k = key
  · rw [hk]
    exact .removing (mem_append_right _ (mem_singleton_self _)) (lookup_erase _ _)
  · exact ((hbehind k).lookup rfl (lookup_erase_ne hk)).note fun heq => hk (Option.some.inj heq).symm

lemma Trails.finish {o : ObjectMetadata} (h : Trails strategy s es) (ho : s.objects.lookup key = some o)
    (hopen : s.isComplete key = false) (hes : NoEntry es key) :
    Trails strategy { s with objects := s.objects.update key (·.withStatus .complete) }
      (es ++ [commitEntry key (o.withStatus .complete)]) := by
  obtain ⟨t, log, m, hlog, hreplays, hmirrors, hpacked, hbehind⟩ := h.recovers
  obtain ⟨hnodup, hsome⟩ := h.keys_note (e := commitEntry key (o.withStatus .complete)) rfl hes
  have hrel := (hbehind key).rel hes
  rw [ho] at hrel
  obtain ⟨o₁, ho₁, hagrees⟩ := exists_agrees_left hrel
  have hopen_o : o.hasCompleteReplica = false := by
    rwa [isComplete, ho, any_some] at hopen
  refine ⟨hnodup, hsome, t.insert key o, log, m, hlog, hreplays, ?_, ?_, fun k => ?_⟩
  · refine hmirrors.congr rfl le_rfl fun k => .inl ?_
    by_cases hk : k = key
    · rw [hk, ho₁, lookup_insert]
      exact .some hagrees
    · rw [lookup_insert_ne hk]
      exact rel_agrees_refl _
  · refine hpacked.mono rfl ?_ le_rfl hpacked.next_lt
    rw [footprints_insert_any, ← hagrees.footprint_eq.symm, ← footprints_erase ho₁]
  · by_cases hk : k = key
    · rw [hk]
      refine .committing (mem_append_right _ (mem_singleton_self _)) (lookup_insert _) hopen_o ?_ (.refl _)
      rw [lookup_update, if_pos rfl, ho, map_some]
    · refine ((hbehind k).lookup (lookup_insert_ne hk) ?_).note fun heq => hk (Option.some.inj heq).symm
      rw [lookup_update, if_neg hk]

lemma footprints_of_behind (hbehind : ∀ k, Behind t u es k) (hes : ∀ e ∈ es, isRemoval e = false) :
    footprints t = footprints u := by
  refine footprints_congr fun k => ?_
  cases hbehind k with
  | same _ h =>
    generalize t.lookup k = x at h
    generalize u.lookup k = y at h
    cases h with
    | none => rfl
    | some h => exact congrArg some h.footprint_eq.symm
  | committing _ ht _ hu h =>
    rw [ht, hu, map_some, map_some, h.footprint_eq, footprint_withStatus]
  | removing hmem => cases hes _ hmem

lemma Trails.insert {o : ObjectMetadata} (h : Trails strategy s es) (hopen : o.hasCompleteReplica = false)
    (habsent : s.objects.lookup key = none) (hes : NoEntry es key) (hremovals : ∀ e ∈ es, isRemoval e = false)
    (hs' : Owes False D ({ s with objects := s.objects.insert key o } : MasterService).view)
    (hfew : ({ s with objects := s.objects.insert key o } : MasterService).Few) :
    Trails strategy { s with objects := s.objects.insert key o } es := by
  obtain ⟨t, log, m, hlog, hreplays, hmirrors, hpacked, hbehind⟩ := h.recovers
  have hrel := (hbehind key).rel hes
  have hopen' : ({ s with objects := t } : MasterService).isComplete key = false := by
    have hsame : s.isComplete key = ({ s with objects := t } : MasterService).isComplete key := isComplete_congr hrel
    rw [← hsame, isComplete, habsent]
    rfl
  have hnew : ∀ k, Behind (t.insert key o) (s.objects.insert key o) es k := by
    intro k
    by_cases hk : k = key
    · rw [hk]
      refine .same hes ?_
      rw [lookup_insert, lookup_insert]
      exact rel_agrees_refl _
    · exact (hbehind k).lookup (lookup_insert_ne hk) (lookup_insert_ne hk)
  refine ⟨h.keys_nodup, h.keys_some, t.insert key o, log, m, hlog, hreplays, ?_, ?_, hnew⟩
  · refine hmirrors.congr rfl le_rfl fun k => ?_
    by_cases hk : k = key
    · rw [hk]
      refine .inr ⟨hopen', ?_⟩
      rw [isComplete, lookup_insert]
      exact hopen
    · rw [lookup_insert_ne hk]
      exact Or.inl (rel_agrees_refl _)
  · exact (packed_of_owes hs' hfew).mono rfl (footprints_of_behind hnew hremovals).le le_rfl hs'.next_lt

lemma Trails.noEntry_erase (h : Trails strategy s es) {e : OpLogEntry} (he : e ∈ es) (hkey : entryKey e = some key) :
    NoEntry (es.erase e) key := by
  intro e' he' hkey'
  have hnodup : es.Nodup := h.keys_nodup.of_map
  obtain ⟨hne, hmem⟩ := (hnodup.mem_erase_iff).mp he'
  exact hne (h.entry_unique hmem he (hkey'.trans hkey.symm))

lemma Trails.append {e : OpLogEntry} (h : Trails strategy s es) (he : e ∈ es) :
    Trails strategy { s with oplog := s.oplog.map (· ++ [e]) } (es.erase e) := by
  obtain ⟨t, log, m, hlog, hreplays, hmirrors, hpacked, hbehind⟩ := h.recovers
  obtain ⟨key, hkey⟩ := h.keys_some e he
  -- the entry is applied to the recovered master, and the objects beside it change with it
  suffices hcatch : ∃ t' m', Replays m [e] m' ∧
      Mirrors { s with objects := t' } m' ∧ Packed { s with objects := t' } ∧
      (∀ k, k ≠ key → t'.lookup k = t.lookup k) ∧ Option.Rel Agrees (t'.lookup key) (s.objects.lookup key) by
    obtain ⟨t', m', hentry, hmirrors', hpacked', hne, hrel⟩ := hcatch
    refine ⟨(erase_sublist.map _).nodup h.keys_nodup, fun e' he' => h.keys_some e' (mem_of_mem_erase he'), t',
      log ++ [e], m', ?_, hreplays.append hentry,
      hmirrors'.congr rfl le_rfl fun k => Or.inl (rel_agrees_refl _),
      hpacked'.mono rfl le_rfl le_rfl hpacked'.next_lt, fun k => ?_⟩
    · rw [hlog]
      rfl
    · by_cases hk : k = key
      · rw [hk]
        exact .same (h.noEntry_erase he hkey) hrel
      · refine ((hbehind k).lookup (hne k hk) rfl).append fun heq => hk ?_
        exact Option.some.inj (heq.symm.trans hkey)
  cases hbehind key with
  | same hes => exact absurd hkey (hes e he)
  | removing hmem hu =>
    obtain rfl : e = .removed key := h.entry_unique he hmem hkey
    have hremoved : ∃ m', Replays m ([key].map .removed) m' ∧ Mirrors { s with objects := t.erase key } m' := by
      refine hmirrors.removed [key] rfl le_rfl (fun k hk => ?_) fun k hk => ?_
      · rw [mem_singleton.mp hk, isComplete, lookup_erase]
        rfl
      · rw [lookup_erase_ne fun heq => hk (mem_singleton.mpr heq)]
        exact Or.inl (rel_agrees_refl _)
    obtain ⟨m', hreplays', hmirrors'⟩ := hremoved
    refine ⟨t.erase key, m', hreplays', hmirrors',
      hpacked.mono rfl (footprints_erase_le t key) le_rfl hpacked.next_lt, fun k hk => lookup_erase_ne hk, ?_⟩
    rw [lookup_erase, hu]
    exact .none
  | @committing o o' hmem ht hopen hu hagrees =>
    obtain rfl : e = commitEntry key (o.withStatus .complete) := h.entry_unique he hmem hkey
    have hopen' : ({ s with objects := t } : MasterService).isComplete key = false := by
      rw [isComplete, ht]
      exact hopen
    have hcommit : ∃ m', applyOp (commitEntry key (o.withStatus .complete)) m = some (.ok (), m') ∧
        Mirrors { s with objects := t.update key (·.withStatus .complete) } m' :=
      hmirrors.committed hpacked ht hopen' rfl rfl
    obtain ⟨m', hop, hmirrors'⟩ := hcommit
    have hle : footprints (t.update key (·.withStatus .complete)) ≤ footprints t :=
      (footprints_update (footprint_withStatus .complete) key t).le
    refine ⟨_, m', .single hmirrors.exact hop hmirrors'.exact, hmirrors', hpacked.mono rfl hle le_rfl hpacked.next_lt, fun k hk => ?_, ?_⟩
    · rw [lookup_update, if_neg hk]
    · rw [lookup_update, if_pos rfl, ht, hu]
      exact .some hagrees

/-! ### Any section -/

lemma noted_of_mem {l : Section} (hl : l = .retire key ∨ l = .evict key) (s s' : MasterService) :
    noted (some l) s s' es = if key ∈ s.objects ∧ key ∉ s'.objects then es ++ [.removed key] else es := by
  rcases hl with rfl | rfl
  · rfl
  · rfl

/-- A section in good order keeps the log on the trail. -/
theorem Trails.acts {l : Section} {g g' : Debt} (h : Trails strategy s es) (hacts : Acts s s' l g g')
    (hok : orderly es s l) (hentry : ∀ e, g.entry = some e → e ∈ es)
    (habsent : ∀ k, g.absent = some k → s.objects.lookup k = none) (hs' : Owes False D s'.view) (hfew : s'.Few) :
    Trails strategy s' (noted (some l) s s' es) := by
  cases hacts with
  | quiet hl hquiet => rcases hl with rfl | rfl <;> exact h.quiet hquiet hs'
  | refused hl heq =>
    subst heq
    rcases hl with rfl | hl
    · exact h
    · rw [noted_of_mem hl, if_neg fun hmem => hmem.2 hmem.1]
      exact h
  | reclaim hopen heq =>
    subst heq
    exact h.reclaim hopen fun hmem => hok hmem hopen
  | @take _ key o _ _ hl ho heq =>
    subst heq
    have hmem : key ∈ s.objects := mem_iff_exists_lookup.mpr ⟨o, ho⟩
    have hgone : key ∉ s.objects.erase key := lookup_eq_none.mp (lookup_erase _ _)
    rw [noted_of_mem hl, if_pos ⟨hmem, hgone⟩]
    rcases hl with rfl | rfl
    · exact h.take (hok hmem)
    · exact h.take (hok hmem)
  | @finish key _ _ heq =>
    subst heq
    cases ho : s.objects.lookup key with
    | none =>
      have hnone : s.objects.update key (·.withStatus .complete) = s.objects :=
        update_of_notMem (lookup_eq_none.mp ho) _
      rw [noted, hnone, ho, map_none, toList_none, append_nil]
      exact h
    | some o =>
      obtain ⟨hopen, hes⟩ := hok (mem_iff_exists_lookup.mpr ⟨o, ho⟩)
      rw [noted, lookup_update, if_pos rfl, ho]
      exact h.finish ho hopen hes
  | insert hopen heq =>
    subst heq
    exact h.insert hopen (habsent _ rfl) hok.1 hok.2 hs' hfew
  | append heq =>
    subst heq
    exact h.append (hentry _ rfl)

end trails

end QuillCache.Store.MasterService
