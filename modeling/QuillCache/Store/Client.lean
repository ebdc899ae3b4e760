import QuillCache.Lib.Slices
import QuillCache.Store.MasterSerial

/-!
# `DummyClient`: the in-process client

A master, and one byte arena per mounted segment. `put` writes the bytes into every granted buffer between the two
phases of the master; `get` reads them back from the first readable replica. After every history of calls, a `get` that
answers with bytes answers with those of the last successful put of that key (`get_returns_last_put`), and no call
indexes outside an arena.

Source: `client.rs`.
-/

namespace QuillCache.Store

open Lib Relation AList List Option

abbrev Arenas := Table SegmentName (List UInt8)

structure DummyClient where
  master : MasterService
  arenas : Arenas

/-- The first replica in memory. -/
def firstMemoryBuffer (replicas : List Replica) : Except ErrorCode AllocatedBuffer :=
  match replicas.findSome? fun r => r.data.buffer? with
  | some buffer => .ok buffer
  | none => .error .invalidReplica

/-! ## Calls of the master -/

lemma firstMemoryBuffer_spec {rs : List Replica} (hne : rs ≠ [])
    (hmem : ∀ r ∈ rs, ∃ b, r.data = .memory b) :
    ∃ r ∈ rs, ∃ b, r.data = .memory b ∧ firstMemoryBuffer rs = .ok b := by
  obtain ⟨r, rest, rfl⟩ := exists_cons_of_ne_nil hne
  obtain ⟨b, hb⟩ := hmem r mem_cons_self
  refine ⟨r, mem_cons_self, b, hb, ?_⟩
  rw [firstMemoryBuffer, findSome?_cons_of_isSome (by simp [hb]), hb]
  rfl

namespace MasterService

variable {s m : MasterService} {key : ObjectKey} {identity : IdentityScope} {size : ℕ} {config : ReplicateConfig}

lemma putStart_refused (hs : Sound s.view) {e : ErrorCode}
    (hm : (putStart key identity size config).run s = some (.error e, m)) : Sound m.view ∧
      SameFleet s.segments.allocators m.segments.allocators ∧
      ∀ k o, m.objects.lookup k = some o → s.objects.lookup k = some o := by
  obtain ⟨hsound, ⟨-, rfl, -⟩ | ⟨-, ks, hframe, -, hstarted⟩⟩ := putStart_runs hs _ _ hm
  · exact ⟨hsound, SameFleet.refl _, fun _ _ ho => ho⟩
  · refine ⟨hsound, hframe.frame.fleet, fun k o ho => ?_⟩
    have hne : k ≠ key := by
      rintro rfl
      rw [hstarted.1] at ho
      cases ho
    rw [hframe.lookup_ne k hne] at ho
    split_ifs at ho
    exact ho

lemma putStart_granted (hs : Sound s.view) {bs : List AllocatedBuffer}
    (hm : (putStart key identity size config).run s = some (.ok bs, m)) :
    s.isComplete key = false ∧ Sound m.view ∧ SameFleet s.segments.allocators m.segments.allocators ∧
    Grant size config.replicaNum bs ∧
    (∃ o, m.objects.lookup key = some o ∧ o.hasCompleteReplica = false ∧ o.identity = identity ∧
      ∀ b, b ∈ o.footprint.buffers ↔ b ∈ bs) ∧
    ∀ k o, k ≠ key → m.objects.lookup k = some o → s.objects.lookup k = some o ∧
      ∀ x ∈ o.footprint.buffers, ∀ b ∈ bs, b.segmentName = x.segmentName →
        RangesDisjoint b.offset b.size x.offset x.size := by
  obtain ⟨hsound, ⟨hr, -⟩ | ⟨hopen, ks, hframe, -, hgrant, ⟨o, ho, hfresh⟩, -⟩⟩ := putStart_runs hs _ _ hm
  · cases hr
  have hmem : ∀ b, b ∈ o.footprint.buffers ↔ b ∈ bs := fun b => by
    rw [hfresh.footprint_eq, granted_buffers, Multiset.mem_coe]
  refine ⟨hopen, hsound, hframe.frame.fleet, hgrant, ⟨o, ho, hfresh.hasCompleteReplica, hfresh.identity_eq, hmem⟩,
    fun k o' hne ho' => ⟨?_, fun x hx b hb hname => ?_⟩⟩
  · have hlookup := ho'
    rw [hframe.lookup_ne k hne] at hlookup
    split_ifs at hlookup
    exact hlookup
  · exact hsound.disjoint_of_ne ho ho' hne ((hmem b).mpr hb) hx hname

lemma getReplicaList_keeps (hs : Sound s.view) {r : Except ErrorCode (List Replica)}
    (hm : (getReplicaList key identity).run s = some (r, m)) : Sound m.view ∧
      SameFleet s.segments.allocators m.segments.allocators ∧ ∀ k o, m.objects.lookup k = some o →
        ∃ o₀, s.objects.lookup k = some o₀ ∧ o.identity = o₀.identity ∧ o.footprint = o₀.footprint ∧
          o.hasCompleteReplica = o₀.hasCompleteReplica := by
  refine ⟨sound_runs (balanced_getReplicaList key identity) hs _ _ hm, ?_⟩
  rcases getReplicaList_runs key identity s _ _ hm with ⟨e, -, rfl⟩ | ⟨o, -, -, -, -, rfl⟩
  · exact ⟨SameFleet.refl _, fun k o ho => ⟨o, ho, rfl, rfl, rfl⟩⟩
  · refine ⟨SameFleet.refl _, fun k o' ho' => ?_⟩
    rw [lookup_update] at ho'
    split_ifs at ho'
    · obtain ⟨o₀, ho₀, rfl⟩ := map_eq_some_iff.mp ho'
      exact ⟨o₀, ho₀, rfl, rfl, rfl⟩
    · exact ⟨o', ho', rfl, rfl, rfl⟩

lemma getReplicaList_first (hs : Sound s.view) {replicas : List Replica}
    (hm : (getReplicaList key identity).run s = some (.ok replicas, m)) :
    ∃ o, s.objects.lookup key = some o ∧ o.identity = identity ∧ o.hasCompleteReplica = true ∧
      ∃ b ∈ o.footprint.buffers, firstMemoryBuffer replicas = .ok b := by
  rcases getReplicaList_runs key identity s _ _ hm with ⟨err, hr, -⟩ | ⟨o, ho, hid, hr, hne, -⟩
  · cases hr
  cases hr
  have hread : ∀ r ∈ o.replicas.values.filter (readable (aliveSegments s.clock s.segmentTtl s.segmentHeartbeat)),
      r ∈ o.replicas.values ∧ r.isComplete = true := fun r hr =>
    ⟨mem_of_mem_filter hr, (Bool.and_eq_true_iff.mp (mem_filter.mp hr).2).1⟩
  have ho' : o ∈ s.objects.values := List.mem_map.mpr ⟨⟨key, o⟩, mem_lookup_iff.mp ho, rfl⟩
  obtain ⟨r, hr, b, hb, hfirst⟩ := firstMemoryBuffer_spec hne fun r hr => memory_of_sound hs ho' (hread r hr).1
  exact ⟨o, ho, IdentityScope.reuseViolationAgainst_eq_none_iff.mp hid,
    List.any_eq_true.mpr ⟨r, (hread r hr).1, (hread r hr).2⟩, b, mem_footprint_buffers.mpr ⟨r, (hread r hr).1, hb⟩, hfirst⟩

end MasterService

namespace DummyClient

def new (strategy : String) : DummyClient := ⟨.new strategy, ∅⟩

def onMaster {α : Type} (p : MasterProg α) : Exec DummyClient α :=
  focus master (fun c m => { c with master := m }) p.run

/-- A zeroed arena; more than `isize::MAX` bytes panic. -/
def zeroed (capacity : ℕ) : Option (List UInt8) :=
  if capacity < 2 ^ 63 then some (List.replicate capacity 0) else none

def mount (name : SegmentName) (capacity : ℕ) : Exec DummyClient Unit := do
  onMaster (MasterService.mountSegment name capacity)
  fun c => (zeroed capacity).map fun arena => ((), { c with arenas := c.arenas.insert name arena })

/-- The body of the loop of `put`: write the bytes into one granted buffer. -/
def writeBuffer (data : List UInt8) (buffer : AllocatedBuffer) :
    Exec Arenas (Except ErrorCode Unit) := fun arenas =>
  match arenas.lookup buffer.segmentName with
  | none => some (.error .segmentNotFound, arenas)
  | some arena =>
    if buffer.offset + buffer.size < 2 ^ 64 then
      (writeRange arena buffer.offset (buffer.offset + buffer.size) data).map fun arena' =>
        (.ok (), arenas.insert buffer.segmentName arena')
    else none

def writeBuffers (data : List UInt8) : List AllocatedBuffer → Exec Arenas (Except ErrorCode Unit)
  | [] => return .ok ()
  | buffer :: buffers => do
    match ← writeBuffer data buffer with
    | .error e => return .error e
    | .ok () => writeBuffers data buffers

def put (key : ObjectKey) (identity : IdentityScope) (data : List UInt8) (config : ReplicateConfig) :
    Exec DummyClient (Except ErrorCode Unit) := do
  match ← onMaster (MasterService.putStart key identity data.length config) with
  | .error e => return .error e
  | .ok buffers =>
    match ← focus arenas (fun c as => { c with arenas := as }) (writeBuffers data buffers) with
    | .error e => return .error e
    | .ok () => onMaster (MasterService.putEnd key)

def readBuffer (buffer : AllocatedBuffer) (arenas : Arenas) : Option (Except ErrorCode (List UInt8)) :=
  match arenas.lookup buffer.segmentName with
  | none => some (.error .segmentNotFound)
  | some arena =>
    if buffer.offset + buffer.size < 2 ^ 64 then
      (readRange arena buffer.offset (buffer.offset + buffer.size)).map .ok
    else none

def get (key : ObjectKey) (identity : IdentityScope) :
    Exec DummyClient (Except ErrorCode (List UInt8)) := do
  match ← onMaster (MasterService.getReplicaList key identity) with
  | .error e => return .error e
  | .ok replicas =>
    match firstMemoryBuffer replicas with
    | .error e => return .error e
    | .ok buffer => fun c => (readBuffer buffer c.arenas).map fun r => (r, c)

def remove (key : ObjectKey) (force : Bool) : Exec DummyClient (Except ErrorCode Unit) :=
  onMaster (MasterService.remove key force)

def exist (key : ObjectKey) : Exec DummyClient Bool := onMaster (MasterService.existKey key)

/-! ## Arenas -/

section arenas

variable {as : Arenas} {data : List UInt8} {b x : AllocatedBuffer} {arena : List UInt8}

def arenaLength (as : Arenas) (name : SegmentName) : Option ℕ := (as.lookup name).map List.length

def InArena (as : Arenas) (b : AllocatedBuffer) : Prop :=
  ∃ n, arenaLength as b.segmentName = some n ∧ b.offset + b.size ≤ n ∧ n < 2 ^ 64

lemma InArena.exists_arena (h : InArena as b) : ∃ arena, as.lookup b.segmentName = some arena ∧
    b.offset + b.size ≤ arena.length ∧ b.offset + b.size < 2 ^ 64 := by
  obtain ⟨n, hn, hle, hlt⟩ := h
  obtain ⟨arena, harena, rfl⟩ := map_eq_some_iff.mp hn
  exact ⟨arena, harena, hle, lt_of_le_of_lt hle hlt⟩

lemma writeBuffer_spec (h : InArena as b) (hsize : b.size = data.length) :
    Wp (writeBuffer data b) (fun r as' => r = .ok () ∧ (∀ name, arenaLength as' name = arenaLength as name) ∧
      readBuffer b as' = some (.ok data) ∧
      ∀ x, (b.segmentName = x.segmentName → RangesDisjoint b.offset b.size x.offset x.size) →
        readBuffer x as' = readBuffer x as) as := by
  obtain ⟨arena, harena, hle, hlt⟩ := h.exists_arena
  have hwrite : ∃ arena', writeRange arena b.offset (b.offset + b.size) data = some arena' := by
    rw [hsize]
    exact ⟨_, writeRange_of_le (hsize ▸ hle)⟩
  obtain ⟨arena', hwrite⟩ := hwrite
  refine ⟨.ok (), as.insert b.segmentName arena', ?_, rfl, fun name => ?_, ?_, fun x hx => ?_⟩
  · simp only [writeBuffer, harena, if_pos hlt, hwrite, map_some]
  · by_cases hname : name = b.segmentName
    · rw [hname, arenaLength, arenaLength, lookup_insert, harena, map_some, map_some,
        length_of_writeRange hwrite]
    · rw [arenaLength, arenaLength, lookup_insert_ne hname]
  · simp only [readBuffer, lookup_insert, if_pos hlt, readRange_of_writeRange hwrite,
      map_some]
  · by_cases hname : x.segmentName = b.segmentName
    · have hd := hx hname.symm
      rw [readBuffer, readBuffer, hname, lookup_insert, harena]
      simp only
      rw [readRange_of_disjoint hwrite (by rwa [Nat.add_sub_cancel_left])]
    · rw [readBuffer, readBuffer, lookup_insert_ne hname]

lemma writeBuffers_spec {bs : List AllocatedBuffer} (h : ∀ b ∈ bs, InArena as b)
    (hsize : ∀ b ∈ bs, b.size = data.length) (hnames : (bs.map AllocatedBuffer.segmentName).Nodup) :
    Wp (writeBuffers data bs) (fun r as' => r = .ok () ∧
      (∀ name, arenaLength as' name = arenaLength as name) ∧
      (∀ b ∈ bs, readBuffer b as' = some (.ok data)) ∧
      ∀ x, (∀ b ∈ bs, b.segmentName = x.segmentName → RangesDisjoint b.offset b.size x.offset x.size) →
        readBuffer x as' = readBuffer x as) as := by
  induction bs generalizing as with
  | nil =>
    rw [writeBuffers, wp_pure]
    exact ⟨rfl, fun _ => rfl, by simp, fun _ _ => rfl⟩
  | cons b bs ih =>
    obtain ⟨hb, hnames⟩ := nodup_cons.mp hnames
    rw [writeBuffers]
    refine Wp.call (writeBuffer_spec (h b mem_cons_self) (hsize b mem_cons_self)) ?_
    rintro _ as₁ ⟨rfl, hlen, hread, hframe⟩
    have hin : ∀ c ∈ bs, InArena as₁ c := fun c hc => by
      rw [InArena, hlen]
      exact h c (mem_cons_of_mem _ hc)
    refine (ih hin (fun c hc => hsize c (mem_cons_of_mem _ hc)) hnames).mono ?_
    rintro _ as₂ ⟨rfl, hlen₂, hread₂, hframe₂⟩
    refine ⟨rfl, fun name => (hlen₂ name).trans (hlen name), fun c hc => ?_, fun x hx => ?_⟩
    · rcases mem_cons.mp hc with rfl | hc
      · -- the later writes go to other segments
        rw [hframe₂ c fun d hd hname => absurd (List.mem_map.mpr ⟨d, hd, hname⟩) hb]
        exact hread
      · exact hread₂ c hc
    · rw [hframe₂ x fun d hd => hx d (mem_cons_of_mem _ hd), hframe x (hx b mem_cons_self)]

end arenas

/-! ## Histories -/

inductive Event where
  | put (key : ObjectKey) (identity : IdentityScope) (data : List UInt8)
  | remove (key : ObjectKey)
  | evict (key : ObjectKey)

def Event.key : Event → ObjectKey
  | .put key _ _ => key
  | .remove key => key
  | .evict key => key

/-- The other objects that are gone after a `put` of `key`. -/
def evictions (key : ObjectKey) (c c' : DummyClient) : List Event :=
  (c.master.objects.keys.filter fun k => k ≠ key ∧ k ∉ c'.master.objects).map .evict

/-- One call, with the events it adds to the history. A call that panics has no step, and neither has
the mount of a mounted name. -/
inductive Step : DummyClient × List Event → DummyClient × List Event → Prop where
  | mount {c c' : DummyClient} {h : List Event} {name : SegmentName} {capacity : ℕ}
      (hname : name ∉ c.master.segments.names) (hcap : capacity < 2 ^ 64)
      (hrun : mount name capacity c = some ((), c')) : Step (c, h) (c', h)
  | put {c c' : DummyClient} {h : List Event} {key : ObjectKey} {identity : IdentityScope}
      {data : List UInt8} {config : ReplicateConfig} {r : Except ErrorCode Unit}
      (hrun : put key identity data config c = some (r, c')) :
      Step (c, h) (c', h ++ evictions key c c' ++
        match r with
        | .ok () => [.put key identity data]
        | .error _ => [])
  | get {c c' : DummyClient} {h : List Event} {key : ObjectKey} {identity : IdentityScope}
      {r : Except ErrorCode (List UInt8)} (hrun : get key identity c = some (r, c')) :
      Step (c, h) (c', h)
  | remove {c c' : DummyClient} {h : List Event} {key : ObjectKey} {force : Bool}
      {r : Except ErrorCode Unit} (hrun : remove key force c = some (r, c')) :
      Step (c, h) (c', h ++
        match r with
        | .ok () => [.remove key]
        | .error _ => [])
  | exist {c c' : DummyClient} {h : List Event} {key : ObjectKey} {r : Bool}
      (hrun : exist key c = some (r, c')) : Step (c, h) (c', h)
  | tick {c c' : DummyClient} {h : List Event} {r : ℕ}
      (hrun : onMaster MasterService.tick c = some (r, c')) : Step (c, h) (c', h)
  | shuffle {c : DummyClient} {h : List Event} {m : MasterService} (hm : Shuffle c.master m) :
      Step (c, h) ({ c with master := m }, h)

/-- The last event about `key` is a successful put of `data` by `identity`. -/
def LastPut (h : List Event) (key : ObjectKey) (identity : IdentityScope) (data : List UInt8) : Prop :=
  ∃ h₁ h₂, h = h₁ ++ .put key identity data :: h₂ ∧ ∀ e ∈ h₂, e.key ≠ key

lemma lastPut_append (h : List Event) (key : ObjectKey) (identity : IdentityScope) (data : List UInt8) :
    LastPut (h ++ [.put key identity data]) key identity data :=
  ⟨h, [], rfl, by simp⟩

lemma LastPut.append {h es : List Event} {key : ObjectKey} {identity : IdentityScope}
    {data : List UInt8} (hl : LastPut h key identity data) (hes : ∀ e ∈ es, e.key ≠ key) :
    LastPut (h ++ es) key identity data := by
  obtain ⟨h₁, h₂, rfl, hh₂⟩ := hl
  refine ⟨h₁, h₂ ++ es, by simp, fun e he => ?_⟩
  rcases mem_append.mp he with he | he
  · exact hh₂ e he
  · exact hes e he

/-- What holds between calls: the arenas match the segments, and every object is the last successful put
of its key, with its bytes in every buffer. -/
structure Inv (c : DummyClient) (h : List Event) : Prop where
  sound : Sound c.master.view
  arenas_eq : ∀ a ∈ c.master.segments.allocators,
    arenaLength c.arenas a.segmentName = some a.inner.capacity
  content : ∀ k o, c.master.objects.lookup k = some o → ∃ data, LastPut h k o.identity data ∧
    ∀ b ∈ o.footprint.buffers, readBuffer b c.arenas = some (.ok data)

section steps

variable {c c' : DummyClient} {h : List Event}

lemma onMaster_eq_some {α : Type} {p : MasterProg α} {r : α} :
    onMaster p c = some (r, c') ↔ ∃ m, p.run c.master = some (r, m) ∧ c' = { c with master := m } := focus_eq_some

variable {m : MasterService}

lemma Inv.arenas_of_sameFleet (hi : Inv c h) (hsame : SameFleet c.master.segments.allocators m.segments.allocators) :
    ∀ a ∈ m.segments.allocators, arenaLength c.arenas a.segmentName = some a.inner.capacity := by
  intro a ha
  obtain ⟨a₀, ha₀, hs⟩ := hsame.exists_same ha
  rw [hs.segmentName_eq, hs.capacity_eq]
  exact hi.arenas_eq a₀ ha₀

lemma Inv.keep (hi : Inv c h) {es : List Event} (hs : Sound m.view)
    (hsame : SameFleet c.master.segments.allocators m.segments.allocators)
    (hobjects : ∀ k o, m.objects.lookup k = some o → (∀ e ∈ es, e.key ≠ k) ∧
      ∃ o₀, c.master.objects.lookup k = some o₀ ∧ o.identity = o₀.identity ∧
        o.footprint = o₀.footprint) : Inv { c with master := m } (h ++ es) := by
  refine ⟨hs, hi.arenas_of_sameFleet hsame, fun k o ho => ?_⟩
  obtain ⟨hes, o₀, ho₀, hid, hfp⟩ := hobjects k o ho
  obtain ⟨data, hlast, hread⟩ := hi.content k o₀ ho₀
  exact ⟨data, hid ▸ hlast.append hes, fun b hb => hread b (hfp ▸ hb)⟩

lemma inv_mount {name : SegmentName} {capacity : ℕ} (hi : Inv c h)
    (hname : name ∉ c.master.segments.names) (hcap : capacity < 2 ^ 64)
    (hrun : mount name capacity c = some ((), c')) : Inv c' h := by
  obtain ⟨_, c₁, hmaster, harena⟩ := bind_eq_some.mp hrun
  obtain ⟨m, hm, rfl⟩ := onMaster_eq_some.mp hmaster
  obtain ⟨hsound, a, hnew, rfl⟩ := MasterService.mountSegment_runs hi.sound hname hcap _ _ hm
  obtain ⟨arena, hz, hr⟩ := map_eq_some_iff.mp harena
  cases hr
  rw [zeroed] at hz
  split_ifs at hz
  cases hz
  have hspec : ∃ a, OffsetBufferAllocator.new name capacity = some a ∧ a.Valid False ∧ _ :=
    OffsetBufferAllocator.new_spec name hcap
  obtain ⟨a', hnew', -, hseg, hcapacity, -⟩ := hspec
  rw [hnew] at hnew'
  cases hnew'
  -- the arenas of the other segments are not touched
  have hother : ∀ b ∈ c.master.segments.allocators, b.segmentName ≠ name := by
    rintro b hb rfl
    exact hname (List.mem_map.mpr ⟨b, hb, rfl⟩)
  refine ⟨hsound, fun b hb => ?_, fun k o ho => ?_⟩
  · rcases mem_append.mp hb with hb | hb
    · rw [arenaLength, lookup_insert_ne (hother b hb)]
      exact hi.arenas_eq b hb
    · rw [mem_singleton.mp hb, hseg, hcapacity, arenaLength, lookup_insert]
      simp
  · obtain ⟨data, hlast, hread⟩ := hi.content k o ho
    refine ⟨data, hlast, fun b hb => ?_⟩
    obtain ⟨b₀, hb₀, hbname, -⟩ := hi.sound.fleet.bounds (hi.sound.mem_live ho hb)
    rw [readBuffer, lookup_insert_ne (hbname ▸ hother b₀ hb₀)]
    exact hread b hb

variable {key : ObjectKey}

lemma evictions_key {e : Event} (he : e ∈ evictions key c c') : e.key ∉ c'.master.objects := by
  obtain ⟨k, hk, rfl⟩ := List.mem_map.mp he
  exact (of_decide_eq_true (mem_filter.mp hk).2).2

lemma evictions_ne (key : ObjectKey) {k : ObjectKey} {o : ObjectMetadata} (ho : c'.master.objects.lookup k = some o) :
    ∀ e ∈ evictions key c c', e.key ≠ k := by
  rintro e he rfl
  exact evictions_key he (mem_iff_exists_lookup.mpr ⟨o, ho⟩)

def putEvents (key : ObjectKey) (identity : IdentityScope) (data : List UInt8) :
    Except ErrorCode Unit → List Event
  | .ok () => [.put key identity data]
  | .error _ => []

variable {identity : IdentityScope}

lemma Inv.put_error {size : ℕ} {config : ReplicateConfig} {e : ErrorCode} (hi : Inv c h)
    (hm : (MasterService.putStart key identity size config).run c.master = some (.error e, m)) :
    Inv { c with master := m } (h ++ evictions key c { c with master := m }) := by
  obtain ⟨hsound, hfleet, hobjects⟩ := MasterService.putStart_refused hi.sound hm
  exact hi.keep hsound hfleet fun k o ho => ⟨evictions_ne key ho, o, hobjects k o ho, rfl, rfl⟩

lemma Inv.put_ok {data : List UInt8} {config : ReplicateConfig} {bs : List AllocatedBuffer} (hi : Inv c h)
    (hm : (MasterService.putStart key identity data.length config).run c.master = some (.ok bs, m)) :
    Wp (put key identity data config) (fun r c' => r = .ok () ∧
      Inv c' (h ++ evictions key c c' ++ [.put key identity data])) c := by
  obtain ⟨-, hsound, hfleet, hgrant, ⟨o, ho, -, hid, hmem⟩, hothers⟩ := MasterService.putStart_granted hi.sound hm
  have harenas := hi.arenas_of_sameFleet hfleet
  have hin : ∀ b ∈ bs, InArena c.arenas b := fun b hb => by
    obtain ⟨a, ha, hname, -, hle⟩ := hsound.fleet.bounds (hsound.mem_live ho ((hmem b).mpr hb))
    exact ⟨a.inner.capacity, hname ▸ harenas a ha, hle, (hsound.fleet.valid a ha).capacity_lt⟩
  have hstart : Wp (onMaster (MasterService.putStart key identity data.length config))
      (fun r c₁ => r = .ok bs ∧ c₁ = { c with master := m }) c :=
    ⟨_, _, onMaster_eq_some.mpr ⟨m, hm, rfl⟩, rfl, rfl⟩
  rw [put]
  refine Wp.call hstart ?_
  rintro _ _ ⟨rfl, rfl⟩
  change Wp (focus _ _ (writeBuffers data bs) >>= _) _ _
  rw [wp_bind, wp_focus]
  refine (writeBuffers_spec hin hgrant.size_eq hgrant.names_nodup).mono ?_
  rintro _ as' ⟨rfl, hlen, hread, hkeep⟩
  change Wp (onMaster (MasterService.putEnd key)) _ _
  rw [onMaster, wp_focus]
  refine (MasterService.putEnd_completes key m).mono ?_
  rintro _ m' (⟨hnone, -⟩ | ⟨o', ho', rfl, rfl⟩)
  · rw [ho] at hnone
    cases hnone
  rw [ho] at ho'
  cases ho'
  refine ⟨rfl, ?_, fun a ha => (hlen _).trans (harenas a ha), fun k o' hk => ?_⟩
  · have hview : footprints (m.objects.update key (·.withStatus .complete)) = footprints m.objects :=
      footprints_update (footprint_withStatus .complete) key m.objects
    rw [MasterService.view, hview]
    exact hsound
  have hev := evictions_ne (c := c) key hk
  rw [lookup_update] at hk
  split_ifs at hk with hkey
  · -- the new object
    subst hkey
    rw [ho] at hk
    cases hk
    refine ⟨data, ?_, fun b hb => ?_⟩
    · rw [show (o.withStatus .complete).identity = identity from hid]
      exact lastPut_append _ k identity data
    · rw [footprint_withStatus] at hb
      exact hread b ((hmem b).mp hb)
  · -- an object of before that was not evicted
    obtain ⟨hk₀, hdisj⟩ := hothers k o' hkey hk
    obtain ⟨data', hlast, hread'⟩ := hi.content k o' hk₀
    refine ⟨data', (hlast.append hev).append ?_, fun b hb => ?_⟩
    · rintro e he rfl
      rw [mem_singleton.mp he] at hkey
      exact hkey rfl
    · exact (hkeep b fun b' hb' => hdisj b hb b' hb').trans (hread' b hb)

lemma Inv.read {r : Except ErrorCode (List Replica)} (hi : Inv c h)
    (hm : (MasterService.getReplicaList key identity).run c.master = some (r, m)) : Inv { c with master := m } h := by
  rw [← append_nil h]
  obtain ⟨hsound, hfleet, hobjects⟩ := MasterService.getReplicaList_keeps hi.sound hm
  refine hi.keep hsound hfleet fun k o ho => ⟨by simp, ?_⟩
  obtain ⟨o₀, ho₀, hid, hfp, -⟩ := hobjects k o ho
  exact ⟨o₀, ho₀, hid, hfp⟩

lemma Inv.get_spec {r₀ : Except ErrorCode (List Replica)} (hi : Inv c h)
    (hm : (MasterService.getReplicaList key identity).run c.master = some (r₀, m)) :
    Wp (get key identity) (fun r c' => c' = { c with master := m } ∧
      ∀ bytes, r = .ok bytes → LastPut h key identity bytes) c := by
  have hcall : Wp (onMaster (MasterService.getReplicaList key identity))
      (fun r c₁ => r = r₀ ∧ c₁ = { c with master := m }) c :=
    ⟨_, _, onMaster_eq_some.mpr ⟨m, hm, rfl⟩, rfl, rfl⟩
  rw [get]
  refine Wp.call hcall ?_
  rintro r _ ⟨rfl, rfl⟩
  cases r with
  | error e => exact wp_pure.mpr ⟨rfl, by simp⟩
  | ok replicas =>
    obtain ⟨o, ho, rfl, -, b, hb, hfirst⟩ := MasterService.getReplicaList_first hi.sound hm
    obtain ⟨data, hlast, hread⟩ := hi.content key o ho
    simp only [hfirst]
    refine ⟨.ok data, _, map_eq_some_iff.mpr ⟨_, hread b hb, rfl⟩, rfl, fun bytes hr => ?_⟩
    cases hr
    exact hlast

/-- **One call keeps the invariant.** -/
lemma Inv.step {x x' : DummyClient × List Event} (hi : Inv x.1 x.2) (hstep : Step x x') :
    Inv x'.1 x'.2 := by
  cases hstep with
  | mount hname hcap hrun => exact inv_mount hi hname hcap hrun
  | @put c c' h key identity data config r hrun =>
    obtain ⟨r₀, c₀, hstart, hrest⟩ := bind_eq_some.mp hrun
    obtain ⟨m, hm, rfl⟩ := onMaster_eq_some.mp hstart
    cases r₀ with
    | error e =>
      cases hrest
      rw [append_nil]
      exact hi.put_error hm
    | ok bs =>
      obtain ⟨rfl, hinv⟩ := (hi.put_ok hm).pc _ _ hrun
      exact hinv
  | @get c c' h key identity r hrun =>
    obtain ⟨r₀, c₀, hcall, -⟩ := bind_eq_some.mp hrun
    obtain ⟨m, hm, -⟩ := onMaster_eq_some.mp hcall
    obtain ⟨rfl, -⟩ := (hi.get_spec hm).pc _ _ hrun
    exact hi.read hm
  | @remove c c' h key force r hrun =>
    obtain ⟨m, hm, rfl⟩ := onMaster_eq_some.mp hrun
    obtain ⟨hsound, ⟨e, rfl, rfl⟩ | ⟨o, -, -, rfl, hdrops⟩⟩ :=
      MasterService.remove_runs hi.sound _ _ hm
    · exact hi.keep hsound (SameFleet.refl _) fun k o ho => ⟨by simp, o, ho, rfl, rfl⟩
    · refine hi.keep hsound hdrops.frame.fleet fun k o' ho' => ?_
      rw [hdrops.objects_eq] at ho'
      obtain ⟨hne, ho'⟩ := lookup_erase_eq_some.mp ho'
      exact ⟨by simpa [Event.key] using hne.symm, o', ho', rfl, rfl⟩
  | @exist c c' h key r hrun =>
    obtain ⟨m, hm, rfl⟩ := onMaster_eq_some.mp hrun
    have hsame := MasterService.runs_read (Q := fun _ s => s = c.master) |>.mpr (fun _ _ => rfl) _ _ hm
    exact hsame ▸ hi
  | @tick c c' h r hrun =>
    obtain ⟨m, hm, rfl⟩ := onMaster_eq_some.mp hrun
    have hm' := MasterService.tick_runs c.master _ _ hm
    subst hm'
    exact ⟨hi.sound, hi.arenas_eq, hi.content⟩
  | @shuffle c h m hm =>
    rw [← append_nil h]
    have hsound : Sound m.view := view_shuffle hm ▸ hi.sound
    refine hi.keep hsound (by rw [hm.rest]; exact SameFleet.refl _) fun k o ho => ⟨by simp, ?_⟩
    obtain ⟨o₀, ho₀, hshuffled⟩ := hm.exists_before ho
    exact ⟨o₀, ho₀, by rw [hshuffled.2], footprint_eq_of_shuffled hshuffled⟩

end steps

lemma inv_new (strategy : String) : Inv (new strategy) [] :=
  ⟨MasterService.sound_new strategy, by simp [new, MasterService.new], by simp [new, MasterService.new]⟩

lemma inv_reachable {strategy : String} {x : DummyClient × List Event}
    (hrun : ReflTransGen Step (new strategy, []) x) : Inv x.1 x.2 := by
  induction hrun with
  | refl => exact inv_new strategy
  | tail _ hstep ih => exact ih.step hstep

/-- **No corruption**: after any history of calls, a `get` that answers with bytes answers with those of
the last successful put of that key, made by the same identity, with no remove or eviction of the key
since. A call of `get` or `put` panics only if the master's part of it does, so neither of them ever
indexes outside an arena. -/
theorem get_returns_last_put (strategy : String) (c : DummyClient) (h : List Event)
    (hrun : ReflTransGen Step (new strategy, []) (c, h)) :
    (∀ key identity bytes c', get key identity c = some (.ok bytes, c') →
      LastPut h key identity bytes) ∧
    (∀ key identity, ((MasterService.getReplicaList key identity).run c.master).isSome →
      (get key identity c).isSome) ∧
    (∀ key identity data config,
      ((MasterService.putStart key identity data.length config).run c.master).isSome →
        (put key identity data config c).isSome) := by
  have hi : Inv c h := inv_reachable hrun
  refine ⟨fun key identity bytes c' hget => ?_, fun key identity hsome => ?_,
    fun key identity data config hsome => ?_⟩
  · obtain ⟨r₀, c₀, hcall, -⟩ := bind_eq_some.mp hget
    obtain ⟨m, hm, -⟩ := onMaster_eq_some.mp hcall
    exact ((hi.get_spec hm).pc _ _ hget).2 bytes rfl
  · obtain ⟨⟨r₀, m⟩, hm⟩ := isSome_iff_exists.mp hsome
    obtain ⟨r, c', hget, -⟩ := hi.get_spec hm
    exact isSome_iff_exists.mpr ⟨_, hget⟩
  · obtain ⟨⟨r₀, m⟩, hm⟩ := isSome_iff_exists.mp hsome
    cases r₀ with
    | ok bs =>
      obtain ⟨r, c', hput, -⟩ := hi.put_ok hm
      exact isSome_iff_exists.mpr ⟨_, hput⟩
    | error e =>
      have hcall := onMaster_eq_some.mpr ⟨m, hm, rfl⟩
      exact isSome_iff_exists.mpr ⟨_, bind_eq_some.mpr ⟨_, _, hcall, rfl⟩⟩

def threeBytes : Exec DummyClient (Except ErrorCode (List UInt8)) := do
  mount "seg-0" 4096
  let _ ← put "k" ⟨"m", "t", none, "u"⟩ [1, 2, 3] {}
  get "k" ⟨"m", "t", none, "u"⟩

theorem get_returns_last_put_threeBytes :
    ∃ c c' h, ReflTransGen Step (new "random", []) (c, h) ∧
      get "k" ⟨"m", "t", none, "u"⟩ c = some (.ok [1, 2, 3], c') ∧
      LastPut h "k" ⟨"m", "t", none, "u"⟩ [1, 2, 3] := by
  have hrun : ((threeBytes (new "random")).any fun r => r.1 = .ok [1, 2, 3]) = true := by
    decide +kernel
  obtain ⟨⟨r, c₃⟩, hthree, hr⟩ : ∃ x, threeBytes (new "random") = some x ∧ x.1 = .ok [1, 2, 3] := by
    simpa [Option.any_eq_true] using hrun
  obtain rfl : r = .ok [1, 2, 3] := hr
  unfold threeBytes at hthree
  obtain ⟨_, c₁, hmount, hrest⟩ := bind_eq_some.mp hthree
  obtain ⟨r, c₂, hput, hget⟩ := bind_eq_some.mp hrest
  have hreach := (ReflTransGen.single (Step.mount (h := []) (by simp [new, MasterService.new,
    SegmentState.names]) (by norm_num) hmount)).tail (Step.put hput)
  exact ⟨c₂, c₃, _, hreach, hget, (get_returns_last_put "random" c₂ _ hreach).1 _ _ _ _ hget⟩

end DummyClient

end QuillCache.Store
