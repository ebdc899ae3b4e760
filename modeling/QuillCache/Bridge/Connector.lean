import QuillCache.Store.MasterHistory

/-!
# Connectors that save prefixes

The save path of `QuillCacheV1Connector` (`quillcache_v1_connector.py`): in one step of the engine, the layers of one or
more prefixes are put one after the other, and then a manifest for each prefix. A request that the master refuses ends
the step. A later request that finds the manifest of a prefix claims that all of its layers can be loaded.

A put that needs room evicts the coldest objects, which are the first layers, and leaves the manifest
(`hit_without_layers`). The claim is true as long as every put finds room and no put in progress under its key
(`hit_loads_all_layers`).
-/

namespace QuillCache.Bridge

open Lib Store Store.MasterService Relation AList Function List Option

/-! ## The save path -/

def layerKey (keyPrefix layerName : String) : ObjectKey := keyPrefix ++ "/" ++ layerName

def manifestKey (keyPrefix : String) : ObjectKey := keyPrefix ++ "/__manifest__"

/-- The requests of the save path. The bytes are written between the two. -/
inductive Request where
  | putStart (key : ObjectKey) (size : ℕ)
  | putEnd (key : ObjectKey)
  deriving DecidableEq

def putBytes (key : ObjectKey) (size : ℕ) : List Request := [.putStart key size, .putEnd key]

/-- A prefix to be saved: the sizes of its layers and of its manifest. -/
structure Save where
  keyPrefix : String
  layerSize : String → ℕ
  manifestSize : ℕ

/-- The requests of one engine step: `save_kv_layer` for each layer, then `wait_for_save`.
Source: `quillcache_v1_connector.py` `save_kv_layer`, `wait_for_save` -/
def saveRequests (layers : List String) (saves : List Save) : List Request :=
  (layers.flatMap fun layer => saves.flatMap fun save =>
    putBytes (layerKey save.keyPrefix layer) (save.layerSize layer)) ++
  saves.flatMap fun save => putBytes (manifestKey save.keyPrefix) save.manifestSize

/-- The identity of a connector, and how many replicas it asks for. -/
structure Connector where
  identity : IdentityScope
  replicaNum : ℕ

def Connector.config (c : Connector) : ReplicateConfig := ⟨c.replicaNum, false, false, none⟩

/-- A master, and what each connector has left to do in its step. -/
structure Deployment where
  master : MasterService
  todo : ℕ → List Request

/-- What happens next: a segment is mounted, a connector begins a step, makes its next request or loses its
step (a write has failed), somebody reads, or time goes on. -/
inductive Act where
  | mountSegment (name : SegmentName) (capacity : ℕ)
  | save (i : ℕ) (saves : List Save)
  | next (i : ℕ)
  | fail (i : ℕ)
  | getReplicaList (key : ObjectKey) (requester : IdentityScope)
  | tick

namespace Deployment

def new (strategy : String) : Deployment := ⟨.new strategy, fun _ => []⟩

/-- The answer to a request of connector `i`: an error raises and ends the step. -/
def answered {α : Type} (d : Deployment) (i : ℕ) (rest : List Request)
    (r : Except ErrorCode α × MasterService) : Deployment :=
  ⟨r.2, Function.update d.todo i (if r.1.isOk then rest else [])⟩

section act

variable (layersOf : IdentityScope → List String) (conn : ℕ → Connector)

def next (d : Deployment) (i : ℕ) : Option Deployment :=
  match d.todo i with
  | [] => none
  | .putStart key size :: rest =>
    ((putStart key (conn i).identity size (conn i).config).run d.master).map (d.answered i rest)
  | .putEnd key :: rest => ((putEnd key).run d.master).map (d.answered i rest)

/-- One act. The layers of a prefix are those of the model, which the identity names. -/
def act (d : Deployment) : Act → Option Deployment
  | .mountSegment name capacity =>
    ((mountSegment name capacity).run d.master).map fun r => { d with master := r.2 }
  | .save i saves =>
    if d.todo i = [] then
      some { d with todo := Function.update d.todo i (saveRequests (layersOf (conn i).identity) saves) }
    else none
  | .next i => d.next conn i
  | .fail i => some { d with todo := Function.update d.todo i [] }
  | .getReplicaList key requester =>
    ((getReplicaList key requester).run d.master).map fun r => { d with master := r.2 }
  | .tick => (MasterService.tick.run d.master).map fun r => { d with master := r.2 }

/-- An act that is `allowed`; or the hash maps change their iteration order. -/
inductive Step (allowed : Act → Deployment → Prop) : Deployment → Deployment → Prop where
  | act {d d' : Deployment} (a : Act) (hallowed : allowed a d) (h : d.act layersOf conn a = some d') :
      Step allowed d d'
  | shuffle {d : Deployment} {m : MasterService} (h : Shuffle d.master m) :
      Step allowed d { d with master := m }

/-- The put is refused because the object is there, or there is neither an object in flight under its key nor
a need to evict. -/
def Roomy (s : MasterService) (key : ObjectKey) (size replicaNum : ℕ) : Prop :=
  s.isComplete key = true ∨ s.objects.lookup key = none ∧ HasRoom s size replicaNum

instance (s : MasterService) (key : ObjectKey) (size replicaNum : ℕ) : Decidable (Roomy s key size replicaNum) :=
  inferInstanceAs (Decidable (_ ∨ _))

def RoomFor (replicaNum : ℕ) (s : MasterService) : Request → Prop
  | .putStart key size => Roomy s key size replicaNum
  | .putEnd _ => True

instance (replicaNum : ℕ) (s : MasterService) : ∀ r, Decidable (RoomFor replicaNum s r)
  | .putStart _ _ => inferInstanceAs (Decidable (Roomy ..))
  | .putEnd _ => inferInstanceAs (Decidable True)

def Unhurried : Act → Deployment → Prop
  | .mountSegment name capacity, d => name ∉ d.master.segments.names ∧ capacity < 2 ^ 64
  | .next i, d => ∀ r ∈ (d.todo i).head?, RoomFor (conn i).replicaNum d.master r
  | _, _ => True

instance : ∀ a d, Decidable (Unhurried conn a d)
  | .mountSegment _ _, _ => inferInstanceAs (Decidable (_ ∧ _))
  | .next _, _ => inferInstanceAs (Decidable (∀ r ∈ _, _))
  | .save _ _, _ | .fail _, _ | .getReplicaList _ _, _ | .tick, _ => inferInstanceAs (Decidable True)

variable (allowed : Act → Deployment → Prop) [∀ a d, Decidable (allowed a d)]

def play : List Act → Deployment → Option Deployment
  | [], d => some d
  | a :: as, d => if allowed a d then (d.act layersOf conn a).bind (play as) else none

variable {layersOf conn allowed}

lemma steps_of_play {as : List Act} {d d' : Deployment} (h : d.play layersOf conn allowed as = some d') :
    ReflTransGen (Step layersOf conn allowed) d d' := by
  induction as generalizing d with
  | nil =>
    cases h
    exact .refl
  | cons a as ih =>
    rw [play] at h
    split_ifs at h with hallowed
    obtain ⟨d₁, hact, hrest⟩ := bind_eq_some_iff.mp h
    exact .head (.act a hallowed hact) (ih hrest)

end act

end Deployment

/-! ## Keys -/

lemma eq_of_append_cons_eq {α : Type} {a b xs ys : List α} {c : α} (hxs : c ∉ xs) (hys : c ∉ ys)
    (h : a ++ c :: xs = b ++ c :: ys) : xs = ys := by
  rcases append_eq_append_iff.mp h with ⟨a', -, hcons⟩ | ⟨a', -, hcons⟩
  · cases a' with
    | nil => exact (List.cons.inj hcons).2
    | cons x a' => exact absurd ((List.cons.inj hcons).2 ▸ by simp) hxs
  · cases a' with
    | nil => exact (List.cons.inj hcons).2.symm
    | cons x a' => exact absurd ((List.cons.inj hcons).2 ▸ by simp) hys

def LayerName (l : String) : Prop := '/' ∉ l.toList ∧ l ≠ "__manifest__"

lemma layerKey_ne_manifestKey {p p' l : String} (hl : LayerName l) : layerKey p l ≠ manifestKey p' := by
  intro h
  have hlists : p.toList ++ '/' :: l.toList = p'.toList ++ '/' :: "__manifest__".toList := by
    have := congrArg String.toList h
    simpa [layerKey, manifestKey] using this
  exact hl.2 (String.toList_injective (eq_of_append_cons_eq hl.1 (by decide) hlists))

lemma manifestKey_injective : Function.Injective manifestKey := by
  intro p p' h
  have hlists : p.toList ++ "/__manifest__".toList = p'.toList ++ "/__manifest__".toList := by
    have := congrArg String.toList h
    simpa [manifestKey] using this
  exact String.toList_injective (append_cancel_right hlists)

/-! ## What a reader finds -/

/-- Segments are alive as long as they are mounted. -/
structure Beating (s : MasterService) : Prop where
  sound : Sound s.view
  segmentTtl_eq : s.segmentTtl = 0
  heartbeat : ∀ name ∈ s.segments.names, name ∈ s.segmentHeartbeat

def Begun (identity : IdentityScope) (key : ObjectKey) (s : MasterService) : Prop :=
  ∃ o, s.objects.lookup key = some o ∧ o.identity = identity ∧ o.footprint ≠ 0

/-- The object is there, and all of its replicas are complete. -/
def Saved (identity : IdentityScope) (key : ObjectKey) (s : MasterService) : Prop :=
  ∃ o, s.objects.lookup key = some o ∧ o.identity = identity ∧ o.footprint ≠ 0 ∧
    ∀ r ∈ o.replicas.values, r.isComplete = true

section reading

variable {s : MasterService} {key : ObjectKey} {identity : IdentityScope} {o : ObjectMetadata}

lemma getReplicaList_run (key : ObjectKey) (requester : IdentityScope) (s : MasterService) :
    (getReplicaList key requester).run s =
      (readObject key requester s.clock s.leaseTtl (aliveSegments s.clock s.segmentTtl s.segmentHeartbeat)
        s.objects).map fun r => (r.1, { s with objects := r.2 }) := by
  simp only [getReplicaList, now, MasterService.read, look, onObjects, Prog.run_bind, Prog.run_section]
  rfl

lemma values_eq_nil_iff : o.replicas.values = [] ↔ o.footprint = 0 := by
  rw [AList.values, map_eq_nil_iff, ObjectMetadata.footprint, AList.items, Multiset.map_coe, Multiset.coe_eq_zero,
    map_eq_nil_iff]

lemma Beating.readable (hb : Beating s) (ho : s.objects.lookup key = some o) {r : Replica}
    (hr : r ∈ o.replicas.values) (hc : r.isComplete = true) :
    readable (aliveSegments s.clock s.segmentTtl s.segmentHeartbeat) r = true := by
  have hmem : o ∈ s.objects.values := List.mem_map.mpr ⟨⟨key, o⟩, mem_lookup_iff.mp ho, rfl⟩
  obtain ⟨b, hdata⟩ := memory_of_sound hb.sound hmem hr
  obtain ⟨a, ha, hname, -⟩ := hb.sound.fleet.bounds
    (hb.sound.mem_live ho (mem_footprint_buffers.mpr ⟨r, hr, hdata⟩))
  have hbeat := hb.heartbeat b.segmentName (hname ▸ List.mem_map_of_mem ha)
  obtain ⟨t, ht⟩ := mem_iff_exists_lookup.mp hbeat
  have hsegment : r.segmentName = some b.segmentName := by rw [Replica.segmentName, hdata]; rfl
  simp only [MasterService.readable, hc, hsegment, Bool.true_and, decide_eq_true_eq]
  exact List.mem_map.mpr ⟨⟨_, t⟩, mem_filter.mpr ⟨mem_lookup_iff.mp ht, by simp [hb.segmentTtl_eq]⟩, rfl⟩

lemma clock_of_get {replicas : List Replica} {s' : MasterService}
    (h : (getReplicaList key identity).run s = some (.ok replicas, s')) : s.clock + s.leaseTtl < 2 ^ 64 := by
  rw [getReplicaList_run] at h
  obtain ⟨⟨r, t⟩, hread, hr⟩ := map_eq_some_iff.mp h
  cases hr
  rw [readObject] at hread
  split at hread
  · cases hread
  · split at hread
    · cases hread
    · dsimp only at hread
      split_ifs at hread with hempty hclock
      · cases hread
      · exact hclock

lemma Beating.get_saved (hb : Beating s) (hsaved : Saved identity key s) (hclock : s.clock + s.leaseTtl < 2 ^ 64) :
    ∃ replicas s', (getReplicaList key identity).run s = some (.ok replicas, s') := by
  obtain ⟨o, ho, hid, hne, hc⟩ := hsaved
  obtain ⟨r, hr⟩ := exists_mem_of_ne_nil _ (values_eq_nil_iff.not.mpr hne)
  have hnil : (o.replicas.values.filter
      (MasterService.readable (aliveSegments s.clock s.segmentTtl s.segmentHeartbeat))).isEmpty = false := by
    rw [isEmpty_eq_false_iff]
    exact ne_nil_of_mem (mem_filter.mpr ⟨hr, hb.readable ho hr (hc r hr)⟩)
  rw [getReplicaList_run, readObject]
  simp only [ho, IdentityScope.reuseViolationAgainst_eq_none_iff.mpr hid, hnil, hclock, if_true, Bool.false_eq_true,
    if_false, map_some]
  exact ⟨_, _, rfl⟩

end reading

/-! ## What stays -/

/-- The same object, as far as its readers are concerned: complete replicas stay so. -/
structure SameObject (o o' : ObjectMetadata) : Prop where
  identity_eq : o'.identity = o.identity
  footprint_eq : o'.footprint = o.footprint
  complete : (∀ r ∈ o.replicas.values, r.isComplete = true) → ∀ r ∈ o'.replicas.values, r.isComplete = true

def Stays (s s' : MasterService) (key : ObjectKey) : Prop :=
  Option.Rel SameObject (s.objects.lookup key) (s'.objects.lookup key)

section stays

variable {s s' : MasterService} {key : ObjectKey} {identity : IdentityScope} {o : ObjectMetadata}

lemma SameObject.refl (o : ObjectMetadata) : SameObject o o := ⟨rfl, rfl, id⟩

lemma rel_sameObject_refl (x : Option ObjectMetadata) : Option.Rel SameObject x x := by
  cases x with
  | none => exact .none
  | some o => exact .some (.refl o)

lemma stays_of_lookup_eq (h : s'.objects.lookup key = s.objects.lookup key) : Stays s s' key := by
  rw [Stays, h]
  exact rel_sameObject_refl _

lemma Stays.of_some (h : Stays s s' key) (ho : s.objects.lookup key = some o) :
    ∃ o', s'.objects.lookup key = some o' ∧ SameObject o o' := by
  rw [Stays, ho] at h
  generalize hx : s'.objects.lookup key = x at h
  cases h with
  | some hsame => exact ⟨_, rfl, hsame⟩

lemma Stays.of_some' {o' : ObjectMetadata} (h : Stays s s' key) (ho' : s'.objects.lookup key = some o') :
    ∃ o, s.objects.lookup key = some o ∧ SameObject o o' := by
  rw [Stays, ho'] at h
  generalize hx : s.objects.lookup key = x at h
  cases h with
  | some hsame => exact ⟨_, rfl, hsame⟩

lemma Begun.stays (h : Begun identity key s) (hstays : Stays s s' key) : Begun identity key s' := by
  obtain ⟨o, ho, hid, hne⟩ := h
  obtain ⟨o', ho', hsame⟩ := hstays.of_some ho
  exact ⟨o', ho', hsame.identity_eq.trans hid, hsame.footprint_eq ▸ hne⟩

lemma Saved.stays (h : Saved identity key s) (hstays : Stays s s' key) : Saved identity key s' := by
  obtain ⟨o, ho, hid, hne, hc⟩ := h
  obtain ⟨o', ho', hsame⟩ := hstays.of_some ho
  exact ⟨o', ho', hsame.identity_eq.trans hid, hsame.footprint_eq ▸ hne, hsame.complete hc⟩

lemma stays_update {f : ObjectMetadata → ObjectMetadata} (hf : ∀ o, SameObject o (f o)) {k : ObjectKey}
    (h : s'.objects = s.objects.update k f) (key : ObjectKey) : Stays s s' key := by
  rw [Stays, h, lookup_update]
  split_ifs
  · cases s.objects.lookup key with
    | none => exact .none
    | some o => exact .some (hf o)
  · exact rel_sameObject_refl _

lemma complete_withStatus (o : ObjectMetadata) :
    ∀ r ∈ (o.withStatus .complete).replicas.values, r.isComplete = true := by
  intro r hr
  obtain ⟨e, he, rfl⟩ := List.mem_map.mp hr
  obtain ⟨e₀, -, rfl⟩ := List.mem_map.mp he
  rfl

lemma stays_shuffle (h : Shuffle s s') (key : ObjectKey) : Stays s s' key := by
  have hkey := h.objects key
  rw [Stays]
  generalize s.objects.lookup key = x at hkey
  generalize s'.objects.lookup key = y at hkey
  cases hkey with
  | none => exact .none
  | some hsame =>
    refine .some ⟨by rw [hsame.2], footprint_eq_of_shuffled hsame, fun hc r hr => hc r ?_⟩
    exact (hsame.1.map Sigma.snd).mem_iff.mpr hr

end stays

/-! ## The invariant -/

inductive Puts : List Request → Prop where
  | nil : Puts []
  | cons (key : ObjectKey) (size : ℕ) {rest : List Request} (h : Puts rest) : Puts (putBytes key size ++ rest)

/-- Before a manifest is put, each layer of its prefix has been saved or its put is ended. -/
def Backed (layers : List String) (identity : IdentityScope) (s : MasterService) (todo : List Request) : Prop :=
  ∀ before after key size p, todo = before ++ .putStart key size :: after → key = manifestKey p →
    ∀ l ∈ layers, .putEnd (layerKey p l) ∈ before ∨ Saved identity (layerKey p l) s

section lists

variable {layers : List String} {identity : IdentityScope} {s s' : MasterService} {todo rest : List Request}

lemma Puts.append {todo' : List Request} (h : Puts todo) (h' : Puts todo') : Puts (todo ++ todo') := by
  induction h with
  | nil => exact h'
  | cons key size _ ih =>
    rw [append_assoc]
    exact .cons key size ih

lemma puts_flatMap {α : Type} {f : α → List Request} (hf : ∀ a, Puts (f a)) (as : List α) : Puts (as.flatMap f) := by
  induction as with
  | nil => exact .nil
  | cons a as ih => exact (hf a).append ih

lemma puts_putBytes (key : ObjectKey) (size : ℕ) : Puts (putBytes key size) := .cons key size .nil

lemma puts_saveRequests (layers : List String) (saves : List Save) : Puts (saveRequests layers saves) :=
  (puts_flatMap (fun _ => puts_flatMap (fun _ => puts_putBytes _ _) _) _).append
    (puts_flatMap (fun _ => puts_putBytes _ _) _)

lemma Puts.of_putStart {key : ObjectKey} {size : ℕ} {rest : List Request} (h : Puts (.putStart key size :: rest)) :
    ∃ rest', rest = .putEnd key :: rest' ∧ Puts rest' := by
  generalize htodo : Request.putStart key size :: rest = todo at h
  cases h with
  | nil => cases htodo
  | cons key' size' hrest =>
    cases htodo
    exact ⟨_, rfl, hrest⟩

lemma Puts.not_putEnd {key : ObjectKey} {rest : List Request} (h : Puts (.putEnd key :: rest)) : False := by
  generalize htodo : Request.putEnd key :: rest = todo at h
  cases h <;> cases htodo

lemma backed_nil : Backed layers identity s [] := by
  intro before after key size p h
  simp at h

lemma backed_saveRequests (hl : ∀ l ∈ layers, LayerName l) (saves : List Save) :
    Backed layers identity s (saveRequests layers saves) := by
  intro before after key size p h hkey l hmem
  subst hkey
  -- the manifest is not a layer of any prefix, so that all layers have been put before it
  obtain ⟨a, hbefore, hafter⟩ : ∃ a, before = (layers.flatMap fun layer => saves.flatMap fun save =>
      putBytes (layerKey save.keyPrefix layer) (save.layerSize layer)) ++ a ∧
      (saves.flatMap fun save => putBytes (manifestKey save.keyPrefix) save.manifestSize) =
        a ++ .putStart (manifestKey p) size :: after := by
    rcases append_eq_append_iff.mp h with ⟨a, hbefore, hafter⟩ | ⟨a, hlayers, hafter⟩
    · exact ⟨a, hbefore, hafter⟩
    · cases a with
      | nil => exact ⟨[], by simpa using hlayers.symm, hafter.symm⟩
      | cons x a =>
        have hput : Request.putStart (manifestKey p) size ∈ layers.flatMap fun layer => saves.flatMap fun save =>
            putBytes (layerKey save.keyPrefix layer) (save.layerSize layer) := by
          rw [hlayers, (List.cons.inj hafter).1]
          simp
        simp only [mem_flatMap, putBytes, mem_cons, Request.putStart.injEq, not_mem_nil, or_false,
          reduceCtorEq] at hput
        obtain ⟨layer, hlayer, save, -, hkey, -⟩ := hput
        exact absurd hkey.symm (layerKey_ne_manifestKey (hl layer hlayer))
  have hput : Request.putStart (manifestKey p) size ∈ saves.flatMap fun save =>
      putBytes (manifestKey save.keyPrefix) save.manifestSize := by
    rw [hafter]
    simp
  simp only [mem_flatMap, putBytes, mem_cons, Request.putStart.injEq, not_mem_nil, or_false,
    reduceCtorEq] at hput
  obtain ⟨save, hsave, hkey, -⟩ := hput
  rw [manifestKey_injective hkey, hbefore]
  refine Or.inl (mem_append_left _ (mem_flatMap.mpr ⟨l, hmem, mem_flatMap.mpr ⟨save, hsave, ?_⟩⟩))
  simp [putBytes]

lemma Backed.mono (h : Backed layers identity s todo)
    (hsaved : ∀ k, Saved identity k s → Saved identity k s') : Backed layers identity s' todo :=
  fun before after key size p htodo hkey l hl =>
    (h before after key size p htodo hkey l hl).imp id (hsaved _)

lemma Backed.tail {r : Request} (h : Backed layers identity s (r :: rest))
    (hend : ∀ k, r = .putEnd k → Saved identity k s) : Backed layers identity s rest := by
  intro before after key size p htodo hkey l hl
  rcases h (r :: before) after key size p (by rw [htodo]; rfl) hkey l hl with hmem | hsaved
  · rcases mem_cons.mp hmem with hr | hmem
    · exact Or.inr (hend _ hr.symm)
    · exact .inl hmem
  · exact .inr hsaved

end lists

namespace Deployment

section steps

variable {layersOf : IdentityScope → List String} {conn : ℕ → Connector}

/-- What connector `i` has left to do fits the state of the master. -/
structure OnTrack (layers : List String) (c : Connector) (s : MasterService) (todo : List Request) : Prop where
  puts : Puts todo ∨ ∃ key rest, todo = .putEnd key :: rest ∧ Puts rest ∧ (0 < c.replicaNum → Begun c.identity key s)
  backed : 0 < c.replicaNum → Backed layers c.identity s todo

/-- Every connector is on track, and a manifest with a replica has all of its layers. -/
structure Inv (layersOf : IdentityScope → List String) (conn : ℕ → Connector) (d : Deployment) : Prop where
  beating : Beating d.master
  onTrack : ∀ i, OnTrack (layersOf (conn i).identity) (conn i) d.master (d.todo i)
  manifests : ∀ p o, d.master.objects.lookup (manifestKey p) = some o → o.footprint ≠ 0 →
    ∀ l ∈ layersOf o.identity, Saved o.identity (layerKey p l) d.master

variable {d : Deployment} {m : MasterService} {i : ℕ}

lemma OnTrack.stays {layers : List String} {c : Connector} {s s' : MasterService} {todo : List Request}
    (h : OnTrack layers c s todo) (hstays : ∀ k o, s.objects.lookup k = some o → Stays s s' k) :
    OnTrack layers c s' todo := by
  refine ⟨h.puts.imp id ?_, fun hpos => (h.backed hpos).mono fun k hk => ?_⟩
  · rintro ⟨key, rest, htodo, hrest, hbegun⟩
    refine ⟨key, rest, htodo, hrest, fun hpos => ?_⟩
    have hkey := hbegun hpos
    obtain ⟨o, ho, -⟩ := hkey
    exact (hbegun hpos).stays (hstays key o ho)
  · have hkey := hk
    obtain ⟨o, ho, -⟩ := hkey
    exact hk.stays (hstays k o ho)

lemma onTrack_nil {layers : List String} {c : Connector} {s : MasterService} : OnTrack layers c s [] :=
  ⟨.inl .nil, fun _ => backed_nil⟩

lemma Inv.keep (hi : Inv layersOf conn d) (hb : Beating m) (hstays : ∀ k, Stays d.master m k) :
    Inv layersOf conn { d with master := m } := by
  refine ⟨hb, fun i => (hi.onTrack i).stays fun k _ _ => hstays k, fun p o ho hne l hl => ?_⟩
  obtain ⟨o₀, ho₀, hsame⟩ := (hstays _).of_some' ho
  rw [hsame.identity_eq] at hl ⊢
  exact (hi.manifests p o₀ ho₀ (hsame.footprint_eq ▸ hne) l hl).stays (hstays _)

lemma Inv.turn (hi : Inv layersOf conn d) {todo : List Request}
    (h : OnTrack (layersOf (conn i).identity) (conn i) d.master todo) :
    Inv layersOf conn { d with todo := Function.update d.todo i todo } := by
  refine ⟨hi.beating, fun j => ?_, hi.manifests⟩
  by_cases hj : j = i
  · subst hj
    simp only [update_self]
    exact h
  · simp only [update_of_ne hj]
    exact hi.onTrack j

lemma beating_of_frame {s s' : MasterService} (hb : Beating s) (hs : Sound s'.view) (h : Frame s s') : Beating s' := by
  refine ⟨hs, ?_, fun name hname => ?_⟩
  · rw [h.rest]
    exact hb.segmentTtl_eq
  · have hnames : s'.segments.names = s.segments.names := h.fleet.names_eq
    rw [h.rest]
    exact hb.heartbeat name (hnames ▸ hname)

lemma granted_ne_zero_iff {n : ℕ} {bs : List AllocatedBuffer} : granted n bs ≠ 0 ↔ 0 < bs.length := by
  cases bs with
  | nil => simp [granted]
  | cons b bs => simp [granted]

lemma Inv.putStart {key : ObjectKey} {size : ℕ} {rest : List Request}
    {r : Except ErrorCode (List AllocatedBuffer)} (hi : Inv layersOf conn d)
    (htodo : d.todo i = .putStart key size :: rest) (hroom : Roomy d.master key size (conn i).replicaNum)
    (hrun : (putStart key (conn i).identity size (conn i).config).run d.master = some (r, m)) :
    Inv layersOf conn (d.answered i rest (r, m)) := by
  obtain ⟨hsound, ⟨rfl, rfl, -⟩ | ⟨hopen, ks, hframe, hks, hstarted⟩⟩ := putStart_runs hi.beating.sound _ _ hrun
  · exact hi.turn onTrack_nil
  obtain ⟨hnone, hroom⟩ := hroom.resolve_left (by simp [hopen])
  obtain rfl := hks hnone hroom
  have hbeating := beating_of_frame hi.beating hsound hframe.frame
  have hother : ∀ k, k ≠ key → Stays d.master m k := fun k hk =>
    stays_of_lookup_eq (by rw [hframe.lookup_ne k hk, if_neg (not_mem_nil)])
  have hold : ∀ k o, d.master.objects.lookup k = some o → Stays d.master m k := by
    intro k o ho
    refine hother k ?_
    rintro rfl
    rw [hnone] at ho
    cases ho
  cases r with
  | error e =>
    have hstays : ∀ k, Stays d.master m k := fun k => by
      rcases eq_or_ne k key with rfl | hk
      · exact stays_of_lookup_eq (hstarted.1.trans hnone.symm)
      · exact hother k hk
    exact (hi.keep hbeating hstays).turn onTrack_nil
  | ok bs =>
    obtain ⟨hgrant, ⟨o, ho, hfresh⟩, -⟩ := hstarted
    have htrack := hi.onTrack i
    rw [htodo] at htrack
    have hbacked := fun hpos => (htrack.stays hold).backed hpos
    obtain ⟨rest', rfl, hrest⟩ : ∃ rest', rest = .putEnd key :: rest' ∧ Puts rest' := by
      rcases htrack.puts with hputs | ⟨_, _, hcons, -⟩
      · exact hputs.of_putStart
      · cases hcons
    refine ⟨hbeating, fun j => ?_, fun p o' ho' hne l hl => ?_⟩
    · by_cases hj : j = i
      · subst hj
        simp only [answered, update_self]
        refine ⟨.inr ⟨key, rest', rfl, hrest, fun hpos => ⟨o, ho, hfresh.identity_eq, ?_⟩⟩,
          fun hpos => (hbacked hpos).tail nofun⟩
        rw [hfresh.footprint_eq, granted_ne_zero_iff, hgrant.length_eq]
        exact hpos
      · simp only [answered, update_of_ne hj]
        exact (hi.onTrack j).stays hold
    · rcases eq_or_ne (manifestKey p) key with hkey | hkey
      · -- the layers of the new manifest have been put before
        obtain rfl : o = o' := Option.some.inj (ho.symm.trans (hkey ▸ ho'))
        have hpos : 0 < (conn i).replicaNum := by
          rw [hfresh.footprint_eq, granted_ne_zero_iff, hgrant.length_eq] at hne
          exact hne
        rw [hfresh.identity_eq] at hl ⊢
        exact (hbacked hpos [] _ key size p rfl hkey.symm l hl).resolve_left (not_mem_nil)
      · obtain ⟨o₀, ho₀, hsame⟩ := (hother _ hkey).of_some' ho'
        rw [hsame.identity_eq] at hl ⊢
        have hsaved := hi.manifests p o₀ ho₀ (hsame.footprint_eq ▸ hne) l hl
        obtain ⟨o₁, ho₁, -⟩ := id hsaved
        exact hsaved.stays (hold _ o₁ ho₁)

lemma sameObject_complete (o : ObjectMetadata) : SameObject o (o.withStatus .complete) :=
  ⟨rfl, footprint_withStatus _ o, fun _ => complete_withStatus o⟩

lemma Inv.putEnd {key : ObjectKey} {rest : List Request} {r : Except ErrorCode Unit} (hi : Inv layersOf conn d)
    (htodo : d.todo i = .putEnd key :: rest) (hrun : (putEnd key).run d.master = some (r, m)) :
    Inv layersOf conn (d.answered i rest (r, m)) := by
  obtain ⟨r', m', hrun', heffect⟩ := putEnd_completes key d.master
  obtain ⟨rfl, rfl⟩ : r' = r ∧ m' = m := by simpa [hrun] using hrun'.symm
  rcases heffect with ⟨-, rfl, rfl⟩ | ⟨o, ho, rfl, hm⟩
  · exact hi.turn onTrack_nil
  have hsound := sound_runs (balanced_putEnd key) hi.beating.sound _ _ hrun
  have hbeating : Beating m' := beating_of_frame hi.beating hsound ⟨hm ▸ SameFleet.refl _, by rw [hm], by rw [hm]⟩
  have hi' := hi.keep hbeating (stays_update sameObject_complete (by rw [hm]))
  have htrack := hi'.onTrack i
  simp only [htodo] at htrack
  obtain ⟨hrest, hbegun⟩ : Puts rest ∧ (0 < (conn i).replicaNum → Begun (conn i).identity key d.master) := by
    have hputs := (hi.onTrack i).puts
    rw [htodo] at hputs
    rcases hputs with hputs | ⟨_, _, hcons, hrest, hbegun⟩
    · exact hputs.not_putEnd.elim
    · cases hcons
      exact ⟨hrest, hbegun⟩
  refine hi'.turn ⟨.inl hrest, fun hpos => (htrack.backed hpos).tail fun k hk => ?_⟩
  cases hk
  obtain ⟨o', ho', hid, hne⟩ := hbegun hpos
  refine ⟨o'.withStatus .complete, ?_, hid, footprint_withStatus _ o' ▸ hne, complete_withStatus o'⟩
  simp only [hm, lookup_update, if_true, ho', map_some]

lemma Inv.act {a : Act} {d' : Deployment} (hl : ∀ identity, ∀ l ∈ layersOf identity, LayerName l)
    (hi : Inv layersOf conn d) (hok : Unhurried conn a d) (h : d.act layersOf conn a = some d') :
    Inv layersOf conn d' := by
  cases a with
  | mountSegment name capacity =>
    obtain ⟨⟨_, m⟩, hrun, rfl⟩ := map_eq_some_iff.mp h
    obtain ⟨hsound, a, hnew, rfl⟩ := mountSegment_runs hi.beating.sound hok.1 hok.2 _ _ hrun
    refine hi.keep ⟨hsound, hi.beating.segmentTtl_eq, fun name' hname => ?_⟩ fun _ => stays_of_lookup_eq rfl
    have hspec : ∃ a, OffsetBufferAllocator.new name capacity = some a ∧ a.Valid False ∧ _ :=
      OffsetBufferAllocator.new_spec name hok.2
    obtain ⟨a', hnew', -, hseg, -⟩ := hspec
    rw [hnew] at hnew'
    cases hnew'
    rw [SegmentState.names, map_append, mem_append] at hname
    refine (mem_insert _).mpr (hname.symm.imp (fun hname => ?_) (hi.beating.heartbeat name'))
    rw [← hseg]
    exact mem_singleton.mp hname
  | save i saves =>
    rw [Deployment.act] at h
    split_ifs at h with hidle
    cases h
    exact hi.turn ⟨Or.inl (puts_saveRequests _ _), fun _ => backed_saveRequests (hl _) saves⟩
  | next i =>
    rw [Deployment.act, Deployment.next] at h
    split at h
    · cases h
    · obtain ⟨⟨r, m⟩, hrun, rfl⟩ := map_eq_some_iff.mp h
      rename_i htodo
      have hroom : RoomFor (conn i).replicaNum d.master (.putStart _ _) := hok _ (by rw [htodo]; rfl)
      exact hi.putStart htodo hroom hrun
    · obtain ⟨⟨r, m⟩, hrun, rfl⟩ := map_eq_some_iff.mp h
      exact hi.putEnd ‹_› hrun
  | fail i =>
    cases h
    exact hi.turn onTrack_nil
  | getReplicaList key requester =>
    obtain ⟨⟨r, m⟩, hrun, rfl⟩ := map_eq_some_iff.mp h
    have hsound := sound_runs (balanced_getReplicaList key requester) hi.beating.sound _ _ hrun
    rcases getReplicaList_runs key requester d.master _ _ hrun with ⟨_, -, rfl⟩ | ⟨o, -, -, -, -, hm⟩
    · exact hi
    · have hbeating := beating_of_frame hi.beating hsound ⟨hm ▸ SameFleet.refl _, by rw [hm], by rw [hm]⟩
      have hobjects := congrArg MasterService.objects hm
      dsimp only at hobjects
      refine hi.keep hbeating (stays_update (fun o => ?_) hobjects)
      exact ⟨rfl, rfl, id⟩
  | tick =>
    obtain ⟨⟨_, m⟩, hrun, rfl⟩ := map_eq_some_iff.mp h
    rw [tick_runs d.master _ _ hrun]
    exact hi.keep ⟨hi.beating.sound, hi.beating.segmentTtl_eq, hi.beating.heartbeat⟩ fun _ =>
      stays_of_lookup_eq rfl

lemma inv_reachable {strategy : String} (hl : ∀ identity, ∀ l ∈ layersOf identity, LayerName l)
    (hrun : ReflTransGen (Step layersOf conn (Unhurried conn)) (new strategy) d) : Inv layersOf conn d := by
  induction hrun with
  | refl =>
    refine ⟨⟨sound_new strategy, rfl, fun name hname => ?_⟩, fun i => onTrack_nil, fun p o ho => ?_⟩
    · cases hname
    · cases ho
  | tail _ hstep ih =>
    cases hstep with
    | act a hok h => exact ih.act hl hok h
    | shuffle h =>
      refine ih.keep ⟨view_shuffle h ▸ ih.beating.sound, ?_, ?_⟩ (stays_shuffle h)
      · rw [h.rest]
        exact ih.beating.segmentTtl_eq
      · rw [h.rest]
        exact ih.beating.heartbeat

end steps

/-- **A hit loads all layers**: while puts find room, whoever can read the manifest of a prefix can read every
layer of it. -/
theorem hit_loads_all_layers (layersOf : IdentityScope → List String) (conn : ℕ → Connector) (strategy : String)
    (hl : ∀ identity, ∀ l ∈ layersOf identity, LayerName l) (d : Deployment)
    (hrun : ReflTransGen (Step layersOf conn (Unhurried conn)) (new strategy) d) (p : String)
    (requester : IdentityScope) (replicas : List Replica) (m : MasterService)
    (hget : (getReplicaList (manifestKey p) requester).run d.master = some (.ok replicas, m)) :
    ∀ l ∈ layersOf requester, ∃ replicas' m',
      (getReplicaList (layerKey p l) requester).run d.master = some (.ok replicas', m') := by
  intro l hmem
  have hi := inv_reachable hl hrun
  rcases getReplicaList_runs _ _ _ _ _ hget with ⟨_, he, -⟩ | ⟨o, ho, hid, -, hne, -⟩
  · cases he
  · obtain rfl := IdentityScope.reuseViolationAgainst_eq_none_iff.mp hid
    refine hi.beating.get_saved (hi.manifests p o ho (fun hzero => hne ?_) l hmem) (clock_of_get hget)
    rw [values_eq_nil_iff.mpr hzero, filter_nil]

def twoLayers (_ : IdentityScope) : List String := ["l0", "l1"]

def save400 (keyPrefix : String) : Save := ⟨keyPrefix, fun _ => 400, 64⟩

def sameModel (_ : ℕ) : Connector := ⟨⟨"m", "t", none, "u"⟩, 1⟩

def saveOne : List Act :=
  [.mountSegment "a" 1024, .save 0 [save400 "qc/p"], .next 0, .next 0, .tick, .next 0, .next 0, .next 0, .next 0]

theorem hit_loads_all_layers_saveOne :
    ∃ d replicas m, ReflTransGen (Step twoLayers sameModel (Unhurried sameModel)) (new "random") d ∧
      (getReplicaList (manifestKey "qc/p") ⟨"m", "t", none, "u"⟩).run d.master = some (.ok replicas, m) ∧
      ∃ replicas' m', (getReplicaList (layerKey "qc/p" "l0") ⟨"m", "t", none, "u"⟩).run d.master =
        some (.ok replicas', m') := by
  have hrun : (((new "random").play twoLayers sameModel (Unhurried sameModel) saveOne).any fun d =>
      ((getReplicaList (manifestKey "qc/p") ⟨"m", "t", none, "u"⟩).run d.master).any fun r =>
        r.1.isOk) = true := by decide +kernel
  obtain ⟨d, hd, hrun⟩ := (Option.any_eq_true _ _).mp hrun
  obtain ⟨⟨r, m⟩, hget, hok⟩ := (Option.any_eq_true _ _).mp hrun
  cases r with
  | error e => cases hok
  | ok replicas =>
    have hnames : ∀ identity, ∀ l ∈ twoLayers identity, LayerName l := by
      intro identity l hl
      simp only [twoLayers, mem_cons, not_mem_nil, or_false] at hl
      rcases hl with rfl | rfl <;> exact ⟨by decide, by decide⟩
    exact ⟨d, replicas, m, steps_of_play hd, hget, hit_loads_all_layers twoLayers sameModel "random" hnames d
      (steps_of_play hd) "qc/p" _ replicas m hget "l0" (by simp [twoLayers])⟩

/-- The first layer of the next prefix takes the room of the first layer of the first prefix, whose manifest
stays. -/
theorem hit_without_layers :
    ∃ d replicas m m', ReflTransGen (Step twoLayers sameModel fun _ _ => True) (new "random") d ∧
      (getReplicaList (manifestKey "qc/p") ⟨"m", "t", none, "u"⟩).run d.master = some (.ok replicas, m) ∧
      (getReplicaList (layerKey "qc/p" "l0") ⟨"m", "t", none, "u"⟩).run d.master =
        some (.error .objectNotFound, m') := by
  have hrun : (((new "random").play twoLayers sameModel (fun _ _ => True)
      (saveOne ++ [.save 0 [save400 "qc/q"], .next 0])).any fun d =>
        (((getReplicaList (manifestKey "qc/p") ⟨"m", "t", none, "u"⟩).run d.master).any fun r => r.1.isOk) ∧
        ((getReplicaList (layerKey "qc/p" "l0") ⟨"m", "t", none, "u"⟩).run d.master).any fun r =>
          r.1 = .error .objectNotFound) = true := by decide +kernel
  obtain ⟨d, hd, hrun⟩ := (Option.any_eq_true _ _).mp hrun
  obtain ⟨hmanifest, hlayer⟩ := of_decide_eq_true hrun
  obtain ⟨⟨r, m⟩, hget, hok⟩ := (Option.any_eq_true _ _).mp hmanifest
  obtain ⟨⟨r', m'⟩, hget', hmiss⟩ := (Option.any_eq_true _ _).mp hlayer
  cases r with
  | error e => cases hok
  | ok replicas =>
    have hr' : r' = .error .objectNotFound := of_decide_eq_true hmiss
    exact ⟨d, replicas, m, m', steps_of_play hd, hget, hr' ▸ hget'⟩

end Deployment

end QuillCache.Bridge
