import QuillCache.Store.MasterHistory

/-!
# Reads by pattern

`get_replica_list_by_regex` (`master_service.rs`): a guarded read of each object whose key matches. The regex engine
is a parameter: a pattern is refused, or compiles to a predicate on keys.

What a requester is offered of an object is a function of the object, the clock and the heartbeats (`offered`), and
a read does not change it. So the call returns what is offered of each matching key, two states in which the
requester has the same objects give the same answer, and only what is returned is touched (`regex_exact`).
-/

namespace QuillCache.Store.MasterService

open Lib Prog AList Option

/-! ## The call -/

def regexLoop (requester : IdentityScope) :
    List ObjectKey → Table ObjectKey (List Replica) → MasterProg (Table ObjectKey (List Replica))
  | [], out => return out
  | key :: keys, out => do
    match ← getReplicaList key requester with
    | .ok replicas => regexLoop requester keys (out.insert key replicas)
    | .error _ => regexLoop requester keys out

def getReplicaListByRegex (regex : String → Except String (ObjectKey → Bool)) (pattern : String)
    (requester : IdentityScope) : MasterProg (Except ErrorCode (Table ObjectKey (List Replica))) :=
  match regex pattern with
  | .error e => return .error (.io ("bad regex: " ++ e))
  | .ok isMatch => do
    let keys ← read fun s => some (s.objects.keys.filter isMatch)
    let out ← regexLoop requester keys ∅
    return .ok out

/-! ## What a read offers -/

def readableReplicas (s : MasterService) (o : ObjectMetadata) : List Replica :=
  o.replicas.values.filter (readable (aliveSegments s.clock s.segmentTtl s.segmentHeartbeat))

/-- What a read by `requester` returns of `key`, if anything. -/
def offered (requester : IdentityScope) (s : MasterService) (key : ObjectKey) : Option (List Replica) :=
  (s.objects.lookup key).bind fun o =>
    if o.identity = requester ∧ s.readableReplicas o ≠ [] then some (s.readableReplicas o) else none

/-- The lease of an object that is read now ends before the clock does. -/
def LeaseFits (s : MasterService) : Prop := s.clock + s.leaseTtl < 2 ^ 64

instance (s : MasterService) : Decidable s.LeaseFits := inferInstanceAs (Decidable (_ < _))

def touched (s : MasterService) (o : ObjectMetadata) : ObjectMetadata :=
  { o with lastAccess := s.clock, leaseUntil := s.clock + s.leaseTtl }

section offers

variable {requester : IdentityScope} {s s' : MasterService} {key k : ObjectKey} {rs : List Replica}

lemma offered_eq_some_iff : offered requester s key = some rs ↔
    ∃ o, s.objects.lookup key = some o ∧ o.identity = requester ∧ rs = s.readableReplicas o ∧ rs ≠ [] := by
  rw [offered, bind_eq_some_iff]
  refine exists_congr fun o => and_congr_right fun _ => ?_
  rw [ite_none_right_eq_some, Option.some.injEq]
  constructor
  · rintro ⟨⟨hid, hne⟩, rfl⟩
    exact ⟨hid, rfl, hne⟩
  · rintro ⟨hid, rfl, hne⟩
    exact ⟨⟨hid, hne⟩, rfl⟩

lemma run_getReplicaList : (getReplicaList key requester).run s =
    (readObject key requester s.clock s.leaseTtl (aliveSegments s.clock s.segmentTtl s.segmentHeartbeat)
      s.objects).map fun r => (r.1, { s with objects := r.2 }) := by
  simp only [getReplicaList, now, look, onObjects, run_bind, run_section]
  rfl

lemma run_getReplicaList_of_none (h : offered requester s key = none) :
    ∃ e, (getReplicaList key requester).run s = some (.error e, s) := by
  rw [run_getReplicaList, readObject]
  cases ho : s.objects.lookup key with
  | none => exact ⟨_, rfl⟩
  | some o =>
    cases hviolation : o.identity.reuseViolationAgainst requester with
    | some violation => exact ⟨.unsafeReuse violation, by simp only [hviolation, map_some]⟩
    | none =>
      rw [offered, ho, bind_some, ite_eq_right_iff] at h
      have hempty : s.readableReplicas o = [] := by
        by_contra hne
        cases h ⟨IdentityScope.reuseViolationAgainst_eq_none_iff.mp hviolation, hne⟩
      rw [readableReplicas] at hempty
      exact ⟨.objectNotReady, by simp only [hviolation, hempty, List.isEmpty_nil, if_true, map_some]⟩

lemma run_getReplicaList_of_some (h : offered requester s key = some rs) :
    (getReplicaList key requester).run s = if s.LeaseFits then
      some (.ok rs, { s with objects := s.objects.update key s.touched }) else none := by
  obtain ⟨o, ho, hid, rfl, hne⟩ := offered_eq_some_iff.mp h
  have hviolation := IdentityScope.reuseViolationAgainst_eq_none_iff.mpr hid
  have hnonempty : (s.readableReplicas o).isEmpty = false := by
    rw [Bool.eq_false_iff, ne_eq, List.isEmpty_iff]
    exact hne
  rw [readableReplicas] at hnonempty
  rw [run_getReplicaList, readObject]
  simp only [ho, hviolation, hnonempty, Bool.false_eq_true, if_false]
  by_cases hfits : s.LeaseFits
  · rw [if_pos hfits, if_pos (by exact hfits)]
    rfl
  · rw [if_neg hfits, if_neg (by exact hfits)]
    rfl

lemma offered_touch (requester' : IdentityScope) : offered requester'
    { s with objects := s.objects.update key s.touched } k = offered requester' s k := by
  simp only [offered, lookup_update]
  split_ifs with hkey
  · rw [bind_map]
    rfl
  · rfl

end offers

/-! ## The loop -/

structure ReadsAll (requester : IdentityScope) (keys : List ObjectKey) (out out' : Table ObjectKey (List Replica))
    (s s' : MasterService) : Prop where
  returned : ∀ k, out'.lookup k = if k ∈ keys then (offered requester s k).or (out.lookup k) else out.lookup k
  frame : s' = { s with objects := s'.objects }
  objects : ∀ k, s'.objects.lookup k = (s.objects.lookup k).map fun o =>
    if k ∈ keys ∧ (offered requester s k).isSome then s.touched o else o

section loop

variable {requester : IdentityScope} {s s' : MasterService} {key : ObjectKey} {keys : List ObjectKey}
  {rs : List Replica} {out out' : Table ObjectKey (List Replica)}

lemma ReadsAll.skip (hkey : offered requester s key = none) (h : ReadsAll requester keys out out' s s') :
    ReadsAll requester (key :: keys) out out' s s' := by
  refine ⟨fun k => ?_, h.frame, fun k => ?_⟩
  · rw [h.returned]
    by_cases hk : k = key
    · rw [hk, hkey, none_or, ite_self, if_pos List.mem_cons_self]
    · simp only [List.mem_cons, hk, false_or]
  · rw [h.objects]
    by_cases hk : k = key
    · simp only [hk, hkey, isSome_none, Bool.false_eq_true, and_false]
    · simp only [List.mem_cons, hk, false_or]

lemma ReadsAll.read (hkey : offered requester s key = some rs)
    (h : ReadsAll requester keys (out.insert key rs) out' { s with objects := s.objects.update key s.touched } s') :
    ReadsAll requester (key :: keys) out out' s s' := by
  refine ⟨fun k => ?_, h.frame, fun k => ?_⟩
  · rw [h.returned, offered_touch]
    by_cases hk : k = key
    · rw [hk, hkey, lookup_insert, some_or, ite_self, if_pos List.mem_cons_self, some_or]
    · rw [lookup_insert_ne hk]
      simp only [List.mem_cons, hk, false_or]
  · simp only [h.objects, offered_touch, lookup_update]
    by_cases hk : k = key
    · rw [if_pos hk, map_map, hk, hkey]
      refine Option.map_congr fun o _ => ?_
      simp only [Function.comp_apply, isSome_some, and_true, List.mem_cons_self, if_true]
      split_ifs <;> rfl
    · simp only [List.mem_cons, hk, false_or, if_false]
      rfl

/-- **The loop reads what is offered**, unless a lease would end after the end of the clock. -/
lemma regexLoop_returns (h : s.LeaseFits ∨ ∀ k ∈ keys, offered requester s k = none) :
    ∃ out' s', (regexLoop requester keys out).run s = some (out', s') ∧ ReadsAll requester keys out out' s s' := by
  induction keys generalizing s out with
  | nil =>
    refine ⟨out, s, rfl, fun k => by simp, rfl, fun k => ?_⟩
    simp
  | cons key keys ih =>
    cases hkey : offered requester s key with
    | none =>
      obtain ⟨e, hrun⟩ := run_getReplicaList_of_none hkey
      obtain ⟨out', s', hloop, hreads⟩ := @ih s out (h.imp_right fun h k hk => h k (List.mem_cons_of_mem _ hk))
      refine ⟨out', s', ?_, hreads.skip hkey⟩
      rw [regexLoop, run_bind]
      exact bind_eq_some.mpr ⟨_, _, hrun, hloop⟩
    | some rs =>
      have hfits : s.LeaseFits := h.resolve_right fun h => by
        rw [h key List.mem_cons_self] at hkey
        cases hkey
      have hrun := run_getReplicaList_of_some hkey
      rw [if_pos hfits] at hrun
      obtain ⟨out', s', hloop, hreads⟩ := @ih { s with objects := s.objects.update key s.touched }
        (out.insert key rs) (.inl hfits)
      refine ⟨out', s', ?_, hreads.read hkey⟩
      rw [regexLoop, run_bind]
      exact bind_eq_some.mpr ⟨_, _, hrun, hloop⟩

lemma regexLoop_panics (hfits : ¬s.LeaseFits) (h : ∃ k ∈ keys, offered requester s k ≠ none) :
    (regexLoop requester keys out).run s = none := by
  induction keys with
  | nil =>
    obtain ⟨k, hk, -⟩ := h
    cases hk
  | cons key keys ih =>
    rw [regexLoop, run_bind]
    cases hkey : offered requester s key with
    | none =>
      obtain ⟨e, hrun⟩ := run_getReplicaList_of_none hkey
      obtain ⟨k, hk, hoffered⟩ := h
      have hk' : k ∈ keys := (List.mem_cons.mp hk).resolve_left fun heq => hoffered (heq ▸ hkey)
      change Option.bind _ _ = none
      rw [hrun]
      exact ih ⟨k, hk', hoffered⟩
    | some rs =>
      have hrun := run_getReplicaList_of_some hkey
      rw [if_neg hfits] at hrun
      change Option.bind _ _ = none
      rw [hrun]
      rfl

end loop

/-! ## The result -/

structure ByRegex (isMatch : ObjectKey → Bool) (requester : IdentityScope) (s : MasterService)
    (out : Table ObjectKey (List Replica)) (s' : MasterService) : Prop where
  returned : ∀ k rs, out.lookup k = some rs ↔ isMatch k = true ∧ ∃ o, s.objects.lookup k = some o ∧
    o.identity = requester ∧ rs = s.readableReplicas o ∧ rs ≠ []
  frame : s' = { s with objects := s'.objects }
  objects : ∀ k, s'.objects.lookup k = (s.objects.lookup k).map fun o => if k ∈ out then s.touched o else o

/-- The states differ only in what the requester may not read. -/
structure SameFor (requester : IdentityScope) (s s₂ : MasterService) : Prop where
  clock : s₂.clock = s.clock
  leaseTtl : s₂.leaseTtl = s.leaseTtl
  segmentTtl : s₂.segmentTtl = s.segmentTtl
  segmentHeartbeat : s₂.segmentHeartbeat = s.segmentHeartbeat
  objects : ∀ k o, o.identity = requester → (s₂.objects.lookup k = some o ↔ s.objects.lookup k = some o)

section result

variable {regex : String → Except String (ObjectKey → Bool)} {pattern : String} {isMatch : ObjectKey → Bool}
  {requester : IdentityScope} {s s₂ s' : MasterService} {out : Table ObjectKey (List Replica)}

lemma SameFor.offered_eq (h : SameFor requester s s₂) (k : ObjectKey) :
    offered requester s₂ k = offered requester s k := by
  refine Option.ext fun rs => ?_
  simp only [offered_eq_some_iff, readableReplicas, h.clock, h.segmentTtl, h.segmentHeartbeat]
  refine exists_congr fun o => ⟨fun ⟨ho, hid, hrs⟩ => ?_, fun ⟨ho, hid, hrs⟩ => ?_⟩
  · exact ⟨(h.objects k o hid).mp ho, hid, hrs⟩
  · exact ⟨(h.objects k o hid).mpr ho, hid, hrs⟩

def Returns (isMatch : ObjectKey → Bool) (requester : IdentityScope) (s : MasterService) : Prop :=
  s.LeaseFits ∨ ∀ k, isMatch k = true → offered requester s k = none

lemma mem_of_offered {k : ObjectKey} (h : offered requester s k ≠ none) : k ∈ s.objects.keys := by
  obtain ⟨rs, hrs⟩ := ne_none_iff_exists'.mp h
  obtain ⟨o, ho, -⟩ := offered_eq_some_iff.mp hrs
  exact mem_keys.mp (mem_iff_exists_lookup.mpr ⟨o, ho⟩)

lemma run_byRegex (hpattern : regex pattern = .ok isMatch) : (getReplicaListByRegex regex pattern requester).run s =
    ((regexLoop requester (s.objects.keys.filter isMatch) ∅).run s).map fun r => (.ok r.1, r.2) := by
  simp only [getReplicaListByRegex, hpattern, look, run_bind, run_section]
  change Option.bind _ _ = _
  rw [map_eq_bind]
  rfl

lemma ReadsAll.byRegex (h : ReadsAll requester (s.objects.keys.filter isMatch) ∅ out s s') :
    ByRegex isMatch requester s out s' := by
  have hlookup : ∀ k, out.lookup k = if isMatch k then offered requester s k else none := fun k => by
    rw [h.returned, lookup_empty, or_none]
    by_cases hoffered : offered requester s k = none
    · rw [hoffered, ite_self, ite_self]
    · simp only [List.mem_filter, mem_of_offered hoffered, true_and]
  refine ⟨fun k rs => ?_, h.frame, fun k => ?_⟩
  · rw [hlookup, ite_none_right_eq_some, offered_eq_some_iff]
  · rw [h.objects]
    refine Option.map_congr fun o ho => if_congr ?_ rfl rfl
    have hmem : k ∈ s.objects.keys := mem_keys.mp (mem_iff_exists_lookup.mpr ⟨o, ho⟩)
    rw [← lookup_isSome, hlookup, List.mem_filter]
    simp only [hmem, true_and]
    by_cases hmatch : isMatch k = true
    · simp only [hmatch, true_and, if_true]
    · simp only [hmatch, false_and, Bool.false_eq_true, if_false, isSome_none]

/-- **The call returns what it should**, exactly if no lease would end after the end of the clock. -/
lemma byRegex_returns (hpattern : regex pattern = .ok isMatch) (h : Returns isMatch requester s) :
    ∃ out s', (getReplicaListByRegex regex pattern requester).run s = some (.ok out, s') ∧
      ByRegex isMatch requester s out s' := by
  obtain ⟨out, s', hrun, hreads⟩ := @regexLoop_returns requester s (s.objects.keys.filter isMatch) ∅
    (h.imp_right fun h k hk => h k (List.mem_filter.mp hk).2)
  refine ⟨out, s', ?_, hreads.byRegex⟩
  rw [run_byRegex hpattern, hrun]
  rfl

lemma returns_of_run (hpattern : regex pattern = .ok isMatch) {r : Except ErrorCode (Table ObjectKey (List Replica))}
    (hrun : (getReplicaListByRegex regex pattern requester).run s = some (r, s')) : Returns isMatch requester s := by
  by_contra hnot
  obtain ⟨hfits, hoffered⟩ := not_or.mp hnot
  obtain ⟨k, hk⟩ := not_forall.mp hoffered
  obtain ⟨hmatch, hk⟩ := Classical.not_imp.mp hk
  rw [run_byRegex hpattern,
    regexLoop_panics hfits ⟨k, List.mem_filter.mpr ⟨mem_of_offered hk, hmatch⟩, hk⟩] at hrun
  cases hrun

/-- **Reads by pattern are exact, isolated and framed**: the call returns, unless it would grant a lease that ends
after the clock's last tick, and then it returns the matching keys that the requester wrote and of which it can read
a replica, with the replicas that it can read; a state that differs only in the objects of other identities gives the
same answer; and only the leases and access times of the returned objects change. -/
theorem regex_exact (regex : String → Except String (ObjectKey → Bool)) (pattern : String)
    (isMatch : ObjectKey → Bool) (hpattern : regex pattern = .ok isMatch) (requester : IdentityScope)
    (s : MasterService) :
    (s.clock + s.leaseTtl < 2 ^ 64 → ∃ out s', (getReplicaListByRegex regex pattern requester).run s =
      some (.ok out, s')) ∧
    ∀ r s', (getReplicaListByRegex regex pattern requester).run s = some (r, s') →
      ∃ out, r = .ok out ∧ ByRegex isMatch requester s out s' ∧
        ∀ s₂, SameFor requester s s₂ → ∃ out₂ s₂', (getReplicaListByRegex regex pattern requester).run s₂ =
          some (.ok out₂, s₂') ∧ ∀ k, out₂.lookup k = out.lookup k := by
  refine ⟨fun hfits => ?_, fun r s' hrun => ?_⟩
  · obtain ⟨out, s', hrun, -⟩ := byRegex_returns hpattern (.inl hfits)
    exact ⟨out, s', hrun⟩
  · have hreturns := returns_of_run hpattern hrun
    obtain ⟨out, s₁, hrun₁, hout⟩ := byRegex_returns hpattern hreturns
    rw [hrun] at hrun₁
    cases hrun₁
    refine ⟨out, rfl, hout, fun s₂ hsame => ?_⟩
    have hreturns₂ : Returns isMatch requester s₂ := by
      refine hreturns.imp (fun hfits => ?_) fun hnone k hk => ?_
      · rwa [LeaseFits, hsame.clock, hsame.leaseTtl]
      · rw [hsame.offered_eq, hnone k hk]
    obtain ⟨out₂, s₂', hrun₂, hout₂⟩ := byRegex_returns hpattern hreturns₂
    refine ⟨out₂, s₂', hrun₂, fun k => Option.ext fun rs => ?_⟩
    rw [hout.returned, hout₂.returned, ← offered_eq_some_iff, ← offered_eq_some_iff,
      hsame.offered_eq]

def anyKey (_ : String) : Except String (ObjectKey → Bool) := .ok fun _ => true

def threeObjects : List MasterOp :=
  [.mountSegment "a" 1024, .putStart "x1" ⟨"m", "t", none, "u"⟩ 10 ⟨1, false, false, none⟩, .putEnd "x1",
    .putStart "x2" ⟨"m", "t", none, "v"⟩ 10 ⟨1, false, false, none⟩, .putEnd "x2",
    .putStart "x3" ⟨"m", "t", none, "u"⟩ 10 ⟨1, false, false, none⟩]

theorem regex_exact_threeObjects :
    ∃ s out s', Relation.ReflTransGen (Serves freshMounts) (new "random") s ∧
      (getReplicaListByRegex anyKey ".*" ⟨"m", "t", none, "u"⟩).run s = some (.ok out, s') ∧ out.keys = ["x1"] ∧
      ByRegex (fun _ => true) ⟨"m", "t", none, "u"⟩ s out s' := by
  have hrun : ((serveAll freshMounts threeObjects (new "random")).any fun s =>
      ((getReplicaListByRegex anyKey ".*" ⟨"m", "t", none, "u"⟩).run s).any fun r =>
        r.1.toOption.any fun out => out.keys = ["x1"]) = true := by decide +kernel
  obtain ⟨s, hs, hrun⟩ := (any_eq_true _ _).mp hrun
  obtain ⟨⟨r, s'⟩, hget, hkeys⟩ := (any_eq_true _ _).mp hrun
  obtain ⟨out, rfl, hout, -⟩ := (regex_exact anyKey ".*" _ rfl ⟨"m", "t", none, "u"⟩ s).2 r s' hget
  exact ⟨s, out, s', serves_of_serveAll hs, hget, of_decide_eq_true hkeys, hout⟩

end result

end QuillCache.Store.MasterService
