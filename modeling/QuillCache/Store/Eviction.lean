import QuillCache.Store.Intact

/-!
# Eviction

An eviction pass removes the shortest prefix of the candidates, coldest first, after which its byte goal is
met, or all of them (`passes_evict_shortest_prefix`).

The goal is a number of free bytes in the whole cluster. A put needs them in one piece, so it can fail although
the rest of the candidates, if they were evicted as well, would leave room for it (`fragments_refuse`); it does
not fail while a segment has room (`refused_only_without_room`).
-/

namespace QuillCache.Store.MasterService

open Lib Prog List Option

variable {s s' : MasterService}

/-! ## Passes return -/

lemma allocated_of_intact (hs : Intact s) (hcap : s.segments.capacities.sum < 2 ^ 64) :
    s.segments.capacity = some s.segments.capacities.sum ∧
      ∃ n, s.segments.allocated = some n := by
  have hle : (s.segments.allocators.map fun a => a.inner.allocatedSize).sum ≤ s.segments.capacities.sum :=
    sum_le_sum fun a ha => (hs a ha).allocated_le
  exact ⟨SegmentState.sumChecked_eq hcap, _, SegmentState.sumChecked_eq (hle.trans_lt hcap)⟩

lemma goal_returns (hs : Intact s) (hcap : s.segments.capacities.sum < 2 ^ 64) (n : ℕ) :
    (∃ b, downTo n s.segments = some b) ∧ ∃ b, freed n s.segments = some b := by
  obtain ⟨hcapacity, m, hallocated⟩ := allocated_of_intact hs hcap
  exact ⟨⟨_, by rw [downTo, hallocated, map_some]⟩,
    ⟨_, by rw [freed, hcapacity, hallocated]; rfl⟩⟩

lemma Evicts.capacities_eq {ks : List ObjectKey} (h : Evicts s ks s') :
    s'.segments.capacities = s.segments.capacities :=
  h.frame.fleet.capacities_eq

variable {goal : SegmentState → Option Bool}

lemma evictLoop_completes {n : ℕ} {keys : List ObjectKey}
    (hgoal : ∀ t : MasterService, Intact t → t.segments.capacities.sum < 2 ^ 64 → ∃ b, goal t.segments = some b)
    (hs : Intact s) (hcap : s.segments.capacities.sum < 2 ^ 64) (hnodup : keys.Nodup)
    (hkeys : ∀ k ∈ keys, ∃ o, s.objects.lookup k = some o ∧ evictable s.clock o = true) :
    Completes (evictLoop goal n keys) (fun _ _ => True) s := by
  induction keys generalizing n s with
  | nil => exact completes_pure.mpr trivial
  | cons key keys ih =>
    obtain ⟨o, ho, hev⟩ := hkeys key mem_cons_self
    obtain ⟨_, s₁, hrun₁, hintact, hevicts⟩ := evictObject_completes hs ho hev
    obtain ⟨stop, hstop⟩ := hgoal s hs hcap
    have hcap₁ : s₁.segments.capacities.sum < 2 ^ 64 := by rwa [hevicts.capacities_eq]
    have hrest := evicts_rest hevicts hnodup hkeys
    obtain ⟨m, s₂, hrun₂, -⟩ := ih (n := n + 1) hintact hcap₁ (nodup_cons.mp hnodup).2 hrest
    cases stop with
    | true => exact ⟨n, s, by rw [evictLoop_cons ho, hstop]; rfl, trivial⟩
    | false => exact ⟨m, s₂, by rw [evictLoop_cons ho, hstop, bind_some, hrun₁]; exact hrun₂, trivial⟩

lemma victims_complete
    (hgoal : ∀ t : MasterService, Intact t → t.segments.capacities.sum < 2 ^ 64 → ∃ b, goal t.segments = some b)
    (hs : Intact s) (hcap : s.segments.capacities.sum < 2 ^ 64) :
    Completes (do let keys ← victimsColdestFirst; evictLoop goal 0 keys) (fun _ _ => True) s := by
  rw [completes_bind, victimsColdestFirst, completes_bind, now, completes_read]
  refine ⟨_, rfl, completes_read.mpr ⟨_, rfl, ?_⟩⟩
  exact evictLoop_completes hgoal hs hcap (victims_nodup _ _) fun k hk => mem_victims.mp hk

lemma passes_return (hs : Intact s) (hcap : s.segments.capacities.sum < 2 ^ 64) :
    evictIfNeeded.run s ≠ none ∧ ∀ needed, (evictToFit needed).run s ≠ none := by
  refine ⟨?_, fun needed => ?_⟩
  · have hpass : Completes evictIfNeeded (fun _ _ => True) s := by
      obtain ⟨hcapacity, m, hallocated⟩ := allocated_of_intact hs hcap
      rw [evictIfNeeded, completes_bind, completes_acquire, completes_bind, evictIfNeededLocked, completes_bind,
        completes_read]
      refine ⟨_, by rw [evictionDue, hcapacity, hallocated]; rfl, ?_⟩
      split_ifs with hover
      · refine (victims_complete (fun t ht hc => (goal_returns ht hc _).1) hs hcap).mono fun _ _ _ => ?_
        rw [completes_bind, completes_release, completes_pure]
        trivial
      · rw [completes_pure, completes_bind, completes_release, completes_pure]
        trivial
    obtain ⟨m, t, hrun, -⟩ := hpass
    rw [hrun]
    exact some_ne_none _
  · obtain ⟨m, t, hrun, -⟩ := victims_complete (fun t ht hc => (goal_returns ht hc needed).2) hs hcap
    rw [evictToFit, hrun]
    exact some_ne_none _

/-! ## What a pass evicts -/

/-- `order` lists the objects that are neither hard-pinned nor leased, soft-pinned ones last, then the oldest
access first. -/
structure EvictionOrder (s : MasterService) (order : List ObjectKey) : Prop where
  nodup : order.Nodup
  mem_iff : ∀ k, k ∈ order ↔ ∃ o, s.objects.lookup k = some o ∧ o.hardPinned = false ∧ o.leaseUntil ≤ s.clock
  sorted : order.Pairwise fun k l => ∀ o p, s.objects.lookup k = some o → s.objects.lookup l = some p →
    goesBefore o p

lemma evictionOrder_victims (s : MasterService) : EvictionOrder s (victims s.clock s.objects) := by
  refine ⟨victims_nodup _ _, fun k => ?_, victims_sorted _ _⟩
  rw [mem_victims]
  simp [evictable]

/-- Exactly `count` objects were evicted: a prefix of an eviction order, the shortest after which `goal` is met
or else all of it. Every other object is as before. -/
def EvictsPrefix (goal : SegmentState → Option Bool) (s : MasterService) (count : ℕ) (s' : MasterService) : Prop :=
  ∃ order, EvictionOrder s order ∧ Stops goal s order count s' ∧
    ∀ k, s'.objects.lookup k = if k ∈ order.take count then none else s.objects.lookup k

lemma Pass.evictsPrefix {count : ℕ} (h : Pass goal s count s') : EvictsPrefix goal s count s' :=
  ⟨_, evictionOrder_victims s, h.1, h.2.lookup_eq⟩

/-- **A put of one replica finds no room** only if no segment has a free region of its size after the eviction,
and the eviction has removed everything that is neither hard-pinned nor leased, or has stopped with that many
bytes free in the cluster. Nothing else has been removed, but what an earlier put of the key left. -/
theorem refused_only_without_room (s : MasterService) (hs : ReachableAny s) (key : ObjectKey)
    (identity : IdentityScope) (size : ℕ) (hpos : 0 < size) (hu64 : size < 2 ^ 64) (config : ReplicateConfig)
    (hone : config.replicaNum = 1) (s' : MasterService)
    (hrun : (putStart key identity size config).run s = some (.error .noAvailableSegment, s')) :
    (∀ a ∈ s'.segments.allocators, ∃ n, BufferAllocator.largestFreeRegion a = some n ∧ n < size) ∧
    ((∀ k o, s'.objects.lookup k = some o → o.hardPinned = true ∨ s.clock < o.leaseUntil) ∨
      freed size s'.segments = some true) ∧
    (∀ k, s'.objects.lookup k = s.objects.lookup k ∨ (s'.objects.lookup k = none ∧
      ∃ o, s.objects.lookup k = some o ∧ (k = key ∨ (o.hardPinned = false ∧ o.leaseUntil ≤ s.clock)))) := by
  obtain ⟨hintact, -⟩ := hs.intact
  obtain ⟨hintact', ⟨hr, -⟩ | ⟨hopen, ⟨ks, hframe⟩, ⟨bs, o, hr, -⟩ | ⟨-, hnone, hno, hdone⟩⟩⟩ :=
    putStart_intact hintact _ _ hrun
  · cases hr
  · cases hr
  have hclock := hframe.frame.clock_eq
  rw [hone, Nat.mul_one, Nat.min_eq_left (by omega)] at hdone
  refine ⟨fun a ha => ?_, hdone.symm.imp_left fun hgone k o ho => ?_, fun k => ?_⟩
  · obtain ⟨n, hn⟩ := (hintact' a ha).exists_largestFreeRegion
    refine ⟨n, hn, lt_of_not_ge fun hle => hno ⟨hpos, ?_⟩⟩
    rw [hone, Nat.succ_le_iff, countP_pos_iff]
    exact ⟨a, ha, offers_iff.mpr ⟨⟨n, hn, hle⟩, not_mem_nil⟩⟩
  · have hev := hgone k o ho
    rw [hclock] at hev
    by_contra hc
    push Not at hc
    simp [evictable, hc.1, hc.2] at hev
  · by_cases hk : k = key
    · subst hk
      cases ho : s.objects.lookup k with
      | none => exact .inl hnone
      | some o => exact .inr ⟨hnone, o, rfl, .inl rfl⟩
    · rw [hframe.lookup_ne k hk]
      split_ifs with hmem
      · obtain ⟨-, o, ho, hev⟩ := hframe.victim k hmem
        exact .inr ⟨rfl, o, ho, Or.inr (by simpa [evictable] using hev)⟩
      · exact .inl rfl

def quarters : List MasterOp :=
  [.mountSegment "a" 1024,
    .putStart "w" ⟨"m", "t", none, "u"⟩ 256 ⟨1, false, false, none⟩,
    .putStart "x" ⟨"m", "t", none, "u"⟩ 256 ⟨1, true, false, none⟩,
    .putStart "y" ⟨"m", "t", none, "u"⟩ 256 ⟨1, false, false, none⟩,
    .putStart "z" ⟨"m", "t", none, "u"⟩ 256 ⟨1, true, false, none⟩]

theorem refused_only_without_room_quarters :
    ∃ s s', ReachableAny s ∧
      (putStart "v" ⟨"m", "t", none, "u"⟩ 512 ⟨1, false, false, none⟩).run s =
        some (.error .noAvailableSegment, s') ∧
      ∀ a ∈ s'.segments.allocators, ∃ n, BufferAllocator.largestFreeRegion a = some n ∧ n < 512 := by
  have hrun : ((serveAll anyMounts quarters (new "random")).any fun s =>
      ((putStart "v" ⟨"m", "t", none, "u"⟩ 512 ⟨1, false, false, none⟩).run s).any fun r =>
        decide (r.1 = .error .noAvailableSegment)) = true := by decide +kernel
  obtain ⟨s, hs, hput⟩ := (Option.any_eq_true _ _).mp hrun
  obtain ⟨⟨r, s'⟩, hrun', hr⟩ := (Option.any_eq_true _ _).mp hput
  have hr : r = .error .noAvailableSegment := of_decide_eq_true hr
  subst hr
  have hreach := reachableAny_of_serveAll hs
  exact ⟨s, s', hreach, hrun',
    (refused_only_without_room s hreach _ _ 512 (by decide) (by decide) _ rfl s' hrun').1⟩

/-- Quarters are evicted until half the segment is free, but not the two next to each other: a put of half the
segment is refused, although evicting every candidate would leave the whole segment free. -/
theorem fragments_refuse :
    ∃ s s' order t, Reachable s ∧
      (putStart "v" ⟨"m", "t", none, "u"⟩ 512 ⟨1, false, false, none⟩).run s =
        some (.error .noAvailableSegment, s') ∧
      EvictionOrder s order ∧ (evictEach order).run s = some ((), t) ∧
      ∃ a ∈ t.segments.allocators, ∃ n, BufferAllocator.largestFreeRegion a = some n ∧ 512 ≤ n := by
  have hrun : ((serveAll freshMounts quarters (new "random")).any fun s =>
      (((putStart "v" ⟨"m", "t", none, "u"⟩ 512 ⟨1, false, false, none⟩).run s).any fun r =>
        decide (r.1 = .error .noAvailableSegment)) &&
      ((evictEach (victims s.clock s.objects)).run s).any fun r =>
        r.2.segments.allocators.any fun a =>
          (BufferAllocator.largestFreeRegion a).any fun n => decide (512 ≤ n)) = true := by
    decide +kernel
  obtain ⟨s, hs, hboth⟩ := (Option.any_eq_true _ _).mp hrun
  obtain ⟨hput, hevict⟩ := Bool.and_eq_true_iff.mp hboth
  obtain ⟨⟨r, s'⟩, hrun', hr⟩ := (Option.any_eq_true _ _).mp hput
  have hr : r = .error .noAvailableSegment := of_decide_eq_true hr
  subst hr
  obtain ⟨⟨_, t⟩, ht, hroom⟩ := (Option.any_eq_true _ _).mp hevict
  obtain ⟨a, ha, hlargest⟩ := List.any_eq_true.mp hroom
  obtain ⟨n, hn, hle⟩ := (Option.any_eq_true _ _).mp hlargest
  exact ⟨s, s', _, t, reachable_of_serveAll hs, hrun', evictionOrder_victims s, ht, a, ha, n, hn,
    of_decide_eq_true hle⟩

end QuillCache.Store.MasterService
