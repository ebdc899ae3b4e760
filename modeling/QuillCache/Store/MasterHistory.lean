import QuillCache.Store.MasterSerial

/-!
# Serial runs of a master

A master that serves one request at a time. In every run in which a mount names a segment that is not
mounted at that moment, the objects and the allocators describe the same buffers in every state reached
(`serial_consistent`).

`mount_segment` does not check this itself, and mounting a name twice breaks it: both allocators of the
name hand out the same ranges, and what is freed goes back to the first of them
(`remount_hands_out_twice`).
-/

namespace QuillCache.Store.MasterService

open Lib Relation

/-- One request is served, in a state in which it is allowed; or the hash maps change their iteration
order. -/
inductive Serves (allowed : MasterOp → MasterService → Prop) : MasterService → MasterService → Prop where
  | op {s s' : MasterService} (op : MasterOp) (hallowed : allowed op s)
      (hrun : op.prog.run s = some ((), s')) : Serves allowed s s'
  | shuffle {s s' : MasterService} (h : Shuffle s s') : Serves allowed s s'

section serveAll

variable (allowed : MasterOp → MasterService → Prop) [∀ op s, Decidable (allowed op s)]

def serveAll : List MasterOp → MasterService → Option MasterService
  | [], s => some s
  | op :: ops, s => if allowed op s then (op.prog.run s).bind fun r => serveAll ops r.2 else none

variable {allowed}

lemma serves_of_serveAll {ops : List MasterOp} {s s' : MasterService}
    (h : serveAll allowed ops s = some s') : ReflTransGen (Serves allowed) s s' := by
  induction ops generalizing s with
  | nil =>
    cases h
    exact .refl
  | cons op ops ih =>
    rw [serveAll] at h
    split_ifs at h with hallowed
    obtain ⟨⟨_, s₁⟩, hrun, hrest⟩ := Option.bind_eq_some_iff.mp h
    exact .head (.op op hallowed hrun) (ih hrest)

end serveAll

def mounts : MasterOp → Option (SegmentName × ℕ)
  | .mountSegment name capacity => some (name, capacity)
  | _ => none

def freshMounts (op : MasterOp) (s : MasterService) : Prop :=
  ∀ m ∈ mounts op, m.1 ∉ s.segments.names ∧ m.2 < 2 ^ 64

def anyMounts (op : MasterOp) (_ : MasterService) : Prop := ∀ m ∈ mounts op, m.2 < 2 ^ 64

instance (op : MasterOp) (s : MasterService) : Decidable (freshMounts op s) :=
  inferInstanceAs (Decidable (∀ m ∈ mounts op, _))

instance (op : MasterOp) (s : MasterService) : Decidable (anyMounts op s) :=
  inferInstanceAs (Decidable (∀ m ∈ mounts op, _))

lemma sound_serves {s s' : MasterService} (hs : Sound s.view) (hstep : Serves freshMounts s s') :
    Sound s'.view := by
  cases hstep with
  | op op hallowed hrun =>
    by_cases hop : ∃ name capacity, op = .mountSegment name capacity
    · obtain ⟨name, capacity, rfl⟩ := hop
      obtain ⟨hname, hcap⟩ := hallowed (name, capacity) rfl
      exact (mountSegment_runs hs hname hcap _ _ hrun).1
    · exact sound_runs (balanced_prog_of_ne fun name capacity h => hop ⟨name, capacity, h⟩) hs _ _ hrun
  | shuffle h =>
    rw [view_shuffle h]
    exact hs

lemma sound_reachable {strategy : String} {s : MasterService}
    (hrun : ReflTransGen (Serves freshMounts) (new strategy) s) : Sound s.view := by
  induction hrun with
  | refl => exact sound_new strategy
  | tail _ hstep ih => exact sound_serves ih hstep

/-- **Serial runs**: as long as mounts name segments that are not mounted, live buffers do not overlap,
the replicas of an object lie on distinct segments, and the allocators hold exactly the buffers of the
replicas. -/
theorem serial_consistent (strategy : String) (s : MasterService)
    (hrun : ReflTransGen (Serves freshMounts) (new strategy) s) : Consistent s :=
  consistent_of_sound (sound_reachable hrun)

def twoReplicas : List MasterOp :=
  [.mountSegment "a" 1024, .mountSegment "b" 1024,
    .putStart "x" ⟨"m", "t", none, "u"⟩ 100 ⟨2, false, false, none⟩]

theorem serial_consistent_twoReplicas :
    ∃ s, ReflTransGen (Serves freshMounts) (new "random") s ∧ s.memoryBuffers.length = 2 ∧
      Consistent s := by
  have hrun : ((serveAll freshMounts twoReplicas (new "random")).any fun s =>
      s.memoryBuffers.length = 2) = true := by decide +kernel
  obtain ⟨s, hs, hlen⟩ := (Option.any_eq_true _ _).mp hrun
  exact ⟨s, serves_of_serveAll hs, of_decide_eq_true hlen,
    serial_consistent "random" s (serves_of_serveAll hs)⟩

def remounted : List MasterOp :=
  [.mountSegment "a" 1024, .mountSegment "a" 1024,
    .putStart "x" ⟨"m", "t", none, "u"⟩ 100 ⟨2, false, false, none⟩]

/-- Mounting a name twice: an object with two replicas gets the same range of the same segment twice;
when it is removed, both buffers go back to the first allocator of the name, which has issued only one
of them, and the bytes of the other one stay allocated. -/
theorem remount_hands_out_twice :
    ∃ s s', ReflTransGen (Serves anyMounts) (new "random") s ∧
      ReflTransGen (Serves anyMounts) s s' ∧
      (¬s.memoryBuffers.Pairwise fun b c =>
        b.segmentName = c.segmentName → RangesDisjoint b.offset b.size c.offset c.size) ∧
      (¬∀ o ∈ s.objects.values, (o.replicas.values.map Replica.segmentName).Nodup) ∧
      s'.segments.allocated ≠ some (s'.replicas.map Replica.size).sum := by
  have hrun : ((serveAll anyMounts remounted (new "random")).any fun s =>
      (¬s.memoryBuffers.Pairwise fun b c =>
        b.segmentName = c.segmentName → RangesDisjoint b.offset b.size c.offset c.size) ∧
      (¬∀ o ∈ s.objects.values, (o.replicas.values.map Replica.segmentName).Nodup) ∧
      ((serveAll anyMounts [.remove "x" true] s).any fun s' =>
        s'.segments.allocated ≠ some (s'.replicas.map Replica.size).sum) = true) = true := by
    decide +kernel
  obtain ⟨s, hs, hbad⟩ := (Option.any_eq_true _ _).mp hrun
  obtain ⟨hoverlap, hsame, hremove⟩ := of_decide_eq_true hbad
  obtain ⟨s', hs', hleak⟩ := (Option.any_eq_true _ _).mp hremove
  exact ⟨s, s', serves_of_serveAll hs, serves_of_serveAll hs', hoverlap, hsame, of_decide_eq_true hleak⟩

/-! ## Reachable states -/

/-- A serial run: requests, and the calls that change only the heartbeats, the owners or the lifetime of segments
(`heartbeat`, `client_heartbeat`, `set_segment_ttl`). -/
inductive Uses : MasterService → MasterService → Prop where
  | serves {s s' : MasterService} (h : Serves freshMounts s s') : Uses s s'
  | tunes {s s' : MasterService} (h : s' = { s with
      segmentHeartbeat := s'.segmentHeartbeat, segmentTtl := s'.segmentTtl, segmentOwner := s'.segmentOwner }) :
      Uses s s'

def started (strategy : String) (logging : Bool) : MasterService :=
  if logging then (new strategy).enableOplog else new strategy

lemma sound_uses {s s' : MasterService} (hs : Sound s.view) (h : Uses s s') : Sound s'.view := by
  cases h with
  | serves h => exact sound_serves hs h
  | tunes h =>
    rw [h]
    exact hs

lemma sound_used {s s' : MasterService} (hs : Sound s.view) (hrun : ReflTransGen Uses s s') : Sound s'.view := by
  induction hrun with
  | refl => exact hs
  | tail _ hstep ih => exact sound_uses ih hstep

lemma sound_started (strategy : String) (logging : Bool) : Sound (started strategy logging).view := by
  cases logging with
  | false => exact sound_new strategy
  | true => exact sound_new strategy

def Reachable (s : MasterService) : Prop :=
  ∃ strategy logging, ReflTransGen Uses (started strategy logging) s

lemma Reachable.sound {s : MasterService} (h : Reachable s) : Sound s.view := by
  obtain ⟨strategy, logging, hrun⟩ := h
  exact sound_used (sound_started strategy logging) hrun

lemma reachable_of_serveAll {ops : List MasterOp} {strategy : String} {s : MasterService}
    (h : serveAll freshMounts ops (new strategy) = some s) : Reachable s :=
  ⟨strategy, false, (serves_of_serveAll h).lift id fun _ _ hstep => Uses.serves hstep⟩

end QuillCache.Store.MasterService
