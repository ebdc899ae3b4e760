import QuillCache.Lib.Registry
import QuillCache.Store.Master

/-!
# Segments that clients own

The client side of the segment lifecycle: `remount_segments`, `client_heartbeat` and `unmount_segment_for`. Mounts,
heartbeats and owners are three tables with a mutex each; a section of an operation holds one of them.

Run one at a time the operations keep the tables in step. When they overlap, two clients that remount one name both
mount it (`remounted_twice`), and a heartbeat revives a segment that is unmounted before it gets to refresh it
(`unmounted_alive`).

For each name the operations are turns of a `Registry`, as long as no work begins that gets in the way of other work
on the name (`Apart`). Then the tables agree whenever no operation is in progress (`lifecycle_consistent`).

Source: `master_service.rs`.
-/

namespace QuillCache.Store

open Lib Prog Relation AList Function List Option

inductive Stage where
  | check (name : SegmentName)
  | announce (name : SegmentName)
  | push (name : SegmentName)
  | log (name : SegmentName)
  | own (name : SegmentName)
  | collect (client : String)
  | refresh (names : List SegmentName)
  | drop (name : SegmentName)
  | unbeat (name : SegmentName)
  | disown (name : SegmentName)
  | silent
  deriving DecidableEq

abbrev LifeProg := Prog Stage MasterService

namespace MasterService

def mounted (name : SegmentName) (s : MasterService) : Bool :=
  s.segments.allocators.any fun a => a.segmentName = name

def segmentsOwnedBy (client : String) (s : MasterService) : List SegmentName :=
  (s.segmentOwner.entries.filter fun e => e.2 = client).map Sigma.fst

def segmentAlive (segment : SegmentName) (s : MasterService) : Bool :=
  match s.segmentHeartbeat.lookup segment with
  | some last => s.segmentTtl = 0 ∨ s.clock - last ≤ s.segmentTtl
  | none => false

def setOwner (client : String) (name : SegmentName) (s : MasterService) : MasterService :=
  { s with segmentOwner := s.segmentOwner.insert name client }

/-- Drop the replicas on a segment and its allocators; whether there were any. -/
def dropSegment (name : SegmentName) : Exec MasterService Bool := fun s =>
  if s.mounted name then
    some (true, { s with
      objects := dropSegmentReplicas name s.objects
      segments := { s.segments with allocators := s.segments.allocators.filter fun a => a.segmentName ≠ name } })
  else some (false, s)

def beat (segment : SegmentName) (now : ℕ) : Exec MasterService (Except ErrorCode Unit) := fun s =>
  if segment ∈ s.segmentHeartbeat then
    some (.ok (), { s with segmentHeartbeat := s.segmentHeartbeat.update segment fun _ => now })
  else some (.error .segmentNotFound, s)

end MasterService

namespace Lifecycle

open MasterService

/-! ## The operations -/

def mountSegment (name : SegmentName) (capacity : ℕ) : LifeProg Unit := do
  section_ (.announce name) (modify fun s =>
    { s with segmentHeartbeat := s.segmentHeartbeat.insert name s.clock })
  section_ (.push name) (pushSegment name capacity)
  section_ (.log name) (modify fun s => { s with oplog := s.oplog.map (· ++ [.segmentMounted name capacity]) })

def mountSegmentFor (client : String) (name : SegmentName) (capacity : ℕ) : LifeProg Unit := do
  mountSegment name capacity
  section_ (.own name) (modify (setOwner client name))

def clientHeartbeat (client : String) : LifeProg Unit := do
  let now ← section_ .silent fun s => some (s.clock, s)
  let owned ← section_ (.collect client) fun s => some (s.segmentsOwnedBy client, s)
  section_ (.refresh owned) (modify fun s =>
    { s with segmentHeartbeat := s.segmentHeartbeat.insertAll id (fun _ => now) owned })

def remountSegment (client : String) (name : SegmentName) (capacity : ℕ) : LifeProg Unit := do
  let mounted ← section_ (.check name) fun s => some (s.mounted name, s)
  if mounted then section_ (.own name) (modify (setOwner client name))
  else mountSegmentFor client name capacity

def remountSegments (client : String) : List (SegmentName × ℕ) → LifeProg Unit
  | [] => clientHeartbeat client
  | (name, capacity) :: segments => do
    remountSegment client name capacity
    remountSegments client segments

/-- The replicas and the allocators are dropped under the segments mutex, in one section here. -/
def unmountSegment (name : SegmentName) : LifeProg (Except ErrorCode Unit) := do
  let found ← section_ (.drop name) (dropSegment name)
  if !found then return .error .segmentNotFound
  else
    section_ (.unbeat name) (modify fun s => { s with segmentHeartbeat := s.segmentHeartbeat.erase name })
    section_ (.disown name) (modify fun s => { s with segmentOwner := s.segmentOwner.erase name })
    section_ .silent (modify fun s => { s with oplog := s.oplog.map (· ++ [.segmentUnmounted name]) })
    return .ok ()

def unmountSegmentFor (client : String) (name : SegmentName) : LifeProg (Except ErrorCode Unit) := do
  let owns ← section_ .silent fun s => some (s.segmentOwner.lookup name == some client, s)
  if !owns then return .error .segmentNotFound
  else unmountSegment name

def heartbeat (segment : SegmentName) : LifeProg (Except ErrorCode Unit) := do
  let now ← section_ .silent fun s => some (s.clock, s)
  section_ .silent (beat segment now)

lemma mountSegment_run (name : SegmentName) (capacity : ℕ) :
    (mountSegment name capacity).run = (MasterService.mountSegment name capacity).run := by
  simp only [mountSegment, MasterService.mountSegment, MasterService.update, logOp, run_bind, run_section,
    run_acquire, run_release, pure_bind]

lemma unmountSegment_run (name : SegmentName) :
    (unmountSegment name).run = (MasterService.unmountSegment name).run := by
  funext s
  cases hm : s.mounted name with
  | false =>
    have hdrop : dropSegment name s = some (false, s) := by
      rw [dropSegment, hm]
      rfl
    have hleft : (unmountSegment name).run s = some (.error .segmentNotFound, s) :=
      bind_eq_some.mpr ⟨false, s, hdrop, rfl⟩
    have hright : (MasterService.unmountSegment name).run s = some (.error .segmentNotFound, s) := by
      refine bind_eq_some.mpr ⟨s.mounted name, s, rfl, ?_⟩
      rw [hm]
      rfl
    rw [hleft, hright]
  | true =>
    have hdrop : ∃ s', dropSegment name s = some (true, s') ∧
        s' = { s with
          objects := dropSegmentReplicas name s.objects
          segments := { s.segments with
            allocators := s.segments.allocators.filter fun a => a.segmentName ≠ name } } :=
      ⟨_, if_pos hm, rfl⟩
    obtain ⟨s', hdrop, rfl⟩ := hdrop
    have hleft : (unmountSegment name).run s = some (.ok (), _) := bind_eq_some.mpr ⟨true, _, hdrop, rfl⟩
    rw [hleft]
    refine (bind_eq_some.mpr ⟨s.mounted name, s, rfl, ?_⟩).symm
    rw [hm]
    rfl

/-! ## What a section does -/

/-- How far a thread has got with the segment `name`, from the section that is next. -/
def roleOf (name : SegmentName) : Option Stage → Role
  | some (.announce n) => if n = name then .announcing else .quiet
  | some (.push n) => if n = name then .adding else .quiet
  | some (.log n) => if n = name then .claiming else .quiet
  | some (.own n) => if n = name then .claiming else .quiet
  | some (.refresh names) => if name ∈ names then .refreshing else .quiet
  | some (.unbeat n) => if n = name then .withdrawing else .quiet
  | some (.disown n) => if n = name then .releasing else .quiet
  | _ => .quiet

def Quiet (next : Option Stage) : Prop := ∀ name, roleOf name next = .quiet

/-- The names in the three tables. -/
@[ext]
structure Names where
  count : SegmentName → ℕ
  beats : SegmentName → Bool
  owned : SegmentName → Bool

def namesOf (s : MasterService) : Names where
  count name := s.segments.allocators.countP fun a => a.segmentName = name
  beats name := decide (name ∈ s.segmentHeartbeat)
  owned name := decide (name ∈ s.segmentOwner)

/-- What a section does to the names in the tables, and what comes next. -/
def Effect (stage : Stage) (s s' : MasterService) (next : Option Stage) : Prop :=
  match stage with
  | .check n => s' = s ∧ next = some (if s.mounted n then .own n else .announce n)
  | .announce n => namesOf s' = { namesOf s with beats := Function.update (namesOf s).beats n true } ∧
      next = some (.push n)
  | .push n => namesOf s' = { namesOf s with count := Function.update (namesOf s).count n ((namesOf s).count n + 1) } ∧
      next = some (.log n)
  | .log n => namesOf s' = namesOf s ∧ next = some (.own n)
  | .own n => namesOf s' = { namesOf s with owned := Function.update (namesOf s).owned n true } ∧ Quiet next
  | .collect client => s' = s ∧ next = some (.refresh (s.segmentsOwnedBy client))
  | .refresh names =>
    namesOf s' = { namesOf s with beats := fun n => decide (n ∈ names) || (namesOf s).beats n } ∧ Quiet next
  | .drop n =>
    if s.mounted n then
      namesOf s' = { namesOf s with count := Function.update (namesOf s).count n 0 } ∧ next = some (.unbeat n)
    else s' = s ∧ Quiet next
  | .unbeat n => namesOf s' = { namesOf s with beats := Function.update (namesOf s).beats n false } ∧
      next = some (.disown n)
  | .disown n => namesOf s' = { namesOf s with owned := Function.update (namesOf s).owned n false } ∧ Quiet next
  | .silent => namesOf s' = namesOf s ∧ Quiet next

/-- Every section of the program has its effect. -/
def Orderly {α : Type} : LifeProg α → Prop
  | .ret _ => True
  | .sec l m k => (∀ s b s', m s = some (b, s') → Effect l s s' (k b).next) ∧ ∀ b, Orderly (k b)
  | .lock _ => False
  | .unlock _ => False

section effects

variable {s s' : MasterService} {stage : Stage} {next : Option Stage} {name n : SegmentName}

lemma mounted_iff : s.mounted name = true ↔ 0 < (namesOf s).count name := by
  rw [mounted, List.any_eq_true, namesOf, countP_pos_iff]

lemma owned_of_mem {client : String} (h : name ∈ s.segmentsOwnedBy client) : (namesOf s).owned name = true := by
  obtain ⟨e, he, rfl⟩ := List.mem_map.mp h
  refine decide_eq_true (mem_iff_exists_lookup.mpr ⟨e.2, ?_⟩)
  exact mem_items.mp (mem_filter.mp he).1

lemma namesOf_announce (s : MasterService) (n : SegmentName) (now : ℕ) :
    namesOf { s with segmentHeartbeat := s.segmentHeartbeat.insert n now } =
      { namesOf s with beats := Function.update (namesOf s).beats n true } := by
  ext m
  · rfl
  · rcases eq_or_ne m n with rfl | hne
    · simp [namesOf]
    · simp [namesOf, hne]
  · rfl

lemma namesOf_unbeat (s : MasterService) (n : SegmentName) :
    namesOf { s with segmentHeartbeat := s.segmentHeartbeat.erase n } =
      { namesOf s with beats := Function.update (namesOf s).beats n false } := by
  ext m
  · rfl
  · rcases eq_or_ne m n with rfl | hne
    · simp [namesOf]
    · simp [namesOf, hne]
  · rfl

lemma namesOf_own (s : MasterService) (client : String) (n : SegmentName) :
    namesOf (setOwner client n s) = { namesOf s with owned := Function.update (namesOf s).owned n true } := by
  ext m
  · rfl
  · rfl
  · rcases eq_or_ne m n with rfl | hne
    · simp [namesOf, setOwner]
    · simp [namesOf, setOwner, hne]

lemma namesOf_disown (s : MasterService) (n : SegmentName) :
    namesOf { s with segmentOwner := s.segmentOwner.erase n } =
      { namesOf s with owned := Function.update (namesOf s).owned n false } := by
  ext m
  · rfl
  · rfl
  · rcases eq_or_ne m n with rfl | hne
    · simp [namesOf]
    · simp [namesOf, hne]

lemma namesOf_refresh (s : MasterService) (names : List SegmentName) (now : ℕ) :
    namesOf { s with segmentHeartbeat := s.segmentHeartbeat.insertAll id (fun _ => now) names } =
      { namesOf s with beats := fun n => decide (n ∈ names) || (namesOf s).beats n } := by
  ext m
  · rfl
  · simp [namesOf, mem_insertAll]
  · rfl

lemma namesOf_push {capacity : ℕ} (h : pushSegment n capacity s = some ((), s')) :
    namesOf s' = { namesOf s with count := Function.update (namesOf s).count n ((namesOf s).count n + 1) } := by
  rw [pushSegment, map_eq_some_iff] at h
  obtain ⟨a, ha, heq⟩ := h
  cases heq
  have hname : a.segmentName = n := by
    obtain ⟨inner, -, hinner⟩ := bind_eq_some_iff.mp ha
    cases hinner
    rfl
  ext m
  · rcases eq_or_ne m n with rfl | hne
    · simp [namesOf, countP_append, hname]
    · simp [namesOf, countP_append, hname, hne, hne.symm]
  · rfl
  · rfl

lemma namesOf_drop (s : MasterService) (n : SegmentName) (objects : ObjectMap) :
    namesOf { s with
      objects := objects
      segments := { s.segments with allocators := s.segments.allocators.filter fun a => a.segmentName ≠ n } } =
      { namesOf s with count := Function.update (namesOf s).count n 0 } := by
  ext m
  · rcases eq_or_ne m n with rfl | hne
    · simp [namesOf, countP_filter]
    · simp only [namesOf, countP_filter, update_of_ne hne]
      refine countP_congr fun a _ => ?_
      by_cases ha : a.segmentName = m
      · simp [ha, hne]
      · simp [ha]
  · rfl
  · rfl

lemma namesOf_beat {segment : SegmentName} {now : ℕ} {r : Except ErrorCode Unit} (h : beat segment now s = some (r, s')) :
    namesOf s' = namesOf s := by
  rw [beat] at h
  split_ifs at h with hmem
  · cases h
    ext m
    · rfl
    · simp only [namesOf, decide_eq_decide, ← lookup_isSome, lookup_update]
      split_ifs <;> simp
    · rfl
  · cases h
    rfl

lemma Effect.of_none (h : Effect stage s s' none) (hnext : Quiet next) : Effect stage s s' next := by
  cases stage with
  | own n => exact ⟨h.1, hnext⟩
  | refresh names => exact ⟨h.1, hnext⟩
  | disown n => exact ⟨h.1, hnext⟩
  | silent => exact ⟨h.1, hnext⟩
  | drop n =>
    simp only [Effect] at h ⊢
    split_ifs at h ⊢
    · cases h.2
    · exact ⟨h.1, hnext⟩
  | check n => cases h.2
  | announce n => cases h.2
  | push n => cases h.2
  | log n => cases h.2
  | collect client => cases h.2
  | unbeat n => cases h.2

end effects

section orderly

variable {α β : Type} {p : LifeProg α} {f : α → LifeProg β}

lemma Orderly.bind (hp : Orderly p) (hf : ∀ a, Orderly (f a)) (hquiet : ∀ a, Quiet (f a).next) :
    Orderly (p >>= f) := by
  change Orderly (p.bind f)
  induction p with
  | ret a => exact hf a
  | sec l m k ih =>
    refine ⟨fun s b s' hm => ?_, fun b => ih b (hp.2 b)⟩
    show Effect l s s' ((k b).bind f).next
    have heffect := hp.1 s b s' hm
    have hb := hp.2 b
    cases hk : k b with
    | ret a =>
      rw [hk] at heffect
      exact heffect.of_none (hquiet a)
    | sec l' m' k' =>
      rw [hk] at heffect
      exact heffect
    | lock k' =>
      rw [hk] at hb
      exact hb.elim
    | unlock k' =>
      rw [hk] at hb
      exact hb.elim
  | lock k => exact hp.elim
  | unlock k => exact hp.elim

lemma quiet_none : Quiet none := fun _ => rfl

lemma quiet_silent : Quiet (some .silent) := fun _ => rfl

lemma quiet_check (n : SegmentName) : Quiet (some (.check n)) := fun _ => rfl

lemma quiet_drop (n : SegmentName) : Quiet (some (.drop n)) := fun _ => rfl

lemma quiet_collect (client : String) : Quiet (some (.collect client)) := fun _ => rfl

lemma orderly_silent {m : Exec MasterService α} (hm : ∀ s b s', m s = some (b, s') → namesOf s' = namesOf s) :
    Orderly (section_ .silent m) :=
  ⟨fun s b s' h => ⟨hm s b s' h, quiet_none⟩, fun _ => trivial⟩

lemma orderly_own (client : String) (name : SegmentName) :
    Orderly (section_ (.own name) (modify (setOwner client name))) := by
  refine ⟨fun s b s' h => ?_, fun _ => trivial⟩
  cases h
  exact ⟨namesOf_own s client name, quiet_none⟩

lemma orderly_mountSegmentFor (client : String) (name : SegmentName) (capacity : ℕ) :
    Orderly (mountSegmentFor client name capacity) := by
  refine ⟨fun s b s' h => ?_, fun _ => ⟨fun s b s' h => ?_, fun _ => ⟨fun s b s' h => ?_, fun _ => ?_⟩⟩⟩
  · cases h
    exact ⟨namesOf_announce s name s.clock, rfl⟩
  · exact ⟨namesOf_push h, rfl⟩
  · cases h
    exact ⟨rfl, rfl⟩
  · exact orderly_own client name

lemma orderly_clientHeartbeat (client : String) : Orderly (clientHeartbeat client) := by
  refine ⟨fun s b s' h => ?_, fun now => ⟨fun s b s' h => ?_, fun owned => ⟨fun s b s' h => ?_, fun _ => trivial⟩⟩⟩
  · cases h
    exact ⟨rfl, quiet_collect client⟩
  · cases h
    exact ⟨rfl, rfl⟩
  · cases h
    exact ⟨namesOf_refresh s owned now, quiet_none⟩

lemma orderly_remountSegment (client : String) (name : SegmentName) (capacity : ℕ) :
    Orderly (remountSegment client name capacity) := by
  refine ⟨fun s b s' h => ?_, fun b => ?_⟩
  · cases h
    refine ⟨rfl, ?_⟩
    cases s.mounted name <;> rfl
  · cases b with
    | true => exact orderly_own client name
    | false => exact orderly_mountSegmentFor client name capacity

lemma quiet_remountSegments (client : String) (segments : List (SegmentName × ℕ)) :
    Quiet (remountSegments client segments).next := by
  cases segments with
  | nil => exact quiet_silent
  | cons x segments => exact quiet_check x.1

lemma orderly_remountSegments (client : String) (segments : List (SegmentName × ℕ)) :
    Orderly (remountSegments client segments) := by
  induction segments with
  | nil => exact orderly_clientHeartbeat client
  | cons x segments ih =>
    exact (orderly_remountSegment client x.1 x.2).bind (fun _ => ih) fun _ => quiet_remountSegments client segments

lemma orderly_unmountSegment (name : SegmentName) : Orderly (unmountSegment name) := by
  refine ⟨fun s b s' h => ?_, fun b => ?_⟩
  · rw [dropSegment] at h
    split_ifs at h with hm
    · cases h
      simp only [Effect, hm, if_true]
      exact ⟨namesOf_drop s name _, rfl⟩
    · cases h
      simp only [Effect, hm]
      exact ⟨trivial, quiet_none⟩
  · cases b with
    | false => trivial
    | true =>
      refine ⟨fun s b s' h => ?_, fun _ => ⟨fun s b s' h => ?_, fun _ => ⟨fun s b s' h => ?_, fun _ => trivial⟩⟩⟩
      · cases h
        exact ⟨namesOf_unbeat s name, rfl⟩
      · cases h
        exact ⟨namesOf_disown s name, quiet_silent⟩
      · cases h
        exact ⟨rfl, quiet_none⟩

lemma orderly_unmountSegmentFor (client : String) (name : SegmentName) :
    Orderly (unmountSegmentFor client name) := by
  refine ⟨fun s b s' h => ?_, fun b => ?_⟩
  · cases h
    refine ⟨rfl, ?_⟩
    cases s.segmentOwner.lookup name == some client with
    | false => exact quiet_none
    | true => exact quiet_drop name
  · cases b with
    | false => trivial
    | true => exact orderly_unmountSegment name

lemma orderly_heartbeat (segment : SegmentName) : Orderly (heartbeat segment) := by
  refine ⟨fun s b s' h => ?_, fun now => orderly_silent fun s b s' h => namesOf_beat h⟩
  cases h
  exact ⟨rfl, quiet_silent⟩

end orderly

/-! ## Interleavings -/

inductive Op where
  | remountSegments (client : String) (segments : List (SegmentName × ℕ))
  | clientHeartbeat (client : String)
  | unmountSegmentFor (client : String) (name : SegmentName)
  | heartbeat (segment : SegmentName)
  | tick

def Op.prog : Op → LifeProg Unit
  | remountSegments client segments => Lifecycle.remountSegments client segments
  | clientHeartbeat client => Lifecycle.clientHeartbeat client
  | unmountSegmentFor client name => do
    let _ ← Lifecycle.unmountSegmentFor client name
    return ()
  | heartbeat segment => do
    let _ ← Lifecycle.heartbeat segment
    return ()
  | tick => do
    let _ ← section_ .silent MasterService.tick.run
    return ()

lemma orderly_prog (op : Op) : Orderly op.prog ∧ Quiet op.prog.next := by
  cases op with
  | remountSegments client segments =>
    exact ⟨orderly_remountSegments client segments, quiet_remountSegments client segments⟩
  | clientHeartbeat client => exact ⟨orderly_clientHeartbeat client, quiet_silent⟩
  | unmountSegmentFor client name =>
    exact ⟨(orderly_unmountSegmentFor client name).bind (fun _ => trivial) fun _ => quiet_none, quiet_silent⟩
  | heartbeat segment =>
    exact ⟨(orderly_heartbeat segment).bind (fun _ => trivial) fun _ => quiet_none, quiet_silent⟩
  | tick =>
    refine ⟨(orderly_silent fun s b s' h => ?_).bind (fun _ => trivial) fun _ => quiet_none, quiet_silent⟩
    have htick : Pc MasterService.tick.run (fun _ s' => namesOf s' = namesOf s) s := by
      rw [MasterService.tick, run_section, pc_bind, pc_get, pc_bind, pc_set, pc_addChecked]
      exact fun _ => rfl
    exact htick b s' h

def role (c : Config Stage MasterService) (name : SegmentName) (j : ℕ) : Role := roleOf name (c.threads j).next

/-- The next section of thread `i` begins no work that gets in the way of another thread: it does not find a segment
unmounted while another thread mounts or unmounts it, drop it while another thread is to enter its owner or to refresh
its heartbeat, or list it for a heartbeat while another thread unmounts it. -/
def Apart (c : Config Stage MasterService) (i : ℕ) : Prop :=
  match (c.threads i).next with
  | some (.check n) => c.shared.mounted n = false → ∀ j ≠ i, (role c n j).changing = false
  | some (.drop n) => c.shared.mounted n = true → ∀ j ≠ i, (role c n j).relying = false
  | some (.collect client) => ∀ n ∈ c.shared.segmentsOwnedBy client, ∀ j ≠ i, (role c n j).removing = false
  | _ => True

/-- A thread does its next section, if it is `allowed` to, or an idle thread starts an operation. -/
inductive Step (allowed : Config Stage MasterService → ℕ → Prop) :
    Config Stage MasterService → Config Stage MasterService → Prop where
  | move {c c' : Config Stage MasterService} (i : ℕ) (hallowed : allowed c i) (h : c.Moves i c') : Step allowed c c'
  | start {c : Config Stage MasterService} (i : ℕ) (op : Op) (hi : c.threads i = .ret ()) :
      Step allowed c ⟨c.shared, c.holder, Function.update c.threads i op.prog⟩

def view (name : SegmentName) (c : Config Stage MasterService) : Registry where
  count := (namesOf c.shared).count name
  announced := (namesOf c.shared).beats name
  owned := (namesOf c.shared).owned name
  role := role c name

section turns

variable {c c' : Config Stage MasterService} {i : ℕ} {name : SegmentName} {s' : MasterService} {p : LifeProg Unit}

lemma view_update (name : SegmentName) (c : Config Stage MasterService) (s' : MasterService) (holder : Option ℕ) (i : ℕ)
    (p : LifeProg Unit) :
    view name ⟨s', holder, Function.update c.threads i p⟩ =
      ⟨(namesOf s').count name, (namesOf s').beats name, (namesOf s').owned name,
        Function.update (view name c).role i (roleOf name p.next)⟩ := by
  refine congrArg (Registry.mk _ _ _) (funext fun j => ?_)
  rcases eq_or_ne j i with rfl | hne
  · simp only [role, update_self]
  · simp only [role, view, update_of_ne hne]

lemma turn_rest (hcount : (namesOf s').count name = (namesOf c.shared).count name)
    (hbeats : (namesOf s').beats name = (namesOf c.shared).beats name)
    (howned : (namesOf s').owned name = (namesOf c.shared).owned name)
    (hrole : (view name c).role i = roleOf name p.next) :
    Registry.Turn i (view name c) ⟨(namesOf s').count name, (namesOf s').beats name, (namesOf s').owned name,
      Function.update (view name c).role i (roleOf name p.next)⟩ := by
  rw [hcount, hbeats, howned, ← hrole, update_eq_self]
  exact .rest _

/-- **A section is a turn** of the registry of every segment. -/
lemma Effect.turn {stage : Stage} (h : Effect stage c.shared s' p.next) (hi : (c.threads i).next = some stage)
    (hapart : Apart c i) (holder : Option ℕ) (name : SegmentName) :
    Registry.Turn i (view name c) (view name ⟨s', holder, Function.update c.threads i p⟩) := by
  have hrole : (view name c).role i = roleOf name (some stage) := congrArg (roleOf name) hi
  rw [Apart, hi] at hapart
  rw [view_update]
  cases stage with
  | check n =>
    obtain ⟨rfl, hnext⟩ := h
    rcases eq_or_ne n name with rfl | hne
    · by_cases hm : c.shared.mounted n = true
      · rw [if_pos hm] at hnext
        rw [hnext, roleOf, if_pos rfl]
        exact .findPresent hrole (mounted_iff.mp hm)
      · rw [if_neg hm] at hnext
        rw [hnext, roleOf, if_pos rfl]
        exact .findAbsent hrole (Nat.eq_zero_of_not_pos (mt mounted_iff.mpr hm)) (hapart (eq_false_of_ne_true hm))
    · refine turn_rest rfl rfl rfl ?_
      rw [hrole, hnext]
      cases c.shared.mounted n <;> simp [roleOf, hne]
  | announce n =>
    obtain ⟨hnames, hnext⟩ := h
    rcases eq_or_ne n name with rfl | hne
    · rw [hnames, hnext, roleOf, if_pos rfl]
      simp only [update_self]
      exact .announce (by rw [hrole, roleOf, if_pos rfl])
    · refine turn_rest (by rw [hnames]) (by simp [hnames, hne.symm]) (by rw [hnames]) ?_
      rw [hrole, hnext, roleOf, roleOf, if_neg hne, if_neg hne]
  | push n =>
    obtain ⟨hnames, hnext⟩ := h
    rcases eq_or_ne n name with rfl | hne
    · rw [hnames, hnext, roleOf, if_pos rfl]
      simp only [update_self]
      exact .add (by rw [hrole, roleOf, if_pos rfl])
    · refine turn_rest (by simp [hnames, hne.symm]) (by rw [hnames]) (by rw [hnames]) ?_
      rw [hrole, hnext, roleOf, roleOf, if_neg hne, if_neg hne]
  | log n =>
    obtain ⟨hnames, hnext⟩ := h
    refine turn_rest (by rw [hnames]) (by rw [hnames]) (by rw [hnames]) ?_
    rw [hrole, hnext, roleOf, roleOf]
  | own n =>
    obtain ⟨hnames, hnext⟩ := h
    rcases eq_or_ne n name with rfl | hne
    · rw [hnames, hnext n]
      simp only [update_self]
      exact .claim (by rw [hrole, roleOf, if_pos rfl])
    · refine turn_rest (by rw [hnames]) (by rw [hnames]) (by simp [hnames, hne.symm]) ?_
      rw [hrole, hnext name, roleOf, if_neg hne]
  | collect client =>
    obtain ⟨rfl, hnext⟩ := h
    by_cases hmem : name ∈ c.shared.segmentsOwnedBy client
    · rw [hnext, roleOf, if_pos hmem]
      exact .collect hrole (owned_of_mem hmem) (hapart name hmem)
    · refine turn_rest rfl rfl rfl ?_
      simp [hrole, hnext, roleOf, hmem]
  | refresh names =>
    obtain ⟨hnames, hnext⟩ := h
    by_cases hmem : name ∈ names
    · rw [hnames, hnext name]
      simp only [hmem, decide_true, Bool.true_or]
      exact .refresh (by rw [hrole, roleOf, if_pos hmem])
    · refine turn_rest (by rw [hnames]) (by simp [hnames, hmem]) (by rw [hnames]) ?_
      rw [hrole, hnext name, roleOf, if_neg hmem]
  | drop n =>
    simp only [Effect] at h
    split_ifs at h with hm
    · obtain ⟨hnames, hnext⟩ := h
      rcases eq_or_ne n name with rfl | hne
      · rw [hnames, hnext, roleOf, if_pos rfl]
        simp only [update_self]
        exact .remove hrole (mounted_iff.mp hm) (hapart hm)
      · refine turn_rest (by simp [hnames, hne.symm]) (by rw [hnames]) (by rw [hnames]) ?_
        simp [hrole, hnext, roleOf, hne]
    · obtain ⟨rfl, hnext⟩ := h
      exact turn_rest rfl rfl rfl (by rw [hrole, hnext name]; rfl)
  | unbeat n =>
    obtain ⟨hnames, hnext⟩ := h
    rcases eq_or_ne n name with rfl | hne
    · rw [hnames, hnext, roleOf, if_pos rfl]
      simp only [update_self]
      exact .withdraw (by rw [hrole, roleOf, if_pos rfl])
    · refine turn_rest (by rw [hnames]) (by simp [hnames, hne.symm]) (by rw [hnames]) ?_
      rw [hrole, hnext, roleOf, roleOf, if_neg hne, if_neg hne]
  | disown n =>
    obtain ⟨hnames, hnext⟩ := h
    rcases eq_or_ne n name with rfl | hne
    · rw [hnames, hnext n]
      simp only [update_self]
      exact .release (by rw [hrole, roleOf, if_pos rfl])
    · refine turn_rest (by rw [hnames]) (by rw [hnames]) (by simp [hnames, hne.symm]) ?_
      rw [hrole, hnext name, roleOf, if_neg hne]
  | silent =>
    obtain ⟨hnames, hnext⟩ := h
    refine turn_rest (by rw [hnames]) (by rw [hnames]) (by rw [hnames]) ?_
    rw [hrole, hnext name]
    rfl

end turns

/-- The programs of the threads are orderly, and the tables agree about every segment up to the work in progress. -/
structure Inv (c : Config Stage MasterService) : Prop where
  orderly : ∀ i, Orderly (c.threads i)
  coherent : ∀ name, (view name c).Coherent

section runs

variable {c c' : Config Stage MasterService}

lemma orderly_update {i : ℕ} {p : LifeProg Unit} (h : ∀ j, Orderly (c.threads j)) (hp : Orderly p) (j : ℕ) :
    Orderly (Function.update c.threads i p j) := by
  rcases eq_or_ne j i with rfl | hne
  · rwa [update_self]
  · rw [update_of_ne hne]
    exact h j

lemma Inv.step (h : Inv c) (hstep : Step Apart c c') : Inv c' := by
  cases hstep with
  | move i hapart hmove =>
    have hi := h.orderly i
    cases hmove with
    | @sec β l m k b s' hthread hm =>
      rw [hthread] at hi
      refine ⟨orderly_update h.orderly (hi.2 b), fun name => ?_⟩
      have hturn := (hi.1 _ _ _ hm).turn (by rw [hthread]; rfl) hapart c.holder name
      exact (h.coherent name).turn hturn
    | lock hthread hfree =>
      rw [hthread] at hi
      exact hi.elim
    | unlock hthread hheld =>
      rw [hthread] at hi
      exact hi.elim
  | start i op hi =>
    obtain ⟨horderly, hquiet⟩ := orderly_prog op
    refine ⟨orderly_update h.orderly horderly, fun name => ?_⟩
    -- the thread was not at work on any segment, and is not yet
    have hrole : (view name c).role i = .quiet := congrArg (fun p => roleOf name (next p)) hi
    rw [view_update, hquiet name, ← hrole, update_eq_self]
    exact h.coherent name

lemma Inv.run (h : Inv c) (hrun : ReflTransGen (Step Apart) c c') : Inv c' := by
  induction hrun with
  | refl => exact h
  | tail _ hstep ih => exact ih.step hstep

structure Fresh (s : MasterService) : Prop where
  allocators : s.segments.allocators = []
  heartbeats : s.segmentHeartbeat = ∅
  owners : s.segmentOwner = ∅

lemma inv_idle {s : MasterService} (h : Fresh s) : Inv (Config.idle s) := by
  refine ⟨fun _ => trivial, fun name => ?_⟩
  have hview : view name (Config.idle s) = ⟨0, false, false, fun _ => .quiet⟩ := by
    simp [view, namesOf, Config.idle, h.allocators, h.heartbeats, h.owners]
    rfl
  rw [hview]
  exact Registry.coherent_empty

lemma apart_of_idle {i : ℕ} (h : ∀ j ≠ i, c.threads j = .ret ()) : Apart c i := by
  have hrole : ∀ n, ∀ j ≠ i, role c n j = .quiet := fun n j hne =>
    congrArg (fun p => roleOf n (next p)) (h j hne)
  rw [Apart]
  split
  · intro _ j hne
    rw [hrole _ j hne]
    rfl
  · intro _ j hne
    rw [hrole _ j hne]
    rfl
  · intro n _ j hne
    rw [hrole n j hne]
    rfl
  · trivial

end runs

/-! ## Schedules -/

def system : System Stage MasterService Op := ⟨Op.prog, fun _ _ => True, fun _ _ => False⟩

instance (l : Stage) (s : MasterService) : Decidable (system.assume l s) := instDecidableTrue

section schedules

variable {c c' : Config Stage MasterService} {moves : List (ℕ × Option Op)}

lemma step_of_move {allowed : Config Stage MasterService → ℕ → Prop} {i : ℕ} {a : Option Op} (hallowed : allowed c i)
    (h : c.move system i a = some c') : Lifecycle.Step allowed c c' := by
  cases a with
  | none => exact .move i hallowed (Config.moves_of_move h)
  | some op =>
    obtain ⟨hi, rfl⟩ := Config.start_of_move h
    exact .start i op hi

lemma steps_of_play (h : Config.play system moves c = some c') :
    ReflTransGen (Lifecycle.Step fun _ _ => True) c c' := by
  induction moves generalizing c with
  | nil =>
    cases h
    exact .refl
  | cons move moves ih =>
    obtain ⟨c₁, hmove, hrest⟩ := bind_eq_some_iff.mp h
    exact .head (step_of_move trivial hmove) (ih hrest)

lemma apart_of_play {i : ℕ} (h : Config.play system moves c = some c') (hmoves : ∀ x ∈ moves, x.1 = i)
    (hidle : ∀ j ≠ i, c.threads j = .ret ()) : ReflTransGen (Lifecycle.Step Apart) c c' := by
  induction moves generalizing c with
  | nil =>
    cases h
    exact .refl
  | cons move moves ih =>
    obtain ⟨c₁, hmove, hrest⟩ := bind_eq_some_iff.mp h
    have hi : move.1 = i := hmoves move mem_cons_self
    refine .head (step_of_move (apart_of_idle fun j hj => hidle j (hi ▸ hj)) hmove)
      (ih hrest (fun x hx => hmoves x (mem_cons_of_mem _ hx)) fun j hj => ?_)
    rw [Config.threads_of_move hmove (hi.symm ▸ hj)]
    exact hidle j hj

def ended : LifeProg Unit → Bool
  | .ret () => true
  | _ => false

lemma eq_ret_of_ended {p : LifeProg Unit} (h : ended p = true) : p = .ret () := by
  cases p with
  | ret a => rfl
  | sec l m k => cases h
  | lock k => cases h
  | unlock k => cases h

lemma rest_of_play {s : MasterService} (h : Config.play system moves (Config.idle s) = some c)
    (hmoves : ∀ x ∈ moves, x.1 < 2) (h₀ : ended (c.threads 0) = true) (h₁ : ended (c.threads 1) = true) (i : ℕ) :
    c.threads i = .ret () := by
  by_cases hi : i < 2
  · interval_cases i
    · exact eq_ret_of_ended h₀
    · exact eq_ret_of_ended h₁
  · have hne : ∀ x ∈ moves, i ≠ x.1 := by
      rintro x hx rfl
      exact hi (hmoves x hx)
    rw [Config.threads_of_play h hne]
    rfl

end schedules

end Lifecycle

open Lifecycle in
/-- **Mounts, heartbeats and owners agree** whenever no operation is in progress, in every interleaving in which no
thread begins work on a segment that gets in the way of another thread: a segment has at most one allocator, it has
a heartbeat if and only if it is mounted, it is mounted if it is owned, and it is not alive if it is not mounted. -/
theorem lifecycle_consistent {s : MasterService} (hfresh : Fresh s) {c : Config Stage MasterService}
    (hrun : ReflTransGen (Lifecycle.Step Apart) (Config.idle s) c) (hrest : ∀ i, c.threads i = .ret ()) :
    (∀ name, (c.shared.segments.allocators.filter fun a => a.segmentName = name).length ≤ 1) ∧
    (∀ name, name ∈ c.shared.segmentHeartbeat ↔ c.shared.mounted name = true) ∧
    (∀ name ∈ c.shared.segmentOwner, c.shared.mounted name = true) ∧
    ∀ name, c.shared.mounted name = false → c.shared.segmentAlive name = false := by
  have hinv := (inv_idle hfresh).run hrun
  have hquiet : ∀ name, _ := fun name => (hinv.coherent name).of_quiet fun j =>
    congrArg (fun p => roleOf name (next p)) (hrest j)
  have hbeats : ∀ name, name ∈ c.shared.segmentHeartbeat ↔ c.shared.mounted name = true := by
    intro name
    rw [mounted_iff]
    exact decide_eq_true_iff.symm.trans (hquiet name).2.1
  refine ⟨fun name => ?_, hbeats, fun name hname => ?_, fun name hname => ?_⟩
  · rw [← countP_eq_length_filter]
    exact (hquiet name).1
  · exact mounted_iff.mpr ((hquiet name).2.2 (decide_eq_true hname))
  · have hout : c.shared.segmentHeartbeat.lookup name = none := by
      rw [lookup_eq_none, hbeats, hname]
      exact Bool.false_ne_true
    rw [MasterService.segmentAlive, hout]

namespace Lifecycle

def oneRemount (i : ℕ) (client : String) : List (ℕ × Option Op) :=
  (i, some (.remountSegments client [("seg", 64)])) :: List.replicate 8 (i, none)

/-- Two clients remount one segment, and both look before either mounts. -/
def twoRemounts : List (ℕ × Option Op) :=
  [(0, some (.remountSegments "a" [("seg", 64)])), (1, some (.remountSegments "b" [("seg", 64)])), (0, none), (1, none)] ++
    List.replicate 7 (0, none) ++ List.replicate 7 (1, none)

/-- A client unmounts its segment between the two halves of its heartbeat. -/
def unmountInHeartbeat : List (ℕ × Option Op) :=
  oneRemount 0 "a" ++ [(1, some (.clientHeartbeat "a")), (1, none), (1, none)] ++
    [(0, some (.unmountSegmentFor "a" "seg"))] ++ List.replicate 5 (0, none) ++ [(1, none)]

end Lifecycle

open Lifecycle in
theorem lifecycle_consistent_oneRemount :
    ∃ c, ReflTransGen (Lifecycle.Step Apart) (Config.idle (.new "random")) c ∧ (∀ i, c.threads i = .ret ()) ∧
      c.shared.mounted "seg" = true ∧ "seg" ∈ c.shared.segmentHeartbeat := by
  have hrun : ((Config.play system (oneRemount 0 "a") (Config.idle (.new "random"))).any fun c =>
      ended (c.threads 0) && ended (c.threads 1) && c.shared.mounted "seg") = true := by
    decide +kernel
  obtain ⟨c, hplay, hends⟩ := (Option.any_eq_true _ _).mp hrun
  simp only [Bool.and_eq_true] at hends
  have hrest := rest_of_play hplay (by decide) hends.1.1 hends.1.2
  have halone : ∀ x ∈ oneRemount 0 "a", x.1 = 0 := by decide
  have hsteps := apart_of_play hplay halone fun _ _ => rfl
  exact ⟨c, hsteps, hrest, hends.2, ((lifecycle_consistent ⟨rfl, rfl, rfl⟩ hsteps hrest).2.1 "seg").mpr hends.2⟩

open Lifecycle in
/-- **Two clients that remount a segment at the same time both mount it.** -/
theorem remounted_twice :
    ∃ c, ReflTransGen (Lifecycle.Step fun _ _ => True) (Config.idle (.new "random")) c ∧
      (∀ i, c.threads i = .ret ()) ∧
      (c.shared.segments.allocators.filter fun a => a.segmentName = "seg").length = 2 := by
  have hrun : ((Config.play system twoRemounts (Config.idle (.new "random"))).any fun c =>
      ended (c.threads 0) && ended (c.threads 1) &&
        decide ((c.shared.segments.allocators.filter fun a => a.segmentName = "seg").length = 2)) = true := by
    decide +kernel
  obtain ⟨c, hplay, hends⟩ := (Option.any_eq_true _ _).mp hrun
  simp only [Bool.and_eq_true, decide_eq_true_eq] at hends
  exact ⟨c, steps_of_play hplay, rest_of_play hplay (by decide) hends.1.1 hends.1.2, hends.2⟩

open Lifecycle in
/-- **A heartbeat revives a segment that was unmounted meanwhile.** -/
theorem unmounted_alive :
    ∃ c, ReflTransGen (Lifecycle.Step fun _ _ => True) (Config.idle (.new "random")) c ∧
      (∀ i, c.threads i = .ret ()) ∧ c.shared.mounted "seg" = false ∧ c.shared.segmentAlive "seg" = true := by
  have hrun : ((Config.play system unmountInHeartbeat (Config.idle (.new "random"))).any fun c =>
      ended (c.threads 0) && ended (c.threads 1) &&
        (!c.shared.mounted "seg" && c.shared.segmentAlive "seg")) = true := by
    decide +kernel
  obtain ⟨c, hplay, hends⟩ := (Option.any_eq_true _ _).mp hrun
  simp only [Bool.and_eq_true, Bool.not_eq_true'] at hends
  exact ⟨c, steps_of_play hplay, rest_of_play hplay (by decide) hends.1.1 hends.1.2, hends.2⟩

end QuillCache.Store
