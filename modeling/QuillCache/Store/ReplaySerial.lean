import QuillCache.Store.Logs
import QuillCache.Store.Replay

/-!
# Recovery from the log of a serial run

Every call of a serial run appends entries that keep the live master and the recovered one in step (`prog_follows`),
as long as a commit finds an object that is not complete yet and nothing else than `remove`, an eviction or an unmount
takes a complete object away. So a run in which each put is ended at most once can be recovered (`recovered_of_log`),
and so can one that goes on with the recovered master and its log (`recovered_of_restarts`).

`put_end` does not check this, and `upsert_start` frees or re-opens a complete object without an entry, which the
replay then has no room for, or never frees (`replay_breaks`). Where that is excluded, every prefix of the log replays
and accounts for each byte (`replay_accounts`).
-/

namespace QuillCache.Store.MasterService

open Lib Prog Relation List Option
open AList hiding keys

/-! ## Calls -/

/-- From `s` to `s'`, entries were logged that take `m` to a mirror of `s'`, and no object has become complete but
those under the keys `ended`. -/
def Follows (ended : List ObjectKey) (m s s' : MasterService) : Prop :=
  (∃ es m', s'.oplog = s.oplog.map (· ++ es) ∧ Replays m es m' ∧ Mirrors s' m') ∧
    ∀ k, k ∉ ended → s.isComplete k = false → s'.isComplete k = false

def isLeased (s : MasterService) (key : ObjectKey) : Bool :=
  (s.objects.lookup key).any fun o => s.clock < o.leaseUntil

section calls

variable {s s' m : MasterService} {key : ObjectKey}

lemma follows_of_evicted (ks : List ObjectKey) (h : Mirrors s m) (hframe : Frame s s')
    (hnext : s.segments.nextReplicaId ≤ s'.segments.nextReplicaId)
    (hoplog : s'.oplog = s.oplog.map (· ++ ks.map .removed)) (hgone : ∀ k ∈ ks, s'.objects.lookup k = none)
    (hsame : ∀ k, k ∉ ks → s'.objects.lookup k = s.objects.lookup k ∨
      (s.isComplete k = false ∧ s'.isComplete k = false)) : Follows [] m s s' := by
  obtain ⟨m', hreplays, hmirrors⟩ := h.removed ks (mounted_of_sameFleet hframe.fleet) hnext
    (fun k hk => by rw [isComplete, hgone k hk]; rfl)
    fun k hk => (hsame k hk).imp_left fun heq => by rw [heq]; exact rel_agrees_refl _
  refine ⟨⟨_, m', hoplog, hreplays, hmirrors⟩, fun k _ hopen => ?_⟩
  by_cases hk : k ∈ ks
  · rw [isComplete, hgone k hk]
    rfl
  · rcases hsame k hk with heq | ⟨-, hopen'⟩
    · rwa [isComplete, heq]
    · exact hopen'

lemma follows_of_agrees (h : Mirrors s m) (hsegments : s'.segments = s.segments) (hoplog : s'.oplog = s.oplog)
    (hsame : ∀ k, Option.Rel Agrees (s.objects.lookup k) (s'.objects.lookup k)) : Follows [] m s s' := by
  have hmirrors : Mirrors s' m := h.congr (by rw [hsegments]) (by rw [hsegments]) fun k => Or.inl (hsame k)
  refine ⟨⟨_, m, ?_, .nil h.exact, hmirrors⟩, fun k _ hopen => (isComplete_congr (hsame k)).trans hopen⟩
  rw [hoplog]
  simp

lemma follows_refl (h : Mirrors s m) : Follows [] m s s := follows_of_agrees h rfl rfl fun _ => rel_agrees_refl _

lemma Evicts.follows {ks : List ObjectKey} (hevicts : Evicts s ks s') (h : Mirrors s m) : Follows [] m s s' := by
  refine follows_of_evicted ks h hevicts.frame hevicts.nextReplicaId_eq.ge hevicts.oplog_eq (fun k hk => ?_)
    fun k hk => ?_
  · rw [hevicts.lookup_eq, if_pos hk]
  · rw [hevicts.lookup_eq, if_neg hk]
    exact .inl rfl

lemma Drops.follows (hdrops : Drops s key [.removed key] s') (h : Mirrors s m) : Follows [] m s s' := by
  refine follows_of_evicted [key] h hdrops.frame hdrops.nextReplicaId_eq.ge hdrops.oplog_eq (fun k hk => ?_)
    fun k hk => .inl ?_
  · rw [hdrops.objects_eq, mem_singleton.mp hk, lookup_erase]
  · rw [hdrops.objects_eq, lookup_erase_ne (fun heq => hk (mem_singleton.mpr heq))]

lemma Drops.follows_open (hdrops : Drops s key [] s') (h : Mirrors s m) (hopen : s.isComplete key = false) :
    Follows [] m s s' := by
  refine follows_of_evicted [] h hdrops.frame hdrops.nextReplicaId_eq.ge hdrops.oplog_eq
    (fun k hk => absurd hk not_mem_nil) fun k _ => ?_
  by_cases hk : k = key
  · subst hk
    refine .inr ⟨hopen, ?_⟩
    rw [isComplete, hdrops.objects_eq, lookup_erase]
    rfl
  · rw [hdrops.objects_eq, lookup_erase_ne hk]
    exact .inl rfl

lemma putStart_follows {identity : IdentityScope} {size : ℕ} {config : ReplicateConfig} (hs : Sound s.view)
    (h : Mirrors s m) : Runs (putStart key identity size config) (fun _ s' => Follows [] m s s') s := by
  refine (putStart_runs hs).mono ?_
  rintro r s' ⟨-, ⟨-, rfl, -⟩ | ⟨hopen, ks, hframe, -, hstarted⟩⟩
  · exact follows_refl h
  have hnew : s'.isComplete key = false ∧ s.segments.nextReplicaId ≤ s'.segments.nextReplicaId := by
    rw [isComplete]
    cases r with
    | ok bs =>
      obtain ⟨-, ⟨o, ho, hfresh⟩, hnext⟩ := hstarted
      rw [ho, any_some, hnext]
      exact ⟨hfresh.hasCompleteReplica, Nat.le_add_right _ _⟩
    | error e =>
      obtain ⟨hnone, hnext⟩ := hstarted
      rw [hnone, hnext]
      exact ⟨rfl, le_rfl⟩
  refine follows_of_evicted ks h hframe.frame hnew.2 hframe.oplog_eq (fun k hk => ?_) fun k hk => ?_
  · rw [hframe.lookup_ne k (hframe.victim k hk).1, if_pos hk]
  · by_cases hkey : k = key
    · rw [hkey]
      exact .inr ⟨hopen, hnew.1⟩
    · rw [hframe.lookup_ne k hkey, if_neg hk]
      exact .inl rfl

lemma putEnd_follows (hs : Sound s.view) (hfew : s.Few) (h : Mirrors s m) (hopen : s.isComplete key = false) :
    Runs (putEnd key) (fun _ s' => Follows [key] m s s') s := by
  refine (putEnd_completes key s).pc.mono ?_
  rintro _ s' (⟨-, -, rfl⟩ | ⟨o, ho, -, rfl⟩)
  · exact ⟨(follows_refl h).1, fun _ _ => id⟩
  · have hcommit : ∃ m', applyOp (commitEntry key (o.withStatus .complete)) m = some (.ok (), m') ∧
        Mirrors { s with
          objects := s.objects.update key (·.withStatus .complete)
          oplog := s.oplog.map (· ++ [commitEntry key (o.withStatus .complete)]) } m' :=
      h.committed (packed_of_owes hs hfew) ho hopen rfl rfl
    obtain ⟨m', hop, hmirrors⟩ := hcommit
    refine ⟨⟨_, m', rfl, .single h.exact hop hmirrors.exact, hmirrors⟩, fun k hk hk' => ?_⟩
    rwa [isComplete, lookup_update, if_neg fun heq => hk (mem_singleton.mpr heq)]

lemma putRevoke_follows (hs : Sound s.view) (h : Mirrors s m) (hopen : s.isComplete key = false) :
    Runs (putRevoke key) (fun _ s' => Follows [] m s s') s := by
  refine (putRevoke_runs hs).mono ?_
  rintro _ s' ⟨-, ⟨-, -, rfl⟩ | ⟨o, -, -, hdrops⟩⟩
  · exact follows_refl h
  · exact hdrops.follows_open h hopen

lemma remove_follows {force : Bool} (hs : Sound s.view) (h : Mirrors s m) :
    Runs (remove key force) (fun _ s' => Follows [] m s s') s := by
  refine (remove_runs hs).mono ?_
  rintro _ s' ⟨-, ⟨-, -, rfl⟩ | ⟨o, -, -, -, hdrops⟩⟩
  · exact follows_refl h
  · exact hdrops.follows h

lemma getReplicaList_follows {requester : IdentityScope} (h : Mirrors s m) :
    Runs (getReplicaList key requester) (fun _ s' => Follows [] m s s') s := by
  refine (getReplicaList_runs key requester s).mono ?_
  rintro _ s' (⟨-, -, rfl⟩ | ⟨o, ho, -, -, -, rfl⟩)
  · exact follows_refl h
  · refine follows_of_agrees h rfl rfl fun k => ?_
    rw [lookup_update]
    split_ifs with hk
    · rw [hk, ho]
      exact .some ⟨.refl _, rfl, rfl, rfl⟩
    · exact rel_agrees_refl _

lemma mountSegment_follows {name : SegmentName} {capacity : ℕ} (hs : Sound s.view) (h : Mirrors s m)
    (hname : name ∉ s.segments.names) (hcap : capacity ≤ SmallFloat.maxBinSize) :
    Runs (mountSegment name capacity) (fun _ s' => Follows [] m s s') s := by
  have hlt : capacity < 2 ^ 64 := by
    simp only [SmallFloat.maxBinSize] at hcap
    omega
  refine (mountSegment_runs hs hname hlt).mono ?_
  rintro _ s' ⟨-, a, hnew, rfl⟩
  obtain ⟨a', hnew', hseg, hcapacity, -⟩ := Owes.push hs hname hlt
  rw [hnew, Option.some.injEq] at hnew'
  have hmount : ∃ m', applyOp (.segmentMounted name capacity) m = some (.ok (), m') ∧ Mirrors { s with
      segmentHeartbeat := s.segmentHeartbeat.insert name s.clock
      segments := { s.segments with allocators := s.segments.allocators ++ [a] }
      oplog := s.oplog.map (· ++ [.segmentMounted name capacity]) } m' :=
    h.mount hname hcap (by simp [SegmentState.mounted, hnew', hseg, hcapacity]) rfl rfl
  obtain ⟨m', hop, hmirrors⟩ := hmount
  exact ⟨⟨_, m', rfl, .single h.exact hop hmirrors.exact, hmirrors⟩, fun _ _ => id⟩

lemma unmountSegment_follows {name : SegmentName} (h : Mirrors s m) :
    Runs (unmountSegment name) (fun _ s' => Follows [] m s s') s := by
  refine (unmountSegment_runs name s).mono ?_
  rintro _ s' (⟨-, -, rfl⟩ | ⟨hname, -, rfl⟩)
  · exact follows_refl h
  · obtain ⟨hop, hmirrors⟩ := h.unmount hname
    refine ⟨⟨_, _, rfl, .single h.exact hop hmirrors.exact, hmirrors⟩, fun k _ hopen => ?_⟩
    rw [← Bool.not_eq_true, isComplete_iff] at hopen ⊢
    rintro ⟨o, ho, hc⟩
    obtain ⟨o₀, ho₀, rfl, -⟩ := lookup_unmounted.mp ho
    exact hopen ⟨o₀, ho₀, complete_of_withoutSegment hc⟩

lemma upsertStart_follows {identity : IdentityScope} {size : ℕ} {config : ReplicateConfig} (hs : Sound s.view)
    (h : Mirrors s m) (hkey : s.isComplete key = false ∨ s.isLeased key = true) :
    Runs (upsertStart key identity size config) (fun _ s' => Follows [] m s s') s := by
  rw [isComplete, isLeased] at hkey
  rw [upsertStart, runs_bind, runs_now, runs_bind, runs_read]
  rintro ⟨existsComplete, leased, existingSize⟩ hinspect
  simp only [inspect] at hinspect
  cases ho : s.objects.lookup key with
  | none =>
    rw [ho] at hinspect
    cases hinspect
    exact putStart_follows hs h
  | some o =>
    rw [ho] at hinspect hkey
    cases hinspect
    dsimp only
    split_ifs with hopen hleased
    · exact putStart_follows hs h
    · exact runs_pure.mpr (follows_refl h)
    all_goals
      rcases hkey with hkey | hkey
      · exact absurd (congrArg not hkey) hopen
      · exact absurd hkey hleased

lemma follows_of_shuffle (h : Mirrors s m) (hshuffle : Shuffle s s') : Follows [] m s s' :=
  follows_of_agrees h (by rw [hshuffle.rest]) (by rw [hshuffle.rest]) (rel_of_shuffle hshuffle)

lemma follows_of_tunes (h : Mirrors s m) (htunes : s' = { s with
    segmentHeartbeat := s'.segmentHeartbeat, segmentTtl := s'.segmentTtl, segmentOwner := s'.segmentOwner }) :
    Follows [] m s s' :=
  follows_of_agrees h (by rw [htunes]) (by rw [htunes]) fun k => by rw [htunes]; exact rel_agrees_refl _

end calls

/-! ## Requests -/

def isBatch : MasterOp → Bool
  | .batchPutStart _ _ | .batchPutEnd _ | .batchPutRevoke _ | .batchGetReplicaList _ _ => true
  | _ => false

/-- The key whose put is ended. `upsert_end` is `put_end`. -/
def ends : MasterOp → List ObjectKey
  | .putEnd key => [key]
  | _ => []

def settles : MasterOp → List ObjectKey
  | .putEnd key | .putRevoke key => [key]
  | _ => []

def upserts : MasterOp → List ObjectKey
  | .upsertStart key _ _ _ => [key]
  | _ => []

/-- Single requests; mounts name a segment that is not mounted, of at most `MAX_BIN_SIZE` bytes. -/
def plain (op : MasterOp) (s : MasterService) : Prop :=
  isBatch op = false ∧ ∀ m ∈ mounts op, m.1 ∉ s.segments.names ∧ m.2 ≤ SmallFloat.maxBinSize

/-- No put is ended or revoked once its object is complete, and no complete object is upserted unless its lease makes
the master refuse. -/
def settlesOnce (op : MasterOp) (s : MasterService) : Prop :=
  (∀ k ∈ settles op, s.isComplete k = false) ∧ ∀ k ∈ upserts op, s.isComplete k = false ∨ s.isLeased k = true

instance (op : MasterOp) (s : MasterService) : Decidable (plain op s) :=
  inferInstanceAs (Decidable (_ ∧ ∀ m ∈ mounts op, _))

instance (op : MasterOp) (s : MasterService) : Decidable (settlesOnce op s) :=
  inferInstanceAs (Decidable ((∀ k ∈ settles op, _) ∧ ∀ k ∈ upserts op, _))

lemma freshMounts_of_plain {op : MasterOp} {s : MasterService} (h : plain op s) : freshMounts op s := by
  intro m hm
  obtain ⟨hname, hcap⟩ := h.2 m hm
  refine ⟨hname, ?_⟩
  simp only [SmallFloat.maxBinSize] at hcap
  omega

/-- What a request logs. -/
theorem prog_follows {op : MasterOp} {s m : MasterService} (hs : Sound s.view) (hfew : s.Few) (h : Mirrors s m)
    (hplain : plain op s) (honce : settlesOnce op s) :
    Runs op.prog (fun _ s' => Follows (ends op) m s s') s := by
  obtain ⟨hbatch, hmounts⟩ := hplain
  obtain ⟨hsettles, hupserts⟩ := honce
  cases op with
  | mountSegment name capacity =>
    obtain ⟨hname, hcap⟩ := hmounts (name, capacity) rfl
    exact mountSegment_follows hs h hname hcap
  | unmountSegment name => exact runs_void.mpr (unmountSegment_follows h)
  | putStart key identity size config => exact runs_void.mpr (putStart_follows hs h)
  | putEnd key => exact runs_void.mpr (putEnd_follows hs hfew h (hsettles key mem_cons_self))
  | putRevoke key => exact runs_void.mpr (putRevoke_follows hs h (hsettles key mem_cons_self))
  | getReplicaList key requester => exact runs_void.mpr (getReplicaList_follows h)
  | remove key force => exact runs_void.mpr (remove_follows hs h)
  | upsertStart key identity size config =>
    exact runs_void.mpr (upsertStart_follows hs h (hupserts key mem_cons_self))
  | existKey key => exact runs_void.mpr (runs_read.mpr fun _ _ => follows_refl h)
  | evictIfNeeded =>
    refine runs_void.mpr ((evictIfNeeded_runs hs).mono ?_)
    rintro _ s' ⟨-, ks, hevicts⟩
    exact hevicts.follows h
  | tick =>
    refine runs_void.mpr ((tick_runs s).mono ?_)
    rintro _ s' rfl
    exact follows_of_agrees h rfl rfl fun _ => rel_agrees_refl _
  | batchPutStart items config => cases hbatch
  | batchPutEnd keys => cases hbatch
  | batchPutRevoke keys => cases hbatch
  | batchGetReplicaList keys requester => cases hbatch

/-! ## Runs -/

/-- A serial run with few live buffers in every state: requests, and the calls that change only the heartbeats, the
owners or the lifetime of segments. -/
inductive Writes (allowed : MasterOp → MasterService → Prop) : MasterService → MasterService → Prop where
  | serves {s s' : MasterService} (h : Serves allowed s s') (hfew : s'.Few) : Writes allowed s s'
  | tunes {s s' : MasterService} (h : s' = { s with
      segmentHeartbeat := s'.segmentHeartbeat, segmentTtl := s'.segmentTtl, segmentOwner := s'.segmentOwner }) :
      Writes allowed s s'

instance (s : MasterService) : Decidable s.Few := inferInstanceAs (Decidable (∀ a ∈ s.segments.allocators, _))

section writeAll

variable (allowed : MasterOp → MasterService → Prop) [∀ op s, Decidable (allowed op s)]

def writeAll : List MasterOp → MasterService → Option MasterService
  | [], s => some s
  | op :: ops, s =>
    if allowed op s then (op.prog.run s).bind fun r => if r.2.Few then writeAll ops r.2 else none else none

variable {allowed}

lemma writes_of_writeAll {ops : List MasterOp} {s s' : MasterService} (h : writeAll allowed ops s = some s') :
    ReflTransGen (Writes allowed) s s' := by
  induction ops generalizing s with
  | nil =>
    cases h
    exact .refl
  | cons op ops ih =>
    rw [writeAll] at h
    split_ifs at h with hallowed
    obtain ⟨⟨_, s₁⟩, hrun, hrest⟩ := bind_eq_some_iff.mp h
    dsimp only at hrest
    split_ifs at hrest with hfew
    exact .head (.serves (.op op hallowed hrun) hfew) (ih hrest)

end writeAll

/-- A sound master with few buffers, and a log that recovers a mirror of it. -/
structure Logged (strategy : String) (s : MasterService) : Prop where
  sound : Sound s.view
  few : s.Few
  recovers : ∃ log m, s.oplog = some log ∧ Replays (new strategy) log m ∧ Mirrors s m

section logged

variable {strategy : String} {s s' : MasterService}

lemma logged_started (strategy strategy' : String) : Logged strategy' (started strategy true) := by
  have hexact : Exact (new strategy') := ⟨owes_new True strategy', fun a ha => absurd ha not_mem_nil, rfl⟩
  refine ⟨sound_started strategy true, fun a ha => absurd ha not_mem_nil, [], new strategy', rfl, .nil hexact,
    hexact, rfl, ?_, ?_, ?_, le_rfl⟩
  · intro k o ho
    cases ho
  · intro k o ho
    cases ho
  · intro k o ho
    cases ho

lemma Logged.follows (h : Logged strategy s) (ended : List ObjectKey) (hs : Sound s'.view) (hfew : s'.Few)
    (hfollows : ∀ m, Mirrors s m → Follows ended m s s') : Logged strategy s' := by
  obtain ⟨log, m, hlog, hreplays, hmirrors⟩ := h.recovers
  obtain ⟨⟨es, m', hoplog, hreplays', hmirrors'⟩, -⟩ := hfollows m hmirrors
  refine ⟨hs, hfew, log ++ es, m', ?_, hreplays.append hreplays', hmirrors'⟩
  rw [hoplog, hlog]
  rfl

lemma Logged.writes (h : Logged strategy s) (hstep : Writes (fun op s => plain op s ∧ settlesOnce op s) s s') :
    Logged strategy s' := by
  cases hstep with
  | serves hserves hfew =>
    cases hserves with
    | op op hallowed hrun =>
      obtain ⟨hplain, honce⟩ := hallowed
      refine h.follows (ends op) (sound_serves h.sound (.op op (freshMounts_of_plain hplain) hrun)) hfew ?_
      exact fun m hm => prog_follows h.sound h.few hm hplain honce _ _ hrun
    | shuffle hshuffle =>
      exact h.follows [] (sound_serves h.sound (.shuffle hshuffle)) hfew fun m hm => follows_of_shuffle hm hshuffle
  | tunes htunes =>
    have hfew : s'.Few := by
      rw [htunes]
      exact h.few
    exact h.follows [] (sound_uses h.sound (.tunes htunes)) hfew fun m hm => follows_of_tunes hm htunes

lemma logged_of_writes {strategy' : String}
    (hrun : ReflTransGen (Writes fun op s => plain op s ∧ settlesOnce op s) (started strategy true) s) :
    Logged strategy' s := by
  induction hrun with
  | refl => exact logged_started strategy strategy'
  | tail _ hstep ih => exact ih.writes hstep

lemma recover_of_replays {log : List OpLogEntry} {m : MasterService} (h : Replays (new strategy) log m) :
    recoverFromOplog strategy log = some (.ok m) := by
  rw [recoverFromOplog, h.applyAll]
  rfl

end logged

/-- **Replay accounts for every byte.** In a serial run in which no put is ended or revoked once its object is complete
and no complete object is upserted, every prefix of the log replays, and the bytes allocated are then those of the
replicas that are there. -/
theorem replay_accounts (strategy strategy' : String) (s : MasterService)
    (hrun : ReflTransGen (Writes fun op s => plain op s ∧ settlesOnce op s) (started strategy true) s) :
    ∃ log, s.oplog = some log ∧ ∀ n, ∃ m, recoverFromOplog strategy' (log.take n) = some (.ok m) ∧
      m.segments.allocated = SegmentState.sumChecked (m.replicas.map Replica.size) := by
  have hlogged : Logged strategy' s := logged_of_writes hrun
  obtain ⟨log, _, hlog, hreplays, -⟩ := hlogged.recovers
  refine ⟨log, hlog, fun n => ?_⟩
  obtain ⟨m, hshort⟩ := hreplays.take n
  exact ⟨m, recover_of_replays hshort, allocated_of_sound hshort.exact.owes⟩

def threePuts : List MasterOp :=
  [.mountSegment "a" 1024, .putStart "x" ⟨"m", "t", none, "u"⟩ 100 ⟨1, false, true, none⟩, .putEnd "x",
    .upsertStart "y" ⟨"m", "t", none, "u"⟩ 50 ⟨1, false, false, none⟩, .putEnd "y", .remove "y" false,
    .putStart "z" ⟨"m", "t", none, "u"⟩ 70 ⟨1, false, false, none⟩]

theorem replay_accounts_threePuts :
    ∃ s, ReflTransGen (Writes fun op s => plain op s ∧ settlesOnce op s) (started "random" true) s ∧
      (s.oplog.map List.length = some 4) ∧
      ∃ log, s.oplog = some log ∧ ∀ n, ∃ m, recoverFromOplog "random" (log.take n) = some (.ok m) ∧
        m.segments.allocated = SegmentState.sumChecked (m.replicas.map Replica.size) := by
  have hrun : ((writeAll (fun op s => plain op s ∧ settlesOnce op s) threePuts (started "random" true)).any fun s =>
      s.oplog.map List.length = some 4) = true := by decide +kernel
  obtain ⟨s, hs, hlen⟩ := (Option.any_eq_true _ _).mp hrun
  exact ⟨s, writes_of_writeAll hs, of_decide_eq_true hlen, replay_accounts "random" "random" s (writes_of_writeAll hs)⟩

def endedTwice : List MasterOp :=
  [.mountSegment "a" 1024, .putStart "x" ⟨"m", "t", none, "u"⟩ 100 ⟨1, false, false, none⟩, .putEnd "x", .putEnd "x"]

/-- A complete object is upserted with another size, and placed on another segment. -/
def upsertedElsewhere : List MasterOp :=
  [.mountSegment "a" 1024, .mountSegment "b" 1024,
    .putStart "x" ⟨"m", "t", none, "u"⟩ 100 ⟨1, false, false, some "a"⟩, .putEnd "x",
    .upsertStart "x" ⟨"m", "t", none, "u"⟩ 200 ⟨1, false, false, some "b"⟩, .putEnd "x"]

def failure : Except ErrorCode MasterService → Option ErrorCode
  | .ok _ => none
  | .error e => some e

lemma eq_error_of_failure {r : Except ErrorCode MasterService} {e : ErrorCode} (h : failure r = some e) :
    r = .error e := by
  cases r with
  | ok m => cases h
  | error e' => exact congrArg Except.error (Option.some.inj h)

/-- Replay of a log in which a key was committed again while its first commit was applied: the second entry of a put
that was ended twice asks for a range that is reserved, and the replay stops; after an upsert, the range of the first
commit stays reserved without an object. -/
theorem replay_breaks :
    (∃ s log, ReflTransGen (Writes plain) (started "random" true) s ∧ s.oplog = some log ∧
      recoverFromOplog "random" log = some (.error .invalidReplica)) ∧
    ∃ s log m, ReflTransGen (Writes plain) (started "random" true) s ∧ s.oplog = some log ∧
      recoverFromOplog "random" log = some (.ok m) ∧ m.segments.allocated = some 300 ∧
      m.replicas.map Replica.size = [200] := by
  constructor
  · have hrun : ((writeAll plain endedTwice (started "random" true)).any fun s => s.oplog.any fun log =>
        (recoverFromOplog "random" log).any fun r => failure r = some .invalidReplica) = true := by decide +kernel
    obtain ⟨s, hs, hlog⟩ := (Option.any_eq_true _ _).mp hrun
    obtain ⟨log, hlog, hrecover⟩ := (Option.any_eq_true _ _).mp hlog
    obtain ⟨r, hr, hfailure⟩ := (Option.any_eq_true _ _).mp hrecover
    exact ⟨s, log, writes_of_writeAll hs, hlog, hr.trans (congrArg some (eq_error_of_failure (of_decide_eq_true hfailure)))⟩
  · have hrun : ((writeAll plain upsertedElsewhere (started "random" true)).any fun s => s.oplog.any fun log =>
        (recoverFromOplog "random" log).any fun r => r.toOption.any fun m =>
          m.segments.allocated = some 300 ∧ m.replicas.map Replica.size = [200]) = true := by decide +kernel
    obtain ⟨s, hs, hlog⟩ := (Option.any_eq_true _ _).mp hrun
    obtain ⟨log, hlog, hrecover⟩ := (Option.any_eq_true _ _).mp hlog
    obtain ⟨r, hr, hok⟩ := (Option.any_eq_true _ _).mp hrecover
    obtain ⟨m, hm, hsizes⟩ := (Option.any_eq_true _ _).mp hok
    cases r with
    | error e => cases hm
    | ok m' =>
      cases hm
      exact ⟨s, log, m, writes_of_writeAll hs, hlog, hr, of_decide_eq_true hsizes⟩

/-! ## Runs in which each put is ended at most once -/

/-- A recovered master has what is durable of the live one: the segments and the complete objects with their replicas,
identity and pins, the bytes of these replicas, and a next replica id above theirs. -/
structure Rebuilt (s m : MasterService) : Prop where
  mounted_eq : m.segments.mounted = s.segments.mounted
  objects : ∀ k, Option.Rel Agrees (s.completeObjects.lookup k) (m.completeObjects.lookup k)
  allocated_eq : m.segments.allocated = SegmentState.sumChecked (s.completeReplicas.map Replica.size)
  ids_lt : ∀ r ∈ m.replicas, r.id < m.segments.nextReplicaId

lemma Mirrors.rebuilt {s m : MasterService} (h : Mirrors s m) (hs : Sound s.view) : Rebuilt s m := by
  refine ⟨h.mounted_eq, h.rel_complete, ?_, fun r hr => ?_⟩
  · rw [allocated_of_sound h.exact.owes]
    refine SegmentState.sumChecked_congr ?_
    have hmem : ∀ r ∈ m.replicas, ∃ b, r.data = .memory b := fun r hr => by
      obtain ⟨o, ho, hro⟩ := mem_flatMap.mp hr
      exact memory_of_sound h.exact.owes ho hro
    have hmem' : ∀ r ∈ s.completeReplicas, ∃ b, r.data = .memory b := fun r hr => by
      obtain ⟨o, ho, hro⟩ := mem_flatMap.mp hr
      obtain ⟨e, he, rfl⟩ := List.mem_map.mp ho
      exact memory_of_sound hs (List.mem_map_of_mem (mem_of_mem_filter he)) hro
    have hsum : (s.completeReplicas.map Replica.size).sum =
        ((bufferSum (footprints s.completeObjects)).map AllocatedBuffer.size).sum :=
      @sum_size_eq { s with objects := s.completeObjects } hmem'
    rw [hsum, ← h.sums_eq.1]
    exact sum_size_eq hmem
  · have hid : r.id ∈ (m.replicas.map Replica.id : Multiset ReplicaId) :=
      Multiset.mem_coe.mpr (List.mem_map_of_mem hr)
    rw [coe_replicaIds] at hid
    exact h.exact.owes.ids_lt r.id hid

lemma Mirrors.isComplete_eq {s m : MasterService} (h : Mirrors s m) (k : ObjectKey) :
    m.isComplete k = s.isComplete k := by
  rw [Bool.eq_iff_iff, isComplete_iff, isComplete_iff]
  constructor
  · rintro ⟨o, ho, hc⟩
    rcases h.rest k o ho with hs | hzero
    · exact isComplete_iff.mp hs
    · rw [hasCompleteReplica_of_footprint hzero] at hc
      cases hc
  · rintro ⟨o, ho, hc⟩
    obtain ⟨o', ho', hagrees⟩ := h.complete k o ho hc
    exact ⟨o', ho', hagrees.hasCompleteReplica_eq.symm ▸ hc⟩

/-- A recovered master that logs again is mirrored by itself. -/
lemma Mirrors.reopened {s m : MasterService} (h : Mirrors s m) (log : List OpLogEntry) :
    Mirrors { m with oplog := some log } m := by
  refine ⟨h.exact, rfl, fun k o ho _ => ⟨o, ho, .refl o⟩, fun k o ho => ?_, fun k o ho hc r hr => ?_, le_rfl⟩
  · rcases h.rest k o ho with hs | hzero
    · exact .inl ((h.isComplete_eq k).trans hs)
    · exact .inr hzero
  · have hs : s.isComplete k = true := h.isComplete_eq k ▸ isComplete_iff.mpr ⟨o, ho, hc⟩
    obtain ⟨o₀, ho₀, hc₀⟩ := isComplete_iff.mp hs
    obtain ⟨o', ho', hagrees⟩ := h.complete k o₀ ho₀ hc₀
    cases ho.symm.trans ho'
    exact h.settled k o₀ ho₀ hc₀ r (hagrees.values_perm.mem_iff.mpr hr)

lemma Exact.sound {m : MasterService} (h : Exact m) : Sound m.view :=
  ⟨⟨fun a ha => (h.owes.fleet.valid a ha).weaken, h.owes.fleet.names_nodup⟩, h.owes.live_eq, h.owes.ok,
    h.owes.ids_nodup, h.owes.ids_lt, h.owes.next_lt⟩

/-- A master, and the keys whose put can still be ended. -/
structure Putting where
  master : MasterService
  opened : List ObjectKey

namespace Putting

/-- What clients may ask for: a put is ended while it is open, and revoked while its object is not complete. -/
def permits (c : Putting) (op : MasterOp) : Prop :=
  plain op c.master ∧ upserts op = [] ∧ (∀ k ∈ ends op, k ∈ c.opened) ∧
    ∀ k ∈ settles op, k ∉ ends op → c.master.isComplete k = false

instance (c : Putting) (op : MasterOp) : Decidable (c.permits op) :=
  inferInstanceAs (Decidable (plain op c.master ∧ _ ∧ (∀ k ∈ ends op, _) ∧ ∀ k ∈ settles op, _))

/-- Serve a request. A `put_start` that succeeds opens a put of its key, and a `put_end` closes it. A revoked put stays
open: to end it finds no object. -/
def call (c : Putting) (op : MasterOp) : Option Putting :=
  if c.permits op then
    match op with
    | .putStart key identity size config => ((putStart key identity size config).run c.master).map fun r =>
      ⟨r.2, if r.1.toOption.isSome then key :: c.opened else c.opened⟩
    | .putEnd key => ((putEnd key).run c.master).map fun r => ⟨r.2, c.opened.filter (· ≠ key)⟩
    | op => (op.prog.run c.master).map fun r => ⟨r.2, c.opened⟩
  else none

inductive Step : Putting → Putting → Prop where
  | call {c c' : Putting} (op : MasterOp) (h : c.call op = some c') (hfew : c'.master.Few) : Step c c'
  | shuffle {c c' : Putting} (h : Shuffle c.master c'.master) (hopened : c'.opened = c.opened) : Step c c'
  | tunes {c c' : Putting} (h : c'.master = { c.master with
      segmentHeartbeat := c'.master.segmentHeartbeat, segmentTtl := c'.master.segmentTtl
      segmentOwner := c'.master.segmentOwner }) (hopened : c'.opened = c.opened) : Step c c'

/-- The log is in step, and an open put is not complete. -/
structure Inv (strategy : String) (c : Putting) : Prop where
  logged : Logged strategy c.master
  opened : ∀ k ∈ c.opened, c.master.isComplete k = false

variable {c c' : Putting} {op : MasterOp} {strategy : String}

lemma run_void {α : Type} {p : MasterProg α} {s s' : MasterService} {a : α} (h : p.run s = some (a, s')) :
    (MasterOp.void p).run s = some ((), s') := by
  rw [MasterOp.void, run_bind_apply, h]
  rfl

lemma call_cases (h : c.call op = some c') : c.permits op ∧ op.prog.run c.master = some ((), c'.master) ∧
    ∀ k ∈ c'.opened, (k ∈ c.opened ∧ k ∉ ends op) ∨ ∃ identity size config bs,
      (putStart k identity size config).run c.master = some (.ok bs, c'.master) ∧ ends op = [] := by
  unfold call at h
  split_ifs at h with hpermits
  refine ⟨hpermits, ?_⟩
  cases op with
  | putStart key identity size config =>
    obtain ⟨⟨r, s'⟩, hrun, rfl⟩ := map_eq_some_iff.mp h
    refine ⟨run_void hrun, fun k hk => ?_⟩
    cases r with
    | error e => exact .inl ⟨hk, not_mem_nil⟩
    | ok bs =>
      rcases mem_cons.mp hk with rfl | hk
      · exact .inr ⟨identity, size, config, bs, hrun, rfl⟩
      · exact .inl ⟨hk, not_mem_nil⟩
  | putEnd key =>
    obtain ⟨⟨r, s'⟩, hrun, rfl⟩ := map_eq_some_iff.mp h
    refine ⟨run_void hrun, fun k hk => .inl ?_⟩
    obtain ⟨hk, hne⟩ := mem_filter.mp hk
    exact ⟨hk, fun heq => of_decide_eq_true hne (mem_singleton.mp heq)⟩
  | _ =>
    obtain ⟨⟨_, s'⟩, hrun, rfl⟩ := map_eq_some_iff.mp h
    exact ⟨hrun, fun k hk => .inl ⟨hk, not_mem_nil⟩⟩

lemma Inv.step (h : Inv strategy c) (hstep : Step c c') : Inv strategy c' := by
  cases hstep with
  | call op hcall hfew =>
    obtain ⟨⟨hplain, hupserts, hends, hsettles⟩, hrun, hopened⟩ := call_cases hcall
    have honce : settlesOnce op c.master := by
      refine ⟨fun k hk => ?_, fun k hk => ?_⟩
      · by_cases hend : k ∈ ends op
        · exact h.opened k (hends k hend)
        · exact hsettles k hk hend
      · rw [hupserts] at hk
        cases hk
    have hfollows : ∀ m, Mirrors c.master m → Follows (ends op) m c.master c'.master :=
      fun m hm => prog_follows h.logged.sound h.logged.few hm hplain honce _ _ hrun
    obtain ⟨-, m, -, -, hm⟩ := h.logged.recovers
    have hquiet := (hfollows m hm).2
    refine ⟨h.logged.follows (ends op) ?_ hfew hfollows, fun k hk => ?_⟩
    · exact sound_serves h.logged.sound (.op op (freshMounts_of_plain hplain) hrun)
    · rcases hopened k hk with ⟨hk, hend⟩ | ⟨identity, size, config, bs, hput, hend⟩
      · exact hquiet k hend (h.opened k hk)
      · obtain ⟨-, ⟨hr, -⟩ | ⟨hopen, -⟩⟩ := putStart_runs h.logged.sound _ _ hput
        · cases hr
        · exact hquiet k (hend ▸ not_mem_nil) hopen
  | shuffle hshuffle hopened =>
    have hfew : c'.master.Few := by
      rw [Few, hshuffle.rest]
      exact h.logged.few
    have hfollows : ∀ m, Mirrors c.master m → Follows [] m c.master c'.master :=
      fun m hm => follows_of_shuffle hm hshuffle
    obtain ⟨-, m, -, -, hm⟩ := h.logged.recovers
    refine ⟨h.logged.follows [] (sound_uses h.logged.sound (.serves (.shuffle hshuffle))) hfew hfollows, fun k hk => ?_⟩
    exact (hfollows m hm).2 k not_mem_nil (h.opened k (hopened ▸ hk))
  | tunes htunes hopened =>
    have hfew : c'.master.Few := by
      rw [htunes]
      exact h.logged.few
    have hfollows : ∀ m, Mirrors c.master m → Follows [] m c.master c'.master :=
      fun m hm => follows_of_tunes hm htunes
    obtain ⟨-, m, -, -, hm⟩ := h.logged.recovers
    refine ⟨h.logged.follows [] (sound_uses h.logged.sound (.tunes htunes)) hfew hfollows, fun k hk => ?_⟩
    exact (hfollows m hm).2 k not_mem_nil (h.opened k (hopened ▸ hk))

/-- **Recovery from the log.** After any serial run in which each put is ended at most once and revoked only in flight,
the log replays, and gives back the mounted segments and exactly the complete objects. -/
theorem recovered_of_log (strategy strategy' : String) (c : Putting)
    (hrun : ReflTransGen Step ⟨started strategy true, []⟩ c) :
    ∃ log m, c.master.oplog = some log ∧ recoverFromOplog strategy' log = some (.ok m) ∧ Rebuilt c.master m := by
  have hinv : Inv strategy' c := by
    induction hrun with
    | refl => exact ⟨logged_started strategy strategy', fun k hk => absurd hk not_mem_nil⟩
    | tail _ hstep ih => exact ih.step hstep
  obtain ⟨log, m, hlog, hreplays, hmirrors⟩ := hinv.logged.recovers
  exact ⟨log, m, hlog, recover_of_replays hreplays, hmirrors.rebuilt hinv.logged.sound⟩

def callAll : List MasterOp → Putting → Option Putting
  | [], c => some c
  | op :: ops, c => (c.call op).bind fun c' => if c'.master.Few then callAll ops c' else none

lemma steps_of_callAll {ops : List MasterOp} (h : callAll ops c = some c') : ReflTransGen Step c c' := by
  induction ops generalizing c with
  | nil =>
    cases h
    exact .refl
  | cons op ops ih =>
    obtain ⟨c₁, hcall, hrest⟩ := bind_eq_some_iff.mp h
    split_ifs at hrest with hfew
    exact .head (.call op hcall hfew) (ih hrest)

/-- One object is put, one is revoked in flight, one is removed and put again, and one is still in flight. -/
def fourKeys : List MasterOp :=
  [.mountSegment "a" 1024, .putStart "x" ⟨"m", "t", none, "u"⟩ 100 ⟨1, false, true, none⟩, .putEnd "x",
    .putStart "y" ⟨"m", "t", none, "u"⟩ 50 ⟨1, false, false, none⟩, .putRevoke "y",
    .putStart "z" ⟨"m", "t", none, "u"⟩ 70 ⟨1, false, false, none⟩, .putEnd "z", .remove "z" false,
    .putStart "z" ⟨"m", "t", none, "u"⟩ 30 ⟨1, false, false, none⟩, .putEnd "z",
    .putStart "w" ⟨"m", "t", none, "u"⟩ 20 ⟨1, false, false, none⟩]

theorem recovered_of_log_fourKeys :
    ∃ c : Putting, ReflTransGen Step ⟨started "random" true, []⟩ c ∧ c.opened = ["w", "y"] ∧
      c.master.completeReplicas.length = 2 ∧
      ∃ log m, c.master.oplog = some log ∧ recoverFromOplog "random" log = some (.ok m) ∧ Rebuilt c.master m := by
  have hrun : ((callAll fourKeys ⟨started "random" true, []⟩).any fun c =>
      c.opened = ["w", "y"] ∧ c.master.completeReplicas.length = 2) = true := by decide +kernel
  obtain ⟨c, hc, hstate⟩ := (Option.any_eq_true _ _).mp hrun
  obtain ⟨hopened, hlen⟩ := of_decide_eq_true hstate
  exact ⟨c, steps_of_callAll hc, hopened, hlen, recovered_of_log "random" "random" c (steps_of_callAll hc)⟩

/-! ## Restarts from the log -/

/-- A master that may also stop and be recovered from its log, which `enable_oplog` then appends to. Clients go on with
the puts they have open. -/
inductive Endures (strategy : String) : Putting → Putting → Prop where
  | step {c c' : Putting} (h : Step c c') : Endures strategy c c'
  | restart {c : Putting} {log : List OpLogEntry} {m : MasterService} (hlog : c.master.oplog = some log)
      (hrecover : recoverFromOplog strategy log = some (.ok m)) (hfew : m.Few) :
      Endures strategy c ⟨{ m with oplog := some log }, c.opened⟩

lemma Inv.endures (h : Inv strategy c) (hstep : Endures strategy c c') : Inv strategy c' := by
  cases hstep with
  | step hstep => exact h.step hstep
  | restart hlog hrecover hfew =>
    obtain ⟨log', m', hlog', hreplays, hmirrors⟩ := h.logged.recovers
    cases hlog.symm.trans hlog'
    cases hrecover.symm.trans (recover_of_replays hreplays)
    refine ⟨⟨hmirrors.exact.sound, hfew, _, _, rfl, hreplays, hmirrors.reopened _⟩, fun k hk => ?_⟩
    exact (hmirrors.isComplete_eq k).trans (h.opened k hk)

lemma inv_of_endures {strategy' : String}
    (hrun : ReflTransGen (Endures strategy') ⟨started strategy true, []⟩ c) : Inv strategy' c := by
  induction hrun with
  | refl => exact ⟨logged_started strategy strategy', fun k hk => absurd hk not_mem_nil⟩
  | tail _ hstep ih => exact ih.endures hstep

/-- The master of `fourKeys` is restarted; one more object is put, and another one is removed. -/
def nextLife : List MasterOp :=
  [.putStart "v" ⟨"m", "t", none, "u"⟩ 60 ⟨1, false, false, none⟩, .putEnd "v", .remove "z" false]

/-- Serve requests, restart, and serve more. -/
def twoLives (ops ops' : List MasterOp) : Option Putting := do
  let c ← callAll ops ⟨started "random" true, []⟩
  let log ← c.master.oplog
  let m ← (← recoverFromOplog "random" log).toOption
  if m.Few then callAll ops' ⟨{ m with oplog := some log }, c.opened⟩ else none

lemma endures_of_callAll {ops : List MasterOp} (h : callAll ops c = some c') : ReflTransGen (Endures strategy) c c' :=
  (steps_of_callAll h).lift id fun _ _ => .step

lemma endures_of_twoLives {ops ops' : List MasterOp} (h : twoLives ops ops' = some c) :
    ReflTransGen (Endures "random") ⟨started "random" true, []⟩ c := by
  simp only [twoLives, bind_eq_bind, bind_eq_some_iff] at h
  obtain ⟨c₁, hc₁, log, hlog, r, hr, m, hm, hrest⟩ := h
  split_ifs at hrest with hfew
  cases r with
  | error e => cases hm
  | ok m' =>
    cases hm
    exact ((endures_of_callAll hc₁).tail (.restart hlog hr hfew)).trans (endures_of_callAll hrest)

end Putting

end QuillCache.Store.MasterService
