import Mathlib

/-!
# The load that the gateway counts

The proxy handler (`gateway.rs`) raises an engine's `running_decodes` before it sends a request and lowers it when the
response headers have arrived, in two acquisitions of the control lock around an await. A handler whose client
disconnects is dropped at the await it is suspended at, and nothing lowers the counter for it.

So the counter is the number of handlers between the two calls plus the number of those that were dropped there, and
it is the number of requests in flight exactly if there are none of the latter (`running_decodes_iff`).

Source: `control.rs`.
-/

namespace QuillCache.Gateway

open List
open Option hiding min_le_left

/-! ## The control plane -/

structure WorkerState where
  id : String
  runningDecodes : ℕ := 0
  deriving DecidableEq

/-- Source: `u32::MAX`. -/
def u32Max : ℕ := 2 ^ 32 - 1

def position (engineId : String) (workers : List WorkerState) : Option ℕ := workers.findIdx? fun w => w.id = engineId

def onWorker (f : ℕ → ℕ) (engineId : String) (workers : List WorkerState) : List WorkerState :=
  match position engineId workers with
  | some k => workers.modify k fun w => { w with runningDecodes := f w.runningDecodes }
  | none => workers

def beginRequest : String → List WorkerState → List WorkerState := onWorker fun n => min (n + 1) u32Max

def endRequest : String → List WorkerState → List WorkerState := onWorker fun n => n - 1

/-! ## The handlers -/

/-- Where a handler is: routed and not yet counted, at the await of the response headers, at the lock before
`end_request`, past it, or dropped; a handler that was dropped while it was counted has leaked its count. -/
inductive Phase where
  | routed
  | sending
  | answered (ok : Bool)
  | ended
  | dropped
  | leaked
  deriving DecidableEq

structure Handler where
  engineId : String
  phase : Phase
  deriving DecidableEq

structure Proxy where
  workers : List WorkerState
  handlers : List Handler := []
  deriving DecidableEq

/-- What can happen: a request is routed to a configured engine; a handler takes the control lock for `begin_request`,
gets response headers or an upstream error, takes the lock for `end_request`, or is dropped at an await. -/
inductive Act where
  | route (engineId : String)
  | begin_ (i : ℕ)
  | respond (i : ℕ) (ok : Bool)
  | end_ (i : ℕ)
  | drop (i : ℕ)

namespace Proxy

def advance (self : Proxy) (i : ℕ) (next : Phase → Option Phase)
    (work : String → List WorkerState → List WorkerState) : Option Proxy := do
  let h ← self.handlers[i]?
  let phase ← next h.phase
  return ⟨work h.engineId self.workers, self.handlers.set i { h with phase }⟩

/-- The part of the handler around the two calls; its other awaits are before the first or after the second one.
Source: `gateway.rs` `proxy_openai_path` -/
def act (self : Proxy) : Act → Option Proxy
  | .route engineId =>
    if self.workers.any fun w => w.id = engineId then
      some { self with handlers := self.handlers ++ [⟨engineId, .routed⟩] }
    else none
  | .begin_ i => self.advance i (fun phase => if phase = .routed then some .sending else none) beginRequest
  | .respond i ok => self.advance i (fun phase => if phase = .sending then some (.answered ok) else none) fun _ => id
  | .end_ i => self.advance i (fun
      | .answered _ => some .ended
      | _ => none) endRequest
  | .drop i => self.advance i (fun
      | .routed => some .dropped
      | .sending | .answered _ => some .leaked
      | .ended | .dropped | .leaked => none) fun _ => id

def run (self : Proxy) : List Act → Option Proxy
  | [] => some self
  | a :: as => (self.act a).bind fun self => self.run as

def new (engineIds : List String) : Proxy := ⟨engineIds.map fun id => { id }, []⟩

def count (self : Proxy) (k : ℕ) (p : Phase → Bool) : ℕ :=
  self.handlers.countP fun h => position h.engineId self.workers = some k ∧ p h.phase

end Proxy

/-- The request has been dispatched, and its headers have not been taken into account. -/
def Phase.inFlight : Phase → Bool
  | .sending | .answered _ => true
  | _ => false

def Phase.held : Phase → Bool
  | .sending | .answered _ | .leaked => true
  | _ => false

inductive Proxy.Steps : Proxy → Proxy → Prop where
  | act {s s' : Proxy} (a : Act) (hroom : ∀ i, a = .begin_ i → ∀ w ∈ s.workers, w.runningDecodes < u32Max)
      (h : s.act a = some s') : Steps s s'

/-! ## Counters -/

section workers

variable {f : ℕ → ℕ} {engineId : String} {workers workers' : List WorkerState} {k : ℕ} {w : WorkerState}

lemma getElem?_onWorker : (onWorker f engineId workers)[k]? = workers[k]?.map fun w =>
    if position engineId workers = some k then { w with runningDecodes := f w.runningDecodes } else w := by
  rw [onWorker]
  cases hpos : position engineId workers with
  | none => simp
  | some k' => simp [getElem?_modify]

lemma ids_onWorker : (onWorker f engineId workers).map WorkerState.id = workers.map WorkerState.id := by
  refine ext_getElem? fun k => ?_
  rw [getElem?_map, getElem?_map, getElem?_onWorker, Option.map_map]
  refine Option.map_congr fun w _ => ?_
  rw [Function.comp_apply]
  split_ifs <;> rfl

lemma position_congr (h : workers'.map WorkerState.id = workers.map WorkerState.id) (engineId : String) :
    position engineId workers' = position engineId workers := by
  have hids : ∀ ws : List WorkerState, position engineId ws = (ws.map WorkerState.id).findIdx? fun id => id = engineId :=
    fun ws => by rw [findIdx?_map]; rfl
  rw [hids, hids, h]

end workers

namespace Proxy

section counts

variable {s s' : Proxy} {i k : ℕ} {next : Phase → Option Phase} {f : ℕ → ℕ} {w w' : WorkerState} {p : Phase → Bool}

lemma advance_eq_some {work : String → List WorkerState → List WorkerState} (h : s.advance i next work = some s') :
    ∃ hd phase, s.handlers[i]? = some hd ∧ next hd.phase = some phase ∧
      s' = ⟨work hd.engineId s.workers, s.handlers.set i { hd with phase }⟩ := by
  obtain ⟨hd, hhd, hrest⟩ := bind_eq_some_iff.mp h
  obtain ⟨phase, hphase, heq⟩ := bind_eq_some_iff.mp hrest
  exact ⟨hd, phase, hhd, hphase, (Option.some.inj heq).symm⟩

lemma count_set {hd : Handler} {phase : Phase} {workers : List WorkerState}
    (hids : workers.map WorkerState.id = s.workers.map WorkerState.id) (hhd : s.handlers[i]? = some hd) :
    count ⟨workers, s.handlers.set i { hd with phase }⟩ k p +
        (if position hd.engineId s.workers = some k ∧ p hd.phase = true then 1 else 0) =
      s.count k p + if position hd.engineId s.workers = some k ∧ p phase = true then 1 else 0 := by
  obtain ⟨hi, hget⟩ := List.getElem?_eq_some_iff.mp hhd
  simp only [count, position_congr hids]
  rw [countP_set hi, hget]
  by_cases hp : position hd.engineId s.workers = some k ∧ p hd.phase = true
  · have hpos : 0 < s.handlers.countP fun h => decide (position h.engineId s.workers = some k ∧ p h.phase = true) :=
      countP_pos_iff.mpr ⟨hd, mem_of_getElem? hhd, decide_eq_true hp⟩
    simp only [decide_eq_true_eq, hp, and_self, if_true]
    omega
  · simp only [decide_eq_true_eq, if_neg hp]
    omega

end counts

/-- Every counter counts the handlers that hold it. -/
def Counted (s : Proxy) : Prop := ∀ k w, s.workers[k]? = some w → w.runningDecodes = s.count k Phase.held

section steps

variable {s s' : Proxy}

lemma counted_new (engineIds : List String) : Counted (new engineIds) := by
  intro k w hw
  rw [new, getElem?_map, map_eq_some_iff] at hw
  obtain ⟨id, -, rfl⟩ := hw
  rfl

lemma Counted.pos (h : Counted s) {k : ℕ} {w : WorkerState} {hd : Handler} (hw : s.workers[k]? = some w)
    (hhd : hd ∈ s.handlers) (hpos : position hd.engineId s.workers = some k) (hheld : hd.phase.held = true) :
    0 < w.runningDecodes := by
  rw [h k w hw]
  exact countP_pos_iff.mpr ⟨hd, hhd, decide_eq_true ⟨hpos, hheld⟩⟩

lemma Counted.set {i : ℕ} {hd : Handler} {phase : Phase} {f : ℕ → ℕ} (h : Counted s) (hhd : s.handlers[i]? = some hd)
    (hf : ∀ w ∈ s.workers, (hd.phase.held = true → 0 < w.runningDecodes) →
      f w.runningDecodes + (if hd.phase.held then 1 else 0) = w.runningDecodes + if phase.held then 1 else 0) :
    Counted ⟨onWorker f hd.engineId s.workers, s.handlers.set i { hd with phase }⟩ := by
  intro k w' hw'
  rw [getElem?_onWorker, map_eq_some_iff] at hw'
  obtain ⟨w, hw, rfl⟩ := hw'
  have hcount := @count_set s i k Phase.held hd phase (onWorker f hd.engineId s.workers) ids_onWorker hhd
  rw [← h k w hw] at hcount
  by_cases hpos : position hd.engineId s.workers = some k
  · have hwork := hf w (mem_of_getElem? hw) (h.pos hw (mem_of_getElem? hhd) hpos)
    simp only [hpos, true_and, if_true] at hcount ⊢
    omega
  · simp only [hpos, false_and, if_false] at hcount ⊢
    omega

lemma onWorker_id (engineId : String) (workers : List WorkerState) : onWorker id engineId workers = workers := by
  refine ext_getElem? fun k => ?_
  rw [getElem?_onWorker]
  refine (Option.map_congr fun w _ => ?_).trans Option.map_id'
  split_ifs <;> rfl

lemma Counted.step (h : Counted s) (hstep : Steps s s') : Counted s' := by
  obtain ⟨a, hroom, hact⟩ := hstep
  cases a with
  | route engineId =>
    rw [act] at hact
    split_ifs at hact
    cases hact
    intro k w hw
    rw [h k w hw, count, count, countP_append]
    simp [Phase.held]
  | begin_ i =>
    rw [act] at hact
    obtain ⟨hd, phase, hhd, hnext, rfl⟩ := advance_eq_some hact
    split_ifs at hnext with hphase
    cases hnext
    refine h.set hhd fun w hw _ => ?_
    have hlt := hroom i rfl w hw
    simp only [hphase, Phase.held, Bool.false_eq_true, if_false, if_true]
    omega
  | respond i ok =>
    rw [act] at hact
    obtain ⟨hd, phase, hhd, hnext, rfl⟩ := advance_eq_some hact
    split_ifs at hnext with hphase
    cases hnext
    rw [id_eq, ← onWorker_id hd.engineId s.workers]
    refine h.set hhd fun w hw _ => ?_
    simp only [hphase, Phase.held, id_eq]
  | end_ i =>
    rw [act] at hact
    obtain ⟨⟨engineId, old⟩, phase, hhd, hnext, rfl⟩ := advance_eq_some hact
    cases old with
    | answered ok =>
      cases hnext
      refine h.set hhd fun w hw hpos => ?_
      exact Nat.sub_add_cancel (hpos rfl)
    | _ => cases hnext
  | drop i =>
    rw [act] at hact
    obtain ⟨hd, phase, hhd, hnext, rfl⟩ := advance_eq_some hact
    rw [id_eq, ← onWorker_id hd.engineId s.workers]
    refine h.set hhd fun w hw _ => ?_
    rcases hd with ⟨engineId, _ | _ | _ | _ | _ | _⟩ <;> cases hnext <;> rfl

lemma counted_of_steps {engineIds : List String} (h : Relation.ReflTransGen Steps (new engineIds) s) : Counted s := by
  induction h with
  | refl => exact counted_new engineIds
  | tail _ hstep ih => exact ih.step hstep

lemma count_add {p q r : Phase → Bool} (h : ∀ phase, (p phase).toNat = (q phase).toNat + (r phase).toNat) (s : Proxy)
    (k : ℕ) : s.count k p = s.count k q + s.count k r := by
  rw [count, count, count]
  induction s.handlers with
  | nil => rfl
  | cons hd handlers ih =>
    have hphase := h hd.phase
    simp only [countP_cons, ih]
    by_cases hpos : position hd.engineId s.workers = some k
    · cases hp : p hd.phase <;> cases hq : q hd.phase <;> cases hr : r hd.phase <;>
        simp_all <;> omega
    · simp [hpos]

lemma count_eq_zero_iff {p : Phase → Bool} {k : ℕ} : s.count k p = 0 ↔
    ∀ hd ∈ s.handlers, position hd.engineId s.workers = some k → p hd.phase = false := by
  rw [count, countP_eq_zero]
  simp only [decide_eq_true_eq, not_and, Bool.not_eq_true]

def isAnswered : Phase → Bool
  | .answered _ => true
  | _ => false

/-- **When a counter is the number of requests in flight**: in every run in which no counter saturates, exactly if none
of the engine's handlers has been dropped between `begin_request` and `end_request`. Counted up to the arrival of the
headers only, exactly if moreover none has got its headers and not yet the lock. -/
theorem running_decodes_iff (engineIds : List String) (s : Proxy)
    (hrun : Relation.ReflTransGen Steps (new engineIds) s) (k : ℕ) (w : WorkerState) (hw : s.workers[k]? = some w) :
    (w.runningDecodes = s.count k Phase.inFlight ↔
      ∀ hd ∈ s.handlers, position hd.engineId s.workers = some k → hd.phase ≠ .leaked) ∧
    (w.runningDecodes = s.count k (fun phase => phase = .sending) ↔
      ∀ hd ∈ s.handlers, position hd.engineId s.workers = some k → hd.phase ≠ .leaked ∧ isAnswered hd.phase = false) := by
  have hleaked : s.count k Phase.held = s.count k Phase.inFlight + s.count k fun phase => phase = .leaked :=
    count_add (fun phase => by cases phase <;> rfl) s k
  have hanswered : s.count k Phase.held = s.count k (fun phase => phase = .sending) +
      s.count k fun phase => phase = .leaked ∨ isAnswered phase = true :=
    count_add (fun phase => by cases phase <;> rfl) s k
  rw [counted_of_steps hrun k w hw]
  constructor
  · rw [hleaked, Nat.add_eq_left, count_eq_zero_iff]
    simp only [decide_eq_false_iff_not, ne_eq]
  · rw [hanswered, Nat.add_eq_left, count_eq_zero_iff]
    simp only [decide_eq_false_iff_not, not_or, ne_eq, Bool.not_eq_true]

end steps

section short

variable {s s' : Proxy}

lemma runningDecodes_act_le {a : Act} {n : ℕ} (h : s.act a = some s') (hn : ∀ w ∈ s.workers, w.runningDecodes ≤ n) :
    ∀ w ∈ s'.workers, w.runningDecodes ≤ n + 1 := by
  have hwork : ∀ f engineId, (∀ m, f m ≤ m + 1) → ∀ w ∈ onWorker f engineId s.workers, w.runningDecodes ≤ n + 1 := by
    intro f engineId hf w' hw'
    obtain ⟨k, hk⟩ := mem_iff_getElem?.mp hw'
    rw [getElem?_onWorker, map_eq_some_iff] at hk
    obtain ⟨w, hw, rfl⟩ := hk
    have hle := hn w (mem_of_getElem? hw)
    split_ifs
    · exact (hf _).trans (Nat.succ_le_succ hle)
    · exact Nat.le_succ_of_le hle
  cases a with
  | route engineId =>
    rw [act] at h
    split_ifs at h
    cases h
    exact fun w hw => Nat.le_succ_of_le (hn w hw)
  | begin_ i =>
    rw [act] at h
    obtain ⟨hd, phase, -, -, rfl⟩ := advance_eq_some h
    exact hwork _ _ fun m => min_le_left _ _
  | end_ i =>
    rw [act] at h
    obtain ⟨hd, phase, -, -, rfl⟩ := advance_eq_some h
    exact hwork _ _ fun m => (Nat.sub_le _ _).trans (Nat.le_succ _)
  | _ =>
    rw [act] at h
    obtain ⟨hd, phase, -, -, rfl⟩ := advance_eq_some h
    exact fun w hw => Nat.le_succ_of_le (hn w hw)

lemma steps_of_run {acts : List Act} {n : ℕ} (h : s.run acts = some s') (hn : ∀ w ∈ s.workers, w.runningDecodes ≤ n)
    (hlen : n + acts.length ≤ u32Max) : Relation.ReflTransGen Steps s s' := by
  induction acts generalizing s n with
  | nil =>
    cases h
    exact .refl
  | cons a acts ih =>
    obtain ⟨s₁, hact, hrest⟩ := bind_eq_some_iff.mp h
    rw [length_cons] at hlen
    refine .head (.act a (fun i _ w hw => ?_) hact) (ih hrest (runningDecodes_act_le hact hn) (by omega))
    have hle := hn w hw
    omega

end short

def oneAnswered : List Act := [.route "w", .begin_ 0, .route "w", .begin_ 1, .respond 0 true, .end_ 0]

theorem running_decodes_iff_oneAnswered :
    ∃ s w, (new ["w"]).run oneAnswered = some s ∧ s.workers[0]? = some w ∧
      w.runningDecodes = s.count 0 Phase.inFlight ∧ s.count 0 Phase.inFlight = 1 := by
  have hrun : (((new ["w"]).run oneAnswered).any fun s => s.workers[0]?.isSome ∧ s.count 0 Phase.inFlight = 1 ∧
      ∀ hd ∈ s.handlers, hd.phase ≠ .leaked) = true := by decide
  obtain ⟨s, hs, hstate⟩ := (Option.any_eq_true _ _).mp hrun
  obtain ⟨hw, hcount, hphases⟩ := of_decide_eq_true hstate
  obtain ⟨w, hw⟩ := isSome_iff_exists.mp hw
  have hsteps : Relation.ReflTransGen Steps (new ["w"]) s := @steps_of_run _ _ oneAnswered 0 hs (by decide) (by decide)
  refine ⟨s, w, hs, hw, ?_, hcount⟩
  exact (running_decodes_iff ["w"] s hsteps 0 w hw).1.mpr fun hd hhd _ => hphases hd hhd

def disconnected : List Act := [.route "w", .begin_ 0, .drop 0]

/-- **A disconnect leaks a count**: nothing is in flight, and the engine's counter is one. -/
theorem disconnect_leaks : ((new ["w"]).run disconnected).map (fun s =>
    (s.workers.map WorkerState.runningDecodes, s.count 0 Phase.inFlight)) = some ([1], 0) := by
  decide

end Proxy

end QuillCache.Gateway
