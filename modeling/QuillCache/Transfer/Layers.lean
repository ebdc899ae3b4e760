import Mathlib

/-!
# Layer-wise transfers

`run_layers_with_notify`: the layers of a blob are moved by tasks of a `JoinSet`, some at a time, and
the consumer is told of each layer in layer order. A run is a sequence of joins: any task of the set may be the next
one to be joined, with any outcome. What the run does is recorded as a trace of events.

Every event of a run is allowed by the events before it (`Allowed`), the run ends after at most one join for each
layer, and then every launched task has been joined (`layers_in_order`).

Source: `slice_pool.rs`.
-/

namespace QuillCache.Transfer

open List Option

inductive TransferError where
  | notFound
  | badSegment
  | io (text : String)
  | protocol (text : String)
  | unsupported (text : String)
  deriving DecidableEq

/-! ## The slices -/

def layerSlicesLoop : List ℕ → ℕ → ℕ → Option (List (ℕ × ℕ × ℕ))
  | [], _, _ => some []
  | len :: sizes, i, off =>
    if off + len < 2 ^ 64 then (layerSlicesLoop sizes (i + 1) (off + len)).map ((i, off, len) :: ·) else none

def layerSlices (layerSizes : List ℕ) : Option (List (ℕ × ℕ × ℕ)) := layerSlicesLoop layerSizes 0 0

/-! ## The pipeline -/

/-- How a task ends: with success, with an error of the transfer, or by a panic. -/
inductive Outcome where
  | ok
  | failed (e : TransferError)
  | panicked (text : String)
  deriving DecidableEq

def Outcome.error? : Outcome → Option TransferError
  | ok => none
  | failed e => some e
  | panicked text => some (.io text)

inductive Event where
  | launch (layer off len : ℕ)
  | joined (layer : ℕ) (outcome : Outcome)
  | notify (layer : ℕ)
  deriving DecidableEq

/-- The variables of `run_layers_with_notify`, and what has happened. -/
structure Pipeline where
  nextIdx : ℕ := 0
  set : List ℕ := []
  firstErr : Option TransferError := none
  done : Finset ℕ := ∅
  watermark : ℕ := 0
  trace : List Event := []

namespace Pipeline

def launchNext (layers : List (ℕ × ℕ × ℕ)) (st : Pipeline) : Pipeline :=
  match layers[st.nextIdx]? with
  | none => st
  | some (i, off, len) =>
    { st with set := st.set ++ [i], nextIdx := st.nextIdx + 1, trace := st.trace ++ [.launch i off len] }

def prime (layers : List (ℕ × ℕ × ℕ)) (max : ℕ) : ℕ → Pipeline → Pipeline
  | 0, st => st
  | fuel + 1, st =>
    if st.nextIdx < layers.length ∧ st.set.length < max then prime layers max fuel (st.launchNext layers) else st

def release : ℕ → Pipeline → Pipeline
  | 0, st => st
  | fuel + 1, st =>
    if st.watermark ∈ st.done then
      release fuel { st with
        done := st.done.erase st.watermark
        watermark := st.watermark + 1
        trace := st.trace ++ [.notify st.watermark] }
    else st

def landed (i : ℕ) (outcome : Outcome) (st : Pipeline) : Pipeline :=
  { st with
    set := st.set.erase i
    trace := st.trace ++ [.joined i outcome]
    firstErr := st.firstErr.or outcome.error?
    done := if outcome.error?.isNone then insert i st.done else st.done }

/-- One round of the loop over the set.
Source: `run_layers_with_notify` -/
def onJoined (layers : List (ℕ × ℕ × ℕ)) (i : ℕ) (outcome : Outcome) (st : Pipeline) : Pipeline :=
  let st := st.landed i outcome
  let st := if outcome.error?.isNone ∧ st.firstErr.isNone then st.release st.done.card else st
  if st.firstErr.isNone ∧ st.nextIdx < layers.length then st.launchNext layers else st

def start (layers : List (ℕ × ℕ × ℕ)) (maxInflight : ℕ) : Pipeline :=
  prime layers (max maxInflight 1) layers.length {}

inductive Joins (layers : List (ℕ × ℕ × ℕ)) : Pipeline → Pipeline → Prop where
  | join {st : Pipeline} {i : ℕ} (outcome : Outcome) (h : i ∈ st.set) : Joins layers st (st.onJoined layers i outcome)

def result (st : Pipeline) : Except TransferError Unit :=
  match st.firstErr with
  | some e => .error e
  | none => .ok ()

end Pipeline

/-! ## What a trace tells -/

def launched (t : List Event) : List (ℕ × ℕ × ℕ) := t.filterMap fun
  | .launch i off len => some (i, off, len)
  | _ => none

def joins (t : List Event) : List (ℕ × Outcome) := t.filterMap fun
  | .joined i outcome => some (i, outcome)
  | _ => none

def notified (t : List Event) : List ℕ := t.filterMap fun
  | .notify i => some i
  | _ => none

def failure (t : List Event) : Option TransferError := (joins t).findSome? fun j => j.2.error?

/-- What may happen next: while no failure has been observed, the next layer is launched at its place in the blob, if
fewer than `max` tasks are in flight, or the next layer is notified, if it and all earlier layers have landed; and a
task is joined that was launched and has not been joined. -/
def Allowed (layerSizes : List ℕ) (max : ℕ) (past : List Event) : Event → Prop
  | .launch i off len => failure past = none ∧ i = (launched past).length ∧ off = (layerSizes.take i).sum ∧
      layerSizes[i]? = some len ∧ (launched past).length < (joins past).length + max
  | .joined i _ => i ∈ (launched past).map Prod.fst ∧ i ∉ (joins past).map Prod.fst
  | .notify i => failure past = none ∧ i = (notified past).length ∧ ∀ j ≤ i, (j, Outcome.ok) ∈ joins past

def Orderly (layerSizes : List ℕ) (max : ℕ) (t : List Event) : Prop :=
  ∀ past e, past ++ [e] <+: t → Allowed layerSizes max past e

section trace

variable {layerSizes : List ℕ} {max : ℕ} {t : List Event} {i off len : ℕ} {outcome : Outcome}

@[simp] lemma launched_launch : launched (t ++ [.launch i off len]) = launched t ++ [(i, off, len)] := by
  simp [launched]

@[simp] lemma launched_joined : launched (t ++ [.joined i outcome]) = launched t := by simp [launched]

@[simp] lemma launched_notify : launched (t ++ [.notify i]) = launched t := by simp [launched]

@[simp] lemma joins_launch : joins (t ++ [.launch i off len]) = joins t := by simp [joins]

@[simp] lemma joins_joined : joins (t ++ [.joined i outcome]) = joins t ++ [(i, outcome)] := by simp [joins]

@[simp] lemma joins_notify : joins (t ++ [.notify i]) = joins t := by simp [joins]

@[simp] lemma notified_launch : notified (t ++ [.launch i off len]) = notified t := by simp [notified]

@[simp] lemma notified_joined : notified (t ++ [.joined i outcome]) = notified t := by simp [notified]

@[simp] lemma notified_notify : notified (t ++ [.notify i]) = notified t ++ [i] := by simp [notified]

@[simp] lemma failure_launch : failure (t ++ [.launch i off len]) = failure t := by simp [failure]

@[simp] lemma failure_joined : failure (t ++ [.joined i outcome]) = (failure t).or outcome.error? := by
  simp [failure, findSome?_append]

@[simp] lemma failure_notify : failure (t ++ [.notify i]) = failure t := by simp [failure]

lemma orderly_nil : Orderly layerSizes max [] := fun past e h => by
  have hlen := h.length_le
  simp at hlen

lemma Orderly.concat {e : Event} (h : Orderly layerSizes max t) (he : Allowed layerSizes max t e) :
    Orderly layerSizes max (t ++ [e]) := by
  intro past e' hpast
  rcases prefix_concat_iff.mp hpast with heq | hpast
  · obtain ⟨rfl, hlast⟩ := append_inj' heq rfl
    exact singleton_inj.mp hlast ▸ he
  · exact h past e' hpast

lemma Orderly.length_launched_le (h : Orderly layerSizes max t) : (launched t).length ≤ (joins t).length + max := by
  induction t using List.reverseRecOn with
  | nil => exact Nat.zero_le _
  | append_singleton t e ih =>
    have hlast := h t e prefix_rfl
    have hle := ih fun past e' hpast => h past e' (hpast.trans (prefix_append _ _))
    cases e with
    | launch i off len =>
      rw [launched_launch, joins_launch, length_append, length_singleton]
      exact hlast.2.2.2.2
    | joined i outcome =>
      rw [launched_joined, joins_joined, length_append]
      omega
    | notify i =>
      rw [launched_notify, joins_notify]
      exact hle

end trace

/-! ## The slices tile the blob -/

lemma layerSlicesLoop_eq (sizes : List ℕ) (i off : ℕ) (h : off + sizes.sum < 2 ^ 64) :
    ∃ layers, layerSlicesLoop sizes i off = some layers ∧
      ∀ k, layers[k]? = sizes[k]?.map fun len => (i + k, off + (sizes.take k).sum, len) := by
  induction sizes generalizing i off with
  | nil => exact ⟨[], rfl, fun k => rfl⟩
  | cons len sizes ih =>
    rw [sum_cons] at h
    obtain ⟨layers, hlayers, hget⟩ := ih (i + 1) (off + len) (by omega)
    refine ⟨(i, off, len) :: layers, ?_, fun k => ?_⟩
    · rw [layerSlicesLoop, if_pos (by omega), hlayers, map_some]
    · cases k with
      | zero => simp
      | succ k =>
        rw [getElem?_cons_succ, getElem?_cons_succ, hget, take_succ_cons, sum_cons]
        refine Option.map_congr fun len' _ => ?_
        rw [Prod.mk.injEq, Prod.mk.injEq]
        omega

/-- The layers of a blob, each at the sum of the sizes before it. -/
def Tiles (layerSizes : List ℕ) (layers : List (ℕ × ℕ × ℕ)) : Prop :=
  ∀ k, layers[k]? = layerSizes[k]?.map fun len => (k, (layerSizes.take k).sum, len)

lemma tiles_layerSlices {layerSizes : List ℕ} (h : layerSizes.sum < 2 ^ 64) :
    ∃ layers, layerSlices layerSizes = some layers ∧ Tiles layerSizes layers := by
  obtain ⟨layers, hlayers, hget⟩ := layerSlicesLoop_eq layerSizes 0 0 (by omega)
  refine ⟨layers, hlayers, fun k => ?_⟩
  simp only [hget, Nat.zero_add]

lemma Tiles.length {layerSizes : List ℕ} {layers : List (ℕ × ℕ × ℕ)} (h : Tiles layerSizes layers) :
    layers.length = layerSizes.length := by
  have hnone : ∀ k, layers.length ≤ k ↔ layerSizes.length ≤ k := fun k => by
    rw [← List.getElem?_eq_none_iff, ← List.getElem?_eq_none_iff, h, map_eq_none_iff]
  exact le_antisymm ((hnone _).mpr le_rfl) ((hnone _).mp le_rfl)

/-! ## The invariant -/

namespace Pipeline

structure Inv (layerSizes : List ℕ) (max : ℕ) (st : Pipeline) : Prop where
  orderly : Orderly layerSizes max st.trace
  launched : (launched st.trace).map Prod.fst = List.range st.nextIdx
  bound : st.nextIdx ≤ layerSizes.length
  tasks : (st.set ++ (joins st.trace).map Prod.fst).Perm (List.range st.nextIdx)
  room : st.set.length ≤ max
  failed : st.firstErr = failure st.trace
  notified : notified st.trace = List.range st.watermark
  landed : ∀ j, (j, Outcome.ok) ∈ joins st.trace ↔ j < st.watermark ∨ j ∈ st.done

/-- A pipeline between two joins: every layer that can be notified has been, and every task that can be launched. -/
structure Steady (layerSizes : List ℕ) (max : ℕ) (st : Pipeline) : Prop extends Inv layerSizes max st where
  gate : st.firstErr = none → st.watermark ∉ st.done
  full : st.firstErr = none → st.nextIdx = layerSizes.length ∨ st.set.length = max

section invariant

variable {layerSizes : List ℕ} {layers : List (ℕ × ℕ × ℕ)} {max : ℕ} {st : Pipeline} {i : ℕ} {outcome : Outcome}

lemma inv_new : Inv layerSizes max {} where
  orderly := orderly_nil
  launched := rfl
  bound := Nat.zero_le _
  tasks := .refl _
  room := Nat.zero_le _
  failed := rfl
  notified := rfl
  landed j := by simp [joins]

lemma Inv.length_launched (h : Inv layerSizes max st) : (Transfer.launched st.trace).length = st.nextIdx := by
  have hlen := congrArg List.length h.launched
  rwa [length_map, length_range] at hlen

lemma Inv.length_tasks (h : Inv layerSizes max st) : st.set.length + (joins st.trace).length = st.nextIdx := by
  have hlen := h.tasks.length_eq
  rwa [length_append, length_map, length_range] at hlen

lemma launchNext_eq (htiles : Tiles layerSizes layers) {len : ℕ} (h : layerSizes[st.nextIdx]? = some len) :
    st.launchNext layers = { st with
      set := st.set ++ [st.nextIdx]
      nextIdx := st.nextIdx + 1
      trace := st.trace ++ [.launch st.nextIdx (layerSizes.take st.nextIdx).sum len] } := by
  have hget := htiles st.nextIdx
  rw [h, map_some] at hget
  simp only [launchNext, hget]

lemma Inv.launchNext (h : Inv layerSizes max st) (htiles : Tiles layerSizes layers) (herr : st.firstErr = none)
    (hnext : st.nextIdx < layerSizes.length) (hroom : st.set.length < max) :
    Inv layerSizes max (st.launchNext layers) := by
  rw [launchNext_eq htiles (getElem?_eq_getElem hnext)]
  have hlaunched := h.length_launched
  have htasks := h.length_tasks
  refine ⟨h.orderly.concat ⟨?_, hlaunched.symm, rfl, getElem?_eq_getElem hnext, ?_⟩, ?_, hnext, ?_, ?_, ?_, ?_, ?_⟩
  · rw [← h.failed, herr]
  · omega
  · rw [launched_launch, map_append, h.launched, range_succ]
    rfl
  · rw [joins_launch, range_succ, append_assoc]
    refine (Perm.append_left _ perm_append_comm).trans ?_
    rw [← append_assoc]
    exact h.tasks.append_right _
  · rw [length_append, length_singleton]
    exact hroom
  · rw [failure_launch]
    exact h.failed
  · rw [notified_launch]
    exact h.notified
  · rw [joins_launch]
    exact h.landed

lemma firstErr_launchNext : (st.launchNext layers).firstErr = st.firstErr := by
  rw [Pipeline.launchNext]
  split <;> rfl

lemma done_launchNext : (st.launchNext layers).done = st.done := by
  rw [Pipeline.launchNext]
  split <;> rfl

lemma watermark_launchNext : (st.launchNext layers).watermark = st.watermark := by
  rw [Pipeline.launchNext]
  split <;> rfl

lemma Inv.prime (h : Inv layerSizes max st) (htiles : Tiles layerSizes layers) (herr : st.firstErr = none)
    (hgate : st.watermark ∉ st.done) {fuel : ℕ} (hfuel : layerSizes.length - st.nextIdx ≤ fuel) :
    Steady layerSizes max (st.prime layers max fuel) := by
  have hbound := h.bound
  have hroom := h.room
  induction fuel generalizing st with
  | zero => exact ⟨h, fun _ => hgate, fun _ => .inl (show st.nextIdx = _ by omega)⟩
  | succ fuel ih =>
    rw [Pipeline.prime, htiles.length]
    by_cases hmore : st.nextIdx < layerSizes.length ∧ st.set.length < max
    · rw [if_pos hmore]
      have hnext := h.launchNext htiles herr hmore.1 hmore.2
      refine ih hnext (by rw [firstErr_launchNext, herr]) (by rw [watermark_launchNext, done_launchNext]; exact hgate)
        ?_ hnext.bound hnext.room
      rw [launchNext_eq htiles (getElem?_eq_getElem hmore.1)]
      change layerSizes.length - (st.nextIdx + 1) ≤ fuel
      omega
    · rw [if_neg hmore]
      exact ⟨h, fun _ => hgate, fun _ => by omega⟩

lemma Inv.joined (h : Inv layerSizes max st) (hi : i ∈ st.set) (outcome : Outcome) :
    Inv layerSizes max (st.landed i outcome) := by
  have hnodup : (st.set ++ (joins st.trace).map Prod.fst).Nodup := h.tasks.nodup_iff.mpr nodup_range
  have hi' : i ∈ List.range st.nextIdx := h.tasks.subset (mem_append_left _ hi)
  refine ⟨h.orderly.concat ⟨?_, fun hjoined => ?_⟩, ?_, h.bound, ?_, ?_, ?_, ?_, fun j => ?_⟩
  · rwa [h.launched]
  · exact (nodup_append.mp hnodup).2.2 i hi i hjoined rfl
  · rw [Pipeline.landed, launched_joined]
    exact h.launched
  · -- the task moves from the set to the joins
    simp only [Pipeline.landed, joins_joined, map_append, map_cons, map_nil]
    refine List.Perm.trans ?_ h.tasks
    rw [← append_assoc]
    refine perm_append_comm.trans ?_
    rw [singleton_append, ← cons_append]
    exact (perm_cons_erase hi).symm.append_right _
  · exact (length_erase_le).trans h.room
  · simp only [Pipeline.landed, failure_joined, h.failed]
  · simp only [Pipeline.landed, notified_joined]
    exact h.notified
  · simp only [Pipeline.landed, joins_joined, mem_append, h.landed, mem_singleton, Prod.mk.injEq]
    cases outcome with
    | ok =>
      simp only [Outcome.error?, isNone_none, if_true, Finset.mem_insert, and_true]
      tauto
    | failed e => simp [Outcome.error?]
    | panicked text => simp [Outcome.error?]

lemma Inv.notify (h : Inv layerSizes max st) (herr : st.firstErr = none) (hdone : st.watermark ∈ st.done) :
    Inv layerSizes max { st with
      done := st.done.erase st.watermark
      watermark := st.watermark + 1
      trace := st.trace ++ [.notify st.watermark] } := by
  refine ⟨h.orderly.concat ⟨?_, ?_, fun j hj => ?_⟩, ?_, h.bound, ?_, h.room, ?_, ?_, fun j => ?_⟩
  · rw [← h.failed, herr]
  · rw [h.notified, length_range]
  · rw [h.landed]
    rcases hj.lt_or_eq with hj | rfl
    · exact .inl hj
    · exact .inr hdone
  · rw [launched_notify]
    exact h.launched
  · rw [joins_notify]
    exact h.tasks
  · rw [failure_notify]
    exact h.failed
  · rw [notified_notify, h.notified, range_succ]
  · rw [joins_notify, h.landed, Finset.mem_erase]
    by_cases hj : j = st.watermark
    · simp [hj, hdone]
    · simp only [ne_eq, hj, not_false_eq_true, true_and]
      refine or_congr_left ?_
      omega

lemma release_same (fuel : ℕ) (st : Pipeline) : (st.release fuel).firstErr = st.firstErr ∧
    (st.release fuel).nextIdx = st.nextIdx ∧ (st.release fuel).set = st.set := by
  induction fuel generalizing st with
  | zero => exact ⟨rfl, rfl, rfl⟩
  | succ fuel ih =>
    rw [release]
    split_ifs
    · exact ih _
    · exact ⟨rfl, rfl, rfl⟩

lemma Inv.release (h : Inv layerSizes max st) (herr : st.firstErr = none) (fuel : ℕ) :
    Inv layerSizes max (st.release fuel) := by
  induction fuel generalizing st with
  | zero => exact h
  | succ fuel ih =>
    rw [Pipeline.release]
    split_ifs with hdone
    · exact ih (h.notify herr hdone) herr
    · exact h

lemma gate_release {fuel : ℕ} (hfuel : st.done.card ≤ fuel) : (st.release fuel).watermark ∉ (st.release fuel).done := by
  induction fuel generalizing st with
  | zero =>
    rw [Nat.le_zero, Finset.card_eq_zero] at hfuel
    rw [release, hfuel]
    exact Finset.notMem_empty _
  | succ fuel ih =>
    rw [release]
    split_ifs with hdone
    · refine ih ?_
      rw [Finset.card_erase_of_mem hdone]
      omega
    · exact hdone

lemma Steady.onJoined (h : Steady layerSizes max st) (htiles : Tiles layerSizes layers) (hi : i ∈ st.set)
    (outcome : Outcome) : Steady layerSizes max (st.onJoined layers i outcome) := by
  have hinv := h.joined hi outcome
  have hroom := h.room
  have hlen : (st.landed i outcome).set.length + 1 = st.set.length := by
    rw [Pipeline.landed, length_erase_of_mem hi]
    have hpos := length_pos_of_mem hi
    omega
  cases herr : (st.landed i outcome).firstErr with
  | some e =>
    -- a failure: nothing is notified and nothing launched
    have heq : st.onJoined layers i outcome = st.landed i outcome := by
      simp only [Pipeline.onJoined, herr, isNone_some, Bool.false_eq_true, and_false, false_and, if_false]
    rw [heq]
    have hne : (st.landed i outcome).firstErr ≠ none := herr ▸ some_ne_none e
    exact ⟨hinv, fun hnone => absurd hnone hne, fun hnone => absurd hnone hne⟩
  | none =>
    obtain ⟨herr', houtcome⟩ : st.firstErr = none ∧ outcome.error? = none := or_eq_none_iff.mp herr
    obtain ⟨hsame, hnext, hset⟩ := release_same (st.landed i outcome).done.card (st.landed i outcome)
    have hgate := @gate_release (st.landed i outcome) _ le_rfl
    have hinv' := hinv.release herr (st.landed i outcome).done.card
    have heq : st.onJoined layers i outcome = if st.nextIdx < layerSizes.length then
        ((st.landed i outcome).release (st.landed i outcome).done.card).launchNext layers
        else (st.landed i outcome).release (st.landed i outcome).done.card := by
      simp only [Pipeline.onJoined, houtcome, herr, hsame, hnext, htiles.length, isNone_none, true_and, if_true,
        and_self]
      rfl
    rw [heq]
    generalize (st.landed i outcome).release (st.landed i outcome).done.card = st' at hsame hnext hset hgate hinv' ⊢
    rw [herr] at hsame
    rw [← hset] at hlen
    have hnext' : st'.nextIdx = st.nextIdx := hnext
    split_ifs with hmore
    · have hlaunch := hinv'.launchNext htiles hsame (hnext'.symm ▸ hmore) (by omega)
      refine ⟨hlaunch, fun _ => ?_, fun _ => .inr ?_⟩
      · rwa [watermark_launchNext, done_launchNext]
      · rw [launchNext_eq htiles (getElem?_eq_getElem (hnext'.symm ▸ hmore : st'.nextIdx < layerSizes.length))]
        change (st'.set ++ [st'.nextIdx]).length = max
        rw [length_append, length_singleton, hlen]
        exact (h.full herr').resolve_left (Nat.ne_of_lt hmore)
    · exact ⟨hinv', fun _ => hgate, fun _ => .inl (by have hbound := h.bound; omega)⟩

lemma steady_of_runs (htiles : Tiles layerSizes layers) {maxInflight : ℕ}
    (h : Relation.ReflTransGen (Joins layers) (start layers maxInflight) st) :
    Steady layerSizes (Max.max maxInflight 1) st := by
  induction h with
  | refl => exact inv_new.prime htiles rfl (Finset.notMem_empty _) (htiles.length ▸ Nat.sub_le _ _)
  | tail _ hjoin ih =>
    cases hjoin with
    | join outcome hi => exact ih.onJoined htiles hi outcome

lemma Steady.watermark_eq (h : Steady layerSizes max st) (hmax : 0 < max) (hset : st.set = [])
    (herr : st.firstErr = none) : st.watermark = layerSizes.length := by
  have hnext : st.nextIdx = layerSizes.length := (h.full herr).resolve_right fun hlen => by
    rw [hset] at hlen
    exact hmax.ne hlen
  have htasks := h.tasks
  rw [hset, nil_append, hnext] at htasks
  have hok : ∀ j < layerSizes.length, (j, Outcome.ok) ∈ joins st.trace := fun j hj => by
    obtain ⟨⟨j', outcome⟩, hmem, rfl⟩ := List.mem_map.mp (htasks.symm.subset (mem_range.mpr hj))
    have hnone := h.failed.symm.trans herr
    rw [failure, findSome?_eq_none_iff] at hnone
    cases outcome with
    | ok => exact hmem
    | failed e => cases hnone _ hmem
    | panicked text => cases hnone _ hmem
  refine le_antisymm (not_lt.mp fun hlt => ?_) (not_lt.mp fun hlt => ?_)
  · -- a layer beyond the last one would have been joined
    have hmem := (h.landed layerSizes.length).mpr (.inl hlt)
    have hrange := htasks.subset (List.mem_map_of_mem hmem)
    rw [mem_range] at hrange
    exact lt_irrefl _ hrange
  · exact ((h.landed st.watermark).mp (hok _ hlt)).elim (lt_irrefl _) (h.gate herr)

end invariant

end Pipeline

/-! ## Runs -/

lemma mem_joins {t : List Event} {i : ℕ} {outcome : Outcome} :
    (i, outcome) ∈ joins t ↔ Event.joined i outcome ∈ t := by
  rw [joins, mem_filterMap]
  constructor
  · rintro ⟨e, he, heq⟩
    cases e with
    | joined j o =>
      cases heq
      exact he
    | launch j off len => cases heq
    | notify j => cases heq
  · exact fun h => ⟨_, h, rfl⟩

lemma Outcome.error?_eq_none_iff {outcome : Outcome} : outcome.error? = none ↔ outcome = .ok := by
  cases outcome <;> simp [Outcome.error?]

lemma failure_ne_none_iff {t : List Event} :
    failure t ≠ none ↔ ∃ i outcome, Event.joined i outcome ∈ t ∧ outcome ≠ .ok := by
  rw [failure, ne_eq, findSome?_eq_none_iff, not_forall]
  simp only [Prod.exists, Classical.not_imp, mem_joins, Outcome.error?_eq_none_iff, ne_eq]

/-- **Layers are notified in order**: for all sizes and limits, and for every run, that is for every order and outcome
of the joins, each event is allowed by those before it; at most `max(1, max_inflight)` tasks are in flight at any time;
the notified layers are `0, 1, …` up to some layer; there is at most one join for each layer, and when no task is left,
every launched one has been joined, the result is the first failure, an error exactly if some task has failed, and
without one all layers have been notified. -/
theorem layers_in_order (layerSizes : List ℕ) (hsum : layerSizes.sum < 2 ^ 64) (maxInflight : ℕ) :
    ∃ layers, layerSlices layerSizes = some layers ∧
      ∀ st, Relation.ReflTransGen (Pipeline.Joins layers) (Pipeline.start layers maxInflight) st →
        Orderly layerSizes (max maxInflight 1) st.trace ∧
        (∀ past, past <+: st.trace → (launched past).length ≤ (joins past).length + max maxInflight 1) ∧
        (∃ k, notified st.trace = List.range k) ∧
        st.set.length + (joins st.trace).length ≤ layerSizes.length ∧
        (st.set = [] →
          (∀ i, i ∈ (launched st.trace).map Prod.fst ↔ i ∈ (joins st.trace).map Prod.fst) ∧
          st.result = ((failure st.trace).elim (.ok ()) .error) ∧
          ((∃ e, st.result = .error e) ↔ ∃ i outcome, Event.joined i outcome ∈ st.trace ∧ outcome ≠ .ok) ∧
          ((∀ i outcome, Event.joined i outcome ∈ st.trace → outcome = .ok) →
            notified st.trace = List.range layerSizes.length)) := by
  obtain ⟨layers, hlayers, htiles⟩ := tiles_layerSlices hsum
  refine ⟨layers, hlayers, fun st hrun => ?_⟩
  have hsteady := Pipeline.steady_of_runs htiles hrun
  have hresult : st.result = ((failure st.trace).elim (.ok ()) .error) := by
    rw [Pipeline.result, hsteady.failed]
    cases failure st.trace <;> rfl
  refine ⟨hsteady.orderly, fun past hpast => ?_, ⟨_, hsteady.notified⟩, ?_, fun hset => ⟨fun i => ?_, hresult, ?_, ?_⟩⟩
  · exact Orderly.length_launched_le fun past' e h => hsteady.orderly past' e (h.trans hpast)
  · rw [hsteady.length_tasks]
    exact hsteady.bound
  · have htasks := hsteady.tasks
    rw [hset, nil_append] at htasks
    rw [hsteady.launched, htasks.mem_iff]
  · rw [← failure_ne_none_iff, hresult]
    cases failure st.trace with
    | none => simp
    | some e => simp
  · intro hok
    have herr : st.firstErr = none := by
      rw [hsteady.failed]
      by_contra hne
      obtain ⟨i, outcome, hmem, hbad⟩ := failure_ne_none_iff.mp hne
      exact hbad (hok i outcome hmem)
    rw [hsteady.notified, hsteady.watermark_eq (by omega) hset herr]

def secondFirst : Pipeline :=
  let layers := [(0, 0, 3), (1, 3, 5)]
  ((Pipeline.start layers 2).onJoined layers 1 .ok).onJoined layers 0 .ok

theorem layers_in_order_secondFirst :
    secondFirst.trace = [.launch 0 0 3, .launch 1 3 5, .joined 1 .ok, .joined 0 .ok, .notify 0, .notify 1] ∧
      Orderly [3, 5] 2 secondFirst.trace := by
  obtain ⟨layers, hlayers, horder⟩ := layers_in_order [3, 5] (by decide) 2
  have hslices : layers = [(0, 0, 3), (1, 3, 5)] := Option.some.inj (hlayers.symm.trans rfl)
  subst hslices
  have hfirst : 1 ∈ (Pipeline.start [(0, 0, 3), (1, 3, 5)] 2).set := by decide
  have hsecond : 0 ∈ ((Pipeline.start [(0, 0, 3), (1, 3, 5)] 2).onJoined [(0, 0, 3), (1, 3, 5)] 1 .ok).set := by decide
  exact ⟨by decide, (horder secondFirst ((Relation.ReflTransGen.single (.join .ok hfirst)).tail (.join .ok hsecond))).1⟩

end QuillCache.Transfer
