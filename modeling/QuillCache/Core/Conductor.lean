import QuillCache.Core.Block
import QuillCache.Lib.Buckets

/-!
# The conductor's prefix table

An embedding of `PrefixCacheTable` and `KVEventHandler`. A set of instances is a list without
repetitions. What the table says after any events is what their history says (`holders_iff_held`), so an overlap is the
longest initial run of the hashes that the instance holds (`overlap_by_history`).

Source: `conductor.rs`.
-/

namespace QuillCache.Core

open Lib Store AList List
open Option hiding or_assoc

abbrev InstanceId := String

abbrev PrefixHash := String

structure ModelContext where
  tenantId : String
  modelId : String
  tokenizerId : String
  loraId : Option String
  blockSize : ℕ
  salt : Option String
  deriving DecidableEq

structure PrefixCacheTable where
  tables : Table ModelContext (Table PrefixHash (List InstanceId)) := ∅

namespace PrefixCacheTable

def insert (ctx : ModelContext) (prefixHashes : List PrefixHash) (inst : InstanceId) (self : PrefixCacheTable) :
    PrefixCacheTable :=
  ⟨self.tables.insert ctx (prefixHashes.foldl (fun table ph => Buckets.file ph inst table)
    ((self.tables.lookup ctx).getD ∅))⟩

def remove (ctx : ModelContext) (prefixHash : PrefixHash) (inst : InstanceId) (self : PrefixCacheTable) :
    PrefixCacheTable :=
  ⟨self.tables.update ctx (Buckets.drop prefixHash [inst])⟩

def removeInstance (inst : InstanceId) (self : PrefixCacheTable) : PrefixCacheTable :=
  ⟨(self.tables.mapEntries fun _ table =>
    (table.mapEntries fun _ set => set.filter (· ≠ inst)).retain fun _ set => !set.isEmpty).retain
      fun _ table => !table.entries.isEmpty⟩

def walk (table : Table PrefixHash (List InstanceId)) (inst : InstanceId) : List PrefixHash → ℕ → ℕ
  | [], len => len
  | ph :: prefixHashes, len =>
    if (table.lookup ph).any (inst ∈ ·) then walk table inst prefixHashes (len + 1) else len

def queryOverlap (ctx : ModelContext) (prefixHashes : List PrefixHash) (self : PrefixCacheTable) : Table InstanceId ℕ :=
  match self.tables.lookup ctx with
  | none => ∅
  | some table =>
    match prefixHashes.head?.bind table.lookup with
    | none => ∅
    | some first => AList.insertAll id (fun inst => walk table inst prefixHashes.tail 1) ∅ first

end PrefixCacheTable

inductive KvCacheEvent where
  | blockStored (ctx : ModelContext) (prefixHashes : List PrefixHash) (inst : InstanceId)
  | blockRemoved (ctx : ModelContext) (prefixHash : PrefixHash) (inst : InstanceId)
  | instanceGone (inst : InstanceId)

namespace KvCacheEvent

def handle (self : PrefixCacheTable) : KvCacheEvent → PrefixCacheTable
  | blockStored ctx prefixHashes inst => self.insert ctx prefixHashes inst
  | blockRemoved ctx prefixHash inst => self.remove ctx prefixHash inst
  | instanceGone inst => self.removeInstance inst

/-! ## Holding, by history -/

def Stores (ctx : ModelContext) (ph : PrefixHash) (inst : InstanceId) : KvCacheEvent → Prop
  | blockStored ctx' prefixHashes inst' => ctx' = ctx ∧ ph ∈ prefixHashes ∧ inst' = inst
  | _ => False

def Drops (ctx : ModelContext) (ph : PrefixHash) (inst : InstanceId) : KvCacheEvent → Prop
  | blockStored .. => False
  | blockRemoved ctx' ph' inst' => ctx' = ctx ∧ ph' = ph ∧ inst' = inst
  | instanceGone inst' => inst' = inst

def Elsewhere (ctx : ModelContext) : KvCacheEvent → Prop
  | blockStored ctx' _ _ => ctx' ≠ ctx
  | blockRemoved ctx' _ _ => ctx' ≠ ctx
  | instanceGone _ => False

/-- The hash was stored on the instance, and neither removed nor gone since. -/
def Held (ctx : ModelContext) (ph : PrefixHash) (inst : InstanceId) (events : List KvCacheEvent) : Prop :=
  ∃ before e after, events = before ++ e :: after ∧ e.Stores ctx ph inst ∧ ∀ e' ∈ after, ¬e'.Drops ctx ph inst

section history

variable {ctx c : ModelContext} {ph p : PrefixHash} {inst i : InstanceId} {events : List KvCacheEvent}
  {t : PrefixCacheTable} {table : Table PrefixHash (List InstanceId)} {hashes : List PrefixHash}

lemma held_concat {e : KvCacheEvent} :
    Held ctx ph inst (events ++ [e]) ↔ e.Stores ctx ph inst ∨ Held ctx ph inst events ∧ ¬e.Drops ctx ph inst := by
  constructor
  · rintro ⟨before, e', after, heq, hstores, hafter⟩
    rcases eq_nil_or_concat' after with rfl | ⟨after, last, rfl⟩
    · obtain ⟨-, he⟩ := append_inj' heq rfl
      cases he
      exact .inl hstores
    · rw [← cons_append, ← append_assoc] at heq
      obtain ⟨rfl, he⟩ := append_inj' heq rfl
      cases he
      exact .inr ⟨⟨before, e', after, rfl, hstores, fun x hx => hafter x (mem_append_left _ hx)⟩,
        hafter e (mem_append_right _ (mem_singleton_self e))⟩
  · rintro (hstores | ⟨⟨before, e', after, rfl, hstores, hafter⟩, hkeeps⟩)
    · exact ⟨events, e, [], rfl, hstores, fun _ h => absurd h not_mem_nil⟩
    · refine ⟨before, e', after ++ [e], by simp, hstores, fun x hx => ?_⟩
      rcases mem_append.mp hx with hx | hx
      · exact hafter x hx
      · rw [mem_singleton.mp hx]
        exact hkeeps

/-! ## The table and its history -/

def holders (t : PrefixCacheTable) (ctx : ModelContext) (ph : PrefixHash) : List InstanceId :=
  (((t.tables.lookup ctx).getD ∅).lookup ph).getD []

lemma mem_foldl_file {prefixHashes : List PrefixHash} :
    i ∈ ((prefixHashes.foldl (fun table ph => Buckets.file ph inst table) table).lookup p).getD [] ↔
      i ∈ (table.lookup p).getD [] ∨ p ∈ prefixHashes ∧ i = inst := by
  induction prefixHashes generalizing table with
  | nil => simp
  | cons ph prefixHashes ih =>
    rw [foldl_cons, ih, Buckets.mem_file, or_assoc, ← or_and_right, mem_cons]

lemma mem_holders_insert {prefixHashes : List PrefixHash} :
    i ∈ holders (t.insert ctx prefixHashes inst) c p ↔
      i ∈ holders t c p ∨ (blockStored ctx prefixHashes inst).Stores c p i := by
  unfold holders PrefixCacheTable.insert Stores
  rcases eq_or_ne c ctx with rfl | hne
  · rw [lookup_insert, getD_some, mem_foldl_file]
    simp [eq_comm]
  · rw [lookup_insert_ne hne]
    simp [hne.symm]

lemma mem_holders_remove : i ∈ holders (t.remove ctx ph inst) c p ↔
    i ∈ holders t c p ∧ ¬(blockRemoved ctx ph inst).Drops c p i := by
  unfold holders PrefixCacheTable.remove Drops
  rw [lookup_update]
  split_ifs with hc
  · subst hc
    cases t.tables.lookup c with
    | none => simp
    | some table => simp [Buckets.mem_drop, eq_comm]
  · simp [Ne.symm hc]

lemma getD_filter {α : Type} {o : Option α} {keep : α → Bool} {d : α} (h : ∀ x, keep x = false → x = d) :
    (o.filter keep).getD d = o.getD d := by
  cases o with
  | none => rfl
  | some x =>
    rw [filter_some]
    split_ifs with hx
    · rfl
    · exact (h x (Bool.eq_false_iff.mpr hx)).symm

lemma mem_holders_removeInstance : i ∈ holders (t.removeInstance inst) c p ↔
    i ∈ holders t c p ∧ ¬(instanceGone inst).Drops c p i := by
  unfold holders PrefixCacheTable.removeInstance Drops
  rw [lookup_retain, lookup_mapEntries,
    getD_filter fun table h => AList.ext (by simpa using h)]
  cases t.tables.lookup c with
  | none => simp
  | some table =>
    rw [map_some, getD_some, getD_some, lookup_retain, lookup_mapEntries,
      getD_filter fun set h => by simpa using h]
    cases table.lookup p with
    | none => simp
    | some set =>
      rw [map_some, getD_some, getD_some, mem_filter, decide_eq_true_iff, ne_comm]

lemma holders_iff_held : i ∈ holders (events.foldl handle {}) ctx p ↔ Held ctx p i events := by
  induction events using List.reverseRecOn with
  | nil =>
    constructor
    · exact fun h => absurd h not_mem_nil
    · rintro ⟨before, e, after, heq, -⟩
      simp at heq
  | append_singleton events e ih =>
    rw [List.foldl_append, held_concat, ← ih]
    cases e with
    | blockStored ctx' hashes inst =>
      refine mem_holders_insert.trans ?_
      simp [Drops, or_comm]
    | blockRemoved ctx' ph inst =>
      refine mem_holders_remove.trans ?_
      simp [Stores]
    | instanceGone inst =>
      refine mem_holders_removeInstance.trans ?_
      simp [Stores]

/-! ## Overlaps -/

lemma walk_eq (len : ℕ) : PrefixCacheTable.walk table inst hashes len =
    len + (hashes.takeWhile fun ph => (table.lookup ph).any (inst ∈ ·)).length := by
  induction hashes generalizing len with
  | nil => rfl
  | cons ph hashes ih =>
    rw [PrefixCacheTable.walk, takeWhile_cons]
    split_ifs
    · rw [ih, length_cons]
      omega
    · rfl

lemma isGreatest_takeWhile {α : Type} (P : α → Bool) (l : List α) :
    IsGreatest {n | n ≤ l.length ∧ ∀ x ∈ l.take n, P x = true} (l.takeWhile P).length := by
  induction l with
  | nil => simp [IsGreatest, upperBounds]
  | cons x l ih =>
    rw [takeWhile_cons]
    split_ifs with hx
    · refine ⟨⟨Nat.succ_le_succ ih.1.1, ?_⟩, ?_⟩
      · rw [length_cons, take_succ_cons]
        exact forall_mem_cons.mpr ⟨hx, ih.1.2⟩
      · rintro (_ | n) ⟨hle, hall⟩
        · exact Nat.zero_le _
        · rw [take_succ_cons] at hall
          exact Nat.succ_le_succ (ih.2 ⟨Nat.le_of_succ_le_succ hle, (forall_mem_cons.mp hall).2⟩)
    · refine ⟨⟨Nat.zero_le _, by simp⟩, ?_⟩
      rintro (_ | n) ⟨hle, hall⟩
      · exact le_rfl
      · rw [take_succ_cons] at hall
        exact absurd (forall_mem_cons.mp hall).1 hx

lemma lookup_insertAll_id {val : InstanceId → ℕ} {l : List InstanceId} {r : Table InstanceId ℕ} :
    (AList.insertAll id val r l).lookup i = if i ∈ l then some (val i) else r.lookup i := by
  induction l generalizing r with
  | nil => simp [AList.insertAll]
  | cons x l ih =>
    rw [AList.insertAll, ih]
    rcases eq_or_ne i x with rfl | hne
    · simp
    · simp [lookup_insert_ne hne, hne]

lemma queryOverlap_eq_some_iff {n : ℕ} : (t.queryOverlap ctx hashes).lookup i = some n ↔
    (∃ ph, hashes.head? = some ph ∧ i ∈ holders t ctx ph) ∧
      IsGreatest {n | n ≤ hashes.length ∧ ∀ ph ∈ hashes.take n, i ∈ holders t ctx ph} n := by
  unfold PrefixCacheTable.queryOverlap holders
  cases t.tables.lookup ctx with
  | none => simp
  | some table =>
    have hany : ∀ ph, (table.lookup ph).any (i ∈ ·) = true ↔ i ∈ (table.lookup ph).getD [] := by
      intro ph
      cases table.lookup ph with
      | none => simp
      | some set => simp
    cases hashes with
    | nil => simp
    | cons ph hashes =>
      simp only [head?_cons, bind_some, Option.some.injEq, exists_eq_left', getD_some, ← hany]
      cases hfirst : table.lookup ph with
      | none => simp
      | some first =>
        rw [lookup_insertAll_id, any_some, decide_eq_true_iff]
        by_cases hi : i ∈ first
        · -- the run starts with the first hash
          have hgreat := isGreatest_takeWhile (fun ph => (table.lookup ph).any (i ∈ ·)) (ph :: hashes)
          have hwalk : PrefixCacheTable.walk table i hashes 1 =
              ((ph :: hashes).takeWhile fun ph => (table.lookup ph).any (i ∈ ·)).length := by
            rw [walk_eq, takeWhile_cons_of_pos (by simpa [hfirst] using hi), length_cons, add_comm]
          rw [if_pos hi, tail_cons, hwalk, Option.some.injEq, and_iff_right hi]
          exact ⟨fun h => h ▸ hgreat, fun h => hgreat.unique h⟩
        · simp [hi]

lemma queryOverlap_handle_of_elsewhere {e : KvCacheEvent} (h : e.Elsewhere ctx) :
    (handle t e).queryOverlap ctx hashes = t.queryOverlap ctx hashes := by
  have hlookup : (handle t e).tables.lookup ctx = t.tables.lookup ctx := by
    cases e with
    | blockStored ctx' prefixHashes inst => exact lookup_insert_ne (Ne.symm h)
    | blockRemoved ctx' ph inst =>
      unfold handle PrefixCacheTable.remove
      rw [lookup_update, if_neg (Ne.symm h)]
    | instanceGone inst => exact absurd h id
  unfold PrefixCacheTable.queryOverlap
  rw [hlookup]

end history

/-- After any events, exactly the instances that hold the first hash have an overlap, which is the longest initial run
of the hashes that they hold; blocks of other contexts do not change it. -/
theorem overlap_by_history (events : List KvCacheEvent) (ctx : ModelContext) (hashes : List PrefixHash) :
    (∀ inst n, ((events.foldl handle {}).queryOverlap ctx hashes).lookup inst = some n ↔
      (∃ ph, hashes.head? = some ph ∧ Held ctx ph inst events) ∧
        IsGreatest {n | n ≤ hashes.length ∧ ∀ ph ∈ hashes.take n, Held ctx ph inst events} n) ∧
    ∀ e : KvCacheEvent, e.Elsewhere ctx →
      ((events ++ [e]).foldl handle {}).queryOverlap ctx hashes =
        (events.foldl handle {}).queryOverlap ctx hashes := by
  refine ⟨fun inst n => ?_, fun e he => ?_⟩
  · simp only [← holders_iff_held]
    exact queryOverlap_eq_some_iff
  · rw [List.foldl_append]
    exact queryOverlap_handle_of_elsewhere he

def tenantContext (tenantId : String) : ModelContext := ⟨tenantId, "m", "t", none, 16, none⟩

/-- A repeated hash counts each time, and a removal in another context changes nothing. -/
theorem overlap_by_history_repeated :
    (((([blockStored (tenantContext "a") ["x", "y"] "w", blockRemoved (tenantContext "b") "x" "w"].foldl handle {}
      ).queryOverlap (tenantContext "a") ["x", "y", "x", "z"]).lookup "w") = some 3) ∧
    (([blockStored (tenantContext "a") ["x", "y"] "w"].foldl handle {}).queryOverlap (tenantContext "a")
      ["x", "y", "x", "z"]).lookup "w" = some 3 := by
  have hsame := (overlap_by_history [blockStored (tenantContext "a") ["x", "y"] "w"] (tenantContext "a")
    ["x", "y", "x", "z"]).2 (blockRemoved (tenantContext "b") "x" "w") (by simp [Elsewhere, tenantContext])
  have hone : (([blockStored (tenantContext "a") ["x", "y"] "w"].foldl handle {}).queryOverlap (tenantContext "a")
    ["x", "y", "x", "z"]).lookup "w" = some 3 := by decide +kernel
  exact ⟨(congrArg (AList.lookup "w") hsame).trans hone, hone⟩

end KvCacheEvent

end QuillCache.Core
