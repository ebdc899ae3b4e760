import QuillCache.Store.LogTrail

/-!
# The log of racing threads

The log of threads that race need not be in the order of their changes. Two kinds of disorder break a replay: the
entries of one key change places, or a range that a `remove` has freed is committed again before the removal is in
the log (`log_out_of_order`). A put that is ended twice breaks it as well.

`racing_log_replays` says that nothing else can go wrong: if every section is `orderly`, then whenever all threads are
idle the log recovers exactly the complete objects, whatever the order in which the entries were appended.
-/

namespace QuillCache.Store.MasterService

open Lib Prog Relation AList Function List Option

/-- Threads that run `put_start`, `put_end`, `remove` and evictions on one master. -/
def logSystem : System Section MasterService { op : MasterOp // logs op = true } where
  prog op := op.1.prog
  assume _ _ := True
  env := Shuffle

instance : ∀ l s, Decidable (logSystem.assume l s) := fun _ _ => inferInstanceAs (Decidable True)

/-- The threads, and the entries of changes that are not in the log yet. -/
structure Journal where
  config : Config Section MasterService
  outstanding : List OpLogEntry

namespace Journal

/-- One step in good order, with few live buffers after it: of a thread, of a thread that starts a request, or of the
iteration order of the hash maps. -/
inductive Step : Journal → Journal → Prop where
  | move {c : Journal} {config' : Config Section MasterService} (i : ℕ) (h : c.config.Moves i config')
      (hok : ∀ l, (c.config.threads i).next = some l → orderly c.outstanding c.config.shared l)
      (hfew : config'.shared.Few) :
      Step c ⟨config', noted (c.config.threads i).next c.config.shared config'.shared c.outstanding⟩
  | start {c : Journal} (i : ℕ) (op : { op : MasterOp // logs op = true }) (hi : c.config.threads i = .ret ()) :
      Step c ⟨⟨c.config.shared, c.config.holder, Function.update c.config.threads i op.1.prog⟩, c.outstanding⟩
  | shuffle {c : Journal} {s' : MasterService} (h : Shuffle c.config.shared s') :
      Step c ⟨⟨s', c.config.holder, c.config.threads⟩, c.outstanding⟩

/-- Every outstanding entry is the debt of one thread. -/
structure Ledger (es : List OpLogEntry) (debts : ℕ → Debt) : Prop where
  entry : ∀ i e, (debts i).entry = some e → e ∈ es
  owner : ∀ e ∈ es, ∃ i, (debts i).entry = some e
  distinct : ∀ i j e, (debts i).entry = some e → (debts j).entry = some e → i = j

/-- The threads keep their books, and a key that a thread has found free stays so while it holds the mutex. -/
structure Owed (c : Journal) (debts : ℕ → Debt) : Prop where
  books : ∀ i, Books (fun _ g => g = .none) (c.config.threads i) (debts i)
  ledger : Ledger c.outstanding debts
  held : ∀ i, (debts i).held = true → c.config.holder = some i
  absent : ∀ i k, (debts i).absent = some k → (debts i).held = true ∧ c.config.shared.objects.lookup k = none

structure Inv (strategy : String) (c : Journal) : Prop where
  safe : c.config.Safe (discipline fun _ _ => True)
  trails : Trails strategy c.config.shared c.outstanding
  owed : ∃ debts, Owed c debts

section steps

variable {c c' : Journal} {strategy : String} {s s' : MasterService} {l : Section} {g g' : Debt} {es : List OpLogEntry}

lemma Step.config (h : Step c c') : Config.Step logSystem c.config c'.config := by
  cases h with
  | move i h => exact h.step fun _ _ => trivial
  | start i op hi => exact Config.Step.start hi
  | shuffle h => exact .env h

lemma noted_cases (hacts : Acts s s' l g g') (hok : orderly es s l) :
    (g'.entry = g.entry ∧ noted (some l) s s' es = es) ∨
      (∃ e key, g.entry = none ∧ g'.entry = some e ∧ noted (some l) s s' es = es ++ [e] ∧
        entryKey e = some key ∧ NoEntry es key) ∨
      ∃ e, g.entry = some e ∧ g'.entry = none ∧ noted (some l) s s' es = es.erase e := by
  cases hacts with
  | quiet hl _ => rcases hl with rfl | rfl <;> exact .inl ⟨rfl, rfl⟩
  | refused hl heq =>
    subst heq
    rcases hl with rfl | hl
    · exact .inl ⟨rfl, rfl⟩
    · refine .inl ⟨rfl, ?_⟩
      rw [noted_of_mem hl, if_neg fun hmem => hmem.2 hmem.1]
  | reclaim _ _ => exact .inl ⟨rfl, rfl⟩
  | @take _ key o _ _ hl ho heq =>
    subst heq
    have hmem : key ∈ s.objects := mem_iff_exists_lookup.mpr ⟨o, ho⟩
    have hgone : key ∉ s.objects.erase key := lookup_eq_none.mp (lookup_erase _ _)
    refine Or.inr (.inl ⟨.removed key, key, rfl, rfl, ?_, rfl, ?_⟩)
    · rw [noted_of_mem hl, if_pos ⟨hmem, hgone⟩]
    · rcases hl with rfl | rfl
      · exact hok hmem
      · exact hok hmem
  | @finish key _ _ heq =>
    subst heq
    cases ho : s.objects.lookup key with
    | none =>
      refine .inl ⟨rfl, ?_⟩
      rw [noted, lookup_update, if_pos rfl, ho, map_none, map_none, toList_none,
        append_nil]
    | some o =>
      refine Or.inr (.inl ⟨commitEntry key (o.withStatus .complete), key, rfl, rfl, ?_, rfl, ?_⟩)
      · rw [noted, lookup_update, if_pos rfl, ho]
        rfl
      · exact (hok (mem_iff_exists_lookup.mpr ⟨o, ho⟩)).2
  | insert _ _ => exact .inl ⟨rfl, rfl⟩
  | append _ => exact Or.inr (.inr ⟨_, rfl, rfl, rfl⟩)

lemma lookup_erase_of_none {t : ObjectMap} {k : ObjectKey} (hk : t.lookup k = none) (key : ObjectKey) :
    (t.erase key).lookup k = none := by
  by_cases hkey : k = key
  · rw [hkey, lookup_erase]
  · rwa [lookup_erase_ne hkey]

lemma lookup_none_of_acts {k : ObjectKey} (hacts : Acts s s' l g g') (hk : s.objects.lookup k = none) :
    s'.objects.lookup k = none ∨ (g.absent.isSome = true ∧ g'.absent = none) := by
  cases hacts with
  | quiet _ hquiet => exact Or.inl (hquiet.objects_eq ▸ hk)
  | refused _ heq => exact Or.inl (heq ▸ hk)
  | reclaim _ heq => exact Or.inl (heq ▸ lookup_erase_of_none hk _)
  | take _ _ heq => exact Or.inl (heq ▸ lookup_erase_of_none hk _)
  | finish heq =>
    subst heq
    left
    rw [lookup_update]
    split_ifs
    · rw [hk, map_none]
    · exact hk
  | insert _ _ => exact .inr ⟨rfl, rfl⟩
  | append heq => exact Or.inl (heq ▸ hk)

lemma absent_of_acts {k : ObjectKey} (hacts : Acts s s' l g g') (hk : g'.absent = some k) :
    g.absent = some k ∨ (g.held = true ∧ s'.objects.lookup k = none) := by
  cases hacts with
  | reclaim _ heq =>
    cases hk
    exact .inr ⟨rfl, heq ▸ lookup_erase _ _⟩
  | insert _ _ => cases hk
  | _ => exact .inl hk

lemma held_of_acts (hacts : Acts s s' l g g') : g'.held = g.held := by
  cases hacts <;> rfl

section ledger

variable {debts : ℕ → Debt} {i : ℕ} {e : OpLogEntry}

lemma Ledger.keep (h : Ledger es debts) (hg : g'.entry = (debts i).entry) : Ledger es (Function.update debts i g') := by
  have hsame : ∀ j, (Function.update debts i g' j).entry = (debts j).entry := by
    intro j
    by_cases hj : j = i
    · rw [hj, update_self, hg]
    · rw [update_of_ne hj]
  refine ⟨fun j e' he' => h.entry j e' (hsame j ▸ he'), fun e' he' => ?_, fun j j' e' hj hj' => ?_⟩
  · obtain ⟨j, hj⟩ := h.owner e' he'
    exact ⟨j, (hsame j).trans hj⟩
  · exact h.distinct j j' e' (hsame j ▸ hj) (hsame j' ▸ hj')

lemma Ledger.note (h : Ledger es debts) (hnone : (debts i).entry = none) (hg : g'.entry = some e) (he : e ∉ es) :
    Ledger (es ++ [e]) (Function.update debts i g') := by
  refine ⟨fun j e' he' => ?_, fun e' he' => ?_, fun j j' e' hj hj' => ?_⟩
  · by_cases hj : j = i
    · rw [hj, update_self, hg, Option.some.injEq] at he'
      exact mem_append_right _ (mem_singleton.mpr he'.symm)
    · rw [update_of_ne hj] at he'
      exact mem_append_left _ (h.entry j e' he')
  · rcases mem_append.mp he' with he' | he'
    · obtain ⟨j, hj⟩ := h.owner e' he'
      refine ⟨j, ?_⟩
      rw [update_of_ne, hj]
      rintro rfl
      rw [hnone] at hj
      cases hj
    · exact ⟨i, by rw [update_self, hg, mem_singleton.mp he']⟩
  · by_cases hi : j = i <;> by_cases hi' : j' = i
    · exact hi.trans hi'.symm
    · rw [hi, update_self, hg, Option.some.injEq] at hj
      rw [update_of_ne hi', ← hj] at hj'
      exact absurd (h.entry j' e hj') he
    · rw [hi', update_self, hg, Option.some.injEq] at hj'
      rw [update_of_ne hi, ← hj'] at hj
      exact absurd (h.entry j e hj) he
    · rw [update_of_ne hi] at hj
      rw [update_of_ne hi'] at hj'
      exact h.distinct j j' e' hj hj'

lemma Ledger.append (h : Ledger es debts) (hnodup : es.Nodup) (hsome : (debts i).entry = some e)
    (hg : g'.entry = none) : Ledger (es.erase e) (Function.update debts i g') := by
  have hother : ∀ {j e'}, (Function.update debts i g' j).entry = some e' → j ≠ i ∧ (debts j).entry = some e' := by
    intro j e' hj
    by_cases hi : j = i
    · rw [hi, update_self, hg] at hj
      cases hj
    · rw [update_of_ne hi] at hj
      exact ⟨hi, hj⟩
  refine ⟨fun j e' he' => ?_, fun e' he' => ?_, fun j j' e' hj hj' => ?_⟩
  · obtain ⟨hj, he'⟩ := hother he'
    refine (mem_erase_of_ne ?_).mpr (h.entry j e' he')
    rintro rfl
    exact hj (h.distinct j i e' he' hsome)
  · obtain ⟨hne, hmem⟩ := hnodup.mem_erase_iff.mp he'
    obtain ⟨j, hj⟩ := h.owner e' hmem
    refine ⟨j, ?_⟩
    rw [update_of_ne, hj]
    rintro rfl
    rw [hsome, Option.some.injEq] at hj
    exact hne hj.symm
  · exact h.distinct j j' e' (hother hj).2 (hother hj').2

end ledger

lemma books_update {threads : ℕ → MasterProg Unit} {debts : ℕ → Debt} {p : MasterProg Unit}
    (h : ∀ j, Books (fun _ g => g = .none) (threads j) (debts j)) (hp : Books (fun _ g => g = .none) p g') (i j : ℕ) :
    Books (fun _ g => g = .none) (Function.update threads i p j) (Function.update debts i g' j) := by
  by_cases hi : j = i
  · rw [hi, update_self, update_self]
    exact hp
  · rw [update_of_ne hi, update_of_ne hi]
    exact h j

lemma Owed.runs {debts : ℕ → Debt} {i : ℕ} {p : MasterProg Unit} (h : Owed c debts)
    (htrails : Trails strategy c.config.shared c.outstanding) (hacts : Acts c.config.shared s' l (debts i) g')
    (hok : orderly c.outstanding c.config.shared l) (hbooks : Books (fun _ g => g = .none) p g') :
    Owed ⟨⟨s', c.config.holder, Function.update c.config.threads i p⟩,
      noted (some l) c.config.shared s' c.outstanding⟩ (Function.update debts i g') := by
  have hheld := held_of_acts hacts
  refine ⟨books_update h.books hbooks i, ?_, fun j hj => ?_, fun j k hj => ?_⟩
  · rcases noted_cases hacts hok with ⟨hentry, hes⟩ | ⟨e, key, hnone, hsome, hes, hkey, hfree⟩ | ⟨e, hsome, hnone, hes⟩
    · rw [hes]
      exact h.ledger.keep hentry
    · rw [hes]
      exact h.ledger.note hnone hsome fun hmem => hfree e hmem hkey
    · rw [hes]
      exact h.ledger.append htrails.keys_nodup.of_map hsome hnone
  · by_cases hi : j = i
    · subst hi
      rw [update_self, hheld] at hj
      exact h.held j hj
    · rw [update_of_ne hi] at hj
      exact h.held j hj
  · by_cases hi : j = i
    · subst hi
      rw [update_self] at hj ⊢
      rcases absent_of_acts hacts hj with hk | ⟨hk, hnone⟩
      · obtain ⟨hk', hnone⟩ := h.absent j k hk
        refine ⟨hheld.trans hk', (lookup_none_of_acts hacts hnone).resolve_right ?_⟩
        rintro ⟨-, hgone⟩
        rw [hj] at hgone
        cases hgone
      · exact ⟨hheld.trans hk, hnone⟩
    · -- another thread has the mutex, so this section records no object
      rw [update_of_ne hi] at hj ⊢
      obtain ⟨hk, hnone⟩ := h.absent j k hj
      refine ⟨hk, (lookup_none_of_acts hacts hnone).resolve_right ?_⟩
      rintro ⟨hsome, -⟩
      obtain ⟨k', hk'⟩ := isSome_iff_exists.mp hsome
      have hholder := h.held i (h.absent i k' hk').1
      rw [h.held j hk] at hholder
      exact hi (Option.some.inj hholder)

lemma Owed.holds {debts : ℕ → Debt} {i : ℕ} {p : MasterProg Unit} {holder : Option ℕ} {held : Bool} (h : Owed c debts)
    (hbooks : Books (fun _ g => g = .none) p ⟨(debts i).entry, none, held⟩) (hi : held = true → holder = some i)
    (hother : ∀ j, j ≠ i → c.config.holder ≠ some j) :
    Owed ⟨⟨c.config.shared, holder, Function.update c.config.threads i p⟩, c.outstanding⟩
      (Function.update debts i ⟨(debts i).entry, none, held⟩) := by
  have hfree : ∀ j, j ≠ i → (debts j).held = true → False := fun j hj hheld => hother j hj (h.held j hheld)
  refine ⟨books_update h.books hbooks i, h.ledger.keep rfl, fun j hj => ?_, fun j k hj => ?_⟩
  · by_cases hji : j = i
    · rw [hji, update_self] at hj
      rw [hji]
      exact hi hj
    · rw [update_of_ne hji] at hj
      exact (hfree j hji hj).elim
  · by_cases hji : j = i
    · rw [hji, update_self] at hj
      cases hj
    · rw [update_of_ne hji] at hj
      exact (hfree j hji (h.absent j k hj).1).elim

lemma Inv.step (h : Inv strategy c) (hstep : Step c c') : Inv strategy c' := by
  have hsafe : c'.config.Safe (discipline fun _ _ => True) := by
    refine h.safe.step rfl (fun op => ?_) (fun _ _ hs => view_shuffle hs) hstep.config
    refine balanced_prog_of_ne fun name capacity heq => ?_
    have hop := op.2
    rw [heq] at hop
    cases hop
  obtain ⟨debts, howed⟩ := h.owed
  cases hstep with
  | move i hmove hok hfew =>
    cases hmove with
    | @sec β l m k b s' hi hm =>
      rw [hi] at hok ⊢
      obtain ⟨D, howes⟩ := h.safe.always
      obtain ⟨D', howes'⟩ := hsafe.always
      obtain ⟨-, log, -, hlog, -⟩ := h.trails.recovers
      have hbooks := howed.books i
      rw [hi] at hbooks
      obtain ⟨g', hacts, hrest⟩ := hbooks c.config.shared b s' (by rw [hlog]; rfl) howes.fleet.valid hm
      refine ⟨hsafe, ?_, _, howed.runs h.trails hacts (hok l rfl) hrest⟩
      exact h.trails.acts hacts (hok l rfl) (howed.ledger.entry i) (fun k hk => (howed.absent i k hk).2) howes' hfew
    | @lock k hi hfree =>
      have hbooks := howed.books i
      rw [hi] at hbooks ⊢
      refine ⟨hsafe, h.trails, _, howed.holds hbooks (fun _ => rfl) fun j _ => ?_⟩
      rw [hfree]
      exact (some_ne_none j).symm
    | @unlock k hi hheld =>
      have hbooks := howed.books i
      rw [hi] at hbooks ⊢
      refine ⟨hsafe, h.trails, _, howed.holds hbooks (fun hfalse => by cases hfalse) fun j hj heq => ?_⟩
      exact hj (Option.some.inj (heq.symm.trans hheld))
  | start i op hi =>
    have hnone : debts i = .none := by
      have hbooks := howed.books i
      rwa [hi] at hbooks
    refine ⟨hsafe, h.trails, Function.update debts i .none, books_update howed.books (books_prog op.2) i, ?_, ?_, ?_⟩
    all_goals rw [← hnone, update_eq_self]
    · exact howed.ledger
    · exact howed.held
    · exact howed.absent
  | @shuffle s' hshuffle =>
    refine ⟨hsafe, h.trails.shuffle hshuffle, debts, howed.books, howed.ledger, howed.held, fun i k hk => ?_⟩
    obtain ⟨hheld, hnone⟩ := howed.absent i k hk
    exact ⟨hheld, eq_none_of_rel (hnone ▸ rel_of_shuffle hshuffle k)⟩

lemma Trails.mirrors (h : Trails strategy s []) :
    ∃ log m, s.oplog = some log ∧ Replays (new strategy) log m ∧ Mirrors s m := by
  obtain ⟨t, log, m, hlog, hreplays, hmirrors, -, hbehind⟩ := h.recovers
  refine ⟨log, m, hlog, hreplays, hmirrors.congr rfl le_rfl fun k => .inl ?_⟩
  exact (hbehind k).rel fun e he => absurd he not_mem_nil

lemma inv_of_run {strategy' : String}
    (hs : ReflTransGen (Writes fun op s => plain op s ∧ settlesOnce op s) (started strategy' true) s)
    (hrun : ReflTransGen Step ⟨Config.idle s, []⟩ c) : Inv strategy c := by
  have hlogged : Logged strategy s := logged_of_writes hs
  induction hrun with
  | refl =>
    obtain ⟨log, m, hlog, hreplays, hmirrors⟩ := hlogged.recovers
    refine ⟨Config.safe_idle hlogged.sound, ⟨nodup_nil, fun e he => absurd he not_mem_nil, s.objects, log, m,
      hlog, hreplays, hmirrors, packed_of_owes hlogged.sound hlogged.few, fun k => ?_⟩, fun _ => .none, fun _ => rfl,
      ⟨fun i e he => ?_, fun e he => absurd he not_mem_nil, fun i j e he => ?_⟩, fun i hi => ?_, fun i k hk => ?_⟩
    · exact .same (fun e he => absurd he not_mem_nil) (rel_agrees_refl _)
    · cases he
    · cases he
    · cases hi
    · cases hk
  | tail _ hstep ih => exact ih.step hstep

lemma Inv.settled (h : Inv strategy c) (hidle : ∀ i, c.config.threads i = .ret ()) :
    c.outstanding = [] ∧ Sound c.config.shared.view := by
  obtain ⟨debts, howed⟩ := h.owed
  constructor
  · rw [eq_nil_iff_forall_not_mem]
    intro e he
    obtain ⟨i, hi⟩ := howed.ledger.owner e he
    have hbooks := howed.books i
    rw [hidle i] at hbooks
    have hnone : debts i = .none := hbooks
    rw [hnone] at hi
    cases hi
  · refine h.safe.free ?_
    cases hholder : c.config.holder with
    | none => rfl
    | some i =>
      have hguarded := h.safe.guarded i
      rw [hidle i, Config.seen, if_pos hholder] at hguarded
      cases hguarded

end steps

/-- **Racing threads.** From the state after a serial run, threads run `put_start`, `put_end`, `remove` and evictions,
section by section and in good order. Whenever all of them are idle, the log replays, and gives back exactly the
complete objects. -/
theorem racing_log_replays (strategy strategy' : String) (s : MasterService)
    (hs : ReflTransGen (Writes fun op s => plain op s ∧ settlesOnce op s) (started strategy true) s) (c : Journal)
    (hrun : ReflTransGen Step ⟨Config.idle s, []⟩ c) (hidle : ∀ i, c.config.threads i = .ret ()) :
    ∃ log m, c.config.shared.oplog = some log ∧ recoverFromOplog strategy' log = some (.ok m) ∧
      Rebuilt c.config.shared m := by
  have hinv : Inv strategy' c := inv_of_run hs hrun
  obtain ⟨hnone, hsound⟩ := hinv.settled hidle
  have htrails := hinv.trails
  rw [hnone] at htrails
  obtain ⟨log, m, hlog, hreplays, hmirrors⟩ := Trails.mirrors htrails
  exact ⟨log, m, hlog, recover_of_replays hreplays, hmirrors.rebuilt hsound⟩

/-! ## Schedules -/

instance (es : List OpLogEntry) (s : MasterService) : ∀ l, Decidable (orderly es s l)
  | .finish key => inferInstanceAs (Decidable (key ∈ s.objects → _ ∧ _))
  | .retire key | .evict key => inferInstanceAs (Decidable (key ∈ s.objects → _))
  | .reclaim key => inferInstanceAs (Decidable (key ∈ s.objects → _ → _))
  | .insert key => inferInstanceAs (Decidable (NoEntry es key ∧ ∀ e ∈ es, _))
  | .push _ _ | .grant _ | .choose | .inspect _ | .reopen _ | .replace _ | .append _ | .silent =>
    inferInstanceAs (Decidable True)

def move (c : Journal) (i : ℕ) : Option { op : MasterOp // logs op = true } → Option Journal
  | some op => (c.config.move logSystem i (some op)).map fun config' => ⟨config', c.outstanding⟩
  | none =>
    if ∀ l ∈ (c.config.threads i).next, orderly c.outstanding c.config.shared l then
      (c.config.move logSystem i none).bind fun config' => if config'.shared.Few then
        some ⟨config', noted (c.config.threads i).next c.config.shared config'.shared c.outstanding⟩ else none
    else none

def play : List (ℕ × Option { op : MasterOp // logs op = true }) → Journal → Option Journal
  | [], c => some c
  | (i, a) :: rest, c => (c.move i a).bind (play rest)

section schedules

variable {c c' : Journal}

lemma step_of_move {i : ℕ} {a : Option { op : MasterOp // logs op = true }} (h : c.move i a = some c') :
    Step c c' ∧ ∀ j, j ≠ i → c'.config.threads j = c.config.threads j := by
  cases a with
  | some op =>
    obtain ⟨config', hmove, rfl⟩ := map_eq_some_iff.mp h
    obtain ⟨hi, rfl⟩ := Config.start_of_move hmove
    exact ⟨.start i op hi, fun j hj => Config.threads_of_move hmove hj⟩
  | none =>
    rw [move] at h
    split_ifs at h with hok
    obtain ⟨config', hmove, hrest⟩ := bind_eq_some_iff.mp h
    split_ifs at hrest with hfew
    cases hrest
    exact ⟨.move i (Config.moves_of_move hmove) (fun l hl => hok l hl) hfew, fun j hj => Config.threads_of_move hmove hj⟩

lemma steps_of_play {moves : List (ℕ × Option { op : MasterOp // logs op = true })} (h : play moves c = some c') :
    ReflTransGen Step c c' ∧ ∀ j, (∀ x ∈ moves, j ≠ x.1) → c'.config.threads j = c.config.threads j := by
  induction moves generalizing c with
  | nil =>
    cases h
    exact ⟨.refl, fun _ _ => rfl⟩
  | cons x rest ih =>
    obtain ⟨c₁, hmove, hrest⟩ := bind_eq_some_iff.mp h
    obtain ⟨hstep, hthreads⟩ := step_of_move hmove
    obtain ⟨hsteps, hthreads'⟩ := ih hrest
    refine ⟨.head hstep hsteps, fun j hj => ?_⟩
    rw [hthreads' j fun x hx => hj x (mem_cons_of_mem _ hx), hthreads j (hj x mem_cons_self)]

def isIdle : MasterProg Unit → Bool
  | .ret () => true
  | _ => false

lemma eq_ret_of_isIdle {p : MasterProg Unit} (h : isIdle p = true) : p = .ret () := by
  cases p with
  | ret a => rfl
  | sec l m k => cases h
  | lock k => cases h
  | unlock k => cases h

lemma idle_of_moved {moves : List (ℕ × Option { op : MasterOp // logs op = true })} {threads : ℕ → MasterProg Unit}
    (hrest : ∀ j, (∀ x ∈ moves, j ≠ x.1) → threads j = .ret ())
    (hidle : ∀ x ∈ moves, isIdle (threads x.1) = true) (i : ℕ) : threads i = .ret () := by
  by_cases hi : ∃ x ∈ moves, i = x.1
  · obtain ⟨x, hx, rfl⟩ := hi
    exact eq_ret_of_isIdle (hidle x hx)
  · exact hrest i fun x hx heq => hi ⟨x, hx, heq⟩

end schedules

/-- Two puts are ended at once: the entry of the first is appended after that of the second, and the first object is
removed again in the end. -/
def endedAtOnce : List (ℕ × Option { op : MasterOp // logs op = true }) :=
  (0, some ⟨.putEnd "x", rfl⟩) :: (0, none) :: (0, none) ::
    (1, some ⟨.putEnd "y", rfl⟩) :: (1, none) :: (1, none) :: (1, none) ::
    (0, none) :: (0, some ⟨.remove "x" false, rfl⟩) :: List.replicate 6 (0, none)

def inFlight : List MasterOp :=
  [.mountSegment "a" 1024, .putStart "x" ⟨"m", "t", none, "u"⟩ 100 ⟨1, false, false, none⟩,
    .putStart "y" ⟨"m", "t", none, "u"⟩ 50 ⟨1, false, false, none⟩]

theorem racing_log_replays_endedAtOnce :
    ∃ s c, ReflTransGen (Writes fun op s => plain op s ∧ settlesOnce op s) (started "random" true) s ∧
      ReflTransGen Step ⟨Config.idle s, []⟩ c ∧ c.config.shared.oplog.map (List.map entryKey) =
        some [none, some "y", some "x", some "x"] ∧
      ∃ log m, c.config.shared.oplog = some log ∧ recoverFromOplog "random" log = some (.ok m) ∧
        Rebuilt c.config.shared m := by
  have hrun : ((writeAll (fun op s => plain op s ∧ settlesOnce op s) inFlight (started "random" true)).any fun s =>
      (play endedAtOnce ⟨Config.idle s, []⟩).any fun c =>
        (∀ x ∈ endedAtOnce, isIdle (c.config.threads x.1) = true) ∧
          c.config.shared.oplog.map (List.map entryKey) = some [none, some "y", some "x", some "x"]) = true := by
    decide +kernel
  obtain ⟨s, hs, hrest⟩ := (Option.any_eq_true _ _).mp hrun
  obtain ⟨c, hplay, hc⟩ := (Option.any_eq_true _ _).mp hrest
  obtain ⟨hidle, hkeys⟩ := of_decide_eq_true hc
  obtain ⟨hsteps, hthreads⟩ := steps_of_play hplay
  have hret : ∀ i, c.config.threads i = .ret () := idle_of_moved hthreads hidle
  exact ⟨s, c, writes_of_writeAll hs, hsteps, hkeys,
    racing_log_replays "random" "random" s (writes_of_writeAll hs) c hsteps hret⟩

/-! ## Entries out of order -/

/-- The range of a removed object is put and committed again before the removal is in the log. -/
def reusedTooSoon : List (ℕ × Option { op : MasterOp // logs op = true }) :=
  (0, some ⟨.remove "x" false, rfl⟩) :: List.replicate 5 (0, none) ++
    (1, some ⟨.putStart "y" ⟨"m", "t", none, "u"⟩ 100 ⟨1, false, false, none⟩, rfl⟩) :: List.replicate 8 (1, none) ++
    (1, some ⟨.putEnd "y", rfl⟩) :: List.replicate 3 (1, none) ++ [(0, none)]

/-- An object is removed, and its removal logged, before the commit is in the log. -/
def removedTooSoon : List (ℕ × Option { op : MasterOp // logs op = true }) :=
  (0, some ⟨.putEnd "x", rfl⟩) :: List.replicate 2 (0, none) ++
    (1, some ⟨.remove "x" false, rfl⟩) :: List.replicate 6 (1, none) ++ [(0, none)]

def serves (key : ObjectKey) : Except ErrorCode MasterService → Bool
  | .ok m => (m.objects.lookup key).any ObjectMetadata.hasCompleteReplica
  | .error _ => false

lemma ok_of_serves {key : ObjectKey} {r : Except ErrorCode MasterService} (h : serves key r = true) :
    ∃ m o, r = .ok m ∧ m.objects.lookup key = some o ∧ o.hasCompleteReplica = true := by
  cases r with
  | ok m =>
    obtain ⟨o, ho, hc⟩ := (Option.any_eq_true _ _).mp h
    exact ⟨m, o, rfl, ho, hc⟩
  | error e => cases h

/-- A serial run, and then a schedule that leaves all threads idle. -/
def Raced (s : MasterService) (c : Config Section MasterService) : Prop :=
  ReflTransGen (Writes fun op s => plain op s ∧ settlesOnce op s) (started "random" true) s ∧
    ReflTransGen (Config.Step logSystem) (Config.idle s) c ∧ ∀ i, c.threads i = .ret ()

lemma raced_of_play (ops : List MasterOp) (moves : List (ℕ × Option { op : MasterOp // logs op = true }))
    (P : MasterService → Except ErrorCode MasterService → Bool)
    (h : ((writeAll (fun op s => plain op s ∧ settlesOnce op s) ops (started "random" true)).any fun s =>
      (Config.play logSystem moves (Config.idle s)).any fun c =>
        (∀ x ∈ moves, isIdle (c.threads x.1) = true) ∧
          (c.shared.oplog.any fun log => (recoverFromOplog "random" log).any (P c.shared)) = true) = true) :
    ∃ s c, Raced s c ∧ ∃ log r, c.shared.oplog = some log ∧ recoverFromOplog "random" log = some r ∧
      P c.shared r = true := by
  obtain ⟨s, hs, hrest⟩ := (Option.any_eq_true _ _).mp h
  obtain ⟨c, hplay, hc⟩ := (Option.any_eq_true _ _).mp hrest
  obtain ⟨hidle, hlogs⟩ := of_decide_eq_true hc
  obtain ⟨log, hlog, hrecover⟩ := (Option.any_eq_true _ _).mp hlogs
  obtain ⟨r, hr, hP⟩ := (Option.any_eq_true _ _).mp hrecover
  have hret : ∀ i, c.threads i = .ret () := idle_of_moved (fun j hj => Config.threads_of_play hplay hj) hidle
  exact ⟨s, c, ⟨writes_of_writeAll hs, Config.steps_of_play hplay, hret⟩, log, r, hlog, hr, hP⟩

/-- Two schedules after which all threads are idle and the log is wrong: a replay that fails, because the range of a
removed object was committed again before the removal was logged, and one that gives back an object that was removed. -/
theorem log_out_of_order :
    (∃ s c, Raced s c ∧ ∃ log, c.shared.oplog = some log ∧
      recoverFromOplog "random" log = some (.error .invalidReplica)) ∧
    ∃ s c, Raced s c ∧ ∃ log m o, c.shared.oplog = some log ∧ recoverFromOplog "random" log = some (.ok m) ∧
      c.shared.objects.lookup "x" = none ∧ m.objects.lookup "x" = some o ∧ o.hasCompleteReplica = true := by
  constructor
  · obtain ⟨s, c, hraced, log, r, hlog, hr, hfailure⟩ := raced_of_play
      [.mountSegment "a" 1024, .putStart "x" ⟨"m", "t", none, "u"⟩ 100 ⟨1, false, false, none⟩, .putEnd "x"]
      reusedTooSoon (fun _ r => failure r = some .invalidReplica) (by decide +kernel)
    rw [eq_error_of_failure (of_decide_eq_true hfailure)] at hr
    exact ⟨s, c, hraced, log, hlog, hr⟩
  · obtain ⟨s, c, hraced, log, r, hlog, hr, hx⟩ := raced_of_play
      [.mountSegment "a" 1024, .putStart "x" ⟨"m", "t", none, "u"⟩ 100 ⟨1, false, false, none⟩]
      removedTooSoon (fun s r => s.objects.lookup "x" = none ∧ serves "x" r = true) (by decide +kernel)
    obtain ⟨hnone, hserves⟩ := of_decide_eq_true hx
    obtain ⟨m, o, rfl, ho, hcomplete⟩ := ok_of_serves hserves
    exact ⟨s, c, hraced, log, m, o, hlog, hr, hnone, ho, hcomplete⟩

end Journal

end QuillCache.Store.MasterService
