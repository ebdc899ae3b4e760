import QuillCache.Store.MasterHistory

/-!
# Buffers of puts in flight

Between the two phases of a put the client writes its bytes and holds nothing on the master. A `Desk` is a master
together with the grants that are still open: the buffers that a `put_start` has returned for a key that has since been
neither ended, revoked, removed nor started again, and none of whose segments has been unmounted.

As long as every `put_start` is `Considerate`, an open grant stays reserved, and the `put_end` of the owner succeeds
(`open_grant_reserved`). The eviction passes do not spare objects in flight by themselves, so otherwise a grant can be
lost and its range handed out again while the owner still writes to it (`open_grant_lost`).
-/

namespace QuillCache.Store

open Lib MasterService Relation AList Function Multiset Option

structure Desk where
  master : MasterService
  held : ObjectKey → Option (List AllocatedBuffer)

namespace Desk

def new (strategy : String) : Desk := ⟨.new strategy, fun _ => none⟩

def close (key : ObjectKey) (held : ObjectKey → Option (List AllocatedBuffer)) :
    ObjectKey → Option (List AllocatedBuffer) := Function.update held key none

def closeOn (name : SegmentName) (held : ObjectKey → Option (List AllocatedBuffer)) (key : ObjectKey) :
    Option (List AllocatedBuffer) :=
  (held key).filter fun bs => ∀ b ∈ bs, b.segmentName ≠ name

/-- The put asks for at least one replica, and does not take an object in flight from another client:
these are all hard-pinned, or no eviction is needed. -/
def Considerate (s : MasterService) (key : ObjectKey) (size : ℕ) (config : ReplicateConfig) : Prop :=
  0 < config.replicaNum ∧
    ((∀ k o, k ≠ key → s.objects.lookup k = some o → o.hasCompleteReplica = false → o.hardPinned = true) ∨
      (s.objects.lookup key = none ∧ HasRoom s size config.replicaNum))

/-- One message, served by the master. `allowed` restricts the `put_start` messages. -/
inductive Step (allowed : MasterService → ObjectKey → ℕ → ReplicateConfig → Prop) : Desk → Desk → Prop where
  | mountSegment {d : Desk} {m : MasterService} {name : SegmentName} {capacity : ℕ}
      (hname : name ∉ d.master.segments.names) (hcap : capacity < 2 ^ 64)
      (hrun : (mountSegment name capacity).run d.master = some ((), m)) :
      Step allowed d { d with master := m }
  | unmountSegment {d : Desk} {m : MasterService} {name : SegmentName} {r : Except ErrorCode Unit}
      (hrun : (unmountSegment name).run d.master = some (r, m)) :
      Step allowed d ⟨m, closeOn name d.held⟩
  | putStart {d : Desk} {m : MasterService} {key : ObjectKey} {identity : IdentityScope} {size : ℕ}
      {config : ReplicateConfig} {r : Except ErrorCode (List AllocatedBuffer)}
      (hallowed : allowed d.master key size config)
      (hrun : (putStart key identity size config).run d.master = some (r, m)) :
      Step allowed d ⟨m, Function.update d.held key r.toOption⟩
  | putEnd {d : Desk} {m : MasterService} {key : ObjectKey} {r : Except ErrorCode Unit}
      (hrun : (putEnd key).run d.master = some (r, m)) : Step allowed d ⟨m, close key d.held⟩
  | putRevoke {d : Desk} {m : MasterService} {key : ObjectKey} {r : Except ErrorCode Unit}
      (hrun : (putRevoke key).run d.master = some (r, m)) : Step allowed d ⟨m, close key d.held⟩
  | remove {d : Desk} {m : MasterService} {key : ObjectKey} {force : Bool}
      (hrun : (remove key force).run d.master = some (.ok (), m)) : Step allowed d ⟨m, close key d.held⟩
  | removeRefused {d : Desk} {m : MasterService} {key : ObjectKey} {force : Bool} {e : ErrorCode}
      (hrun : (remove key force).run d.master = some (.error e, m)) :
      Step allowed d { d with master := m }
  | getReplicaList {d : Desk} {m : MasterService} {key : ObjectKey} {requester : IdentityScope}
      {r : Except ErrorCode (List Replica)}
      (hrun : (getReplicaList key requester).run d.master = some (r, m)) :
      Step allowed d { d with master := m }
  | tick {d : Desk} {m : MasterService} {r : ℕ} (hrun : tick.run d.master = some (r, m)) :
      Step allowed d { d with master := m }
  | shuffle {d : Desk} {m : MasterService} (h : Shuffle d.master m) : Step allowed d { d with master := m }

/-- Every open grant is the grant of an object in flight. -/
structure Inv (d : Desk) : Prop where
  sound : Sound d.master.view
  held : ∀ k bs, d.held k = some bs → ∃ o, d.master.objects.lookup k = some o ∧
    o.footprint.buffers = bs ∧ bs ≠ [] ∧ o.hasCompleteReplica = false

section steps

variable {d : Desk} {m : MasterService} {key : ObjectKey}

lemma Inv.keep {held : ObjectKey → Option (List AllocatedBuffer)} (hi : Inv d) (hs : Sound m.view)
    (hheld : ∀ k bs, held k = some bs → d.held k = some bs ∧ ∀ o, d.master.objects.lookup k = some o →
      ∃ o', m.objects.lookup k = some o' ∧ o'.footprint = o.footprint ∧
        (o.hasCompleteReplica = false → o'.hasCompleteReplica = false)) :
    Inv ⟨m, held⟩ := by
  refine ⟨hs, fun k bs hk => ?_⟩
  obtain ⟨hk₀, hobj⟩ := hheld k bs hk
  obtain ⟨o, ho, hbufs, hne, hcomplete⟩ := hi.held k bs hk₀
  obtain ⟨o', ho', hfp, hcomplete'⟩ := hobj o ho
  exact ⟨o', ho', hfp ▸ hbufs, hne, hcomplete' hcomplete⟩

lemma close_eq_some {held : ObjectKey → Option (List AllocatedBuffer)} {k : ObjectKey}
    {bs : List AllocatedBuffer} : close key held k = some bs ↔ k ≠ key ∧ held k = some bs := by
  by_cases hk : k = key
  · simp [close, hk]
  · simp [close, hk]

lemma Considerate.spares {s s' : MasterService} {size : ℕ} {config : ReplicateConfig} {ks : List ObjectKey}
    {k : ObjectKey} {o : ObjectMetadata} (h : Considerate s key size config) (hframe : PutFrame s key ks s')
    (hroom : s.objects.lookup key = none → HasRoom s size config.replicaNum → ks = []) (hne : k ≠ key)
    (ho : s.objects.lookup k = some o) (hopen : o.hasCompleteReplica = false) : k ∉ ks := by
  intro hk
  rcases h.2 with hpinned | ⟨habsent, hfits⟩
  · obtain ⟨-, o', ho', hev⟩ := hframe.victim k hk
    rw [ho] at ho'
    cases ho'
    simp [evictable, hpinned k o hne ho hopen] at hev
  · rw [hroom habsent hfits] at hk
    cases hk

lemma Inv.putStart {identity : IdentityScope} {size : ℕ} {config : ReplicateConfig}
    {r : Except ErrorCode (List AllocatedBuffer)} (hi : Inv d) (hallowed : Considerate d.master key size config)
    (hrun : (putStart key identity size config).run d.master = some (r, m)) :
    Inv ⟨m, Function.update d.held key r.toOption⟩ := by
  obtain ⟨hs, hr⟩ := putStart_runs hi.sound _ _ hrun
  refine ⟨hs, fun k bs hk => ?_⟩
  by_cases hkey : k = key
  · -- the grant of this very put
    subst hkey
    have hgrant : r.toOption = some bs := (update_self k r.toOption d.held).symm.trans hk
    rcases hr with ⟨rfl, -, -⟩ | ⟨-, ks, -, -, hstarted⟩
    · cases hgrant
    · cases r with
      | error e => cases hgrant
      | ok bs' =>
        cases hgrant
        obtain ⟨hgrant, ⟨o, ho, hfresh⟩, -⟩ := hstarted
        refine ⟨o, ho, ?_, ?_, hfresh.hasCompleteReplica⟩
        · rw [hfresh.footprint_eq, granted_buffers]
        · rw [← List.length_pos_iff, hgrant.length_eq]
          exact hallowed.1
  · have hk' : d.held k = some bs := (update_of_ne hkey r.toOption d.held).symm.trans hk
    obtain ⟨o, ho, hbufs, hne, hopen⟩ := hi.held k bs hk'
    refine ⟨o, ?_, hbufs, hne, hopen⟩
    rcases hr with ⟨-, rfl, -⟩ | ⟨-, ks, hframe, hroom, -⟩
    · exact ho
    · exact (hframe.lookup_ne k hkey).trans
        ((if_neg (hallowed.spares hframe hroom hkey ho hopen)).trans ho)

lemma Inv.putEnd {r : Except ErrorCode Unit} (hi : Inv d)
    (hrun : (putEnd key).run d.master = some (r, m)) : Inv ⟨m, close key d.held⟩ := by
  have hs : Sound m.view := sound_runs (balanced_putEnd key) hi.sound _ _ hrun
  refine hi.keep hs fun k bs hk => ?_
  obtain ⟨hne, hk⟩ := close_eq_some.mp hk
  refine ⟨hk, fun o ho => ⟨o, ?_, rfl, id⟩⟩
  rcases (putEnd_completes key d.master).pc _ _ hrun with ⟨-, -, rfl⟩ | ⟨-, -, -, rfl⟩
  · exact ho
  · rw [lookup_update, if_neg hne, ho]

lemma Inv.drops {entries : List OpLogEntry} (hi : Inv d) (hs : Sound m.view)
    (hdrops : Drops d.master key entries m) : Inv ⟨m, close key d.held⟩ := by
  refine hi.keep hs fun k bs hk => ?_
  obtain ⟨hne, hk⟩ := close_eq_some.mp hk
  refine ⟨hk, fun o ho => ⟨o, ?_, rfl, id⟩⟩
  rw [hdrops.objects_eq, lookup_erase_ne hne, ho]

lemma Inv.close (hi : Inv d) : Inv ⟨d.master, close key d.held⟩ :=
  hi.keep hi.sound fun _ _ hk => ⟨(close_eq_some.mp hk).2, fun o ho => ⟨o, ho, rfl, id⟩⟩

lemma Inv.getReplicaList {requester : IdentityScope} {r : Except ErrorCode (List Replica)} (hi : Inv d)
    (hrun : (getReplicaList key requester).run d.master = some (r, m)) : Inv ⟨m, d.held⟩ := by
  have hs : Sound m.view := sound_runs (balanced_getReplicaList key requester) hi.sound _ _ hrun
  refine hi.keep hs fun k bs hk => ⟨hk, fun o ho => ?_⟩
  rcases getReplicaList_runs key requester d.master _ _ hrun with ⟨-, -, rfl⟩ | ⟨-, -, -, -, -, rfl⟩
  · exact ⟨o, ho, rfl, id⟩
  · rw [lookup_update, ho]
    split_ifs
    · exact ⟨_, rfl, rfl, id⟩
    · exact ⟨o, rfl, rfl, id⟩

lemma lookup_dropSegmentReplicas {name : SegmentName} {t : ObjectMap} {k : ObjectKey} {o : ObjectMetadata}
    (ho : t.lookup k = some o) (hok : o.footprint.Ok) (hne : o.footprint.buffers ≠ 0)
    (hname : ∀ b ∈ o.footprint.buffers, b.segmentName ≠ name) :
    (dropSegmentReplicas name t).lookup k = some o := by
  have hkept : ∀ e ∈ o.replicas.entries, e.2.segmentName ≠ some name := by
    intro e he hseg
    obtain ⟨b, hb⟩ := hok.memory (e.1, e.2.id, e.2.data)
      (Multiset.mem_map.mpr ⟨e, mem_coe.mpr he, rfl⟩)
    have hmem : b ∈ o.footprint.buffers := mem_footprint_buffers.mpr ⟨e.2, List.mem_map_of_mem he, hb⟩
    rw [Replica.segmentName, show e.2.data = .memory b from hb, ReplicaData.segmentName_memory] at hseg
    exact hname b hmem (Option.some.inj hseg)
  have hsame : o.withoutSegment name = o := by
    have hentries : (o.replicas.entries.filter fun e => decide (e.2.segmentName ≠ some name)) =
        o.replicas.entries :=
      List.filter_eq_self.mpr fun e he => decide_eq_true (hkept e he)
    rw [ObjectMetadata.withoutSegment]
    exact congrArg (fun rs => ({ o with replicas := rs } : ObjectMetadata)) (AList.ext hentries)
  have hentries : o.replicas.entries ≠ [] := by
    intro hnil
    refine hne ?_
    rw [ObjectMetadata.footprint, AList.items, hnil]
    rfl
  rw [dropSegmentReplicas, lookup_retain, lookup_mapEntries, ho, map_some, hsame]
  simp [Option.filter, hentries]

lemma Inv.unmountSegment {name : SegmentName} {r : Except ErrorCode Unit} (hi : Inv d)
    (hrun : (unmountSegment name).run d.master = some (r, m)) : Inv ⟨m, closeOn name d.held⟩ := by
  have hs : Sound m.view := sound_runs (balanced_unmountSegment name) hi.sound _ _ hrun
  refine hi.keep hs fun k bs hk => ?_
  obtain ⟨hk, hname⟩ := filter_eq_some_iff.mp hk
  refine ⟨hk, fun o ho => ⟨o, ?_, rfl, id⟩⟩
  rcases unmountSegment_runs name d.master _ _ hrun with ⟨-, -, rfl⟩ | ⟨-, -, rfl⟩
  · exact ho
  · obtain ⟨o', ho', hbufs, hne, -⟩ := hi.held k bs hk
    rw [ho] at ho'
    cases ho'
    refine lookup_dropSegmentReplicas ho (hi.sound.footprint_ok ho) ?_ ?_
    · rw [hbufs]
      simpa using hne
    · rw [hbufs]
      have hbs : ∀ b ∈ bs, b.segmentName ≠ name := of_decide_eq_true hname
      exact fun b hb => hbs b (mem_coe.mp hb)

lemma Inv.shuffle (hi : Inv d) (h : Shuffle d.master m) : Inv ⟨m, d.held⟩ := by
  refine hi.keep (view_shuffle h ▸ hi.sound) fun k bs hk => ⟨hk, fun o ho => ?_⟩
  obtain ⟨o', ho', hsame⟩ := h.exists_lookup ho
  exact ⟨o', ho', footprint_eq_of_shuffled hsame, fun hopen => hsame.hasCompleteReplica_eq.trans hopen⟩

lemma Inv.step (hi : Inv d) {d' : Desk} (h : Step Considerate d d') : Inv d' := by
  cases h with
  | mountSegment hname hcap hrun =>
    obtain ⟨hs, a, -, hm⟩ := mountSegment_runs hi.sound hname hcap _ _ hrun
    refine hi.keep hs fun k bs hk => ⟨hk, fun o ho => ⟨o, ?_, rfl, id⟩⟩
    rw [hm, ho]
  | unmountSegment hrun => exact hi.unmountSegment hrun
  | putStart hallowed hrun => exact hi.putStart hallowed hrun
  | putEnd hrun => exact hi.putEnd hrun
  | putRevoke hrun =>
    obtain ⟨hs, ⟨-, -, rfl⟩ | ⟨o, -, -, hdrops⟩⟩ := putRevoke_runs hi.sound _ _ hrun
    · exact hi.close
    · exact hi.drops hs hdrops
  | remove hrun =>
    obtain ⟨hs, ⟨e, he, -⟩ | ⟨o, -, -, -, hdrops⟩⟩ := remove_runs hi.sound _ _ hrun
    · cases he
    · exact hi.drops hs hdrops
  | removeRefused hrun =>
    obtain ⟨hs, ⟨e, -, rfl⟩ | ⟨o, -, -, he, -⟩⟩ := remove_runs hi.sound _ _ hrun
    · exact hi
    · cases he
  | getReplicaList hrun => exact hi.getReplicaList hrun
  | tick hrun =>
    rw [tick_runs d.master _ _ hrun]
    exact ⟨hi.sound, hi.held⟩
  | shuffle h => exact hi.shuffle h

lemma inv_reachable {strategy : String} (hrun : ReflTransGen (Step Considerate) (new strategy) d) :
    Inv d := by
  induction hrun with
  | refl => exact ⟨sound_new strategy, fun k bs hk => by cases hk⟩
  | tail _ hstep ih => exact ih.step hstep

end steps

/-- **Open grants stay reserved**: in every run of considerate puts, an open grant belongs to an object
with exactly the granted buffers, a considerate put of another key is granted no range that overlaps
them, and the `put_end` of the owner succeeds. -/
theorem open_grant_reserved (strategy : String) (d : Desk)
    (hrun : ReflTransGen (Step Considerate) (new strategy) d) (key : ObjectKey)
    (bs : List AllocatedBuffer) (hopen : d.held key = some bs) :
    (∃ o, d.master.objects.lookup key = some o ∧
      ∀ b, b ∈ bs ↔ ∃ r ∈ o.replicas.values, r.data = .memory b) ∧
    (∀ key' identity size config bs' m, key' ≠ key → Considerate d.master key' size config →
      (putStart key' identity size config).run d.master = some (.ok bs', m) →
      ∀ b ∈ bs, ∀ b' ∈ bs', b.segmentName = b'.segmentName →
        RangesDisjoint b.offset b.size b'.offset b'.size) ∧
    ∃ m, (putEnd key).run d.master = some (.ok (), m) := by
  have hi := inv_reachable hrun
  obtain ⟨o, ho, hbufs, -, hflight⟩ := hi.held key bs hopen
  refine ⟨⟨o, ho, fun b => ?_⟩, fun key' identity size config bs' m hne hallowed hput b hb b' hb' hname => ?_, ?_⟩
  · rw [← mem_footprint_buffers, hbufs, mem_coe]
  · -- both grants are open after the put, in a sound state
    have hi' := hi.putStart hallowed hput
    have hopen' : Function.update d.held key' (some bs') key = some bs := by
      rw [update_of_ne hne.symm, hopen]
    obtain ⟨o₁, ho₁, hbufs₁, -⟩ := hi'.held key bs hopen'
    obtain ⟨o₂, ho₂, hbufs₂, -⟩ := hi'.held key' bs' (update_self key' (some bs') d.held)
    refine hi'.sound.disjoint_of_ne ho₁ ho₂ hne ?_ ?_ hname
    · rw [hbufs₁]
      exact mem_coe.mpr hb
    · rw [hbufs₂]
      exact mem_coe.mpr hb'
  · obtain ⟨r, m, hput, ⟨hnone, -, -⟩ | ⟨-, -, rfl, -⟩⟩ := putEnd_completes key d.master
    · rw [ho] at hnone
      cases hnone
    · exact ⟨m, hput⟩

abbrev put600 (key : ObjectKey) : MasterProg (Except ErrorCode (List AllocatedBuffer)) :=
  putStart key ⟨"m", "t", none, "u"⟩ 600 ⟨1, false, false, none⟩

theorem open_grant_reserved_600 :
    ∃ d bs, ReflTransGen (Step Considerate) (new "random") d ∧ d.held "x" = some bs ∧ bs.length = 1 ∧
      ∃ m, (putEnd "x").run d.master = some (.ok (), m) := by
  have hrun : (((mountSegment "a" 1024).run (.new "random")).any fun r₁ =>
      decide ((r₁.2.objects.lookup "x").isNone = true ∧ HasRoom r₁.2 600 1 ∧
        (((put600 "x").run r₁.2).any fun r₂ => r₂.1.toOption.any (·.length = 1)) = true)) = true := by
    decide +kernel
  obtain ⟨⟨_, m₁⟩, hmount, hthen⟩ := (any_eq_true _ _).mp hrun
  obtain ⟨habsent, hroom, hput⟩ := of_decide_eq_true hthen
  obtain ⟨⟨r, m₂⟩, hput, hbs⟩ := (any_eq_true _ _).mp hput
  obtain ⟨bs, hbs, hlen⟩ := (any_eq_true _ _).mp hbs
  have hsteps : ReflTransGen (Step Considerate) (new "random")
      ⟨m₂, Function.update (fun _ => none) "x" r.toOption⟩ :=
    (ReflTransGen.single (.mountSegment (by simp [new, MasterService.new, SegmentState.names])
      (by norm_num) hmount)).tail (.putStart ⟨by decide, .inr ⟨isNone_iff_eq_none.mp habsent, hroom⟩⟩ hput)
  have hopen : Function.update (fun _ => none) "x" r.toOption "x" = some bs :=
    (update_self _ _ _).trans hbs
  exact ⟨_, bs, hsteps, hopen, of_decide_eq_true hlen,
    (open_grant_reserved "random" _ hsteps "x" bs hopen).2.2⟩

/-- A put that needs room evicts an object in flight: the second put is granted the range that the first
client still writes to, and the `put_end` of the first client fails. -/
theorem open_grant_lost :
    ∃ d d' bs bs' m, ReflTransGen (Step fun _ _ _ _ => True) (new "random") d ∧
      d.held "x" = some bs ∧ (put600 "y").run d.master = some (.ok bs', d'.master) ∧
      Step (fun _ _ _ _ => True) d d' ∧ d'.held "x" = some bs ∧
      (∃ b ∈ bs, ∃ b' ∈ bs', b.segmentName = b'.segmentName ∧
        ¬RangesDisjoint b.offset b.size b'.offset b'.size) ∧
      (putEnd "x").run d'.master = some (.error .objectNotFound, m) := by
  have hrun : (((mountSegment "a" 1024).run (.new "random")).any fun r₁ =>
      ((put600 "x").run r₁.2).any fun r₂ => ((put600 "y").run r₂.2).any fun r₃ =>
        (r₂.1.toOption.any fun bs => r₃.1.toOption.any fun bs' =>
          decide (∃ b ∈ bs, ∃ b' ∈ bs', b.segmentName = b'.segmentName ∧
            ¬RangesDisjoint b.offset b.size b'.offset b'.size)) &&
        ((putEnd "x").run r₃.2).any fun r₄ => decide (r₄.1 = .error .objectNotFound)) = true := by
    decide +kernel
  obtain ⟨⟨_, m₁⟩, hmount, hrun⟩ := (any_eq_true _ _).mp hrun
  obtain ⟨⟨r, m₂⟩, hx, hrun⟩ := (any_eq_true _ _).mp hrun
  obtain ⟨⟨r', m₃⟩, hy, hrun⟩ := (any_eq_true _ _).mp hrun
  obtain ⟨hoverlap, hend⟩ := Bool.and_eq_true_iff.mp hrun
  obtain ⟨bs, hbs, hoverlap⟩ := (any_eq_true _ _).mp hoverlap
  obtain ⟨bs', hbs', hoverlap⟩ := (any_eq_true _ _).mp hoverlap
  obtain ⟨⟨e, m₄⟩, hend, he⟩ := (any_eq_true _ _).mp hend
  have hsteps : ReflTransGen (Step fun _ _ _ _ => True) (new "random")
      ⟨m₂, Function.update (fun _ => none) "x" r.toOption⟩ :=
    (ReflTransGen.single (.mountSegment (by simp [new, MasterService.new, SegmentState.names])
      (by norm_num) hmount)).tail (.putStart trivial hx)
  have hopen : Function.update (fun _ => none) "x" r.toOption "x" = some bs :=
    (update_self _ _ _).trans hbs
  have hr' : r' = .ok bs' := by
    cases r' with
    | error e => cases hbs'
    | ok bs₀ =>
      cases hbs'
      rfl
  refine ⟨_, ⟨m₃, _⟩, bs, bs', m₄, hsteps, hopen, hr' ▸ hy,
    .putStart trivial hy, ?_, of_decide_eq_true hoverlap, ?_⟩
  · change Function.update (Function.update (fun _ => none) "x" r.toOption) "y" r'.toOption "x" = some bs
    rw [update_of_ne (by decide), hopen]
  · rw [hend, show e = .error .objectNotFound from of_decide_eq_true he]

end Desk

end QuillCache.Store
