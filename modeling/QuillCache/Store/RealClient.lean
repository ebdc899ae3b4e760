import QuillCache.Store.Client
import QuillCache.Transfer.Engine

/-!
# `RealClient`: the client over the transfer engine

A master, and the client's transfer engine. `put` stages the bytes in the engine's own segment once for each granted
buffer and WRITEs them to the buffer; `get` READs the first readable buffer into a zeroed staging range. The master may
have mounted the engine's own segment: then object buffers and staging ranges share one growing arena.

Staging appends, and the bytes of a complete object lie before the end of their arena since they were written; so
neither staging nor a WRITE to another buffer changes them (`transfers_keep_objects`).

Source: `client.rs`.
-/

namespace QuillCache.Store

open Lib Transfer Relation AList List

structure RealClient where
  master : MasterService
  engine : TransferEngine

namespace RealClient

def new (strategy : String) (engine : TransferEngine) : RealClient := ⟨.new strategy, engine⟩

def onMaster {α : Type} (p : MasterProg α) : Exec RealClient α :=
  focus master (fun c m => { c with master := m }) p.run

def onEngine {α : Type} (p : Exec TransferEngine α) : Exec RealClient α :=
  focus engine (fun c e => { c with engine := e }) p

def mount (name : SegmentName) (capacity : ℕ) : Exec RealClient Unit :=
  onMaster (MasterService.mountSegment name capacity)

def sendReplica (data : List UInt8) (buffer : AllocatedBuffer) : Exec TransferEngine (Except ErrorCode Unit) := do
  match ← TransferEngine.openSegment buffer.segmentName with
  | .error _ => return .error .segmentNotFound
  | .ok segment =>
    let source ← TransferEngine.registerLocalMemory data
    match ← TransferEngine.submitTransfer [⟨.write, source, segment, buffer.offset, buffer.size⟩] with
    | .error _ => return .error .bufferOverflow
    | .ok () => return .ok ()

def sendReplicas (data : List UInt8) : List AllocatedBuffer → Exec TransferEngine (Except ErrorCode Unit)
  | [] => return .ok ()
  | buffer :: buffers => do
    match ← sendReplica data buffer with
    | .error e => return .error e
    | .ok () => sendReplicas data buffers

def put (key : ObjectKey) (identity : IdentityScope) (data : List UInt8) (config : ReplicateConfig) :
    Exec RealClient (Except ErrorCode Unit) := do
  match ← onMaster (MasterService.putStart key identity data.length config) with
  | .error e => return .error e
  | .ok buffers =>
    match ← onEngine (sendReplicas data buffers) with
    | .error e => return .error e
    | .ok () => onMaster (MasterService.putEnd key)

def fetch (buffer : AllocatedBuffer) : Exec TransferEngine (Except ErrorCode (List UInt8)) := do
  match ← TransferEngine.openSegment buffer.segmentName with
  | .error _ => return .error .segmentNotFound
  | .ok segment =>
    let dest ← TransferEngine.registerZeroed buffer.size
    match ← TransferEngine.submitTransfer [⟨.read, dest, segment, buffer.offset, buffer.size⟩] with
    | .error _ => return .error .bufferOverflow
    | .ok () => return .ok (← TransferEngine.readLocal dest buffer.size)

def get (key : ObjectKey) (identity : IdentityScope) : Exec RealClient (Except ErrorCode (List UInt8)) := do
  match ← onMaster (MasterService.getReplicaList key identity) with
  | .error e => return .error e
  | .ok replicas =>
    match firstMemoryBuffer replicas with
    | .error e => return .error e
    | .ok buffer => onEngine (fetch buffer)

/-! ## The engine's part -/

section engine

variable {e : TransferEngine} {data : List UInt8} {b : AllocatedBuffer} {bs : List AllocatedBuffer}

def stored (e : TransferEngine) (b : AllocatedBuffer) : Option (List UInt8) :=
  e.contents b.segmentName b.offset b.size

def KeepsOutside (e : TransferEngine) (bs : List AllocatedBuffer) (e' : TransferEngine) : Prop :=
  ∀ x d, stored e x = some d →
    (∀ b ∈ bs, b.segmentName = x.segmentName → RangesDisjoint b.offset b.size x.offset x.size) → stored e' x = some d

lemma KeepsOutside.refl (e : TransferEngine) (bs : List AllocatedBuffer) : KeepsOutside e bs e := fun _ _ h _ => h

lemma append_keeps (data : List UInt8) (e : TransferEngine) :
    Pc (TransferEngine.append data) (fun _ e' => KeepsOutside e [] e') e :=
  (TransferEngine.append_spec data e).mono fun _ _ h _ _ hx _ => (h.2.2.2 _ _ _ _ hx).1

lemma sendReplica_spec (hsize : b.size = data.length) :
    Pc (sendReplica data b) (fun r e' => KeepsOutside e [b] e' ∧ (r = .ok () → stored e' b = some data)) e := by
  rw [sendReplica]
  refine (TransferEngine.openSegment_spec b.segmentName e).call ?_
  rintro r e₁ ⟨-, hcontents, hopen⟩
  cases r with
  | error err =>
    refine pc_pure.mpr ⟨fun x d hx _ => ?_, by simp⟩
    rwa [stored, hcontents]
  | ok id =>
    refine (TransferEngine.append_spec data e₁).call ?_
    rintro source e₂ ⟨hlocal, hcache, hstaged, hkeep⟩
    have hid : e₂.segmentCache.lookup id = some b.segmentName := hcache ▸ hopen id rfl
    rw [← hlocal, ← hsize] at hstaged
    refine (TransferEngine.submitTransfer_write_spec hid hstaged).call ?_
    rintro r e₃ ⟨htouches, hwritten⟩
    have hframe : KeepsOutside e [b] e₃ := by
      intro x d hx hdisj
      rw [stored, ← hcontents] at hx
      exact htouches.contents_eq _ _ _ _ (hkeep _ _ _ _ hx).1 fun hname =>
        hdisj b (mem_singleton_self b) hname.symm
    cases r with
    | error err => exact pc_pure.mpr ⟨hframe, by simp⟩
    | ok u => exact pc_pure.mpr ⟨hframe, fun _ => hwritten rfl⟩

lemma sendReplicas_spec (hsize : ∀ b ∈ bs, b.size = data.length)
    (hnames : (bs.map AllocatedBuffer.segmentName).Nodup) :
    Pc (sendReplicas data bs) (fun r e' => KeepsOutside e bs e' ∧
      (r = .ok () → ∀ b ∈ bs, stored e' b = some data)) e := by
  induction bs generalizing e with
  | nil => exact pc_pure.mpr ⟨KeepsOutside.refl e [], by simp⟩
  | cons b bs ih =>
    obtain ⟨hb, hnames⟩ := nodup_cons.mp hnames
    rw [sendReplicas]
    refine (sendReplica_spec (hsize b mem_cons_self)).call ?_
    rintro r e₁ ⟨hframe₁, hsent⟩
    have hkeep : KeepsOutside e (b :: bs) e₁ := fun x d hx hdisj => hframe₁ x d hx fun b' hb' =>
      hdisj b' (by rw [mem_singleton.mp hb']; exact mem_cons_self)
    cases r with
    | error err => exact pc_pure.mpr ⟨hkeep, by simp⟩
    | ok u =>
      refine (ih (fun c hc => hsize c (mem_cons_of_mem _ hc)) hnames).mono ?_
      rintro r e₂ ⟨hframe₂, hrest⟩
      refine ⟨fun x d hx hdisj => hframe₂ x d (hkeep x d hx hdisj) fun c hc =>
        hdisj c (mem_cons_of_mem _ hc), fun hr c hc => ?_⟩
      rcases mem_cons.mp hc with rfl | hc
      · -- the later writes go to other segments
        exact hframe₂ c data (hsent rfl) fun c' hc' hname => absurd (mem_map.mpr ⟨c', hc', hname⟩) hb
      · exact hrest hr c hc

lemma fetch_spec (b : AllocatedBuffer) (e : TransferEngine) :
    Pc (fetch b) (fun r e' => KeepsOutside e [] e' ∧
      ∀ bytes, r = .ok bytes → ∀ d, stored e b = some d → bytes = d) e := by
  rw [fetch]
  refine (TransferEngine.openSegment_spec b.segmentName e).call ?_
  rintro r e₁ ⟨-, hcontents, hopen⟩
  cases r with
  | error err =>
    refine pc_pure.mpr ⟨fun x d hx _ => ?_, by simp⟩
    rwa [stored, hcontents]
  | ok id =>
    refine (TransferEngine.append_spec (List.replicate b.size 0) e₁).call ?_
    rintro dest e₂ ⟨hlocal, hcache, -, hkeep⟩
    have hid : e₂.segmentCache.lookup id = some b.segmentName := hcache ▸ hopen id rfl
    refine (TransferEngine.submitTransfer_read_spec hid).call ?_
    rintro r e₃ ⟨htouches, hread⟩
    have hframe : KeepsOutside e [] e₃ := by
      intro x d hx _
      rw [stored, ← hcontents] at hx
      obtain ⟨hx₂, hend⟩ := hkeep _ _ _ _ hx
      -- what is stored in the own segment ends before the staging range
      exact htouches.contents_eq _ _ _ _ hx₂ fun hname => Or.inr (hend (hname.trans hlocal))
    cases r with
    | error err => exact pc_pure.mpr ⟨hframe, by simp⟩
    | ok u =>
      obtain ⟨bytes, htarget, hdest⟩ := hread rfl
      refine (TransferEngine.readLocal_spec dest b.size e₃).call ?_
      rintro bytes' e₄ ⟨rfl, hbytes'⟩
      refine pc_pure.mpr ⟨hframe, fun bytes'' hr d hd => ?_⟩
      cases hr
      rw [stored, ← hcontents] at hd
      rw [htouches.localName_eq, hdest, Option.some.injEq] at hbytes'
      rw [(hkeep _ _ _ _ hd).1, Option.some.injEq] at htarget
      exact hbytes'.symm.trans htarget.symm

end engine

/-! ## Histories -/

/-- One call, with the successful puts it adds to the history. A call that panics has no step, and neither has the
mount of a mounted name. -/
inductive Step : RealClient × List DummyClient.Event → RealClient × List DummyClient.Event → Prop where
  | mount {c c' : RealClient} {h : List DummyClient.Event} {name : SegmentName} {capacity : ℕ}
      (hname : name ∉ c.master.segments.names) (hcap : capacity < 2 ^ 64)
      (hrun : mount name capacity c = some ((), c')) : Step (c, h) (c', h)
  | put {c c' : RealClient} {h : List DummyClient.Event} {key : ObjectKey} {identity : IdentityScope}
      {data : List UInt8} {config : ReplicateConfig} {r : Except ErrorCode Unit}
      (hrun : put key identity data config c = some (r, c')) :
      Step (c, h) (c', h ++ DummyClient.putEvents key identity data r)
  | get {c c' : RealClient} {h : List DummyClient.Event} {key : ObjectKey} {identity : IdentityScope}
      {r : Except ErrorCode (List UInt8)} (hrun : get key identity c = some (r, c')) : Step (c, h) (c', h)
  | tick {c c' : RealClient} {h : List DummyClient.Event} {r : ℕ}
      (hrun : onMaster MasterService.tick c = some (r, c')) : Step (c, h) (c', h)
  | shuffle {c : RealClient} {h : List DummyClient.Event} {m : MasterService} (hm : Shuffle c.master m) :
      Step (c, h) ({ c with master := m }, h)

/-- What holds between calls: every complete object is the last successful put of its key, with its bytes stored
in every buffer. -/
structure Inv (c : RealClient) (h : List DummyClient.Event) : Prop where
  sound : Sound c.master.view
  content : ∀ k o, c.master.objects.lookup k = some o → o.hasCompleteReplica = true →
    ∃ data, DummyClient.LastPut h k o.identity data ∧ ∀ b ∈ o.footprint.buffers, stored c.engine b = some data

def SameBytes (m : MasterService) (e e' : TransferEngine) : Prop :=
  ∀ k o, m.objects.lookup k = some o → o.hasCompleteReplica = true →
    ∀ b ∈ o.footprint.buffers, stored e' b = stored e b

/-- The complete objects that a call leaves in place keep their bytes. -/
def KeepsBytes (c c' : RealClient) : Prop :=
  ∀ k o, c.master.objects.lookup k = some o → o.hasCompleteReplica = true → k ∈ c'.master.objects →
    ∀ b ∈ o.footprint.buffers, stored c'.engine b = stored c.engine b

section steps

variable {c c' : RealClient} {h : List DummyClient.Event} {m : MasterService} {e : TransferEngine}

lemma onMaster_eq_some {α : Type} {p : MasterProg α} {r : α} :
    onMaster p c = some (r, c') ↔ ∃ m, p.run c.master = some (r, m) ∧ c' = { c with master := m } := focus_eq_some

lemma onEngine_eq_some {α : Type} {p : Exec TransferEngine α} {r : α} (hrun : onEngine p c = some (r, c')) :
    ∃ e, p c.engine = some (r, e) ∧ c' = { c with engine := e } := focus_eq_some.mp hrun

lemma Inv.keep (hi : Inv c h) {es : List DummyClient.Event} (hs : Sound m.view)
    (hobjects : ∀ k o, m.objects.lookup k = some o → o.hasCompleteReplica = true → (∀ ev ∈ es, ev.key ≠ k) ∧
      ∃ o₀, c.master.objects.lookup k = some o₀ ∧ o₀.hasCompleteReplica = true ∧ o.identity = o₀.identity ∧
        o.footprint = o₀.footprint ∧
        ∀ b ∈ o₀.footprint.buffers, ∀ d, stored c.engine b = some d → stored e b = some d) :
    Inv ⟨m, e⟩ (h ++ es) := by
  refine ⟨hs, fun k o ho hc => ?_⟩
  obtain ⟨hes, o₀, ho₀, hc₀, hid, hfp, hbytes⟩ := hobjects k o ho hc
  obtain ⟨data, hlast, hstored⟩ := hi.content k o₀ ho₀ hc₀
  refine ⟨data, hid ▸ hlast.append hes, fun b hb => ?_⟩
  rw [hfp] at hb
  exact hbytes b hb data (hstored b hb)

lemma Inv.sameBytes (hi : Inv c h) (he : KeepsOutside c.engine [] e) : SameBytes c.master c.engine e := by
  intro k o ho hc b hb
  obtain ⟨data, -, hstored⟩ := hi.content k o ho hc
  rw [hstored b hb]
  exact he b data (hstored b hb) (by simp)

variable {identity : IdentityScope} {config : ReplicateConfig} {key : ObjectKey} {bs : List AllocatedBuffer}
  {size : ℕ}

lemma Inv.put_sameBytes {bs bs' : List AllocatedBuffer} (hi : Inv c h)
    (hm : (MasterService.putStart key identity size config).run c.master = some (.ok bs, m)) (hbs : ∀ b ∈ bs', b ∈ bs)
    (he : KeepsOutside c.engine bs' e) : SameBytes m c.engine e := by
  obtain ⟨-, -, -, -, ⟨o₁, ho₁, hopen₁, -⟩, hothers⟩ := MasterService.putStart_granted hi.sound hm
  intro k o ho hc b hb
  have hne : k ≠ key := by
    rintro rfl
    rw [ho₁, Option.some.injEq] at ho
    rw [ho, hc] at hopen₁
    cases hopen₁
  obtain ⟨ho₀, hdisj⟩ := hothers k o hne ho
  obtain ⟨data, -, hstored⟩ := hi.content k o ho₀ hc
  rw [hstored b hb]
  exact he b data (hstored b hb) fun b' hb' => hdisj b hb b' (hbs b' hb')

lemma Inv.put_error {err : ErrorCode} (hi : Inv c h)
    (hm : (MasterService.putStart key identity size config).run c.master = some (.error err, m)) :
    Inv ⟨m, c.engine⟩ h := by
  rw [← append_nil h]
  obtain ⟨hsound, -, hobjects⟩ := MasterService.putStart_refused hi.sound hm
  exact hi.keep hsound fun k o ho hc => ⟨by simp, o, hobjects k o ho, hc, rfl, rfl, fun _ _ _ h => h⟩

lemma Inv.put_keepsBytes {m' : MasterService} (hi : Inv c h)
    (hm : (MasterService.putStart key identity size config).run c.master = some (.ok bs, m))
    (he : KeepsOutside c.engine bs e) (hm' : ∀ k, k ≠ key → m'.objects.lookup k = m.objects.lookup k) :
    KeepsBytes c ⟨m', e⟩ := by
  obtain ⟨hopen, -, -, -, -, hothers⟩ := MasterService.putStart_granted hi.sound hm
  intro k o ho hc hk b hb
  have hne : k ≠ key := by
    rintro rfl
    rw [MasterService.isComplete, ho, Option.any_some, hc] at hopen
    cases hopen
  obtain ⟨o', ho'⟩ := mem_iff_exists_lookup.mp hk
  rw [hm' k hne] at ho'
  obtain ⟨hbefore, -⟩ := hothers k o' hne ho'
  rw [ho, Option.some.injEq] at hbefore
  exact hi.put_sameBytes hm (fun _ hb => hb) he k o' ho' (hbefore ▸ hc) b (hbefore ▸ hb)

lemma Inv.put_inv {m' : MasterService} {es : List DummyClient.Event} (hi : Inv c h)
    (hm : (MasterService.putStart key identity size config).run c.master = some (.ok bs, m))
    (he : KeepsOutside c.engine bs e) (hm' : ∀ k, k ≠ key → m'.objects.lookup k = m.objects.lookup k)
    (hs : Sound m'.view) (hes : ∀ ev ∈ es, ev.key = key)
    (hkey : ∀ o, m'.objects.lookup key = some o → o.hasCompleteReplica = true →
      ∃ data, DummyClient.LastPut (h ++ es) key o.identity data ∧ ∀ b ∈ o.footprint.buffers, stored e b = some data) :
    Inv ⟨m', e⟩ (h ++ es) := by
  obtain ⟨-, -, -, -, -, hothers⟩ := MasterService.putStart_granted hi.sound hm
  refine ⟨hs, fun k o ho hc => ?_⟩
  by_cases hne : k = key
  · subst hne
    exact hkey o ho hc
  · have ho₁ : m.objects.lookup k = some o := (hm' k hne).symm.trans ho
    obtain ⟨ho₀, -⟩ := hothers k o hne ho₁
    obtain ⟨data, hlast, hstored⟩ := hi.content k o ho₀ hc
    refine ⟨data, hlast.append fun ev hev hk => hne (hk ▸ hes ev hev), fun b hb => ?_⟩
    rw [← hstored b hb]
    exact hi.put_sameBytes hm (fun _ hb => hb) he k o ho₁ hc b hb

/-- **A `put` that returns** keeps the invariant and the bytes of the other complete objects. -/
lemma Inv.put {data : List UInt8} {r : Except ErrorCode Unit} (hi : Inv c h)
    (hrun : put key identity data config c = some (r, c')) :
    Inv c' (h ++ DummyClient.putEvents key identity data r) ∧ KeepsBytes c c' := by
  obtain ⟨r₀, c₀, hstart, hrest⟩ := bind_eq_some.mp hrun
  obtain ⟨m, hm, rfl⟩ := onMaster_eq_some.mp hstart
  cases r₀ with
  | error err =>
    cases hrest
    refine ⟨?_, fun _ _ _ _ _ _ _ => rfl⟩
    rw [DummyClient.putEvents, append_nil]
    exact hi.put_error hm
  | ok bs =>
    obtain ⟨-, hsound, -, hgrant, ⟨o, ho, hopen, hid, hmem⟩, -⟩ := MasterService.putStart_granted hi.sound hm
    obtain ⟨r₁, c₁, hsend, hend⟩ := bind_eq_some.mp hrest
    obtain ⟨e, he, rfl⟩ := onEngine_eq_some hsend
    obtain ⟨hkeep, hsent⟩ := sendReplicas_spec hgrant.size_eq hgrant.names_nodup _ _ he
    cases r₁ with
    | error err =>
      cases hend
      refine ⟨hi.put_inv hm hkeep (fun _ _ => rfl) hsound (by simp [DummyClient.putEvents]) ?_,
        hi.put_keepsBytes hm hkeep fun _ _ => rfl⟩
      -- the object was left in flight
      intro o' ho' hc
      rw [ho, Option.some.injEq] at ho'
      rw [ho', hc] at hopen
      cases hopen
    | ok u =>
      obtain ⟨m', hm', rfl⟩ := onMaster_eq_some.mp hend
      obtain ⟨hnone, -⟩ | ⟨o', ho', rfl, rfl⟩ := (MasterService.putEnd_completes key m).pc _ _ hm'
      · rw [ho] at hnone
        cases hnone
      have hothers : ∀ k, k ≠ key →
          (m.objects.update key (·.withStatus .complete)).lookup k = m.objects.lookup k := fun k hne => by
        rw [lookup_update, if_neg hne]
      refine ⟨hi.put_inv hm hkeep hothers ?_ (by simp [DummyClient.putEvents, DummyClient.Event.key]) ?_,
        hi.put_keepsBytes hm hkeep hothers⟩
      · rw [MasterService.view, footprints_update (footprint_withStatus .complete) key m.objects]
        exact hsound
      · intro o'' ho'' _
        rw [lookup_update, if_pos rfl, ho, Option.map_some, Option.some.injEq] at ho''
        subst ho''
        refine ⟨data, ?_, fun b hb => ?_⟩
        · rw [show (o.withStatus .complete).identity = identity from hid]
          exact DummyClient.lastPut_append h key identity data
        · rw [footprint_withStatus, hmem] at hb
          exact hsent rfl b hb

lemma Inv.read {r : Except ErrorCode (List Replica)} (hi : Inv c h)
    (hm : (MasterService.getReplicaList key identity).run c.master = some (r, m)) (he : KeepsOutside c.engine [] e) :
    Inv ⟨m, e⟩ h ∧ KeepsBytes c ⟨m, e⟩ := by
  refine ⟨?_, fun k o ho hc _ b hb => hi.sameBytes he k o ho hc b hb⟩
  rw [← append_nil h]
  obtain ⟨hsound, -, hobjects⟩ := MasterService.getReplicaList_keeps hi.sound hm
  refine hi.keep hsound fun k o ho hc => ⟨by simp, ?_⟩
  obtain ⟨o₀, ho₀, hid, hfp, hc₀⟩ := hobjects k o ho
  exact ⟨o₀, ho₀, hc₀.symm.trans hc, hid, hfp, fun b _ d hd => he b d hd (by simp)⟩

/-- **A `get` that returns** keeps the invariant and all bytes, and answers with the last put. -/
lemma Inv.get {r : Except ErrorCode (List UInt8)} (hi : Inv c h) (hrun : get key identity c = some (r, c')) :
    (Inv c' h ∧ KeepsBytes c c') ∧ ∀ bytes, r = .ok bytes → DummyClient.LastPut h key identity bytes := by
  obtain ⟨r₀, c₀, hcall, hrest⟩ := bind_eq_some.mp hrun
  obtain ⟨m, hm, rfl⟩ := onMaster_eq_some.mp hcall
  cases r₀ with
  | error err =>
    cases hrest
    exact ⟨hi.read hm (KeepsOutside.refl _ _), by simp⟩
  | ok replicas =>
    obtain ⟨o, ho, rfl, hc, b, hb, hfirst⟩ := MasterService.getReplicaList_first hi.sound hm
    obtain ⟨data, hlast, hstored⟩ := hi.content key o ho hc
    simp only [hfirst] at hrest
    obtain ⟨e, he, rfl⟩ := onEngine_eq_some hrest
    obtain ⟨hkeep, hanswer⟩ := fetch_spec b c.engine _ _ he
    refine ⟨hi.read hm hkeep, fun bytes hr => ?_⟩
    rwa [hanswer bytes hr data (hstored b hb)]

/-- **One call keeps the invariant and the bytes of the complete objects.** -/
lemma Inv.step {x x' : RealClient × List DummyClient.Event} (hi : Inv x.1 x.2) (hstep : Step x x') :
    Inv x'.1 x'.2 ∧ KeepsBytes x.1 x'.1 := by
  cases hstep with
  | @mount c c' h name capacity hname hcap hrun =>
    obtain ⟨m, hm, rfl⟩ := onMaster_eq_some.mp hrun
    obtain ⟨hsound, a, -, rfl⟩ := MasterService.mountSegment_runs hi.sound hname hcap _ _ hm
    exact ⟨⟨hsound, hi.content⟩, fun _ _ _ _ _ _ _ => rfl⟩
  | put hrun => exact hi.put hrun
  | get hrun => exact (hi.get hrun).1
  | @tick c c' h r hrun =>
    obtain ⟨m, hm, rfl⟩ := onMaster_eq_some.mp hrun
    have hm' := MasterService.tick_runs c.master _ _ hm
    subst hm'
    exact ⟨⟨hi.sound, hi.content⟩, fun _ _ _ _ _ _ _ => rfl⟩
  | @shuffle c h m hm =>
    refine ⟨?_, fun _ _ _ _ _ _ _ => rfl⟩
    rw [← append_nil h]
    have hsound : Sound m.view := view_shuffle hm ▸ hi.sound
    refine hi.keep hsound fun k o ho hc => ⟨by simp, ?_⟩
    obtain ⟨o₀, ho₀, hshuffled⟩ := hm.exists_before ho
    exact ⟨o₀, ho₀, hshuffled.hasCompleteReplica_eq.symm.trans hc, by rw [hshuffled.2],
      footprint_eq_of_shuffled hshuffled, fun _ _ _ h => h⟩

end steps

lemma inv_new (strategy : String) (engine : TransferEngine) : Inv (new strategy engine) [] :=
  ⟨MasterService.sound_new strategy, by simp [new, MasterService.new]⟩

lemma inv_reachable {strategy : String} {engine : TransferEngine} {x : RealClient × List DummyClient.Event}
    (hrun : ReflTransGen Step (new strategy engine, []) x) : Inv x.1 x.2 := by
  induction hrun with
  | refl => exact inv_new strategy engine
  | tail _ hstep ih => exact (ih.step hstep).1

/-- **Transfers keep the objects.** After any history of calls, with any published segments and the engine's own
among them: a `get` that answers with bytes answers with those of the last successful put of that key, made by the
same identity; no call changes the bytes of a complete object that it leaves in place; neither does the staging of
a `get`, nor that of a `put`, for whichever of the granted buffers it is. -/
theorem transfers_keep_objects (strategy : String) (engine : TransferEngine) (c : RealClient)
    (h : List DummyClient.Event) (hrun : ReflTransGen Step (new strategy engine, []) (c, h)) :
    (∀ key identity bytes c', get key identity c = some (.ok bytes, c') →
      DummyClient.LastPut h key identity bytes) ∧
    (∀ x, Step (c, h) x → KeepsBytes c x.1) ∧
    (∀ len dest e, TransferEngine.registerZeroed len c.engine = some (dest, e) → SameBytes c.master c.engine e) ∧
    (∀ key identity data config bs m i e source e',
      (MasterService.putStart key identity data.length config).run c.master = some (.ok bs, m) →
      sendReplicas data (bs.take i) c.engine = some (.ok (), e) →
      TransferEngine.registerLocalMemory data e = some (source, e') →
        SameBytes m c.engine e ∧ SameBytes m c.engine e') := by
  have hi : Inv c h := inv_reachable hrun
  refine ⟨fun key identity bytes c' hget => (hi.get hget).2 bytes rfl, fun x hstep => (hi.step hstep).2,
    fun len dest e hstage => hi.sameBytes (append_keeps _ _ _ _ hstage),
    fun key identity data config bs m i e source e' hm hsend hstage => ?_⟩
  obtain ⟨-, -, -, hgrant, -⟩ := MasterService.putStart_granted hi.sound hm
  have htake : ∀ b ∈ bs.take i, b ∈ bs := fun b hb => mem_of_mem_take hb
  have hnames : ((bs.take i).map AllocatedBuffer.segmentName).Nodup :=
    hgrant.names_nodup.sublist ((take_sublist i bs).map _)
  obtain ⟨hkeep, -⟩ := sendReplicas_spec (fun b hb => hgrant.size_eq b (htake b hb)) hnames _ _ hsend
  have hstaged := append_keeps _ _ _ _ hstage
  exact ⟨hi.put_sameBytes hm htake hkeep, hi.put_sameBytes hm htake fun x d hx hdisj =>
    hstaged x d (hkeep x d hx hdisj) (by simp)⟩

def ownThreeBytes : Exec RealClient (Except ErrorCode (List UInt8)) := do
  mount "seg-0" 4096
  let _ ← put "k" ⟨"m", "t", none, "u"⟩ [1, 2, 3] {}
  get "k" ⟨"m", "t", none, "u"⟩

def emptyEngine : TransferEngine := { localName := "seg-0", segment := ⟨[], by decide, false⟩ }

theorem transfers_keep_objects_ownThreeBytes :
    ∃ c c' h, ReflTransGen Step (new "random" emptyEngine, []) (c, h) ∧
      get "k" ⟨"m", "t", none, "u"⟩ c = some (.ok [1, 2, 3], c') ∧
      DummyClient.LastPut h "k" ⟨"m", "t", none, "u"⟩ [1, 2, 3] ∧ ∀ x, Step (c, h) x → KeepsBytes c x.1 := by
  have hrun : ((ownThreeBytes (new "random" emptyEngine)).any fun r => r.1 = .ok [1, 2, 3]) = true := by
    decide +kernel
  obtain ⟨⟨r, c₃⟩, hthree, hr⟩ :
      ∃ x, ownThreeBytes (new "random" emptyEngine) = some x ∧ x.1 = .ok [1, 2, 3] := by
    simpa [Option.any_eq_true] using hrun
  obtain rfl : r = .ok [1, 2, 3] := hr
  unfold ownThreeBytes at hthree
  obtain ⟨_, c₁, hmount, hrest⟩ := bind_eq_some.mp hthree
  obtain ⟨r, c₂, hput, hget⟩ := bind_eq_some.mp hrest
  have hreach := (ReflTransGen.single (Step.mount (h := []) (by simp [new, MasterService.new,
    SegmentState.names]) (by norm_num) hmount)).tail (Step.put hput)
  obtain ⟨hlast, hkeep, -⟩ := transfers_keep_objects "random" emptyEngine c₂ _ hreach
  exact ⟨c₂, c₃, _, hreach, hget, hlast _ _ _ _ hget, hkeep⟩

end RealClient

end QuillCache.Store
