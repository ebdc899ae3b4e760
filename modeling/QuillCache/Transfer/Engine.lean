import QuillCache.Lib.Table
import QuillCache.Transfer.Layers
import QuillCache.Transfer.SegmentServer

/-!
# The transfer engine

`TransferEngine` owns a RAM segment, in which it stages the bytes it moves, and reads and writes the published segments
by offset. Its own segment is published too, so a transfer may have it on both sides. A published name stands for the
endpoint behind it; only the `tcp` transport is installed, and the batch table holds nothing but statuses, so neither
is modelled.

`contents` are the bytes of a range of a segment. Staging changes the contents of no range that exists (`append_spec`),
and a transfer only of those that meet the one it writes (`submitTransfer_write_spec`, `submitTransfer_read_spec`).

Source: `engine.rs`.
-/

namespace QuillCache.Transfer

open Lib AList Option

/-! ## What the server answers to one request -/

namespace Segment

def serveRead (seg : Segment) (offset len : ℕ) : Option Reply :=
  if seg.poisoned then none else some (readLocked offset len seg.bytes)

def serveWrite (seg : Segment) (offset len : ℕ) (buf : List UInt8) : Option Reply × Segment :=
  if vecBound ≤ len ∨ seg.poisoned then (none, seg)
  else
    match h : writeLocked offset len buf seg.bytes with
    | some bytes => (some .ok, { seg with bytes := bytes, bound := length_writeLocked seg.bound h })
    | none => (none, { seg with poisoned := true })

def copyInto (seg : Segment) (start stop : ℕ) (data : List UInt8) : Option Segment :=
  match h : writeRange seg.bytes start stop data with
  | some bytes => some { seg with bytes := bytes, bound := length_of_writeRange h ▸ seg.bound }
  | none => none

variable {seg : Segment}

lemma handleFrame_read (offset len : UInt64) :
    handleFrame seg (.read offset len) = (seg.serveRead offset.toNat len.toNat, seg) := by
  rw [handleFrame, serveRead]
  split_ifs <;> rfl

lemma handleFrame_write (offset len : UInt64) (buf : List UInt8) (present : buf.length = len.toNat) :
    handleFrame seg (.write offset len buf present) = seg.serveWrite offset.toNat len.toNat buf := rfl

lemma serveRead_eq_data {offset len : ℕ} {bytes : List UInt8} (h : seg.serveRead offset len = some (.data bytes)) :
    readRange seg.bytes offset (offset + len) = some bytes := by
  rw [serveRead] at h
  split_ifs at h
  rw [Option.some.injEq, readLocked_eq seg.bound] at h
  split_ifs at h with hle
  rw [readRange_of_le hle]
  exact congrArg some (Reply.data.inj h)

lemma serveWrite_spec (offset : ℕ) (buf : List UInt8) :
    (∀ x n d, readRange seg.bytes x (x + n) = some d → RangesDisjoint offset buf.length x n →
      readRange (seg.serveWrite offset buf.length buf).2.bytes x (x + n) = some d) ∧
    ((seg.serveWrite offset buf.length buf).1 = some .ok →
      readRange (seg.serveWrite offset buf.length buf).2.bytes offset (offset + buf.length) = some buf) := by
  rw [serveWrite]
  split_ifs
  · exact ⟨fun x n d h _ => h, by simp⟩
  split
  · rename_i bytes hwrite
    obtain ⟨stop, hstop, hrest⟩ := bind_eq_some_iff.mp hwrite
    obtain ⟨grown, hgrown, hcopy⟩ := bind_eq_some_iff.mp hrest
    rw [checkedAdd] at hstop
    split_ifs at hstop
    rw [← Option.some.inj hstop] at hcopy
    refine ⟨fun x n d h hdisj => ?_, fun _ => readRange_of_writeRange hcopy⟩
    rw [readRange_of_disjoint hcopy (by rwa [Nat.add_sub_cancel_left])]
    rw [grow] at hgrown
    split_ifs at hgrown
    · rw [← Option.some.inj hgrown]
      exact readRange_append h _
    · rw [← Option.some.inj hgrown]
      exact h
  · exact ⟨fun x n d h _ => h, by simp⟩

lemma copyInto_eq_some {seg' : Segment} {start stop : ℕ} {data : List UInt8}
    (h : seg.copyInto start stop data = some seg') : writeRange seg.bytes start stop data = some seg'.bytes := by
  rw [copyInto] at h
  split at h
  · rename_i bytes hwrite
    rw [← Option.some.inj h]
    exact hwrite
  · cases h

end Segment

/-! ## The engine -/

inductive OpCode where
  | read
  | write
  deriving DecidableEq

structure TransferRequest where
  opcode : OpCode
  sourceOffset : ℕ
  targetId : ℕ
  targetOffset : ℕ
  length : ℕ

/-- The node's own segment, the segments that other nodes have published, and the opened handles. -/
structure TransferEngine where
  localName : String
  segment : Segment
  peers : Table String Segment := ∅
  segmentCache : Table ℕ String := ∅
  nextSeg : ℕ := 1

namespace TransferEngine

def segmentOf (e : TransferEngine) (name : String) : Option Segment :=
  if name = e.localName then some e.segment else e.peers.lookup name

def setSegment (e : TransferEngine) (name : String) (seg : Segment) : TransferEngine :=
  if name = e.localName then { e with segment := seg } else { e with peers := e.peers.insert name seg }

def append (data : List UInt8) : Exec TransferEngine ℕ := fun e =>
  if e.segment.poisoned then none
  else if h : (e.segment.bytes ++ data).length < vecBound then
    some (e.segment.bytes.length, { e with segment := { e.segment with bytes := _, bound := h } })
  else none

def registerLocalMemory (data : List UInt8) : Exec TransferEngine ℕ := append data

def registerZeroed (len : ℕ) : Exec TransferEngine ℕ := append (List.replicate len 0)

def readLocal (offset len : ℕ) : Exec TransferEngine (List UInt8) := fun e =>
  if e.segment.poisoned ∨ 2 ^ 64 ≤ offset + len then none
  else (readRange e.segment.bytes offset (offset + len)).map fun bytes => (bytes, e)

def openSegment (name : String) : Exec TransferEngine (Except TransferError ℕ) := fun e =>
  match e.segmentOf name with
  | none => some (.error .notFound, e)
  | some _ => some (.ok e.nextSeg,
      { e with segmentCache := e.segmentCache.insert e.nextSeg name, nextSeg := e.nextSeg + 1 })

def readRemote (e : TransferEngine) (endpoint : String) (offset length : ℕ) : Except TransferError (List UInt8) :=
  match (e.segmentOf endpoint).bind fun seg => seg.serveRead offset length with
  | none => .error (.io "early eof")
  | some (.data bytes) => .ok bytes
  | some _ => .error (.protocol "remote read out of segment bounds")

def writeRemote (e : TransferEngine) (endpoint : String) (offset : ℕ) (data : List UInt8) :
    Except TransferError Unit × TransferEngine :=
  match e.segmentOf endpoint with
  | none => (.error (.io "connection refused"), e)
  | some seg =>
    let e' := e.setSegment endpoint (seg.serveWrite offset data.length data).2
    match (seg.serveWrite offset data.length data).1 with
    | none => (.error (.io "early eof"), e')
    | some .ok => (.ok (), e')
    | some _ => (.error (.protocol "remote write failed"), e')

/-- The body of the loop of `submit_transfer`. The bytes of a WRITE are copied out of the own segment before they
are sent. -/
def transfer (req : TransferRequest) : Exec TransferEngine (Except TransferError Unit) := fun e =>
  match e.segmentCache.lookup req.targetId with
  | none => some (.error .badSegment, e)
  | some endpoint =>
    match req.opcode with
    | .read =>
      match e.readRemote endpoint req.targetOffset req.length with
      | .error err => some (.error err, e)
      | .ok bytes =>
        if e.segment.poisoned ∨ 2 ^ 64 ≤ req.sourceOffset + req.length then none
        else if e.segment.bytes.length < req.sourceOffset + req.length then
          some (.error (.protocol "local source buffer too small for READ"), e)
        else (e.segment.copyInto req.sourceOffset (req.sourceOffset + req.length) bytes).map fun seg =>
          (.ok (), { e with segment := seg })
    | .write =>
      if e.segment.poisoned ∨ 2 ^ 64 ≤ req.sourceOffset + req.length then none
      else if e.segment.bytes.length < req.sourceOffset + req.length then
        some (.error (.protocol "local source buffer too small for WRITE"), e)
      else (readRange e.segment.bytes req.sourceOffset (req.sourceOffset + req.length)).map fun data =>
        e.writeRemote endpoint req.targetOffset data

def submitLoop : List TransferRequest → ℕ → Exec TransferEngine (Except TransferError Unit)
  | [], _ => return .ok ()
  | req :: reqs, transferred => do
    match ← transfer req with
    | .error err => return .error err
    | .ok () =>
      let transferred ← addChecked 64 transferred req.length
      submitLoop reqs transferred

def submitTransfer (requests : List TransferRequest) : Exec TransferEngine (Except TransferError Unit) :=
  submitLoop requests 0

/-! ## The bytes of a range -/

variable {e e' : TransferEngine} {name target : String} {x n : ℕ} {d data : List UInt8}

def contents (e : TransferEngine) (name : String) (x n : ℕ) : Option (List UInt8) :=
  (e.segmentOf name).bind fun seg => readRange seg.bytes x (x + n)

/-- The contents of every range survive that does not meet `[start, start + len)` of `name`; the names and handles
stay. -/
structure Touches (e : TransferEngine) (name : String) (start len : ℕ) (e' : TransferEngine) : Prop where
  localName_eq : e'.localName = e.localName
  segmentCache_eq : e'.segmentCache = e.segmentCache
  contents_eq : ∀ name' x n d, e.contents name' x n = some d → (name' = name → RangesDisjoint start len x n) →
    e'.contents name' x n = some d

lemma Touches.refl (e : TransferEngine) (name : String) (start len : ℕ) : Touches e name start len e :=
  ⟨rfl, rfl, fun _ _ _ _ h _ => h⟩

lemma contents_eq_some : e.contents name x n = some d ↔
    ∃ seg, e.segmentOf name = some seg ∧ readRange seg.bytes x (x + n) = some d :=
  bind_eq_some_iff

lemma segmentOf_localName (e : TransferEngine) : e.segmentOf e.localName = some e.segment := if_pos rfl

lemma contents_localName (e : TransferEngine) (x n : ℕ) :
    e.contents e.localName x n = readRange e.segment.bytes x (x + n) := by
  rw [contents, segmentOf_localName]
  rfl

lemma segmentOf_setSegment (seg : Segment) (name' : String) :
    (e.setSegment name seg).segmentOf name' = if name' = name then some seg else e.segmentOf name' := by
  simp only [setSegment]
  by_cases hname : name = e.localName
  · rw [if_pos hname]
    simp only [segmentOf, hname]
    split_ifs <;> rfl
  · rw [if_neg hname]
    simp only [segmentOf]
    by_cases hsame : name' = name
    · rw [if_pos hsame, hsame, if_neg hname, lookup_insert]
    · rw [if_neg hsame, lookup_insert_ne hsame]

lemma touches_setSegment {seg seg' : Segment} {start len : ℕ} (hseg : e.segmentOf name = some seg)
    (hkeep : ∀ x n d, readRange seg.bytes x (x + n) = some d → RangesDisjoint start len x n →
      readRange seg'.bytes x (x + n) = some d) : Touches e name start len (e.setSegment name seg') := by
  have hrest : (e.setSegment name seg').localName = e.localName ∧
      (e.setSegment name seg').segmentCache = e.segmentCache := by
    rw [setSegment]
    split_ifs <;> exact ⟨rfl, rfl⟩
  refine ⟨hrest.1, hrest.2, fun name' x n d h hdisj => ?_⟩
  rw [contents, segmentOf_setSegment]
  split_ifs with hsame
  · rw [hsame, contents, hseg] at h
    exact hkeep x n d h (hdisj hsame)
  · exact h

/-! ## Staging and transfers -/

lemma append_spec (data : List UInt8) (e : TransferEngine) :
    Pc (append data) (fun off e' => e'.localName = e.localName ∧ e'.segmentCache = e.segmentCache ∧
      e'.contents e.localName off data.length = some data ∧
      ∀ name x n d, e.contents name x n = some d →
        e'.contents name x n = some d ∧ (name = e.localName → x + n ≤ off)) e := by
  intro off e' hrun
  simp only [append] at hrun
  split_ifs at hrun with hpoisoned hbound
  cases hrun
  refine ⟨rfl, rfl, ?_, fun name x n d h => ?_⟩
  · exact (contents_localName _ _ _).trans (readRange_appended _ _)
  · by_cases hname : name = e.localName
    · rw [hname, contents_localName] at h
      refine ⟨?_, fun _ => le_of_readRange h⟩
      rw [hname]
      exact (contents_localName _ _ _).trans (readRange_append h data)
    · refine ⟨?_, fun hsame => absurd hsame hname⟩
      rw [contents, segmentOf, if_neg hname] at h ⊢
      exact h

lemma openSegment_spec (name : String) (e : TransferEngine) :
    Pc (openSegment name) (fun r e' => e'.localName = e.localName ∧ e'.contents = e.contents ∧
      ∀ id, r = .ok id → e'.segmentCache.lookup id = some name) e := by
  intro r e' hrun
  rw [openSegment] at hrun
  split at hrun
  · cases hrun
    exact ⟨rfl, rfl, by simp⟩
  · cases hrun
    refine ⟨rfl, rfl, fun id hid => ?_⟩
    cases hid
    exact lookup_insert _

lemma readLocal_spec (offset len : ℕ) (e : TransferEngine) :
    Pc (readLocal offset len) (fun bytes e' => e' = e ∧ e.contents e.localName offset len = some bytes) e := by
  intro bytes e' hrun
  rw [readLocal] at hrun
  split_ifs at hrun
  obtain ⟨bytes', hbytes, hr⟩ := map_eq_some_iff.mp hrun
  cases hr
  exact ⟨rfl, (contents_localName _ _ _).trans hbytes⟩

lemma readRemote_eq_ok {offset : ℕ} (h : e.readRemote target offset n = .ok d) :
    e.contents target offset n = some d := by
  rw [readRemote] at h
  split at h
  · cases h
  · rename_i bytes hbytes
    cases h
    obtain ⟨seg, hseg, hserve⟩ := bind_eq_some_iff.mp hbytes
    exact contents_eq_some.mpr ⟨seg, hseg, Segment.serveRead_eq_data hserve⟩
  · cases h

lemma writeRemote_spec (offset : ℕ) (data : List UInt8) :
    Touches e target offset data.length (e.writeRemote target offset data).2 ∧
      ((e.writeRemote target offset data).1 = .ok () →
        (e.writeRemote target offset data).2.contents target offset data.length = some data) := by
  rw [writeRemote]
  cases hseg : e.segmentOf target with
  | none => exact ⟨Touches.refl .., by simp⟩
  | some seg =>
    obtain ⟨hkeep, hstore⟩ := seg.serveWrite_spec offset data
    have htouches := touches_setSegment hseg hkeep
    simp only
    split
    · exact ⟨htouches, by simp⟩
    · rename_i hok
      refine ⟨htouches, fun _ => contents_eq_some.mpr ⟨_, ?_, hstore hok⟩⟩
      rw [segmentOf_setSegment, if_pos rfl]
    · exact ⟨htouches, by simp⟩

lemma submitTransfer_one {req : TransferRequest} {Q : Except TransferError Unit → TransferEngine → Prop}
    (h : Pc (transfer req) Q e) : Pc (submitTransfer [req]) Q e := by
  rw [submitTransfer, submitLoop]
  refine h.call ?_
  intro r e' hpost
  cases r with
  | error err => exact pc_pure.mpr hpost
  | ok u =>
    rw [pc_bind, pc_addChecked]
    exact fun _ => pc_pure.mpr hpost

lemma submitTransfer_write_spec {source id offset : ℕ} (hid : e.segmentCache.lookup id = some target)
    (hdata : e.contents e.localName source n = some data) :
    Pc (submitTransfer [⟨.write, source, id, offset, n⟩]) (fun r e' => Touches e target offset n e' ∧
      (r = .ok () → e'.contents target offset n = some data)) e := by
  have hlen : data.length = n := length_of_readRange ((contents_localName _ _ _).symm.trans hdata)
  refine submitTransfer_one fun r e' hrun => ?_
  simp only [transfer, hid] at hrun
  split_ifs at hrun
  · cases hrun
    exact ⟨Touches.refl .., by simp⟩
  · obtain ⟨data', hdata', hr⟩ := map_eq_some_iff.mp hrun
    rw [← contents_localName, hdata] at hdata'
    cases hdata'
    have hspec : Touches e target offset data.length _ ∧ _ := writeRemote_spec offset data
    rw [hr, hlen] at hspec
    exact hspec

lemma submitTransfer_read_spec {source id offset : ℕ} (hid : e.segmentCache.lookup id = some target) :
    Pc (submitTransfer [⟨.read, source, id, offset, n⟩]) (fun r e' => Touches e e.localName source n e' ∧
      (r = .ok () → ∃ bytes, e.contents target offset n = some bytes ∧
        e'.contents e.localName source n = some bytes)) e := by
  refine submitTransfer_one fun r e' hrun => ?_
  simp only [transfer, hid] at hrun
  split at hrun
  · cases hrun
    exact ⟨Touches.refl .., by simp⟩
  rename_i bytes hbytes
  split_ifs at hrun
  · cases hrun
    exact ⟨Touches.refl .., by simp⟩
  obtain ⟨seg, hcopy, hr⟩ := map_eq_some_iff.mp hrun
  cases hr
  have hwrite := Segment.copyInto_eq_some hcopy
  have hset : ({ e with segment := seg } : TransferEngine) = e.setSegment e.localName seg := (if_pos rfl).symm
  refine ⟨?_, fun _ => ⟨bytes, readRemote_eq_ok hbytes, ?_⟩⟩
  · rw [hset]
    refine touches_setSegment (segmentOf_localName e) fun x n d h hdisj => ?_
    rwa [readRange_of_disjoint hwrite (by rwa [Nat.add_sub_cancel_left])]
  · exact (contents_localName _ _ _).trans (readRange_of_writeRange hwrite)

end TransferEngine

end QuillCache.Transfer
