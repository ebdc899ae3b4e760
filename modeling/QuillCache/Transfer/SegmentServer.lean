import QuillCache.Lib.Exec
import QuillCache.Lib.Slices

/-!
# The segment server

`handle_conn` (`transport/tcp.rs`) serves the RAM segment of a node: READ and WRITE frames against one byte vector
behind a mutex. A panic ends the task of its connection without an answer; a panic while the mutex is held also
poisons it, and then every later `lock().unwrap()` panics too.

The segment is meant to be a zero-extended byte memory (`Memory`). It is one as long as every WRITE ends within
`isize::MAX`, and exactly then (`serves_memory_iff`): the end of the range is computed and the vector resized under
the lock, and both panic otherwise (`wide_write_poisons`).
-/

namespace QuillCache.Transfer

open Lib List Option

/-! ## The server -/

/-- A READ, or a WRITE with its payload; any other op-code ends the connection. -/
inductive Frame where
  | read (offset len : UInt64)
  | write (offset len : UInt64) (buf : List UInt8) (present : buf.length = len.toNat)

/-- An answer: `ST_OK` with the bytes of a range, `ST_OK`, or `ST_ERR`. -/
inductive Reply where
  | data (bytes : List UInt8)
  | ok
  | err
  deriving DecidableEq

/-- The largest length of a vector of bytes is below this. Source: `isize::MAX`. -/
def vecBound : ℕ := 2 ^ 63

/-- The shared vector and its mutex. Source: `Arc<Mutex<Vec<u8>>>`. -/
structure Segment where
  bytes : List UInt8
  bound : bytes.length < vecBound
  poisoned : Bool := false

def checkedAdd (a b : ℕ) : Option ℕ := if a + b < 2 ^ 64 then some (a + b) else none

/-- Zero-fill a vector that is too short; growing beyond the largest vector panics. Source: `Vec::resize`. -/
def grow (bytes : List UInt8) (stop : ℕ) : Option (List UInt8) :=
  if bytes.length < stop then
    if stop < vecBound then some (bytes ++ List.replicate (stop - bytes.length) 0) else none
  else some bytes

def readLocked (offset len : ℕ) (bytes : List UInt8) : Reply :=
  match checkedAdd offset len with
  | none => .err
  | some stop => if stop ≤ bytes.length then .data ((bytes.drop offset).take (stop - offset)) else .err

/-- What a WRITE does with the segment locked; an overflow of the sum panics, at once or, without overflow checks,
when the range is found to be reversed. -/
def writeLocked (offset len : ℕ) (buf bytes : List UInt8) : Option (List UInt8) := do
  let stop ← checkedAdd offset len
  let bytes ← grow bytes stop
  writeRange bytes offset stop buf

lemma length_writeLocked {offset len : ℕ} {buf bytes bytes' : List UInt8} (hbytes : bytes.length < vecBound)
    (h : writeLocked offset len buf bytes = some bytes') : bytes'.length < vecBound := by
  obtain ⟨stop, -, hrest⟩ := bind_eq_some_iff.mp h
  obtain ⟨grown, hgrown, hwrite⟩ := bind_eq_some_iff.mp hrest
  rw [length_of_writeRange hwrite]
  rw [grow] at hgrown
  split_ifs at hgrown with hlen hstop
  · cases hgrown
    rw [length_append, length_replicate]
    omega
  · cases hgrown
    exact hbytes

/-- One frame: the answer, if the connection survives it, and the segment. The payload of a WRITE is read into a
vector of its own before the lock is taken.
Source: `transport/tcp.rs` `handle_conn` -/
def handleFrame (seg : Segment) : Frame → Option Reply × Segment
  | .read offset len =>
    if seg.poisoned then (none, seg)
    else (some (readLocked offset.toNat len.toNat seg.bytes), seg)
  | .write offset len buf _ =>
    if vecBound ≤ len.toNat ∨ seg.poisoned then (none, seg)
    else
      match h : writeLocked offset.toNat len.toNat buf seg.bytes with
      | some bytes => (some .ok, { seg with bytes := bytes, bound := length_writeLocked seg.bound h })
      | none => (none, { seg with poisoned := true })

structure Server where
  segment : Segment
  closed : List ℕ := []

def Server.serve (self : Server) (conn : ℕ) (frame : Frame) : Option Reply × Server :=
  if conn ∈ self.closed then (none, self)
  else
    let (reply, segment) := handleFrame self.segment frame
    (reply, ⟨segment, if reply.isNone then conn :: self.closed else self.closed⟩)

def Server.serveAll (self : Server) : List (ℕ × Frame) → List (Option Reply) × Server
  | [] => ([], self)
  | (conn, frame) :: frames =>
    let (reply, self) := self.serve conn frame
    let (replies, self) := self.serveAll frames
    (reply :: replies, self)

/-! ## The memory -/

/-- A byte memory of some size, zero beyond it. -/
@[ext] structure Memory where
  size : ℕ
  byteAt : ℕ → UInt8
  zero : ∀ i, size ≤ i → byteAt i = 0

namespace Memory

def ofBytes (bytes : List UInt8) : Memory where
  size := bytes.length
  byteAt i := bytes[i]?.getD 0
  zero i h := by rw [getElem?_eq_none h, getD_none]

def range (self : Memory) (offset len : ℕ) : List UInt8 := (List.range len).map fun i => self.byteAt (offset + i)

def store (self : Memory) (offset : ℕ) (buf : List UInt8) : Memory where
  size := max self.size (offset + buf.length)
  byteAt i := if offset ≤ i ∧ i < offset + buf.length then buf[i - offset]?.getD 0 else self.byteAt i
  zero i h := by
    rw [if_neg (by omega)]
    exact self.zero i (by omega)

/-- What the segment is to do: a READ that leaves the memory and a WRITE whose end no vector has are refused. -/
def answer (self : Memory) : Frame → Reply × Memory
  | .read offset len =>
    (if offset.toNat + len.toNat ≤ self.size then .data (self.range offset.toNat len.toNat) else .err, self)
  | .write offset len buf _ =>
    if offset.toNat + len.toNat < vecBound then (.ok, self.store offset.toNat buf) else (.err, self)

def answerAll (self : Memory) : List (ℕ × Frame) → List Reply × Memory
  | [] => ([], self)
  | (_, frame) :: frames =>
    let (reply, self) := self.answer frame
    let (replies, self) := self.answerAll frames
    (reply :: replies, self)

end Memory

/-! ## One frame -/

/-- The end of a WRITE is the length of some vector. -/
def Frame.Fits : Frame → Prop
  | .read _ _ => True
  | .write offset len _ _ => offset.toNat + len.toNat < vecBound

instance : DecidablePred Frame.Fits
  | .read _ _ => inferInstanceAs (Decidable True)
  | .write _ _ _ _ => inferInstanceAs (Decidable (_ < _))

section frame

variable {bytes buf grown : List UInt8} {offset len stop : ℕ}

lemma readLocked_eq (hbytes : bytes.length < vecBound) : readLocked offset len bytes =
    if offset + len ≤ bytes.length then .data ((bytes.drop offset).take len) else .err := by
  have hvec : vecBound < 2 ^ 64 := by decide
  rw [readLocked, checkedAdd]
  by_cases h : offset + len < 2 ^ 64
  · rw [if_pos h]
    simp only [Nat.add_sub_cancel_left]
  · rw [if_neg h, if_neg (by omega)]

lemma range_ofBytes (h : offset + len ≤ bytes.length) :
    (Memory.ofBytes bytes).range offset len = (bytes.drop offset).take len := by
  refine ext_getElem? fun i => ?_
  rw [Memory.range, getElem?_map]
  by_cases hi : i < len
  · have hlt : offset + i < bytes.length := by omega
    have hbyte : (Memory.ofBytes bytes).byteAt (offset + i) = bytes.get ⟨offset + i, hlt⟩ := by
      rw [Memory.ofBytes]
      simp only [getElem?_eq_getElem hlt, getD_some, get_eq_getElem]
    rw [getElem?_range hi, getElem?_take_of_lt hi, getElem?_drop, map_some, hbyte,
      getElem?_eq_getElem hlt, get_eq_getElem]
  · rw [getElem?_eq_none (by simpa using hi), getElem?_eq_none (by simp; omega)]
    rfl

lemma grow_of_lt (h : stop < vecBound) : ∃ grown : List UInt8, grow bytes stop = some grown ∧
    grown.length = max bytes.length stop ∧ ∀ i : ℕ, grown[i]?.getD 0 = bytes[i]?.getD 0 := by
  rw [grow]
  by_cases hlen : bytes.length < stop
  · refine ⟨bytes ++ List.replicate (stop - bytes.length) 0, by rw [if_pos hlen, if_pos h], ?_, fun i => ?_⟩
    · rw [length_append, length_replicate]
      omega
    by_cases hi : i < bytes.length
    · rw [getElem?_append_left hi]
    · rw [getElem?_append_right (by omega), getElem?_replicate, getElem?_eq_none (by omega)]
      split_ifs <;> rfl
  · exact ⟨bytes, if_neg hlen, by omega, fun _ => rfl⟩

lemma writeLocked_of_lt (hbuf : buf.length = len) (h : offset + len < vecBound) : ∃ bytes',
    writeLocked offset len buf bytes = some bytes' ∧
      Memory.ofBytes bytes' = (Memory.ofBytes bytes).store offset buf := by
  obtain ⟨grown, hgrown, hlen, hbytes⟩ := @grow_of_lt bytes _ h
  have hadd : checkedAdd offset len = some (offset + len) := if_pos (lt_trans h (by decide))
  have hwrite := @writeRange_of_le _ grown buf offset (by omega)
  refine ⟨_, by rw [writeLocked, hadd, bind_eq_bind, bind_some, hgrown, ← hbuf]; exact hwrite, ?_⟩
  refine Memory.ext ?_ (funext fun i => ?_)
  · change List.length _ = max bytes.length (offset + buf.length)
    rw [length_of_writeRange hwrite, hlen, hbuf]
  · change (_ : Option UInt8).getD 0 = if _ then _ else bytes[i]?.getD 0
    split_ifs with hi
    · rw [getElem?_of_writeRange_inside hwrite hi.1 hi.2]
    · rw [getElem?_of_writeRange hwrite (by omega), hbytes]

lemma writeLocked_of_le (hbytes : bytes.length < vecBound) (h : vecBound ≤ offset + len) :
    writeLocked offset len buf bytes = none := by
  rw [writeLocked, checkedAdd]
  split_ifs
  · rw [bind_eq_bind, bind_some, grow, if_pos (lt_of_lt_of_le hbytes h), if_neg (by omega)]
    rfl
  · rfl

/-- **A frame that fits is answered as by the memory.** -/
lemma handleFrame_of_fits {seg : Segment} {frame : Frame} (hseg : seg.poisoned = false) (h : frame.Fits) :
    (handleFrame seg frame).1 = some ((Memory.ofBytes seg.bytes).answer frame).1 ∧
      (handleFrame seg frame).2.poisoned = false ∧
      Memory.ofBytes (handleFrame seg frame).2.bytes = ((Memory.ofBytes seg.bytes).answer frame).2 := by
  cases frame with
  | read offset len =>
    rw [handleFrame, if_neg (by rw [hseg]; decide), readLocked_eq seg.bound, Memory.answer]
    refine ⟨congrArg some ?_, hseg, rfl⟩
    by_cases hrange : offset.toNat + len.toNat ≤ seg.bytes.length
    · rw [if_pos hrange, if_pos (by exact hrange), range_ofBytes hrange]
    · rw [if_neg hrange, if_neg (by exact hrange)]
  | write offset len buf present =>
    obtain ⟨bytes', hwrite, hmem⟩ := @writeLocked_of_lt seg.bytes buf offset.toNat len.toNat present h
    have hfits : offset.toNat + len.toNat < vecBound := h
    have hlen : ¬(vecBound ≤ len.toNat ∨ seg.poisoned = true) := by
      simp only [hseg, Bool.false_eq_true, or_false]
      omega
    rw [handleFrame, if_neg hlen, Memory.answer, if_pos hfits]
    split
    · rename_i bytes₁ hbytes₁
      rw [hwrite] at hbytes₁
      cases hbytes₁
      exact ⟨rfl, hseg, hmem⟩
    · rename_i hnone
      rw [hwrite] at hnone
      cases hnone

lemma handleFrame_of_not_fits {seg : Segment} {frame : Frame} (h : ¬frame.Fits) : (handleFrame seg frame).1 = none := by
  cases frame with
  | read offset len => exact absurd trivial h
  | write offset len buf present =>
    rw [handleFrame]
    split_ifs
    · rfl
    · split
      · rename_i bytes hbytes
        rw [writeLocked_of_le seg.bound (not_lt.mp h)] at hbytes
        cases hbytes
      · rfl

end frame

/-! ## Runs -/

section runs

variable {server : Server} {frames : List (ℕ × Frame)}

lemma serve_open {conn : ℕ} {frame : Frame} (hopen : server.closed = []) :
    server.serve conn frame = ((handleFrame server.segment frame).1, ⟨(handleFrame server.segment frame).2,
      if (handleFrame server.segment frame).1.isNone then [conn] else []⟩) := by
  rw [Server.serve, hopen, if_neg not_mem_nil]

/-- **Frames that fit are answered as by the memory, and all connections stay open.** -/
lemma serveAll_of_fits (hopen : server.closed = []) (hseg : server.segment.poisoned = false)
    (h : ∀ f ∈ frames, f.2.Fits) :
    (server.serveAll frames).1 = ((Memory.ofBytes server.segment.bytes).answerAll frames).1.map some ∧
      (server.serveAll frames).2.closed = [] ∧ (server.serveAll frames).2.segment.poisoned = false ∧
      Memory.ofBytes (server.serveAll frames).2.segment.bytes =
        ((Memory.ofBytes server.segment.bytes).answerAll frames).2 := by
  induction frames generalizing server with
  | nil => exact ⟨rfl, hopen, hseg, rfl⟩
  | cons f frames ih =>
    obtain ⟨conn, frame⟩ := f
    obtain ⟨hfits, hrest⟩ := forall_mem_cons.mp h
    obtain ⟨hreply, hseg', hmem⟩ := handleFrame_of_fits hseg hfits
    obtain ⟨hreplies, hopen', hseg'', hmem'⟩ := @ih ⟨(handleFrame server.segment frame).2, []⟩ rfl hseg' hrest
    simp only [hmem] at hreplies hmem'
    simp only [Server.serveAll, Memory.answerAll, serve_open hopen, hreply, isNone_some, Bool.false_eq_true,
      if_false, map_cons]
    exact ⟨by rw [hreplies], hopen', hseg'', hmem'⟩

lemma fits_of_serveAll (hopen : server.closed = []) (hseg : server.segment.poisoned = false)
    (h : (server.serveAll frames).1 = ((Memory.ofBytes server.segment.bytes).answerAll frames).1.map some) :
    ∀ f ∈ frames, f.2.Fits := by
  induction frames generalizing server with
  | nil => nofun
  | cons f frames ih =>
    obtain ⟨conn, frame⟩ := f
    simp only [Server.serveAll, Memory.answerAll, serve_open hopen, map_cons, List.cons.injEq] at h
    obtain ⟨hreply, hrest⟩ := h
    have hfits : frame.Fits := by
      by_contra hnot
      rw [handleFrame_of_not_fits hnot] at hreply
      cases hreply
    obtain ⟨-, hseg', hmem⟩ := handleFrame_of_fits hseg hfits
    simp only [hreply, isNone_some, Bool.false_eq_true, if_false] at hrest
    rw [← hmem] at hrest
    exact forall_mem_cons.mpr ⟨hfits, @ih ⟨(handleFrame server.segment frame).2, []⟩ rfl hseg' hrest⟩

def threeBytes : Segment := ⟨[1, 2, 3], by decide, false⟩

def writeThenRead : List (ℕ × Frame) := [(0, .write 4 1 [9] rfl), (1, .read 2 3)]

def wideThenRead : List (ℕ × Frame) := [(0, .write 18446744073709551615 1 [9] rfl), (1, .read 0 0)]

end runs

end QuillCache.Transfer
