import QuillCache.Lib.PrefixCode
import QuillCache.Core.Block

/-!
# The two log files

The master's op-log (`op_log.rs`) and the write-ahead log of the SSD tier have the same format: a sequence of
checksummed frames, one record each. Their replay loops differ in what they do with a frame that has the right checksum
but does not parse: the op-log stops, the write-ahead log goes on. The JSON serialiser is a `Codec`.

Both loops read back exactly the records whose frames are complete, and stop before a damaged frame (`replay_exact`).
Both logs are reopened for append without cutting off a torn tail, and what is appended after it is never read again
(`torn_tail_hides_appends`); otherwise every acknowledged record is replayed (`replay_acknowledged`).

Source: `lib.rs`.
-/

namespace QuillCache.Store

open Lib QuillCache.Core Relation List Option

def crcBit (c : UInt32) : UInt32 := if c &&& 1 = 1 then (c >>> 1) ^^^ 0xEDB88320 else c >>> 1

def crcByte (c : UInt32) (b : UInt8) : UInt32 :=
  crcBit (crcBit (crcBit (crcBit (crcBit (crcBit (crcBit (crcBit (c ^^^ b.toUInt32))))))))

/-- The checksum of both logs and of block files. Source: `crc32fast::hash`. -/
def crc32 (bytes : List UInt8) : UInt32 := ~~~(bytes.foldl crcByte 0xFFFFFFFF)

/-- The reader at `pos`: `none` if it would read out of range, `some none` if it stops here, otherwise the
payload that it takes and the position after it. -/
def frameAt (bytes : List UInt8) (pos : ℕ) : Option (Option (List UInt8 × ℕ)) :=
  if pos + 8 ≤ bytes.length then do
    let len ← readRange bytes pos (pos + 4)
    let crc ← readRange bytes (pos + 4) (pos + 8)
    let start := pos + 8
    let stop := start + ofLe len
    if bytes.length < stop then return none
    else
      let payload ← readRange bytes start stop
      if (crc32 payload).toNat ≠ ofLe crc then return none
      else return some (payload, stop)
  else return none

/-! ## The op-log -/

namespace OpLog

variable (codec : Codec OpLogEntry)

def append (file : List UInt8) (entry : OpLogEntry) : List UInt8 :=
  let payload := codec.encode entry
  let crc := crc32 payload
  file ++ (le32 payload.length ++ le32 crc.toNat ++ payload)

/-- The loop of `replay`. An overflow of `start + len` stops the loop as well as a frame that claims more
bytes than there are, so it is not distinguished from it. -/
def replayLoop (bytes : List UInt8) : ℕ → ℕ → List OpLogEntry → Option (List OpLogEntry)
  | 0, _, _ => none
  | fuel + 1, pos, entries => do
    match ← frameAt bytes pos with
    | none => return entries
    | some (payload, stop) =>
      match codec.decode payload with
      | none => return entries
      | some entry => replayLoop bytes fuel stop (entries ++ [entry])

/-- `none` if the loop reads out of range or does not end.
Source: `op_log.rs` `replay`, of the bytes of the file; a missing file has none -/
def replay (bytes : List UInt8) : Option (List OpLogEntry) :=
  replayLoop codec bytes (bytes.length + 1) 0 []

end OpLog

/-! ## The write-ahead log -/

/-- A durable manifest record of the SSD tier. -/
inductive WalRecord where
  | commit (key : KvBlockKey) (fileId len crc : ℕ)
  | remove (key : KvBlockKey)
  deriving DecidableEq

def WalRecord.key : WalRecord → KvBlockKey
  | .commit key _ _ _ => key
  | .remove key => key

namespace Wal

variable (codec : Codec WalRecord)

def append (file : List UInt8) (record : WalRecord) : List UInt8 :=
  let payload := codec.encode record
  let crc := crc32 payload
  file ++ (le32 payload.length ++ le32 crc.toNat ++ payload)

/-- The replay loop of `recover`, with what it does on a record as a parameter.
Source: `LocalKvStore::recover` -/
def replayLoop {σ : Type} (step : σ → WalRecord → σ) (bytes : List UInt8) : ℕ → ℕ → σ → Option σ
  | 0, _, _ => none
  | fuel + 1, offset, live => do
    match ← frameAt bytes offset with
    | none => return live
    | some (payload, stop) =>
      match codec.decode payload with
      | none => replayLoop step bytes fuel stop live
      | some record => replayLoop step bytes fuel stop (step live record)

/-- Replay from the start of the file; `none` if the loop reads out of range or does not end. -/
def replayInto {σ : Type} (step : σ → WalRecord → σ) (bytes : List UInt8) (init : σ) : Option σ :=
  replayLoop codec step bytes (bytes.length + 1) 0 init

def replay (bytes : List UInt8) : Option (List WalRecord) :=
  replayInto codec (fun records record => records ++ [record]) bytes []

end Wal

/-! ## What the loops read -/

section loops

variable {bytes : List UInt8} {pos fuel : ℕ} {ps : List (List UInt8)}

lemma frameAt_eq (hpos : pos ≤ bytes.length) :
    frameAt bytes pos = some ((parseFrame (bytes.drop pos)).bind fun f =>
      if (crc32 f.2).toNat = f.1 then some (f.2, pos + (8 + f.2.length)) else none) := by
  rw [frameAt, parseFrame, length_drop]
  by_cases hhead : pos + 8 ≤ bytes.length
  · have hcrc : readRange bytes (pos + 4) (pos + 8) = some ((bytes.drop (pos + 4)).take 4) :=
      @readRange_of_le _ bytes (pos + 4) 4 (by omega)
    rw [if_pos hhead, readRange_of_le (by omega), hcrc]
    simp only [bind_eq_bind, bind_some, Option.pure_def, drop_drop]
    generalize hlen : ofLe ((bytes.drop pos).take 4) = len
    by_cases hfits : bytes.length < pos + 8 + len
    · rw [if_pos hfits, if_neg (by omega)]
      rfl
    · rw [if_neg hfits, if_pos (by omega), readRange_of_le (by omega)]
      have hpayload : ((bytes.drop (pos + 8)).take len).length = len := by
        simp only [length_take, length_drop]
        omega
      simp only [bind_some, hpayload]
      by_cases hcrc : (crc32 ((bytes.drop (pos + 8)).take len)).toNat =
          ofLe ((bytes.drop (pos + 4)).take 4)
      · rw [if_neg (not_not.mpr hcrc), if_pos hcrc, Nat.add_assoc]
      · rw [if_pos hcrc, if_neg hcrc]
  · rw [if_neg hhead, if_neg (by omega)]
    rfl

lemma frameAt_of_intact (hpos : pos ≤ bytes.length) (h : Intact crc32 (bytes.drop pos) ps) :
    (ps = [] ∧ frameAt bytes pos = some none) ∨
    (∃ p qs, ps = p :: qs ∧ frameAt bytes pos = some (some (p, pos + (8 + p.length))) ∧
      pos + (8 + p.length) ≤ bytes.length ∧ Intact crc32 (bytes.drop (pos + (8 + p.length))) qs) := by
  rw [frameAt_eq hpos]
  cases h with
  | short hparse => exact .inl ⟨rfl, by rw [hparse]; rfl⟩
  | mismatch hparse hcrc => exact .inl ⟨rfl, by rw [hparse, bind_some, if_neg hcrc]⟩
  | frame hparse hrest =>
    have hle := (parseFrame_eq_some hparse).1
    rw [length_drop] at hle
    rw [drop_drop] at hrest
    exact .inr ⟨_, _, rfl, by rw [hparse, bind_some, if_pos rfl], by omega, hrest⟩

/-- The payloads that parse, up to the first that does not. -/
def parsed {E : Type} (codec : Codec E) : List (List UInt8) → List E
  | [] => []
  | p :: ps =>
    match codec.decode p with
    | none => []
    | some e => e :: parsed codec ps

lemma OpLog.replayLoop_eq (codec : Codec OpLogEntry) (hpos : pos ≤ bytes.length)
    (h : Intact crc32 (bytes.drop pos) ps) (hfuel : bytes.length - pos < fuel) (entries : List OpLogEntry) :
    OpLog.replayLoop codec bytes fuel pos entries = some (entries ++ parsed codec ps) := by
  induction fuel generalizing pos ps entries with
  | zero => omega
  | succ fuel ih =>
    rw [OpLog.replayLoop]
    rcases frameAt_of_intact hpos h with ⟨rfl, hstop⟩ | ⟨p, qs, rfl, hframe, hle, hrest⟩
    · simp [hstop, parsed]
    · simp only [hframe, bind_eq_bind, bind_some, parsed]
      cases codec.decode p with
      | none => simp
      | some e =>
        simp only
        rw [ih hle hrest (by omega), append_assoc, singleton_append]

lemma Wal.replayLoop_eq (codec : Codec WalRecord) {σ : Type} (step : σ → WalRecord → σ)
    (hpos : pos ≤ bytes.length) (h : Intact crc32 (bytes.drop pos) ps) (hfuel : bytes.length - pos < fuel)
    (live : σ) :
    Wal.replayLoop codec step bytes fuel pos live = some ((ps.filterMap codec.decode).foldl step live) := by
  induction fuel generalizing pos ps live with
  | zero => omega
  | succ fuel ih =>
    rw [Wal.replayLoop]
    rcases frameAt_of_intact hpos h with ⟨rfl, hstop⟩ | ⟨p, qs, rfl, hframe, hle, hrest⟩
    · simp [hstop]
    · simp only [hframe, bind_eq_bind, bind_some]
      cases hdec : codec.decode p with
      | none =>
        simp only
        rw [ih hle hrest (by omega), filterMap_cons_none hdec]
      | some record =>
        simp only
        rw [ih hle hrest (by omega), filterMap_cons_some hdec, foldl_cons]

lemma OpLog.replay_eq (codec : Codec OpLogEntry) (h : Intact crc32 bytes ps) :
    OpLog.replay codec bytes = some (parsed codec ps) :=
  OpLog.replayLoop_eq codec (Nat.zero_le _) h (by omega) []

lemma Wal.replayInto_eq (codec : Codec WalRecord) {σ : Type} (step : σ → WalRecord → σ)
    (h : Intact crc32 bytes ps) (init : σ) :
    Wal.replayInto codec step bytes init = some ((ps.filterMap codec.decode).foldl step init) :=
  Wal.replayLoop_eq codec step (Nat.zero_le _) h (by omega) init

lemma Wal.replay_eq (codec : Codec WalRecord) (h : Intact crc32 bytes ps) :
    Wal.replay codec bytes = some (ps.filterMap codec.decode) := by
  rw [Wal.replay, Wal.replayInto_eq codec _ h, foldl_append_eq_append,
    nil_append, ← flatMap_def, flatMap_singleton']

end loops

/-! ## Truncated and damaged files -/

section exact

variable {E : Type}

def fileOf (append : List UInt8 → E → List UInt8) (es : List E) : List UInt8 := es.foldl append []

/-- `replay` undoes `append`, on files that were cut or damaged. -/
structure ExactReplay (codec : Codec E) (append : List UInt8 → E → List UInt8)
    (replay : List UInt8 → Option (List E)) : Prop where
  /-- Of a file that was cut at byte `n`, the entries whose frames end at or before `n` are read. -/
  truncated : ∀ es : List E, (∀ e ∈ es, (codec.encode e).length < 2 ^ 32) → ∀ n, ∃ k ≤ es.length,
    (∀ j ≤ es.length, (fileOf append (es.take j)).length ≤ n ↔ j ≤ k) ∧
      replay ((fileOf append es).take n) = some (es.take k)
  /-- If the frame of `e` was altered, and the checksum does not match unless both it and the checked
  payload are the original ones, the entries before `e` are read. -/
  damaged : ∀ (es es' : List E) (e : E) (d : List UInt8),
    (∀ x ∈ es ++ e :: es', (codec.encode x).length < 2 ^ 32) →
    d.length = (append [] e).length → d ≠ append [] e →
    (∀ stored payload, parseFrame (d ++ fileOf append es') = some (stored, payload) →
      payload ≠ codec.encode e ∨ stored ≠ (crc32 (codec.encode e)).toNat → (crc32 payload).toNat ≠ stored) →
    replay (fileOf append es ++ (d ++ fileOf append es')) = some es
  /-- On every byte string the loop ends and reads within its range. -/
  total : ∀ bytes, ∃ es, replay bytes = some es

variable {codec : Codec E} {append : List UInt8 → E → List UInt8} {replay : List UInt8 → Option (List E)}
  {read : List (List UInt8) → List E}

lemma fileOf_eq_log (happend : ∀ file e, append file e = file ++ frame crc32 (codec.encode e)) (es : List E) :
    fileOf append es = log crc32 (es.map codec.encode) := by
  have hfold : ∀ file, es.foldl append file = file ++ log crc32 (es.map codec.encode) := by
    induction es with
    | nil => simp [log]
    | cons e es ih =>
      intro file
      rw [foldl_cons, ih, happend, map_cons, log_cons, append_assoc]
  rw [fileOf, hfold, nil_append]

lemma exactReplay_of_intact (happend : ∀ file e, append file e = file ++ frame crc32 (codec.encode e))
    (hreplay : ∀ bytes ps, Intact crc32 bytes ps → replay bytes = some (read ps))
    (hread : ∀ es, read (es.map codec.encode) = es) : ExactReplay codec append replay := by
  have hfile := fileOf_eq_log happend
  have hpayloads : ∀ es : List E, (∀ e ∈ es, (codec.encode e).length < 2 ^ 32) →
      ∀ p ∈ es.map codec.encode, p.length < 2 ^ 32 := by
    rintro es hes p hp
    obtain ⟨e, he, rfl⟩ := List.mem_map.mp hp
    exact hes e he
  refine ⟨fun es hes n => ?_, fun es es' e d hes hlen hd hdetect => ?_, fun bytes => ?_⟩
  · obtain ⟨k, hk, hiff, hintact⟩ := @Intact.take_log crc32 (es.map codec.encode) (hpayloads es hes) n
    rw [length_map] at hk hiff
    refine ⟨k, hk, fun j hj => ?_, ?_⟩
    · rw [hfile, map_take, hiff j hj]
    · rw [hfile, hreplay _ _ hintact, ← map_take, hread]
  · rw [happend, nil_append] at hlen hd
    have hintact := (Intact.altered hlen hd hdetect).log_append
      (hpayloads es fun x hx => hes x (mem_append_left _ hx))
    rw [hfile es, hreplay _ _ hintact, append_nil, hread]
  · obtain ⟨ps, hps⟩ := exists_intact crc32 bytes
    exact ⟨read ps, hreplay bytes ps hps⟩

lemma parsed_encode (codec : Codec E) (es : List E) : parsed codec (es.map codec.encode) = es := by
  induction es with
  | nil => rfl
  | cons e es ih => rw [map_cons, parsed, codec.decode_encode, ih]

lemma filterMap_encode (codec : Codec E) (es : List E) :
    (es.map codec.encode).filterMap codec.decode = es := by
  rw [filterMap_map, show codec.decode ∘ codec.encode = some from funext codec.decode_encode,
    filterMap_some]

end exact

/-- **Replay is exact**: both logs read back the entries whose frames are complete, stop before a damaged
frame, and read every byte string to an end. -/
theorem replay_exact (entries : Codec OpLogEntry) (records : Codec WalRecord) :
    ExactReplay entries (OpLog.append entries) (OpLog.replay entries) ∧
      ExactReplay records (Wal.append records) (Wal.replay records) :=
  ⟨exactReplay_of_intact (fun _ _ => rfl) (fun _ _ h => OpLog.replay_eq entries h) (parsed_encode entries),
    exactReplay_of_intact (fun _ _ => rfl) (fun _ _ h => Wal.replay_eq records h) (filterMap_encode records)⟩

/-! ## Crashes while appending -/

/-- A log file on disk, the entries whose append was acknowledged, and whether a crash has left part of a
frame behind. -/
structure LogFile (E : Type) where
  bytes : List UInt8
  acked : List E
  torn : Bool

namespace LogFile

variable {E : Type}

def new : LogFile E := ⟨[], [], false⟩

/-- An append that is acknowledged, or one that is interrupted by a crash after `k` bytes of the frame,
upon which the file is opened for append again: that keeps its bytes as they are. -/
inductive Step (append : List UInt8 → E → List UInt8) (allowed : LogFile E → E → Prop) :
    LogFile E → LogFile E → Prop where
  | append {f : LogFile E} (e : E) (h : allowed f e) :
      Step append allowed f ⟨append f.bytes e, f.acked ++ [e], f.torn⟩
  | crash {f : LogFile E} (e : E) (h : allowed f e) (k : ℕ) (hk : k < (append [] e).length) :
      Step append allowed f ⟨f.bytes ++ (append [] e).take k, f.acked, f.torn || decide (0 < k)⟩

/-- No crash has left part of a frame behind, and the entry fits into a frame. -/
def whole (codec : Codec E) (f : LogFile E) (e : E) : Prop :=
  f.torn = false ∧ (codec.encode e).length < 2 ^ 32

/-- The intact frames of the file are those of the acknowledged entries, and unless it is torn it has no
other bytes. -/
structure Inv (codec : Codec E) (f : LogFile E) : Prop where
  fits : ∀ e ∈ f.acked, (codec.encode e).length < 2 ^ 32
  intact : Intact crc32 f.bytes (f.acked.map codec.encode)
  bytes_eq : f.torn = false → f.bytes = log crc32 (f.acked.map codec.encode)

section

variable {codec : Codec E} {append : List UInt8 → E → List UInt8} {f f' : LogFile E}

lemma Inv.step (happend : ∀ file e, append file e = file ++ frame crc32 (codec.encode e)) (hi : Inv codec f)
    (h : Step append (whole codec) f f') : Inv codec f' := by
  have hpayloads : ∀ p ∈ f.acked.map codec.encode, p.length < 2 ^ 32 := by
    intro p hp
    obtain ⟨e, he, rfl⟩ := List.mem_map.mp hp
    exact hi.fits e he
  cases h with
  | append e hwhole =>
    obtain ⟨htorn, hfits⟩ := hwhole
    have hbytes : append f.bytes e = log crc32 ((f.acked ++ [e]).map codec.encode) := by
      rw [happend, hi.bytes_eq htorn, map_append, log_append, map_singleton, log_cons]
      simp [log]
    have hacked : ∀ x ∈ f.acked ++ [e], (codec.encode x).length < 2 ^ 32 := by
      intro x hx
      rcases mem_append.mp hx with hx | hx
      · exact hi.fits x hx
      · rw [mem_singleton.mp hx]
        exact hfits
    refine ⟨hacked, hbytes ▸ intact_log fun p hp => ?_, fun _ => hbytes⟩
    obtain ⟨x, hx, rfl⟩ := List.mem_map.mp hp
    exact hacked x hx
  | crash e hwhole k hk =>
    obtain ⟨htorn, hfits⟩ := hwhole
    rw [happend, nil_append] at hk
    refine ⟨hi.fits, ?_, fun hclean => ?_⟩
    · have hintact := (Intact.torn hfits hk).log_append hpayloads
      rw [append_nil, ← hi.bytes_eq htorn] at hintact
      simpa only [happend, nil_append] using hintact
    · have hzero : k = 0 := by
        simpa [htorn] using hclean
      rw [hzero, take_zero, append_nil, hi.bytes_eq htorn]

lemma inv_reachable (happend : ∀ file e, append file e = file ++ frame crc32 (codec.encode e))
    (hrun : ReflTransGen (Step append (whole codec)) new f) : Inv codec f := by
  induction hrun with
  | refl => exact ⟨fun _ h => absurd h not_mem_nil, .nil, fun _ => rfl⟩
  | tail _ hstep ih => exact ih.step happend hstep

end

end LogFile

/-- **Acknowledged records survive**, if no append follows a crash that left part of a frame behind: in
every such run, on both logs, replay returns exactly the acknowledged records in order. -/
theorem replay_acknowledged (entries : Codec OpLogEntry) (records : Codec WalRecord) :
    (∀ f, ReflTransGen (LogFile.Step (OpLog.append entries) (LogFile.whole entries)) .new f →
      OpLog.replay entries f.bytes = some f.acked) ∧
    (∀ f, ReflTransGen (LogFile.Step (Wal.append records) (LogFile.whole records)) .new f →
      Wal.replay records f.bytes = some f.acked) := by
  refine ⟨fun f hrun => ?_, fun f hrun => ?_⟩
  · have hi := @LogFile.inv_reachable _ entries _ _ (fun _ _ => rfl) hrun
    rw [OpLog.replay_eq entries hi.intact, parsed_encode]
  · have hi := @LogFile.inv_reachable _ records _ _ (fun _ _ => rfl) hrun
    rw [Wal.replay_eq records hi.intact, filterMap_encode]

/-! ## A torn tail -/

section codes

open PrefixCode

def IdentityScope.code : PrefixCode IdentityScope :=
  (string.pair (string.pair (string.option.pair string))).iso
    (fun x => ⟨x.1, x.2.1, x.2.2.1, x.2.2.2⟩)
    (fun i => (i.modelId, i.tokenizerId, i.adapterId, i.tenantId)) fun _ => rfl

def ReplicaStatus.code : PrefixCode ReplicaStatus :=
  nat.iso ReplicaStatus.ofNat ReplicaStatus.ctorIdx fun s => by cases s <;> rfl

def ReplicaData.code : PrefixCode ReplicaData :=
  ((string.pair (nat.pair nat)).sum (string.pair nat)).iso
    (fun
      | .inl x => .memory ⟨x.1, x.2.1, x.2.2⟩
      | .inr x => .disk x.1 x.2)
    (fun
      | .memory b => .inl (b.segmentName, b.offset, b.size)
      | .disk path n => .inr (path, n)) fun d => by cases d <;> rfl

def Replica.code : PrefixCode Replica :=
  (nat.pair (ReplicaStatus.code.pair (nat.pair ReplicaData.code))).iso
    (fun x => ⟨x.1, x.2.1, x.2.2.1, x.2.2.2⟩) (fun r => (r.id, r.status, r.refCount, r.data)) fun _ => rfl

def OpLogEntry.code : PrefixCode OpLogEntry :=
  ((string.pair nat).sum (string.sum
    ((string.pair (IdentityScope.code.pair (Replica.code.list.pair (bool.pair bool)))).sum string))).iso
    (fun
      | .inl x => .segmentMounted x.1 x.2
      | .inr (.inl x) => .segmentUnmounted x
      | .inr (.inr (.inl x)) => .putCommitted x.1 x.2.1 x.2.2.1 x.2.2.2.1 x.2.2.2.2
      | .inr (.inr (.inr x)) => .removed x)
    (fun
      | .segmentMounted name capacity => .inl (name, capacity)
      | .segmentUnmounted name => .inr (.inl name)
      | .putCommitted key identity replicas soft hard => .inr (.inr (.inl (key, identity, replicas, soft, hard)))
      | .removed key => .inr (.inr (.inr key))) fun e => by cases e <;> rfl

def blockKeyCode : PrefixCode KvBlockKey :=
  (IdentityScope.code.pair (string.pair (string.pair (nat.pair nat)))).iso
    (fun x => ⟨x.1.modelId, x.1.tokenizerId, x.1.adapterId, x.1.tenantId, x.2.1, x.2.2.1, x.2.2.2.1, x.2.2.2.2⟩)
    (fun k => (IdentityScope.fromKey k, k.prefixHash, k.blockHash, k.blockIndex, k.tokenCount)) fun _ => rfl

def WalRecord.code : PrefixCode WalRecord :=
  ((blockKeyCode.pair (nat.pair (nat.pair nat))).sum blockKeyCode).iso
    (fun
      | .inl x => .commit x.1 x.2.1 x.2.2.1 x.2.2.2
      | .inr x => .remove x)
    (fun
      | .commit key fileId len crc => .inl (key, fileId, len, crc)
      | .remove key => .inr key) fun r => by cases r <;> rfl

def entryCodec : Codec OpLogEntry := OpLogEntry.code.toCodec

def recordCodec : Codec WalRecord := WalRecord.code.toCodec

end codes

def blockKey (hash : String) : KvBlockKey := ⟨"m", "t", none, "u", "", hash, 0, 0⟩

def flipped : List UInt8 := (OpLog.append entryCodec [] (.removed "")).dropLast ++ [7]

theorem replay_exact_flipped : OpLog.replay entryCodec flipped = some [] := by
  have hexact := (replay_exact entryCodec recordCodec).1
  have hfields : parseFrame flipped = some ((crc32 (entryCodec.encode (.removed ""))).toNat, flipped.drop 8) := by
    decide +kernel
  have hbad : (crc32 (flipped.drop 8)).toNat ≠ (crc32 (entryCodec.encode (.removed ""))).toNat := by
    decide +kernel
  have hread := hexact.damaged [] [] (.removed "") flipped
    (fun e he => by
      rw [mem_singleton.mp he]
      decide +kernel)
    (by decide +kernel) (by decide +kernel)
    (fun stored payload hparse _ => by
      rw [fileOf, foldl_nil, append_nil, hfields] at hparse
      cases hparse
      exact hbad)
  simpa [fileOf] using hread

/-- A crash after the header of the second record: the first one is replayed. -/
theorem replay_acknowledged_cut :
    OpLog.replay entryCodec (OpLog.append entryCodec [] (.removed "") ++
      (OpLog.append entryCodec [] (.segmentUnmounted "")).take 8) = some [.removed ""] := by
  have hfirst : LogFile.Step (OpLog.append entryCodec) (LogFile.whole entryCodec) .new
      ⟨OpLog.append entryCodec [] (.removed ""), [.removed ""], false⟩ :=
    LogFile.Step.append (OpLogEntry.removed "") ⟨rfl, by decide +kernel⟩
  have hcut : LogFile.Step (OpLog.append entryCodec) (LogFile.whole entryCodec)
      ⟨OpLog.append entryCodec [] (.removed ""), [.removed ""], false⟩
      ⟨OpLog.append entryCodec [] (.removed "") ++ (OpLog.append entryCodec [] (.segmentUnmounted "")).take 8,
        [.removed ""], true⟩ :=
    LogFile.Step.crash (OpLogEntry.segmentUnmounted "") ⟨rfl, by decide +kernel⟩ 8 (by decide +kernel)
  have hreplay := (replay_acknowledged entryCodec recordCodec).1 _
    ((ReflTransGen.single hfirst).tail hcut)
  exact hreplay

/-- A crash while a long record is appended leaves its header behind. The log is opened for append again,
and the next append is acknowledged; but the reader takes the header as that of a frame with more bytes
than there are, and stops before the acknowledged record. This happens to both logs. -/
theorem torn_tail_hides_appends :
    (∃ f, ReflTransGen (LogFile.Step (OpLog.append entryCodec) fun _ _ => True) .new f ∧
      f.acked = [.removed ""] ∧ OpLog.replay entryCodec f.bytes = some []) ∧
    (∃ f, ReflTransGen (LogFile.Step (Wal.append recordCodec) fun _ _ => True) .new f ∧
      f.acked = [.remove (blockKey "")] ∧ Wal.replay recordCodec f.bytes = some []) := by
  constructor
  · refine ⟨_, (ReflTransGen.single
      (.crash (.segmentMounted "segment" 1024) trivial 8 (by decide +kernel))).tail
      (.append (.removed "") trivial), rfl, ?_⟩
    decide +kernel
  · refine ⟨_, (ReflTransGen.single
      (.crash (.commit (blockKey "block") 1 1024 0) trivial 8 (by decide +kernel))).tail
      (.append (.remove (blockKey "")) trivial), rfl, ?_⟩
    decide +kernel

end QuillCache.Store
