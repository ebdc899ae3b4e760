import QuillCache.Core.Chains

/-!
# What the gateway makes of a request

`request_shape_from_payload`: the identity and the blocks of a request are read off its JSON body. The
identity comes from the body's model and, for the other three fields, from the `quillcache` hints; the blocks come
from the hints, with an identity of their own, or from the text of the prompt, without an adapter.

So blocks and request need not agree. They do unless the hints name another model, or an adapter without block hashes
(`blocks_of_shape_iff`).

Source: `gateway.rs`.
-/

namespace QuillCache.Gateway

open Store QuillCache.Core List Option

/-! ## JSON values -/

/-- Source: `serde_json::Number`. The fraction of a `float` plays no role. -/
inductive Number where
  | posInt (n : ℕ)
  | negInt (n : ℤ)
  | float (x : ℚ)

/-- The fields of an object have distinct names; of two with the same name the first one counts. -/
inductive Value where
  | null
  | bool (b : Bool)
  | number (n : Number)
  | string (s : String)
  | array (items : List Value)
  | object (fields : List (String × Value))

namespace Value

def get (name : String) : Value → Option Value
  | object fields => fields.lookup name
  | _ => none

def asStr : Value → Option String
  | string s => some s
  | _ => none

def asU64 : Value → Option ℕ
  | number (.posInt n) => some n
  | _ => none

def asArray : Value → Option (List Value)
  | array items => some items
  | _ => none

/-- The value without a field, and what the field had. Source: `as_object_mut`, `Map::remove`. -/
def remove (name : String) : Value → Option Value × Value
  | object fields => (fields.lookup name, object (fields.filter fun f => f.1 ≠ name))
  | v => (none, v)

end Value

/-! ## Reading the hints -/

section decode

def decodeString : Value → Option String := Value.asStr

/-- Source: `Deserialize` for the unsigned integers of a width. -/
def decodeUInt (width : ℕ) : Value → Option ℕ
  | .number (.posInt n) => if n < 2 ^ width then some n else none
  | _ => none

def decodeVec {α : Type} (decode : Value → Option α) : Value → Option (List α)
  | .array items => items.mapM decode
  | _ => none

def decodeOption {α : Type} (decode : Value → Option α) : Value → Option (Option α)
  | .null => some none
  | v => (decode v).map some

def optionalField {α : Type} (decode : Value → Option α) : Option Value → Option (Option α)
  | none => some none
  | some v => decodeOption decode v

/-- The hints are an object, whose unknown fields are ignored, or an array of all ten fields.
Source: derived `Deserialize for RequestKvHints` -/
def decodeHints : Value → Option RequestKvHints
  | .object fields => do
    let requestId ← optionalField decodeString (fields.lookup "request_id")
    let modelId ← optionalField decodeString (fields.lookup "model_id")
    let tokenizerId ← optionalField decodeString (fields.lookup "tokenizer_id")
    let adapterId ← optionalField decodeString (fields.lookup "adapter_id")
    let tenantId ← optionalField decodeString (fields.lookup "tenant_id")
    let sessionId ← optionalField decodeString (fields.lookup "session_id")
    let blockHashes ← (fields.lookup "block_hashes").bind (decodeVec decodeString)
    let blockTokens ← optionalField (decodeUInt 32) (fields.lookup "block_tokens")
    let estimatedDecodeTokens ← optionalField (decodeUInt 32) (fields.lookup "estimated_decode_tokens")
    let blockBytes ← optionalField (decodeUInt 64) (fields.lookup "block_bytes")
    return { requestId, modelId, tokenizerId, adapterId, tenantId, sessionId, blockHashes, blockTokens,
             estimatedDecodeTokens, blockBytes }
  | .array [requestId, modelId, tokenizerId, adapterId, tenantId, sessionId, blockHashes, blockTokens,
      estimatedDecodeTokens, blockBytes] => do
      let requestId ← decodeOption decodeString requestId
      let modelId ← decodeOption decodeString modelId
      let tokenizerId ← decodeOption decodeString tokenizerId
      let adapterId ← decodeOption decodeString adapterId
      let tenantId ← decodeOption decodeString tenantId
      let sessionId ← decodeOption decodeString sessionId
      let blockHashes ← decodeVec decodeString blockHashes
      let blockTokens ← decodeOption (decodeUInt 32) blockTokens
      let estimatedDecodeTokens ← decodeOption (decodeUInt 32) estimatedDecodeTokens
      let blockBytes ← decodeOption (decodeUInt 64) blockBytes
      return { requestId, modelId, tokenizerId, adapterId, tenantId, sessionId, blockHashes, blockTokens,
               estimatedDecodeTokens, blockBytes }
  | _ => none

end decode

/-! ## Blocks from the prompt -/

/-- What the gateway gets from the standard library: how a value is written, what a string hashes to, and the time. -/
structure Host where
  toText : Value → String
  siphash : String → UInt64
  nanos : ℕ

def fallbackBlockChars : ℕ := 256

def fallbackMaxBlocks : ℕ := 64

def messageText (text : String) (message : Value) : String :=
  let text := match (message.get "role").bind Value.asStr with
    | some role => text ++ role ++ ":"
    | none => text
  match (message.get "content").bind Value.asStr with
    | some content => text ++ content ++ "\n"
    | none => text

def promptText (host : Host) (payload : Value) : String :=
  match (payload.get "messages").bind Value.asArray with
  | some messages => messages.foldl messageText ""
  | none =>
    match (payload.get "prompt").bind Value.asStr with
    | some text => text
    | none => host.toText payload

def pfxHash (host : Host) (text : String) : String :=
  "pfx-" ++ String.ofList (List.leftpad 16 '0' (Nat.toDigits 16 (host.siphash text).toNat))

def fallbackLoop (host : Host) (modelId tokenizerId tenantId : String) (chars : List Char) :
    ℕ → ℕ → ℕ → String → List KvBlockKey
  | 0, _, _, _ => []
  | room + 1, start, idx, parent =>
    if start < chars.length then
      let stop := min (start + fallbackBlockChars) chars.length
      let blockHash := pfxHash host (String.ofList (chars.take stop))
      { modelId, tokenizerId, adapterId := none, tenantId, prefixHash := parent, blockHash, blockIndex := idx
        tokenCount := max ((stop - start + 3) / 4) 1 } ::
        fallbackLoop host modelId tokenizerId tenantId chars room stop (idx + 1) blockHash
    else []

def fallbackBlocks (host : Host) (payload : Value) (modelId tokenizerId tenantId : String) : List KvBlockKey :=
  let chars := (promptText host payload).toList
  if chars.isEmpty then
    [{ modelId, tokenizerId, adapterId := none, tenantId, prefixHash := "root"
       blockHash := pfxHash host (host.toText payload), blockIndex := 0, tokenCount := 64 }]
  else fallbackLoop host modelId tokenizerId tenantId chars fallbackMaxBlocks 0 0 "root"

/-! ## The shape -/

def hintsOf (payload : Value) : Option RequestKvHints := (payload.remove "quillcache").1.bind decodeHints

def modelOf (payload : Value) : String := ((payload.get "model").bind Value.asStr).getD "unknown-model"

/-- The shape, and the body that is forwarded. -/
def requestShapeFromPayload (host : Host) (payload : Value) : RequestShape × Value :=
  let hints := hintsOf payload
  let payload := (payload.remove "quillcache").2
  let modelId := modelOf payload
  let tokenizerId := (hints.bind RequestKvHints.tokenizerId).getD modelId
  let tenantId := (hints.bind RequestKvHints.tenantId).getD "default"
  let estimatedDecodeTokens := ((hints.bind RequestKvHints.estimatedDecodeTokens).or
    (((payload.get "max_tokens").bind Value.asU64).map fun v => v % 2 ^ 32)).getD 128
  let blocks := ((hints.filter fun hints => !hints.blockHashes.isEmpty).map fun hints =>
    hints.toBlocks modelId tokenizerId tenantId).getD (fallbackBlocks host payload modelId tokenizerId tenantId)
  ({ id := (hints.bind RequestKvHints.requestId).getD ("req-" ++ toString host.nanos)
     modelId, tokenizerId, adapterId := hints.bind RequestKvHints.adapterId, tenantId
     sessionId := hints.bind RequestKvHints.sessionId, blocks, estimatedDecodeTokens }, payload)

/-! ## The identity of the blocks -/

section identity

variable {host : Host} {payload : Value} {modelId tokenizerId tenantId : String} {b : KvBlockKey}

lemma lookup_filter_ne {name name' : String} (hne : name ≠ name') (fields : List (String × Value)) :
    (fields.filter fun f => f.1 ≠ name').lookup name = fields.lookup name := by
  induction fields with
  | nil => rfl
  | cons f fields ih =>
    by_cases hf : f.1 = name'
    · have hbeq : (name == f.1) = false := by
        rw [hf, beq_eq_false_iff_ne]
        exact hne
      rw [filter_cons_of_neg (by simpa using hf), ih]
      obtain ⟨k, v⟩ := f
      rw [lookup_cons, hbeq]
    · rw [filter_cons_of_pos (by simpa using hf)]
      obtain ⟨k, v⟩ := f
      rw [lookup_cons, lookup_cons, ih]

lemma modelOf_remove (payload : Value) : modelOf (payload.remove "quillcache").2 = modelOf payload := by
  cases payload with
  | object fields =>
    simp only [modelOf, Value.remove, Value.get]
    rw [lookup_filter_ne (by decide)]
  | _ => rfl

lemma fromKey_of_mem_chainKeys {scope : IdentityScope} {tokenCount : ℕ} {parent : String} {idx : ℕ}
    {hashes : List String} (h : b ∈ chainKeys scope tokenCount parent idx hashes) : IdentityScope.fromKey b = scope := by
  induction hashes generalizing parent idx with
  | nil => cases h
  | cons hash hashes ih =>
    rw [chainKeys, mem_cons] at h
    rcases h with rfl | h
    · rfl
    · exact ih h

lemma fromKey_of_mem_fallbackLoop {chars : List Char} {room start idx : ℕ} {parent : String}
    (h : b ∈ fallbackLoop host modelId tokenizerId tenantId chars room start idx parent) :
    IdentityScope.fromKey b = ⟨modelId, tokenizerId, none, tenantId⟩ := by
  induction room generalizing start idx parent with
  | zero => cases h
  | succ room ih =>
    rw [fallbackLoop] at h
    split_ifs at h
    · rcases mem_cons.mp h with rfl | h
      · rfl
      · exact ih h
    · cases h

lemma fromKey_of_mem_fallbackBlocks (h : b ∈ fallbackBlocks host payload modelId tokenizerId tenantId) :
    IdentityScope.fromKey b = ⟨modelId, tokenizerId, none, tenantId⟩ := by
  rw [fallbackBlocks] at h
  split_ifs at h
  · rw [mem_singleton.mp h]
    rfl
  · exact fromKey_of_mem_fallbackLoop h

lemma fallbackBlocks_ne_nil : fallbackBlocks host payload modelId tokenizerId tenantId ≠ [] := by
  rw [fallbackBlocks]
  split_ifs with hempty
  · exact cons_ne_nil _ _
  · have hlen : 0 < (promptText host payload).toList.length := by
      rw [List.isEmpty_iff] at hempty
      exact length_pos_iff.mpr hempty
    rw [fallbackMaxBlocks, fallbackLoop, if_pos hlen]
    exact cons_ne_nil _ _

lemma toBlocks_ne_nil {hints : RequestKvHints} (h : hints.blockHashes ≠ []) :
    hints.toBlocks modelId tokenizerId tenantId ≠ [] := by
  intro hnil
  have hlen := congrArg List.length hnil
  rw [RequestKvHints.toBlocks, length_chainKeys] at hlen
  exact h (length_eq_zero_iff.mp hlen)

lemma forall_fromKey_iff {blocks : List KvBlockKey} {scope scope' : IdentityScope} (hne : blocks ≠ [])
    (h : ∀ b ∈ blocks, IdentityScope.fromKey b = scope) :
    (∀ b ∈ blocks, IdentityScope.fromKey b = scope') ↔ scope = scope' := by
  constructor
  · intro hall
    obtain ⟨b, hb⟩ := exists_mem_of_ne_nil blocks hne
    rw [← h b hb, hall b hb]
  · rintro rfl
    exact h

lemma getD_getD (o : Option String) (s : String) : o.getD (o.getD s) = o.getD s := by
  cases o <;> rfl

/-- The hints leave the request's identity to the blocks: without block hashes they name no adapter, and with block
hashes no other model than the body. -/
def Agreeable (payload : Value) : Prop :=
  ∀ hints, hintsOf payload = some hints →
    if hints.blockHashes = [] then hints.adapterId = none
    else hints.modelId = none ∨ hints.modelId = some (modelOf payload)

/-- **When the blocks have the identity of their request**: exactly if the body has no hints that can be read, or hints
with block hashes that name no other model than the body, or hints without block hashes and without an adapter. -/
theorem blocks_of_shape_iff (host : Host) (payload : Value) :
    (∀ b ∈ (requestShapeFromPayload host payload).1.blocks,
      IdentityScope.fromKey b = (requestShapeFromPayload host payload).1.scope) ↔ Agreeable payload := by
  rw [Agreeable]
  simp only [requestShapeFromPayload, RequestShape.scope, modelOf_remove]
  cases hhints : hintsOf payload with
  | none => exact iff_of_true (fun b hb => fromKey_of_mem_fallbackBlocks hb) nofun
  | some hints =>
    simp only [Option.some.injEq, forall_eq', bind_some]
    by_cases hempty : hints.blockHashes = []
    · -- the prompt's blocks have no adapter
      simp only [filter_some, hempty, isEmpty_nil, Bool.not_true, Bool.false_eq_true, if_false,
        map_none, getD_none, if_true]
      rw [forall_fromKey_iff fallbackBlocks_ne_nil fun b hb => fromKey_of_mem_fallbackBlocks hb]
      simp only [IdentityScope.mk.injEq, true_and, and_true]
      exact eq_comm
    · -- the hinted blocks have the hinted model
      have hhashes : (!hints.blockHashes.isEmpty) = true := by simpa using hempty
      simp only [filter_some, hhashes, if_true, map_some, getD_some, hempty, if_false]
      rw [forall_fromKey_iff (toBlocks_ne_nil hempty) fun b hb => fromKey_of_mem_chainKeys hb]
      simp only [RequestKvHints.scope, IdentityScope.mk.injEq, getD_getD, and_true]
      cases hints.modelId with
      | none => simp
      | some m => simp

def plainHost : Host := ⟨fun _ => "", fun _ => 0, 0⟩

def otherModel : Value :=
  .object [("model", .string "m"), ("quillcache", .object [("model_id", .string "x"),
    ("block_hashes", .array [.string "h"])])]

def adapterOnly : Value :=
  .object [("model", .string "m"), ("prompt", .string "p"), ("quillcache", .object [("adapter_id", .string "l"),
    ("block_hashes", .array [])])]

/-- **A block under another model, and one without the adapter of its request.** -/
theorem block_under_other_identity :
    (requestShapeFromPayload plainHost otherModel).1.blocks.map IdentityScope.fromKey = [⟨"x", "m", none, "default"⟩] ∧
    (requestShapeFromPayload plainHost otherModel).1.scope = ⟨"m", "m", none, "default"⟩ ∧
    (requestShapeFromPayload plainHost adapterOnly).1.blocks.map IdentityScope.fromKey =
      [⟨"m", "m", none, "default"⟩] ∧
    (requestShapeFromPayload plainHost adapterOnly).1.scope = ⟨"m", "m", some "l", "default"⟩ := by
  decide +kernel

end identity

end QuillCache.Gateway
