import QuillCache.Core.MemoryIndex
import QuillCache.Lib.Frames
import QuillCache.Lib.WordMap

/-!
# The keys of the persistent indexes

`HoltIndex` and `RocksIndex` (`index_holt.rs`, `index_rocksdb.rs`) have the same key builders. A record has a primary
key, whose fields are joined by NUL bytes, and a reverse key with the block hash in front. A query is the beginning of
the keys that it is to find.

For strings without NUL bytes and adapters that are not empty, a query is the beginning of the keys of exactly the
records that it is about (`locateFront_prefix_iff` and the lemmas after it), although the four bytes of a block index
may be NUL bytes themselves.

Source: `index_holt.rs`.
-/

namespace QuillCache.Core

open Lib Store List

/-- Source: `quillcache-core` `Display for CacheTier` -/
def CacheTier.toText : CacheTier → String
  | .hbm => "hbm"
  | .remoteHbm => "remote_hbm"
  | .cpuDram => "cpu_dram"
  | .localSsd => "local_ssd"
  | .objectStore => "object_store"

def bytesOf (s : String) : List UInt8 := s.toByteArray.data.toList

def toBeBytes (n : ℕ) : List UInt8 := (le32 n).reverse

namespace IndexKeys

def sep : UInt8 := 0

def primary : UInt8 := 1

def secondary : UInt8 := 2

def field (s : String) (rest : List UInt8) : List UInt8 := bytesOf s ++ sep :: rest

def encScope (scope : IdentityScope) (rest : List UInt8) : List UInt8 :=
  field scope.modelId (field scope.tokenizerId (field (scope.adapterId.getD "") (field scope.tenantId rest)))

def primaryKeyFor (r : CacheResidency) : List UInt8 :=
  primary :: encScope (.fromKey r.key) (field r.key.prefixHash (field r.key.blockHash
    (toBeBytes r.key.blockIndex ++ sep :: field r.workerId (bytesOf r.tier.toText))))

def secondaryKeyFor (r : CacheResidency) : List UInt8 :=
  secondary :: encScope (.fromKey r.key) (field r.key.blockHash (field r.workerId (field r.tier.toText
    (field r.key.prefixHash (toBeBytes r.key.blockIndex)))))

def removeScanPrefix (scope : IdentityScope) (workerId blockHash : String) : List UInt8 :=
  secondary :: encScope scope (field blockHash (field workerId []))

def locateFront (key : KvBlockKey) : List UInt8 :=
  primary :: encScope (.fromKey key) (field key.prefixHash (field key.blockHash
    (toBeBytes key.blockIndex ++ [sep])))

def scanFront (scope : IdentityScope) (prefixHash : String) : List UInt8 :=
  primary :: encScope scope (field prefixHash [])

end IndexKeys

/-! ## Legal strings -/

def NulFree (s : String) : Prop := IndexKeys.sep ∉ bytesOf s

instance (s : String) : Decidable (NulFree s) := inferInstanceAs (Decidable (¬_))

/-- An identity that its encoding determines. -/
structure LegalScope (scope : IdentityScope) : Prop where
  model : NulFree scope.modelId
  tokenizer : NulFree scope.tokenizerId
  adapter : ∀ a, scope.adapterId = some a → NulFree a ∧ a ≠ ""
  tenant : NulFree scope.tenantId

/-- A key that its encoding determines, but for the token count. -/
structure LegalKey (key : KvBlockKey) : Prop where
  scope : LegalScope (.fromKey key)
  prefixHash : NulFree key.prefixHash
  blockHash : NulFree key.blockHash
  blockIndex : key.blockIndex < 2 ^ 32

structure LegalRecord (r : CacheResidency) : Prop where
  key : LegalKey r.key
  workerId : NulFree r.workerId

/-- The keys agree on all that is encoded. -/
structure SameBlock (key key' : KvBlockKey) : Prop where
  scope : IdentityScope.fromKey key = .fromKey key'
  prefixHash : key.prefixHash = key'.prefixHash
  blockHash : key.blockHash = key'.blockHash
  blockIndex : key.blockIndex = key'.blockIndex

/-- Two records with one primary key. -/
structure SameSlot (r r' : CacheResidency) : Prop where
  key : SameBlock r.key r'.key
  workerId : r.workerId = r'.workerId
  tier : r.tier = r'.tier

/-- How many tokens a block has follows from the rest of its key. -/
def Counted (tokens : IdentityScope → String → String → ℕ → ℕ) (key : KvBlockKey) : Prop :=
  key.tokenCount = tokens (.fromKey key) key.prefixHash key.blockHash key.blockIndex

lemma SameBlock.refl (key : KvBlockKey) : SameBlock key key := ⟨rfl, rfl, rfl, rfl⟩

lemma SameBlock.eq_of_tokenCount {key key' : KvBlockKey} (h : SameBlock key key')
    (htokens : key.tokenCount = key'.tokenCount) : key = key' := by
  obtain ⟨hscope, hpre, hhash, hindex⟩ := h
  cases key
  cases key'
  simp only [IdentityScope.fromKey, IdentityScope.mk.injEq] at hscope hpre hhash hindex htokens
  simp only [KvBlockKey.mk.injEq]
  exact ⟨hscope.1, hscope.2.1, hscope.2.2.1, hscope.2.2.2, hpre, hhash, hindex, htokens⟩

lemma SameBlock.eq {tokens : IdentityScope → String → String → ℕ → ℕ} {key key' : KvBlockKey}
    (h : SameBlock key key') (hkey : Counted tokens key) (hkey' : Counted tokens key') : key = key' := by
  refine h.eq_of_tokenCount ?_
  rw [hkey, hkey', h.scope, h.prefixHash, h.blockHash, h.blockIndex]

/-! ## What the encodings determine -/

section bytes

lemma bytesOf_injective : Function.Injective bytesOf := fun _ _ h =>
  String.toByteArray_inj.mp (ByteArray.ext (Array.toList_inj.mp h))

lemma toBeBytes_injective {n n' : ℕ} (hn : n < 2 ^ 32) (hn' : n' < 2 ^ 32) (h : toBeBytes n = toBeBytes n') : n = n' := by
  have hle : le32 n = le32 n' := reverse_injective h
  have hof := congrArg ofLe hle
  rwa [ofLe_le32 hn, ofLe_le32 hn'] at hof

lemma nulFree_toText (tier : CacheTier) : NulFree tier.toText := by
  cases tier <;> decide +kernel

lemma toText_injective : Function.Injective CacheTier.toText := by
  intro t t' h
  cases t <;> cases t' <;> first | rfl | exact absurd h (by decide)

end bytes

namespace IndexKeys

section prefixes

variable {scope scope' : IdentityScope} {s s' : String} {n n' : ℕ} {x y : List UInt8}

lemma field_append : field s x ++ y = field s (x ++ y) := by
  rw [field, field, append_assoc, cons_append]

lemma encScope_append : encScope scope x ++ y = encScope scope (x ++ y) := by
  simp only [encScope, field_append]

lemma field_prefix_iff (h : NulFree s) (h' : NulFree s') : field s x <+: field s' y ↔ s = s' ∧ x <+: y := by
  rw [field, field, sep_prefix_iff h h', bytesOf_injective.eq_iff]

lemma nulFree_adapter (h : LegalScope scope) : NulFree (scope.adapterId.getD "") := by
  cases hadapter : scope.adapterId with
  | none => decide
  | some a => exact (h.adapter a hadapter).1

lemma adapter_eq_iff (h : LegalScope scope) (h' : LegalScope scope') :
    scope.adapterId.getD "" = scope'.adapterId.getD "" ↔ scope.adapterId = scope'.adapterId := by
  cases ha : scope.adapterId with
  | none =>
    cases ha' : scope'.adapterId with
    | none => simp
    | some a' => simpa using (h'.adapter a' ha').2.symm
  | some a =>
    cases ha' : scope'.adapterId with
    | none => simpa using (h.adapter a ha).2
    | some a' => simp

lemma encScope_prefix_iff (h : LegalScope scope) (h' : LegalScope scope') :
    encScope scope x <+: encScope scope' y ↔ scope = scope' ∧ x <+: y := by
  rw [encScope, encScope, field_prefix_iff h.model h'.model, field_prefix_iff h.tokenizer h'.tokenizer,
    field_prefix_iff (nulFree_adapter h) (nulFree_adapter h'), field_prefix_iff h.tenant h'.tenant,
    adapter_eq_iff h h']
  cases scope
  cases scope'
  simp only [IdentityScope.mk.injEq, and_assoc]

lemma toBeBytes_prefix_iff (h : n < 2 ^ 32) (h' : n' < 2 ^ 32) :
    toBeBytes n ++ x <+: toBeBytes n' ++ y ↔ n = n' ∧ x <+: y := by
  rw [append_prefix_iff_of_length (by simp [toBeBytes, le32])]
  exact and_congr_left fun _ => ⟨toBeBytes_injective h h', fun heq => heq ▸ rfl⟩

end prefixes

section keys

variable {r r' : CacheResidency}

lemma locateFront_prefix_iff {key : KvBlockKey} (hkey : LegalKey key) (hr : LegalRecord r) :
    locateFront key <+: primaryKeyFor r ↔ SameBlock key r.key := by
  rw [locateFront, primaryKeyFor, cons_prefix_cons, encScope_prefix_iff hkey.scope hr.key.scope,
    field_prefix_iff hkey.prefixHash hr.key.prefixHash, field_prefix_iff hkey.blockHash hr.key.blockHash,
    toBeBytes_prefix_iff hkey.blockIndex hr.key.blockIndex]
  constructor
  · rintro ⟨-, hscope, hpre, hhash, hindex, -⟩
    exact ⟨hscope, hpre, hhash, hindex⟩
  · rintro ⟨hscope, hpre, hhash, hindex⟩
    exact ⟨rfl, hscope, hpre, hhash, hindex, cons_prefix_cons.mpr ⟨rfl, nil_prefix⟩⟩

lemma scanFront_prefix_iff {scope : IdentityScope} {prefixHash : String} (hscope : LegalScope scope)
    (hhash : NulFree prefixHash) (hr : LegalRecord r) :
    scanFront scope prefixHash <+: primaryKeyFor r ↔
      IdentityScope.fromKey r.key = scope ∧ r.key.prefixHash = prefixHash := by
  rw [scanFront, primaryKeyFor, cons_prefix_cons, encScope_prefix_iff hscope hr.key.scope,
    field_prefix_iff hhash hr.key.prefixHash]
  simp [eq_comm]

lemma removeScanPrefix_prefix_iff {scope : IdentityScope} {workerId blockHash : String} (hscope : LegalScope scope)
    (hworker : NulFree workerId) (hhash : NulFree blockHash) (hr : LegalRecord r) :
    removeScanPrefix scope workerId blockHash <+: secondaryKeyFor r ↔ Evicts scope workerId blockHash r := by
  rw [removeScanPrefix, secondaryKeyFor, cons_prefix_cons, encScope_prefix_iff hscope hr.key.scope,
    field_prefix_iff hhash hr.key.blockHash, field_prefix_iff hworker hr.workerId, Evicts]
  simp [eq_comm]

lemma primaryKeyFor_eq_iff (hr : LegalRecord r) (hr' : LegalRecord r') :
    primaryKeyFor r = primaryKeyFor r' ↔ SameSlot r r' := by
  constructor
  · intro h
    -- with one more separator the tier is a field as well
    have happend : primaryKeyFor r ++ [sep] <+: primaryKeyFor r' ++ [sep] := h ▸ prefix_rfl
    have htier : ∀ tier : CacheTier, bytesOf tier.toText ++ [sep] = field tier.toText [] := fun _ => rfl
    simp only [primaryKeyFor, cons_append, encScope_append, field_append, append_assoc, htier] at happend
    rw [cons_prefix_cons, encScope_prefix_iff hr.key.scope hr'.key.scope,
      field_prefix_iff hr.key.prefixHash hr'.key.prefixHash, field_prefix_iff hr.key.blockHash hr'.key.blockHash,
      toBeBytes_prefix_iff hr.key.blockIndex hr'.key.blockIndex, cons_prefix_cons,
      field_prefix_iff hr.workerId hr'.workerId, field_prefix_iff (nulFree_toText _) (nulFree_toText _)] at happend
    obtain ⟨-, hscope, hpre, hhash, hindex, -, hworker, htext, -⟩ := happend
    exact ⟨⟨hscope, hpre, hhash, hindex⟩, hworker, toText_injective htext⟩
  · rintro ⟨⟨hscope, hpre, hhash, hindex⟩, hworker, htier⟩
    rw [primaryKeyFor, primaryKeyFor, hscope, hpre, hhash, hindex, hworker, htier]

lemma secondaryKeyFor_eq_iff (hr : LegalRecord r) (hr' : LegalRecord r') :
    secondaryKeyFor r = secondaryKeyFor r' ↔ SameSlot r r' := by
  constructor
  · intro h
    have hfront : secondaryKeyFor r <+: secondaryKeyFor r' := h ▸ prefix_rfl
    rw [secondaryKeyFor, secondaryKeyFor, ← append_nil (toBeBytes r.key.blockIndex),
      ← append_nil (toBeBytes r'.key.blockIndex), cons_prefix_cons,
      encScope_prefix_iff hr.key.scope hr'.key.scope, field_prefix_iff hr.key.blockHash hr'.key.blockHash,
      field_prefix_iff hr.workerId hr'.workerId, field_prefix_iff (nulFree_toText _) (nulFree_toText _),
      field_prefix_iff hr.key.prefixHash hr'.key.prefixHash,
      toBeBytes_prefix_iff hr.key.blockIndex hr'.key.blockIndex] at hfront
    obtain ⟨-, hscope, hhash, hworker, htext, hpre, hindex, -⟩ := hfront
    exact ⟨⟨hscope, hpre, hhash, hindex⟩, hworker, toText_injective htext⟩
  · rintro ⟨⟨hscope, hpre, hhash, hindex⟩, hworker, htier⟩
    rw [secondaryKeyFor, secondaryKeyFor, hscope, hpre, hhash, hindex, hworker, htier]

lemma primaryKeyFor_ne_secondaryKeyFor : primaryKeyFor r ≠ secondaryKeyFor r' := by
  intro h
  have hhead : primary = secondary := (List.cons.inj h).1
  revert hhead
  decide

end keys

end IndexKeys

end QuillCache.Core
