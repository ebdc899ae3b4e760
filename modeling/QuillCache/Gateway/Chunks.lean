import QuillCache.Gateway.Shape

/-!
# The blocks of a prompt

What `fallback_blocks` (`gateway.rs`) makes of a text: block `i` is determined by the text up to its end
(`fallbackBlocks_eq`). So two texts share their first blocks exactly as far as they share their first characters
(`blocks_agree_with_texts`).
-/

namespace QuillCache.Gateway

open Store QuillCache.Core List

/-! ## Hashes as text -/

def hexValue (c : Char) : ℕ := if c.toNat < 58 then c.toNat - 48 else c.toNat - 87

/-- The number that hexadecimal digits stand for. -/
def readHex (cs : List Char) : ℕ := cs.foldl (fun n c => 16 * n + hexValue c) 0

lemma readHex_concat (cs : List Char) (c : Char) : readHex (cs ++ [c]) = 16 * readHex cs + hexValue c := by
  rw [readHex, List.foldl_append]
  rfl

lemma readHex_toDigits (n : ℕ) : readHex (Nat.toDigits 16 n) = n := by
  have hdigit : ∀ d < 16, hexValue d.digitChar = d := by decide
  induction n using Nat.strongRecOn with
  | ind n ih =>
    by_cases hn : n < 16
    · rw [Nat.toDigits_of_lt_base hn]
      exact (Nat.zero_add _).trans (hdigit n hn)
    · rw [Nat.toDigits_of_base_le (by omega) (not_lt.mp hn), readHex_concat, ih _ (by omega), hdigit _ (by omega)]
      omega

lemma readHex_leftpad (cs : List Char) : readHex (List.leftpad 16 '0' cs) = readHex cs := by
  rw [List.leftpad, readHex, List.foldl_append]
  congr 1
  induction 16 - cs.length with
  | zero => rfl
  | succ k ih => rw [replicate_succ, foldl_cons]; exact ih

lemma siphash_of_pfxHash {host : Host} {s t : String} (h : pfxHash host s = pfxHash host t) :
    host.siphash s = host.siphash t := by
  have hlist := congrArg (fun x : String => readHex (x.toList.drop 4)) h
  simp only [pfxHash, String.toList_append, String.toList_ofList] at hlist
  rw [drop_append_of_le_length (by decide), drop_append_of_le_length (by decide)] at hlist
  have hdrop : List.drop 4 "pfx-".toList = [] := by decide
  rw [hdrop, nil_append, nil_append, readHex_leftpad, readHex_leftpad, readHex_toDigits,
    readHex_toDigits] at hlist
  exact UInt64.toNat_inj.mp hlist

/-! ## The blocks, one by one -/

section blocks

variable (host : Host) (modelId tokenizerId tenantId : String) (chars : List Char)

def hashTo (n : ℕ) : String := pfxHash host (String.ofList (chars.take (256 * n)))

def chunk (i : ℕ) : List Char := (chars.drop (256 * i)).take 256

def blockAt (i : ℕ) : KvBlockKey where
  modelId := modelId
  tokenizerId := tokenizerId
  adapterId := none
  tenantId := tenantId
  prefixHash := if i = 0 then "root" else hashTo host chars i
  blockHash := hashTo host chars (i + 1)
  blockIndex := i
  tokenCount := max (((chunk chars i).length + 3) / 4) 1

def blockCount : ℕ := min 64 ((chars.length + 255) / 256)

variable {host modelId tokenizerId tenantId chars} {payload : Value}

lemma length_chunk (i : ℕ) : (chunk chars i).length = min 256 (chars.length - 256 * i) := by
  rw [chunk, length_take, length_drop]

lemma fallbackLoop_eq {start : ℕ} {parent : String} (room i : ℕ) (hstart : start = min (256 * i) chars.length)
    (hparent : parent = if i = 0 then "root" else hashTo host chars i) :
    fallbackLoop host modelId tokenizerId tenantId chars room start i parent =
      (List.range' i (min room ((chars.length + 255) / 256 - i))).map
        (blockAt host modelId tokenizerId tenantId chars) := by
  induction room generalizing i start parent with
  | zero =>
    rw [Nat.zero_min]
    rfl
  | succ room ih =>
    rw [fallbackLoop]
    split_ifs with hlt
    · have hcount : min (room + 1) ((chars.length + 255) / 256 - i) =
          min room ((chars.length + 255) / 256 - (i + 1)) + 1 := by omega
      have hstop : min (start + fallbackBlockChars) chars.length = min (256 * (i + 1)) chars.length := by
        simp only [fallbackBlockChars]
        omega
      have htext : chars.take (min (start + fallbackBlockChars) chars.length) = chars.take (256 * (i + 1)) := by
        rw [hstop, ← take_eq_take_min]
      have hhash : pfxHash host (String.ofList (chars.take (min (start + fallbackBlockChars) chars.length))) =
          hashTo host chars (i + 1) := by rw [htext, hashTo]
      have htokens : min (start + fallbackBlockChars) chars.length - start = (chunk chars i).length := by
        rw [length_chunk, hstop]
        omega
      rw [hcount, range'_succ, map_cons]
      simp only [hhash, htokens]
      exact congrArg₂ List.cons (by rw [blockAt, hparent]) (ih (i + 1) hstop rfl)
    · have hcount : min (room + 1) ((chars.length + 255) / 256 - i) = 0 := by omega
      rw [hcount]
      rfl

lemma fallbackBlocks_eq (h : (promptText host payload).toList ≠ []) :
    fallbackBlocks host payload modelId tokenizerId tenantId =
      (List.range (blockCount (promptText host payload).toList)).map
        (blockAt host modelId tokenizerId tenantId (promptText host payload).toList) := by
  rw [fallbackBlocks, if_neg (by rwa [List.isEmpty_iff]), range_eq_range']
  exact fallbackLoop_eq fallbackMaxBlocks 0 (Nat.zero_min _).symm rfl

lemma lt_blockCount_iff {i : ℕ} : i < blockCount chars ↔ i < 64 ∧ 256 * i < chars.length := by
  unfold blockCount
  omega

lemma blockAt_congr {chars' : List Char} {i n : ℕ} (hn : 256 * (i + 1) ≤ n) (hlen : n ≤ chars.length)
    (hlen' : n ≤ chars'.length) (h : chars.take n = chars'.take n) :
    blockAt host modelId tokenizerId tenantId chars i = blockAt host modelId tokenizerId tenantId chars' i := by
  have htake : ∀ m ≤ n, chars.take m = chars'.take m := by
    intro m hm
    rw [← Nat.min_eq_left hm, ← take_take, h, take_take]
  unfold blockAt hashTo
  rw [htake _ hn, htake (256 * i) (by omega), length_chunk, length_chunk, Nat.min_eq_left (by omega),
    Nat.min_eq_left (by omega)]

lemma flatten_chunks (n : ℕ) : ((List.range n).map (chunk chars)).flatten = chars.take (256 * n) := by
  induction n with
  | zero => rfl
  | succ n ih =>
    rw [range_succ, map_append, flatten_append, ih, map_singleton, flatten_singleton, chunk,
      Nat.mul_succ, take_add]

end blocks

/-- The blocks of a text: each covers the next 256 characters, or the rest, is hashed together with all text before it,
and names the block before it; together they cover the text up to the limit. -/
structure Chunked (host : Host) (text : List Char) (blocks : List KvBlockKey) : Prop where
  root : ∀ b, blocks[0]? = some b → b.prefixHash = "root"
  parent : ∀ i b b', blocks[i]? = some b → blocks[i + 1]? = some b' → b'.prefixHash = b.blockHash
  hash : ∀ i b, blocks[i]? = some b → chunk text i ≠ [] ∧ b.blockHash = hashTo host text (i + 1)
  cover : ((List.range blocks.length).map (chunk text)).flatten = text.take (min text.length (64 * 256))

def hashedTexts (text : List Char) : Set String := {s | ∃ n, s = String.ofList (text.take n)}

section agree

variable {host : Host} {modelId tokenizerId tenantId : String} {text text' : List Char}

lemma getElem?_blocks {i : ℕ} {b : KvBlockKey} :
    ((List.range (blockCount text)).map (blockAt host modelId tokenizerId tenantId text))[i]? = some b ↔
      i < blockCount text ∧ blockAt host modelId tokenizerId tenantId text i = b := by
  rw [getElem?_map, Option.map_eq_some_iff]
  simp only [List.getElem?_eq_some_iff, length_range, getElem_range, exists_prop]
  exact ⟨fun ⟨_, ⟨hi, rfl⟩, hb⟩ => ⟨hi, hb⟩, fun ⟨hi, hb⟩ => ⟨i, ⟨hi, rfl⟩, hb⟩⟩

lemma chunked : Chunked host text
    ((List.range (blockCount text)).map (blockAt host modelId tokenizerId tenantId text)) := by
  refine ⟨fun b hb => ?_, fun i b b' hb hb' => ?_, fun i b hb => ?_, ?_⟩
  · obtain ⟨-, rfl⟩ := getElem?_blocks.mp hb
    rfl
  · obtain ⟨-, rfl⟩ := getElem?_blocks.mp hb
    obtain ⟨-, rfl⟩ := getElem?_blocks.mp hb'
    rw [blockAt, blockAt, if_neg (Nat.succ_ne_zero i)]
  · obtain ⟨hi, rfl⟩ := getElem?_blocks.mp hb
    refine ⟨fun hnil => ?_, rfl⟩
    have hlen := congrArg List.length hnil
    rw [length_chunk, length_nil] at hlen
    have := (lt_blockCount_iff.mp hi).2
    omega
  · rw [length_map, length_range, flatten_chunks, take_eq_take_iff, blockCount]
    omega

lemma take_blocks_congr {k : ℕ} (hk : k ≤ 64) (hlen : 256 * k ≤ text.length) (hlen' : 256 * k ≤ text'.length)
    (h : text.take (256 * k) = text'.take (256 * k)) :
    ((List.range (blockCount text)).map (blockAt host modelId tokenizerId tenantId text)).take k =
      ((List.range (blockCount text')).map (blockAt host modelId tokenizerId tenantId text')).take k := by
  have hcount : ∀ t : List Char, 256 * k ≤ t.length → min k (blockCount t) = k := by
    intro t ht
    unfold blockCount
    omega
  rw [← map_take, ← map_take, take_range, take_range, hcount _ hlen, hcount _ hlen']
  refine map_congr_left fun i hi => blockAt_congr ?_ hlen hlen' h
  have := mem_range.mp hi
  omega

end agree

/-- Under one model, tokenizer and tenant two non-empty texts have the same first blocks if they have the same first
characters, and only then if the hash tells their prefixes apart. -/
theorem blocks_agree_with_texts (host : Host) (modelId tokenizerId tenantId : String) (payload payload' : Value)
    (text text' : List Char) (htext : (promptText host payload).toList = text)
    (htext' : (promptText host payload').toList = text') (hne : text ≠ []) (hne' : text' ≠ [])
    (blocks blocks' : List KvBlockKey) (hblocks : fallbackBlocks host payload modelId tokenizerId tenantId = blocks)
    (hblocks' : fallbackBlocks host payload' modelId tokenizerId tenantId = blocks') :
    Chunked host text blocks ∧
    (∀ k ≤ 64, 256 * k ≤ text.length → 256 * k ≤ text'.length → text.take (256 * k) = text'.take (256 * k) →
      k ≤ blocks.length ∧ blocks.take k = blocks'.take k) ∧
    (Set.InjOn host.siphash (hashedTexts text ∪ hashedTexts text') → ∀ i b, blocks[i]? = some b → blocks'[i]? = some b →
      text.take (256 * (i + 1)) = text'.take (256 * (i + 1)) ∧ blocks.take i = blocks'.take i) := by
  subst htext htext' hblocks hblocks'
  rw [fallbackBlocks_eq hne, fallbackBlocks_eq hne']
  refine ⟨chunked, fun k hk hlen hlen' htake => ⟨?_, take_blocks_congr hk hlen hlen' htake⟩, fun hinj i b hb hb' => ?_⟩
  · rw [length_map, length_range, blockCount]
    omega
  · obtain ⟨hi, rfl⟩ := getElem?_blocks.mp hb
    obtain ⟨hi', heq⟩ := getElem?_blocks.mp hb'
    have hhash := siphash_of_pfxHash (congrArg KvBlockKey.blockHash heq)
    have htake := String.ofList_injective (hinj (.inr ⟨_, rfl⟩) (.inl ⟨_, rfl⟩) hhash)
    obtain ⟨hi64, hlen⟩ := lt_blockCount_iff.mp hi
    obtain ⟨-, hlen'⟩ := lt_blockCount_iff.mp hi'
    refine ⟨htake.symm, take_blocks_congr hi64.le hlen.le hlen'.le ?_⟩
    have hshort := congrArg (List.take (256 * i)) htake
    rw [take_take, take_take, Nat.min_eq_left (by omega)] at hshort
    exact hshort.symm

def lengthHost : Host := ⟨fun _ => "", fun s => UInt64.ofNat s.length, 0⟩

def onePrompt : Value := .object [("prompt", .string "a")]

lemma injOn_onePrompt : Set.InjOn lengthHost.siphash (hashedTexts ['a'] ∪ hashedTexts ['a']) := by
  have hcases : ∀ s ∈ hashedTexts ['a'] ∪ hashedTexts ['a'], s = "" ∨ s = "a" := by
    intro s hs
    obtain ⟨_ | n, rfl⟩ := (Set.union_self _).subset hs
    · exact .inl rfl
    · exact Or.inr (by rw [take_succ_cons, take_nil])
  intro s hs t ht hst
  rcases hcases s hs with rfl | rfl <;> rcases hcases t ht with rfl | rfl
  · rfl
  · exact absurd hst (by decide)
  · exact absurd hst (by decide)
  · rfl

/-- The request has one block. -/
theorem blocks_agree_with_texts_onePrompt :
    Chunked lengthHost ['a'] (fallbackBlocks lengthHost onePrompt "m" "t" "u") ∧ ['a'].take (256 * (0 + 1)) = ['a'] := by
  have h := blocks_agree_with_texts lengthHost "m" "t" "u" onePrompt onePrompt ['a'] ['a'] (by decide) (by decide)
    (by decide) (by decide) _ _ rfl rfl
  exact ⟨h.1, (h.2.2 injOn_onePrompt 0 _ rfl rfl).1⟩

end QuillCache.Gateway
