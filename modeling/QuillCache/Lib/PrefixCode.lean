import QuillCache.Lib.Frames

/-!
# Prefix codes

Self-delimiting codes, put together from codes for the parts of a type: the decoder reads one value from
the front of its input and returns the rest. They give a `Codec` for every first-order data type, so that
developments that are parametric in a serialiser can be run.
-/

namespace QuillCache.Lib

open List Option

/-- A code whose decoder knows where a value ends. -/
structure PrefixCode (α : Type) where
  enc : α → List UInt8
  dec : List UInt8 → Option (α × List UInt8)
  dec_enc : ∀ a rest, dec (enc a ++ rest) = some (a, rest)

namespace PrefixCode

variable {α β : Type}

def toCodec (c : PrefixCode α) : Codec α where
  encode := c.enc
  decode bytes := (c.dec bytes).map Prod.fst
  decode_encode a := by
    have h := c.dec_enc a []
    rw [append_nil] at h
    rw [h]
    rfl

def decUnary : List UInt8 → Option (ℕ × List UInt8)
  | [] => none
  | b :: rest => if b = 0 then some (0, rest) else (decUnary rest).map fun r => (r.1 + 1, r.2)

lemma decUnary_replicate (n : ℕ) (rest : List UInt8) :
    decUnary (List.replicate n 1 ++ 0 :: rest) = some (n, rest) := by
  induction n with
  | zero => rfl
  | succ n ih =>
    rw [replicate_succ, cons_append, decUnary, ih]
    rfl

/-- The base-256 digits of a number, least significant first. -/
def digits : ℕ → ℕ → List UInt8
  | 0, _ => []
  | fuel + 1, n => if n = 0 then [] else UInt8.ofNat n :: digits fuel (n / 2 ^ 8)

lemma ofLe_digits {fuel n : ℕ} (h : n < (2 ^ 8) ^ fuel) : ofLe (digits fuel n) = n := by
  induction fuel generalizing n with
  | zero =>
    rw [pow_zero, Nat.lt_one_iff] at h
    rw [h]
    rfl
  | succ fuel ih =>
    rw [digits]
    split_ifs with hn
    · rw [hn]
      rfl
    · have hdiv : n / 2 ^ 8 < (2 ^ 8) ^ fuel := by
        rw [pow_succ] at h
        exact Nat.div_lt_of_lt_mul (by rwa [mul_comm] at h)
      change (UInt8.ofNat n).toNat + 2 ^ 8 * ofLe (digits fuel (n / 2 ^ 8)) = n
      rw [ih hdiv, UInt8.toNat_ofNat']
      omega

/-- Numbers as their digits, after the number of digits in unary. -/
def nat : PrefixCode ℕ where
  enc n := List.replicate (digits (n.log2 + 1) n).length 1 ++ 0 :: digits (n.log2 + 1) n
  dec bytes := (decUnary bytes).bind fun r =>
    if r.1 ≤ r.2.length then some (ofLe (r.2.take r.1), r.2.drop r.1) else none
  dec_enc n rest := by
    have hn : n < (2 ^ 8) ^ (n.log2 + 1) := by
      rw [← pow_mul]
      exact lt_of_lt_of_le Nat.lt_log2_self (Nat.pow_le_pow_right (by norm_num) (by omega))
    rw [append_assoc, cons_append, decUnary_replicate, bind_some, if_pos (by simp),
      take_left, drop_left, ofLe_digits hn]

def pair (c : PrefixCode α) (d : PrefixCode β) : PrefixCode (α × β) where
  enc x := c.enc x.1 ++ d.enc x.2
  dec bytes := (c.dec bytes).bind fun r => (d.dec r.2).map fun r' => ((r.1, r'.1), r'.2)
  dec_enc x rest := by
    rw [append_assoc, c.dec_enc, bind_some, d.dec_enc]
    rfl

/-- Disjoint sums, with a tag byte. -/
def sum (c : PrefixCode α) (d : PrefixCode β) : PrefixCode (α ⊕ β) where
  enc
    | .inl a => 0 :: c.enc a
    | .inr b => 1 :: d.enc b
  dec
    | [] => none
    | t :: bytes =>
      if t = 0 then (c.dec bytes).map fun r => (.inl r.1, r.2)
      else (d.dec bytes).map fun r => (.inr r.1, r.2)
  dec_enc x rest := by
    cases x with
    | inl a =>
      simp only [cons_append, if_true, c.dec_enc]
      rfl
    | inr b =>
      simp only [cons_append, d.dec_enc]
      rfl

def iso (c : PrefixCode α) (f : α → β) (g : β → α) (h : ∀ b, f (g b) = b) : PrefixCode β where
  enc b := c.enc (g b)
  dec bytes := (c.dec bytes).map fun r => (f r.1, r.2)
  dec_enc b rest := by
    rw [c.dec_enc, map_some, h]

def decMany (c : PrefixCode α) : ℕ → List UInt8 → Option (List α × List UInt8)
  | 0, bytes => some ([], bytes)
  | n + 1, bytes => (c.dec bytes).bind fun r => (decMany c n r.2).map fun r' => (r.1 :: r'.1, r'.2)

def list (c : PrefixCode α) : PrefixCode (List α) where
  enc l := nat.enc l.length ++ (l.map c.enc).flatten
  dec bytes := (nat.dec bytes).bind fun r => decMany c r.1 r.2
  dec_enc l rest := by
    rw [append_assoc, nat.dec_enc, bind_some]
    induction l with
    | nil => rfl
    | cons a l ih =>
      rw [length_cons, map_cons, flatten_cons, append_assoc, decMany, c.dec_enc,
        bind_some, ih]
      rfl

def string : PrefixCode String :=
  (list nat).iso (fun l => String.ofList (l.map Char.ofNat)) (fun s => s.toList.map Char.toNat) fun s => by
    rw [List.map_map, show Char.ofNat ∘ Char.toNat = id from funext Char.ofNat_toNat, List.map_id,
      String.ofList_toList]

def bool : PrefixCode Bool :=
  nat.iso (fun n => n != 0) Bool.toNat fun b => by cases b <;> rfl

def option (c : PrefixCode α) : PrefixCode (Option α) :=
  (list c).iso List.head? Option.toList fun o => by cases o <;> rfl

end PrefixCode

end QuillCache.Lib
