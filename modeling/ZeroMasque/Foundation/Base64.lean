import Mathlib.Data.List.Basic
import Mathlib.Tactic.Ring

/-! Base64 as an interface, and the codec of RFC 4648 with padding. -/
namespace ZeroMasque.Foundation

/-- A base64 codec; a failed decoding says why. -/
structure Base64 where
  encodeString : List UInt8 → List Char
  decodeVec : List Char → Except String (List UInt8)

/-- The alphabet with its padding character. -/
def isBase64 (c : Char) : Bool := c.isAlphanum || c == '+' || c == '/' || c == '='

/-- The codec decodes what it encodes, and encodes into the alphabet. -/
structure Base64.Standard (b64 : Base64) : Prop where
  decode_encode : ∀ bs, b64.decodeVec (b64.encodeString bs) = .ok bs
  alphabet : ∀ bs, ∀ c ∈ b64.encodeString bs, isBase64 c

private theorem in_alphabet_range {c : Char} {lo hi : UInt32} (h : lo ≤ c.val ∧ c.val ≤ hi) (hlo : 43 ≤ lo.toNat)
    (hhi : hi.toNat ≤ 122) : 43 ≤ c.toNat ∧ c.toNat ≤ 122 :=
  ⟨hlo.trans h.1, le_trans h.2 hhi⟩

private theorem bounds_of_and {c : Char} {lo hi : UInt32}
    (h : (decide (c.val ≥ lo) && decide (c.val ≤ hi)) = true) : lo ≤ c.val ∧ c.val ≤ hi := by
  rwa [Bool.and_eq_true, decide_eq_true_eq, decide_eq_true_eq] at h

/-- The alphabet lies between `+` and `z`, and `-` is not in it. -/
theorem isBase64_range {c : Char} (h : isBase64 c) : 43 ≤ c.toNat ∧ c.toNat ≤ 122 ∧ c ≠ '-' := by
  have hne : c ≠ '-' := by
    rintro rfl
    exact absurd h (by decide)
  have hrange : 43 ≤ c.toNat ∧ c.toNat ≤ 122 := by
    simp only [isBase64, Bool.or_eq_true, beq_iff_eq] at h
    rcases h with ((halnum | rfl) | rfl) | rfl
    · rcases Bool.or_eq_true_iff.mp halnum with halpha | hdigit
      · rcases Bool.or_eq_true_iff.mp halpha with hupper | hlower
        · exact in_alphabet_range (of_decide_eq_true hupper) (by decide) (by decide)
        · exact in_alphabet_range (bounds_of_and hlower) (by decide) (by decide)
      · exact in_alphabet_range (bounds_of_and hdigit) (by decide) (by decide)
    · decide
    · decide
    · decide
  exact ⟨hrange.1, hrange.2, hne⟩

namespace Rfc4648

/-- The character of a value below 64. -/
def digit (n : Nat) : Char :=
  if n < 26 then Char.ofNat (n + 65)
  else if n < 52 then Char.ofNat (n + 71)
  else if n < 62 then Char.ofNat (n - 4)
  else if n = 62 then '+' else '/'

/-- The value of a character of the alphabet. -/
def value (c : Char) : Option Nat :=
  let n := c.toNat
  if 65 ≤ n ∧ n ≤ 90 then some (n - 65)
  else if 97 ≤ n ∧ n ≤ 122 then some (n - 71)
  else if 48 ≤ n ∧ n ≤ 57 then some (n + 4)
  else if c = '+' then some 62
  else if c = '/' then some 63
  else none

/-- The k lowest digits, highest first. -/
def spell : Nat → Nat → List Char
  | 0, _ => []
  | k + 1, n => digit (n / 64 ^ k % 64) :: spell k n

/-- Continue reading digits after the value read so far. -/
def read (acc : Nat) : List Char → Option Nat
  | [] => some acc
  | c :: cs => (value c).bind fun v => read (acc * 64 + v) cs

def encode : List UInt8 → List Char
  | [] => []
  | [a] => spell 2 (a.toNat * 16) ++ ['=', '=']
  | [a, b] => spell 3 ((a.toNat * 256 + b.toNat) * 4) ++ ['=']
  | a :: b :: c :: rest => spell 4 ((a.toNat * 256 + b.toNat) * 256 + c.toNat) ++ encode rest

/-- Groups of four characters. The bits that padding leaves over are zero. -/
def decode? : List Char → Option (List UInt8)
  | [] => some []
  | a :: b :: c :: d :: rest =>
    if rest = [] ∧ c = '=' ∧ d = '=' then
      (read 0 [a, b]).bind fun n => if n % 16 = 0 then some [UInt8.ofNat (n / 16)] else none
    else if rest = [] ∧ d = '=' then
      (read 0 [a, b, c]).bind fun n =>
        if n % 4 = 0 then some [UInt8.ofNat (n / 1024), UInt8.ofNat (n / 4)] else none
    else
      (read 0 [a, b, c, d]).bind fun n =>
        (decode? rest).map fun more =>
          UInt8.ofNat (n / 65536) :: UInt8.ofNat (n / 256) :: UInt8.ofNat n :: more
  | _ => none

def decode (cs : List Char) : Except String (List UInt8) :=
  match decode? cs with
  | some bs => .ok bs
  | none => .error "invalid Base64 encoding"

private theorem digit_spec : ∀ k : Fin 64, value (digit k) = some k.val ∧ digit k ≠ '=' ∧ isBase64 (digit k) := by
  decide

private theorem value_digit (n : Nat) : value (digit (n % 64)) = some (n % 64) :=
  (digit_spec ⟨n % 64, by omega⟩).1

private theorem digit_ne (n : Nat) : digit (n % 64) ≠ '=' := (digit_spec ⟨n % 64, by omega⟩).2.1

private theorem isBase64_spell (k n : Nat) : ∀ c ∈ spell k n, isBase64 c := by
  induction k with
  | zero => simp [spell]
  | succ k ih =>
    intro c hc
    rcases List.mem_cons.mp hc with rfl | hc
    · exact (digit_spec ⟨n / 64 ^ k % 64, by omega⟩).2.2
    · exact ih c hc

private theorem read_spell (acc k n : Nat) : read acc (spell k n) = some (acc * 64 ^ k + n % 64 ^ k) := by
  induction k generalizing acc with
  | zero => simp [spell, read, Nat.mod_one]
  | succ k ih =>
    have hm : n % 64 ^ (k + 1) = n % 64 ^ k + 64 ^ k * (n / 64 ^ k % 64) := by rw [pow_succ, Nat.mod_mul]
    rw [spell, read, value_digit, Option.bind_some, ih, hm]
    congr 1
    ring

private theorem ofNat_eq {n : Nat} (b : UInt8) (h : n % 256 = b.toNat) : UInt8.ofNat n = b := by
  apply UInt8.toNat_inj.mp
  rw [UInt8.toNat_ofNat', h]

theorem decode_encode (bs : List UInt8) : decode? (encode bs) = some bs := by
  induction bs using encode.induct with
  | case1 => rfl
  | case2 a =>
    have ha := a.toNat_lt
    have hread := read_spell 0 2 (a.toNat * 16)
    simp only [spell] at hread
    simp only [encode, spell, List.cons_append, List.nil_append, decode?, and_self, if_true, hread, Option.bind_some]
    rw [if_pos (by omega), ofNat_eq a (by omega)]
  | case3 a b =>
    have ha := a.toNat_lt
    have hb := b.toNat_lt
    have hread := read_spell 0 3 ((a.toNat * 256 + b.toNat) * 4)
    simp only [spell] at hread
    simp only [encode, spell, List.cons_append, List.nil_append, decode?, digit_ne, and_self, and_true, true_and,
      if_false, if_true, hread, Option.bind_some]
    rw [if_pos (by omega), ofNat_eq a (by omega), ofNat_eq b (by omega)]
  | case4 a b c rest ih =>
    have ha := a.toNat_lt
    have hb := b.toNat_lt
    have hc := c.toNat_lt
    have hread := read_spell 0 4 ((a.toNat * 256 + b.toNat) * 256 + c.toNat)
    simp only [spell] at hread
    simp only [encode, spell, List.cons_append, List.nil_append, decode?, digit_ne, and_false,
      if_false, hread, ih, Option.bind_some, Option.map_some]
    rw [ofNat_eq a (by omega), ofNat_eq b (by omega), ofNat_eq c (by omega)]

theorem isBase64_encode (bs : List UInt8) : ∀ c ∈ encode bs, isBase64 c := by
  induction bs using encode.induct with
  | case1 => simp [encode]
  | case2 a =>
    intro c hc
    rcases List.mem_append.mp hc with hc | hc
    · exact isBase64_spell _ _ c hc
    · simp_all [isBase64]
  | case3 a b =>
    intro c hc
    rcases List.mem_append.mp hc with hc | hc
    · exact isBase64_spell _ _ c hc
    · simp_all [isBase64]
  | case4 a b c rest ih =>
    intro c hc
    rcases List.mem_append.mp hc with hc | hc
    · exact isBase64_spell _ _ c hc
    · exact ih c hc

end Rfc4648

/-- The codec of RFC 4648, with padding. -/
def rfc4648 : Base64 := ⟨Rfc4648.encode, Rfc4648.decode⟩

theorem rfc4648_standard : rfc4648.Standard where
  decode_encode bs := by simp only [rfc4648, Rfc4648.decode, Rfc4648.decode_encode]
  alphabet := Rfc4648.isBase64_encode

example : rfc4648.encodeString [77, 97, 110, 77] = "TWFuTQ==".toList := by decide

end ZeroMasque.Foundation
