import Mathlib.Data.List.Basic
import Mathlib.Tactic.Ring

/-! Big-endian digits of a natural number in base 256. -/
namespace ZeroMasque.Foundation

/-- Continue reading digits after the value read so far. -/
def ofBytes (acc : Nat) (bs : List UInt8) : Nat := bs.foldl (fun v b => v * 256 + b.toNat) acc

/-- The k lowest digits, most significant first. -/
def toBytes : Nat → Nat → List UInt8
  | 0, _ => []
  | k + 1, n => UInt8.ofNat (n / 256 ^ k) :: toBytes k n

@[simp] theorem length_toBytes (k n : Nat) : (toBytes k n).length = k := by
  induction k with
  | zero => rfl
  | succ k ih => simp [toBytes, ih]

theorem ofBytes_cons (acc : Nat) (b : UInt8) (bs : List UInt8) :
    ofBytes acc (b :: bs) = ofBytes (acc * 256 + b.toNat) bs := rfl

/-- Reading the digits of n appends them to what was read before. -/
theorem ofBytes_toBytes (k acc n : Nat) :
    ofBytes acc (toBytes k n) = acc * 256 ^ k + n % 256 ^ k := by
  induction k generalizing acc with
  | zero => simp [toBytes, ofBytes, Nat.mod_one]
  | succ k ih =>
    have hd : (UInt8.ofNat (n / 256 ^ k)).toNat = n / 256 ^ k % 256 := by simp
    have hm : n % 256 ^ (k + 1) = n % 256 ^ k + 256 ^ k * (n / 256 ^ k % 256) := by
      rw [pow_succ, Nat.mod_mul]
    rw [toBytes, ofBytes_cons, ih, hd, hm]
    ring

/-- What was read before, shifted, and a rest below the shift. -/
theorem ofBytes_split (acc : Nat) (bs : List UInt8) :
    ∃ r < 256 ^ bs.length, ofBytes acc bs = acc * 256 ^ bs.length + r := by
  induction bs generalizing acc with
  | nil => exact ⟨0, by simp, by simp [ofBytes]⟩
  | cons b bs ih =>
    obtain ⟨r, hr, heq⟩ := ih (acc * 256 + b.toNat)
    have hb : b.toNat + 1 ≤ 256 := b.toNat_lt
    refine ⟨b.toNat * 256 ^ bs.length + r, ?_, ?_⟩
    · calc b.toNat * 256 ^ bs.length + r
          < b.toNat * 256 ^ bs.length + 256 ^ bs.length := by omega
        _ = (b.toNat + 1) * 256 ^ bs.length := by ring
        _ ≤ 256 * 256 ^ bs.length := Nat.mul_le_mul_right _ hb
        _ = 256 ^ (b :: bs).length := by rw [List.length_cons, pow_succ, Nat.mul_comm]
    · rw [ofBytes_cons, heq, List.length_cons, pow_succ]
      ring

/-- The digits of what was read are the digits that were read. -/
theorem toBytes_ofBytes (acc : Nat) (bs : List UInt8) : toBytes bs.length (ofBytes acc bs) = bs := by
  induction bs generalizing acc with
  | nil => rfl
  | cons b bs ih =>
    obtain ⟨r, hr, heq⟩ := ofBytes_split (acc * 256 + b.toNat) bs
    have hdigit : ofBytes acc (b :: bs) / 256 ^ bs.length = acc * 256 + b.toNat := by
      rw [ofBytes_cons, heq, Nat.mul_comm, Nat.mul_add_div (Nat.pow_pos (by omega)), Nat.div_eq_of_lt hr,
        Nat.add_zero]
    have hb : UInt8.ofNat (acc * 256 + b.toNat) = b := by
      apply UInt8.toNat_inj.mp
      have := b.toNat_lt
      simp only [UInt8.toNat_ofNat']
      omega
    rw [List.length_cons, toBytes, hdigit, hb, ofBytes_cons, ih]

end ZeroMasque.Foundation
