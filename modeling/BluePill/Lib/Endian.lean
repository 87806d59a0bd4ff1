import Mathlib.Data.Nat.Bitwise
import Mathlib.Tactic

/-! Little-endian bytes of naturals, and the masks that clear low bits of a word. -/
namespace BluePill.Lib

/-- The `w` little-endian bytes of `n`; higher bits are dropped. -/
def toLE : ℕ → ℕ → List UInt8
  | 0, _ => []
  | w + 1, n => UInt8.ofNat n :: toLE w (n / 256)

/-- The natural with the given little-endian bytes. -/
def ofLE : List UInt8 → ℕ
  | [] => 0
  | b :: bs => b.toNat + 256 * ofLE bs

@[simp] theorem toLE_length (w n : ℕ) : (toLE w n).length = w := by
  induction w generalizing n with
  | zero => rfl
  | succ w ih => simp [toLE, ih]

theorem ofLE_toLE (w n : ℕ) : ofLE (toLE w n) = n % 256 ^ w := by
  induction w generalizing n with
  | zero => simp [toLE, ofLE, Nat.mod_one]
  | succ w ih =>
    have hb : (UInt8.ofNat n).toNat = n % 256 := by simp
    rw [toLE, ofLE, ih, hb, pow_succ', Nat.mod_mul]

theorem ofLE_toLE_of_lt {w n : ℕ} (h : n < 256 ^ w) : ofLE (toLE w n) = n := by
  rw [ofLE_toLE, Nat.mod_eq_of_lt h]

theorem ofLE_lt (bs : List UInt8) : ofLE bs < 256 ^ bs.length := by
  induction bs with
  | nil => exact Nat.one_pos
  | cons b bs ih =>
    have hb := b.toNat_lt
    rw [ofLE, List.length_cons, pow_succ']
    omega

theorem toLE_ofLE (bs : List UInt8) : toLE bs.length (ofLE bs) = bs := by
  induction bs with
  | nil => rfl
  | cons b bs ih =>
    have hb := b.toNat_lt
    have hdiv : (b.toNat + 256 * ofLE bs) / 256 = ofLE bs := by omega
    rw [List.length_cons, toLE, ofLE, hdiv, ih]
    congr 1
    apply UInt8.toNat_inj.mp
    simp

/-- Joining two bytes with a shift and an or. -/
theorem or_shiftLeft_eight (lo hi : UInt8) : lo.toNat ||| (hi.toNat <<< 8) = ofLE [lo, hi] := by
  have h := Nat.shiftLeft_add_eq_or_of_lt (i := 8) (by simpa using lo.toNat_lt) hi.toNat
  rw [Nat.or_comm, ← h, Nat.shiftLeft_eq, ofLE, ofLE, ofLE]
  ring

/-- The word of `w` bits whose low `k` bits are clear and all others set. -/
theorem testBit_complement_mask (w k i : ℕ) (hk : k ≤ w) :
    (2 ^ w - 2 ^ k).testBit i = (decide (k ≤ i) && decide (i < w)) := by
  have hsplit : 2 ^ w - 2 ^ k = (2 ^ (w - k) - 1) <<< k := by
    rw [Nat.shiftLeft_eq, Nat.sub_mul, ← pow_add, Nat.sub_add_cancel hk, one_mul]
  rw [hsplit, Nat.testBit_shiftLeft, Nat.testBit_two_pow_sub_one]
  by_cases h : k ≤ i
  · simp only [ge_iff_le, h, decide_true, Bool.true_and, decide_eq_decide]
    omega
  · simp [h]

/-- Masking off the low `k` bits rounds down to a multiple of `2 ^ k`. -/
theorem and_complement_mask {w k p : ℕ} (hk : k ≤ w) (hp : p < 2 ^ w) :
    p &&& (2 ^ w - 2 ^ k) = p / 2 ^ k * 2 ^ k := by
  apply Nat.eq_of_testBit_eq
  intro i
  rw [Nat.testBit_and, testBit_complement_mask w k i hk, Nat.testBit_mul_two_pow,
    Nat.testBit_div_two_pow]
  by_cases h : k ≤ i
  · have hi : i - k + k = i := by omega
    by_cases hw : i < w
    · simp [h, hw, hi]
    · have hz : p.testBit i = false := Nat.testBit_lt_two_pow (hp.trans_le
        (Nat.pow_le_pow_right (by norm_num) (by omega)))
      simp [hi, hz]
  · simp [h]

end BluePill.Lib
