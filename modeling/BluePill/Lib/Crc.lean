import Mathlib.Algebra.Polynomial.Div
import Mathlib.Algebra.Polynomial.FieldDivision
import Mathlib.Data.List.GetD
import Mathlib.Data.ZMod.Basic
import Mathlib.Tactic

/-! Cyclic redundancy checks: a shift register fed bit by bit, and the remainder of a polynomial
over the field of two elements that it computes. -/
namespace BluePill.Lib
open Polynomial

/-- A bit as an element of the field. -/
def bitValue (b : Bool) : ZMod 2 := if b then 1 else 0

@[simp] theorem bitValue_false : bitValue false = 0 := rfl

@[simp] theorem bitValue_true : bitValue true = 1 := rfl

theorem bitValue_xor (a b : Bool) : bitValue (a ^^ b) = bitValue a + bitValue b := by
  cases a <;> cases b <;> decide

theorem bitValue_injective : Function.Injective bitValue := by
  intro a b h
  cases a <;> cases b <;> revert h <;> decide

variable {w : ℕ}

/-- The bits of a register as coefficients, the lowest bit constant. -/
noncomputable def bitPoly (c : BitVec w) : (ZMod 2)[X] :=
  ∑ i ∈ Finset.range w, C (bitValue (c.getLsbD i)) * X ^ i

@[simp] theorem bitPoly_coeff (c : BitVec w) (i : ℕ) :
    (bitPoly c).coeff i = bitValue (c.getLsbD i) := by
  unfold bitPoly
  simp only [finsetSum_coeff, coeff_C_mul_X_pow]
  rw [Finset.sum_ite_eq]
  split_ifs with h
  · rfl
  · rw [Finset.mem_range, not_lt] at h
    rw [BitVec.getLsbD_of_ge c i h, bitValue_false]

theorem bitPoly_injective : Function.Injective (bitPoly (w := w)) := by
  intro a b h
  apply BitVec.eq_of_getLsbD_eq
  intro i _
  have hcoeff := congrArg (fun p : (ZMod 2)[X] => p.coeff i) h
  simp only [bitPoly_coeff] at hcoeff
  exact bitValue_injective hcoeff

theorem bitPoly_xor (a b : BitVec w) : bitPoly (a ^^^ b) = bitPoly a + bitPoly b := by
  ext i
  simp [bitValue_xor]

theorem bitPoly_zero : bitPoly (0#w) = 0 := by
  ext i
  simp

theorem degree_bitPoly_lt (c : BitVec w) : (bitPoly c).degree < w := by
  rw [degree_lt_iff_coeff_zero]
  intro i hi
  rw [bitPoly_coeff, BitVec.getLsbD_of_ge c i hi, bitValue_false]

/-- Shifting by `v` multiplies by `X ^ v`; the bits shifted out are the coefficients from `w` on. -/
theorem X_pow_mul_bitPoly (c : BitVec w) {v : ℕ} (hv : v ≤ w) :
    X ^ v * bitPoly c = X ^ w * bitPoly (c >>> (w - v)) + bitPoly (c <<< v) := by
  ext i
  simp only [coeff_add, coeff_X_pow_mul', bitPoly_coeff, BitVec.getLsbD_ushiftRight,
    BitVec.getLsbD_shiftLeft]
  by_cases hlow : i < v
  · have hw : i < w := by omega
    simp [hlow, hw, not_le.mpr hlow, not_le.mpr hw]
  · by_cases hw : i < w
    · simp [hlow, hw, not_lt.mp hlow, not_le.mpr hw]
    · have hplace : w - v + (i - w) = i - v := by omega
      simp [hw, not_lt.mp hlow, not_lt.mp hw, hplace]

/-- A message, its first bit the highest coefficient. -/
noncomputable def messagePoly : List Bool → (ZMod 2)[X]
  | [] => 0
  | b :: bs => C (bitValue b) * X ^ bs.length + messagePoly bs

theorem degree_messagePoly_lt (bs : List Bool) : (messagePoly bs).degree < bs.length := by
  induction bs with
  | nil => simp [messagePoly]
  | cons b bs ih =>
    rw [degree_lt_iff_coeff_zero] at ih ⊢
    intro i hi
    rw [List.length_cons] at hi
    have hrest := ih i (by omega)
    have hne : i ≠ bs.length := by omega
    simp [messagePoly, hrest, coeff_X_pow, hne]

theorem messagePoly_coeff (bs : List Bool) (i : ℕ) :
    (messagePoly bs).coeff i = bitValue (bs.reverse.getD i false) := by
  induction bs with
  | nil => simp [messagePoly]
  | cons b bs ih =>
    rw [messagePoly, coeff_add, coeff_C_mul_X_pow, ih, List.reverse_cons]
    rcases lt_trichotomy i bs.length with hlt | rfl | hgt
    · rw [if_neg hlt.ne, zero_add, List.getD_append _ _ _ _ (by simpa using hlt)]
    · simp
    · rw [if_neg hgt.ne', zero_add, List.getD_eq_default _ _ (by simpa using hgt.le),
        List.getD_eq_default _ _ (by simpa using hgt)]

/-- The bits of a value, the highest first. -/
def bitsBE {v : ℕ} (d : BitVec v) : List Bool := ((List.range v).map d.getLsbD).reverse

@[simp] theorem bitsBE_length {v : ℕ} (d : BitVec v) : (bitsBE d).length = v := by simp [bitsBE]

theorem messagePoly_bitsBE {v : ℕ} (d : BitVec v) : messagePoly (bitsBE d) = bitPoly d := by
  ext i
  rw [messagePoly_coeff, bitPoly_coeff, bitsBE, List.reverse_reverse]
  by_cases hi : i < v
  · simp [hi]
  · rw [List.getD_eq_default _ _ (by simpa using hi), BitVec.getLsbD_of_ge d i (by omega)]

theorem bitsBE_injective {v : ℕ} : Function.Injective (bitsBE (v := v)) := by
  intro a b h
  apply bitPoly_injective
  rw [← messagePoly_bitsBE, h, messagePoly_bitsBE]

theorem messagePoly_append (xs ys : List Bool) :
    messagePoly (xs ++ ys) = X ^ ys.length * messagePoly xs + messagePoly ys := by
  induction xs with
  | nil => simp [messagePoly]
  | cons b xs ih =>
    rw [List.cons_append, messagePoly, messagePoly, ih, List.length_append, pow_add]
    ring

/-- Messages of one length are told apart by their polynomials. -/
theorem messagePoly_inj {xs ys : List Bool} (hlen : xs.length = ys.length)
    (h : messagePoly xs = messagePoly ys) : xs = ys := by
  induction xs generalizing ys with
  | nil => exact (List.length_eq_zero_iff.mp hlen.symm).symm
  | cons x xs ih =>
    cases ys with
    | nil => simp at hlen
    | cons y ys =>
      have hlen' : xs.length = ys.length := by simpa using hlen
      have hx := (degree_lt_iff_coeff_zero _ _).mp (degree_messagePoly_lt xs) xs.length le_rfl
      have hy := (degree_lt_iff_coeff_zero _ _).mp (degree_messagePoly_lt ys) ys.length le_rfl
      have htop := congrArg (fun p : (ZMod 2)[X] => p.coeff xs.length) h
      simp only [messagePoly, coeff_add, hx, coeff_C_mul_X_pow, if_true, add_zero] at htop
      rw [hlen', hy, if_pos rfl, add_zero] at htop
      obtain rfl := bitValue_injective htop
      rw [messagePoly, messagePoly, hlen', add_right_inj] at h
      rw [ih hlen' h]

/-- One shift of the register: the bit shifted out selects the generator. -/
def crcShift (p c : BitVec w) : BitVec w := if c.msb then c <<< 1 ^^^ p else c <<< 1

def crcShifts (p : BitVec w) : ℕ → BitVec w → BitVec w
  | 0, c => c
  | n + 1, c => crcShifts p n (crcShift p c)

/-- The register after the bits of a message, each added to the bit about to be shifted out. -/
def crcFeed (p : BitVec w) : BitVec w → List Bool → BitVec w
  | c, [] => c
  | c, b :: bs => crcFeed p (crcShift p (if b then c ^^^ BitVec.twoPow w (w - 1) else c)) bs

theorem crcFeed_append (p c : BitVec w) (xs ys : List Bool) :
    crcFeed p c (xs ++ ys) = crcFeed p (crcFeed p c xs) ys := by
  induction xs generalizing c with
  | nil => rfl
  | cons x xs ih => exact ih _

/-- The polynomial divided by: the register's own bits below the leading term. -/
noncomputable def generator (p : BitVec w) : (ZMod 2)[X] := X ^ w + bitPoly p

theorem generator_monic (p : BitVec w) : (generator p).Monic := by
  apply (monic_X.pow w).add_of_left
  simpa only [degree_X_pow] using degree_bitPoly_lt p

theorem degree_generator (p : BitVec w) : (generator p).degree = w := by
  unfold generator
  rw [degree_add_eq_left_of_degree_lt, degree_X_pow]
  simpa only [degree_X_pow] using degree_bitPoly_lt p

/-- A register is its own remainder. -/
theorem bitPoly_modByMonic (p c : BitVec w) : bitPoly c %ₘ generator p = bitPoly c := by
  rw [modByMonic_eq_self_iff (generator_monic p), degree_generator]
  exact degree_bitPoly_lt c

/-- Multiplying a remainder and adding to it commutes with taking it. -/
theorem mul_add_modByMonic (g a b c : (ZMod 2)[X]) (hg : g.Monic) :
    (a * (b %ₘ g) + c) %ₘ g = (a * b + c) %ₘ g := by
  apply modByMonic_eq_of_dvd_sub hg
  have hdiff : a * (b %ₘ g) + c - (a * b + c) = g * (a * -(b /ₘ g)) := by
    have hdiv := modByMonic_add_div b g
    calc a * (b %ₘ g) + c - (a * b + c)
        = a * (b %ₘ g) - a * (b %ₘ g + g * (b /ₘ g)) := by rw [hdiv]; ring
      _ = g * (a * -(b /ₘ g)) := by ring
  exact hdiff ▸ dvd_mul_right _ _

theorem bitPoly_crcShift (p c : BitVec w) :
    bitPoly (crcShift p c) = (X * bitPoly c) %ₘ generator p := by
  rcases Nat.eq_zero_or_pos w with rfl | hw
  · have hzero : ∀ x : BitVec 0, bitPoly x = 0 := by intro x; simp [bitPoly]
    simp [hzero]
  have hout : X ^ w * bitPoly (c >>> (w - 1)) = C (bitValue c.msb) * X ^ w := by
    ext i
    rw [coeff_X_pow_mul', coeff_C_mul_X_pow, bitPoly_coeff, BitVec.getLsbD_ushiftRight,
      BitVec.msb_eq_getLsbD_last]
    rcases lt_trichotomy i w with hlt | rfl | hgt
    · simp [not_le.mpr hlt, hlt.ne]
    · simp
    · rw [BitVec.getLsbD_of_ge c _ (by omega)]
      simp [hgt.ne']
  have hshift := X_pow_mul_bitPoly c (v := 1) hw
  rw [pow_one, hout] at hshift
  rw [hshift]
  unfold crcShift
  split_ifs with hmsb
  · have hsplit : C (bitValue c.msb) * X ^ w + bitPoly (c <<< 1) =
        bitPoly (c <<< 1 ^^^ p) + generator p * 1 := by
      have hchar : bitPoly p + bitPoly p = 0 := CharTwo.add_self_eq_zero _
      rw [hmsb, bitValue_true, C_1, one_mul, bitPoly_xor, generator]
      linear_combination -hchar
    have hself : generator p * 1 %ₘ generator p = 0 := by
      rw [mul_one]
      exact modByMonic_self (generator_monic p)
    rw [hsplit, add_modByMonic, hself, add_zero, bitPoly_modByMonic]
  · simp only [Bool.not_eq_true] at hmsb
    rw [hmsb, bitValue_false, C_0, zero_mul, zero_add, bitPoly_modByMonic]

/-- **The register is a remainder.** After the bits `bs` it holds the old register and the message
behind it, divided by the generator. -/
theorem bitPoly_crcFeed (hw : 0 < w) (p c : BitVec w) (bs : List Bool) :
    bitPoly (crcFeed p c bs) =
      (X ^ bs.length * bitPoly c + X ^ w * messagePoly bs) %ₘ generator p := by
  induction bs generalizing c with
  | nil => simp [crcFeed, messagePoly, bitPoly_modByMonic]
  | cons b bs ih =>
    have hbit : bitPoly (if b then c ^^^ BitVec.twoPow w (w - 1) else c) =
        bitPoly c + C (bitValue b) * X ^ (w - 1) := by
      ext i
      have htop : (BitVec.twoPow w (w - 1)).getLsbD i = decide (i = w - 1) := by
        rw [BitVec.getLsbD_twoPow, decide_eq_true (by omega), Bool.true_and, decide_eq_decide]
        exact eq_comm
      cases b with
      | false => simp
      | true =>
        rw [if_pos rfl, bitPoly_xor, coeff_add, coeff_add, bitPoly_coeff, bitPoly_coeff, htop]
        simp [coeff_X_pow, bitValue]
    rw [crcFeed, ih, bitPoly_crcShift, mul_add_modByMonic _ _ _ _ (generator_monic p), hbit,
      messagePoly, List.length_cons]
    have hpow : (X : (ZMod 2)[X]) ^ w = X * X ^ (w - 1) := by
      rw [← pow_succ', Nat.sub_add_cancel hw]
    rw [hpow, pow_succ]
    congr 1
    ring

theorem bitPoly_crcShifts (p c : BitVec w) (n : ℕ) :
    bitPoly (crcShifts p n c) = (X ^ n * bitPoly c) %ₘ generator p := by
  induction n generalizing c with
  | zero => simp [crcShifts, bitPoly_modByMonic]
  | succ n ih =>
    have hmul := mul_add_modByMonic (generator p) (X ^ n) (X * bitPoly c) 0 (generator_monic p)
    rw [add_zero, add_zero] at hmul
    rw [crcShifts, ih, bitPoly_crcShift, hmul, pow_succ, mul_assoc]

variable {v : ℕ}

/-- `v` bits moved to the top of the register. -/
theorem X_pow_mul_bitPoly_top (hv : v ≤ w) {e : BitVec w} (he : e >>> v = 0#w) :
    X ^ v * bitPoly (e <<< (w - v)) = X ^ w * bitPoly e := by
  have htop := X_pow_mul_bitPoly e (Nat.sub_le w v)
  have hback : w - (w - v) = v := by omega
  rw [hback, he, bitPoly_zero, mul_zero, zero_add] at htop
  rw [← htop, ← mul_assoc, ← pow_add, Nat.add_sub_cancel' hv]

theorem bitPoly_setWidth (hv : v ≤ w) (d : BitVec v) : bitPoly (d.setWidth w) = bitPoly d := by
  ext i
  rw [bitPoly_coeff, bitPoly_coeff, BitVec.getLsbD_setWidth]
  by_cases hi : i < w
  · simp [hi]
  · rw [BitVec.getLsbD_of_ge d i (by omega), Bool.and_false]

theorem setWidth_ushiftRight_eq_zero (w : ℕ) (d : BitVec v) : d.setWidth w >>> v = 0#w := by
  apply BitVec.eq_of_getLsbD_eq
  intro i _
  simp only [BitVec.getLsbD_ushiftRight, BitVec.getLsbD_setWidth, BitVec.getLsbD_zero]
  rw [BitVec.getLsbD_of_ge d _ (by omega), Bool.and_false]

/-- `v` bits may be added to the register at once and shifted through it afterwards. -/
theorem crcFeed_bitsBE (hw : 0 < w) (hv : v ≤ w) (p c : BitVec w) (d : BitVec v) :
    crcFeed p c (bitsBE d) = crcShifts p v (c ^^^ d.setWidth w <<< (w - v)) := by
  apply bitPoly_injective
  rw [bitPoly_crcFeed hw, bitPoly_crcShifts, messagePoly_bitsBE, bitsBE_length, bitPoly_xor,
    mul_add, X_pow_mul_bitPoly_top hv (setWidth_ushiftRight_eq_zero w d), bitPoly_setWidth hv]

/-- **A table step.** Only the `v` bits shifted out meet the generator, and what they leave can be
looked up. -/
theorem crcFeed_table (hw : 0 < w) (hv : v ≤ w) (p c : BitVec w) (d : BitVec v) :
    crcFeed p c (bitsBE d) =
      c <<< v ^^^ crcShifts p v ((c >>> (w - v) ^^^ d.setWidth w) <<< (w - v)) := by
  have hout : c >>> (w - v) >>> v = 0#w := by
    rw [← BitVec.shiftRight_add, Nat.sub_add_cancel hv]
    exact BitVec.ushiftRight_eq_zero le_rfl
  have hindex : (c >>> (w - v) ^^^ d.setWidth w) >>> v = 0#w := by
    rw [BitVec.ushiftRight_xor_distrib, hout, setWidth_ushiftRight_eq_zero, BitVec.xor_zero]
  apply bitPoly_injective
  rw [bitPoly_crcFeed hw, messagePoly_bitsBE, bitsBE_length, X_pow_mul_bitPoly c hv, bitPoly_xor,
    bitPoly_crcShifts, X_pow_mul_bitPoly_top hv hindex, bitPoly_xor, bitPoly_setWidth hv,
    ← bitPoly_modByMonic p (c <<< v), ← add_modByMonic, bitPoly_modByMonic]
  congr 1
  ring

theorem generator_isCoprime_X {p : BitVec w} (hw : 0 < w) (hp : p.getLsbD 0 = true) :
    IsCoprime (generator p) X := by
  apply IsCoprime.symm
  rw [(prime_X (R := ZMod 2)).irreducible.coprime_iff_not_dvd, X_dvd_iff]
  simp [generator, hp, coeff_X_pow, hw.ne]

/-- Two messages that differ only inside `w` consecutive bits leave different registers, whatever
comes before and after. -/
theorem crcFeed_ne_of_burst {p : BitVec w} (hw : 0 < w) (hp : p.getLsbD 0 = true) (c : BitVec w)
    (front back : List Bool) {xs ys : List Bool} (hlen : xs.length = ys.length)
    (hburst : xs.length ≤ w) (hne : xs ≠ ys) :
    crcFeed p c (front ++ xs ++ back) ≠ crcFeed p c (front ++ ys ++ back) := by
  intro heq
  apply hne
  have hpoly := congrArg bitPoly heq
  rw [bitPoly_crcFeed hw, bitPoly_crcFeed hw] at hpoly
  have hlens : (front ++ xs ++ back).length = (front ++ ys ++ back).length := by
    simp only [List.length_append, hlen]
  have hdvd : generator p ∣ X ^ (w + back.length) * (messagePoly xs - messagePoly ys) := by
    rw [← modByMonic_eq_zero_iff_dvd (generator_monic p)]
    have hdiff : X ^ (w + back.length) * (messagePoly xs - messagePoly ys) =
        X ^ (front ++ xs ++ back).length * bitPoly c + X ^ w * messagePoly (front ++ xs ++ back) -
        (X ^ (front ++ ys ++ back).length * bitPoly c +
          X ^ w * messagePoly (front ++ ys ++ back)) := by
      rw [hlens, messagePoly_append, messagePoly_append, messagePoly_append, messagePoly_append,
        hlen, pow_add]
      ring
    rw [hdiff, sub_modByMonic, hpoly, sub_self]
  have hpart := (generator_isCoprime_X hw hp).pow_right.dvd_of_dvd_mul_left hdvd
  have hdeg : (messagePoly xs - messagePoly ys).degree < (generator p).degree := by
    rw [degree_generator]
    have hx := degree_messagePoly_lt xs
    have hy := degree_messagePoly_lt ys
    rw [← hlen] at hy
    have hle : ((xs.length : ℕ) : WithBot ℕ) ≤ (w : ℕ) := by exact_mod_cast hburst
    exact ((degree_sub_le _ _).trans_lt (max_lt hx hy)).trans_le hle
  exact messagePoly_inj hlen (sub_eq_zero.mp (eq_zero_of_dvd_of_degree_lt hpart hdeg))

end BluePill.Lib
