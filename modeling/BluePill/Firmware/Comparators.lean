import BluePill.Lib.SlotTable
import BluePill.Firmware.Commands

/-! The comparators of the flash patch unit. A comparator holds a word and, in its REPLACE field, a
bit for each half-word of it. -/
namespace BluePill
open Lib

/-- The word that a comparator holds, or that an address lies in. -/
def compWord (bp : UInt32) : UInt32 := bp &&& compAddressMask

def compEnabled (bp : UInt32) : Prop := bp &&& 0x01 ≠ 0

instance (bp : UInt32) : Decidable (compEnabled bp) := inferInstanceAs (Decidable (_ ≠ _))

/-- The address is that of the upper half of its word. -/
def isUpper (address : UInt32) : Bool := address &&& 0x02 != 0

/-- The REPLACE bit of a half-word. -/
def replaceBit (upper : Bool) : UInt32 := if upper then 0x80000000 else 0x40000000

/-- The half-words that a comparator stops at. -/
def halves (bp : UInt32) : Finset Bool := Finset.univ.filter fun upper => bp &&& replaceBit upper ≠ 0

/-- An enabled comparator holds the word of the address, with the REPLACE bit of its half. -/
def Armed (comp : Vector UInt32 8) (address : UInt32) : Prop :=
  ∃ i : Fin 8, compEnabled (comp.get i) ∧ compWord (comp.get i) = compWord address ∧
    isUpper address ∈ halves (comp.get i)

instance (comp : Vector UInt32 8) (address : UInt32) : Decidable (Armed comp address) :=
  inferInstanceAs (Decidable (∃ _, _))

/-- A comparator that holds the word of the address, or one that is not enabled. -/
def HasRoom (comp : Vector UInt32 8) (address : UInt32) : Prop :=
  ∃ i : Fin 8, compWord (comp.get i) = compWord address ∨ ¬ compEnabled (comp.get i)

instance (comp : Vector UInt32 8) (address : UInt32) : Decidable (HasRoom comp address) :=
  inferInstanceAs (Decidable (∃ _, _))

theorem and_or_distrib (a b c : UInt32) : (a ||| b) &&& c = a &&& c ||| b &&& c :=
  UInt32.toBitVec_inj.mp BitVec.and_or_distrib_right

theorem mem_halves {bp : UInt32} {upper : Bool} :
    upper ∈ halves bp ↔ bp &&& replaceBit upper ≠ 0 := by
  simp [halves]

theorem replaceBit_eq (address : UInt32) :
    (if address &&& 0x02 ≠ 0 then 0x02 else 0x01 : UInt32) <<< 30 = replaceBit (isUpper address) := by
  unfold replaceBit isUpper
  by_cases h : address &&& 0x02 = 0
  · rw [if_neg (not_not.mpr h), h]
    rfl
  · rw [if_pos h, if_pos (bne_iff_ne.mpr h)]
    rfl

theorem compWord_or (bp : UInt32) (upper : Bool) :
    compWord (bp ||| (0x01 ||| replaceBit upper)) = compWord bp := by
  unfold compWord
  rw [and_or_distrib]
  cases upper <;> exact UInt32.or_zero

theorem compEnabled_or (bp : UInt32) (upper : Bool) :
    compEnabled (bp ||| (0x01 ||| replaceBit upper)) := by
  unfold compEnabled
  rw [and_or_distrib, ne_eq, UInt32.or_eq_zero_iff]
  cases upper <;> exact fun h => absurd h.2 (by decide)

theorem enabledBits_and (upper other : Bool) :
    (0x01 ||| replaceBit upper) &&& replaceBit other = 0 ↔ other ≠ upper := by
  revert upper other
  decide

theorem halves_or (bp : UInt32) (upper : Bool) :
    halves (bp ||| (0x01 ||| replaceBit upper)) = insert upper (halves bp) := by
  ext other
  rw [Finset.mem_insert, mem_halves, mem_halves, and_or_distrib, ne_eq, UInt32.or_eq_zero_iff,
    enabledBits_and]
  tauto

theorem compWord_compWord (address : UInt32) : compWord (compWord address) = compWord address := by
  unfold compWord
  rw [UInt32.and_assoc, UInt32.and_self]

theorem halves_compWord (address : UInt32) : halves (compWord address) = ∅ := by
  ext upper
  have hzero : compAddressMask &&& replaceBit upper = 0 := by cases upper <;> rfl
  rw [mem_halves, compWord, UInt32.and_assoc, hzero, UInt32.and_zero]
  simp

theorem compWord_clear (bp : UInt32) (upper : Bool) :
    compWord (bp &&& ~~~ replaceBit upper) = compWord bp := by
  unfold compWord
  rw [UInt32.and_assoc]
  cases upper <;> rfl

theorem compEnabled_clear (bp : UInt32) (upper : Bool) :
    compEnabled (bp &&& ~~~ replaceBit upper) ↔ compEnabled bp := by
  unfold compEnabled
  rw [UInt32.and_assoc]
  cases upper <;> rfl

theorem halves_clear (bp : UInt32) (upper : Bool) :
    halves (bp &&& ~~~ replaceBit upper) = (halves bp).erase upper := by
  ext other
  have hother : ~~~ replaceBit upper &&& replaceBit other =
      if other = upper then 0 else replaceBit other := by
    revert upper other
    decide
  rw [Finset.mem_erase, mem_halves, mem_halves, UInt32.and_assoc, hother]
  split_ifs with h <;> simp [h]

theorem halves_eq_empty_iff (bp : UInt32) : halves bp = ∅ ↔ bp &&& 0xC0000000 = 0 := by
  have hsplit : bp &&& 0xC0000000 = bp &&& replaceBit true ||| bp &&& replaceBit false := by
    rw [UInt32.and_comm bp, UInt32.and_comm bp, UInt32.and_comm bp, ← and_or_distrib]
    rfl
  rw [hsplit, UInt32.or_eq_zero_iff, Finset.eq_empty_iff_forall_notMem]
  simp only [Bool.forall_bool, mem_halves, not_not]
  exact And.comm

variable {comp : Vector UInt32 8} {address other : UInt32}

/-- The comparators with `bp` written into one of them. -/
def writeComparator {n : ℕ} (comp : Vector UInt32 n) (i : Fin n) (bp : UInt32) : Vector UInt32 n :=
  comp.set i bp

theorem get_writeComparator {n : ℕ} (comp : Vector UInt32 n) (i j : Fin n) (bp : UInt32) :
    (writeComparator comp i bp).get j = if i = j then bp else comp.get j := by
  show (comp.set i bp)[(j : ℕ)] = _
  rw [Vector.getElem_set]
  simp only [Fin.ext_iff]
  rfl

/-- What `setComparator` does: it adds to a comparator that holds the word, or takes one that is
not enabled when none does, or finds neither. -/
theorem setComparator_cases (comp : Vector UInt32 8) (address : UInt32) :
    (∃ i : Fin 8, compWord (comp.get i) = compWord address ∧ setComparator comp address =
      writeComparator comp i (comp.get i ||| (0x01 ||| replaceBit (isUpper address)))) ∨
    (∃ i : Fin 8, ¬ compEnabled (comp.get i) ∧
      (∀ j : Fin 8, compWord (comp.get j) ≠ compWord address) ∧ setComparator comp address =
        writeComparator comp i (compWord address ||| (0x01 ||| replaceBit (isUpper address)))) ∨
    (¬ HasRoom comp address ∧ setComparator comp address = comp) := by
  unfold setComparator
  simp only [replaceBit_eq]
  cases hword : (List.finRange 8).find? fun i =>
      comp[i] &&& compAddressMask = address &&& compAddressMask with
  | some i =>
    have hi := List.find?_some hword
    exact Or.inl ⟨i, of_decide_eq_true hi, rfl⟩
  | none =>
    have hnone (j : Fin 8) : compWord (comp.get j) ≠ compWord address := by
      have hj := List.find?_eq_none.mp hword j (List.mem_finRange j)
      exact of_decide_eq_false (Bool.not_eq_true _ ▸ hj)
    cases hfree : (List.finRange 8).find? fun i => comp[i] &&& 0x01 = 0 with
    | some i =>
      have hi := List.find?_some hfree
      exact Or.inr (Or.inl ⟨i, not_not.mpr (of_decide_eq_true hi), hnone, rfl⟩)
    | none =>
      refine Or.inr (Or.inr ⟨?_, rfl⟩)
      rintro ⟨i, hi | hi⟩
      · exact hnone i hi
      · have hused := List.find?_eq_none.mp hfree i (List.mem_finRange i)
        exact hused (decide_eq_true (not_not.mp hi))

theorem clearComparator_get (comp : Vector UInt32 8) (address : UInt32) (i : Fin 8) :
    (clearComparator comp address).get i =
      if compWord (comp.get i) = compWord address then
        if halves (comp.get i &&& ~~~ replaceBit (isUpper address)) = ∅ then 0
        else comp.get i &&& ~~~ replaceBit (isUpper address)
      else comp.get i := by
  unfold clearComparator
  simp only [replaceBit_eq, halves_eq_empty_iff]
  show (comp.map _)[(i : ℕ)] = _
  rw [Vector.getElem_map]
  rfl

/-- The comparators hold the table: a free slot is a comparator that is zero. -/
structure Represents (comp : Vector UInt32 8) (t : SlotTable UInt32 Bool 8) : Prop where
  key : ∀ i : Fin 8, t.key i =
    if compEnabled (comp.get i) then some (compWord (comp.get i)) else none
  parts : ∀ i : Fin 8, t.parts i = halves (comp.get i)
  disabled : ∀ i : Fin 8, ¬ compEnabled (comp.get i) → comp.get i = 0

theorem Represents.armed_iff {t : SlotTable UInt32 Bool 8} (h : Represents comp t) :
    Armed comp address ↔ (compWord address, isUpper address) ∈ t.members := by
  constructor
  · rintro ⟨i, hi, hword, hhalf⟩
    exact ⟨i, by rw [h.key, if_pos hi, hword], by rwa [h.parts]⟩
  · rintro ⟨i, hkey, hpart⟩
    rw [h.key] at hkey
    rw [h.parts] at hpart
    split_ifs at hkey with hi
    exact ⟨i, hi, Option.some.inj hkey, hpart⟩

/-- A word other than zero is held by enabled comparators only. -/
theorem Represents.key_iff {t : SlotTable UInt32 Bool 8} (h : Represents comp t)
    (hword : compWord address ≠ 0) (i : Fin 8) :
    t.key i = some (compWord address) ↔ compWord (comp.get i) = compWord address := by
  rw [h.key]
  by_cases hi : compEnabled (comp.get i)
  · rw [if_pos hi, Option.some.injEq]
  · rw [if_neg hi, h.disabled i hi]
    constructor
    · intro hk
      cases hk
    · intro hk
      exact absurd hk.symm hword

theorem Represents.set {t : SlotTable UInt32 Bool 8} (h : Represents comp t)
    (hword : compWord address ≠ 0) (hroom : t.Room (compWord address)) :
    ∃ t' : SlotTable UInt32 Bool 8, Represents (setComparator comp address) t' ∧
      t'.members = insert (compWord address, isUpper address) t.members := by
  -- the slot `i` takes the half-word, whether it held the word before or was free
  have htaken (i : Fin 8) (bp : UInt32) (hbp : compWord bp = compWord address)
      (hhalves : halves bp = halves (comp.get i))
      (hi : t.key i = some (compWord address) ∨
        t.key i = none ∧ ∀ j, t.key j ≠ some (compWord address)) :
      Represents (writeComparator comp i (bp ||| (0x01 ||| replaceBit (isUpper address))))
        (t.insertAt i (compWord address) (isUpper address) hi) := by
    constructor
    all_goals intro j; rw [get_writeComparator]
    · by_cases hj : i = j
      · subst hj
        rw [if_pos rfl, if_pos (compEnabled_or bp _), compWord_or, hbp]
        exact Function.update_self ..
      · rw [if_neg hj, ← h.key]
        exact Function.update_of_ne (Ne.symm hj) ..
    · by_cases hj : i = j
      · subst hj
        rw [if_pos rfl, halves_or, hhalves, ← h.parts]
        exact Function.update_self ..
      · rw [if_neg hj, ← h.parts]
        exact Function.update_of_ne (Ne.symm hj) ..
    · by_cases hj : i = j
      · rw [if_pos hj]
        exact fun hoff => absurd (compEnabled_or bp _) hoff
      · rw [if_neg hj]
        exact h.disabled j
  rcases setComparator_cases comp address with ⟨i, hi, heq⟩ | ⟨i, hi, hnone, heq⟩ | ⟨hfull, -⟩
  · rw [heq]
    exact ⟨_, htaken i _ hi rfl (Or.inl ((h.key_iff hword i).mpr hi)), t.members_insertAt _ _⟩
  · rw [heq]
    have hkey : t.key i = none := by rw [h.key, if_neg hi]
    have hfree : halves (compWord address) = halves (comp.get i) := by
      rw [halves_compWord, ← h.parts, t.parts_eq_empty hkey]
    exact ⟨_, htaken i _ (compWord_compWord address) hfree
      (Or.inr ⟨hkey, fun j hj => hnone j ((h.key_iff hword j).mp hj)⟩), t.members_insertAt _ _⟩
  · obtain ⟨i, hi | hi⟩ := hroom
    · exact absurd ⟨i, Or.inl ((h.key_iff hword i).mp hi)⟩ hfull
    · rw [h.key] at hi
      split_ifs at hi with hoff
      exact absurd ⟨i, Or.inr hoff⟩ hfull

theorem Represents.clear {t : SlotTable UInt32 Bool 8} (h : Represents comp t)
    (hword : compWord address ≠ 0) :
    Represents (clearComparator comp address)
      (t.remove (compWord address) (isUpper address)) := by
  have hzero : ¬ compEnabled 0 ∧ halves 0 = ∅ := by decide
  constructor
  all_goals intro i; rw [clearComparator_get]
  · show (if t.key i = some (compWord address) ∧ _ then none else t.key i) = _
    simp only [h.key_iff hword, h.parts, ← halves_clear]
    by_cases hi : compWord (comp.get i) = compWord address
    · rw [if_pos hi]
      by_cases hlast : halves (comp.get i &&& ~~~ replaceBit (isUpper address)) = ∅
      · rw [if_pos ⟨hi, hlast⟩, if_pos hlast, if_neg hzero.1]
      · rw [if_neg (fun hh => hlast hh.2), if_neg hlast, h.key]
        simp only [compEnabled_clear, compWord_clear]
    · rw [if_neg (fun hh => hi hh.1), if_neg hi, h.key]
  · show (if t.key i = some (compWord address) then _ else t.parts i) = _
    simp only [h.key_iff hword, h.parts, ← halves_clear]
    by_cases hi : compWord (comp.get i) = compWord address
    · rw [if_pos hi, if_pos hi]
      by_cases hlast : halves (comp.get i &&& ~~~ replaceBit (isUpper address)) = ∅
      · rw [if_pos hlast, hzero.2, hlast]
      · rw [if_neg hlast]
    · rw [if_neg hi, if_neg hi]
  · intro hoff
    split_ifs at hoff ⊢ with hi hlast
    · rfl
    · rw [compEnabled_clear] at hoff
      rw [h.disabled i hoff]
      exact UInt32.zero_and
    · exact h.disabled i hoff

theorem Armed.hasRoom (h : Armed comp address) : HasRoom comp address := by
  obtain ⟨i, -, hword, -⟩ := h
  exact ⟨i, Or.inl hword⟩

theorem armed_setComparator (h : HasRoom comp address) :
    Armed (setComparator comp address) address := by
  rcases setComparator_cases comp address with ⟨i, hi, heq⟩ | ⟨i, -, -, heq⟩ | ⟨hfull, -⟩
  · refine ⟨i, ?_⟩
    rw [heq, get_writeComparator, if_pos rfl, compWord_or, halves_or]
    exact ⟨compEnabled_or _ _, hi, Finset.mem_insert_self ..⟩
  · refine ⟨i, ?_⟩
    rw [heq, get_writeComparator, if_pos rfl, compWord_or, halves_or]
    exact ⟨compEnabled_or _ _, compWord_compWord address, Finset.mem_insert_self ..⟩
  · exact absurd h hfull

/-- Setting an address disarms no other. -/
theorem Armed.setComparator (h : Armed comp other) (address : UInt32) :
    Armed (setComparator comp address) other := by
  obtain ⟨j, hon, hword, hhalf⟩ := h
  rcases setComparator_cases comp address with ⟨i, -, heq⟩ | ⟨i, hi, -, heq⟩ | ⟨-, heq⟩
  all_goals refine ⟨j, ?_⟩; rw [heq]
  · rw [get_writeComparator]
    split_ifs with hij
    · subst hij
      rw [compWord_or, halves_or]
      exact ⟨compEnabled_or _ _, hword, Finset.mem_insert_of_mem hhalf⟩
    · exact ⟨hon, hword, hhalf⟩
  · rw [get_writeComparator, if_neg fun hij : i = j => hi (hij ▸ hon)]
    exact ⟨hon, hword, hhalf⟩
  · exact ⟨hon, hword, hhalf⟩

/-- Setting an address makes no room. -/
theorem HasRoom.of_setComparator (h : HasRoom (setComparator comp address) other) :
    HasRoom comp other := by
  obtain ⟨j, hj⟩ := h
  rcases setComparator_cases comp address with ⟨i, hi, heq⟩ | ⟨i, hoff, -, -⟩ | ⟨-, heq⟩
  · rw [heq, get_writeComparator] at hj
    split_ifs at hj with hij
    · rw [compWord_or] at hj
      exact ⟨i, Or.inl (hj.resolve_right fun hoff => hoff (compEnabled_or _ _))⟩
    · exact ⟨j, hj⟩
  · exact ⟨i, Or.inr hoff⟩
  · rw [heq] at hj
    exact ⟨j, hj⟩

/-- Each address in its turn finds a comparator that holds its word or is not enabled. -/
def Accommodates : Vector UInt32 8 → List UInt32 → Prop
  | _, [] => True
  | comp, address :: rest => HasRoom comp address ∧ Accommodates (setComparator comp address) rest

theorem Armed.foldl (h : Armed comp other) (l : List UInt32) :
    Armed (l.foldl BluePill.setComparator comp) other := by
  induction l generalizing comp with
  | nil => exact h
  | cons address rest ih => exact ih (h.setComparator address)

theorem HasRoom.of_foldl {l : List UInt32} (h : HasRoom (l.foldl setComparator comp) other) :
    HasRoom comp other := by
  induction l generalizing comp with
  | nil => exact h
  | cons address rest ih => exact (ih h).of_setComparator

/-- What is not armed in its turn is not armed at the end of the packet either. -/
theorem all_armed_iff (l : List UInt32) (comp : Vector UInt32 8) :
    (∀ a ∈ l, Armed (l.foldl setComparator comp) a) ↔ Accommodates comp l := by
  induction l generalizing comp with
  | nil => exact iff_of_true (fun a ha => absurd ha List.not_mem_nil) trivial
  | cons address rest ih =>
    rw [List.foldl_cons, List.forall_mem_cons, ih]
    constructor
    · rintro ⟨hhead, hrest⟩
      exact ⟨hhead.hasRoom.of_foldl.of_setComparator, hrest⟩
    · rintro ⟨hroom, hrest⟩
      exact ⟨(armed_setComparator hroom).foldl rest, hrest⟩

/-- The address without its lowest bit, in the part of the memory that has comparators. -/
def halfWord (address : UInt32) : UInt32 := address &&& 0x3FFFFFFE

/-- What a comparator tells of an address. -/
def compKey (address : UInt32) : UInt32 × Bool := (compWord address, isUpper address)

/-- The half-words that the processor stops at. -/
def armedSet (comp : Vector UInt32 8) : Set UInt32 := {a | halfWord a = a ∧ Armed comp a}

theorem compKey_halfWord (address : UInt32) : compKey (halfWord address) = compKey address := by
  unfold compKey compWord isUpper halfWord
  rw [UInt32.and_assoc, UInt32.and_assoc]
  rfl

theorem halfWord_halfWord (address : UInt32) : halfWord (halfWord address) = halfWord address := by
  unfold halfWord
  rw [UInt32.and_assoc, UInt32.and_self]

theorem halfWord_eq (address : UInt32) :
    halfWord address = compWord address ||| if isUpper address then 0x02 else 0 := by
  have hsplit : halfWord address = compWord address ||| address &&& 0x02 := by
    unfold halfWord compWord
    rw [UInt32.and_comm address, UInt32.and_comm address, UInt32.and_comm address,
      ← and_or_distrib]
    rfl
  have hbit : address &&& 0x02 = if isUpper address then 0x02 else 0 := by
    have htwo : address &&& 0x02 = 0 ∨ address &&& 0x02 = 0x02 := by
      have hle : address &&& 0x02 ≤ 0x02 := UInt32.and_le_right
      have hone : (address &&& 0x02) &&& 0x01 = 0 := by
        rw [UInt32.and_assoc]
        exact UInt32.and_zero
      generalize address &&& 0x02 = b at hle hone
      have hnat : b.toNat ≤ 2 := hle
      have hcases : b = 0 ∨ b = 1 ∨ b = 2 := by
        simp only [← UInt32.toNat_inj]
        show b.toNat = 0 ∨ b.toNat = 1 ∨ b.toNat = 2
        omega
      rcases hcases with rfl | rfl | rfl
      · exact Or.inl rfl
      · exact absurd hone (by decide)
      · exact Or.inr rfl
    unfold isUpper
    rcases htwo with h | h <;> rw [h] <;> rfl
  rw [hsplit, hbit]

theorem compKey_inj {a b : UInt32} (ha : halfWord a = a) (hb : halfWord b = b)
    (h : compKey a = compKey b) : a = b := by
  obtain ⟨hword, hhalf⟩ := Prod.mk.inj h
  rw [← ha, ← hb, halfWord_eq, halfWord_eq, hword, hhalf]

/-- An address of the user flash has a word other than zero. -/
theorem compWord_ne_zero {address : UInt32} (hlo : 0x08004000 ≤ address)
    (hhi : address < 0x08020000) : compWord address ≠ 0 := by
  intro hzero
  have hlo' : 0x08004000 ≤ address.toNat := hlo
  have hhi' : address.toNat < 0x08020000 := hhi
  have hbit : address.toNat.testBit 27 = true := by
    rw [Nat.testBit_eq_decide_div_mod_eq]
    exact decide_eq_true (by omega)
  have hmasked : (address.toNat &&& 0x3FFFFFFC).testBit 27 = true := by
    rw [Nat.testBit_and, hbit]
    rfl
  have hnat : address.toNat &&& 0x3FFFFFFC = 0 := congrArg UInt32.toNat hzero
  rw [hnat] at hmasked
  cases hmasked

def liveWords (s : Finset UInt32) : Finset UInt32 := s.image compWord

/-- No word has two enabled comparators, an enabled one has a REPLACE field other than zero, and
one that is not enabled is zero. -/
structure Canonical (comp : Vector UInt32 8) : Prop where
  single : ∀ i j : Fin 8, compEnabled (comp.get i) → compEnabled (comp.get j) →
    compWord (comp.get i) = compWord (comp.get j) → i = j
  replace : ∀ i : Fin 8, compEnabled (comp.get i) → comp.get i &&& 0xC0000000 ≠ 0
  disabled : ∀ i : Fin 8, ¬ compEnabled (comp.get i) → comp.get i = 0

/-- The comparators hold the half-words of `s`. -/
structure Holds (comp : Vector UInt32 8) (s : Finset UInt32) : Prop where
  table : ∃ t, Represents comp t ∧ t.members = compKey '' s
  halves : ∀ a ∈ s, halfWord a = a

theorem Represents.canonical {t : SlotTable UInt32 Bool 8} (h : Represents comp t) :
    Canonical comp where
  single i j hi hj hword := by
    apply t.single i j (compWord (comp.get i))
    · rw [h.key, if_pos hi]
    · rw [h.key, if_pos hj, hword]
  replace i hi := by
    have hsome : (t.key i).isSome := by
      rw [h.key, if_pos hi]
      rfl
    have hparts := (t.used i).mpr hsome
    rw [h.parts] at hparts
    rw [ne_eq, ← halves_eq_empty_iff]
    exact hparts.ne_empty
  disabled := h.disabled

theorem Holds.armedSet_eq {s : Finset UInt32} (h : Holds comp s) : armedSet comp = s := by
  obtain ⟨t, ht, hmembers⟩ := h.table
  ext a
  constructor
  · rintro ⟨ha, harmed⟩
    have hmem : compKey a ∈ t.members := ht.armed_iff.mp harmed
    rw [hmembers] at hmem
    obtain ⟨b, hb, hkey⟩ := hmem
    obtain rfl := compKey_inj (h.halves b hb) ha hkey
    exact hb
  · intro ha
    refine ⟨h.halves a ha, ht.armed_iff.mpr ?_⟩
    rw [hmembers]
    exact ⟨a, ha, rfl⟩

theorem holds_zero : Holds (Vector.replicate 8 0) ∅ where
  table := by
    refine ⟨SlotTable.empty, ?_, by simp⟩
    constructor <;> decide
  halves a ha := absurd ha (Finset.notMem_empty a)

/-- An address is set while the words in use, its own among them, are at most eight. -/
theorem Holds.set {s : Finset UInt32} (h : Holds comp s) (hword : compWord address ≠ 0)
    (hcard : (liveWords (insert (halfWord address) s)).card ≤ 8) :
    Holds (setComparator comp address) (insert (halfWord address) s) := by
  obtain ⟨t, ht, hmembers⟩ := h.table
  have hroom : t.Room (compWord address) := by
    refine t.room_of_card ?_ ?_ hcard
    · refine Finset.mem_image.mpr ⟨_, Finset.mem_insert_self _ _, ?_⟩
      exact congrArg Prod.fst (compKey_halfWord address)
    · intro i k hk
      obtain ⟨p, hp⟩ := t.exists_member hk
      rw [hmembers] at hp
      obtain ⟨a, ha, hkey⟩ := hp
      exact Finset.mem_image.mpr ⟨a, Finset.mem_insert_of_mem ha, congrArg Prod.fst hkey⟩
  obtain ⟨t', ht', hmembers'⟩ := ht.set hword hroom
  constructor
  · refine ⟨t', ht', ?_⟩
    rw [hmembers', hmembers, Finset.coe_insert, Set.image_insert_eq, compKey_halfWord]
    rfl
  · intro a ha
    rcases Finset.mem_insert.mp ha with rfl | ha
    · exact halfWord_halfWord address
    · exact h.halves a ha

theorem Holds.clear {s : Finset UInt32} (h : Holds comp s) (hword : compWord address ≠ 0) :
    Holds (clearComparator comp address) (s.erase (halfWord address)) := by
  obtain ⟨t, ht, hmembers⟩ := h.table
  constructor
  · refine ⟨_, ht.clear hword, ?_⟩
    rw [t.members_remove, hmembers]
    ext key
    constructor
    · rintro ⟨⟨a, ha, rfl⟩, hne⟩
      refine ⟨a, Finset.mem_erase.mpr ⟨fun heq => hne ?_, ha⟩, rfl⟩
      rw [heq, compKey_halfWord]
      rfl
    · rintro ⟨a, ha, rfl⟩
      obtain ⟨hne, ha⟩ := Finset.mem_erase.mp ha
      refine ⟨⟨a, ha, rfl⟩, fun heq => hne ?_⟩
      apply compKey_inj (h.halves a ha) (halfWord_halfWord address)
      rw [compKey_halfWord]
      exact heq
  · exact fun a ha => h.halves a (Finset.mem_of_mem_erase ha)

theorem liveWords_mono {s t : Finset UInt32} (h : s ⊆ t) : (liveWords s).card ≤ (liveWords t).card :=
  Finset.card_le_card (Finset.image_subset_image h)

theorem Holds.setAll {s : Finset UInt32} {l : List UInt32} (h : Holds comp s)
    (hwords : ∀ a ∈ l, compWord a ≠ 0)
    (hcard : (liveWords (s ∪ l.toFinset.image halfWord)).card ≤ 8) :
    Holds (l.foldl setComparator comp) (s ∪ l.toFinset.image halfWord) := by
  induction l generalizing comp s with
  | nil => simpa using h
  | cons a rest ih =>
    obtain ⟨ha, hrest⟩ := List.forall_mem_cons.mp hwords
    have hunion : s ∪ (a :: rest).toFinset.image halfWord =
        insert (halfWord a) s ∪ rest.toFinset.image halfWord := by
      rw [List.toFinset_cons, Finset.image_insert, Finset.union_insert, Finset.insert_union]
    rw [hunion] at hcard ⊢
    exact ih (h.set ha ((liveWords_mono Finset.subset_union_left).trans hcard)) hrest hcard

theorem Holds.clearAll {s : Finset UInt32} {l : List UInt32} (h : Holds comp s)
    (hwords : ∀ a ∈ l, compWord a ≠ 0) :
    Holds (l.foldl clearComparator comp) (s \ l.toFinset.image halfWord) := by
  induction l generalizing comp s with
  | nil => simpa using h
  | cons a rest ih =>
    obtain ⟨ha, hrest⟩ := List.forall_mem_cons.mp hwords
    have hdiff : s \ (a :: rest).toFinset.image halfWord =
        s.erase (halfWord a) \ rest.toFinset.image halfWord := by
      rw [List.toFinset_cons, Finset.image_insert, Finset.sdiff_insert, Finset.erase_sdiff_comm]
    rw [hdiff]
    exact ih (h.clear ha) hrest

end BluePill
