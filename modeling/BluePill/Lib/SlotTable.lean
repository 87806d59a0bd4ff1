import Mathlib.Data.Finset.Card
import Mathlib.Data.Fintype.Card

/-! A set of pairs kept in a fixed number of slots. A slot in use holds a key and the parts that
are present with it; no key has two slots, and a slot whose last part goes is free again. -/
namespace BluePill.Lib

structure SlotTable (κ π : Type) (n : ℕ) where
  key : Fin n → Option κ
  parts : Fin n → Finset π
  used : ∀ i, (parts i).Nonempty ↔ (key i).isSome
  single : ∀ i j k, key i = some k → key j = some k → i = j

namespace SlotTable

variable {κ π : Type} {n : ℕ}

def empty : SlotTable κ π n where
  key _ := none
  parts _ := ∅
  used _ := by simp
  single _ _ _ h := by cases h

/-- The pairs that are present. -/
def members (t : SlotTable κ π n) : Set (κ × π) :=
  {x | ∃ i, t.key i = some x.1 ∧ x.2 ∈ t.parts i}

/-- A slot that holds the key, or a free one. -/
def Room (t : SlotTable κ π n) (k : κ) : Prop := ∃ i, t.key i = some k ∨ t.key i = none

@[simp] theorem members_empty : (empty : SlotTable κ π n).members = ∅ := by
  ext x
  simp [members, empty]

theorem parts_eq_empty (t : SlotTable κ π n) {i : Fin n} (h : t.key i = none) :
    t.parts i = ∅ := by
  rw [← Finset.not_nonempty_iff_eq_empty, t.used, h]
  exact Bool.false_ne_true

/-- Every key in a slot is that of some pair. -/
theorem exists_member (t : SlotTable κ π n) {i : Fin n} {k : κ} (h : t.key i = some k) :
    ∃ p, (k, p) ∈ t.members := by
  obtain ⟨p, hp⟩ := (t.used i).mpr (by rw [h]; rfl)
  exact ⟨p, i, h, hp⟩

/-- While the keys in use and a further one are at most as many as the slots, it has room. -/
theorem room_of_card (t : SlotTable κ π n) {live : Finset κ} {k : κ} (hk : k ∈ live)
    (hlive : ∀ i k, t.key i = some k → k ∈ live) (hcard : live.card ≤ n) : t.Room k := by
  classical
  by_contra hroom
  have hkey (i : Fin n) : ∃ l, t.key i = some l ∧ l ≠ k := by
    cases hi : t.key i with
    | none => exact absurd ⟨i, Or.inr hi⟩ hroom
    | some l => exact ⟨l, rfl, fun hl => hroom ⟨i, Or.inl (hl ▸ hi)⟩⟩
  choose f hf hne using hkey
  have hinj : Function.Injective f := fun i j hij => t.single i j (f i) (hf i) (hij ▸ hf j)
  have hsub : Finset.univ.image f ⊆ live.erase k := by
    intro l hl
    obtain ⟨i, -, rfl⟩ := Finset.mem_image.mp hl
    exact Finset.mem_erase.mpr ⟨hne i, hlive i (f i) (hf i)⟩
  have hle := Finset.card_le_card hsub
  rw [Finset.card_image_of_injective _ hinj, Finset.card_univ, Fintype.card_fin,
    Finset.card_erase_of_mem hk] at hle
  have hpos : 0 < live.card := Finset.card_pos.mpr ⟨k, hk⟩
  omega

variable [DecidableEq π]

/-- Slot `i` takes the part: it holds the key, or it is free and no slot does. -/
def insertAt (t : SlotTable κ π n) (i : Fin n) (k : κ) (p : π)
    (h : t.key i = some k ∨ t.key i = none ∧ ∀ j, t.key j ≠ some k) : SlotTable κ π n where
  key := Function.update t.key i (some k)
  parts := Function.update t.parts i (insert p (t.parts i))
  used j := by
    by_cases hj : j = i
    · subst hj
      simp
    · rw [Function.update_of_ne hj, Function.update_of_ne hj]
      exact t.used j
  single := by
    have hin (j : Fin n) (hj : t.key j = some k) : j = i := by
      rcases h with h | ⟨-, h⟩
      · exact t.single j i k hj h
      · exact absurd hj (h j)
    intro j l m hj hl
    by_cases hji : j = i <;> by_cases hli : l = i
    · rw [hji, hli]
    · rw [hji, Function.update_self] at hj
      rw [Function.update_of_ne hli, ← hj] at hl
      exact absurd (hin l hl) hli
    · rw [hli, Function.update_self] at hl
      rw [Function.update_of_ne hji, ← hl] at hj
      exact absurd (hin j hj) hji
    · rw [Function.update_of_ne hji] at hj
      rw [Function.update_of_ne hli] at hl
      exact t.single j l m hj hl

theorem members_insertAt (t : SlotTable κ π n) {i : Fin n} {k : κ} (p : π)
    (h : t.key i = some k ∨ t.key i = none ∧ ∀ j, t.key j ≠ some k) :
    (t.insertAt i k p h).members = insert (k, p) t.members := by
  ext ⟨l, q⟩
  simp only [members, insertAt, Set.mem_ofPred_eq, Set.mem_insert_iff, Prod.mk.injEq]
  constructor
  · rintro ⟨j, hj, hq⟩
    by_cases hji : j = i
    · subst hji
      rw [Function.update_self] at hj hq
      obtain rfl := Option.some.inj hj
      rcases Finset.mem_insert.mp hq with rfl | hold
      · exact Or.inl ⟨rfl, rfl⟩
      · rcases h with h | ⟨h, -⟩
        · exact Or.inr ⟨j, h, hold⟩
        · rw [t.parts_eq_empty h] at hold
          exact absurd hold (Finset.notMem_empty q)
    · rw [Function.update_of_ne hji] at hj hq
      exact Or.inr ⟨j, hj, hq⟩
  · rintro (⟨rfl, rfl⟩ | ⟨j, hj, hq⟩)
    · exact ⟨i, Function.update_self .., by simp⟩
    · by_cases hji : j = i
      · subst hji
        rcases h with h | ⟨h, -⟩
        · exact ⟨j, by rw [Function.update_self, ← h, hj], by simp [hq]⟩
        · rw [h] at hj
          cases hj
      · exact ⟨j, by rwa [Function.update_of_ne hji], by rwa [Function.update_of_ne hji]⟩

variable [DecidableEq κ]

def remove (t : SlotTable κ π n) (k : κ) (p : π) : SlotTable κ π n where
  key i := if t.key i = some k ∧ (t.parts i).erase p = ∅ then none else t.key i
  parts i := if t.key i = some k then (t.parts i).erase p else t.parts i
  used i := by
    by_cases hi : t.key i = some k
    · by_cases hlast : (t.parts i).erase p = ∅
      · simp [hi, hlast]
      · simpa [hi, hlast] using Finset.nonempty_of_ne_empty hlast
    · simpa [hi] using t.used i
  single i j l hi hj := by
    split_ifs at hi hj
    exact t.single i j l hi hj

theorem members_remove (t : SlotTable κ π n) (k : κ) (p : π) :
    (t.remove k p).members = t.members \ {(k, p)} := by
  ext ⟨l, q⟩
  simp only [members, remove, Set.mem_ofPred_eq, Set.mem_sdiff, Set.mem_singleton_iff,
    Prod.mk.injEq]
  constructor
  · rintro ⟨i, hi, hq⟩
    split_ifs at hi hq with hgone hk
    · obtain rfl : l = k := Option.some.inj (hi.symm.trans hk)
      obtain ⟨hne, hold⟩ := Finset.mem_erase.mp hq
      exact ⟨⟨i, hi, hold⟩, fun h => hne h.2⟩
    · exact ⟨⟨i, hi, hq⟩, fun h => hk (h.1 ▸ hi)⟩
  · rintro ⟨⟨i, hi, hq⟩, hne⟩
    refine ⟨i, ?_⟩
    by_cases hk : t.key i = some k
    · obtain rfl : l = k := Option.some.inj (hi.symm.trans hk)
      have hkept : q ∈ (t.parts i).erase p := Finset.mem_erase.mpr ⟨fun h => hne ⟨rfl, h⟩, hq⟩
      have hsome : (t.parts i).erase p ≠ ∅ := Finset.ne_empty_of_mem hkept
      simp [hk, hsome, hkept]
    · rw [if_neg (fun h => hk h.1), if_neg hk]
      exact ⟨hi, hq⟩

end SlotTable

end BluePill.Lib
