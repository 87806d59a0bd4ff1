import Mathlib.Data.List.Basic
import Mathlib.Tactic

/-! Byte memories as functions of the address, and finite runs of bytes laid over them. -/
namespace BluePill.Lib

variable {β : Type*}

/-- The memory `m` with the list `bs` laid over it from address `a` on. -/
def overlay (m : ℕ → β) (a : ℕ) (bs : List β) : ℕ → β :=
  fun x => if x < a then m x else (bs[x - a]?).getD (m x)

/-- The `n` cells of `m` from address `a` on. -/
def readRange (m : ℕ → β) (a n : ℕ) : List β := (List.range n).map fun i => m (a + i)

/-- The memory `m` with every cell of `[lo, hi)` set to `v`. -/
def fill (m : ℕ → β) (lo hi : ℕ) (v : β) : ℕ → β := fun x => if lo ≤ x ∧ x < hi then v else m x

@[simp] theorem overlay_nil (m : ℕ → β) (a : ℕ) : overlay m a [] = m := by
  funext x
  simp [overlay]

theorem overlay_below (m : ℕ → β) {a x : ℕ} (bs : List β) (h : x < a) : overlay m a bs x = m x := by
  simp [overlay, h]

theorem overlay_above (m : ℕ → β) {a x : ℕ} (bs : List β) (h : a + bs.length ≤ x) :
    overlay m a bs x = m x := by
  have hx : ¬ x < a := by omega
  simp only [overlay, hx, if_false]
  rw [List.getElem?_eq_none (by omega), Option.getD_none]

theorem overlay_outside (m : ℕ → β) {a x : ℕ} (bs : List β) (h : x < a ∨ a + bs.length ≤ x) :
    overlay m a bs x = m x :=
  h.elim (overlay_below m bs) (overlay_above m bs)

theorem overlay_inside (m : ℕ → β) {a x : ℕ} (bs : List β) (h : a ≤ x) (hx : x - a < bs.length) :
    overlay m a bs x = bs[x - a] := by
  have h' : ¬ x < a := by omega
  simp [overlay, h', hx]

/-- An overlay is decided cell by cell: inside by the list, outside by the old memory. -/
theorem overlay_eq_iff (m m' : ℕ → β) (a : ℕ) (bs : List β) :
    m' = overlay m a bs ↔ (∀ i (h : i < bs.length), m' (a + i) = bs[i]) ∧
      ∀ x, x < a ∨ a + bs.length ≤ x → m' x = m x := by
  constructor
  · rintro rfl
    refine ⟨fun i h => ?_, fun x h => overlay_outside m bs h⟩
    rw [overlay_inside m bs (by omega) (by omega)]
    simp
  · rintro ⟨hin, hout⟩
    funext x
    by_cases hx : x < a ∨ a + bs.length ≤ x
    · rw [hout x hx, overlay_outside m bs hx]
    · have hi := hin (x - a) (by omega)
      rw [overlay_inside m bs (by omega) (by omega), ← hi]
      congr 1
      omega

theorem overlay_append (m : ℕ → β) (a : ℕ) (xs ys : List β) :
    overlay m a (xs ++ ys) = overlay (overlay m a xs) (a + xs.length) ys := by
  symm
  rw [overlay_eq_iff]
  constructor
  · intro i hi
    by_cases h : i < xs.length
    · rw [overlay_below _ _ (by omega), overlay_inside m xs (by omega) (by omega)]
      simp [List.getElem_append_left h]
    · rw [List.length_append] at hi
      rw [overlay_inside _ ys (by omega) (by omega), List.getElem_append_right (by omega)]
      congr 1
      omega
  · intro x hx
    rw [List.length_append] at hx
    rw [overlay_outside _ _ (by omega), overlay_outside _ _ (by omega)]

@[simp] theorem readRange_length (m : ℕ → β) (a n : ℕ) : (readRange m a n).length = n := by
  simp [readRange]

@[simp] theorem readRange_getElem (m : ℕ → β) (a n i : ℕ) (h : i < (readRange m a n).length) :
    (readRange m a n)[i] = m (a + i) := by
  simp [readRange]

theorem readRange_congr {m m' : ℕ → β} {a n : ℕ} (h : ∀ x, a ≤ x → x < a + n → m x = m' x) :
    readRange m a n = readRange m' a n := by
  apply List.map_congr_left
  intro i hi
  have := List.mem_range.mp hi
  exact h _ (by omega) (by omega)

theorem readRange_append (m : ℕ → β) (a k n : ℕ) :
    readRange m a k ++ readRange m (a + k) n = readRange m a (k + n) := by
  simp only [readRange, List.range_add, List.map_append, List.map_map]
  congr 1
  apply List.map_congr_left
  intro i _
  simp [Nat.add_assoc]

/-- Reading back the range an overlay has written. -/
theorem readRange_overlay (m : ℕ → β) (a : ℕ) (bs : List β) :
    readRange (overlay m a bs) a bs.length = bs := by
  apply List.ext_getElem
  · simp
  · intro i h₁ h₂
    rw [readRange_getElem, overlay_inside m bs (by omega) (by omega)]
    congr 1
    omega

/-- Copying a range of `m'` into `m`. -/
theorem overlay_readRange (m m' : ℕ → β) (a n x : ℕ) :
    overlay m a (readRange m' a n) x = if a ≤ x ∧ x < a + n then m' x else m x := by
  split_ifs with h
  · rw [overlay_inside _ _ h.1 (by rw [readRange_length]; omega), readRange_getElem]
    congr 1
    omega
  · rw [overlay_outside]
    rw [readRange_length]
    omega

/-- An overlay inside a range replaces a part of what the range reads. -/
theorem readRange_overlay_part (m : ℕ → β) {a x n : ℕ} (bs : List β) (hlo : a ≤ x)
    (hhi : x + bs.length ≤ a + n) : readRange (overlay m x bs) a n =
      (readRange m a n).take (x - a) ++ bs ++ (readRange m a n).drop (x - a + bs.length) := by
  have hsplit : n = (x - a) + (bs.length + (n - (x - a + bs.length))) := by omega
  have hbelow : readRange (overlay m x bs) a (x - a) = readRange m a (x - a) := by
    apply readRange_congr
    intro y _ hy
    exact overlay_below m bs (by omega)
  have habove : readRange (overlay m x bs) (x + bs.length) (n - (x - a + bs.length)) =
      readRange m (x + bs.length) (n - (x - a + bs.length)) := by
    apply readRange_congr
    intro y hy _
    exact overlay_above m bs hy
  have htake : (readRange m a n).take (x - a) = readRange m a (x - a) := by
    conv_lhs => rw [hsplit]
    rw [← readRange_append, List.take_left' (readRange_length m a (x - a))]
  have hdrop : (readRange m a n).drop (x - a + bs.length) =
      readRange m (x + bs.length) (n - (x - a + bs.length)) := by
    conv_lhs => rw [hsplit]
    rw [← Nat.add_assoc, ← readRange_append, List.drop_left' (by rw [readRange_length])]
    congr 1
    omega
  rw [htake, hdrop]
  conv_lhs => rw [hsplit]
  rw [← readRange_append, ← readRange_append, hbelow, show a + (x - a) = x by omega,
    readRange_overlay, habove, List.append_assoc]

theorem fill_inside (m : ℕ → β) {lo hi x : ℕ} (v : β) (h₁ : lo ≤ x) (h₂ : x < hi) :
    fill m lo hi v x = v := by
  simp [fill, h₁, h₂]

theorem fill_outside (m : ℕ → β) {lo hi x : ℕ} (v : β) (h : x < lo ∨ hi ≤ x) :
    fill m lo hi v x = m x := by
  have : ¬ (lo ≤ x ∧ x < hi) := by omega
  simp [fill, this]

end BluePill.Lib
