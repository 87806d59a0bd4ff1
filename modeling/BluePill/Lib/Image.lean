import BluePill.Lib.Overlay

/-! Memory images given as lists of addressed runs of bytes, in ascending order. -/
namespace BluePill.Lib

variable {β : Type*}

/-- The runs follow each other without overlap from `lo` to `hi`; gaps are allowed. -/
def Ascending (lo : ℕ) (runs : List (ℕ × List β)) (hi : ℕ) : Prop :=
  match runs with
  | [] => lo ≤ hi
  | (a, bs) :: rest => lo ≤ a ∧ Ascending (a + bs.length) rest hi

/-- What the runs say about the cell `x`. -/
def imageOf (runs : List (ℕ × List β)) (x : ℕ) : Option β :=
  match runs with
  | [] => none
  | (a, bs) :: rest => (if a ≤ x then bs[x - a]? else none).or (imageOf rest x)

/-- The memory `m` with the runs laid over it one after the other. -/
def layAll (m : ℕ → β) (runs : List (ℕ × List β)) : ℕ → β :=
  runs.foldl (fun m r => overlay m r.1 r.2) m

theorem Ascending.le {lo hi : ℕ} {runs : List (ℕ × List β)} (h : Ascending lo runs hi) :
    lo ≤ hi := by
  induction runs generalizing lo with
  | nil => exact h
  | cons r rest ih =>
    obtain ⟨hlo, hrest⟩ := h
    have hle := ih hrest
    omega

/-- Below the first run there is nothing. -/
theorem imageOf_below {lo hi x : ℕ} {runs : List (ℕ × List β)} (h : Ascending lo runs hi)
    (hx : x < lo) : imageOf runs x = none := by
  induction runs generalizing lo with
  | nil => rfl
  | cons r rest ih =>
    obtain ⟨hlo, hrest⟩ := h
    rw [imageOf, if_neg (by omega), ih hrest (by omega)]
    rfl

/-- The image inside its first run, and behind it. -/
theorem imageOf_cons {lo hi : ℕ} {r : ℕ × List β} {rest : List (ℕ × List β)}
    (h : Ascending lo (r :: rest) hi) (m : ℕ → β) (x : ℕ) :
    (imageOf (r :: rest) x).getD (m x) = (imageOf rest x).getD (overlay m r.1 r.2 x) := by
  obtain ⟨_, hrest⟩ := h
  rw [imageOf]
  by_cases hin : r.1 ≤ x ∧ x < r.1 + r.2.length
  · have hcell : r.2[x - r.1]? = some r.2[x - r.1] := List.getElem?_eq_getElem (by omega)
    rw [if_pos hin.1, hcell, Option.some_or, imageOf_below hrest hin.2,
      overlay_inside m r.2 hin.1 (by omega)]
    rfl
  · have hnone : (if r.1 ≤ x then r.2[x - r.1]? else none) = none := by
      split_ifs with hle
      · exact List.getElem?_eq_none (by omega)
      · rfl
    rw [hnone, Option.none_or, overlay_outside m r.2 (by omega)]

/-- Laying ascending runs over a memory gives the image where it is defined. -/
theorem layAll_eq {lo hi : ℕ} {runs : List (ℕ × List β)} (h : Ascending lo runs hi) (m : ℕ → β)
    (x : ℕ) : layAll m runs x = (imageOf runs x).getD (m x) := by
  induction runs generalizing lo m with
  | nil => rfl
  | cons r rest ih =>
    rw [imageOf_cons h]
    exact ih h.2 (overlay m r.1 r.2)

/-- A cell of a run is in the image. -/
theorem imageOf_isSome {runs : List (ℕ × List β)} {r : ℕ × List β} (hr : r ∈ runs) {x : ℕ}
    (hlo : r.1 ≤ x) (hhi : x < r.1 + r.2.length) : (imageOf runs x).isSome = true := by
  induction runs with
  | nil => exact absurd hr List.not_mem_nil
  | cons s rest ih =>
    rw [imageOf, Option.isSome_or, Bool.or_eq_true]
    rcases List.mem_cons.mp hr with hhead | htail
    · subst hhead
      left
      rw [if_pos hlo, List.getElem?_eq_getElem (by omega)]
      rfl
    · right
      exact ih htail

end BluePill.Lib
