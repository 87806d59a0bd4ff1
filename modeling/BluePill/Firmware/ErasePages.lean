import Mathlib.Data.List.TakeWhile
import BluePill.Firmware.EraseLoop

/-! Which bytes `flashEraseLoop` leaves erased, whatever flash held before. -/
namespace BluePill
open Lib

/-- Of the windows from `first` up to `last`, the one that holds `x` begins in the page of `x`. -/
def WindowErases (last first x : ℕ) : Prop :=
  first ≤ x ∧ x - (x - first) % 0x400 < last ∧ first % 0x400 ≤ x % 0x400

instance (last first x : ℕ) : Decidable (WindowErases last first x) := by
  unfold WindowErases
  infer_instance

theorem eraseWindow_blank {mem : ℕ → UInt8} {x : ℕ} (cur : ℕ) (h : mem x = 0xFF) :
    eraseWindow mem cur x = 0xFF := by
  unfold eraseWindow
  split_ifs
  · exact h
  · by_cases hin : pageBase cur ≤ x ∧ x < pageBase cur + pageSize
    · exact fill_inside mem 0xFF hin.1 hin.2
    · rw [fill_outside mem 0xFF (by omega)]
      exact h

/-- Windows never bring a byte back. -/
theorem eraseWindows_blank {mem : ℕ → UInt8} {x : ℕ} (last cur : ℕ) (h : mem x = 0xFF) :
    eraseWindows last cur mem x = 0xFF := by
  induction hn : last - cur using Nat.strong_induction_on generalizing cur mem with
  | _ n ih =>
    rw [eraseWindows]
    split_ifs with hcur
    · exact ih (last - (cur + 0x400)) (by omega) _ (eraseWindow_blank cur h) rfl
    · exact h

/-- The window that holds `x` and begins in its page. -/
theorem eraseWindow_erases (mem : ℕ → UInt8) {cur x : ℕ} (hlo : cur ≤ x) (hhi : x < cur + 0x400)
    (hpage : cur % 0x400 ≤ x % 0x400) : eraseWindow mem cur x = 0xFF := by
  unfold eraseWindow
  split_ifs with hblank
  · exact (memoryBlank_iff mem cur).mp hblank x hlo hhi
  · apply fill_inside
    · unfold pageBase pageSize
      omega
    · unfold pageBase pageSize
      omega

theorem eraseWindows_erases (mem : ℕ → UInt8) {last cur x : ℕ} (h : WindowErases last cur x) :
    eraseWindows last cur mem x = 0xFF := by
  induction hn : last - cur using Nat.strong_induction_on generalizing cur mem with
  | _ n ih =>
    obtain ⟨hlo, hlast, hpage⟩ := h
    rw [eraseWindows, if_pos (by omega)]
    by_cases hhi : x < cur + 0x400
    · exact eraseWindows_blank _ _ (eraseWindow_erases mem hlo hhi hpage)
    · have hrest : WindowErases last (cur + 0x400) x := by
        unfold WindowErases
        omega
      exact ih (last - (cur + 0x400)) (by omega) _ hrest rfl

/-- All bytes erased but one. -/
def blankExcept (x : ℕ) : ℕ → UInt8 := fun y => if y = x then 0 else 0xFF

theorem blankExcept_self (x : ℕ) : blankExcept x x = 0 := if_pos rfl

theorem fill_blankExcept {lo hi x : ℕ} (h : x < lo ∨ hi ≤ x) :
    fill (blankExcept x) lo hi 0xFF = blankExcept x := by
  funext y
  by_cases hin : lo ≤ y ∧ y < hi
  · rw [fill_inside _ _ hin.1 hin.2]
    exact (if_neg (by omega)).symm
  · exact fill_outside _ _ (by omega)

/-- A window beside `x`, or one that begins in the page before, leaves `x` as it is. -/
theorem eraseWindow_blankExcept {cur x : ℕ}
    (h : ¬ (cur ≤ x ∧ x < cur + 0x400 ∧ cur % 0x400 ≤ x % 0x400)) :
    eraseWindow (blankExcept x) cur = blankExcept x := by
  unfold eraseWindow
  split_ifs with hblank
  · rfl
  · by_cases hin : cur ≤ x ∧ x < cur + 0x400
    · apply fill_blankExcept
      unfold pageBase pageSize
      omega
    · exfalso
      apply hblank
      rw [memoryBlank_iff]
      intro y hlo hhi
      exact if_neg (by omega)

theorem eraseWindows_blankExcept {last cur x : ℕ} (h : ¬ WindowErases last cur x) :
    eraseWindows last cur (blankExcept x) = blankExcept x := by
  induction hn : last - cur using Nat.strong_induction_on generalizing cur with
  | _ n ih =>
    unfold WindowErases at h
    rw [eraseWindows]
    split_ifs with hcur
    · have hrest : ¬ WindowErases last (cur + 0x400) x := by
        unfold WindowErases
        omega
      rw [eraseWindow_blankExcept (by omega)]
      exact ih (last - (cur + 0x400)) (by omega) hrest rfl
    · rfl

/-- The checks of the loop let the entry through. -/
def FlashEraseParams.accepted (p : FlashEraseParams) : Bool :=
  !addressRejected p && !lastRejected p

/-- The entry, carried out, leaves the byte at `x` erased. -/
def FlashEraseParams.Erases (p : FlashEraseParams) (x : ℕ) : Prop :=
  WindowErases p.lastAddress p.address x

instance (p : FlashEraseParams) (x : ℕ) : Decidable (p.Erases x) := by
  unfold FlashEraseParams.Erases
  infer_instance

/-- The entries before the first one that is refused. -/
def carriedOut (ps : List FlashEraseParams) : List FlashEraseParams :=
  ps.takeWhile FlashEraseParams.accepted

theorem accepted_iff (p : FlashEraseParams) : p.accepted = true ↔
    0x08004000 ≤ p.address ∧ p.address ≤ 0x80020000 ∧ p.lastAddress ≤ 0x80020000 := by
  simp only [FlashEraseParams.accepted, addressRejected, lastRejected, Bool.and_eq_true,
    Bool.not_eq_true', decide_eq_false_iff_not]
  omega

theorem eraseEntries_cons (p : FlashEraseParams) (ps : List FlashEraseParams) (mem : ℕ → UInt8) :
    eraseEntries (p :: ps) mem =
      if p.accepted then eraseEntries ps (eraseWindows p.lastAddress p.address mem) else mem := by
  rw [eraseEntries, FlashEraseParams.accepted]
  cases addressRejected p <;> cases lastRejected p <;> rfl

theorem carriedOut_cons (p : FlashEraseParams) (ps : List FlashEraseParams) :
    carriedOut (p :: ps) = if p.accepted then p :: carriedOut ps else [] := by
  unfold carriedOut
  rw [List.takeWhile_cons]

theorem accepted_of_carriedOut {ps : List FlashEraseParams} {p : FlashEraseParams}
    (hp : p ∈ carriedOut ps) : p.accepted = true := List.mem_takeWhile_imp hp

theorem eraseEntries_blank {mem : ℕ → UInt8} {x : ℕ} (ps : List FlashEraseParams)
    (h : mem x = 0xFF) : eraseEntries ps mem x = 0xFF := by
  induction ps generalizing mem with
  | nil => exact h
  | cons p ps ih =>
    rw [eraseEntries_cons]
    split_ifs
    · exact ih (eraseWindows_blank _ _ h)
    · exact h

theorem eraseEntries_erases (mem : ℕ → UInt8) {ps : List FlashEraseParams} {p : FlashEraseParams}
    {x : ℕ} (hp : p ∈ carriedOut ps) (h : p.Erases x) : eraseEntries ps mem x = 0xFF := by
  induction ps generalizing mem with
  | nil => exact absurd hp List.not_mem_nil
  | cons q ps ih =>
    rw [carriedOut_cons] at hp
    rw [eraseEntries_cons]
    split_ifs at hp ⊢ with haccepted
    · rcases List.mem_cons.mp hp with rfl | hrest
      · exact eraseEntries_blank ps (eraseWindows_erases mem h)
      · exact ih _ hrest
    · exact absurd hp List.not_mem_nil

theorem eraseEntries_blankExcept {ps : List FlashEraseParams} {x : ℕ}
    (h : ∀ p ∈ carriedOut ps, ¬ p.Erases x) : eraseEntries ps (blankExcept x) = blankExcept x := by
  induction ps with
  | nil => rfl
  | cons q ps ih =>
    rw [carriedOut_cons] at h
    rw [eraseEntries_cons]
    split_ifs at h ⊢ with haccepted
    · rw [eraseWindows_blankExcept (h q List.mem_cons_self)]
      exact ih fun p hp => h p (List.mem_cons_of_mem _ hp)
    · rfl

/-- A byte is erased whatever flash held exactly when an entry that is carried out erases it. -/
theorem eraseEntries_erases_iff (ps : List FlashEraseParams) (x : ℕ) :
    (∀ mem, eraseEntries ps mem x = 0xFF) ↔ ∃ p ∈ carriedOut ps, p.Erases x := by
  constructor
  · intro h
    by_contra hnone
    have hsame := eraseEntries_blankExcept fun p hp he => hnone ⟨p, hp, he⟩
    have hx := h (blankExcept x)
    rw [hsame, blankExcept_self] at hx
    exact absurd hx (by decide)
  · rintro ⟨p, hp, he⟩ mem
    exact eraseEntries_erases mem hp he

/-- An entry erases all of its range exactly when the range begins with a page or stays within
one. -/
theorem erases_range_iff {a n : ℕ} (hhi : a + n < 4294967296) :
    (∀ x, a ≤ x → x < a + n → FlashEraseParams.Erases ⟨a, n⟩ x) ↔
      a % 0x400 = 0 ∨ a % 0x400 + n ≤ 0x400 := by
  have herases : ∀ x, FlashEraseParams.Erases ⟨a, n⟩ x ↔ WindowErases (a + n) a x := by
    intro x
    unfold FlashEraseParams.Erases FlashEraseParams.lastAddress
    rw [Nat.mod_eq_of_lt hhi]
  simp only [herases, WindowErases]
  constructor
  · intro h
    by_contra hno
    have hnext := h (a + (0x400 - a % 0x400)) (by omega) (by omega)
    omega
  · intro h x hlo hx
    omega

end BluePill
