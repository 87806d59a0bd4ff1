import BluePill.Firmware.ErasePages

/-! When one erase request erases its range and nothing beyond the pages it touches, for the
flash content it finds. -/
namespace BluePill
open Lib

theorem memoryBlank_congr {mem mem' : ℕ → UInt8} {cur : ℕ}
    (h : ∀ x, cur ≤ x → x < cur + 0x400 → mem x = mem' x) :
    memoryBlank mem cur = memoryBlank mem' cur := by
  apply Bool.eq_iff_iff.mpr
  simp only [memoryBlank_iff]
  constructor
  · intro hblank x hlo hhi
    exact (h x hlo hhi).symm.trans (hblank x hlo hhi)
  · intro hblank x hlo hhi
    exact (h x hlo hhi).trans (hblank x hlo hhi)

theorem eraseWindow_apply (mem : ℕ → UInt8) (cur x : ℕ) : eraseWindow mem cur x =
    if pageBase x = pageBase cur ∧ memoryBlank mem cur = false then 0xFF else mem x := by
  have hpage : pageBase x = pageBase cur ↔ pageBase cur ≤ x ∧ x < pageBase cur + pageSize := by
    unfold pageBase pageSize
    omega
  unfold eraseWindow
  simp only [hpage]
  cases hblank : memoryBlank mem cur with
  | true => simp
  | false =>
    by_cases hin : pageBase cur ≤ x ∧ x < pageBase cur + pageSize
    · simp [hin, fill_inside]
    · have hout : x < pageBase cur ∨ pageBase cur + pageSize ≤ x := by omega
      simp [hin, fill_outside mem 0xFF hout]

/-- Start of the window that begins in the page of `x`, for windows from `first` on. -/
def windowIn (first x : ℕ) : ℕ := pageBase x + first % 0x400

/-- A page is erased exactly for the window that begins in it. The windows before it erase only
pages that end before that window begins, so it is tested on the content the loop found. -/
theorem eraseWindows_apply (mem : ℕ → UInt8) (last cur x : ℕ) : eraseWindows last cur mem x =
    if cur ≤ windowIn cur x ∧ windowIn cur x < last ∧ memoryBlank mem (windowIn cur x) = false
    then 0xFF else mem x := by
  induction hn : last - cur using Nat.strong_induction_on generalizing cur mem with
  | _ n ih =>
    rw [eraseWindows]
    by_cases hcur : cur < last
    · have hsame : windowIn (cur + 0x400) x = windowIn cur x := by
        unfold windowIn
        omega
      have hmem := eraseWindow_apply mem cur x
      rw [if_pos hcur, ih (last - (cur + 0x400)) (by omega) _ _ rfl, hsame]
      by_cases hhere : pageBase x = pageBase cur
      · have hwindow : windowIn cur x = cur := by
          unfold windowIn
          rw [hhere]
          unfold pageBase pageSize
          omega
        rw [hwindow, if_neg (by omega), hmem]
        simp [hhere, hcur]
      · have hmem : eraseWindow mem cur x = mem x := by simp [hmem, hhere]
        have hblank : cur + 0x400 ≤ windowIn cur x →
            memoryBlank (eraseWindow mem cur) (windowIn cur x) =
              memoryBlank mem (windowIn cur x) := by
          intro hahead
          apply memoryBlank_congr
          intro y hy _
          have hnot : pageBase y ≠ pageBase cur := by
            unfold pageBase pageSize
            omega
          simp [eraseWindow_apply, hnot]
        have hstarts : cur + 0x400 ≤ windowIn cur x ↔ cur ≤ windowIn cur x := by
          unfold windowIn pageBase pageSize at *
          omega
        rw [hmem]
        by_cases hahead : cur + 0x400 ≤ windowIn cur x
        · rw [hblank hahead]
          simp only [hstarts]
        · have hbehind : ¬ cur ≤ windowIn cur x := fun h => hahead (hstarts.mpr h)
          simp only [hahead, hbehind, false_and, if_false]
    · rw [if_neg hcur, if_neg (by omega)]

/-- What a request asks for: its bytes read `0xFF`, and a page without any of them is as it was. -/
def FlashEraseParams.ErasedExactly (p : FlashEraseParams) (mem mem' : ℕ → UInt8) : Prop :=
  (∀ x, p.address ≤ x → x < p.address + p.size → mem' x = 0xFF) ∧
  ∀ page, page % pageSize = 0 →
    (∀ x, page ≤ x → x < page + pageSize → x < p.address ∨ p.address + p.size ≤ x) →
    ∀ x, page ≤ x → x < page + pageSize → mem' x = mem x

/-- Behind the first page the windows begin as far into a page as the request does into its
first one. In each page the part of the range before that point is blank already, or a window
begins in the page, inside the range, and is not blank. -/
def FlashEraseParams.HeadsErased (p : FlashEraseParams) (mem : ℕ → UInt8) : Prop :=
  ∀ page, page % pageSize = 0 → p.address < page → page < p.address + p.size →
    (∀ x, page ≤ x → x < page + p.address % pageSize → x < p.address + p.size → mem x = 0xFF) ∨
    (page + p.address % pageSize < p.address + p.size ∧
      ∃ x, page + p.address % pageSize ≤ x ∧ x < page + p.address % pageSize + pageSize ∧
        mem x ≠ 0xFF)

theorem memoryBlank_eq_false_iff (mem : ℕ → UInt8) (cur : ℕ) :
    memoryBlank mem cur = false ↔ ∃ x, cur ≤ x ∧ x < cur + 0x400 ∧ mem x ≠ 0xFF := by
  rw [← Bool.not_eq_true, memoryBlank_iff]
  push Not
  rfl

/-- A page without a byte of the range has no window that begins in it. -/
theorem eraseWindows_beside (p : FlashEraseParams) (mem : ℕ → UInt8) {page x : ℕ}
    (hpage : page % pageSize = 0)
    (hout : ∀ x, page ≤ x → x < page + pageSize → x < p.address ∨ p.address + p.size ≤ x)
    (hlo : page ≤ x) (hhi : x < page + pageSize) :
    eraseWindows (p.address + p.size) p.address mem x = mem x := by
  have hwindow := hout (windowIn p.address x) (by unfold windowIn pageBase pageSize at *; omega)
    (by unfold windowIn pageBase pageSize at *; omega)
  rw [eraseWindows_apply]
  apply if_neg
  omega

/-- The bytes of the first page lie in the first window. -/
theorem eraseWindows_first_page (p : FlashEraseParams) (mem : ℕ → UInt8) {x : ℕ}
    (hlo : p.address ≤ x) (hhi : x < p.address + p.size) (hpage : pageBase x = pageBase p.address) :
    eraseWindows (p.address + p.size) p.address mem x = 0xFF := by
  apply eraseWindows_erases
  unfold WindowErases
  unfold pageBase pageSize at hpage
  omega

theorem eraseWindows_range_iff (p : FlashEraseParams) (mem : ℕ → UInt8) :
    (∀ x, p.address ≤ x → x < p.address + p.size →
      eraseWindows (p.address + p.size) p.address mem x = 0xFF) ↔ p.HeadsErased mem := by
  constructor
  · intro h page hpage hlo hhi
    by_cases hwindow : page + p.address % pageSize < p.address + p.size ∧
        memoryBlank mem (page + p.address % pageSize) = false
    · exact .inr ⟨hwindow.1, (memoryBlank_eq_false_iff _ _).mp hwindow.2⟩
    · left
      intro x hx hhead hlast
      have hin : windowIn p.address x = page + p.address % pageSize := by
        unfold windowIn pageBase pageSize at *
        omega
      have hx := h x (by omega) hlast
      rw [eraseWindows_apply, hin, if_neg fun hc => hwindow hc.2] at hx
      exact hx
  · intro h x hlo hhi
    by_cases hfirst : pageBase x = pageBase p.address
    · exact eraseWindows_first_page p mem hlo hhi hfirst
    · have hpage := h (pageBase x) (by unfold pageBase pageSize; omega)
        (by unfold pageBase pageSize at *; omega) (by unfold pageBase pageSize at *; omega)
      rcases hpage with hblank | ⟨hwindow, hnot⟩
      · by_cases hhead : x < pageBase x + p.address % pageSize
        · exact eraseWindows_blank _ _ (hblank x (by unfold pageBase pageSize; omega) hhead hhi)
        · apply eraseWindows_erases
          unfold WindowErases
          unfold pageBase pageSize at *
          omega
      · rw [eraseWindows_apply]
        apply if_pos
        refine ⟨?_, hwindow, (memoryBlank_eq_false_iff _ _).mpr hnot⟩
        unfold windowIn pageBase pageSize at *
        omega

/-- The whole loop over a single request that the checks let through. -/
theorem loopRun_single (d : Device) {p : FlashEraseParams}
    (hqueue : d.mon.gEraseParams.toList = [p]) (hlo : 0x08004000 ≤ p.address)
    (hhi : p.address + p.size ≤ 0x08020000) :
    ∃ d', LoopRun .disableIrq19 d .enableIrq19 d' ∧
      d'.mem = eraseWindows (p.address + p.size) p.address d.mem := by
  set d₁ : Device := { d with mon := { d.mon with irq19 := false, irq20 := false } }
  obtain ⟨d', hrun, hmem⟩ := loopRun_entries [p] d₁ hqueue
  have hstart : LoopRun .disableIrq19 d .enableIrq19 d' := .cons rfl rfl (.cons rfl rfl hrun)
  have hlast : p.lastAddress = p.address + p.size := Nat.mod_eq_of_lt (by omega)
  have haccepted : p.accepted = true := by
    rw [accepted_iff, hlast]
    omega
  refine ⟨d', hstart, ?_⟩
  rw [hmem, eraseEntries_cons, if_pos haccepted, hlast]
  rfl

/-- A request in user flash is carried out to its end, and it erases its range and only the
pages it touches exactly when the heads of the later pages are erased. -/
theorem flashEraseLoop_erasedExactly_iff (d : Device) {p : FlashEraseParams}
    (hqueue : d.mon.gEraseParams.toList = [p]) (hlo : 0x08004000 ≤ p.address)
    (hhi : p.address + p.size ≤ 0x08020000) :
    (∃ d', LoopRun .disableIrq19 d .enableIrq19 d') ∧
      ∀ d', LoopRun .disableIrq19 d .enableIrq19 d' →
        (p.ErasedExactly d.mem d'.mem ↔ p.HeadsErased d.mem) := by
  obtain ⟨d₁, hrun₁, hmem₁⟩ := loopRun_single d hqueue hlo hhi
  constructor
  · exact ⟨d₁, hrun₁⟩
  · intro d' hrun
    obtain ⟨-, rfl⟩ := hrun₁.unique hrun rfl rfl
    rw [← eraseWindows_range_iff, FlashEraseParams.ErasedExactly, hmem₁]
    constructor
    · exact fun h => h.1
    · intro h
      exact ⟨h, fun page hpage hout x => eraseWindows_beside p d.mem hpage hout⟩

/-- After reset, with one request waiting and all of memory erased but the byte at `x`. -/
def Device.toErase (p : FlashEraseParams) (x : ℕ) : Device :=
  ((Device.initial (blankExcept x) bootSymbols).debugStartEraseLoop p.address p.size).2

theorem Device.toErase_queue (p : FlashEraseParams) (x : ℕ) :
    (Device.toErase p x).mon.gEraseParams.toList = [p] := by
  have hput :
      ((CircularBuffer.empty : CircularBuffer FlashEraseParams 4).put p).2.toList = [p] := by
    simp [CircularBuffer.toList_put]
  exact hput

/-- Two whole pages, the second of them written. -/
theorem flashEraseLoop_erasedExactly_iff_two_pages :
    ∃ d', LoopRun .disableIrq19 (Device.toErase ⟨0x08004000, 0x800⟩ 0x08004400) .enableIrq19 d' ∧
      FlashEraseParams.ErasedExactly ⟨0x08004000, 0x800⟩
        (Device.toErase ⟨0x08004000, 0x800⟩ 0x08004400).mem d'.mem := by
  obtain ⟨⟨d', hrun⟩, herased⟩ := flashEraseLoop_erasedExactly_iff
    (Device.toErase ⟨0x08004000, 0x800⟩ 0x08004400) (Device.toErase_queue _ _)
    (by decide) (by decide)
  refine ⟨d', hrun, (herased d' hrun).mpr ?_⟩
  intro page _ _ _
  left
  intro x hlo hhi _
  exact absurd hhi (Nat.not_lt.mpr hlo)

/-- A request for the second half of one page and the first half of the next, where one byte is
written: the only window erases the page it begins in, and the byte stays. -/
theorem flashEraseLoop_misses_second_page :
    ∃ d', LoopRun .disableIrq19 (Device.toErase ⟨0x08004200, 0x400⟩ 0x08004400) .enableIrq19 d' ∧
      ¬ FlashEraseParams.ErasedExactly ⟨0x08004200, 0x400⟩
        (Device.toErase ⟨0x08004200, 0x400⟩ 0x08004400).mem d'.mem := by
  obtain ⟨d', hrun, hmem⟩ := loopRun_single (Device.toErase ⟨0x08004200, 0x400⟩ 0x08004400)
    (Device.toErase_queue _ _) (by decide) (by decide)
  refine ⟨d', hrun, fun h => ?_⟩
  have herased := h.1 0x08004400 (by decide) (by decide)
  rw [hmem, eraseWindows_apply, if_neg (by decide)] at herased
  exact absurd ((blankExcept_self 0x08004400).symm.trans herased) (by decide)

end BluePill
