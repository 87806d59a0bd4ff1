import BluePill.Firmware.MonitorRules

/-! `flashEraseLoop` run to its end: it always ends, and what it leaves in memory. -/
namespace BluePill
open Lib

/-- The loop has not yet found `gEraseParams` empty. -/
def EraseLine.draining : EraseLine → Bool
  | .enableIrq19 | .enableIrq20 | .startLocalLoop | .spin => false
  | _ => true

/-- Statements of the loop run one after the other while it is draining. -/
inductive LoopRun : EraseLine → Device → EraseLine → Device → Prop
  | refl (l : EraseLine) (d : Device) : LoopRun l d l d
  | step {l l' : EraseLine} {d d' : Device} : l.draining = true →
      LoopRun (flashEraseLoop l d).1 (flashEraseLoop l d).2 l' d' → LoopRun l d l' d'

theorem LoopRun.cons {l l₁ l₂ : EraseLine} {d d₁ d₂ : Device} (hdrain : l.draining = true)
    (hstep : flashEraseLoop l d = (l₁, d₁)) (h : LoopRun l₁ d₁ l₂ d₂) : LoopRun l d l₂ d₂ := by
  refine .step hdrain ?_
  rw [hstep]
  exact h

theorem LoopRun.trans {l₁ l₂ l₃ : EraseLine} {d₁ d₂ d₃ : Device} (h : LoopRun l₁ d₁ l₂ d₂)
    (h' : LoopRun l₂ d₂ l₃ d₃) : LoopRun l₁ d₁ l₃ d₃ := by
  induction h with
  | refl => exact h'
  | step hdrain _ ih => exact .step hdrain (ih h')

/-- A run to the end of the draining part has only one result. -/
theorem LoopRun.unique {l l₁ l₂ : EraseLine} {d d₁ d₂ : Device} (h₁ : LoopRun l d l₁ d₁)
    (h₂ : LoopRun l d l₂ d₂) (hl₁ : l₁.draining = false) (hl₂ : l₂.draining = false) :
    l₁ = l₂ ∧ d₁ = d₂ := by
  induction h₁ with
  | refl l d =>
    cases h₂ with
    | refl => exact ⟨rfl, rfl⟩
    | step hdrain _ => exact absurd (hdrain.symm.trans hl₁) Bool.noConfusion
  | step hdrain _ ih =>
    cases h₂ with
    | refl => exact absurd (hdrain.symm.trans hl₂) Bool.noConfusion
    | step _ h₂ => exact ih h₂ hl₁

/-- No word of the window at `cur` differs from `0xFFFFFFFF`. -/
def memoryBlank (mem : ℕ → UInt8) (cur : ℕ) : Bool :=
  (List.range 256).all fun i => ofLE (readRange mem (cur + 4 * i) 4) == 0xFFFFFFFF

theorem ofLE_four_eq (b₀ b₁ b₂ b₃ : UInt8) : ofLE [b₀, b₁, b₂, b₃] = 0xFFFFFFFF ↔
    b₀ = 0xFF ∧ b₁ = 0xFF ∧ b₂ = 0xFF ∧ b₃ = 0xFF := by
  have h₀ := b₀.toNat_lt
  have h₁ := b₁.toNat_lt
  have h₂ := b₂.toNat_lt
  have h₃ := b₃.toNat_lt
  simp only [ofLE, ← UInt8.toNat_inj, UInt8.reduceToNat]
  omega

/-- The window is blank exactly when all its bytes are `0xFF`. -/
theorem memoryBlank_iff (mem : ℕ → UInt8) (cur : ℕ) :
    memoryBlank mem cur = true ↔ ∀ x, cur ≤ x → x < cur + 0x400 → mem x = 0xFF := by
  simp only [memoryBlank, List.all_eq_true, List.mem_range, beq_iff_eq]
  constructor
  · intro h x hlo hhi
    have hword := h ((x - cur) / 4) (by omega)
    have hread : readRange mem (cur + 4 * ((x - cur) / 4)) 4 =
        [mem (cur + 4 * ((x - cur) / 4)), mem (cur + 4 * ((x - cur) / 4) + 1),
          mem (cur + 4 * ((x - cur) / 4) + 2), mem (cur + 4 * ((x - cur) / 4) + 3)] := rfl
    rw [hread, ofLE_four_eq] at hword
    obtain ⟨h₀, h₁, h₂, h₃⟩ := hword
    have hmod : (x - cur) % 4 = 0 ∨ (x - cur) % 4 = 1 ∨ (x - cur) % 4 = 2 ∨ (x - cur) % 4 = 3 := by
      omega
    rcases hmod with hm | hm | hm | hm
    · rwa [show x = cur + 4 * ((x - cur) / 4) by omega]
    · rwa [show x = cur + 4 * ((x - cur) / 4) + 1 by omega]
    · rwa [show x = cur + 4 * ((x - cur) / 4) + 2 by omega]
    · rwa [show x = cur + 4 * ((x - cur) / 4) + 3 by omega]
  · intro h i hi
    have hread : readRange mem (cur + 4 * i) 4 =
        [mem (cur + 4 * i), mem (cur + 4 * i + 1), mem (cur + 4 * i + 2), mem (cur + 4 * i + 3)] :=
      rfl
    rw [hread, ofLE_four_eq]
    exact ⟨h _ (by omega) (by omega), h _ (by omega) (by omega), h _ (by omega) (by omega),
      h _ (by omega) (by omega)⟩

/-- What one round of the inner loops does to memory. -/
def eraseWindow (mem : ℕ → UInt8) (cur : ℕ) : ℕ → UInt8 :=
  if memoryBlank mem cur then mem else fill mem (pageBase cur) (pageBase cur + pageSize) 0xFF

/-- The windows from `cur` to `last`, one after the other. -/
def eraseWindows (last cur : ℕ) (mem : ℕ → UInt8) : ℕ → UInt8 :=
  if cur < last then eraseWindows last (cur + 0x400) (eraseWindow mem cur) else mem
termination_by last - cur
decreasing_by omega

/-- The entries in order, up to the first one that is refused. -/
def eraseEntries (ps : List FlashEraseParams) (mem : ℕ → UInt8) : ℕ → UInt8 :=
  match ps with
  | [] => mem
  | p :: ps =>
    if addressRejected p ∨ lastRejected p then mem
    else eraseEntries ps (eraseWindows p.lastAddress p.address mem)

/-- The entry in hand has passed the checks, so the counter of its pages cannot wrap. -/
def EraseLine.Sound : EraseLine → Prop
  | .pageTest p _ | .blankCheck p _ | .erasePage p _ _ | .nextPage p _ =>
    p.lastAddress ≤ 0x80020000
  | _ => True

theorem loopRun_window (p : FlashEraseParams) (cur : ℕ) (d : Device)
    (h : p.lastAddress ≤ 0x80020000) (hcur : cur < p.lastAddress) :
    ∃ d', LoopRun (.pageTest p cur) d (.pageTest p (cur + 0x400)) d' ∧
      d'.mem = eraseWindow d.mem cur ∧ d'.mon = d.mon := by
  have hwrap : (cur + 0x400) % 4294967296 = cur + 0x400 := Nat.mod_eq_of_lt (by omega)
  set d' := if !windowBlank d cur then d.flashErasePage cur else d with hd'
  have htest : flashEraseLoop (.pageTest p cur) d = (.blankCheck p cur, d) := by
    simp only [flashEraseLoop, hcur, if_true]
  have hnext : flashEraseLoop (.nextPage p cur) d' = (.pageTest p (cur + 0x400), d') := by
    simp only [flashEraseLoop, hwrap]
  refine ⟨d', ?_, ?_, ?_⟩
  · exact .cons rfl htest (.cons rfl rfl (.cons rfl rfl (.cons rfl hnext (.refl _ _))))
  · have hblank : windowBlank d cur = memoryBlank d.mem cur := rfl
    rw [hd', hblank, eraseWindow]
    rcases memoryBlank d.mem cur <;> rfl
  · rw [hd']
    rcases windowBlank d cur <;> rfl

theorem loopRun_windows (p : FlashEraseParams) (cur : ℕ) (d : Device)
    (h : p.lastAddress ≤ 0x80020000) :
    ∃ d', LoopRun (.pageTest p cur) d .pull d' ∧
      d'.mem = eraseWindows p.lastAddress cur d.mem ∧ d'.mon = d.mon := by
  induction hn : p.lastAddress - cur using Nat.strong_induction_on generalizing cur d with
  | _ n ih =>
    rw [eraseWindows]
    by_cases hcur : cur < p.lastAddress
    · obtain ⟨d₁, hrun₁, hmem₁, hmon₁⟩ := loopRun_window p cur d h hcur
      obtain ⟨d₂, hrun₂, hmem₂, hmon₂⟩ := ih (p.lastAddress - (cur + 0x400)) (by omega) _ d₁ rfl
      refine ⟨d₂, hrun₁.trans hrun₂, ?_, hmon₂.trans hmon₁⟩
      rw [hmem₂, hmem₁, if_pos hcur]
    · have htest : flashEraseLoop (.pageTest p cur) d = (.pull, d) := by
        simp only [flashEraseLoop, hcur, if_false]
      exact ⟨d, .cons rfl htest (.refl _ _), (if_neg hcur).symm, rfl⟩

theorem flashEraseLoop_pull_nil {d : Device} (h : d.mon.gEraseParams.toList = []) :
    flashEraseLoop .pull d = (.enableIrq19, d) := by
  have hfst : d.mon.gEraseParams.pull.1 = none := by
    rw [CircularBuffer.pull_fst, h, List.head?_nil]
  simp only [flashEraseLoop]
  split
  next hp => simp [hp] at hfst
  next => rfl

theorem flashEraseLoop_pull_cons {d : Device} {p : FlashEraseParams} {ps : List FlashEraseParams}
    (h : d.mon.gEraseParams.toList = p :: ps) :
    ∃ q, q.toList = ps ∧ flashEraseLoop .pull d = (.checkAddress p, { d with
      mon := { d.mon with gEraseParams := q }
      flashLog := d.flashLog ++ [.erasePulled p] }) := by
  have hfst : d.mon.gEraseParams.pull.1 = some p := by
    rw [CircularBuffer.pull_fst, h, List.head?_cons]
  have hsnd : d.mon.gEraseParams.pull.2.toList = ps := by
    rw [CircularBuffer.toList_pull, h, List.tail_cons]
  refine ⟨d.mon.gEraseParams.pull.2, hsnd, ?_⟩
  simp only [flashEraseLoop]
  split
  next p' q hp =>
    rw [hp] at hfst
    obtain rfl : p' = p := Option.some.inj hfst
    rw [hp]
  next hp => simp [hp] at hfst

/-- The checks let the entry through to its first page, or end the loop. -/
theorem loopRun_checks (p : FlashEraseParams) (d : Device) :
    if addressRejected p ∨ lastRejected p then LoopRun (.checkAddress p) d .enableIrq19 d
    else LoopRun (.checkAddress p) d (.pageTest p p.address) d := by
  by_cases ha : addressRejected p = true
  · have hcheck : flashEraseLoop (.checkAddress p) d = (.enableIrq19, d) := by
      simp only [flashEraseLoop, ha, if_true]
    simp only [ha, true_or, if_true]
    exact .cons rfl hcheck (.refl _ _)
  · have hcheck : flashEraseLoop (.checkAddress p) d = (.checkLast p, d) := by
      simp only [flashEraseLoop, ha, Bool.false_eq_true, if_false]
    by_cases hl : lastRejected p = true
    · have hlast : flashEraseLoop (.checkLast p) d = (.enableIrq19, d) := by
        simp only [flashEraseLoop, hl, if_true]
      simp only [hl, or_true, if_true]
      exact .cons rfl hcheck (.cons rfl hlast (.refl _ _))
    · have hlast : flashEraseLoop (.checkLast p) d = (.pageTest p p.address, d) := by
        simp only [flashEraseLoop, hl, Bool.false_eq_true, if_false]
      simp only [ha, hl, Bool.false_eq_true, or_self, if_false]
      exact .cons rfl hcheck (.cons rfl hlast (.refl _ _))

theorem lastAddress_le_of_not_rejected {p : FlashEraseParams} (h : ¬ lastRejected p = true) :
    p.lastAddress ≤ 0x80020000 := by
  simpa [lastRejected] using h

/-- The loop ends with the entries in `gEraseParams` carried out. -/
theorem loopRun_entries (ps : List FlashEraseParams) (d : Device)
    (hps : d.mon.gEraseParams.toList = ps) :
    ∃ d', LoopRun .pull d .enableIrq19 d' ∧ d'.mem = eraseEntries ps d.mem := by
  induction ps generalizing d with
  | nil => exact ⟨d, .cons rfl (flashEraseLoop_pull_nil hps) (.refl _ _), rfl⟩
  | cons p ps ih =>
    obtain ⟨q, hq, hpull⟩ := flashEraseLoop_pull_cons hps
    set d₁ : Device := { d with
      mon := { d.mon with gEraseParams := q }
      flashLog := d.flashLog ++ [.erasePulled p] } with hd₁
    have hchecks := loopRun_checks p d₁
    rw [eraseEntries]
    split_ifs at hchecks ⊢ with hrej
    · exact ⟨d₁, .cons rfl hpull hchecks, rfl⟩
    · have hlast := lastAddress_le_of_not_rejected fun h => hrej (.inr h)
      obtain ⟨d₂, hrun₂, hmem₂, hmon₂⟩ := loopRun_windows p p.address d₁ hlast
      obtain ⟨d₃, hrun₃, hmem₃⟩ := ih d₂ (by rw [hmon₂]; exact hq)
      exact ⟨d₃, .cons rfl hpull (hchecks.trans (hrun₂.trans hrun₃)), by rw [hmem₃, hmem₂]⟩

theorem flashEraseLoop_sound {l : EraseLine} (d : Device) (h : l.Sound) :
    (flashEraseLoop l d).1.Sound := by
  cases l
  case pull =>
    simp only [flashEraseLoop]
    split <;> trivial
  case checkAddress p =>
    simp only [flashEraseLoop]
    split_ifs <;> trivial
  case checkLast p =>
    simp only [flashEraseLoop]
    split_ifs with hrej
    · trivial
    · exact lastAddress_le_of_not_rejected hrej
  case pageTest p cur =>
    simp only [flashEraseLoop]
    split_ifs
    · exact h
    · trivial
  all_goals trivial

/-- From any statement of the draining part the loop gets to its end. -/
theorem loopRun_ends {l : EraseLine} (d : Device) (hdrain : l.draining = true) (hl : l.Sound) :
    ∃ d', LoopRun l d .enableIrq19 d' := by
  have hpull : ∀ d, ∃ d', LoopRun .pull d .enableIrq19 d' := fun d =>
    (loopRun_entries _ d rfl).imp fun _ h => h.1
  have hpages : ∀ p cur d, p.lastAddress ≤ 0x80020000 →
      ∃ d', LoopRun (.pageTest p cur) d .enableIrq19 d' := by
    intro p cur d h
    obtain ⟨d₁, hrun, -, -⟩ := loopRun_windows p cur d h
    exact (hpull d₁).imp fun _ h => hrun.trans h
  have hchecks : ∀ p d, ∃ d', LoopRun (.checkAddress p) d .enableIrq19 d' := by
    intro p d
    have hchecks := loopRun_checks p d
    split_ifs at hchecks with hrej
    · exact ⟨d, hchecks⟩
    · have hlast := lastAddress_le_of_not_rejected fun h => hrej (.inr h)
      exact (hpages p p.address d hlast).imp fun _ h => hchecks.trans h
  have hone : ∀ l d, l.draining = true → (∃ d', LoopRun (flashEraseLoop l d).1
      (flashEraseLoop l d).2 .enableIrq19 d') → ∃ d', LoopRun l d .enableIrq19 d' :=
    fun l d hdrain h => h.imp fun _ h => .step hdrain h
  have hnext : ∀ p cur d, p.lastAddress ≤ 0x80020000 →
      ∃ d', LoopRun (.nextPage p cur) d .enableIrq19 d' :=
    fun p cur d h => hone _ d rfl (hpages p _ _ h)
  have herase : ∀ p cur b d, p.lastAddress ≤ 0x80020000 →
      ∃ d', LoopRun (.erasePage p cur b) d .enableIrq19 d' :=
    fun p cur b d h => hone _ d rfl (hnext p cur _ h)
  cases l with
  | disableIrq19 => exact hone _ d rfl (hone _ _ rfl (hpull _))
  | disableIrq20 => exact hone _ d rfl (hpull _)
  | pull => exact hpull d
  | checkAddress p => exact hchecks p d
  | checkLast p =>
    by_cases hrej : lastRejected p = true
    · have hlast : flashEraseLoop (.checkLast p) d = (.enableIrq19, d) := by
        simp only [flashEraseLoop, hrej, if_true]
      exact ⟨d, .cons rfl hlast (.refl _ _)⟩
    · have hlast : flashEraseLoop (.checkLast p) d = (.pageTest p p.address, d) := by
        simp only [flashEraseLoop, hrej, Bool.false_eq_true, if_false]
      obtain ⟨d', h⟩ := hpages p p.address d (lastAddress_le_of_not_rejected hrej)
      exact ⟨d', .cons rfl hlast h⟩
  | pageTest p cur => exact hpages p cur d hl
  | blankCheck p cur => exact hone _ d rfl (herase p cur _ d hl)
  | erasePage p cur b => exact herase p cur b d hl
  | nextPage p cur => exact hnext p cur d hl
  | enableIrq19 | enableIrq20 | startLocalLoop | spin => exact absurd hdrain Bool.false_ne_true

/-- The device without the fields that the machine keeps for thread mode. -/
def Device.loopView (d : Device) : Device :=
  { d with mon := { d.mon with thread := .user, stepTaken := false } }

theorem flashEraseLoop_loopView (l : EraseLine) (d : Device) :
    flashEraseLoop l d.loopView = ((flashEraseLoop l d).1, (flashEraseLoop l d).2.loopView) := by
  cases l
  case pull =>
    have hq : d.loopView.mon.gEraseParams = d.mon.gEraseParams := rfl
    simp only [flashEraseLoop, hq]
    rcases d.mon.gEraseParams.pull with ⟨_ | p, q⟩ <;> rfl
  case erasePage p cur erase => cases erase <;> rfl
  all_goals rfl

theorem flashEraseLoop_armed {l : EraseLine} (d : Device) (hdrain : l.draining = true) :
    (flashEraseLoop l d).2.mon.monPend = d.mon.monPend ∧
      (flashEraseLoop l d).2.mon.monStep = d.mon.monStep := by
  cases l
  case pull =>
    simp only [flashEraseLoop]
    rcases d.mon.gEraseParams.pull with ⟨_ | p, q⟩ <;> exact ⟨rfl, rfl⟩
  case erasePage p cur erase => cases erase <;> exact ⟨rfl, rfl⟩
  case startLocalLoop => exact absurd hdrain Bool.false_ne_true
  all_goals exact ⟨rfl, rfl⟩

/-- With nothing armed the machine can follow the loop. -/
theorem threadRun_of_loopRun {l l' : EraseLine} {d d' : Device} (h : LoopRun l d l' d')
    (c : Config) (hline : c.line = .outside) (hthread : c.dev.mon.thread = .eraseLoop l)
    (hview : c.dev.loopView = d.loopView) (hpend : c.dev.mon.monPend = false)
    (hstep : c.dev.mon.monStep = false) :
    ∃ n c', Run step anyStep c (List.replicate n .thread) c' ∧ c'.line = .outside ∧
      c'.dev.mon.thread = .eraseLoop l' ∧ c'.dev.mem = d'.mem := by
  induction h generalizing c with
  | refl l d =>
    have hmem : c.dev.loopView.mem = d.loopView.mem := by rw [hview]
    exact ⟨0, c, .start, hline, hthread, hmem⟩
  | @step l l' d d' hdrain _ ih =>
    have hfollow : flashEraseLoop l c.dev.loopView = flashEraseLoop l d.loopView := by rw [hview]
    rw [flashEraseLoop_loopView, flashEraseLoop_loopView, Prod.mk.injEq] at hfollow
    obtain ⟨hl, hd⟩ := hfollow
    have harmed := flashEraseLoop_armed c.dev hdrain
    have hruns : c.dev.mon.threadRuns = true := by simp [Monitor.threadRuns, hpend, hstep]
    have hone : step c .thread = some { c with dev := threadStep l c.dev } := by
      simp only [step, hthread, hline, hruns, and_self, if_true]
    obtain ⟨n, c', hrun, hend⟩ := ih { c with dev := threadStep l c.dev } hline
      (congrArg ThreadCode.eraseLoop hl) hd (harmed.1.trans hpend) (harmed.2.trans hstep)
    refine ⟨n + 1, c', ?_, hend⟩
    have hfirst : Run step anyStep c [.thread] { c with dev := threadStep l c.dev } :=
      Run.start.snoc trivial hone
    exact hfirst.trans hrun

end BluePill
