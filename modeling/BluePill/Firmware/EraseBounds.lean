import BluePill.Firmware.ErasePages

/-! The addresses that `flashEraseLoop` touches. Its checks let everything up to `0x80020000` through,
so that they stay in user flash only for entries that end there by themselves. -/
namespace BluePill
open Lib

/-- The inner `for` of `flashEraseLoop` over `words` words, with the addresses that it reads: it stops
at the first word that is not blank. -/
def checkWindow (mem : ℕ → UInt8) (checkAddress : ℕ) : ℕ → List ℕ × Bool
  | 0 => ([], false)
  | words + 1 =>
    if ofLE (readRange mem checkAddress 4) ≠ 0xFFFFFFFF then ([checkAddress], true)
    else
      let (read, erase) := checkWindow mem (checkAddress + 4) words
      (checkAddress :: read, erase)

/-- The bytes that a statement reads for the blank check, and the page that it erases. -/
def EraseLine.addresses (d : Device) : EraseLine → List ℕ
  | .blankCheck _ cur => (checkWindow d.mem cur 256).1.flatMap fun a => [a, a + 1, a + 2, a + 3]
  | .erasePage _ cur true => [cur]
  | _ => []

theorem checkWindow_erase (mem : ℕ → UInt8) (a n : ℕ) :
    (checkWindow mem a n).2 =
      !(List.range n).all fun i => ofLE (readRange mem (a + 4 * i) 4) == 0xFFFFFFFF := by
  induction n generalizing a with
  | zero => rfl
  | succ n ih =>
    have hshift : ∀ i, a + 4 + 4 * i = a + 4 * (i + 1) := fun i => by omega
    rw [checkWindow, List.range_succ_eq_map, List.all_cons, List.all_map]
    split_ifs with hword
    · have hfirst : (ofLE (readRange mem (a + 4 * 0) 4) == 0xFFFFFFFF) = false :=
        beq_eq_false_iff_ne.mpr hword
      rw [hfirst]
      rfl
    · have hfirst : (ofLE (readRange mem (a + 4 * 0) 4) == 0xFFFFFFFF) = true :=
        beq_iff_eq.mpr (not_not.mp hword)
      rw [hfirst, Bool.true_and]
      refine (ih (a + 4)).trans ?_
      simp only [hshift]
      rfl

/-- The traced check is that of the loop. -/
theorem flashEraseLoop_blankCheck (p : FlashEraseParams) (cur : ℕ) (d : Device) :
    flashEraseLoop (.blankCheck p cur) d = (.erasePage p cur (checkWindow d.mem cur 256).2, d) := by
  rw [checkWindow_erase]
  rfl

/-- The window ends in user flash, or the check does because of a word that is not blank. -/
def WindowInside (mem : ℕ → UInt8) (cur : ℕ) : Prop :=
  cur + 0x400 ≤ 0x08020000 ∨ ∃ i < 256, cur + 4 * i + 4 ≤ 0x08020000 ∧
    ofLE (readRange mem (cur + 4 * i) 4) ≠ 0xFFFFFFFF

theorem checkWindow_inside (mem : ℕ → UInt8) {a : ℕ} (ha : 0x08004000 ≤ a) (n : ℕ) :
    (∀ x ∈ (checkWindow mem a n).1.flatMap fun a => [a, a + 1, a + 2, a + 3],
      isFlashRegion x = true) ↔
    n = 0 ∨ a + 4 * n ≤ 0x08020000 ∨ ∃ i < n, a + 4 * i + 4 ≤ 0x08020000 ∧
      ofLE (readRange mem (a + 4 * i) 4) ≠ 0xFFFFFFFF := by
  have hinside : ∀ a, 0x08004000 ≤ a →
      ((∀ x ∈ [a, a + 1, a + 2, a + 3], isFlashRegion x = true) ↔ a + 4 ≤ 0x08020000) := by
    intro a ha
    simp only [List.forall_mem_cons, List.not_mem_nil, isFlashRegion, decide_eq_true_eq]
    constructor
    · rintro ⟨-, -, -, h, -⟩
      omega
    · intro h
      exact ⟨by omega, by omega, by omega, by omega, fun x hx => hx.elim⟩
  induction n generalizing a with
  | zero => simp [checkWindow]
  | succ n ih =>
    have hshift : ∀ i, a + 4 + 4 * i = a + 4 * (i + 1) := fun i => by omega
    rw [checkWindow, or_iff_right n.succ_ne_zero]
    split_ifs with hword
    · rw [List.flatMap_singleton, hinside a ha]
      constructor
      · intro h
        exact .inr ⟨0, n.succ_pos, h, hword⟩
      · rintro (h | ⟨i, -, h, -⟩) <;> omega
    · have hrest := ih (a := a + 4) (by omega)
      rw [List.flatMap_cons, List.forall_mem_append, hinside a ha]
      refine (and_congr_right fun _ => hrest).trans ?_
      simp only [hshift]
      constructor
      · rintro ⟨h, rfl | hend | ⟨i, hi, hle, hne⟩⟩
        · exact .inl h
        · exact .inl (by omega)
        · exact .inr ⟨i + 1, Nat.succ_lt_succ hi, hle, hne⟩
      · rintro (hend | ⟨_ | i, hi, hle, hne⟩)
        · exact ⟨by omega, .inr (.inl (by omega))⟩
        · exact absurd hne hword
        · exact ⟨by omega, .inr (.inr ⟨i, Nat.lt_of_succ_lt_succ hi, hle, hne⟩)⟩

/-- Every statement that the loop gets to from here touches user flash only. -/
def EraseLine.Safe (l : EraseLine) (d : Device) : Prop :=
  ∀ l' d', LoopRun l d l' d' → ∀ x ∈ l'.addresses d', isFlashRegion x = true

theorem EraseLine.safe_iff {l : EraseLine} (d : Device) (hdrain : l.draining = true) :
    l.Safe d ↔ (∀ x ∈ l.addresses d, isFlashRegion x = true) ∧
      (flashEraseLoop l d).1.Safe (flashEraseLoop l d).2 := by
  constructor
  · intro h
    exact ⟨h l d (.refl l d), fun l' d' hrun => h l' d' (.step hdrain hrun)⟩
  · rintro ⟨hhere, hnext⟩ l' d' hrun
    cases hrun with
    | refl => exact hhere
    | step _ hrest => exact hnext l' d' hrest

/-- A statement that touches nothing. -/
theorem EraseLine.safe_iff_next {l l' : EraseLine} {d d' : Device} (hdrain : l.draining = true)
    (hnone : l.addresses d = []) (hstep : flashEraseLoop l d = (l', d')) :
    l.Safe d ↔ l'.Safe d' := by
  rw [l.safe_iff d hdrain, hnone, hstep]
  exact and_iff_right fun x hx => absurd hx List.not_mem_nil

theorem EraseLine.safe_settled (d : Device) : EraseLine.enableIrq19.Safe d := by
  intro l' d' hrun x hx
  cases hrun with
  | refl => exact absurd hx List.not_mem_nil
  | step hdrain _ => exact absurd hdrain Bool.false_ne_true

/-- One round of the outer loop of an entry. -/
theorem safe_window (p : FlashEraseParams) {cur : ℕ} (d : Device) (hcur : cur < p.lastAddress)
    (hlo : 0x08004000 ≤ cur) (h : p.lastAddress ≤ 0x80020000) :
    ∃ d', ((EraseLine.pageTest p cur).Safe d ↔
        WindowInside d.mem cur ∧ (EraseLine.pageTest p (cur + 0x400)).Safe d') ∧
      d'.mem = eraseWindow d.mem cur ∧ d'.mon = d.mon := by
  have hwrap : (cur + 0x400) % 4294967296 = cur + 0x400 := Nat.mod_eq_of_lt (by omega)
  set erase := (checkWindow d.mem cur 256).2 with herase
  set d' := if erase then d.flashErasePage cur else d with hd'
  have htest : flashEraseLoop (.pageTest p cur) d = (.blankCheck p cur, d) := by
    simp only [flashEraseLoop, hcur, if_true]
  have hnext : flashEraseLoop (.nextPage p cur) d' = (.pageTest p (cur + 0x400), d') := by
    simp only [flashEraseLoop, hwrap]
  have hpage : WindowInside d.mem cur →
      ∀ x ∈ (EraseLine.erasePage p cur erase).addresses d, isFlashRegion x = true := by
    intro hwindow x hx
    cases hb : erase with
    | false =>
      rw [hb] at hx
      exact absurd hx List.not_mem_nil
    | true =>
      rw [hb] at hx
      obtain rfl := List.mem_singleton.mp hx
      rw [isFlashRegion, decide_eq_true_eq]
      rcases hwindow with hend | ⟨i, -, hend, -⟩ <;> omega
  refine ⟨d', ?_, ?_, ?_⟩
  · have hreads : (∀ x ∈ (EraseLine.blankCheck p cur).addresses d, isFlashRegion x = true) ↔
        WindowInside d.mem cur :=
      (checkWindow_inside d.mem hlo 256).trans (or_iff_right (by decide))
    have herased : flashEraseLoop (.erasePage p cur erase) d = (.nextPage p cur, d') := rfl
    rw [EraseLine.safe_iff_next rfl rfl htest, EraseLine.safe_iff d rfl, hreads,
      flashEraseLoop_blankCheck, ← herase]
    apply and_congr_right
    intro hwindow
    rw [EraseLine.safe_iff (l := .erasePage p cur erase) d rfl, herased,
      and_iff_right (hpage hwindow)]
    exact EraseLine.safe_iff_next rfl rfl hnext
  · have hblank : erase = !memoryBlank d.mem cur := checkWindow_erase d.mem cur 256
    rw [hd', hblank, eraseWindow]
    rcases memoryBlank d.mem cur <;> rfl
  · rw [hd']
    cases erase <;> rfl

theorem windowInside_congr {mem mem' : ℕ → UInt8} {cur : ℕ}
    (h : 0x08020000 < cur + 0x400 → ∀ x, cur ≤ x → x < 0x08020000 → mem x = mem' x) :
    WindowInside mem cur ↔ WindowInside mem' cur := by
  unfold WindowInside
  by_cases hend : cur + 0x400 ≤ 0x08020000
  · exact iff_of_true (.inl hend) (.inl hend)
  · have hsame := h (not_le.mp hend)
    have hword : ∀ i, cur + 4 * i + 4 ≤ 0x08020000 →
        readRange mem (cur + 4 * i) 4 = readRange mem' (cur + 4 * i) 4 := fun i hi =>
      readRange_congr fun x hlo hhi => hsame x (by omega) (by omega)
    refine or_congr_right (exists_congr fun i => and_congr_right fun _ => ?_)
    exact and_congr_right fun hi => by rw [hword i hi]

/-- A window below the last page of user flash erases nothing in it. -/
theorem eraseWindow_below (mem : ℕ → UInt8) {cur x : ℕ} (hcur : cur < 0x0801FC00)
    (hx : 0x0801FC00 ≤ x) : eraseWindow mem cur x = mem x := by
  unfold eraseWindow
  split_ifs
  · rfl
  · apply fill_outside
    unfold pageBase pageSize
    omega

theorem eraseWindows_below (mem : ℕ → UInt8) {last cur x : ℕ}
    (h : ∀ k, cur + k * 0x400 < last → cur + k * 0x400 < 0x0801FC00) (hx : 0x0801FC00 ≤ x) :
    eraseWindows last cur mem x = mem x := by
  induction hn : last - cur using Nat.strong_induction_on generalizing cur mem with
  | _ n ih =>
    rw [eraseWindows]
    split_ifs with hcur
    · have hbelow : cur < 0x0801FC00 := by simpa using h 0 (by simpa using hcur)
      refine (ih (last - (cur + 0x400)) (by omega) _ (fun k hk => ?_) rfl).trans
        (eraseWindow_below mem hbelow hx)
      have hnext := h (k + 1) (by omega)
      omega
    · rfl

/-- A window in the last page of user flash that ends there leaves the page blank. -/
theorem eraseWindow_top {mem : ℕ → UInt8} {cur x : ℕ} (hwindow : WindowInside mem cur)
    (hcur : 0x0801FC00 ≤ cur) (hlo : 0x0801FC00 ≤ x) (hhi : x < 0x08020000) :
    eraseWindow mem cur x = 0xFF := by
  have hend : cur < 0x08020000 := by
    rcases hwindow with h | ⟨i, -, h, -⟩ <;> omega
  have hblank : memoryBlank mem cur = true → cur = 0x0801FC00 := by
    intro hall
    rcases hwindow with h | ⟨i, hi, -, hne⟩
    · omega
    · have hword := List.all_eq_true.mp hall i (List.mem_range.mpr hi)
      exact absurd (beq_iff_eq.mp hword) hne
  unfold eraseWindow
  split_ifs with hall
  · exact (memoryBlank_iff mem cur).mp hall x (by rw [hblank hall]; exact hlo) (by omega)
  · apply fill_inside
    · unfold pageBase pageSize
      omega
    · unfold pageBase pageSize
      omega

namespace FlashEraseParams

/-- The beginning of the last window of the entry. -/
def lastWindow (p : FlashEraseParams) : ℕ :=
  p.address + (p.lastAddress - 1 - p.address) / 0x400 * 0x400

/-- The entry has a window that begins in the last page of user flash or behind it. -/
def StepsIntoTop (p : FlashEraseParams) : Prop :=
  p.address < p.lastAddress ∧ 0x0801FC00 ≤ p.lastWindow

instance (p : FlashEraseParams) : Decidable p.StepsIntoTop := inferInstanceAs (Decidable (_ ∧ _))

end FlashEraseParams

/-- A window ahead is as much inside after a window that is. -/
theorem windowInside_ahead (mem : ℕ → UInt8) {cur top : ℕ} (h : cur + 0x400 ≤ top) :
    WindowInside (eraseWindow mem cur) top ↔ WindowInside mem top := by
  by_cases hcur : cur < 0x0801FC00
  · exact windowInside_congr fun _ x hlo _ => eraseWindow_below mem hcur (by omega)
  · have hnot : ∀ mem, ¬ WindowInside mem top := by
      rintro mem (hend | ⟨i, -, hend, -⟩) <;> omega
    exact iff_of_false (hnot _) (hnot _)

/-- The windows from `cur` on, of which the last one is at `top`. -/
theorem safe_windows (p : FlashEraseParams) {cur top : ℕ} (d : Device) (hcur : cur < p.lastAddress)
    (htop : top = cur + (p.lastAddress - 1 - cur) / 0x400 * 0x400)
    (hlo : 0x08004000 ≤ cur) (h : p.lastAddress ≤ 0x80020000) :
    ∃ d', ((EraseLine.pageTest p cur).Safe d ↔ WindowInside d.mem top ∧ EraseLine.pull.Safe d') ∧
      d'.mem = eraseWindows p.lastAddress cur d.mem ∧ d'.mon = d.mon ∧
      (WindowInside d.mem top → 0x0801FC00 ≤ top →
        ∀ x, 0x0801FC00 ≤ x → x < 0x08020000 → d'.mem x = 0xFF) := by
  induction hn : p.lastAddress - cur using Nat.strong_induction_on generalizing cur d with
  | _ n ih =>
    obtain ⟨d₁, hsafe₁, hmem₁, hmon₁⟩ := safe_window p d hcur hlo h
    rw [eraseWindows, if_pos hcur, ← hmem₁]
    by_cases hmore : cur + 0x400 < p.lastAddress
    · obtain ⟨d₂, hsafe₂, hmem₂, hmon₂, hblank₂⟩ := ih (p.lastAddress - (cur + 0x400)) (by omega)
        d₁ hmore (by omega) (by omega) rfl
      have hahead : WindowInside d₁.mem top ↔ WindowInside d.mem top := by
        rw [hmem₁]
        exact windowInside_ahead d.mem (by omega)
      rw [hahead] at hsafe₂ hblank₂
      refine ⟨d₂, ?_, hmem₂, hmon₂.trans hmon₁, hblank₂⟩
      rw [hsafe₁, hsafe₂]
      refine and_iff_right_of_imp fun hrest => .inl ?_
      rcases hrest.1 with hend | ⟨i, -, hend, -⟩ <;> omega
    · obtain rfl : top = cur := by omega
      have htest : flashEraseLoop (.pageTest p (top + 0x400)) d₁ = (.pull, d₁) := by
        simp only [flashEraseLoop, hmore, if_false]
      refine ⟨d₁, ?_, ?_, hmon₁, ?_⟩
      · rw [hsafe₁, EraseLine.safe_iff_next rfl rfl htest]
      · rw [eraseWindows, if_neg hmore]
      · intro hwindow hpage x hx hhi
        rw [hmem₁]
        exact eraseWindow_top hwindow hpage hx hhi

/-- Each entry that is carried out and not empty has its last window inside, and one that ends only
because of a word that is not blank comes before all others that step into the last page, which
leave it blank. -/
def InsideFlash (ps : List FlashEraseParams) (mem : ℕ → UInt8) : Prop :=
  ∀ before p behind, carriedOut ps = before ++ p :: behind → p.address < p.lastAddress →
    WindowInside mem p.lastWindow ∧
      (0x08020000 < p.lastWindow + 0x400 → ∀ q ∈ before, ¬ q.StepsIntoTop)

theorem insideFlash_refused {p : FlashEraseParams} (ps : List FlashEraseParams) (mem : ℕ → UInt8)
    (h : carriedOut (p :: ps) = []) : InsideFlash (p :: ps) mem := by
  intro before q behind heq
  rw [h] at heq
  exact absurd heq.symm (List.append_ne_nil_of_right_ne_nil before (List.cons_ne_nil q behind))

theorem insideFlash_cons {p : FlashEraseParams} (ps : List FlashEraseParams) (mem : ℕ → UInt8)
    (hp : p.accepted = true) : InsideFlash (p :: ps) mem ↔
      (p.address < p.lastAddress → WindowInside mem p.lastWindow) ∧
      ∀ before r behind, carriedOut ps = before ++ r :: behind → r.address < r.lastAddress →
        WindowInside mem r.lastWindow ∧ (0x08020000 < r.lastWindow + 0x400 →
          ¬ p.StepsIntoTop ∧ ∀ q ∈ before, ¬ q.StepsIntoTop) := by
  unfold InsideFlash
  rw [carriedOut_cons, if_pos hp]
  constructor
  · intro h
    refine ⟨fun hsome => (h [] p (carriedOut ps) rfl hsome).1, fun before r behind heq hsome => ?_⟩
    have hr := h (p :: before) r behind (by rw [heq, List.cons_append]) hsome
    simpa only [List.forall_mem_cons] using hr
  · rintro ⟨hfirst, hrest⟩ before r behind heq hsome
    cases before with
    | nil =>
      obtain ⟨rfl, -⟩ := List.cons.inj heq
      exact ⟨hfirst hsome, fun _ q hq => absurd hq List.not_mem_nil⟩
    | cons q before =>
      obtain ⟨rfl, htail⟩ := List.cons.inj heq
      simpa only [List.forall_mem_cons] using hrest before r behind htail hsome

/-- What the entries behind `p` need, in the memory before `p` and in that after it. -/
theorem insideFlash_behind {p : FlashEraseParams} (ps : List FlashEraseParams)
    {mem mem' : ℕ → UInt8}
    (hblank : p.StepsIntoTop → ∀ x, 0x0801FC00 ≤ x → x < 0x08020000 → mem' x = 0xFF)
    (hkept : ¬ p.StepsIntoTop → ∀ x, 0x0801FC00 ≤ x → mem' x = mem x) :
    InsideFlash ps mem' ↔
      ∀ before r behind, carriedOut ps = before ++ r :: behind → r.address < r.lastAddress →
        WindowInside mem r.lastWindow ∧ (0x08020000 < r.lastWindow + 0x400 →
          ¬ p.StepsIntoTop ∧ ∀ q ∈ before, ¬ q.StepsIntoTop) := by
  have hone : ∀ (r : FlashEraseParams) (P : Prop),
      (WindowInside mem' r.lastWindow ∧ (0x08020000 < r.lastWindow + 0x400 → P)) ↔
      (WindowInside mem r.lastWindow ∧
        (0x08020000 < r.lastWindow + 0x400 → ¬ p.StepsIntoTop ∧ P)) := by
    intro r P
    by_cases hcross : 0x08020000 < r.lastWindow + 0x400
    · by_cases htop : p.StepsIntoTop
      · -- the page is blank, and no word of it ends the check
        have hnot : ¬ WindowInside mem' r.lastWindow := by
          rintro (hend | ⟨i, -, hend, hne⟩)
          · omega
          · apply hne
            have hpage := hblank htop
            have hword : readRange mem' (r.lastWindow + 4 * i) 4 =
                [mem' (r.lastWindow + 4 * i), mem' (r.lastWindow + 4 * i + 1),
                  mem' (r.lastWindow + 4 * i + 2), mem' (r.lastWindow + 4 * i + 3)] := rfl
            rw [hword, ofLE_four_eq]
            exact ⟨hpage _ (by omega) (by omega), hpage _ (by omega) (by omega),
              hpage _ (by omega) (by omega), hpage _ (by omega) (by omega)⟩
        exact iff_of_false (fun h => hnot h.1) fun h => (h.2 hcross).1 htop
      · have hsame : WindowInside mem' r.lastWindow ↔ WindowInside mem r.lastWindow :=
          windowInside_congr fun _ x hlo _ => hkept htop x (by omega)
        rw [hsame]
        simp only [htop, not_false_eq_true, true_and]
    · have hend : r.lastWindow + 0x400 ≤ 0x08020000 := not_lt.mp hcross
      exact iff_of_true ⟨.inl hend, fun h => absurd h hcross⟩ ⟨.inl hend, fun h => absurd h hcross⟩
  unfold InsideFlash
  simp only [hone]

theorem safe_checks (p : FlashEraseParams) (d : Device) : (EraseLine.checkAddress p).Safe d ↔
    (p.accepted = true → (EraseLine.pageTest p p.address).Safe d) := by
  unfold FlashEraseParams.accepted
  cases ha : addressRejected p with
  | true =>
    have hcheck : flashEraseLoop (.checkAddress p) d = (.enableIrq19, d) := by
      simp only [flashEraseLoop, ha, if_true]
    rw [EraseLine.safe_iff_next rfl rfl hcheck]
    exact iff_of_true (EraseLine.safe_settled d) fun h => absurd h Bool.false_ne_true
  | false =>
    have hcheck : flashEraseLoop (.checkAddress p) d = (.checkLast p, d) := by
      simp only [flashEraseLoop, ha, Bool.false_eq_true, if_false]
    rw [EraseLine.safe_iff_next rfl rfl hcheck]
    cases hl : lastRejected p with
    | true =>
      have hlast : flashEraseLoop (.checkLast p) d = (.enableIrq19, d) := by
        simp only [flashEraseLoop, hl, if_true]
      rw [EraseLine.safe_iff_next rfl rfl hlast]
      exact iff_of_true (EraseLine.safe_settled d) fun h => absurd h Bool.false_ne_true
    | false =>
      have hlast : flashEraseLoop (.checkLast p) d = (.pageTest p p.address, d) := by
        simp only [flashEraseLoop, hl, Bool.false_eq_true, if_false]
      rw [EraseLine.safe_iff_next rfl rfl hlast]
      exact ⟨fun h _ => h, fun h => h rfl⟩

theorem safe_entries (ps : List FlashEraseParams) (d : Device)
    (hps : d.mon.gEraseParams.toList = ps) : EraseLine.pull.Safe d ↔ InsideFlash ps d.mem := by
  induction ps generalizing d with
  | nil =>
    refine iff_of_true ?_ fun before p behind heq => ?_
    · rw [EraseLine.safe_iff_next rfl rfl (flashEraseLoop_pull_nil hps)]
      exact EraseLine.safe_settled d
    · exact absurd heq.symm (List.append_ne_nil_of_right_ne_nil before (List.cons_ne_nil p behind))
  | cons p ps ih =>
    obtain ⟨q, hq, hpull⟩ := flashEraseLoop_pull_cons hps
    set d₁ : Device := { d with
      mon := { d.mon with gEraseParams := q }
      flashLog := d.flashLog ++ [.erasePulled p] } with hd₁
    rw [EraseLine.safe_iff_next rfl rfl hpull, safe_checks]
    by_cases hp : p.accepted = true
    · obtain ⟨hlo, -, hlast⟩ := (accepted_iff p).mp hp
      rw [forall_prop_of_true hp, insideFlash_cons ps d.mem hp]
      by_cases hsome : p.address < p.lastAddress
      · obtain ⟨d₂, hsafe, hmem, hmon, hblank⟩ := safe_windows p d₁ hsome rfl hlo hlast
        have hkept : ¬ p.StepsIntoTop → ∀ x, 0x0801FC00 ≤ x → d₂.mem x = d.mem x := by
          intro htop x hx
          have hbelow : p.lastWindow < 0x0801FC00 := not_le.mp fun h => htop ⟨hsome, h⟩
          rw [hmem]
          refine eraseWindows_below d.mem (fun k hk => lt_of_le_of_lt ?_ hbelow) hx
          unfold FlashEraseParams.lastWindow
          omega
        rw [hsafe, forall_prop_of_true hsome]
        refine and_congr_right fun hwindow => ?_
        rw [ih d₂ (by rw [hmon]; exact hq)]
        exact insideFlash_behind ps (fun htop => hblank hwindow htop.2) hkept
      · have htest : flashEraseLoop (.pageTest p p.address) d₁ = (.pull, d₁) := by
          simp only [flashEraseLoop, hsome, if_false]
        rw [EraseLine.safe_iff_next rfl rfl htest, ih d₁ hq,
          and_iff_right fun h => absurd h hsome]
        exact insideFlash_behind ps (fun htop => absurd htop.1 hsome) fun _ _ _ => rfl
    · refine iff_of_true (fun h => absurd h hp) (insideFlash_refused ps d.mem ?_)
      rw [carriedOut_cons, if_neg hp]

/-- From its start, whatever it reads for the blank check and each page that it erases is in user
flash. -/
def Device.ErasesInFlash (d : Device) : Prop :=
  ∀ l d', LoopRun .disableIrq19 d l d' → ∀ x ∈ l.addresses d', isFlashRegion x = true

/-- The loop stays in user flash exactly for entries that end there. -/
theorem erasesInFlash_iff (d : Device) :
    d.ErasesInFlash ↔ InsideFlash d.mon.gEraseParams.toList d.mem := by
  have hstart : d.ErasesInFlash ↔ EraseLine.disableIrq19.Safe d := Iff.rfl
  rw [hstart, EraseLine.safe_iff_next rfl rfl rfl, EraseLine.safe_iff_next rfl rfl rfl]
  exact safe_entries _ _ rfl

/-- A device that is to erase the page behind user flash. -/
def Device.toEraseBehind : Device :=
  let d := Device.initial blankMemory bootSymbols
  { d with mon := { d.mon with gEraseParams := (d.mon.gEraseParams.put ⟨0x08020000, 0x400⟩).2 } }

/-- The blank check reads behind user flash. -/
theorem not_erasesInFlash : ¬ Device.toEraseBehind.ErasesInFlash := by
  intro h
  have hsafe : EraseLine.disableIrq19.Safe Device.toEraseBehind := h
  rw [EraseLine.safe_iff_next rfl rfl rfl, EraseLine.safe_iff_next rfl rfl rfl] at hsafe
  have hinside := (safe_entries [⟨0x08020000, 0x400⟩] _ rfl).mp hsafe
  obtain ⟨hwindow, -⟩ := hinside [] ⟨0x08020000, 0x400⟩ [] rfl (by decide)
  have hlast : FlashEraseParams.lastWindow ⟨0x08020000, 0x400⟩ = 0x08020000 := rfl
  rw [hlast] at hwindow
  rcases hwindow with hend | ⟨i, -, hend, -⟩ <;> omega

end BluePill
