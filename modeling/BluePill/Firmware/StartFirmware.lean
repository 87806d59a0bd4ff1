import BluePill.Firmware.LoLevelDebug
import BluePill.Firmware.MonitorRules
import BluePill.Firmware.RegisterPackets

/-! What `StartFirmware` makes of the saved context, for every content of user flash: the vectors
it takes over, and the exception frame that is then written below the new stack pointer. -/
namespace BluePill
open Lib

/-- The case label is left: the handler returns or goes back to the test of its command loop. -/
def Line.endsCase : Line → Bool
  | .leave | .loopTest => true
  | _ => false

/-- At most `n` statements, up to the end of the case. -/
def runCase : ℕ → Line → Device → Line × Device
  | 0, l, d => (l, d)
  | n + 1, l, d =>
    if l.endsCase then (l, d) else runCase n (debugHandler l d).1 (debugHandler l d).2

theorem runCase_step {n : ℕ} {l l' : Line} {d d' : Device} (hl : l.endsCase = false)
    (h : debugHandler l d = (l', d')) : runCase (n + 1) l d = runCase n l' d' := by
  rw [runCase, hl, h]
  rfl

theorem runCase_end (n : ℕ) {l : Line} (d : Device) (hl : l.endsCase = true) :
    runCase n l d = (l, d) := by
  cases n with
  | zero => rfl
  | succ n => rw [runCase, if_pos hl]

/-- `case DebugHandlerCommand::StartFirmware`. -/
def Device.startFirmwareCase (d : Device) : Line × Device := runCase 14 (.testContext .firmware) d

/-- The little-endian word at `a`. -/
def wordAt (mem : ℕ → UInt8) (a : ℕ) : ℕ := ofLE (readRange mem a 4)

theorem wordAt_lt (mem : ℕ → UInt8) (a : ℕ) : wordAt mem a < 4294967296 := by
  have h := ofLE_lt (readRange mem a 4)
  rwa [readRange_length] at h

/-- The initial stack pointer and the reset vector of the firmware. -/
def initialSp (mem : ℕ → UInt8) : ℕ := wordAt mem userCodeVectorTable

def resetVector (mem : ℕ → UInt8) : ℕ := wordAt mem (userCodeVectorTable + 4)

/-- The tests that the firmware has to pass. -/
def FirmwareStarts (mem : ℕ → UInt8) : Prop :=
  (resetVector mem > userCodeVectorTable ∧ resetVector mem < lastFirmwareAddress) ∧
    wordAt mem (resetVector mem) ≠ 0xFFFFFFFF

instance (mem : ℕ → UInt8) : Decidable (FirmwareStarts mem) := by
  unfold FirmwareStarts
  infer_instance

/-- From the first store to the context on, the case takes over the two words it has read. -/
theorem runCase_setPc (d : Device) : (runCase 7 (.setPc .firmware) d).1.endsCase = true ∧
    savedReg (runCase 7 (.setPc .firmware) d).2.context 15 = UInt32.ofNat d.mon.resetAddress ∧
    savedReg (runCase 7 (.setPc .firmware) d).2.context 13 = UInt32.ofNat d.mon.stackPointer := by
  set d₁ := (debugHandler (.setPc .firmware) d).2 with hd₁
  set d₂ := (debugHandler (.setLr .firmware) d₁).2 with hd₂
  set d₃ := (debugHandler (.setSp .firmware) d₂).2 with hd₃
  set d₄ := (debugHandler (.setXpsr .firmware) d₃).2 with hd₄
  set d₅ := (debugHandler (.startSetMonStep .firmware) d₄).2 with hd₅
  set d₆ := (debugHandler (.startClearPend .firmware) d₅).2 with hd₆
  set d₇ := (debugHandler .allowTransfer d₆).2 with hd₇
  have h₁ : debugHandler (.setPc .firmware) d = (.setLr .firmware, d₁) := rfl
  have h₂ : debugHandler (.setLr .firmware) d₁ = (.setSp .firmware, d₂) := rfl
  have h₃ : debugHandler (.setSp .firmware) d₂ = (.setXpsr .firmware, d₃) := rfl
  have h₄ : debugHandler (.setXpsr .firmware) d₃ = (.startSetMonStep .firmware, d₄) := rfl
  have h₅ : debugHandler (.startSetMonStep .firmware) d₄ = (.startClearPend .firmware, d₅) := rfl
  have h₆ : debugHandler (.startClearPend .firmware) d₅ = (.allowTransfer, d₆) := rfl
  have h₇ : debugHandler .allowTransfer d₆ = (.leave, d₇) := rfl
  have hrun : runCase 7 (.setPc .firmware) d = (.leave, d₇) := by
    rw [runCase_step rfl h₁, runCase_step rfl h₂, runCase_step rfl h₃, runCase_step rfl h₄,
      runCase_step rfl h₅, runCase_step rfl h₆, runCase_step rfl h₇, runCase_end _ _ rfl]
  rw [hrun]
  refine ⟨rfl, ?_, ?_⟩
  · have hpc : savedReg d₁.context 15 = UInt32.ofNat d.mon.resetAddress :=
      savedReg_set_self d.context _ (by decide)
    have hlr : savedReg d₂.context 15 = savedReg d₁.context 15 :=
      savedReg_set_ne d₁.context _ (by decide) (by decide)
    have hsp : savedReg d₃.context 15 = savedReg d₂.context 15 :=
      savedReg_set_ne d₂.context _ (by decide) (by decide)
    have hxpsr : savedReg d₄.context 15 = savedReg d₃.context 15 :=
      savedReg_set_ne d₃.context _ (by decide) (by decide)
    exact hxpsr.trans (hsp.trans (hlr.trans hpc))
  · have hsp : savedReg d₃.context 13 = UInt32.ofNat d.mon.stackPointer :=
      savedReg_set_self d₂.context _ (by decide)
    have hxpsr : savedReg d₄.context 13 = savedReg d₃.context 13 :=
      savedReg_set_ne d₃.context _ (by decide) (by decide)
    exact hxpsr.trans hsp

/-- The case ends. Firmware that passes the tests gives pc and sp; else the context is kept. -/
theorem startFirmwareCase_context (d : Device) (hthread : d.mon.interruptActive = false) :
    d.startFirmwareCase.1.endsCase = true ∧
      if FirmwareStarts d.mem then
        savedReg d.startFirmwareCase.2.context 15 = UInt32.ofNat (resetVector d.mem) ∧
          savedReg d.startFirmwareCase.2.context 13 = UInt32.ofNat (initialSp d.mem)
      else d.startFirmwareCase.2.context = d.context := by
  set d₁ : Device := { d with mon := d.mon.pullCmd .startFirmware } with hd₁
  set d₂ : Device := { d₁ with mon := { d₁.mon with stackPointer := initialSp d.mem } } with hd₂
  set d₃ : Device := { d₂ with mon := { d₂.mon with resetAddress := resetVector d.mem } } with hd₃
  have h₁ : debugHandler (.testContext .firmware) d = (.pull .startFirmware, d) := by
    simp only [debugHandler, hthread, Bool.false_eq_true, if_false]
    rfl
  have h₂ : debugHandler (.pull .startFirmware) d = (.disableUserInterrupts .firmware, d₁) := rfl
  have h₃ : debugHandler (.disableUserInterrupts .firmware) d₁ = (.readStackPointer, d₁) := rfl
  have h₄ : debugHandler .readStackPointer d₁ = (.readResetAddress, d₂) := rfl
  have h₅ : debugHandler .readResetAddress d₂ = (.testResetAddress, d₃) := rfl
  have hread : d.startFirmwareCase = runCase 9 .testResetAddress d₃ := by
    rw [Device.startFirmwareCase, runCase_step rfl h₁, runCase_step rfl h₂, runCase_step rfl h₃,
      runCase_step rfl h₄, runCase_step rfl h₅]
  rw [hread]
  by_cases haddress : resetVector d.mem > userCodeVectorTable ∧
      resetVector d.mem < lastFirmwareAddress
  · have h₆ : debugHandler .testResetAddress d₃ = (.testResetCmd, d₃) := by
      have hreset : d₃.mon.resetAddress > userCodeVectorTable ∧
          d₃.mon.resetAddress < lastFirmwareAddress := haddress
      simp only [debugHandler, hreset, and_self, if_true]
    rw [runCase_step rfl h₆]
    by_cases hcmd : wordAt d.mem (resetVector d.mem) = 0xFFFFFFFF
    · have h₇ : debugHandler .testResetCmd d₃ = (.loopTest, d₃) := by
        have hword : d₃.word d₃.mon.resetAddress = 0xFFFFFFFF := hcmd
        simp only [debugHandler, hword, ne_eq, not_true_eq_false, if_false]
      have hno : ¬ FirmwareStarts d.mem := fun h => h.2 hcmd
      rw [runCase_step rfl h₇, runCase_end _ _ rfl, if_neg hno]
      exact ⟨rfl, rfl⟩
    · have h₇ : debugHandler .testResetCmd d₃ = (.setPc .firmware, d₃) := by
        have hword : d₃.word d₃.mon.resetAddress ≠ 0xFFFFFFFF := hcmd
        simp only [debugHandler, hword, ne_eq, not_false_eq_true, if_true]
      have hstarts : FirmwareStarts d.mem := ⟨haddress, hcmd⟩
      rw [runCase_step rfl h₇, if_pos hstarts]
      exact runCase_setPc d₃
  · have h₆ : debugHandler .testResetAddress d₃ = (.loopTest, d₃) := by
      have hreset : ¬ (d₃.mon.resetAddress > userCodeVectorTable ∧
          d₃.mon.resetAddress < lastFirmwareAddress) := haddress
      simp only [debugHandler, hreset, if_false]
    have hno : ¬ FirmwareStarts d.mem := fun h => haddress h.1
    rw [runCase_step rfl h₆, runCase_end _ _ rfl, if_neg hno]
    exact ⟨rfl, rfl⟩

/-- The 32 bytes below `sp`. -/
def FrameInUserRam (sp : UInt32) : Prop := ∀ i < 32, InUserRam (sp - 0x20 + UInt32.ofNat i).toNat

theorem frameInUserRam_iff (sp : UInt32) :
    FrameInUserRam sp ↔ 0x20001020 ≤ sp.toNat ∧ sp.toNat ≤ 0x20005000 := by
  have hlt := sp.toNat_lt
  have hbyte : ∀ i < 32, (sp - 0x20 + UInt32.ofNat i).toNat =
      (sp.toNat + 4294967264 + i) % 4294967296 := by
    intro i hi
    simp only [UInt32.toNat_add, UInt32.toNat_sub, UInt32.toNat_ofNat', UInt32.reduceToNat]
    omega
  constructor
  · intro h
    have hfirst := h 0 (by decide)
    have hlast := h 31 (by decide)
    rw [InUserRam, hbyte 0 (by decide)] at hfirst
    rw [InUserRam, hbyte 31 (by decide)] at hlast
    omega
  · intro h i hi
    rw [InUserRam, hbyte i hi]
    omega

/-- The frame that `DebugMon_Handler` writes is all that it changes of memory. -/
theorem restoreContext_inUserRam {ctx : UInt32} (hctx : ctx % 4 = 0) {s : Cpu} {excReturn : UInt32}
    {c : CoreRegs} (htop : s.mem (s.stack .main).word = excReturn)
    (hwords : readWords s.mem ctx 17 = c.words) (hsp : c.sp % 4 = 0)
    (happart : Apart (c.sp - 32) 8 ctx 17) (hframe : FrameInUserRam c.sp) :
    ∃ s', s.run (restoreContext ctx) = .ok s' ∧
      ∀ x, s'.mem x ≠ s.mem x → InUserRam x.toNat ∧ InUserRam (x + 3).toNat := by
  obtain ⟨s', hrun, -, -, hmem⟩ := restoreContext_run hctx htop hwords hsp happart
  refine ⟨s', hrun, fun x hne => ?_⟩
  have hblock : ∀ o n, o + 4 * n ≤ 32 → InBlock (c.sp - 32 + UInt32.ofNat o) n x →
      InUserRam x.toNat ∧ InUserRam (x + 3).toNat := by
    rintro o n hfits ⟨i, hi, rfl⟩
    have hword : c.sp - 32 + UInt32.ofNat o + 4 * UInt32.ofNat i =
        c.sp - 0x20 + UInt32.ofNat (o + 4 * i) := by
      rw [UInt32.ofNat_add, UInt32.ofNat_mul, UInt32.add_assoc]
      rfl
    have hlast : c.sp - 0x20 + UInt32.ofNat (o + 4 * i) + 3 =
        c.sp - 0x20 + UInt32.ofNat (o + 4 * i + 3) := by
      rw [UInt32.ofNat_add (o + 4 * i) 3, UInt32.add_assoc]
      rfl
    rw [hword, hlast]
    exact ⟨hframe _ (by omega), hframe _ (by omega)⟩
  by_contra hout
  apply hne
  have hfirst : ¬ InBlock (c.sp - 32) 4 x := fun h => hout (hblock 0 4 (by decide) (by
    rwa [show c.sp - 32 + UInt32.ofNat 0 = c.sp - 32 from UInt32.add_zero _]))
  rw [hmem, writeWords_outside _ _ fun h => hout (hblock 28 1 (by decide) h),
    writeWords_outside _ _ fun h => hout (hblock 16 3 (by decide) h),
    writeWords_outside _ _ hfirst]

/-- A context that firmware can start with: pc is the address of an instruction in user flash with
the thumb bit set, and the frame below sp lies in user RAM. -/
def UsableContext (context : ContextData) : Prop :=
  savedReg context 15 % 2 = 1 ∧
    (0x08004000 ≤ (savedReg context 15).toNat ∧ (savedReg context 15).toNat < 0x08020000) ∧
    FrameInUserRam (savedReg context 13)

/-- With this content of flash, starting firmware in thread mode keeps the saved registers or
leaves a usable context, whatever the rest of the state is. -/
def StartsSafely (mem : ℕ → UInt8) : Prop :=
  ∀ d : Device, d.mem = mem → d.mon.interruptActive = false →
    d.startFirmwareCase.1.endsCase = true ∧
      (d.startFirmwareCase.2.context = d.context ∨ UsableContext d.startFirmwareCase.2.context)

/-- What the tests leave out: the thumb bit of the reset vector and the range of the initial sp. -/
def VectorsUsable (mem : ℕ → UInt8) : Prop :=
  resetVector mem % 2 = 1 ∧ 0x20001020 ≤ initialSp mem ∧ initialSp mem ≤ 0x20005000

instance (mem : ℕ → UInt8) : Decidable (VectorsUsable mem) := by
  unfold VectorsUsable
  infer_instance

theorem usableContext_iff {context : ContextData} {mem : ℕ → UInt8} (hstarts : FirmwareStarts mem)
    (hpc : savedReg context 15 = UInt32.ofNat (resetVector mem))
    (hsp : savedReg context 13 = UInt32.ofNat (initialSp mem)) :
    UsableContext context ↔ VectorsUsable mem := by
  have hreset : (UInt32.ofNat (resetVector mem)).toNat = resetVector mem :=
    UInt32.toNat_ofNat_of_lt' (wordAt_lt mem _)
  have hinitial : (UInt32.ofNat (initialSp mem)).toNat = initialSp mem :=
    UInt32.toNat_ofNat_of_lt' (wordAt_lt mem _)
  have hodd : UInt32.ofNat (resetVector mem) % 2 = 1 ↔ resetVector mem % 2 = 1 := by
    rw [← UInt32.toNat_inj, UInt32.toNat_mod, hreset]
    rfl
  have hlow : 0x8004000 < resetVector mem := hstarts.1.1
  have hhigh : resetVector mem < 0x8020000 := hstarts.1.2
  rw [UsableContext, hpc, hsp, frameInUserRam_iff, hodd, hreset, hinitial, VectorsUsable]
  omega

/-- After reset the saved registers are zero, so a new pc is not what they held. -/
theorem vectorsUsable_of_startsSafely {mem : ℕ → UInt8} (h : StartsSafely mem)
    (hstarts : FirmwareStarts mem) : VectorsUsable mem := by
  obtain ⟨-, hcase⟩ := startFirmwareCase_context (Device.initial mem bootSymbols) rfl
  obtain ⟨-, hkept | husable⟩ := h (Device.initial mem bootSymbols) rfl rfl
  · rw [if_pos (show FirmwareStarts (Device.initial mem bootSymbols).mem from hstarts),
      hkept] at hcase
    have hreset : (UInt32.ofNat (resetVector mem)).toNat = resetVector mem :=
      UInt32.toNat_ofNat_of_lt' (wordAt_lt mem _)
    have hzero : UInt32.ofNat (resetVector mem) = 0 := hcase.1.symm
    have hlow : 0x8004000 < resetVector mem := hstarts.1.1
    rw [hzero] at hreset
    have hnil : (0 : UInt32).toNat = 0 := rfl
    omega
  · rw [if_pos (show FirmwareStarts (Device.initial mem bootSymbols).mem from hstarts)] at hcase
    exact (usableContext_iff hstarts hcase.1 hcase.2).mp husable

/-- Starting firmware is safe exactly for flash whose vectors are usable or do not pass the
tests. -/
theorem startsSafely_iff (mem : ℕ → UInt8) :
    StartsSafely mem ↔ (FirmwareStarts mem → VectorsUsable mem) := by
  constructor
  · exact vectorsUsable_of_startsSafely
  · rintro h d rfl hthread
    obtain ⟨hends, hcase⟩ := startFirmwareCase_context d hthread
    refine ⟨hends, ?_⟩
    split_ifs at hcase with hstarts
    · exact .inr ((usableContext_iff hstarts hcase.1 hcase.2).mpr (h hstarts))
    · exact .inl hcase

/-- Flash with the given vectors, one instruction at `0x08004100`, and nothing else. -/
def vectorsFlash (sp reset : ℕ) : ℕ → UInt8 :=
  overlay (overlay blankMemory 0x08004000 (toLE 4 sp ++ toLE 4 reset)) 0x08004100 [0x00, 0xBE]

/-- The initial sp is the start of user RAM: the frame lies in the bootloader's own. -/
theorem not_startsSafely : ¬ StartsSafely (vectorsFlash 0x20001000 0x08004101) := by
  intro h
  have husable := vectorsUsable_of_startsSafely h (by decide +kernel)
  have hunusable : ¬ VectorsUsable (vectorsFlash 0x20001000 0x08004101) := by decide +kernel
  exact hunusable husable

end BluePill
