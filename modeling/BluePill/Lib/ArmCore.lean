import BluePill.Lib.WordMemory

/-! A piece of an ARMv7-M core: the instructions of exception handlers that save and load
registers in blocks, the frame that exception entry leaves on the interrupted stack, and the
return that takes it off. Registers and addresses are 32-bit words, memory is read and written
in aligned words. -/
namespace BluePill.Lib

/-- The registers that the instructions name; the stack pointer has its own instructions. -/
inductive Reg
  | r0 | r1 | r2 | r3 | r4 | r5 | r6 | r7 | r8 | r9 | r10 | r11 | r12 | lr
  deriving DecidableEq, Repr

/-- A stack pointer register: its two low bits are always zero. -/
structure StackPointer where
  word : UInt32
  aligned : word % 4 = 0

theorem aligned_round (v : UInt32) : (v - v % 4) % 4 = 0 := by
  rw [← UInt32.toNat_inj, UInt32.toNat_mod]
  have hv := v.toNat_lt
  simp only [UInt32.toNat_sub, UInt32.toNat_mod, UInt32.reduceToNat]
  omega

/-- What a stack pointer register keeps of a word. -/
def StackPointer.ofWord (v : UInt32) : StackPointer := ⟨v - v % 4, aligned_round v⟩

theorem StackPointer.ofWord_word {v : UInt32} (h : v % 4 = 0) : (ofWord v).word = v := by
  show v - v % 4 = v
  rw [h, UInt32.sub_zero]

/-- The two banked stack pointers. -/
inductive Stack
  | main
  | process
  deriving DecidableEq, Repr

/-- The core in handler mode: its stack is the main stack. -/
structure Cpu where
  reg : Reg → UInt32
  stack : Stack → StackPointer
  /-- The zero flag. -/
  zero : Bool
  mem : UInt32 → UInt32

inductive CoreFault
  | unaligned
  | invalidReturn
  | unpredictable
  deriving DecidableEq, Repr

namespace Cpu

def setReg (s : Cpu) (r : Reg) (v : UInt32) : Cpu := { s with reg := Function.update s.reg r v }

/-- The registers `rs` set to the words `vs`, one by one. -/
def setRegs (s : Cpu) : List Reg → List UInt32 → Cpu
  | r :: rs, v :: vs => (s.setReg r v).setRegs rs vs
  | _, _ => s

def setStack (s : Cpu) (k : Stack) (v : UInt32) : Cpu :=
  { s with stack := Function.update s.stack k (.ofWord v) }

def setZero (s : Cpu) (z : Bool) : Cpu := { s with zero := z }

def storeWords (s : Cpu) (a : UInt32) (ws : List UInt32) : Cpu :=
  { s with mem := writeWords s.mem a ws }

/-- Load multiple: the registers, from the lowest one on, from the words at `a`. -/
def load (s : Cpu) (a : UInt32) (rs : List Reg) : Except CoreFault Cpu :=
  if a % 4 = 0 then .ok (s.setRegs rs (readWords s.mem a rs.length)) else .error .unaligned

/-- Store multiple: the registers, from the lowest one on, to the words at `a`. -/
def store (s : Cpu) (a : UInt32) (rs : List Reg) : Except CoreFault Cpu :=
  if a % 4 = 0 then .ok (s.storeWords a (rs.map s.reg)) else .error .unaligned

end Cpu

/-- The instructions; a register list is in ascending order, as its encoding holds it. -/
inductive Op
  /-- `ldr rd, =v`. -/
  | ldrLit (rd : Reg) (v : UInt32)
  /-- `ldr rd, [rn, #offset]`, for aligned addresses. -/
  | ldr (rd rn : Reg) (offset : UInt32)
  /-- `ldmia rn, {rs}`, with `rn!` for `writeBack`. -/
  | ldmia (rn : Reg) (writeBack : Bool) (rs : List Reg)
  /-- `stmia rn, {rs}`, with `rn!` for `writeBack`. -/
  | stmia (rn : Reg) (writeBack : Bool) (rs : List Reg)
  | push (rs : List Reg)
  | pop (rs : List Reg)
  | mov (rd rm : Reg)
  | add (rd rn : Reg) (imm : UInt32)
  | sub (rd rn : Reg) (imm : UInt32)
  | tst (rn : Reg) (imm : UInt32)
  | mrs (rd : Reg) (k : Stack)
  | msr (k : Stack) (rn : Reg)
  | isb
  /-- `bl` to a routine that returns behind the call. -/
  | bl (link : UInt32) (routine : Cpu → Cpu)

/-- The conditions that an `it` block puts on its instructions. -/
inductive Cond
  | al
  | eq
  | ne
  deriving DecidableEq, Repr

structure Instr where
  cond : Cond
  op : Op

instance : Coe Op Instr := ⟨fun op => ⟨.al, op⟩⟩

def Cond.holds (s : Cpu) : Cond → Bool
  | .al => true
  | .eq => s.zero
  | .ne => !s.zero

def Op.exec (s : Cpu) : Op → Except CoreFault Cpu
  | .ldrLit rd v => .ok (s.setReg rd v)
  | .ldr rd rn offset => s.load (s.reg rn + offset) [rd]
  | .ldmia rn writeBack rs => do
      let s' ← s.load (s.reg rn) rs
      .ok (if writeBack ∧ rn ∉ rs then s'.setReg rn (s.reg rn + 4 * UInt32.ofNat rs.length) else s')
  | .stmia rn writeBack rs => do
      let s' ← s.store (s.reg rn) rs
      .ok (if writeBack then s'.setReg rn (s.reg rn + 4 * UInt32.ofNat rs.length) else s')
  | .push rs => do
      let sp := (s.stack .main).word - 4 * UInt32.ofNat rs.length
      let s' ← s.store sp rs
      .ok (s'.setStack .main sp)
  | .pop rs => do
      let sp := (s.stack .main).word
      let s' ← s.load sp rs
      .ok (s'.setStack .main (sp + 4 * UInt32.ofNat rs.length))
  | .mov rd rm => .ok (s.setReg rd (s.reg rm))
  | .add rd rn imm => .ok (s.setReg rd (s.reg rn + imm))
  | .sub rd rn imm => .ok (s.setReg rd (s.reg rn - imm))
  | .tst rn imm => .ok (s.setZero (s.reg rn &&& imm == 0))
  | .mrs rd k => .ok (s.setReg rd (s.stack k).word)
  | .msr k rn => .ok (s.setStack k (s.reg rn))
  | .isb => .ok s
  | .bl link routine => .ok (routine (s.setReg .lr link))

def Instr.exec (s : Cpu) (i : Instr) : Except CoreFault Cpu :=
  if i.cond.holds s then i.op.exec s else .ok s

/-- Straight-line code. -/
def Cpu.run (s : Cpu) : List Instr → Except CoreFault Cpu
  | [] => .ok s
  | i :: is => i.exec s >>= fun s' => s'.run is

/-- The registers of interrupted code. -/
structure CoreRegs where
  r0 : UInt32
  r1 : UInt32
  r2 : UInt32
  r3 : UInt32
  r4 : UInt32
  r5 : UInt32
  r6 : UInt32
  r7 : UInt32
  r8 : UInt32
  r9 : UInt32
  r10 : UInt32
  r11 : UInt32
  r12 : UInt32
  sp : UInt32
  lr : UInt32
  pc : UInt32
  xpsr : UInt32
  deriving DecidableEq, Repr

/-- The registers as a block of words, in the order of their numbers. -/
def CoreRegs.words (c : CoreRegs) : List UInt32 :=
  [c.r0, c.r1, c.r2, c.r3, c.r4, c.r5, c.r6, c.r7, c.r8, c.r9, c.r10, c.r11, c.r12, c.sp, c.lr,
    c.pc, c.xpsr]

/-- The words of the frame that exception entry pushes. -/
def CoreRegs.frame (c : CoreRegs) : List UInt32 :=
  [c.r0, c.r1, c.r2, c.r3, c.r12, c.lr, c.pc, c.xpsr]

/-- Bit 2 of the exception return value selects the stack that holds the frame. -/
def returnStack (excReturn : UInt32) : Stack :=
  if excReturn &&& 4 == 0 then .main else .process

/-- The return values that a core without floating point knows. -/
def returnValues : List UInt32 := [0xFFFFFFF1, 0xFFFFFFF9, 0xFFFFFFFD]

namespace Cpu

/-- The frame of the interrupted code. -/
def framePointer (s : Cpu) : UInt32 := (s.stack (returnStack (s.reg .lr))).word

/-- The registers of the interrupted code, when its frame is not padded: eight of them are in
the frame, eight are live, and the stack pointer is behind the frame. -/
def interrupted (s : Cpu) : CoreRegs where
  r0 := s.mem s.framePointer
  r1 := s.mem (s.framePointer + 4)
  r2 := s.mem (s.framePointer + 8)
  r3 := s.mem (s.framePointer + 12)
  r4 := s.reg .r4
  r5 := s.reg .r5
  r6 := s.reg .r6
  r7 := s.reg .r7
  r8 := s.reg .r8
  r9 := s.reg .r9
  r10 := s.reg .r10
  r11 := s.reg .r11
  r12 := s.mem (s.framePointer + 16)
  sp := s.framePointer + 0x20
  lr := s.mem (s.framePointer + 20)
  pc := s.mem (s.framePointer + 24)
  xpsr := s.mem (s.framePointer + 28)

end Cpu

/-- The bits of `xPSR` that a return restores: flags, `IT`/`ICI`, `T` and the exception number.
Bit 9 of the word in the frame says that the frame was padded. -/
def psrMask : UInt32 := 0xFF00FDFF

def exceptionNumber (xpsr : UInt32) : UInt32 := xpsr &&& 0x1FF

/-- The exception number belongs to the mode that is returned to. -/
def ModeFits (excReturn xpsr : UInt32) : Prop :=
  exceptionNumber xpsr = 0 ↔ excReturn ≠ 0xFFFFFFF1

instance (excReturn xpsr : UInt32) : Decidable (ModeFits excReturn xpsr) :=
  inferInstanceAs (Decidable (_ ↔ _))

/-- `bx lr` with an exception return value: the registers that the interrupted code goes on with.
`stkAlign` is the bit of `CCR` that lets entry pad frames to eight bytes. -/
def exceptionReturn (stkAlign : Bool) (s : Cpu) : Except CoreFault CoreRegs :=
  let c := s.interrupted
  if s.reg .lr ∉ returnValues then .error .invalidReturn
  else if c.pc % 2 ≠ 0 then .error .unpredictable
  else if ¬ ModeFits (s.reg .lr) c.xpsr then .error .invalidReturn
  else .ok { c with
    sp := if stkAlign ∧ c.xpsr &&& 0x200 ≠ 0 then c.sp ||| 4 else c.sp
    xpsr := c.xpsr &&& psrMask }

/-- The registers that code can be resumed with: they are what the core can hold. -/
def Resumable (excReturn : UInt32) (c : CoreRegs) : Prop :=
  c.sp % 4 = 0 ∧ c.pc % 2 = 0 ∧ c.xpsr &&& psrMask = c.xpsr ∧ ModeFits excReturn c.xpsr

instance (excReturn : UInt32) (c : CoreRegs) : Decidable (Resumable excReturn c) := by
  unfold Resumable
  infer_instance

namespace Cpu

section
variable (s : Cpu) (r : Reg) (v : UInt32) (k : Stack)

@[simp] theorem setReg_self : (s.setReg r v).reg r = v := by
  simp [setReg]

@[simp] theorem setReg_ne {r r' : Reg} (h : r' ≠ r) : (s.setReg r v).reg r' = s.reg r' := by
  simp [setReg, h]

@[simp] theorem setReg_mem : (s.setReg r v).mem = s.mem := rfl

@[simp] theorem setReg_stack : (s.setReg r v).stack = s.stack := rfl

@[simp] theorem setReg_zero : (s.setReg r v).zero = s.zero := rfl

@[simp] theorem setStack_reg : (s.setStack k v).reg = s.reg := rfl

@[simp] theorem setStack_mem : (s.setStack k v).mem = s.mem := rfl

@[simp] theorem setStack_zero : (s.setStack k v).zero = s.zero := rfl

@[simp] theorem setStack_self : (s.setStack k v).stack k = .ofWord v := by
  simp [setStack]

@[simp] theorem setStack_ne {k k' : Stack} (h : k' ≠ k) : (s.setStack k v).stack k' = s.stack k' := by
  simp [setStack, h]

end

@[simp] theorem setZero_reg (s : Cpu) (z : Bool) : (s.setZero z).reg = s.reg := rfl

@[simp] theorem setZero_stack (s : Cpu) (z : Bool) : (s.setZero z).stack = s.stack := rfl

@[simp] theorem setZero_mem (s : Cpu) (z : Bool) : (s.setZero z).mem = s.mem := rfl

@[simp] theorem setZero_zero (s : Cpu) (z : Bool) : (s.setZero z).zero = z := rfl

@[simp] theorem storeWords_reg (s : Cpu) (a : UInt32) (ws : List UInt32) :
    (s.storeWords a ws).reg = s.reg := rfl

@[simp] theorem storeWords_stack (s : Cpu) (a : UInt32) (ws : List UInt32) :
    (s.storeWords a ws).stack = s.stack := rfl

@[simp] theorem storeWords_zero (s : Cpu) (a : UInt32) (ws : List UInt32) :
    (s.storeWords a ws).zero = s.zero := rfl

@[simp] theorem storeWords_mem (s : Cpu) (a : UInt32) (ws : List UInt32) :
    (s.storeWords a ws).mem = writeWords s.mem a ws := rfl

@[simp] theorem setRegs_mem (s : Cpu) (rs : List Reg) (vs : List UInt32) :
    (s.setRegs rs vs).mem = s.mem := by
  induction rs generalizing s vs with
  | nil => rfl
  | cons r rs ih => cases vs with
    | nil => rfl
    | cons v vs => exact ih (s.setReg r v) vs

@[simp] theorem setRegs_stack (s : Cpu) (rs : List Reg) (vs : List UInt32) :
    (s.setRegs rs vs).stack = s.stack := by
  induction rs generalizing s vs with
  | nil => rfl
  | cons r rs ih => cases vs with
    | nil => rfl
    | cons v vs => exact ih (s.setReg r v) vs

theorem setRegs_ne (s : Cpu) {rs : List Reg} {r : Reg} (vs : List UInt32) (h : r ∉ rs) :
    (s.setRegs rs vs).reg r = s.reg r := by
  induction rs generalizing s vs with
  | nil => rfl
  | cons r' rs ih =>
    have hne : r ≠ r' := fun heq => h (heq ▸ List.mem_cons_self)
    have hrs : r ∉ rs := fun hmem => h (List.mem_cons_of_mem r' hmem)
    cases vs with
    | nil => rfl
    | cons v vs =>
      rw [setRegs, ih _ _ hrs, setReg_ne _ _ hne]

theorem run_append (s : Cpu) (is js : List Instr) :
    s.run (is ++ js) = s.run is >>= fun s' => s'.run js := by
  induction is generalizing s with
  | nil => rfl
  | cons i is ih =>
    show (i.exec s >>= fun s' => s'.run (is ++ js)) = _
    simp only [ih, run, bind_assoc]

section
variable {s : Cpu} {rd rn : Reg} {rs : List Reg} (is : List Instr)

theorem run_stmia (h : s.reg rn % 4 = 0) : s.run (Op.stmia rn false rs :: is) =
    (s.storeWords (s.reg rn) (rs.map s.reg)).run is := by
  simp only [run, Instr.exec, Cond.holds, Op.exec, store, h, if_true]
  rfl

theorem run_stmia_writeBack (h : s.reg rn % 4 = 0) : s.run (Op.stmia rn true rs :: is) =
    ((s.storeWords (s.reg rn) (rs.map s.reg)).setReg rn
      (s.reg rn + 4 * UInt32.ofNat rs.length)).run is := by
  simp only [run, Instr.exec, Cond.holds, Op.exec, store, h, if_true]
  rfl

theorem run_stmia_unaligned (writeBack : Bool) (h : s.reg rn % 4 ≠ 0) :
    s.run (Op.stmia rn writeBack rs :: is) = .error .unaligned := by
  simp only [run, Instr.exec, Cond.holds, Op.exec, store, h, if_true, if_false]
  rfl

theorem run_ldmia (h : s.reg rn % 4 = 0) : s.run (Op.ldmia rn false rs :: is) =
    (s.setRegs rs (readWords s.mem (s.reg rn) rs.length)).run is := by
  simp only [run, Instr.exec, Cond.holds, Op.exec, load, h, if_true]
  rfl

theorem run_ldmia_writeBack (h : s.reg rn % 4 = 0) (hrn : rn ∉ rs) :
    s.run (Op.ldmia rn true rs :: is) =
      ((s.setRegs rs (readWords s.mem (s.reg rn) rs.length)).setReg rn
        (s.reg rn + 4 * UInt32.ofNat rs.length)).run is := by
  simp only [run, Instr.exec, Cond.holds, Op.exec, load, h, hrn, if_true]
  rfl

theorem run_ldr (offset : UInt32) (h : (s.reg rn + offset) % 4 = 0) :
    s.run (Op.ldr rd rn offset :: is) = (s.setReg rd (s.mem (s.reg rn + offset))).run is := by
  simp only [run, Instr.exec, Cond.holds, Op.exec, load, h, if_true]
  rfl

theorem run_push : s.run (Op.push rs :: is) =
    ((s.storeWords ((s.stack .main).word - 4 * UInt32.ofNat rs.length) (rs.map s.reg)).setStack
      .main ((s.stack .main).word - 4 * UInt32.ofNat rs.length)).run is := by
  have h : ((s.stack .main).word - 4 * UInt32.ofNat rs.length) % 4 = 0 :=
    aligned_sub (s.stack .main).aligned (four_mul_aligned _)
  simp only [run, Instr.exec, Cond.holds, Op.exec, store, h, if_true]
  rfl

theorem run_pop : s.run (Op.pop rs :: is) =
    ((s.setRegs rs (readWords s.mem (s.stack .main).word rs.length)).setStack .main
      ((s.stack .main).word + 4 * UInt32.ofNat rs.length)).run is := by
  simp only [run, Instr.exec, Cond.holds, Op.exec, load, (s.stack .main).aligned, if_true]
  rfl

theorem run_isb : s.run (Op.isb :: is) = s.run is := by
  rfl

theorem run_mov (rm : Reg) : s.run (Op.mov rd rm :: is) = (s.setReg rd (s.reg rm)).run is := by
  rfl

theorem run_ldrLit (v : UInt32) : s.run (Op.ldrLit rd v :: is) = (s.setReg rd v).run is := by
  rfl

theorem run_add (imm : UInt32) :
    s.run (Op.add rd rn imm :: is) = (s.setReg rd (s.reg rn + imm)).run is := by
  rfl

theorem run_sub (imm : UInt32) :
    s.run (Op.sub rd rn imm :: is) = (s.setReg rd (s.reg rn - imm)).run is := by
  rfl

theorem run_bl (link : UInt32) (routine : Cpu → Cpu) :
    s.run (Op.bl link routine :: is) = (routine (s.setReg .lr link)).run is := by
  rfl

/-- The stack pointer that an exception return value selects, read with the two moves of an
`ite eq` block. -/
theorem run_mrs_selected :
    s.run (Op.tst rn 4 :: ⟨.eq, .mrs rd .main⟩ :: ⟨.ne, .mrs rd .process⟩ :: is) =
      ((s.setZero (s.reg rn &&& 4 == 0)).setReg rd (s.stack (returnStack (s.reg rn))).word).run
        is := by
  cases hzero : s.reg rn &&& 4 == 0 <;>
    simp [run, Instr.exec, Cond.holds, Op.exec, returnStack, hzero, bind, Except.bind]

/-- The same stack pointer, set. -/
theorem run_msr_selected (rm : Reg) :
    s.run (Op.tst rn 4 :: ⟨.eq, .msr .main rm⟩ :: ⟨.ne, .msr .process rm⟩ :: is) =
      ((s.setZero (s.reg rn &&& 4 == 0)).setStack (returnStack (s.reg rn)) (s.reg rm)).run is := by
  cases hzero : s.reg rn &&& 4 == 0 <;>
    simp [run, Instr.exec, Cond.holds, Op.exec, returnStack, hzero, bind, Except.bind]

end

theorem framePointer_aligned (s : Cpu) : s.framePointer % 4 = 0 :=
  (s.stack (returnStack (s.reg .lr))).aligned

/-- The frame holds the interrupted registers. -/
theorem frame_interrupted (s : Cpu) :
    readWords s.mem s.framePointer 8 = s.interrupted.frame := by
  simp only [readWords, CoreRegs.frame, interrupted, UInt32.add_assoc, UInt32.reduceAdd]

/-- The interrupted registers, read off a frame and the live registers. -/
theorem interrupted_eq {s : Cpu} {c : CoreRegs} (hframe : readWords s.mem s.framePointer 8 = c.frame)
    (hlive : [Reg.r4, .r5, .r6, .r7, .r8, .r9, .r10, .r11].map s.reg =
      [c.r4, c.r5, c.r6, c.r7, c.r8, c.r9, c.r10, c.r11])
    (hsp : s.framePointer + 0x20 = c.sp) : s.interrupted = c := by
  simp only [readWords, CoreRegs.frame, UInt32.add_assoc, UInt32.reduceAdd, List.cons.injEq,
    and_true] at hframe
  simp only [List.map_cons, List.map_nil, List.cons.injEq, and_true] at hlive
  obtain ⟨h0, h1, h2, h3, h12, hlr, hpc, hxpsr⟩ := hframe
  obtain ⟨h4, h5, h6, h7, h8, h9, h10, h11⟩ := hlive
  cases c
  simp_all [interrupted]

end Cpu

theorem and_psrMask_padding {x : UInt32} (h : x &&& psrMask = x) : x &&& 0x200 = 0 := by
  rw [← h, UInt32.and_assoc]
  exact UInt32.and_zero

/-- A return resumes the interrupted registers as they are exactly when the core can hold them. -/
theorem exceptionReturn_eq_interrupted (stkAlign : Bool) {s : Cpu}
    (hret : s.reg .lr ∈ returnValues) :
    exceptionReturn stkAlign s = .ok s.interrupted ↔ Resumable (s.reg .lr) s.interrupted := by
  have hsp : s.interrupted.sp % 4 = 0 := aligned_add s.framePointer_aligned rfl
  unfold exceptionReturn
  simp only [hret, not_true, if_false]
  constructor
  · intro h
    split_ifs at h with hpc hmode
    all_goals
      have hxpsr := congrArg CoreRegs.xpsr (Except.ok.inj h)
      exact ⟨hsp, not_not.mp hpc, hxpsr, hmode⟩
  · rintro ⟨-, hpc, hxpsr, hmode⟩
    have hpad := and_psrMask_padding hxpsr
    simp only [hpc, hmode, hpad, hxpsr, ne_eq, not_true, if_false, and_false]

end BluePill.Lib
