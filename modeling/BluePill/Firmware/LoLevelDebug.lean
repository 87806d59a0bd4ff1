import BluePill.Lib.ArmCore
import BluePill.Lib.Fallible

/-! `DebugMon_Handler`: the context of the interrupted code is copied from its stack and the live
registers into `context_data`, `DebugHandler` works on it there, and the code is resumed from what
`context_data` then holds. -/
namespace BluePill
open Lib

/-- `DebugMon_Handler` up to its call. -/
def saveContext (context_data : UInt32) : List Instr := [
  Op.ldrLit .r12 (context_data + 16),
  Op.stmia .r12 true [.r4, .r5, .r6, .r7, .r8, .r9, .r10, .r11],
  Op.tst .lr 4,
  ⟨.eq, .mrs .r4 .main⟩,
  ⟨.ne, .mrs .r4 .process⟩,
  Op.isb,
  Op.ldmia .r4 false [.r0, .r1, .r2, .r3, .r5, .r6, .r7, .r8],
  Op.stmia .r12 true [.r5],
  Op.add .r4 .r4 0x20,
  Op.stmia .r12 true [.r4],
  Op.stmia .r12 true [.r6, .r7, .r8],
  Op.sub .r11 .r12 68,
  Op.stmia .r11 false [.r0, .r1, .r2, .r3],
  Op.mov .r0 .r11,
  Op.push [.lr]]

/-- `DebugMon_Handler` behind its call, up to `bx lr`. -/
def restoreContext (context_data : UInt32) : List Instr := [
  Op.pop [.lr],
  Op.ldrLit .r12 context_data,
  Op.ldr .r11 .r12 52,
  Op.sub .r11 .r11 0x20,
  Op.tst .lr 4,
  ⟨.eq, .msr .main .r11⟩,
  ⟨.ne, .msr .process .r11⟩,
  Op.isb,
  Op.ldmia .r12 true [.r0, .r1, .r2, .r3],
  Op.stmia .r11 true [.r0, .r1, .r2, .r3],
  Op.mov .r0 .r11,
  Op.ldmia .r12 true [.r4, .r5, .r6, .r7, .r8, .r9, .r10, .r11],
  Op.ldmia .r12 true [.r1],
  Op.add .r12 .r12 4,
  Op.ldmia .r12 true [.r2, .r3],
  Op.stmia .r0 true [.r1, .r2, .r3],
  Op.ldmia .r12 true [.r1],
  Op.stmia .r0 true [.r1]]

/-- `DebugHandler` as the code around its call relies on it: it returns with its stack balanced
and its caller's word on it kept. The registers, and memory with `context_data` in it, are its
own to change. -/
structure StackKeeper where
  run : Cpu → Cpu
  main_eq : ∀ s, (run s).stack .main = s.stack .main
  top_eq : ∀ s, (run s).mem (s.stack .main).word = s.mem (s.stack .main).word

/-- `DebugMon_Handler`, up to `bx lr`. -/
def DebugMon_Handler (context_data link : UInt32) (DebugHandler : StackKeeper) : List Instr :=
  saveContext context_data ++ ↑(Op.bl link DebugHandler.run) :: restoreContext context_data

/-- A block that keeps away from the whole context keeps away from its words. -/
theorem apart_context {a ctx : UInt32} {n : ℕ} (h : Apart a n ctx 17) (j : ℕ) {k : ℕ}
    (hk : j + k ≤ 17) : Apart a n (ctx + 4 * UInt32.ofNat j) k := by
  have happart : Apart (a + 4 * UInt32.ofNat 0) n (ctx + 4 * UInt32.ofNat j) k :=
    h.mono 0 j (by omega) hk
  rwa [show a + 4 * UInt32.ofNat 0 = a from UInt32.add_zero a] at happart

/-- The five stores that fill the context. -/
theorem readWords_contextStores (m : UInt32 → UInt32) (ctx : UInt32) (c : CoreRegs) :
    readWords (writeWords (writeWords (writeWords (writeWords (writeWords m (ctx + 16)
      [c.r4, c.r5, c.r6, c.r7, c.r8, c.r9, c.r10, c.r11]) (ctx + 48) [c.r12]) (ctx + 52) [c.sp])
      (ctx + 56) [c.lr, c.pc, c.xpsr]) ctx [c.r0, c.r1, c.r2, c.r3]) ctx 17 = c.words := by
  have hpair := readWords_writeWords_pair m ctx [c.r0, c.r1, c.r2, c.r3]
    [c.r4, c.r5, c.r6, c.r7, c.r8, c.r9, c.r10, c.r11, c.r12, c.sp, c.lr, c.pc, c.xpsr] (by simp)
  simp only [List.length_cons, List.length_nil, Nat.reduceAdd, UInt32.reduceOfNat,
    UInt32.reduceMul] at hpair
  simp only [writeWords, UInt32.add_assoc, UInt32.reduceAdd] at hpair ⊢
  exact hpair

/-- The registers of the interrupted code are handed over in `context_data`. -/
theorem saveContext_ok {ctx : UInt32} (hctx : ctx % 4 = 0) {s : Cpu}
    (hframe : Apart s.framePointer 8 ctx 17)
    (hstack : Apart ((s.stack .main).word - 4) 1 ctx 17) :
    ∃ a, s.run (saveContext ctx) = .ok a ∧ a.reg .r0 = ctx ∧
      readWords a.mem ctx 17 = s.interrupted.words ∧
      a.stack .main = .ofWord ((s.stack .main).word - 4) ∧
      a.mem ((s.stack .main).word - 4) = s.reg .lr := by
  have hsp := s.framePointer_aligned
  have hread : readWords (writeWords s.mem (ctx + 16) [s.reg .r4, s.reg .r5, s.reg .r6, s.reg .r7,
      s.reg .r8, s.reg .r9, s.reg .r10, s.reg .r11]) s.framePointer 8 = s.interrupted.frame := by
    rw [← s.frame_interrupted]
    exact readWords_writeWords_apart _ _ (apart_context hframe 4 (k := 8) (by decide))
  rw [Cpu.framePointer] at hsp hread
  unfold saveContext
  simp (disch := simp [aligned_add, hctx, hsp]) only [Cpu.run_ldrLit, Cpu.run_mrs_selected,
    Cpu.run_isb, Cpu.run_stmia_writeBack, Cpu.run_ldmia, Cpu.run_stmia, Cpu.run_sub, Cpu.run_add,
    Cpu.run_mov, Cpu.run_push, Cpu.setReg_self, Cpu.setReg_ne, Cpu.storeWords_reg, Cpu.setZero_reg,
    List.map_cons, List.map_nil, List.length_cons, List.length_nil, Nat.reduceAdd,
    UInt32.reduceOfNat, UInt32.reduceMul, UInt32.reduceAdd, UInt32.add_assoc, Cpu.setReg_mem,
    Cpu.setReg_stack, Cpu.storeWords_mem, Cpu.storeWords_stack, Cpu.setZero_mem,
    Cpu.setZero_stack, hread, CoreRegs.frame, Cpu.setRegs, UInt32.add_sub_cancel]
  refine ⟨_, rfl, ?_, ?_, ?_, ?_⟩
  · simp
  · simp only [Cpu.setStack_mem, Cpu.storeWords_mem, Cpu.setReg_mem, Cpu.setZero_mem]
    rw [readWords_writeWords_apart _ _ hstack.symm]
    exact readWords_contextStores s.mem ctx s.interrupted
  · simp
  · simp [writeWords]

/-- The three stores that fill the frame. -/
theorem readWords_frameStores (m : UInt32 → UInt32) (f : UInt32) (c : CoreRegs) :
    readWords (writeWords (writeWords (writeWords m f [c.r0, c.r1, c.r2, c.r3]) (f + 16)
      [c.r12, c.lr, c.pc]) (f + 28) [c.xpsr]) f 8 = c.frame := by
  have hstored := readWords_writeWords m f c.frame (by simp [CoreRegs.frame])
  simp only [CoreRegs.frame, List.length_cons, List.length_nil, Nat.reduceAdd] at hstored
  simp only [writeWords, UInt32.add_assoc, UInt32.reduceAdd, CoreRegs.frame] at hstored ⊢
  exact hstored

/-- Stores to the frame leave the context as it is. -/
theorem readWords_context_frameStore (m : UInt32 → UInt32) {f ctx : UInt32}
    (hframe : Apart f 8 ctx 17) (i : ℕ) (ws : List UInt32) (hi : i + ws.length ≤ 8) (j k : ℕ)
    (hk : j + k ≤ 17) : readWords (writeWords m (f + 4 * UInt32.ofNat i) ws)
      (ctx + 4 * UInt32.ofNat j) k = readWords m (ctx + 4 * UInt32.ofNat j) k :=
  readWords_writeWords_apart m ws (hframe.mono i j hi hk).symm

section
variable {ctx : UInt32} (hctx : ctx % 4 = 0) {s : Cpu} {excReturn : UInt32} {c : CoreRegs}
  (htop : s.mem (s.stack .main).word = excReturn) (hwords : readWords s.mem ctx 17 = c.words)
include hctx htop hwords

/-- What the context holds is what the code is resumed with, from a frame below its stack
pointer. -/
theorem restoreContext_run (hsp : c.sp % 4 = 0) (hframe : Apart (c.sp - 32) 8 ctx 17) :
    ∃ s', s.run (restoreContext ctx) = .ok s' ∧ s'.reg .lr = excReturn ∧ s'.interrupted = c ∧
      s'.mem = writeWords (writeWords (writeWords s.mem (c.sp - 32) [c.r0, c.r1, c.r2, c.r3])
        (c.sp - 32 + 16) [c.r12, c.lr, c.pc]) (c.sp - 32 + 28) [c.xpsr] := by
  have hf : (c.sp - 32) % 4 = 0 := aligned_sub hsp rfl
  have hpop : readWords s.mem (s.stack .main).word 1 = [excReturn] := by
    rw [readWords, htop, readWords]
  simp only [readWords, CoreRegs.words, UInt32.add_assoc, UInt32.reduceAdd, List.cons.injEq,
    and_true] at hwords
  obtain ⟨e0, e1, e2, e3, e4, e5, e6, e7, e8, e9, e10, e11, e12, e13, e14, e15, e16⟩ := hwords
  set m₁ := writeWords s.mem (c.sp - 32) [c.r0, c.r1, c.r2, c.r3] with hm₁
  have hkeep (j k : ℕ) (hk : j + k ≤ 17) : readWords m₁ (ctx + 4 * UInt32.ofNat j) k =
      readWords s.mem (ctx + 4 * UInt32.ofNat j) k := by
    have hstore := readWords_context_frameStore s.mem hframe 0 [c.r0, c.r1, c.r2, c.r3]
      (by simp) j k hk
    rwa [show c.sp - 32 + 4 * UInt32.ofNat 0 = c.sp - 32 from UInt32.add_zero _] at hstore
  have hr0 : readWords s.mem ctx 4 = [c.r0, c.r1, c.r2, c.r3] := by
    simp only [readWords, UInt32.add_assoc, UInt32.reduceAdd, e0, e1, e2, e3]
  have hr4 : readWords m₁ (ctx + 16) 8 = [c.r4, c.r5, c.r6, c.r7, c.r8, c.r9, c.r10, c.r11] := by
    refine (hkeep 4 8 (by decide)).trans ?_
    simp only [readWords, UInt32.reduceOfNat, UInt32.reduceMul, UInt32.add_assoc,
      UInt32.reduceAdd, e4, e5, e6, e7, e8, e9, e10, e11]
  have hr12 : readWords m₁ (ctx + 48) 1 = [c.r12] := by
    refine (hkeep 12 1 (by decide)).trans ?_
    simp only [readWords, UInt32.reduceOfNat, UInt32.reduceMul, e12]
  have hr14 : readWords m₁ (ctx + 56) 2 = [c.lr, c.pc] := by
    refine (hkeep 14 2 (by decide)).trans ?_
    simp only [readWords, UInt32.reduceOfNat, UInt32.reduceMul, UInt32.add_assoc,
      UInt32.reduceAdd, e14, e15]
  have hr16 : readWords (writeWords m₁ (c.sp - 32 + 16) [c.r12, c.lr, c.pc]) (ctx + 64) 1 =
      [c.xpsr] := by
    refine (readWords_context_frameStore m₁ hframe 4 _ (by simp) 16 1 (by decide)).trans ?_
    refine (hkeep 16 1 (by decide)).trans ?_
    simp only [readWords, UInt32.reduceOfNat, UInt32.reduceMul, e16]
  unfold restoreContext
  simp (disch := simp [aligned_add, hctx, hf]) only [Cpu.run_ldrLit, Cpu.run_msr_selected,
    Cpu.run_isb, Cpu.run_stmia_writeBack, Cpu.run_ldmia_writeBack, Cpu.run_sub, Cpu.run_add,
    Cpu.run_mov, Cpu.run_pop, Cpu.run_ldr, Cpu.setReg_self, Cpu.setReg_ne, Cpu.storeWords_reg,
    Cpu.setZero_reg, Cpu.setStack_reg, Cpu.setStack_mem, List.map_cons, List.map_nil,
    List.length_cons, List.length_nil, Nat.reduceAdd, UInt32.reduceOfNat, UInt32.reduceMul,
    UInt32.reduceAdd, UInt32.add_assoc, Cpu.setReg_mem, Cpu.storeWords_mem, Cpu.setZero_mem,
    Cpu.setRegs, hpop, e13, hr0, ← hm₁,
    hr4, hr12, hr14, hr16]
  refine ⟨_, rfl, by simp, ?_, by simp [m₁]⟩
  apply Cpu.interrupted_eq
  · simp [Cpu.framePointer, StackPointer.ofWord_word hf]
    exact readWords_frameStores s.mem (c.sp - 32) c
  · simp
  · simp [Cpu.framePointer, StackPointer.ofWord_word hf]

theorem restoreContext_ok (hsp : c.sp % 4 = 0) (hframe : Apart (c.sp - 32) 8 ctx 17) :
    ∃ s', s.run (restoreContext ctx) = .ok s' ∧ s'.reg .lr = excReturn ∧ s'.interrupted = c := by
  obtain ⟨s', hrun, hlr, hint, -⟩ := restoreContext_run hctx htop hwords hsp hframe
  exact ⟨s', hrun, hlr, hint⟩

/-- A stack pointer that is not word-aligned faults at the first store to the frame. -/
theorem restoreContext_unaligned (hsp : c.sp % 4 ≠ 0) :
    s.run (restoreContext ctx) = .error .unaligned := by
  have hf : (c.sp - 32) % 4 ≠ 0 := fun h => hsp (aligned_of_sub h rfl)
  have hpop : readWords s.mem (s.stack .main).word 1 = [excReturn] := by
    rw [readWords, htop, readWords]
  have hlow : readWords s.mem ctx 4 = [c.r0, c.r1, c.r2, c.r3] := by
    simpa [readWords, CoreRegs.words, UInt32.add_assoc] using congrArg (List.take 4) hwords
  have hsp : s.mem (ctx + 52) = c.sp := by
    simpa [readWords, CoreRegs.words, UInt32.add_assoc] using
      congrArg (List.take 1 ∘ List.drop 13) hwords
  unfold restoreContext
  simp (disch := simp [aligned_add, hctx, hf]) only [Cpu.run_ldrLit, Cpu.run_msr_selected,
    Cpu.run_isb, Cpu.run_stmia_unaligned, Cpu.run_ldmia_writeBack, Cpu.run_sub, Cpu.run_pop,
    Cpu.run_ldr, Cpu.setReg_self, Cpu.setReg_ne, Cpu.setZero_reg, Cpu.setStack_reg,
    Cpu.setStack_mem, List.length_cons, List.length_nil, Nat.reduceAdd, UInt32.reduceOfNat,
    UInt32.reduceMul, Cpu.setReg_mem, Cpu.setZero_mem, Cpu.setRegs, hpop, hsp, hlow]

end

/-- The registers that the interrupted code goes on with after the handler's `bx lr`. -/
def resumed (stkAlign : Bool) (ctx link : UInt32) (DebugHandler : StackKeeper) (s : Cpu) :
    Except CoreFault CoreRegs :=
  s.run (DebugMon_Handler ctx link DebugHandler) >>= exceptionReturn stkAlign

section
variable {ctx : UInt32} (hctx : ctx % 4 = 0) (link : UInt32) (DebugHandler : StackKeeper)
  {s : Cpu} (hframe : Apart s.framePointer 8 ctx 17)
  (hstack : Apart ((s.stack .main).word - 4) 1 ctx 17)
include hctx hframe hstack

/-- From the call on, the handler runs on what the callee leaves. -/
theorem DebugMon_Handler_run : ∃ a, s.run (saveContext ctx) = .ok a ∧ a.reg .r0 = ctx ∧
    readWords a.mem ctx 17 = s.interrupted.words ∧
    s.run (DebugMon_Handler ctx link DebugHandler) =
      (DebugHandler.run (a.setReg .lr link)).run (restoreContext ctx) ∧
    (DebugHandler.run (a.setReg .lr link)).mem
      ((DebugHandler.run (a.setReg .lr link)).stack .main).word = s.reg .lr := by
  obtain ⟨a, ha, hr0, hwords, hmain, htop⟩ := saveContext_ok hctx hframe hstack
  have hpush : ((s.stack .main).word - 4) % 4 = 0 := aligned_sub (s.stack .main).aligned rfl
  refine ⟨a, ha, hr0, hwords, ?_, ?_⟩
  · rw [DebugMon_Handler, Cpu.run_append, bind_of_ok ha, Cpu.run_bl]
  · have hkeep := DebugHandler.top_eq (a.setReg .lr link)
    rw [Cpu.setReg_stack, hmain, StackPointer.ofWord_word hpush, Cpu.setReg_mem, htop] at hkeep
    rw [DebugHandler.main_eq, Cpu.setReg_stack, hmain, StackPointer.ofWord_word hpush, hkeep]

/-- The words handed to `DebugHandler` are the registers of the interrupted code, and the words it
leaves there are what the code goes on with, whenever a core can hold them. An untouched context
is resumed as a return at entry would have resumed it. -/
theorem DebugMon_Handler_lossless (stkAlign : Bool) (hret : s.reg .lr ∈ returnValues) :
    ∃ a, s.run (saveContext ctx) = .ok a ∧ a.reg .r0 = ctx ∧
      readWords a.mem ctx 17 = s.interrupted.words ∧
      (∀ c : CoreRegs, readWords (DebugHandler.run (a.setReg .lr link)).mem ctx 17 = c.words →
        Apart (c.sp - 0x20) 8 ctx 17 →
        (resumed stkAlign ctx link DebugHandler s = .ok c ↔ Resumable (s.reg .lr) c)) ∧
      (readWords (DebugHandler.run (a.setReg .lr link)).mem ctx 17 = readWords a.mem ctx 17 →
        resumed stkAlign ctx link DebugHandler s = exceptionReturn stkAlign s) := by
  obtain ⟨a, ha, hr0, hwords, hrun, htop⟩ :=
    DebugMon_Handler_run hctx link DebugHandler hframe hstack
  set b := DebugHandler.run (a.setReg .lr link) with hb
  refine ⟨a, ha, hr0, hwords, fun c hc happart => ?_, fun hsame => ?_⟩
  · by_cases hsp : c.sp % 4 = 0
    · obtain ⟨s', hs', hlr, hint⟩ := restoreContext_ok hctx htop hc hsp happart
      have hreturn := exceptionReturn_eq_interrupted stkAlign (s := s') (by rw [hlr]; exact hret)
      rw [resumed, hrun, bind_of_ok hs']
      rwa [hint, hlr] at hreturn
    · have hfault := restoreContext_unaligned hctx htop hc hsp
      refine iff_of_false ?_ fun h => hsp h.1
      rw [resumed, hrun, bind_of_error hfault]
      exact fun h => by cases h
  · have hsp : s.interrupted.sp % 4 = 0 := aligned_add s.framePointer_aligned rfl
    have happart : Apart (s.interrupted.sp - 0x20) 8 ctx 17 := by
      rwa [show s.interrupted.sp - 0x20 = s.framePointer from UInt32.add_sub_cancel _ _]
    obtain ⟨s', hs', hlr, hint⟩ := restoreContext_ok hctx htop (hsame.trans hwords) hsp happart
    rw [resumed, hrun, bind_of_ok hs']
    show exceptionReturn stkAlign s' = _
    simp only [exceptionReturn, hlr, hint]

end

/-- Code in thread mode on the main stack, with its context at the start of RAM. -/
def threadCore : CoreRegs :=
  ⟨0, 1, 2, 3, 4, 5, 6, 7, 8, 9, 10, 11, 12, 0x20001000, 0x08000101, 0x08000200, 0x01000000⟩

/-- The entry of the handler from `threadCore`. -/
def threadEntry : Cpu where
  reg := fun
    | .r0 => 0 | .r1 => 1 | .r2 => 2 | .r3 => 3 | .r4 => 4 | .r5 => 5 | .r6 => 6 | .r7 => 7
    | .r8 => 8 | .r9 => 9 | .r10 => 10 | .r11 => 11 | .r12 => 12 | .lr => 0xFFFFFFF9
  stack := fun _ => ⟨0x20000FE0, rfl⟩
  zero := false
  mem := writeWords (fun _ => 0) 0x20000FE0 threadCore.frame

/-- A callee that leaves `v` in the word at `x`, unless its caller's word is there. -/
def poke (x v : UInt32) : StackKeeper where
  run s := if (s.stack .main).word = x then s else s.storeWords x [v]
  main_eq s := by
    split <;> rfl
  top_eq s := by
    split
    · rfl
    · next hne => exact Function.update_of_ne hne v s.mem

/-- A debugger that sets register 1 to 42. -/
theorem DebugMon_Handler_lossless_thread : ∃ a,
    threadEntry.run (saveContext 0x20000000) = .ok a ∧ a.reg .r0 = 0x20000000 ∧
      readWords a.mem 0x20000000 17 = threadEntry.interrupted.words ∧
      ∀ c : CoreRegs, readWords ((poke 0x20000004 42).run (a.setReg .lr 0)).mem 0x20000000 17 =
          c.words → Apart (c.sp - 0x20) 8 0x20000000 17 →
        (resumed false 0x20000000 0 (poke 0x20000004 42) threadEntry = .ok c ↔
          Resumable 0xFFFFFFF9 c) := by
  obtain ⟨a, ha, hr0, hwords, hresumed, -⟩ := DebugMon_Handler_lossless
    (show (0x20000000 : UInt32) % 4 = 0 from rfl) 0 (poke 0x20000004 42) (s := threadEntry)
    (by decide +kernel) (by decide +kernel) false (by decide)
  exact ⟨a, ha, hr0, hwords, hresumed⟩

/-- The words that `DebugHandler` leaves in `context_data`. -/
def finalWords (ctx : UInt32) (DebugHandler : StackKeeper) (s : Cpu) : Option (List UInt32) :=
  (s.run (saveContext ctx)).toOption.map fun a =>
    readWords (DebugHandler.run (a.setReg .lr 0)).mem ctx 17

/-- A stack pointer that is not word-aligned ends in a fault, and a program status with the
padding bit loses it. -/
theorem DebugMon_Handler_loses :
    finalWords 0x20000000 (poke 0x20000034 0x20001002) threadEntry =
        some { threadCore with sp := 0x20001002 }.words ∧
      Apart (0x20001002 - 0x20) 8 0x20000000 17 ∧
      resumed false 0x20000000 0 (poke 0x20000034 0x20001002) threadEntry = .error .unaligned ∧
      finalWords 0x20000000 (poke 0x20000040 0x01000200) threadEntry =
        some { threadCore with xpsr := 0x01000200 }.words ∧
      Apart (threadCore.sp - 0x20) 8 0x20000000 17 ∧
      resumed false 0x20000000 0 (poke 0x20000040 0x01000200) threadEntry = .ok threadCore := by
  decide +kernel

end BluePill
