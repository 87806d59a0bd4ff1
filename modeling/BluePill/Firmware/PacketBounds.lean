import BluePill.Firmware.RegisterPackets
import BluePill.Firmware.MonitorRules

/-! The handlers against a packet of arbitrary bytes: which packets they refuse, which ones lead
them out of the packet, and that they answer all others. -/
namespace BluePill
open Lib

/-- Size of the head of a command's packet. -/
def DebugCommand.headSize : DebugCommand → ℕ
  | .memoryRead | .memoryWrite => MemReadWriteHead.size
  | .regsRead | .regsWrite => RegReadWriteHead.size
  | .resetHalt | .attach => SubCmdHead.size
  | .breakpoint => BreakpointHead.size
  | .flash => FlashCmdHead.size

/-- The command that the first byte of a packet selects in `usbDataOutCallback`. -/
def commandOf (inBuf : List UInt8) : Option DebugCommand :=
  inBuf.head?.bind DebugCommand.ofByte

/-- A packet for which zero is returned: its first byte is no command, its head is not all
there, or it names a register behind `maxRegIndex`. -/
def Refused (inBuf : List UInt8) (inSize : ℕ) : Prop :=
  match commandOf inBuf with
  | none => True
  | some c => inSize < c.headSize ∨
      (c = .regsRead ∨ c = .regsWrite) ∧ maxRegIndex < ofLE ((inBuf.drop 2).take 2)

instance (inBuf : List UInt8) (inSize : ℕ) : Decidable (Refused inBuf inSize) := by
  unfold Refused
  split <;> infer_instance

/-- The bytes that a write packet makes the target take. -/
def writePayload (head : MemReadWriteHead) (inSize : ℕ) : ℕ :=
  payloadSize MemReadWriteHead.size inSize head.byteCount (getValidatedAlign head.align.toNat)

/-- A packet that leads its handler behind the end of `inBuf`: an odd payload for flash, whose
last half-word takes one byte more, and a breakpoint count that nothing clamps. -/
def Overruns (inBuf : List UInt8) (inSize : ℕ) : Prop :=
  match commandOf inBuf with
  | some .memoryWrite => MemReadWriteHead.size ≤ inSize ∧
      ∃ head ∈ MemReadWriteHead.decode inBuf, isFlashRegion head.address = true ∧
        writePayload head inSize % 2 = 1 ∧
        inBuf.length < MemReadWriteHead.size + writePayload head inSize + 1
  | some .breakpoint => BreakpointHead.size ≤ inSize ∧
      inBuf.length < Breakpoint.bytes * ofLE ((inBuf.drop 2).take 2)
  | _ => False

instance (inBuf : List UInt8) (inSize : ℕ) : Decidable (Overruns inBuf inSize) := by
  unfold Overruns
  split <;> infer_instance

/-- The handler returns with a reply that the endpoint can take, and leaves the endpoint to its
caller. -/
def Sends (d : Device) (r : HandlerResult) : Prop :=
  ∃ n f e, r = .ok (n, f, e) ∧ 0 < n ∧ n ≤ 64 ∧ e.inEndpoint = d.inEndpoint

theorem DebugCommand.toByte_of_ofByte {b : UInt8} {c : DebugCommand} (h : ofByte b = some c) :
    b = c.toByte := by
  unfold ofByte at h
  split_ifs at h with h₀ h₁ h₂ h₃ h₄ h₅ h₆ h₇
  all_goals
    obtain rfl := Option.some.inj h
    assumption

theorem commandOf_cons {inBuf : List UInt8} {c : DebugCommand} (h : commandOf inBuf = some c) :
    ∃ rest, inBuf = c.toByte :: rest := by
  rcases inBuf with _ | ⟨b, rest⟩
  · cases h
  · exact ⟨rest, by rw [DebugCommand.toByte_of_ofByte h]⟩

theorem dbgHeadValid_short {headSize inSize : ℕ} (inBuf : List UInt8) (c : DebugCommand)
    (h : inSize < headSize) : dbgHeadValid headSize inBuf inSize c = .ok false := if_pos h

theorem dbgHeadValid_command {headSize inSize : ℕ} {inBuf : List UInt8} {c : DebugCommand}
    (hc : commandOf inBuf = some c) (h : headSize ≤ inSize) :
    dbgHeadValid headSize inBuf inSize c = .ok true := by
  obtain ⟨rest, rfl⟩ := commandOf_cons hc
  exact (if_neg (not_lt.mpr h)).trans (congrArg Except.ok (beq_self_eq_true _))

theorem exists_cons {n : ℕ} {l : List UInt8} (h : n + 1 ≤ l.length) :
    ∃ a t, l = a :: t ∧ n ≤ t.length := by
  obtain ⟨a, t, rfl⟩ := List.exists_cons_of_length_pos (Nat.lt_of_lt_of_le n.succ_pos h)
  exact ⟨a, t, rfl, Nat.le_of_succ_le_succ h⟩

theorem exists_memReadWriteHead {buf : List UInt8} (h : MemReadWriteHead.size ≤ buf.length) :
    ∃ head, MemReadWriteHead.decode buf = some head := by
  obtain ⟨_, _, rfl, h₁⟩ := exists_cons h
  obtain ⟨_, _, rfl, h₂⟩ := exists_cons h₁
  obtain ⟨_, _, rfl, h₃⟩ := exists_cons h₂
  obtain ⟨_, _, rfl, h₄⟩ := exists_cons h₃
  obtain ⟨_, _, rfl, h₅⟩ := exists_cons h₄
  obtain ⟨_, _, rfl, h₆⟩ := exists_cons h₅
  obtain ⟨_, _, rfl, h₇⟩ := exists_cons h₆
  obtain ⟨_, _, rfl, -⟩ := exists_cons h₇
  exact ⟨_, rfl⟩

/-- The heads of four bytes. -/
theorem exists_four {buf : List UInt8} (h : 4 ≤ buf.length) :
    ∃ a b c d rest, buf = a :: b :: c :: d :: rest := by
  obtain ⟨a, _, rfl, h₁⟩ := exists_cons h
  obtain ⟨b, _, rfl, h₂⟩ := exists_cons h₁
  obtain ⟨c, _, rfl, h₃⟩ := exists_cons h₂
  obtain ⟨d, rest, rfl, -⟩ := exists_cons h₃
  exact ⟨a, b, c, d, rest, rfl⟩

theorem exists_flashCmdHead {buf : List UInt8} (h : FlashCmdHead.size ≤ buf.length) :
    ∃ head, FlashCmdHead.decode buf = some head := by
  have h₁₂ : 12 ≤ buf.length := h
  obtain ⟨_, _, _, _, rest, rfl⟩ := exists_four (show 4 ≤ buf.length by omega)
  have hrest : 8 ≤ rest.length := by
    simp only [List.length_cons] at h₁₂
    omega
  obtain ⟨head, hhead⟩ := exists_memReadWriteHead hrest
  unfold MemReadWriteHead.decode at hhead
  split at hhead
  · exact ⟨_, rfl⟩
  · cases hhead

theorem bytes_dvd_payloadSize (w : AccessWidth) (headSize n : ℕ) {maxSize : ℕ}
    (hmax : maxSize < 4294967296) :
    w.bytes ∣ payloadSize headSize maxSize n w.bytes := by
  unfold payloadSize
  simp only [getValidatedAlign_bytes]
  split_ifs
  · exact dvd_zero _
  · rw [and_alignMask w (by omega)]
    exact Dvd.intro_left _ rfl
  · rw [and_alignMask w (by omega)]
    exact Dvd.intro_left _ rfl

/-- Whatever `align` says, the payload is whole elements of the width that the copy loop takes
for it. -/
theorem accessWidth_dvd_payloadSize (headSize n align : ℕ) {maxSize : ℕ}
    (hmax : maxSize < 4294967296) :
    (accessWidth align).bytes ∣ payloadSize headSize maxSize n align := by
  by_cases h₄ : align = 4
  · subst h₄
    exact bytes_dvd_payloadSize .word headSize n hmax
  by_cases h₂ : align = 2
  · subst h₂
    exact bytes_dvd_payloadSize .half headSize n hmax
  · rw [accessWidth, if_neg h₄, if_neg h₂]
    exact one_dvd _

section

variable {inBuf : List UInt8} {inSize : ℕ} (outBuf : Frame) (d : Device)

theorem exists_store (f : Frame) (off : ℕ) (bytes : List UInt8) (h : off + bytes.length ≤ 64) :
    ∃ g, f.store off bytes = .ok g := by
  obtain ⟨g, hg, -⟩ := f.store_ok off bytes h
  exact ⟨g, hg⟩

theorem readBytes_ok {buf : List UInt8} {off n : ℕ} (h : off + n ≤ buf.length) :
    readBytes buf off n = .ok ((buf.drop off).take n) := if_pos h

theorem copyFromTarget_ok (a : ℕ) (f : Frame) {n align : ℕ} (hn : n ≤ 56)
    (hdvd : (accessWidth align).bytes ∣ n) :
    ∃ s', dbgMemcpy (copyFromTarget a 8) n align (f, d) = .ok s' ∧
      s'.2.inEndpoint = d.inEndpoint := by
  refine dbgMemcpy_ok (fun s : Frame × Device => s.2.inEndpoint = d.inEndpoint) hdvd rfl ?_
  intro off s hs hoff
  obtain ⟨g, hg⟩ := exists_store s.1 (8 + off)
    (readRange s.2.mem ((a + off) % 4294967296) (accessWidth align).bytes)
    (by rw [readRange_length]; omega)
  exact ⟨_, bind_of_ok hg, hs⟩

theorem copyToTarget_ok (a : ℕ) {n align : ℕ} (hn : 8 + n ≤ inBuf.length)
    (hdvd : (accessWidth align).bytes ∣ n) :
    ∃ d', dbgMemcpy (copyToTarget a inBuf 8) n align d = .ok d' ∧
      d'.inEndpoint = d.inEndpoint := by
  refine dbgMemcpy_ok (fun d' : Device => d'.inEndpoint = d.inEndpoint) hdvd rfl ?_
  intro off d' hd' hoff
  exact ⟨_, bind_of_ok (readBytes_ok (by omega)), hd'⟩

theorem memoryReadCommand_sends (hc : commandOf inBuf = some .memoryRead)
    (hhead : MemReadWriteHead.size ≤ inSize) (hfits : inSize ≤ inBuf.length) :
    Sends d (memoryReadCommand inBuf inSize outBuf 64 d) := by
  obtain ⟨head, hdecode⟩ := exists_memReadWriteHead (hhead.trans hfits)
  have hread : readHead MemReadWriteHead.decode inBuf = .ok head := by rw [readHead, hdecode]
  have hle : payloadSize MemReadWriteHead.size 64 head.byteCount head.align.toNat ≤ 56 :=
    payloadSize_le _ _ _ _
  have hdvd := accessWidth_dvd_payloadSize MemReadWriteHead.size head.byteCount head.align.toNat
    (show 64 < 4294967296 by decide)
  set n := payloadSize MemReadWriteHead.size 64 head.byteCount head.align.toNat with hn
  obtain ⟨f, hf⟩ := exists_store outBuf 0 (MemReadWriteHead.mk DebugCommand.memoryRead.toByte
    head.align n head.address).encode (by
      rw [MemReadWriteHead.encode_length]
      decide)
  obtain ⟨⟨g, e⟩, hcopy, hend⟩ := copyFromTarget_ok d head.address f hle hdvd
  obtain ⟨k, hk⟩ := exists_store f 8 (List.replicate n 0xFF) (by
    rw [List.length_replicate]
    omega)
  unfold memoryReadCommand
  rw [bind_of_ok (dbgHeadValid_command hc hhead)]
  simp only [Bool.not_true, Bool.false_eq_true, if_false]
  rw [bind_of_ok hread, bind_of_ok hf]
  split_ifs
  · refine ⟨8 + n, g, e, ?_, by omega, by omega, hend⟩
    rw [bind_of_ok hcopy]
    rfl
  · refine ⟨8 + n, k, d, ?_, by omega, by omega, rfl⟩
    rw [bind_of_ok hk]
    rfl

/-- The loop of `flashWrite` reads an even number of bytes. -/
theorem flashWriteLoop_ok (address : ℕ) (data : List UInt8) {size i : ℕ} (d : Device)
    (hi : 2 ∣ i) (hfits : size + size % 2 ≤ data.length) :
    ∃ e, flashWriteLoop address data size i d = .ok e ∧ e.inEndpoint = d.inEndpoint := by
  induction hn : size - i using Nat.strong_induction_on generalizing i d with
  | _ n ih =>
    rw [flashWriteLoop]
    by_cases hlt : i < size
    · have hlo : i < data.length := by omega
      have hhi : i + 1 < data.length := by omega
      rw [if_pos hlt, List.getElem?_eq_getElem hlo, List.getElem?_eq_getElem hhi]
      obtain ⟨e, he, hend⟩ := ih (size - (i + 2)) (by omega)
        (d.flashProgramHalfWord ((address + i) % 4294967296)
          (data[i].toNat ||| (data[i + 1].toNat <<< 8))) (by omega) rfl
      exact ⟨e, he, hend⟩
    · exact ⟨d, if_neg hlt, rfl⟩

/-- Of an odd payload at the end of the buffer the last half-word is not all there. -/
theorem flashWriteLoop_error (address : ℕ) (data : List UInt8) {size i : ℕ} (d : Device)
    (hi : 2 ∣ i) (hlt : i < size) (hodd : size % 2 = 1) (hend : data.length = size) :
    flashWriteLoop address data size i d = .error .outOfBounds := by
  induction hn : size - i using Nat.strong_induction_on generalizing i d with
  | _ n ih =>
    rw [flashWriteLoop, if_pos hlt]
    have hlo : i < data.length := by omega
    rw [List.getElem?_eq_getElem hlo]
    by_cases hlast : i + 1 < data.length
    · rw [List.getElem?_eq_getElem hlast]
      exact ih (size - (i + 2)) (by omega) _ (by omega) (by omega) rfl
    · rw [List.getElem?_eq_none (by omega)]

/-- What `memoryWriteCommand` does between its head and its reply. -/
def writeToTarget (head : MemReadWriteHead) (inBuf : List UInt8) (n : ℕ) (d : Device) :
    Except Fault Device :=
  if isFlashRegion head.address then
    flashWrite head.address (inBuf.drop MemReadWriteHead.size) n d
  else
    dbgMemcpy (copyToTarget head.address inBuf MemReadWriteHead.size) n
      (getValidatedAlign head.align.toNat) d

theorem memoryWriteCommand_eq (hc : commandOf inBuf = some .memoryWrite)
    (hhead : MemReadWriteHead.size ≤ inSize) {head : MemReadWriteHead}
    (hread : readHead MemReadWriteHead.decode inBuf = .ok head) :
    memoryWriteCommand inBuf inSize outBuf 64 d =
      writeToTarget head inBuf (writePayload head inSize) d >>= fun d =>
        outBuf.store 0 (MemReadWriteHead.mk DebugCommand.memoryWrite.toByte
          (UInt8.ofNat (getValidatedAlign head.align.toNat)) (writePayload head inSize)
          head.address).encode >>= fun f => pure (MemReadWriteHead.size, f, d) := by
  unfold memoryWriteCommand
  rw [bind_of_ok (dbgHeadValid_command hc hhead)]
  simp only [Bool.not_true, Bool.false_eq_true, if_false]
  rw [bind_of_ok hread]
  unfold writeToTarget
  by_cases hflash : isFlashRegion head.address = true
  · simp only [hflash, if_true]
    rfl
  · simp only [hflash, Bool.false_eq_true, if_false]
    rfl

theorem memoryWriteCommand_sends (hc : commandOf inBuf = some .memoryWrite)
    (hhead : MemReadWriteHead.size ≤ inSize) (hfits : inSize ≤ inBuf.length)
    (hsize : inSize ≤ 64) (hin : ¬ Overruns inBuf inSize) :
    Sends d (memoryWriteCommand inBuf inSize outBuf 64 d) := by
  obtain ⟨head, hdecode⟩ := exists_memReadWriteHead (hhead.trans hfits)
  have hread : readHead MemReadWriteHead.decode inBuf = .ok head := by rw [readHead, hdecode]
  have hle : writePayload head inSize ≤ inSize - 8 := payloadSize_le _ _ _ _
  have hin' : 8 ≤ inSize := hhead
  obtain ⟨e, hwrite, hend⟩ : ∃ e, writeToTarget head inBuf (writePayload head inSize) d = .ok e ∧
      e.inEndpoint = d.inEndpoint := by
    unfold writeToTarget
    by_cases hflash : isFlashRegion head.address = true
    · rw [if_pos hflash]
      have hdrop : (inBuf.drop MemReadWriteHead.size).length = inBuf.length - 8 :=
        List.length_drop
      apply flashWriteLoop_ok _ _ d (dvd_zero 2)
      rw [hdrop]
      by_contra hlt
      apply hin
      rw [Overruns, hc]
      refine ⟨hhead, head, hdecode, hflash, ?_, ?_⟩
      · omega
      · show inBuf.length < 8 + writePayload head inSize + 1
        omega
    · rw [if_neg hflash]
      exact copyToTarget_ok d _ (by omega) (accessWidth_dvd_payloadSize _ _ _ (by omega))
  obtain ⟨f, hf⟩ := exists_store outBuf 0 (MemReadWriteHead.mk DebugCommand.memoryWrite.toByte
    (UInt8.ofNat (getValidatedAlign head.align.toNat)) (writePayload head inSize)
    head.address).encode (by
      rw [MemReadWriteHead.encode_length]
      decide)
  refine ⟨8, f, e, ?_, by decide, by decide, hend⟩
  rw [memoryWriteCommand_eq outBuf d hc hhead hread, bind_of_ok hwrite, bind_of_ok hf]
  rfl

theorem memoryWriteCommand_overruns (hc : commandOf inBuf = some .memoryWrite)
    (hfits : inSize ≤ inBuf.length) (hout : Overruns inBuf inSize) :
    memoryWriteCommand inBuf inSize outBuf 64 d = .error .outOfBounds := by
  rw [Overruns, hc] at hout
  obtain ⟨hhead, head, hdecode, hflash, hodd, hend⟩ := hout
  have hread : readHead MemReadWriteHead.decode inBuf = .ok head := by
    rw [readHead, Option.mem_def.mp hdecode]
  have hle : writePayload head inSize ≤ inSize - 8 := payloadSize_le _ _ _ _
  have hhead' : 8 ≤ inSize := hhead
  have hend' : inBuf.length < 8 + writePayload head inSize + 1 := hend
  have hdrop : (inBuf.drop MemReadWriteHead.size).length = inBuf.length - 8 := List.length_drop
  rw [memoryWriteCommand_eq outBuf d hc hhead hread]
  apply bind_of_error
  rw [writeToTarget, if_pos hflash]
  exact flashWriteLoop_error _ _ d (dvd_zero 2) (by omega) hodd (by omega)

theorem regsReadCommand_sends (hc : commandOf inBuf = some .regsRead)
    (hhead : RegReadWriteHead.size ≤ inSize) (hfits : inSize ≤ inBuf.length)
    (hreg : ofLE ((inBuf.drop 2).take 2) ≤ maxRegIndex) :
    Sends d (regsReadCommand inBuf inSize outBuf 64 d) := by
  have hvalid := dbgHeadValid_command hc hhead
  obtain ⟨c, n, i₀, i₁, rest, rfl⟩ := exists_four (hhead.trans hfits)
  obtain ⟨g, hg, -⟩ := regsReadCommand_ok d outBuf ⟨c, n, ofLE [i₀, i₁]⟩ hvalid rfl hreg
  exact ⟨_, g, d, hg, by omega, by omega, rfl⟩

theorem regsReadCommand_refused (hc : commandOf inBuf = some .regsRead)
    (hhead : RegReadWriteHead.size ≤ inSize) (hfits : inSize ≤ inBuf.length)
    (hreg : maxRegIndex < ofLE ((inBuf.drop 2).take 2)) :
    regsReadCommand inBuf inSize outBuf 64 d = .ok (0, outBuf, d) := by
  have hvalid := dbgHeadValid_command hc hhead
  obtain ⟨c, n, i₀, i₁, rest, rfl⟩ := exists_four (hhead.trans hfits)
  unfold regsReadCommand
  rw [bind_of_ok hvalid]
  simp only [Bool.not_true, Bool.false_eq_true, if_false]
  exact if_pos hreg

theorem regsWriteCommand_sends (hc : commandOf inBuf = some .regsWrite)
    (hhead : RegReadWriteHead.size ≤ inSize) (hfits : inSize ≤ inBuf.length)
    (hreg : ofLE ((inBuf.drop 2).take 2) ≤ maxRegIndex) :
    Sends d (regsWriteCommand inBuf inSize outBuf 64 d) := by
  have hvalid := dbgHeadValid_command hc hhead
  obtain ⟨c, n, i₀, i₁, rest, rfl⟩ := exists_four (hhead.trans hfits)
  obtain ⟨g, hg, -⟩ :=
    regsWriteCommand_ok d outBuf ⟨c, n, ofLE [i₀, i₁]⟩ _ hhead hfits hvalid rfl hreg
  exact ⟨4, g, _, hg, by decide, by decide, rfl⟩

theorem regsWriteCommand_refused (hc : commandOf inBuf = some .regsWrite)
    (hhead : RegReadWriteHead.size ≤ inSize) (hfits : inSize ≤ inBuf.length)
    (hreg : maxRegIndex < ofLE ((inBuf.drop 2).take 2)) :
    regsWriteCommand inBuf inSize outBuf 64 d = .ok (0, outBuf, d) := by
  have hvalid := dbgHeadValid_command hc hhead
  obtain ⟨c, n, i₀, i₁, rest, rfl⟩ := exists_four (hhead.trans hfits)
  unfold regsWriteCommand
  rw [bind_of_ok hvalid]
  simp only [Bool.not_true, Bool.false_eq_true, if_false]
  exact if_pos hreg

theorem resetHaltCommand_sends (hc : commandOf inBuf = some .resetHalt)
    (hhead : SubCmdHead.size ≤ inSize) (hfits : inSize ≤ inBuf.length) :
    Sends d (resetHaltCommand inBuf inSize outBuf 64 d) := by
  have hvalid := dbgHeadValid_command hc hhead
  obtain ⟨c, s, x, y, rest, rfl⟩ := exists_four (hhead.trans hfits)
  have hread : readHead SubCmdHead.decode (c :: s :: x :: y :: rest) = .ok ⟨c, s⟩ := rfl
  obtain ⟨f, hf⟩ := exists_store outBuf 0 [DebugCommand.resetHalt.toByte, s,
    (if ResetHaltCommand.ofByte s = some .getState then d.mon.gHaltState else .running).toByte, 0]
    (by simp)
  unfold resetHaltCommand
  rw [bind_of_ok hvalid]
  simp only [Bool.not_true, Bool.false_eq_true, if_false]
  rw [bind_of_ok hread, bind_of_ok hf]
  refine ⟨4, f, _, rfl, by decide, by decide, ?_⟩
  dsimp only
  rcases ResetHaltCommand.ofByte s with _ | cmd
  · rfl
  · cases cmd <;> rfl

theorem flashCommand_sends (hc : commandOf inBuf = some .flash)
    (hhead : FlashCmdHead.size ≤ inSize) (hfits : inSize ≤ inBuf.length) :
    Sends d (flashCommand inBuf inSize outBuf 64 d) := by
  obtain ⟨head, hdecode⟩ := exists_flashCmdHead (hhead.trans hfits)
  have hread : readHead FlashCmdHead.decode inBuf = .ok head := by rw [readHead, hdecode]
  have hstore : ∀ status, ∃ f, outBuf.store 0
      [DebugCommand.flash.toByte, head.flashCommand, status] = .ok f := fun status =>
    exists_store outBuf 0 _ (by simp)
  unfold flashCommand
  rw [bind_of_ok (dbgHeadValid_command hc hhead)]
  simp only [Bool.not_true, Bool.false_eq_true, if_false]
  rw [bind_of_ok hread]
  rcases FlashCommand.ofByte head.flashCommand with _ | cmd
  · obtain ⟨f, hf⟩ := hstore 0
    exact ⟨4, f, _, bind_of_ok hf, by decide, by decide, rfl⟩
  · cases cmd with
    | lock =>
      obtain ⟨f, hf⟩ := hstore 0
      exact ⟨4, f, _, bind_of_ok hf, by decide, by decide, rfl⟩
    | unlock | erase | detach =>
      obtain ⟨f, hf⟩ := hstore 1
      exact ⟨4, f, _, bind_of_ok hf, by decide, by decide, rfl⟩

theorem attachCommand_sends (hc : commandOf inBuf = some .attach)
    (hhead : SubCmdHead.size ≤ inSize) (hfits : inSize ≤ inBuf.length) :
    Sends d (attachCommand inBuf inSize outBuf 64 d) := by
  have hvalid := dbgHeadValid_command hc hhead
  obtain ⟨c, s, x, y, rest, rfl⟩ := exists_four (hhead.trans hfits)
  have hread : readHead SubCmdHead.decode (c :: s :: x :: y :: rest) = .ok ⟨c, s⟩ := rfl
  obtain ⟨f, hf⟩ := exists_store outBuf 0 [c, s, 1] (by simp)
  unfold attachCommand
  rw [bind_of_ok hvalid]
  simp only [Bool.not_true, Bool.false_eq_true, if_false]
  rw [bind_of_ok hread, bind_of_ok hf]
  have hhalt : (if s = 0 then d.debugHaltRequest.2 else d).inEndpoint = d.inEndpoint := by
    split_ifs <;> rfl
  refine ⟨4, f, _, rfl, by decide, by decide, ?_⟩
  dsimp only
  generalize (if s = 0 then d.debugHaltRequest.2 else d) = e at hhalt ⊢
  by_cases hstart : s = 1
  · rw [if_pos hstart]
    exact hhalt
  · rw [if_neg hstart]
    exact hhalt

/-- What `breakpointCommand` does for the entry `index`. -/
def breakpointEntry (inBuf : List UInt8) (set : Prop) [Decidable set] (comp : Vector UInt32 8)
    (index : ℕ) : Except Fault (Vector UInt32 8) := do
  let word ← readBytes inBuf (BreakpointHead.size + Breakpoint.bytes * index) 4
  let address := UInt32.ofNat (ofLE word)
  return if set then setComparator comp address else clearComparator comp address

theorem breakpointCommand_eq (hc : commandOf inBuf = some .breakpoint)
    (hhead : BreakpointHead.size ≤ inSize) (hfits : inSize ≤ inBuf.length) :
    ∃ (s : UInt8) (f : Frame), breakpointCommand inBuf inSize outBuf 64 d =
      (List.range (ofLE ((inBuf.drop 2).take 2))).foldlM (breakpointEntry inBuf (s ≠ 0)) d.fpComp
        >>= fun fpComp => pure (BreakpointHead.size, f, { d with
          fpCtrl := if s ≠ 0 then d.fpCtrl ||| 0x03 else d.fpCtrl
          fpComp := fpComp }) := by
  have hvalid := dbgHeadValid_command hc hhead
  obtain ⟨c, s, n₀, n₁, rest, rfl⟩ := exists_four (hhead.trans hfits)
  have hread : readHead BreakpointHead.decode (c :: s :: n₀ :: n₁ :: rest) =
      .ok ⟨c, s, ofLE [n₀, n₁]⟩ := rfl
  obtain ⟨f, hf⟩ := exists_store outBuf 0
    (BreakpointHead.mk DebugCommand.breakpoint.toByte s (ofLE [n₀, n₁])).encode (by
      simp [BreakpointHead.encode])
  refine ⟨s, f, ?_⟩
  unfold breakpointCommand
  rw [bind_of_ok hvalid]
  simp only [Bool.not_true, Bool.false_eq_true, if_false]
  rw [bind_of_ok hread, bind_of_ok hf]
  rfl

theorem breakpointCommand_sends (hc : commandOf inBuf = some .breakpoint)
    (hhead : BreakpointHead.size ≤ inSize) (hfits : inSize ≤ inBuf.length)
    (hin : ¬ Overruns inBuf inSize) : Sends d (breakpointCommand inBuf inSize outBuf 64 d) := by
  obtain ⟨s, f, heq⟩ := breakpointCommand_eq outBuf d hc hhead hfits
  have hcount : 8 * ofLE ((inBuf.drop 2).take 2) ≤ inBuf.length := by
    by_contra hlt
    apply hin
    rw [Overruns, hc]
    exact ⟨hhead, not_le.mp hlt⟩
  obtain ⟨fpComp, hfold, -⟩ := foldlM_ok (f := breakpointEntry inBuf (s ≠ 0)) (fun _ => True)
    (l := List.range (ofLE ((inBuf.drop 2).take 2))) (s := d.fpComp) (by
      intro comp _ index hindex
      have hlt := List.mem_range.mp hindex
      have hread : BreakpointHead.size + Breakpoint.bytes * index + 4 ≤ inBuf.length := by
        show 4 + 8 * index + 4 ≤ inBuf.length
        omega
      exact ⟨_, bind_of_ok (readBytes_ok hread), trivial⟩) trivial
  exact ⟨4, f, _, heq.trans (bind_of_ok hfold), by decide, by decide, rfl⟩

theorem breakpointCommand_overruns (hc : commandOf inBuf = some .breakpoint)
    (hfits : inSize ≤ inBuf.length) (hout : Overruns inBuf inSize) :
    breakpointCommand inBuf inSize outBuf 64 d = .error .outOfBounds := by
  rw [Overruns, hc] at hout
  obtain ⟨hhead, hcount⟩ := hout
  obtain ⟨s, f, heq⟩ := breakpointCommand_eq outBuf d hc hhead hfits
  have hcount' : inBuf.length < 8 * ofLE ((inBuf.drop 2).take 2) := hcount
  rw [heq]
  apply bind_of_error
  have hstep : ∀ comp : Vector UInt32 8, ∀ index,
      (∃ comp', breakpointEntry inBuf (s ≠ 0) comp index = .ok comp') ∨
        breakpointEntry inBuf (s ≠ 0) comp index = .error .outOfBounds := by
    intro comp index
    by_cases hread : BreakpointHead.size + Breakpoint.bytes * index + 4 ≤ inBuf.length
    · exact .inl ⟨_, bind_of_ok (readBytes_ok hread)⟩
    · exact .inr (bind_of_error (if_neg hread))
  refine foldlM_error (fun comp index _ => hstep comp index)
    (a := ofLE ((inBuf.drop 2).take 2) - 1) (List.mem_range.mpr (by omega)) ?_ _
  intro comp
  refine bind_of_error (if_neg ?_)
  show ¬ 4 + 8 * (ofLE ((inBuf.drop 2).take 2) - 1) + 4 ≤ inBuf.length
  omega

theorem dispatchCommand_eq {c : DebugCommand} (hc : commandOf inBuf = some c) :
    dispatchCommand inBuf inSize outBuf d = match c with
      | .memoryRead => memoryReadCommand inBuf inSize outBuf 64 d
      | .memoryWrite => memoryWriteCommand inBuf inSize outBuf 64 d
      | .regsRead => regsReadCommand inBuf inSize outBuf 64 d
      | .regsWrite => regsWriteCommand inBuf inSize outBuf 64 d
      | .resetHalt => resetHaltCommand inBuf inSize outBuf 64 d
      | .breakpoint => breakpointCommand inBuf inSize outBuf 64 d
      | .flash => flashCommand inBuf inSize outBuf 64 d
      | .attach => attachCommand inBuf inSize outBuf 64 d := by
  obtain ⟨rest, rfl⟩ := commandOf_cons hc
  unfold dispatchCommand
  simp only [DebugCommand.ofByte_toByte]
  cases c <;> rfl

/-- Every handler begins with the check of its head. -/
theorem dispatchCommand_short {c : DebugCommand} (hc : commandOf inBuf = some c)
    (hshort : inSize < c.headSize) : dispatchCommand inBuf inSize outBuf d = .ok (0, outBuf, d) := by
  have hvalid := dbgHeadValid_short inBuf c hshort
  rw [dispatchCommand_eq outBuf d hc]
  cases c <;> exact (bind_of_ok hvalid).trans rfl

theorem dispatchCommand_refused (hpos : 0 < inSize) (hfits : inSize ≤ inBuf.length)
    (h : Refused inBuf inSize) : dispatchCommand inBuf inSize outBuf d = .ok (0, outBuf, d) := by
  unfold Refused at h
  cases hc : commandOf inBuf with
  | none =>
    obtain ⟨b, rest, rfl⟩ := List.exists_cons_of_length_pos (hpos.trans_le hfits)
    have hbyte : DebugCommand.ofByte b = none := hc
    unfold dispatchCommand
    simp only [hbyte]
  | some c =>
    rw [hc] at h
    by_cases hshort : inSize < c.headSize
    · exact dispatchCommand_short outBuf d hc hshort
    · obtain ⟨hregs, hindex⟩ := h.resolve_left hshort
      rw [dispatchCommand_eq outBuf d hc]
      rcases hregs with rfl | rfl
      · exact regsReadCommand_refused outBuf d hc (not_lt.mp hshort) hfits hindex
      · exact regsWriteCommand_refused outBuf d hc (not_lt.mp hshort) hfits hindex

theorem dispatchCommand_overruns (hfits : inSize ≤ inBuf.length) (h : Overruns inBuf inSize) :
    dispatchCommand inBuf inSize outBuf d = .error .outOfBounds := by
  have hcopy := h
  unfold Overruns at hcopy
  split at hcopy
  next hc =>
    rw [dispatchCommand_eq outBuf d hc]
    exact memoryWriteCommand_overruns outBuf d hc hfits h
  next hc =>
    rw [dispatchCommand_eq outBuf d hc]
    exact breakpointCommand_overruns outBuf d hc hfits h
  next => exact hcopy.elim

theorem dispatchCommand_sends (hfits : inSize ≤ inBuf.length) (hsize : inSize ≤ 64)
    (hok : ¬ Refused inBuf inSize) (hin : ¬ Overruns inBuf inSize) :
    Sends d (dispatchCommand inBuf inSize outBuf d) := by
  unfold Refused at hok
  cases hc : commandOf inBuf with
  | none =>
    rw [hc] at hok
    exact absurd trivial hok
  | some c =>
    rw [hc] at hok
    obtain ⟨hhead, hregs⟩ := not_or.mp hok
    have hhead := not_lt.mp hhead
    have hreg : c = .regsRead ∨ c = .regsWrite → ofLE ((inBuf.drop 2).take 2) ≤ maxRegIndex :=
      fun hcmd => not_lt.mp fun hlt => hregs ⟨hcmd, hlt⟩
    rw [dispatchCommand_eq outBuf d hc]
    cases c with
    | memoryRead => exact memoryReadCommand_sends outBuf d hc hhead hfits
    | memoryWrite => exact memoryWriteCommand_sends outBuf d hc hhead hfits hsize hin
    | regsRead => exact regsReadCommand_sends outBuf d hc hhead hfits (hreg (.inl rfl))
    | regsWrite => exact regsWriteCommand_sends outBuf d hc hhead hfits (hreg (.inr rfl))
    | resetHalt => exact resetHaltCommand_sends outBuf d hc hhead hfits
    | breakpoint => exact breakpointCommand_sends outBuf d hc hhead hfits hin
    | flash => exact flashCommand_sends outBuf d hc hhead hfits
    | attach => exact attachCommand_sends outBuf d hc hhead hfits

end

/-- The handler that `usbDataOutCallback` calls for the packet reads nothing but the packet's own
bytes, writes nothing but the reply buffer, and returns a size that fits into it: all of its
accesses, over the packet alone, are inside. -/
def StaysInBuffers (packet : List UInt8) (outBuf : Frame) (d : Device) : Prop :=
  ∃ n f e, dispatchCommand packet packet.length outBuf d = .ok (n, f, e) ∧ n ≤ 64

theorem staysInBuffers_iff (packet : List UInt8) (hne : packet ≠ []) (hlen : packet.length ≤ 64)
    (outBuf : Frame) (d : Device) :
    StaysInBuffers packet outBuf d ↔ ¬ Overruns packet packet.length := by
  constructor
  · rintro ⟨n, f, e, hdispatch, -⟩ hout
    rw [dispatchCommand_overruns outBuf d le_rfl hout] at hdispatch
    cases hdispatch
  · intro hin
    by_cases href : Refused packet packet.length
    · exact ⟨0, outBuf, d,
        dispatchCommand_refused outBuf d (List.length_pos_iff.mpr hne) le_rfl href, Nat.zero_le 64⟩
    · obtain ⟨n, f, e, hdispatch, -, hn, -⟩ :=
        dispatchCommand_sends outBuf d le_rfl hlen href hin
      exact ⟨n, f, e, hdispatch, hn⟩

/-- A byte for user RAM, at the end of its packet. -/
theorem staysInBuffers_iff_ramByte :
    StaysInBuffers [1, 1, 1, 0, 0, 0x10, 0, 0x20, 0xAB] .zero (.initial blankMemory bootSymbols) ↔
      ¬ Overruns [1, 1, 1, 0, 0, 0x10, 0, 0x20, 0xAB] 9 :=
  staysInBuffers_iff [1, 1, 1, 0, 0, 0x10, 0, 0x20, 0xAB] (by decide) (by decide) _ _

/-- A breakpoint packet that announces one entry and holds none, and a single byte for flash. -/
theorem not_staysInBuffers :
    ¬ StaysInBuffers [5, 1, 1, 0] .zero (.initial blankMemory bootSymbols) ∧
      ¬ StaysInBuffers [1, 1, 1, 0, 0, 0x40, 0, 0x08, 0xAB] .zero
        (.initial blankMemory bootSymbols) := by
  constructor
  · rintro ⟨n, f, e, hdispatch, -⟩
    rw [dispatchCommand_overruns _ _ le_rfl (by decide)] at hdispatch
    cases hdispatch
  · rintro ⟨n, f, e, hdispatch, -⟩
    rw [dispatchCommand_overruns _ _ le_rfl (by decide)] at hdispatch
    cases hdispatch

/-- The entries that a breakpoint packet announces lie inside `usbCmdFrame`. -/
def EntriesInFrame (packet : List UInt8) : Prop :=
  commandOf packet = some .breakpoint → Breakpoint.bytes * ofLE ((packet.drop 2).take 2) ≤ 64

instance (packet : List UInt8) : Decidable (EntriesInFrame packet) := by
  unfold EntriesInFrame
  infer_instance

theorem commandOf_append {packet : List UInt8} (hne : packet ≠ []) (rest : List UInt8) :
    commandOf (packet ++ rest) = commandOf packet := by
  rw [commandOf, List.head?_append_of_ne_nil _ hne, commandOf]

/-- The half-word behind the first two bytes of a packet in the frame. -/
theorem take_drop_append {packet : List UInt8} (h : 4 ≤ packet.length) (rest : List UInt8) :
    ((packet ++ rest).drop 2).take 2 = (packet.drop 2).take 2 := by
  rw [List.drop_append_of_le_length (by omega),
    List.take_append_of_le_length (by rw [List.length_drop]; omega)]

theorem refused_append {packet : List UInt8} (hne : packet ≠ []) (rest : List UInt8) :
    Refused (packet ++ rest) packet.length ↔ Refused packet packet.length := by
  unfold Refused
  rw [commandOf_append hne]
  cases commandOf packet with
  | none => exact Iff.rfl
  | some c =>
    by_cases hshort : packet.length < c.headSize
    · exact iff_of_true (.inl hshort) (.inl hshort)
    · have hhead : 4 ≤ c.headSize := by cases c <;> decide
      simp only [take_drop_append (hhead.trans (not_lt.mp hshort))]

/-- Behind the packet the frame still holds enough bytes for the last half-word of an odd
payload, but not for every breakpoint count. -/
theorem not_overruns_append {packet rest : List UInt8} (hne : packet ≠ [])
    (hframe : (packet ++ rest).length = 64) (hentries : EntriesInFrame packet) :
    ¬ Overruns (packet ++ rest) packet.length := by
  intro h
  have hlen : packet.length ≤ 64 := by
    rw [← hframe, List.length_append]
    exact Nat.le_add_right _ _
  unfold Overruns at h
  rw [commandOf_append hne, hframe] at h
  split at h
  next hc =>
    obtain ⟨hhead, head, -, -, hodd, hend⟩ := h
    have hle : writePayload head packet.length ≤ packet.length - 8 := payloadSize_le _ _ _ _
    have hend' : 64 < 8 + writePayload head packet.length + 1 := hend
    omega
  next hc =>
    obtain ⟨hhead, hcount⟩ := h
    have hle := hentries hc
    rw [take_drop_append hhead] at hcount
    omega
  next => exact h

/-- A packet that no handler refuses, and whose breakpoint entries lie in the frame, is answered:
one reply of 1 to 64 bytes is handed to the IN endpoint. For a packet that is refused the
callback goes into its loop of `nop`s. -/
theorem usbDataOutCallback_answers (packet : List UInt8) (hne : packet ≠ [])
    (hlen : packet.length ≤ 64) (d : Device) :
    (¬ Refused packet packet.length → EntriesInFrame packet →
      ∃ e reply, usbDataOutCallback packet d = .ok (Device.epWritePacket e reply) ∧
        e.inEndpoint = d.inEndpoint ∧ 0 < reply.length ∧ reply.length ≤ 64) ∧
      (Refused packet packet.length → usbDataOutCallback packet d = .error .neverReturns) := by
  have hpos : 0 < packet.length := List.length_pos_iff.mpr hne
  set rest := d.usbCmdFrame.val.drop packet.length with hrest
  set d₁ : Device :=
    { d with usbCmdFrame := d.usbCmdFrame.receive packet, usbInitialized := true } with hd₁
  have hframe : (packet ++ rest).length = 64 := by
    rw [hrest, ← Frame.receive_val _ hlen]
    exact (d.usbCmdFrame.receive packet).property
  have hfits : packet.length ≤ (packet ++ rest).length := by
    rw [hframe]
    exact hlen
  constructor
  · intro hok hentries
    obtain ⟨n, f, e, hdispatch, hn, hn64, hend⟩ := dispatchCommand_sends d.usbAnsFrame d₁ hfits hlen
      (fun h => hok ((refused_append hne rest).mp h)) (not_overruns_append hne hframe hentries)
    have hsize : (f.val.take n).length = n := by
      rw [List.length_take, f.property]
      omega
    exact ⟨{ e with usbAnsFrame := f }, f.val.take n,
      usbDataOutCallback_ok hne hlen hn.ne' hdispatch, hend, by omega, by omega⟩
  · intro href
    have hdispatch := dispatchCommand_refused d.usbAnsFrame d₁ hpos hfits
      ((refused_append hne rest).mpr href)
    rw [← Frame.receive_val _ hlen] at hdispatch
    unfold usbDataOutCallback
    simp only [List.take_of_length_le hlen, hpos.ne', if_false]
    rw [bind_of_ok hdispatch]
    rfl

/-- A request for registers 15 and 16. -/
theorem usbDataOutCallback_answers_regsRead :
    ∃ e reply, usbDataOutCallback [2, 2, 15, 0] (.initial blankMemory bootSymbols) =
        .ok (Device.epWritePacket e reply) ∧
      e.inEndpoint = none ∧ 0 < reply.length ∧ reply.length ≤ 64 :=
  (usbDataOutCallback_answers [2, 2, 15, 0] (by decide) (by decide) _).1 (by decide) (by decide)

/-- One byte that is no command. -/
theorem usbDataOutCallback_wedges :
    usbDataOutCallback [8] (.initial blankMemory bootSymbols) = .error .neverReturns := by
  rfl

end BluePill
