import BluePill.Firmware.PacketBounds

/-! The words of the saved context that a register packet touches. `maxRegIndex` is the number of
words of `ArmRegisters`, and the handlers take it for the last index. -/
namespace BluePill
open Lib

def readRegTraced (context : ContextData) (index : ℕ) : Except Fault (ℕ × UInt32) := do
  let word ← readReg context index
  return (index, word)

def writeRegTraced (s : ContextData × List ℕ) (index : ℕ) (value : UInt32) :
    Except Fault (ContextData × List ℕ) := do
  let context ← writeReg s.1 index value
  return (context, s.2 ++ [index])

/-- `regsReadCommand` with the indices that it reads, in order. -/
def regsReadTraced (inBuf : List UInt8) (inSize : ℕ) (outBuf : Frame) (outSize : ℕ)
    (d : Device) : Except Fault (List ℕ × ℕ × Frame × Device) := do
  if !(← dbgHeadValid RegReadWriteHead.size inBuf inSize .regsRead) then
    return ([], 0, outBuf, d)
  let cmdHead ← readHead RegReadWriteHead.decode inBuf
  let bytesToRead := payloadSize RegReadWriteHead.size outSize (cmdHead.regCount.toNat * 4) 4
  let regOffset := cmdHead.regIndex
  if regOffset > maxRegIndex then return ([], 0, outBuf, d)
  let maxRegsToRead := maxRegIndex - regOffset + 1
  let regsToRead := if bytesToRead / 4 < maxRegsToRead then bytesToRead / 4 else maxRegsToRead
  let read ← (List.range regsToRead).mapM fun index =>
    readRegTraced d.context (index + regOffset)
  let words := read.map Prod.snd
  let outBuf ← outBuf.store RegReadWriteHead.size (words.flatMap fun v => toLE 4 v.toNat)
  let ansHead : RegReadWriteHead :=
    ⟨DebugCommand.regsRead.toByte, UInt8.ofNat regsToRead, regOffset⟩
  let outBuf ← outBuf.store 0 ansHead.encode
  return (read.map Prod.fst, RegReadWriteHead.size + bytesToRead, outBuf, d)

/-- `regsWriteCommand` with the indices that it writes, in order. -/
def regsWriteTraced (inBuf : List UInt8) (inSize : ℕ) (outBuf : Frame) (_outSize : ℕ)
    (d : Device) : Except Fault (List ℕ × ℕ × Frame × Device) := do
  if !(← dbgHeadValid RegReadWriteHead.size inBuf inSize .regsWrite) then
    return ([], 0, outBuf, d)
  let cmdHead ← readHead RegReadWriteHead.decode inBuf
  let bytesToWrite := payloadSize RegReadWriteHead.size inSize (cmdHead.regCount.toNat * 4) 4
  let regOffset := cmdHead.regIndex
  if regOffset > maxRegIndex then return ([], 0, outBuf, d)
  let maxRegsToWrite := maxRegIndex - regOffset + 1
  let regsToWrite :=
    if bytesToWrite / 4 < maxRegsToWrite then bytesToWrite / 4 else maxRegsToWrite
  let written ← (List.range regsToWrite).foldlM (fun s index => do
    let word ← readBytes inBuf (RegReadWriteHead.size + 4 * index) 4
    writeRegTraced s (index + regOffset) (UInt32.ofNat (ofLE word))) (d.context, [])
  let ansHead : RegReadWriteHead :=
    ⟨DebugCommand.regsWrite.toByte, UInt8.ofNat regsToWrite, regOffset⟩
  let outBuf ← outBuf.store 0 ansHead.encode
  return (written.2, RegReadWriteHead.size, outBuf, { d with context := written.1 })

theorem exists_of_erase {α : Type} {x : Except Fault (List ℕ × α)} {r : α}
    (h : Prod.snd <$> x = .ok r) : ∃ touched, x = .ok (touched, r) := by
  cases x with
  | error fault => cases h
  | ok t => exact ⟨t.1, congrArg (fun r => Except.ok (t.1, r)) (Except.ok.inj h)⟩

variable (inBuf : List UInt8) (inSize : ℕ) (outBuf : Frame) (outSize : ℕ) (d : Device)

theorem mapM_readRegTraced_snd (context : ContextData) (i : ℕ) (l : List ℕ) :
    List.map Prod.snd <$> (l.mapM fun index => readRegTraced context (index + i)) =
      l.mapM fun index => readReg context (index + i) := by
  induction l with
  | nil => rfl
  | cons index l ih =>
    rw [List.mapM_cons, List.mapM_cons, ← ih, readRegTraced]
    cases readReg context (index + i) with
    | error fault => rfl
    | ok word => cases l.mapM fun index => readRegTraced context (index + i) <;> rfl

theorem foldlM_writeRegTraced_fst (i : ℕ) (l : List ℕ) (context : ContextData)
    (written : List ℕ) :
    Prod.fst <$> l.foldlM (fun s index => do
      let word ← readBytes inBuf (RegReadWriteHead.size + 4 * index) 4
      writeRegTraced s (index + i) (UInt32.ofNat (ofLE word))) (context, written) =
    l.foldlM (fun context index => do
      let word ← readBytes inBuf (RegReadWriteHead.size + 4 * index) 4
      writeReg context (index + i) (UInt32.ofNat (ofLE word))) context := by
  induction l generalizing context written with
  | nil => rfl
  | cons index l ih =>
    rw [List.foldlM_cons, List.foldlM_cons]
    cases readBytes inBuf (RegReadWriteHead.size + 4 * index) 4 with
    | error fault => rfl
    | ok word =>
      unfold writeRegTraced
      simp only [bind, Except.bind]
      cases writeReg context (index + i) (UInt32.ofNat (ofLE word)) with
      | error fault => rfl
      | ok context' => exact ih context' (written ++ [index + i])

theorem regsReadTraced_erase :
    Prod.snd <$> regsReadTraced inBuf inSize outBuf outSize d =
      regsReadCommand inBuf inSize outBuf outSize d := by
  unfold regsReadTraced regsReadCommand
  rcases dbgHeadValid RegReadWriteHead.size inBuf inSize .regsRead with fault | _ | _
  · rfl
  · rfl
  cases readHead RegReadWriteHead.decode inBuf with
  | error fault => rfl
  | ok cmdHead =>
    simp only [bind, Except.bind, Bool.not_true, Bool.false_eq_true, if_false]
    by_cases hrefused : cmdHead.regIndex > maxRegIndex
    · rw [if_pos hrefused, if_pos hrefused]
      rfl
    rw [if_neg hrefused, if_neg hrefused, ← mapM_readRegTraced_snd]
    generalize List.mapM (fun index => readRegTraced d.context (index + cmdHead.regIndex)) _ = read
    cases read with
    | error fault => rfl
    | ok read =>
      simp only [Functor.map, Except.map]
      cases outBuf.store RegReadWriteHead.size _ with
      | error fault => rfl
      | ok f =>
        simp only
        cases f.store 0 _ <;> rfl

theorem regsWriteTraced_erase :
    Prod.snd <$> regsWriteTraced inBuf inSize outBuf outSize d =
      regsWriteCommand inBuf inSize outBuf outSize d := by
  unfold regsWriteTraced regsWriteCommand
  rcases dbgHeadValid RegReadWriteHead.size inBuf inSize .regsWrite with fault | _ | _
  · rfl
  · rfl
  cases readHead RegReadWriteHead.decode inBuf with
  | error fault => rfl
  | ok cmdHead =>
    rw [bind_of_ok rfl, bind_of_ok rfl, bind_of_ok rfl, bind_of_ok rfl]
    simp only [Bool.not_true, Bool.false_eq_true, if_false]
    by_cases hrefused : cmdHead.regIndex > maxRegIndex
    · rw [if_pos hrefused, if_pos hrefused]
      rfl
    rw [if_neg hrefused, if_neg hrefused, ← foldlM_writeRegTraced_fst inBuf _ _ _ []]
    generalize List.foldlM (fun s index => do
      let word ← readBytes inBuf (RegReadWriteHead.size + 4 * index) 4
      writeRegTraced s (index + cmdHead.regIndex) (UInt32.ofNat (ofLE word))) _ _ = written
    cases written with
    | error fault => rfl
    | ok written =>
      simp only [Functor.map, Except.map, bind, Except.bind]
      cases outBuf.store 0 _ <;> rfl

theorem regsReadTraced_touches {head : RegReadWriteHead}
    (hvalid : dbgHeadValid RegReadWriteHead.size inBuf inSize .regsRead = .ok true)
    (hread : readHead RegReadWriteHead.decode inBuf = .ok head) (hi : head.regIndex ≤ maxRegIndex) :
    Ensures (regsReadTraced inBuf inSize outBuf 64 d) fun r =>
      r.1 = (List.range (regsAnswered head.regIndex head.regCount.toNat)).map
        (· + head.regIndex) := by
  have hmax : maxRegIndex = 17 := rfl
  set i := head.regIndex with hidef
  set n := head.regCount.toNat with hn
  have hpayload : payloadSize RegReadWriteHead.size 64 (n * 4) 4 = min 60 (n * 4) :=
    payloadSize_regs n (by decide) le_rfl (by decide)
  have hregs : (if min 60 (n * 4) / 4 < maxRegIndex - i + 1 then min 60 (n * 4) / 4
      else maxRegIndex - i + 1) = regsAnswered i n := by
    rw [regsAnswered, hmax]
    split_ifs <;> omega
  have hwords : (List.range (regsAnswered i n)).mapM
      (fun index => readRegTraced d.context (index + i)) =
      .ok ((List.range (regsAnswered i n)).map fun index =>
        (index + i, savedReg d.context (index + i))) := by
    refine mapM_ok fun index hindex => bind_of_ok (readReg_ok d.context ?_)
    have hlt := List.mem_range.mp hindex
    rw [regsAnswered] at hlt
    omega
  unfold regsReadTraced
  rw [bind_of_ok hvalid]
  simp only [Bool.not_true, Bool.false_eq_true, if_false]
  rw [bind_of_ok hread]
  simp only [← hidef, ← hn, hpayload, hregs]
  rw [if_neg (by omega), bind_of_ok hwords]
  refine (Ensures.any _).bind fun _ _ => (Ensures.any _).bind fun _ _ => Ensures.ok ?_
  rw [List.map_map]
  rfl

theorem foldlM_writeRegTraced_touches (i : ℕ) (l : List ℕ) (context : ContextData)
    (written : List ℕ) :
    Ensures (l.foldlM (fun s index => do
      let word ← readBytes inBuf (RegReadWriteHead.size + 4 * index) 4
      writeRegTraced s (index + i) (UInt32.ofNat (ofLE word))) (context, written))
      fun s => s.2 = written ++ l.map (· + i) := by
  induction l generalizing context written with
  | nil => exact Ensures.ok (List.append_nil written).symm
  | cons index l ih =>
    rw [List.foldlM_cons]
    have hstep : Ensures (do
        let word ← readBytes inBuf (RegReadWriteHead.size + 4 * index) 4
        writeRegTraced (context, written) (index + i) (UInt32.ofNat (ofLE word)))
        fun s => s.2 = written ++ [index + i] :=
      (Ensures.any _).bind fun _ _ => (Ensures.any _).bind fun _ _ => Ensures.ok rfl
    refine hstep.bind fun s hs => ?_
    obtain ⟨context', written'⟩ := s
    obtain rfl : written' = written ++ [index + i] := hs
    refine (ih context' (written ++ [index + i])).mono fun s hs => ?_
    rw [hs, List.map_cons, List.append_assoc, List.singleton_append]

theorem regsWriteTraced_touches {head : RegReadWriteHead}
    (hvalid : dbgHeadValid RegReadWriteHead.size inBuf inSize .regsWrite = .ok true)
    (hread : readHead RegReadWriteHead.decode inBuf = .ok head) (hi : head.regIndex ≤ maxRegIndex) :
    Ensures (regsWriteTraced inBuf inSize outBuf 64 d) fun r =>
      r.1 = (List.range (regsWritten inSize head.regIndex head.regCount.toNat)).map
        (· + head.regIndex) := by
  have hmax : maxRegIndex = 17 := rfl
  set i := head.regIndex with hidef
  set n := head.regCount.toNat with hn
  set p := payloadSize RegReadWriteHead.size inSize (n * 4) 4 with hp
  have hregs : (if p / 4 < maxRegIndex - i + 1 then p / 4 else maxRegIndex - i + 1) =
      regsWritten inSize i n := by
    rw [regsWritten, ← hp, hmax]
    split_ifs <;> omega
  unfold regsWriteTraced
  rw [bind_of_ok hvalid]
  simp only [Bool.not_true, Bool.false_eq_true, if_false]
  rw [bind_of_ok hread]
  simp only [← hidef, ← hn, ← hp, hregs]
  rw [if_neg (by omega)]
  refine (foldlM_writeRegTraced_touches inBuf i _ d.context []).bind fun s hs =>
    (Ensures.any _).bind fun _ _ => Ensures.ok ?_
  rw [hs, List.nil_append]

/-- A RegsRead or RegsWrite packet of `size` bytes at the front of the command frame. -/
structure RegsPacket where
  frame : Frame
  size : ℕ
  head : RegReadWriteHead
  size_le : size ≤ 64
  decodes : RegReadWriteHead.decode frame.val = some head
  cmd : head.cmd = DebugCommand.regsRead.toByte ∨ head.cmd = DebugCommand.regsWrite.toByte

namespace RegsPacket

/-- The handler of the packet, with the context words that it touches. -/
def handle (p : RegsPacket) (outBuf : Frame) (d : Device) :
    Except Fault (List ℕ × ℕ × Frame × Device) :=
  if p.head.cmd = DebugCommand.regsRead.toByte then
    regsReadTraced p.frame.val p.size outBuf 64 d
  else regsWriteTraced p.frame.val p.size outBuf 64 d

/-- No room for its head, or a register that is refused. -/
def Refused (p : RegsPacket) : Prop := p.size < RegReadWriteHead.size ∨ maxRegIndex < p.head.regIndex

/-- The words that fit into the reply, or that the packet has. -/
def words (p : RegsPacket) : ℕ :=
  if p.head.cmd = DebugCommand.regsRead.toByte then min 15 p.head.regCount.toNat
  else min ((p.size - 4) / 4) p.head.regCount.toNat

/-- The handler touches words of the register file only, and a RegsRead reply has as many words as it
announces. -/
def StaysInside (p : RegsPacket) (outBuf : Frame) (d : Device) : Prop :=
  ∃ touched size reply e, p.handle outBuf d = .ok (touched, size, reply, e) ∧
    (∀ j ∈ touched, j < maxRegIndex) ∧
    (p.head.cmd = DebugCommand.regsRead.toByte → size = 0 ∨
      ∃ ans, RegReadWriteHead.decode (reply.val.take size) = some ans ∧
        size = RegReadWriteHead.size + 4 * ans.regCount.toNat)

end RegsPacket

theorem payloadSize_words {maxSize : ℕ} (n : ℕ) (hmin : 4 ≤ maxSize) (hmax : maxSize ≤ 64) :
    payloadSize RegReadWriteHead.size maxSize (n * 4) 4 / 4 = min ((maxSize - 4) / 4) n := by
  have hhead : ¬ RegReadWriteHead.size > maxSize := not_lt.mpr hmin
  have halign : getValidatedAlign 4 = 4 := rfl
  have hword : ∀ q ≤ 64, q &&& alignMask 4 = q / 4 * 4 := fun q hq => and_alignMask .word (by omega)
  simp only [payloadSize, hhead, if_false, halign]
  show ((if maxSize - 4 < n * 4 then maxSize - 4 else n * 4) &&& alignMask 4) / 4 = _
  split_ifs <;> rw [hword _ (by omega)] <;> omega

theorem touched_lt_iff {i w : ℕ} (hi : i ≤ maxRegIndex) :
    (∀ j ∈ (List.range (min w (18 - i))).map (· + i), j < maxRegIndex) ↔ i + w ≤ maxRegIndex := by
  have hmax : maxRegIndex = 17 := rfl
  constructor
  · intro hall
    by_contra hover
    have hlast := hall 17 (List.mem_map.mpr ⟨17 - i, List.mem_range.mpr (by omega), by omega⟩)
    omega
  · intro hle j hj
    obtain ⟨k, hk, rfl⟩ := List.mem_map.mp hj
    have hlt := List.mem_range.mp hk
    omega

namespace RegsPacket

variable (p : RegsPacket)

theorem readHead_eq : readHead RegReadWriteHead.decode p.frame.val = .ok p.head := by
  rw [readHead, p.decodes]

theorem commandOf_frame {c : DebugCommand} (hc : p.head.cmd = c.toByte) :
    commandOf p.frame.val = some c := by
  match hframe : p.frame.val, p.decodes with
  | b :: n :: i₀ :: i₁ :: rest, hdecode =>
    have hb : b = p.head.cmd := congrArg RegReadWriteHead.cmd (Option.some.inj hdecode)
    show DebugCommand.ofByte b = some c
    rw [hb, hc, DebugCommand.ofByte_toByte]

theorem headValid (hsize : RegReadWriteHead.size ≤ p.size) {c : DebugCommand}
    (hc : p.head.cmd = c.toByte) :
    dbgHeadValid RegReadWriteHead.size p.frame.val p.size c = .ok true :=
  dbgHeadValid_command (p.commandOf_frame hc) hsize

/-- The traced handlers are those of the dispatcher. -/
theorem handle_erase :
    Prod.snd <$> p.handle outBuf d = dispatchCommand p.frame.val p.size outBuf d := by
  unfold handle
  split_ifs with hread
  · rw [dispatchCommand_eq outBuf d (p.commandOf_frame hread)]
    exact regsReadTraced_erase _ _ _ _ _
  · rw [dispatchCommand_eq outBuf d (p.commandOf_frame (p.cmd.resolve_left hread))]
    exact regsWriteTraced_erase _ _ _ _ _

theorem handle_refused (h : p.Refused) : p.handle outBuf d = .ok ([], 0, outBuf, d) := by
  have hread := p.readHead_eq
  unfold handle
  rcases p.cmd with hc | hc
  · rw [if_pos hc]
    unfold regsReadTraced
    by_cases hshort : p.size < RegReadWriteHead.size
    · exact (bind_of_ok (dbgHeadValid_short p.frame.val .regsRead hshort)).trans rfl
    · rw [bind_of_ok (p.headValid (not_lt.mp hshort) hc)]
      simp only [Bool.not_true, Bool.false_eq_true, if_false]
      rw [bind_of_ok hread]
      exact if_pos (h.resolve_left hshort)
  · have hne : ¬ p.head.cmd = DebugCommand.regsRead.toByte := by
      rw [hc]
      decide
    rw [if_neg hne]
    unfold regsWriteTraced
    by_cases hshort : p.size < RegReadWriteHead.size
    · exact (bind_of_ok (dbgHeadValid_short p.frame.val .regsWrite hshort)).trans rfl
    · rw [bind_of_ok (p.headValid (not_lt.mp hshort) hc)]
      simp only [Bool.not_true, Bool.false_eq_true, if_false]
      rw [bind_of_ok hread]
      exact if_pos (h.resolve_left hshort)

/-- A RegsRead packet that is not refused touches its words up to the one behind the register file,
and announces as many; its reply has room for all of its words. -/
theorem handle_read (h : ¬ p.Refused) (hc : p.head.cmd = DebugCommand.regsRead.toByte) :
    ∃ reply e ans, p.handle outBuf d = .ok ((List.range
        (min p.words (18 - p.head.regIndex))).map (· + p.head.regIndex),
          RegReadWriteHead.size + 4 * p.words, reply, e) ∧
      RegReadWriteHead.decode (reply.val.take (RegReadWriteHead.size + 4 * p.words)) = some ans ∧
      ans.regCount.toNat = min p.words (18 - p.head.regIndex) := by
  obtain ⟨hsize, hi⟩ := not_or.mp h
  have hi : p.head.regIndex ≤ maxRegIndex := not_lt.mp hi
  have hmax : maxRegIndex = 17 := rfl
  have hvalid := p.headValid (not_lt.mp hsize) hc
  have hread := p.readHead_eq
  have hwords : p.words = min 15 p.head.regCount.toNat := if_pos hc
  have hanswered : regsAnswered p.head.regIndex p.head.regCount.toNat =
      min p.words (18 - p.head.regIndex) := by
    rw [regsAnswered, hwords]
    omega
  obtain ⟨g, hg, htake⟩ := regsReadCommand_ok d outBuf p.head hvalid hread hi
  have hbytes : 4 + min 60 (p.head.regCount.toNat * 4) = RegReadWriteHead.size + 4 * p.words := by
    show _ = 4 + 4 * p.words
    omega
  rw [hanswered] at htake
  rw [hbytes] at hg
  set k := min p.words (18 - p.head.regIndex) with hk
  set ans := regHeadFor .regsRead p.head.regIndex k with hans
  have herase := regsReadTraced_erase p.frame.val p.size outBuf 64 d
  rw [hg] at herase
  obtain ⟨touched, htraced⟩ := exists_of_erase herase
  have htouched := regsReadTraced_touches p.frame.val p.size outBuf d hvalid hread hi _ htraced
  rw [hanswered] at htouched
  refine ⟨g, d, ans, ?_, ?_, ?_⟩
  · rw [← htouched]
    exact (if_pos hc).trans htraced
  · have hfront : (g.val.take (RegReadWriteHead.size + 4 * p.words)).take 4 = ans.encode := by
      have hfour := congrArg (List.take 4) htake
      rw [List.take_left' (RegReadWriteHead.encode_length ans), List.take_take,
        Nat.min_eq_left (by omega)] at hfour
      rw [List.take_take, Nat.min_eq_left (show 4 ≤ 4 + 4 * p.words by omega)]
      exact hfour
    rw [← List.take_append_drop 4 (g.val.take (RegReadWriteHead.size + 4 * p.words)), hfront]
    exact RegReadWriteHead.decode_encode ans _ (show p.head.regIndex < 65536 by omega)
  · show (UInt8.ofNat k).toNat = k
    rw [UInt8.toNat_ofNat']
    omega

theorem handle_write (h : ¬ p.Refused) (hc : p.head.cmd = DebugCommand.regsWrite.toByte) :
    ∃ size reply e, p.handle outBuf d = .ok ((List.range
        (min p.words (18 - p.head.regIndex))).map (· + p.head.regIndex), size, reply, e) := by
  obtain ⟨hsize, hi⟩ := not_or.mp h
  have hsize : RegReadWriteHead.size ≤ p.size := not_lt.mp hsize
  have hi : p.head.regIndex ≤ maxRegIndex := not_lt.mp hi
  have hframe : p.frame.val.length = 64 := p.frame.property
  have hfits : p.size ≤ p.frame.val.length := by
    rw [hframe]
    exact p.size_le
  have hvalid := p.headValid hsize hc
  have hread := p.readHead_eq
  have hne : ¬ p.head.cmd = DebugCommand.regsRead.toByte := by
    rw [hc]
    decide
  have hwritten : regsWritten p.size p.head.regIndex p.head.regCount.toNat =
      min p.words (18 - p.head.regIndex) := by
    rw [regsWritten, payloadSize_words _ hsize p.size_le, words, if_neg hne]
  obtain ⟨g, e, hg⟩ : ∃ g e, regsWriteCommand p.frame.val p.size outBuf 64 d = .ok (4, g, e) := by
    obtain ⟨g, hg, -⟩ := regsWriteCommand_ok d outBuf p.head p.frame.val hsize hfits hvalid hread hi
    exact ⟨g, _, hg⟩
  have herase := regsWriteTraced_erase p.frame.val p.size outBuf 64 d
  rw [hg] at herase
  obtain ⟨touched, htraced⟩ := exists_of_erase herase
  have htouched := regsWriteTraced_touches p.frame.val p.size outBuf d hvalid hread hi _ htraced
  rw [hwritten] at htouched
  refine ⟨4, g, e, (if_neg hne).trans (htraced.trans ?_)⟩
  rw [← htouched]

/-- The handlers stay in the register file when the packet is refused or ends in it. -/
theorem staysInside_iff : p.StaysInside outBuf d ↔
    p.Refused ∨ p.head.regIndex + p.words ≤ maxRegIndex := by
  have hmax : maxRegIndex = 17 := rfl
  by_cases hrefused : p.Refused
  · refine iff_of_true ⟨[], 0, outBuf, d, p.handle_refused outBuf d hrefused, ?_, fun _ => .inl rfl⟩
      (.inl hrefused)
    exact fun j hj => absurd hj List.not_mem_nil
  have hi : p.head.regIndex ≤ maxRegIndex := not_lt.mp (not_or.mp hrefused).2
  rw [or_iff_right hrefused]
  rcases p.cmd with hc | hc
  · obtain ⟨reply, e, ans, hrun, hdecode, hcount⟩ := p.handle_read outBuf d hrefused hc
    constructor
    · rintro ⟨touched, size, reply', e', hrun', hinside, -⟩
      obtain ⟨rfl, -⟩ := Prod.mk.inj (Except.ok.inj (hrun.symm.trans hrun'))
      exact (touched_lt_iff hi).mp hinside
    · intro hend
      refine ⟨_, _, reply, e, hrun, (touched_lt_iff hi).mpr hend, fun _ => .inr ⟨ans, hdecode, ?_⟩⟩
      rw [hcount, Nat.min_eq_left (by omega)]
  · obtain ⟨size, reply, e, hrun⟩ := p.handle_write outBuf d hrefused hc
    constructor
    · rintro ⟨touched, size', reply', e', hrun', hinside, -⟩
      obtain ⟨rfl, -⟩ := Prod.mk.inj (Except.ok.inj (hrun.symm.trans hrun'))
      exact (touched_lt_iff hi).mp hinside
    · intro hend
      refine ⟨_, size, reply, e, hrun, (touched_lt_iff hi).mpr hend, fun hread => ?_⟩
      rw [hc] at hread
      exact absurd hread (by decide)

/-- One register from number 17 on. -/
def behindFile : RegsPacket where
  frame := Frame.zero.receive [DebugCommand.regsRead.toByte, 1, 17, 0]
  size := 4
  head := ⟨DebugCommand.regsRead.toByte, 1, 17⟩
  size_le := by decide
  decodes := rfl
  cmd := .inl rfl

/-- The word behind the register file is read. -/
theorem not_staysInside :
    ¬ behindFile.StaysInside Frame.zero (Device.initial blankMemory bootSymbols) := by
  rintro ⟨touched, size, reply, e, hrun, hinside, -⟩
  have hrefused : ¬ behindFile.Refused := not_or.mpr ⟨by decide, by decide⟩
  obtain ⟨reply', e', ans, hrun', -⟩ := behindFile.handle_read Frame.zero
    (Device.initial blankMemory bootSymbols) hrefused rfl
  obtain ⟨rfl, -⟩ := Prod.mk.inj (Except.ok.inj (hrun'.symm.trans hrun))
  exact absurd (hinside 17 (by decide)) (by decide)

end RegsPacket

end BluePill
