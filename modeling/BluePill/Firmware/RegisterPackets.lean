import BluePill.Firmware.MemoryPackets

/-! What the firmware does with a register packet: the saved context is read and written word by
word, up to one word behind the register file. -/
namespace BluePill
open Lib

/-- The word `i` of the saved context. -/
def savedReg (context : ContextData) (i : ℕ) : UInt32 := context[i]?.getD 0

theorem readReg_ok (context : ContextData) {i : ℕ} (h : i < 19) :
    readReg context i = .ok (savedReg context i) := by
  rw [readReg, dif_pos h, savedReg, Vector.getElem?_eq_getElem h, Option.getD_some]

theorem writeReg_ok (context : ContextData) {i : ℕ} (v : UInt32) (h : i < 19) :
    writeReg context i v = .ok (context.set i v) := dif_pos h

@[simp] theorem savedReg_set_self (context : ContextData) {i : ℕ} (v : UInt32) (h : i < 19) :
    savedReg (context.set i v) i = v := by
  rw [savedReg, Vector.getElem?_set_self, Option.getD_some]

@[simp] theorem savedReg_set_ne (context : ContextData) {i j : ℕ} (v : UInt32) (h : i < 19)
    (hne : i ≠ j) : savedReg (context.set i v) j = savedReg context j := by
  rw [savedReg, savedReg, Vector.getElem?_set_ne h hne]

theorem savedReg_ext {context context' : ContextData}
    (h : ∀ i < 19, savedReg context i = savedReg context' i) : context = context' := by
  apply Vector.ext
  intro i hi
  have hreg := h i hi
  rwa [savedReg, savedReg, Vector.getElem?_eq_getElem hi, Vector.getElem?_eq_getElem hi] at hreg

/-- The little-endian bytes of the context words `[off, off + n)`. -/
def regBytes (context : ContextData) (off n : ℕ) : List UInt8 :=
  (List.range n).flatMap fun i => toLE 4 (savedReg context (i + off)).toNat

@[simp] theorem regBytes_length (context : ContextData) (off n : ℕ) :
    (regBytes context off n).length = 4 * n := by
  simp [regBytes, List.length_flatMap, Nat.mul_comm]

/-- A register packet without words. -/
def regHeadFor (cmd : DebugCommand) (i n : ℕ) : RegReadWriteHead :=
  ⟨cmd.toByte, UInt8.ofNat n, i⟩

@[simp] theorem RegReadWriteHead.encode_length (h : RegReadWriteHead) : h.encode.length = 4 := by
  simp [encode]

theorem RegReadWriteHead.decode_encode (h : RegReadWriteHead) (rest : List UInt8)
    (hi : h.regIndex < 65536) : decode (h.encode ++ rest) = some h := by
  have hi' := ofLE_toLE_of_lt (w := 2) (by simpa using hi)
  simp only [toLE] at hi'
  simp only [encode, toLE, List.cons_append, List.nil_append, decode, hi']

theorem payloadSize_regs {maxSize : ℕ} (n : ℕ) (hmin : 4 ≤ maxSize) (hmax : maxSize ≤ 64)
    (hdvd : 4 ∣ maxSize) :
    payloadSize RegReadWriteHead.size maxSize (n * 4) 4 = min (maxSize - 4) (n * 4) := by
  have hle : ∀ p, p ≤ 64 → p &&& alignMask 4 = p / 4 * 4 := fun p hp =>
    and_alignMask .word (by omega)
  have hhead : ¬ RegReadWriteHead.size > maxSize := not_lt.mpr hmin
  have halign : getValidatedAlign 4 = 4 := rfl
  simp only [payloadSize, hhead, if_false, halign]
  show (if maxSize - 4 < n * 4 then maxSize - 4 else n * 4) &&& alignMask 4 = _
  split_ifs
  · rw [hle _ (by omega)]
    omega
  · rw [hle _ (by omega)]
    omega

theorem readHead_reg (head : RegReadWriteHead) (rest : List UInt8) (hi : head.regIndex < 65536) :
    readHead RegReadWriteHead.decode (head.encode ++ rest) = .ok head := by
  rw [readHead, RegReadWriteHead.decode_encode head rest hi]

theorem dbgHeadValid_reg (head : RegReadWriteHead) (rest : List UInt8) {inSize : ℕ}
    (hsize : RegReadWriteHead.size ≤ inSize) (cmd : DebugCommand) (hcmd : head.cmd = cmd.toByte) :
    dbgHeadValid RegReadWriteHead.size (head.encode ++ rest) inSize cmd = .ok true := by
  simp only [dbgHeadValid, not_lt.mpr hsize, if_false, RegReadWriteHead.encode, List.cons_append,
    hcmd, beq_self_eq_true]

/-- The words that a request for `n` words from `i` on gets: what fits into the reply, and into
the file with one word behind it. -/
def regsAnswered (i n : ℕ) : ℕ := min (min 60 (n * 4) / 4) (18 - i)

theorem regsRead_ok (context : ContextData) {i k : ℕ} (h : k + i ≤ 19) :
    (List.range k).mapM (fun index => readReg context (index + i)) =
      .ok ((List.range k).map fun index => savedReg context (index + i)) := by
  refine mapM_ok fun index hindex => readReg_ok context ?_
  have hlt := List.mem_range.mp hindex
  omega

/-- The handler answers with the words from `regIndex` on; the size it reports is that of the
words asked for. -/
theorem regsReadCommand_ok (d : Device) (outBuf : Frame) (head : RegReadWriteHead)
    {inBuf : List UInt8} {inSize : ℕ}
    (hvalid : dbgHeadValid RegReadWriteHead.size inBuf inSize .regsRead = .ok true)
    (hread : readHead RegReadWriteHead.decode inBuf = .ok head)
    (hi : head.regIndex ≤ maxRegIndex) :
    ∃ g : Frame, regsReadCommand inBuf inSize outBuf 64 d =
        .ok (4 + min 60 (head.regCount.toNat * 4), g, d) ∧
      g.val.take (4 + 4 * regsAnswered head.regIndex head.regCount.toNat) =
        (regHeadFor .regsRead head.regIndex
          (regsAnswered head.regIndex head.regCount.toNat)).encode ++
        regBytes d.context head.regIndex (regsAnswered head.regIndex head.regCount.toNat) := by
  have hmax : maxRegIndex = 17 := rfl
  set i := head.regIndex with hidef
  set n := head.regCount.toNat with hn
  set k := regsAnswered i n with hk
  have hpayload : payloadSize RegReadWriteHead.size 64 (n * 4) 4 = min 60 (n * 4) :=
    payloadSize_regs n (by decide) le_rfl (by decide)
  have hregs : (if min 60 (n * 4) / 4 < maxRegIndex - i + 1 then min 60 (n * 4) / 4
      else maxRegIndex - i + 1) = k := by
    rw [hk, regsAnswered, hmax]
    split_ifs <;> omega
  have hkle : k ≤ 15 ∧ k + i ≤ 18 := by
    rw [hk, regsAnswered]
    omega
  have hwords : ((List.range k).map fun index => savedReg d.context (index + i)).flatMap
      (fun v => toLE 4 v.toNat) = regBytes d.context i k := by
    rw [regBytes, List.flatMap_map]
  obtain ⟨f, hf, hfval⟩ := outBuf.store_ok 4 (regBytes d.context i k)
    (by rw [regBytes_length]; omega)
  set ansHead := regHeadFor .regsRead i k with hans
  have hlen : ansHead.encode.length = 4 := RegReadWriteHead.encode_length _
  obtain ⟨g, hg, hgval⟩ := store_zero_ok f ansHead.encode (by rw [hlen]; decide)
  have hstore : f.store 0 (RegReadWriteHead.mk DebugCommand.regsRead.toByte (UInt8.ofNat k)
      i).encode = .ok g := hg
  refine ⟨g, ?_, ?_⟩
  · unfold regsReadCommand
    rw [bind_of_ok hvalid]
    simp only [Bool.not_true, Bool.false_eq_true, if_false]
    rw [bind_of_ok hread]
    simp only [← hidef, ← hn, hpayload, hregs]
    rw [if_neg (by omega), bind_of_ok (regsRead_ok d.context (by omega))]
    simp only [hwords]
    rw [bind_of_ok hf, bind_of_ok hstore]
    rfl
  · have hout : outBuf.val.length = 64 := outBuf.property
    have hbody : (ansHead.encode ++ regBytes d.context i k).length = 4 + 4 * k := by
      rw [List.length_append, hlen, regBytes_length]
    have hfront : (outBuf.val.take 4).length = 4 := by
      rw [List.length_take, hout]
      decide
    rw [hgval, hlen, hfval, List.append_assoc, List.drop_left' hfront, ← List.append_assoc,
      List.take_left' hbody]

theorem set_eq_setIfInBounds (context : ContextData) {i : ℕ} (v : UInt32) (h : i < 19) :
    context.set i v = context.setIfInBounds i v := by
  apply Vector.ext
  intro j hj
  rw [Vector.getElem_set, Vector.getElem_setIfInBounds]

/-- The context with the words `[off, off + n)` replaced. -/
def putRegs (context : ContextData) (off n : ℕ) (word : ℕ → UInt32) : ContextData :=
  (List.range n).foldl (fun context index => context.setIfInBounds (index + off) (word index)) context

theorem putRegs_succ (context : ContextData) (off n : ℕ) (word : ℕ → UInt32) :
    putRegs context off (n + 1) word =
      (putRegs context off n word).setIfInBounds (n + off) (word n) := by
  rw [putRegs, List.range_succ, List.foldl_append]
  rfl

theorem savedReg_putRegs (context : ContextData) {off n : ℕ} (word : ℕ → UInt32)
    (h : n + off ≤ 19) (j : ℕ) :
    savedReg (putRegs context off n word) j =
      if off ≤ j ∧ j < n + off then word (j - off) else savedReg context j := by
  induction n with
  | zero =>
    rw [if_neg (by omega)]
    rfl
  | succ n ih =>
    rw [putRegs_succ, savedReg, Vector.getElem?_setIfInBounds]
    by_cases hj : n + off = j
    · rw [if_pos hj, if_pos (by omega), if_pos (by omega), Option.getD_some]
      congr 1
      omega
    · rw [if_neg hj]
      refine (ih (by omega)).trans ?_
      by_cases hlt : off ≤ j ∧ j < n + off
      · rw [if_pos hlt, if_pos (by omega)]
      · rw [if_neg hlt, if_neg (by omega)]

/-- The word `index` of the payload of a RegsWrite packet. -/
def payloadWord (inBuf : List UInt8) (index : ℕ) : UInt32 :=
  UInt32.ofNat (ofLE ((inBuf.drop (RegReadWriteHead.size + 4 * index)).take 4))

@[simp] theorem flatMap_words_length (v : List UInt32) :
    (v.flatMap fun w => toLE 4 w.toNat).length = 4 * v.length := by
  induction v with
  | nil => rfl
  | cons w v ih =>
    rw [List.flatMap_cons, List.length_append, ih, toLE_length, List.length_cons]
    omega

theorem take_drop_words (v : List UInt32) {k : ℕ} (rest : List UInt8) (hk : k < v.length) :
    (((v.flatMap fun w => toLE 4 w.toNat) ++ rest).drop (4 * k)).take 4 =
      toLE 4 (v.getD k 0).toNat := by
  induction v generalizing k with
  | nil => exact absurd hk (Nat.not_lt_zero k)
  | cons w v ih =>
    rw [List.flatMap_cons, List.append_assoc]
    cases k with
    | zero => exact List.take_left' (toLE_length _ _)
    | succ k =>
      have hword : (toLE 4 w.toNat).length = 4 := toLE_length _ _
      rw [show 4 * (k + 1) = (toLE 4 w.toNat).length + 4 * k by omega, List.drop_length_add_append]
      exact ih (Nat.lt_of_succ_lt_succ hk)

/-- The payload of a packet that holds the words of `v`. -/
theorem payloadWord_words (head : RegReadWriteHead) (v : List UInt32) (rest : List UInt8) {k : ℕ}
    (hk : k < v.length) :
    payloadWord (head.encode ++ ((v.flatMap fun w => toLE 4 w.toNat) ++ rest)) k = v.getD k 0 := by
  have hlen : head.encode.length = RegReadWriteHead.size := RegReadWriteHead.encode_length _
  rw [payloadWord, ← hlen, List.drop_length_add_append, take_drop_words v rest hk,
    ofLE_toLE_of_lt (v.getD k 0).toNat_lt, UInt32.ofNat_toNat]

theorem putRegs_congr (context : ContextData) (off : ℕ) {n : ℕ} {word word' : ℕ → UInt32}
    (h : ∀ k < n, word k = word' k) : putRegs context off n word = putRegs context off n word' := by
  induction n with
  | zero => rfl
  | succ n ih =>
    rw [putRegs_succ, putRegs_succ, ih fun k hk => h k (Nat.lt_succ_of_lt hk), h n n.lt_succ_self]

/-- The words that a packet of `inSize` bytes for `n` words from `i` on writes. -/
def regsWritten (inSize i n : ℕ) : ℕ :=
  min (payloadSize RegReadWriteHead.size inSize (n * 4) 4 / 4) (18 - i)

theorem regsWriteCommand_ok (d : Device) (outBuf : Frame) (head : RegReadWriteHead)
    (inBuf : List UInt8) {inSize : ℕ} (hsize : RegReadWriteHead.size ≤ inSize)
    (hfits : inSize ≤ inBuf.length)
    (hvalid : dbgHeadValid RegReadWriteHead.size inBuf inSize .regsWrite = .ok true)
    (hread : readHead RegReadWriteHead.decode inBuf = .ok head)
    (hi : head.regIndex ≤ maxRegIndex) :
    ∃ g : Frame, regsWriteCommand inBuf inSize outBuf 64 d = .ok (4, g, { d with
        context := putRegs d.context head.regIndex
          (regsWritten inSize head.regIndex head.regCount.toNat) (payloadWord inBuf) }) ∧
      g.val.take 4 = (regHeadFor .regsWrite head.regIndex
        (regsWritten inSize head.regIndex head.regCount.toNat)).encode := by
  have hmax : maxRegIndex = 17 := rfl
  have hsize' : 4 ≤ inSize := hsize
  set i := head.regIndex with hidef
  set n := head.regCount.toNat with hn
  set p := payloadSize RegReadWriteHead.size inSize (n * 4) 4 with hp
  have hple : p ≤ inSize - 4 := payloadSize_le _ _ _ _
  set k := regsWritten inSize i n with hk
  have hregs : (if p / 4 < maxRegIndex - i + 1 then p / 4 else maxRegIndex - i + 1) = k := by
    rw [hk, regsWritten, ← hp, hmax]
    split_ifs <;> omega
  have hkle : 4 * k ≤ p ∧ k + i ≤ 18 := by
    rw [hk, regsWritten, ← hp]
    omega
  have hfold : (List.range k).foldlM (fun context index => do
      let word ← readBytes inBuf (RegReadWriteHead.size + 4 * index) 4
      writeReg context (index + i) (UInt32.ofNat (ofLE word))) d.context =
      .ok (putRegs d.context i k (payloadWord inBuf)) := by
    refine foldlM_eq_ok ?_ d.context
    intro context index hindex
    have hlt := List.mem_range.mp hindex
    have hin : RegReadWriteHead.size + 4 * index + 4 ≤ inBuf.length := by
      show 4 + 4 * index + 4 ≤ inBuf.length
      omega
    rw [bind_of_ok (show readBytes inBuf _ 4 = _ from if_pos hin),
      writeReg_ok context _ (show index + i < 19 by omega)]
    exact congrArg Except.ok (set_eq_setIfInBounds context _ _)
  set ansHead := regHeadFor .regsWrite i k with hans
  have hlen : ansHead.encode.length = 4 := RegReadWriteHead.encode_length _
  obtain ⟨g, hg, hgval⟩ := store_zero_ok outBuf ansHead.encode (by rw [hlen]; decide)
  have hstore : outBuf.store 0 (RegReadWriteHead.mk DebugCommand.regsWrite.toByte (UInt8.ofNat k)
      i).encode = .ok g := hg
  refine ⟨g, ?_, by rw [hgval, List.take_left' hlen]⟩
  unfold regsWriteCommand
  rw [bind_of_ok hvalid]
  simp only [Bool.not_true, Bool.false_eq_true, if_false]
  rw [bind_of_ok hread]
  simp only [← hidef, ← hn, ← hp, hregs]
  rw [if_neg (by omega), bind_of_ok hfold, bind_of_ok hstore]
  rfl

theorem context_of_target {d e : Device} (h : d.target = e.target) : d.context = e.context := by
  have hcontext : d.target.context = e.target.context := by rw [h]
  exact hcontext

/-- `n` registers of the context, from `i` on, fit into one reply. -/
theorem usbDataOutCallback_regsRead (d : Device) {i n : ℕ} (hn : n ≤ 15) (hi : i ≤ maxRegIndex)
    (hend : n + i ≤ 18) :
    d.Answers (regHeadFor .regsRead i n).encode
      (· = (regHeadFor .regsRead i n).encode ++ regBytes d.context i n) d := by
  set packet := (regHeadFor .regsRead i n).encode with hpacket
  have hmax : maxRegIndex = 17 := rfl
  have hlen : packet.length = 4 := RegReadWriteHead.encode_length _
  have hcount : (regHeadFor .regsRead i n).regCount.toNat = n := by
    show (UInt8.ofNat n).toNat = n
    rw [UInt8.toNat_ofNat']
    omega
  have hanswered : regsAnswered i n = n := by
    rw [regsAnswered]
    omega
  apply answers_of_dispatch (4 + 4 * n) (List.length_pos_iff.mp (by omega)) (by omega) (by omega)
  intro d₀ htarget
  set d₁ : Device :=
    { d₀ with usbCmdFrame := d₀.usbCmdFrame.receive packet, usbInitialized := true }
  have hcontext : d₀.context = d.context := context_of_target htarget
  obtain ⟨g, hg, hval⟩ := regsReadCommand_ok d₁ d₀.usbAnsFrame (regHeadFor .regsRead i n)
    (dbgHeadValid_reg (regHeadFor .regsRead i n) (d₀.usbCmdFrame.val.drop packet.length)
      (show RegReadWriteHead.size ≤ packet.length by rw [hlen]) .regsRead rfl)
    (readHead_reg (regHeadFor .regsRead i n) _ (show i < 65536 by omega)) hi
  have hindex : (regHeadFor .regsRead i n).regIndex = i := rfl
  rw [hcount, hindex, hanswered] at hval
  rw [hcount, show min 60 (n * 4) = 4 * n by omega] at hg
  refine ⟨g, d₁, hg, ?_, rfl, htarget⟩
  rw [hval]
  show _ ++ regBytes d₀.context i n = _
  rw [hcontext]

/-- The words of `v` for the registers from `i` on. -/
theorem usbDataOutCallback_regsWriteAll (d : Device) {i : ℕ} {v : List UInt32} (hv : v.length ≤ 15)
    (hi : i ≤ maxRegIndex) (hend : v.length + i ≤ 18) :
    d.Answers ((regHeadFor .regsWrite i v.length).encode ++ v.flatMap fun w => toLE 4 w.toNat)
      (· = (regHeadFor .regsWrite i v.length).encode)
      { d with context := putRegs d.context i v.length (v.getD · 0) } := by
  set head := regHeadFor .regsWrite i v.length with hhead
  set packet := head.encode ++ v.flatMap (fun w => toLE 4 w.toNat) with hpacket
  have hmax : maxRegIndex = 17 := rfl
  have hwords := flatMap_words_length v
  have hlen : packet.length = 4 + 4 * v.length := by
    rw [hpacket, List.length_append, RegReadWriteHead.encode_length, hwords]
  have hcount : head.regCount.toNat = v.length := by
    show (UInt8.ofNat v.length).toNat = v.length
    rw [UInt8.toNat_ofNat']
    omega
  apply answers_of_dispatch 4 (List.length_pos_iff.mp (by omega)) (by omega) (by decide)
  intro d₀ htarget
  set d₁ : Device :=
    { d₀ with usbCmdFrame := d₀.usbCmdFrame.receive packet, usbInitialized := true }
  set rest := d₀.usbCmdFrame.val.drop packet.length
  have hsize : RegReadWriteHead.size ≤ packet.length := by
    show 4 ≤ packet.length
    omega
  have hinBuf : packet ++ rest =
      head.encode ++ (v.flatMap (fun w => toLE 4 w.toNat) ++ rest) := List.append_assoc _ _ _
  obtain ⟨g, hg, hval⟩ := regsWriteCommand_ok d₁ d₀.usbAnsFrame head (packet ++ rest) hsize
    (by simp only [List.length_append, Nat.le_add_right])
    (by
      rw [hinBuf]
      exact dbgHeadValid_reg head _ hsize .regsWrite rfl)
    (by
      rw [hinBuf]
      exact readHead_reg head _ (show i < 65536 by omega)) hi
  have hwritten : regsWritten packet.length i v.length = v.length := by
    rw [regsWritten, hlen, payloadSize_regs v.length (by omega) (by omega) (by omega)]
    omega
  have hindex : head.regIndex = i := rfl
  rw [hcount, hindex, hwritten] at hg hval
  have hput : putRegs d₀.context i v.length (payloadWord (packet ++ rest)) =
      putRegs d₀.context i v.length (v.getD · 0) := by
    refine putRegs_congr d₀.context i fun k hk => ?_
    rw [hinBuf]
    exact payloadWord_words head v rest hk
  refine ⟨g, { d₁ with context := putRegs d₀.context i v.length (v.getD · 0) }, ?_, hval, rfl, ?_⟩
  · rw [← hput]
    exact hg
  · exact congrArg
      (fun t : Device => { t with context := putRegs t.context i v.length (v.getD · 0) }) htarget

/-- A word for register `i` of the context. -/
theorem usbDataOutCallback_regsWrite (d : Device) {i : ℕ} (v : UInt32) (hi : i ≤ maxRegIndex) :
    d.Answers ((regHeadFor .regsWrite i 1).encode ++ toLE 4 v.toNat)
      (· = (regHeadFor .regsWrite i 1).encode)
      { d with context := d.context.setIfInBounds i v } := by
  have hmax : maxRegIndex = 17 := rfl
  have hall := usbDataOutCallback_regsWriteAll d (v := [v]) (show 1 ≤ 15 by decide) hi (by
    rw [List.length_singleton]
    omega)
  have hput : putRegs d.context i 1 ([v].getD · 0) = d.context.setIfInBounds i v := by
    rw [putRegs_succ, Nat.zero_add]
    rfl
  rw [List.length_singleton, List.flatMap_singleton, hput] at hall
  exact hall

end BluePill
