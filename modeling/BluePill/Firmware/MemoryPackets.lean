import BluePill.Firmware.Replies

/-! What the firmware does with one well-formed memory or flash packet: its reply, what it does
to the target, and which accesses it makes. -/
namespace BluePill
open Lib

@[simp] theorem accessWidth_bytes (w : AccessWidth) : accessWidth w.bytes = w := by
  cases w <;> rfl

@[simp] theorem getValidatedAlign_bytes (w : AccessWidth) :
    getValidatedAlign w.bytes = w.bytes := by
  cases w <;> rfl

theorem and_alignMask (w : AccessWidth) {p : ℕ} (hp : p < 4294967296) :
    p &&& alignMask w.bytes = p / w.bytes * w.bytes := by
  have h2 : p < 2 ^ 32 := by simpa using hp
  cases w
  · exact and_complement_mask (k := 0) (by norm_num) h2
  · exact and_complement_mask (k := 1) (by norm_num) h2
  · exact and_complement_mask (k := 2) (by norm_num) h2

theorem payloadSize_le (headSize maxSize n align : ℕ) :
    payloadSize headSize maxSize n align ≤ maxSize - headSize := by
  unfold payloadSize
  split_ifs with h
  · exact Nat.zero_le _
  · refine Nat.and_le_left.trans ?_
    split_ifs <;> omega

/-- A payload that fits and is a multiple of the element size is taken as it is. -/
theorem payloadSize_eq {w : AccessWidth} {headSize maxSize n : ℕ} (hmax : maxSize < 4294967296)
    (hn : headSize + n ≤ maxSize) (hdvd : w.bytes ∣ n) :
    payloadSize headSize maxSize n w.bytes = n := by
  have hhead : ¬ headSize > maxSize := by omega
  have hfits : ¬ maxSize - headSize < n := by omega
  simp only [payloadSize, hhead, hfits, if_false, getValidatedAlign_bytes]
  rw [and_alignMask w (by omega), Nat.div_mul_cancel hdvd]

/-- The elements of `[a, a + n)` in the order `dbg_memcpy` takes them. -/
def accessList (a : ℕ) (w : AccessWidth) (n : ℕ) : List Access :=
  (List.range (n / w.bytes)).map fun i => ⟨a + i * w.bytes, w.bytes⟩

@[simp] theorem accessList_zero (a : ℕ) (w : AccessWidth) : accessList a w 0 = [] := by
  simp [accessList]

theorem accessList_snoc (a : ℕ) {w : AccessWidth} {n : ℕ} (hdvd : w.bytes ∣ n) :
    accessList a w (n + w.bytes) = accessList a w n ++ [⟨a + n, w.bytes⟩] := by
  rw [accessList, Nat.add_div_right _ w.bytes_pos, List.range_succ, List.map_append,
    List.map_singleton, Nat.div_mul_cancel hdvd]
  rfl

theorem accessList_aligned {a : ℕ} {w : AccessWidth} (n : ℕ) (ha : w.bytes ∣ a) :
    ∀ x ∈ accessList a w n, x.width ∣ x.address := by
  intro x hx
  obtain ⟨i, _, hi⟩ := List.mem_map.mp hx
  subst hi
  exact Dvd.dvd.add ha (Dvd.intro_left i rfl)

/-- What the firmware answers for `[a, a + n)`: one decision for the whole range. -/
def answeredBytes (mem : ℕ → UInt8) (a n : ℕ) : List UInt8 :=
  if InOneRegion a (a + n) then readRange mem a n else List.replicate n 0xFF

@[simp] theorem answeredBytes_length (mem : ℕ → UInt8) (a n : ℕ) :
    (answeredBytes mem a n).length = n := by
  unfold answeredBytes
  split_ifs
  · exact readRange_length mem a n
  · exact List.length_replicate

def answerAccesses (a : ℕ) (w : AccessWidth) (n : ℕ) : List Access :=
  if InOneRegion a (a + n) then accessList a w n else []

theorem answerAccesses_aligned {a : ℕ} {w : AccessWidth} (n : ℕ) (ha : w.bytes ∣ a) :
    ∀ x ∈ answerAccesses a w n, x.width ∣ x.address := by
  unfold answerAccesses
  split_ifs
  · exact accessList_aligned n ha
  · intro x hx
    exact absurd hx List.not_mem_nil

/-- The first `off` bytes of the range have been copied behind the head. -/
structure CopiedFrom (d : Device) (frame : Frame) (a dst : ℕ) (w : AccessWidth) (off : ℕ)
    (s : Frame × Device) : Prop where
  device : s.2 = { d with accesses := d.accesses ++ accessList a w off }
  reply : s.1.val = frame.val.take dst ++ readRange d.mem a off ++ frame.val.drop (dst + off)

theorem CopiedFrom.start (d : Device) (frame : Frame) (a dst : ℕ) (w : AccessWidth) :
    CopiedFrom d frame a dst w 0 (frame, d) := by
  constructor
  · simp
  · simp [readRange]

theorem CopiedFrom.step {d : Device} {frame : Frame} {a dst off : ℕ} {w : AccessWidth}
    {s : Frame × Device} (h : CopiedFrom d frame a dst w off s) (hoff : w.bytes ∣ off)
    (hfits : dst + off + w.bytes ≤ 64) (hwrap : a + off < 4294967296) :
    ∃ s', copyFromTarget a dst w off s = .ok s' ∧ CopiedFrom d frame a dst w (off + w.bytes) s' := by
  have hmem : s.2.mem = d.mem := by rw [h.device]
  have hsrc : (a + off) % 4294967296 = a + off := Nat.mod_eq_of_lt hwrap
  have hlen : frame.val.length = 64 := frame.property
  have hpre : (frame.val.take dst ++ readRange d.mem a off).length = dst + off := by
    rw [List.length_append, List.length_take, readRange_length, hlen]
    omega
  obtain ⟨g, hg, hval⟩ := s.1.store_ok (dst + off) (readRange s.2.mem (a + off) w.bytes)
    (by rw [readRange_length]; omega)
  refine ⟨(g, { s.2 with accesses := s.2.accesses ++ [⟨a + off, w.bytes⟩] }), ?_, ?_, ?_⟩
  · unfold copyFromTarget
    simp only [hsrc]
    rw [bind_of_ok hg]
    rfl
  · show ({ s.2 with accesses := s.2.accesses ++ [⟨a + off, w.bytes⟩] } : Device) = _
    rw [h.device, accessList_snoc a hoff, List.append_assoc]
  · show g.val = _
    have hdrop : (frame.val.take dst ++ readRange d.mem a off ++ frame.val.drop (dst + off)).drop
        (dst + off + w.bytes) = frame.val.drop (dst + (off + w.bytes)) := by
      rw [List.drop_append, hpre, List.drop_eq_nil_of_le (by omega), List.nil_append,
        List.drop_drop]
      congr 1
      omega
    rw [hval, readRange_length, h.reply, List.take_left' hpre, hdrop, hmem, ← readRange_append]
    simp only [List.append_assoc]

/-- The copy loop fills the reply behind its head. -/
theorem dbgMemcpy_fromTarget (d : Device) (frame : Frame) {a dst n : ℕ} {w : AccessWidth}
    (hn : dst + n ≤ 64) (hdvd : w.bytes ∣ n) (hwrap : a + n ≤ 4294967296) :
    ∃ g : Frame, dbgMemcpy (copyFromTarget a dst) n w.bytes (frame, d) =
        .ok (g, { d with accesses := d.accesses ++ accessList a w n }) ∧
      g.val = frame.val.take dst ++ readRange d.mem a n ++ frame.val.drop (dst + n) := by
  unfold dbgMemcpy
  rw [accessWidth_bytes]
  obtain ⟨⟨g, e⟩, hs, hcopied⟩ := dbgMemcpyLoop_invariant (CopiedFrom d frame a dst w) hdvd
    (CopiedFrom.start d frame a dst w) (by
      intro off s h _ hoff hle
      have hpos := w.bytes_pos
      exact h.step hoff (by omega) (by omega))
  rw [Nat.zero_add] at hcopied
  obtain rfl : e = _ := hcopied.device
  exact ⟨g, hs, hcopied.reply⟩

theorem checkMemRegionAccess_and (first last : ℕ) :
    checkMemRegionAccess first last &&& 0x01 ≠ 0 ↔ InOneRegion first last := by
  rw [checkMemRegionAccess_eq]
  split_ifs with h <;> simp [h]

/-- A read packet for `[a, a + n)` in elements of `w`. -/
def readHeadFor (a : ℕ) (w : AccessWidth) (n : ℕ) : MemReadWriteHead :=
  ⟨DebugCommand.memoryRead.toByte, UInt8.ofNat w.bytes, n, a⟩

def writeHeadFor (a : ℕ) (w : AccessWidth) (n : ℕ) : MemReadWriteHead :=
  ⟨DebugCommand.memoryWrite.toByte, UInt8.ofNat w.bytes, n, a⟩

@[simp] theorem toNat_ofNat_bytes (w : AccessWidth) : (UInt8.ofNat w.bytes).toNat = w.bytes := by
  cases w <;> rfl

/-- The head of a command that is there and carries the command is valid. -/
theorem dbgHeadValid_encode (head : MemReadWriteHead) (rest : List UInt8) (inSize : ℕ)
    (hsize : MemReadWriteHead.size ≤ inSize) (cmd : DebugCommand) (hcmd : head.cmd = cmd.toByte) :
    dbgHeadValid MemReadWriteHead.size (head.encode ++ rest) inSize cmd = .ok true := by
  simp only [dbgHeadValid, not_lt.mpr hsize, if_false, MemReadWriteHead.encode, List.cons_append,
    hcmd, beq_self_eq_true]

theorem readHead_encode (head : MemReadWriteHead) (rest : List UInt8)
    (hn : head.byteCount < 65536) (ha : head.address < 4294967296) :
    readHead MemReadWriteHead.decode (head.encode ++ rest) = .ok head := by
  rw [readHead, MemReadWriteHead.decode_encode head rest hn ha]

/-- The handler answers a read packet with the bytes of the range, or with `0xFF`s. -/
theorem memoryReadCommand_ok (d : Device) (outBuf : Frame) (rest : List UInt8) {a n : ℕ}
    {w : AccessWidth} (hn : n ≤ 56) (hdvd : w.bytes ∣ n) (ha : a + n < 4294967296) :
    ∃ g : Frame, memoryReadCommand ((readHeadFor a w n).encode ++ rest) 8 outBuf 64 d =
        .ok (8 + n, g, { d with accesses := d.accesses ++ answerAccesses a w n }) ∧
      g.val.take (8 + n) = (readHeadFor a w n).encode ++ answeredBytes d.mem a n := by
  have hvalid := dbgHeadValid_encode (readHeadFor a w n) rest 8 le_rfl .memoryRead rfl
  have hread := readHead_encode (readHeadFor a w n) rest (show n < 65536 by omega)
    (show a < 4294967296 by omega)
  have hpayload : payloadSize MemReadWriteHead.size 64 n w.bytes = n :=
    payloadSize_eq (by norm_num) (show 8 + n ≤ 64 by omega) hdvd
  have hlast : (a + n) % 4294967296 = a + n := Nat.mod_eq_of_lt ha
  have hwidth : (readHeadFor a w n).align.toNat = w.bytes := toNat_ofNat_bytes w
  have hcount : (readHeadFor a w n).byteCount = n := rfl
  have haddr : (readHeadFor a w n).address = a := rfl
  have hhead : (readHeadFor a w n).encode.length = 8 := MemReadWriteHead.encode_length _
  obtain ⟨f, hf, hfval⟩ := store_zero_ok outBuf (readHeadFor a w n).encode
    (by rw [hhead]; decide)
  have hstore : outBuf.store 0 ({ cmd := DebugCommand.memoryRead.toByte
                                  align := (readHeadFor a w n).align
                                  byteCount := n
                                  address := a } : MemReadWriteHead).encode = .ok f := hf
  have hftake : f.val.take 8 = (readHeadFor a w n).encode := by
    rw [hfval, List.take_left' hhead]
  unfold memoryReadCommand
  rw [bind_of_ok hvalid]
  simp only [Bool.not_true, Bool.false_eq_true, if_false]
  rw [bind_of_ok hread]
  simp only [hwidth, hcount, haddr, hpayload, hlast]
  rw [bind_of_ok hstore]
  simp only [checkMemRegionAccess_and]
  by_cases hregion : InOneRegion a (a + n)
  · obtain ⟨g, hg, hgval⟩ := dbgMemcpy_fromTarget d f (show 8 + n ≤ 64 by omega) hdvd ha.le
    refine ⟨g, ?_, ?_⟩
    · rw [if_pos hregion, bind_of_ok hg, answerAccesses, if_pos hregion]
      rfl
    · have hlen : ((readHeadFor a w n).encode ++ readRange d.mem a n).length = 8 + n := by
        rw [List.length_append, hhead, readRange_length]
      rw [hgval, hftake, List.take_left' hlen, answeredBytes, if_pos hregion]
  · obtain ⟨g, hg, hgval⟩ := f.store_ok 8 (List.replicate n 0xFF)
      (by rw [List.length_replicate]; omega)
    refine ⟨g, ?_, ?_⟩
    · rw [if_neg hregion, bind_of_ok hg, answerAccesses, if_neg hregion, List.append_nil]
      rfl
    · have hlen : ((readHeadFor a w n).encode ++ List.replicate n (0xFF : UInt8)).length = 8 + n := by
        rw [List.length_append, hhead, List.length_replicate]
      rw [hgval, hftake, List.take_left' hlen, answeredBytes, if_neg hregion]

/-- The first `off` bytes of the payload have been copied to the target. -/
def CopiedTo (d : Device) (a : ℕ) (bytes : List UInt8) (w : AccessWidth) (off : ℕ)
    (e : Device) : Prop :=
  e = { d with
    mem := overlay d.mem a (bytes.take off)
    accesses := d.accesses ++ accessList a w off }

theorem CopiedTo.step {d e : Device} {a src off : ℕ} {bytes : List UInt8} {inBuf : List UInt8}
    {w : AccessWidth} (h : CopiedTo d a bytes w off e) (hoff : w.bytes ∣ off)
    (hle : off + w.bytes ≤ bytes.length) (hbuf : bytes <+: inBuf.drop src)
    (hwrap : a + off < 4294967296) :
    ∃ e', copyToTarget a inBuf src w off e = .ok e' ∧ CopiedTo d a bytes w (off + w.bytes) e' := by
  obtain ⟨rest, hrest⟩ := hbuf
  have hread : readBytes inBuf (src + off) w.bytes = .ok ((bytes.drop off).take w.bytes) := by
    have hpos := w.bytes_pos
    have hlen := congrArg List.length hrest
    rw [List.length_append, List.length_drop] at hlen
    unfold readBytes
    rw [if_pos (by omega), ← List.drop_drop, ← hrest, List.drop_append_of_le_length (by omega),
      List.take_append_of_le_length (by rw [List.length_drop]; omega)]
  have hdst : (a + off) % 4294967296 = a + off := Nat.mod_eq_of_lt hwrap
  have hlen : (bytes.take off).length = off := by
    rw [List.length_take]
    omega
  refine ⟨{ e with
    mem := overlay e.mem (a + off) ((bytes.drop off).take w.bytes)
    accesses := e.accesses ++ [⟨a + off, w.bytes⟩] }, ?_, ?_⟩
  · unfold copyToTarget
    simp only [hdst]
    rw [bind_of_ok hread]
    rfl
  · unfold CopiedTo at h ⊢
    rw [h, accessList_snoc a hoff, List.take_add, overlay_append, hlen, List.append_assoc]

/-- The copy loop writes the payload to the target range. -/
theorem dbgMemcpy_toTarget (d : Device) {a src : ℕ} {bytes inBuf : List UInt8} {w : AccessWidth}
    (hdvd : w.bytes ∣ bytes.length) (hbuf : bytes <+: inBuf.drop src)
    (hwrap : a + bytes.length ≤ 4294967296) :
    dbgMemcpy (copyToTarget a inBuf src) bytes.length w.bytes d =
      .ok { d with
        mem := overlay d.mem a bytes
        accesses := d.accesses ++ accessList a w bytes.length } := by
  have hstart : CopiedTo d a bytes w 0 d := by
    unfold CopiedTo
    simp
  unfold dbgMemcpy
  rw [accessWidth_bytes]
  obtain ⟨e, hs, hcopied⟩ := dbgMemcpyLoop_invariant (CopiedTo d a bytes w) hdvd hstart (by
    intro off e h _ hoff hle
    have hpos := w.bytes_pos
    exact h.step hoff (by omega) hbuf (by omega))
  unfold CopiedTo at hcopied
  rw [Nat.zero_add, List.take_length] at hcopied
  rw [hs, hcopied]

/-- The half-words that `flashWrite` programs for the bytes at `a`. -/
def halfWords (a : ℕ) (bytes : List UInt8) : List FlashEvent :=
  match bytes with
  | lo :: hi :: rest => .programmed a (ofLE [lo, hi]) :: halfWords (a + 2) rest
  | _ => []

/-- A blank half-word takes its two bytes. -/
theorem programHalfWord_blank (mem : ℕ → UInt8) (a : ℕ) (lo hi : UInt8) (h₀ : mem a = 0xFF)
    (h₁ : mem (a + 1) = 0xFF) :
    programHalfWord mem a (ofLE [lo, hi]) = overlay mem a [lo, hi] := by
  rw [programHalfWord, if_pos ⟨h₀, h₁⟩]
  exact congrArg (overlay mem a) (toLE_ofLE [lo, hi])

/-- On a blank range `flashWrite` stores the bytes, one half-word after the other. -/
theorem flashWriteLoop_blank (a : ℕ) (data rest : List UInt8) (size : ℕ) (bytes : List UInt8)
    (i : ℕ) (d : Device) (hdata : data.drop i = bytes ++ rest) (hsize : size = i + bytes.length)
    (heven : 2 ∣ bytes.length) (hwrap : a + size ≤ 4294967296)
    (hblank : ∀ x, a + i ≤ x → x < a + size → d.mem x = 0xFF) :
    flashWriteLoop a data size i d = .ok { d with
      mem := overlay d.mem (a + i) bytes
      flashLog := d.flashLog ++ halfWords (a + i) bytes } := by
  induction hn : bytes.length using Nat.strong_induction_on generalizing bytes i d with
  | _ n ih =>
    match bytes with
    | [] =>
      rw [flashWriteLoop, if_neg (by simp at hsize; omega), overlay_nil]
      simp [halfWords]
    | [_] => simp at heven
    | lo :: hi :: tail =>
      have hlo : data[i]? = some lo := by
        have h := congrArg (fun l => l[0]?) hdata
        simpa using h
      have hhi : data[i + 1]? = some hi := by
        have h := congrArg (fun l => l[1]?) hdata
        simpa using h
      have htail : data.drop (i + 2) = tail ++ rest := by
        rw [← List.drop_drop, hdata]
        rfl
      simp only [List.length_cons] at hsize heven hn
      have hmod : (a + i) % 4294967296 = a + i := Nat.mod_eq_of_lt (by omega)
      have hprog : d.flashProgramHalfWord (a + i) (ofLE [lo, hi]) = { d with
          mem := overlay d.mem (a + i) [lo, hi]
          flashLog := d.flashLog ++ [.programmed (a + i) (ofLE [lo, hi])] } := by
        unfold Device.flashProgramHalfWord
        rw [programHalfWord_blank _ _ _ _ (hblank _ le_rfl (by omega))
          (hblank _ (by omega) (by omega))]
      rw [flashWriteLoop, if_pos (by omega), hlo, hhi]
      simp only [or_shiftLeft_eight, hmod, hprog]
      rw [ih tail.length (by omega) tail (i + 2) _ htail (by omega) (by omega) ?_ rfl]
      · rw [halfWords, ← Nat.add_assoc, List.append_assoc, List.singleton_append]
        have hsplit : lo :: hi :: tail = [lo, hi] ++ tail := rfl
        rw [hsplit, overlay_append]
        rfl
      · intro x hlow hhigh
        show overlay d.mem (a + i) [lo, hi] x = 0xFF
        rw [overlay_above _ _ (by simp; omega)]
        exact hblank x (by omega) hhigh

/-- What a write packet of blank flash, or of memory outside flash, does to the device. -/
def Device.written (d : Device) (a : ℕ) (w : AccessWidth) (bytes : List UInt8) : Device :=
  if isFlashRegion a then
    { d with mem := overlay d.mem a bytes, flashLog := d.flashLog ++ halfWords a bytes }
  else
    { d with
      mem := overlay d.mem a bytes
      accesses := d.accesses ++ accessList a w bytes.length }

/-- The target takes the payload `bytes` at `a` as it is: in flash the range is blank and
even. -/
def Writable (mem : ℕ → UInt8) (a : ℕ) (bytes : List UInt8) : Prop :=
  isFlashRegion a = true → 2 ∣ bytes.length ∧ ∀ x, a ≤ x → x < a + bytes.length → mem x = 0xFF

/-- The handler writes the payload and echoes the head. -/
theorem memoryWriteCommand_ok (d : Device) (outBuf : Frame) (rest : List UInt8) {a : ℕ}
    {w : AccessWidth} {bytes : List UInt8} (hn : bytes.length ≤ 56) (hdvd : w.bytes ∣ bytes.length)
    (ha : a + bytes.length < 4294967296) (hwritable : Writable d.mem a bytes) :
    ∃ g : Frame, memoryWriteCommand ((writeHeadFor a w bytes.length).encode ++ (bytes ++ rest))
        (8 + bytes.length) outBuf 64 d = .ok (8, g, d.written a w bytes) ∧
      g.val.take 8 = (writeHeadFor a w bytes.length).encode := by
  set head := writeHeadFor a w bytes.length with hheadDef
  have hvalid := dbgHeadValid_encode head (bytes ++ rest) (8 + bytes.length)
    (Nat.le_add_right _ _) .memoryWrite rfl
  have hread := readHead_encode head (bytes ++ rest) (show bytes.length < 65536 by omega)
    (show a < 4294967296 by omega)
  have hwidth : head.align.toNat = w.bytes := toNat_ofNat_bytes w
  have hcount : head.byteCount = bytes.length := rfl
  have haddr : head.address = a := rfl
  have hpayload : payloadSize MemReadWriteHead.size (8 + bytes.length) bytes.length w.bytes =
      bytes.length := payloadSize_eq (by omega) le_rfl hdvd
  have hhead : head.encode.length = 8 := MemReadWriteHead.encode_length _
  have hdrop : (head.encode ++ (bytes ++ rest)).drop 8 = bytes ++ rest := List.drop_left' hhead
  obtain ⟨g, hg, hgval⟩ := store_zero_ok outBuf head.encode (by rw [hhead]; decide)
  have hstore : outBuf.store 0 ({ cmd := DebugCommand.memoryWrite.toByte
                                  align := UInt8.ofNat w.bytes
                                  byteCount := bytes.length
                                  address := a } : MemReadWriteHead).encode = .ok g := hg
  refine ⟨g, ?_, by rw [hgval, List.take_left' hhead]⟩
  unfold memoryWriteCommand
  rw [bind_of_ok hvalid]
  simp only [Bool.not_true, Bool.false_eq_true, if_false]
  rw [bind_of_ok hread]
  simp only [hwidth, hcount, haddr, getValidatedAlign_bytes, hpayload]
  by_cases hflash : isFlashRegion a = true
  · obtain ⟨heven, hblank⟩ := hwritable hflash
    have hloop := flashWriteLoop_blank a (bytes ++ rest) rest bytes.length bytes 0 d rfl
      (Nat.zero_add _).symm heven ha.le hblank
    simp only [hflash, if_true, flashWrite, MemReadWriteHead.size, hdrop]
    rw [bind_of_ok hloop, bind_of_ok hstore]
    unfold Device.written
    rw [if_pos hflash]
    rfl
  · have hcopy := dbgMemcpy_toTarget d (a := a) hdvd
      (show bytes <+: (head.encode ++ (bytes ++ rest)).drop 8 from ⟨rest, hdrop.symm⟩) ha.le
    simp only [hflash, Bool.false_eq_true, if_false]
    rw [bind_of_ok hcopy, bind_of_ok hstore]
    unfold Device.written
    rw [if_neg hflash]
    rfl

/-- The device without its USB buffers. -/
def Device.target (d : Device) : Device :=
  { d with usbCmdFrame := .zero, usbAnsFrame := .zero, inEndpoint := none, usbInitialized := true }

theorem Device.target_written (d : Device) (a : ℕ) (w : AccessWidth) (bytes : List UInt8) :
    (d.written a w bytes).target = d.target.written a w bytes := by
  unfold Device.written
  split_ifs <;> rfl

@[simp] theorem Device.written_mem (d : Device) (a : ℕ) (w : AccessWidth) (bytes : List UInt8) :
    (d.written a w bytes).mem = overlay d.mem a bytes := by
  unfold Device.written
  split_ifs <;> rfl

theorem mem_of_target {d e : Device} (h : d.target = e.target) : d.mem = e.mem := by
  have hmem : d.target.mem = e.target.mem := by rw [h]
  exact hmem

/-- With the last reply collected, `packet` is answered with a reply that satisfies `Q`, and the
target goes from `d` to `e`, whatever the USB buffers hold. -/
def Device.Answers (d : Device) (packet : List UInt8) (Q : List UInt8 → Prop) (e : Device) : Prop :=
  ∀ d₀ : Device, d₀.target = d.target → d₀.inEndpoint = none →
    ∃ e₀ reply, usbDataOutCallback packet d₀ = .ok e₀ ∧ e₀.inEndpoint = some reply ∧ Q reply ∧
      e₀.target = e.target

/-- A handler that returns a reply answers. -/
theorem answers_of_dispatch {packet : List UInt8} {Q : List UInt8 → Prop} {d e : Device} (k : ℕ)
    (hne : packet ≠ []) (hlen : packet.length ≤ 64) (hk : k ≠ 0)
    (h : ∀ d₀ : Device, d₀.target = d.target → ∃ f e₀,
      dispatchCommand (packet ++ d₀.usbCmdFrame.val.drop packet.length) packet.length
        d₀.usbAnsFrame
        { d₀ with usbCmdFrame := d₀.usbCmdFrame.receive packet, usbInitialized := true }
        = .ok (k, f, e₀) ∧ Q (f.val.take k) ∧ e₀.inEndpoint = d₀.inEndpoint ∧
        e₀.target = e.target) :
    d.Answers packet Q e := by
  intro d₀ htarget hfree
  obtain ⟨f, e₀, hdispatch, hreply, hendpoint, he⟩ := h d₀ htarget
  have hcall := usbDataOutCallback_ok hne hlen hk hdispatch
  refine ⟨_, f.val.take k, hcall, ?_, hreply, ?_⟩
  · rw [epWritePacket_inEndpoint]
    show some (e₀.inEndpoint.getD (f.val.take k)) = some (f.val.take k)
    rw [hendpoint, hfree]
    rfl
  · rw [← he]
    unfold Device.epWritePacket
    split <;> rfl

theorem usbDataOutCallback_memoryRead (d : Device) {a n : ℕ} {w : AccessWidth} (hn : n ≤ 56)
    (hdvd : w.bytes ∣ n) (ha : a + n < 4294967296) :
    d.Answers (readHeadFor a w n).encode
      (· = (readHeadFor a w n).encode ++ answeredBytes d.mem a n)
      { d with accesses := d.accesses ++ answerAccesses a w n } := by
  set packet := (readHeadFor a w n).encode with hpacket
  have hlen : packet.length = 8 := MemReadWriteHead.encode_length _
  apply answers_of_dispatch (8 + n) (List.length_pos_iff.mp (by omega)) (by omega) (by omega)
  intro d₀ htarget
  set d₁ : Device :=
    { d₀ with usbCmdFrame := d₀.usbCmdFrame.receive packet, usbInitialized := true }
  obtain ⟨g, hg, hval⟩ := memoryReadCommand_ok d₁ d₀.usbAnsFrame
    (d₀.usbCmdFrame.val.drop packet.length) hn hdvd ha
  refine ⟨g, { d₁ with accesses := d₁.accesses ++ answerAccesses a w n }, ?_, ?_, rfl, ?_⟩
  · rw [hlen] at hg ⊢
    exact hg
  · rw [hval, ← mem_of_target htarget]
  · exact congrArg
      (fun t : Device => { t with accesses := t.accesses ++ answerAccesses a w n }) htarget

theorem usbDataOutCallback_memoryWrite (d : Device) {a : ℕ} {w : AccessWidth}
    {bytes : List UInt8} (hn : bytes.length ≤ 56) (hdvd : w.bytes ∣ bytes.length)
    (ha : a + bytes.length < 4294967296) (hwritable : Writable d.mem a bytes) :
    d.Answers ((writeHeadFor a w bytes.length).encode ++ bytes)
      (· = (writeHeadFor a w bytes.length).encode) (d.written a w bytes) := by
  set packet := (writeHeadFor a w bytes.length).encode ++ bytes with hpacket
  have hlen : packet.length = 8 + bytes.length := by
    rw [hpacket, List.length_append, MemReadWriteHead.encode_length]
  apply answers_of_dispatch 8 (List.length_pos_iff.mp (by omega)) (by omega) (by decide)
  intro d₀ htarget
  have hmem : d₀.mem = d.mem := mem_of_target htarget
  set d₁ : Device :=
    { d₀ with usbCmdFrame := d₀.usbCmdFrame.receive packet, usbInitialized := true }
  have hwritable₁ : Writable d₁.mem a bytes := by
    show Writable d₀.mem a bytes
    rwa [hmem]
  obtain ⟨g, hg, hval⟩ := memoryWriteCommand_ok d₁ d₀.usbAnsFrame
    (d₀.usbCmdFrame.val.drop packet.length) hn hdvd ha hwritable₁
  refine ⟨g, d₁.written a w bytes, ?_, hval, ?_, ?_⟩
  · rw [← hlen, ← List.append_assoc, ← hpacket] at hg
    exact hg
  · unfold Device.written
    split_ifs <;> rfl
  · rw [Device.target_written, Device.target_written, ← htarget]
    rfl

/-- The status byte and the state after `flashCommand` has carried out `command`. -/
def Device.flashRequest (d : Device) (command : FlashCommand) (address size : ℕ) :
    UInt8 × Device :=
  match command with
  | .detach => (1, d.debugStartFirmware.2)
  | .erase => (1, (d.debugStartEraseLoop address size).2)
  | .lock => (0, d)
  | .unlock => (1, d.debugStartLocalLoop.2)

theorem Device.target_flashRequest (d : Device) (command : FlashCommand) (address size : ℕ) :
    (d.flashRequest command address size).2.target =
      (d.target.flashRequest command address size).2 := by
  cases command <;> rfl

/-- The status tells the command, not whether the request was queued. -/
theorem Device.flashRequest_status (d e : Device) (command : FlashCommand) (address size : ℕ) :
    (d.flashRequest command address size).1 = (e.flashRequest command address size).1 := by
  cases command <;> rfl

def flashHeadFor (command : FlashCommand) (address size : ℕ) : FlashCmdHead :=
  ⟨DebugCommand.flash.toByte, command.toByte, address, size⟩

theorem flashCommand_ok (d : Device) (outBuf : Frame) (rest : List UInt8) (command : FlashCommand)
    {address size : ℕ} (ha : address < 4294967296) (hs : size < 4294967296) :
    ∃ g : Frame, flashCommand ((flashHeadFor command address size).encode ++ rest) 12 outBuf 64 d =
        .ok (4, g, (d.flashRequest command address size).2) ∧
      g.val.take 3 = [DebugCommand.flash.toByte, command.toByte,
        (d.flashRequest command address size).1] := by
  have hvalid : dbgHeadValid FlashCmdHead.size
      ((flashHeadFor command address size).encode ++ rest) 12 .flash = .ok true := by
    cases command <;> rfl
  have hread : readHead FlashCmdHead.decode
      ((flashHeadFor command address size).encode ++ rest) = .ok (flashHeadFor command address size) := by
    rw [readHead, FlashCmdHead.decode_encode _ _ ha hs]
  have hcommand : (flashHeadFor command address size).flashCommand = command.toByte := rfl
  obtain ⟨g, hg, hval⟩ := store_zero_ok outBuf [DebugCommand.flash.toByte, command.toByte,
    (d.flashRequest command address size).1] (by norm_num)
  refine ⟨g, ?_, by rw [hval]; rfl⟩
  unfold flashCommand
  rw [bind_of_ok hvalid]
  simp only [Bool.not_true, Bool.false_eq_true, if_false]
  rw [bind_of_ok hread]
  simp only [hcommand, FlashCommand.ofByte_toByte]
  cases command
  all_goals
    simp only
    exact bind_of_ok hg

theorem usbDataOutCallback_flash (d : Device) (command : FlashCommand) {address size : ℕ}
    (ha : address < 4294967296) (hs : size < 4294967296) :
    d.Answers (flashHeadFor command address size).encode
      (fun reply => reply.length = 4 ∧ reply.take 3 = [DebugCommand.flash.toByte, command.toByte,
        (d.flashRequest command address size).1])
      (d.flashRequest command address size).2 := by
  set packet := (flashHeadFor command address size).encode with hpacket
  have hlen : packet.length = 12 := FlashCmdHead.encode_length _
  apply answers_of_dispatch 4 (List.length_pos_iff.mp (by omega)) (by omega) (by decide)
  intro d₀ htarget
  set d₁ : Device :=
    { d₀ with usbCmdFrame := d₀.usbCmdFrame.receive packet, usbInitialized := true }
  obtain ⟨g, hg, hval⟩ := flashCommand_ok d₁ d₀.usbAnsFrame
    (d₀.usbCmdFrame.val.drop packet.length) command ha hs
  have hsize : g.val.length = 64 := g.property
  refine ⟨g, (d₁.flashRequest command address size).2, ?_, ⟨?_, ?_⟩, ?_, ?_⟩
  · rw [hlen] at hg ⊢
    exact hg
  · rw [List.length_take, hsize]
    rfl
  · rw [List.take_take, Nat.min_eq_left (by decide), hval, Device.flashRequest_status d₁ d]
  · cases command <;> rfl
  · rw [Device.target_flashRequest, Device.target_flashRequest, ← htarget]
    rfl

end BluePill
