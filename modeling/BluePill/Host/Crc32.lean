import BluePill.Lib.Crc
import BluePill.Host.GdbMain
import BluePill.Host.MemorySplit

/-! `crc32.c`: the checksum of a range of target memory that `qCRC` asks for. -/
namespace BluePill
open Lib Polynomial

def crc32Table : List UInt32 := [
  0x00000000, 0x04C11DB7, 0x09823B6E, 0x0D4326D9, 0x130476DC, 0x17C56B6B, 0x1A864DB2, 0x1E475005,
  0x2608EDB8, 0x22C9F00F, 0x2F8AD6D6, 0x2B4BCB61, 0x350C9B64, 0x31CD86D3, 0x3C8EA00A, 0x384FBDBD,
  0x4C11DB70, 0x48D0C6C7, 0x4593E01E, 0x4152FDA9, 0x5F15ADAC, 0x5BD4B01B, 0x569796C2, 0x52568B75,
  0x6A1936C8, 0x6ED82B7F, 0x639B0DA6, 0x675A1011, 0x791D4014, 0x7DDC5DA3, 0x709F7B7A, 0x745E66CD,
  0x9823B6E0, 0x9CE2AB57, 0x91A18D8E, 0x95609039, 0x8B27C03C, 0x8FE6DD8B, 0x82A5FB52, 0x8664E6E5,
  0xBE2B5B58, 0xBAEA46EF, 0xB7A96036, 0xB3687D81, 0xAD2F2D84, 0xA9EE3033, 0xA4AD16EA, 0xA06C0B5D,
  0xD4326D90, 0xD0F37027, 0xDDB056FE, 0xD9714B49, 0xC7361B4C, 0xC3F706FB, 0xCEB42022, 0xCA753D95,
  0xF23A8028, 0xF6FB9D9F, 0xFBB8BB46, 0xFF79A6F1, 0xE13EF6F4, 0xE5FFEB43, 0xE8BCCD9A, 0xEC7DD02D,
  0x34867077, 0x30476DC0, 0x3D044B19, 0x39C556AE, 0x278206AB, 0x23431B1C, 0x2E003DC5, 0x2AC12072,
  0x128E9DCF, 0x164F8078, 0x1B0CA6A1, 0x1FCDBB16, 0x018AEB13, 0x054BF6A4, 0x0808D07D, 0x0CC9CDCA,
  0x7897AB07, 0x7C56B6B0, 0x71159069, 0x75D48DDE, 0x6B93DDDB, 0x6F52C06C, 0x6211E6B5, 0x66D0FB02,
  0x5E9F46BF, 0x5A5E5B08, 0x571D7DD1, 0x53DC6066, 0x4D9B3063, 0x495A2DD4, 0x44190B0D, 0x40D816BA,
  0xACA5C697, 0xA864DB20, 0xA527FDF9, 0xA1E6E04E, 0xBFA1B04B, 0xBB60ADFC, 0xB6238B25, 0xB2E29692,
  0x8AAD2B2F, 0x8E6C3698, 0x832F1041, 0x87EE0DF6, 0x99A95DF3, 0x9D684044, 0x902B669D, 0x94EA7B2A,
  0xE0B41DE7, 0xE4750050, 0xE9362689, 0xEDF73B3E, 0xF3B06B3B, 0xF771768C, 0xFA325055, 0xFEF34DE2,
  0xC6BCF05F, 0xC27DEDE8, 0xCF3ECB31, 0xCBFFD686, 0xD5B88683, 0xD1799B34, 0xDC3ABDED, 0xD8FBA05A,
  0x690CE0EE, 0x6DCDFD59, 0x608EDB80, 0x644FC637, 0x7A089632, 0x7EC98B85, 0x738AAD5C, 0x774BB0EB,
  0x4F040D56, 0x4BC510E1, 0x46863638, 0x42472B8F, 0x5C007B8A, 0x58C1663D, 0x558240E4, 0x51435D53,
  0x251D3B9E, 0x21DC2629, 0x2C9F00F0, 0x285E1D47, 0x36194D42, 0x32D850F5, 0x3F9B762C, 0x3B5A6B9B,
  0x0315D626, 0x07D4CB91, 0x0A97ED48, 0x0E56F0FF, 0x1011A0FA, 0x14D0BD4D, 0x19939B94, 0x1D528623,
  0xF12F560E, 0xF5EE4BB9, 0xF8AD6D60, 0xFC6C70D7, 0xE22B20D2, 0xE6EA3D65, 0xEBA91BBC, 0xEF68060B,
  0xD727BBB6, 0xD3E6A601, 0xDEA580D8, 0xDA649D6F, 0xC423CD6A, 0xC0E2D0DD, 0xCDA1F604, 0xC960EBB3,
  0xBD3E8D7E, 0xB9FF90C9, 0xB4BCB610, 0xB07DABA7, 0xAE3AFBA2, 0xAAFBE615, 0xA7B8C0CC, 0xA379DD7B,
  0x9B3660C6, 0x9FF77D71, 0x92B45BA8, 0x9675461F, 0x8832161A, 0x8CF30BAD, 0x81B02D74, 0x857130C3,
  0x5D8A9099, 0x594B8D2E, 0x5408ABF7, 0x50C9B640, 0x4E8EE645, 0x4A4FFBF2, 0x470CDD2B, 0x43CDC09C,
  0x7B827D21, 0x7F436096, 0x7200464F, 0x76C15BF8, 0x68860BFD, 0x6C47164A, 0x61043093, 0x65C52D24,
  0x119B4BE9, 0x155A565E, 0x18197087, 0x1CD86D30, 0x029F3D35, 0x065E2082, 0x0B1D065B, 0x0FDC1BEC,
  0x3793A651, 0x3352BBE6, 0x3E119D3F, 0x3AD08088, 0x2497D08D, 0x2056CD3A, 0x2D15EBE3, 0x29D4F654,
  0xC5A92679, 0xC1683BCE, 0xCC2B1D17, 0xC8EA00A0, 0xD6AD50A5, 0xD26C4D12, 0xDF2F6BCB, 0xDBEE767C,
  0xE3A1CBC1, 0xE760D676, 0xEA23F0AF, 0xEEE2ED18, 0xF0A5BD1D, 0xF464A0AA, 0xF9278673, 0xFDE69BC4,
  0x89B8FD09, 0x8D79E0BE, 0x803AC667, 0x84FBDBD0, 0x9ABC8BD5, 0x9E7D9662, 0x933EB0BB, 0x97FFAD0C,
  0xAFB010B1, 0xAB710D06, 0xA6322BDF, 0xA2F33668, 0xBCB4666D, 0xB8757BDA, 0xB5365D03, 0xB1F740B4]

def crc32Calc (crc : UInt32) (data : UInt8) : UInt32 :=
  crc <<< 8 ^^^ crc32Table.getD (((crc >>> 24) ^^^ data.toUInt32) &&& 255).toNat 0

/-- The loop of eight shifts that the variant for the probe's own processor runs for the last
bytes. -/
def crc32Shifts : ℕ → UInt32 → UInt32
  | 0, crc => crc
  | n + 1, crc =>
    crc32Shifts n (if crc &&& 0x80000000 ≠ 0 then crc <<< 1 ^^^ 0x4C11DB7 else crc <<< 1)

def crc32Plain (crc : UInt32) (data : UInt8) : UInt32 :=
  crc32Shifts 8 (crc ^^^ data.toUInt32 <<< 24)

section
variable {σ : Type} (interface : TargetInterface σ)

/-- One round of the loop of `generic_crc32`: the bytes taken, the checksum, the buffer `bytes` and
the host. Where a read stores less than it was asked for, the buffer keeps what it had. -/
def crcRound (base len offset : ℕ) (s : UInt32 × List UInt8 × Host σ) :
    Except Fault (ℕ × UInt32 × List UInt8 × Host σ) := do
  let (crc, bytes, h) := s
  let readLen := if 128 < len - offset then 128 else len - offset
  let (_, stored, h) ← targetMemRead interface ((base + offset) % 4294967296) readLen h
  if stored.length > bytes.length then throw .outOfBounds
  let bytes := stored ++ bytes.drop stored.length
  return (readLen, (bytes.take readLen).foldl crc32Calc crc, bytes, h)

/-- `generic_crc32`, from what the stack has in `bytes`. -/
def genericCrc32 (base len : ℕ) (bytes : List UInt8) (h : Host σ) :
    Except Fault (UInt32 × Host σ) := do
  let (_, crc, _, h) ← transfer (crcRound interface base len) len 0 (0xFFFFFFFF, bytes, h)
  return (crc, h)

end

/-- `0x4C11DB7`, the generator without its leading term. -/
def crc32Poly : BitVec 32 := 0x4C11DB7#32

theorem and_topBit (crc : UInt32) : crc &&& 0x80000000 ≠ 0 ↔ crc.toBitVec.msb = true := by
  have hand : (crc &&& 0x80000000).toBitVec =
      if crc.toBitVec.getLsbD 31 then BitVec.twoPow 32 31 else 0#32 := BitVec.and_twoPow _ 31
  rw [ne_eq, ← UInt32.toBitVec_inj, hand, BitVec.msb_eq_getLsbD_last]
  cases crc.toBitVec.getLsbD 31 <;> decide

theorem crc32Shifts_toBitVec (n : ℕ) (crc : UInt32) :
    (crc32Shifts n crc).toBitVec = crcShifts crc32Poly n crc.toBitVec := by
  induction n generalizing crc with
  | zero => rfl
  | succ n ih =>
    rw [crc32Shifts, ih, crcShifts]
    congr 1
    unfold crcShift
    by_cases h : crc.toBitVec.msb = true
    · rw [if_pos ((and_topBit crc).mpr h), if_pos h]
      rfl
    · rw [if_neg (mt (and_topBit crc).mp h), if_neg h]
      rfl

/-- Every entry of the table is its index shifted through the register. -/
theorem crc32Table_eq (i : ℕ) (hi : i < 256) :
    crc32Table.getD i 0 = crc32Shifts 8 (UInt32.ofNat i <<< 24) := by
  have hall : ∀ j : Fin 256,
      crc32Table.getD j.val 0 = crc32Shifts 8 (UInt32.ofNat j.val <<< 24) := by
    decide +kernel
  exact hall ⟨i, hi⟩

/-- Only the low eight bits reach the top of the register. -/
theorem and_255_shiftLeft (x : UInt32) : (x &&& 255) <<< 24 = x <<< 24 := by
  have hlow : ∀ j < 8, (255#32).getLsbD j = true := by decide
  apply UInt32.toBitVec_inj.mp
  apply BitVec.eq_of_getLsbD_eq
  intro i hi
  by_cases h : i < 24
  · simp [h]
  · simp [hlow (i - 24) (by omega)]

theorem byte_shiftLeft (data : UInt8) :
    (data.toUInt32 <<< 24).toBitVec = data.toBitVec.setWidth 32 <<< (32 - 8) := rfl

/-- The table and the eight shifts do the same to the register. -/
theorem crc32Calc_eq_plain (crc : UInt32) (data : UInt8) :
    crc32Calc crc data = crc32Plain crc data := by
  have hindex : (((crc >>> 24) ^^^ data.toUInt32) &&& 255).toNat < 256 := by
    rw [UInt32.toNat_and]
    exact lt_of_le_of_lt Nat.and_le_right (by decide)
  apply UInt32.toBitVec_inj.mp
  have hplain := crcFeed_bitsBE (by decide) (by decide) crc32Poly crc.toBitVec data.toBitVec
  have htable := crcFeed_table (by decide) (by decide) crc32Poly crc.toBitVec data.toBitVec
  unfold crc32Calc crc32Plain
  rw [crc32Table_eq _ hindex, UInt32.ofNat_toNat, and_255_shiftLeft, UInt32.toBitVec_xor,
    crc32Shifts_toBitVec, crc32Shifts_toBitVec, UInt32.toBitVec_xor, byte_shiftLeft, ← hplain,
    htable]
  rfl

/-- The bits of a run of bytes, the highest of each first. -/
def messageBits (bs : List UInt8) : List Bool := bs.flatMap fun b => bitsBE b.toBitVec

@[simp] theorem messageBits_cons (b : UInt8) (bs : List UInt8) :
    messageBits (b :: bs) = bitsBE b.toBitVec ++ messageBits bs := rfl

theorem messageBits_append (xs ys : List UInt8) :
    messageBits (xs ++ ys) = messageBits xs ++ messageBits ys := List.flatMap_append

theorem messageBits_length (bs : List UInt8) : (messageBits bs).length = 8 * bs.length := by
  induction bs with
  | nil => rfl
  | cons b bs ih =>
    rw [messageBits_cons, List.length_append, bitsBE_length, List.length_cons, ih]
    ring

theorem messageBits_inj {xs ys : List UInt8} (hlen : xs.length = ys.length)
    (h : messageBits xs = messageBits ys) : xs = ys := by
  induction xs generalizing ys with
  | nil => exact (List.length_eq_zero_iff.mp hlen.symm).symm
  | cons x xs ih =>
    cases ys with
    | nil => simp at hlen
    | cons y ys =>
      rw [messageBits_cons, messageBits_cons] at h
      obtain ⟨hhead, htail⟩ := List.append_inj h (by rw [bitsBE_length, bitsBE_length])
      have hbyte : x = y := UInt8.toBitVec_inj.mp (bitsBE_injective hhead)
      rw [hbyte, ih (by simpa using hlen) htail]

theorem crc32Plain_toBitVec (crc : UInt32) (data : UInt8) :
    (crc32Plain crc data).toBitVec = crcFeed crc32Poly crc.toBitVec (bitsBE data.toBitVec) := by
  rw [crcFeed_bitsBE (by decide) (by decide), crc32Plain, crc32Shifts_toBitVec,
    UInt32.toBitVec_xor, byte_shiftLeft]

theorem crc32Calc_foldl (bs : List UInt8) (crc : UInt32) :
    (bs.foldl crc32Calc crc).toBitVec = crcFeed crc32Poly crc.toBitVec (messageBits bs) := by
  induction bs generalizing crc with
  | nil => rfl
  | cons b bs ih =>
    rw [List.foldl_cons, ih, crc32Calc_eq_plain, crc32Plain_toBitVec, messageBits_cons,
      crcFeed_append]

/-- The bytes that the checksum is taken of: the range in chunks of 128 bytes, each read on its
own. -/
def checkedBytes (mem : ℕ → UInt8) (a n : ℕ) : List UInt8 :=
  (cuts 128 a n).flatMap fun c => readAnswer mem c.1 c.2

theorem checkedBytes_length (mem : ℕ → UInt8) (a n : ℕ) : (checkedBytes mem a n).length = n :=
  length_flatMap_cuts (by norm_num) (readAnswer mem) (readAnswer_length mem) a n

/-- The packet that brings the byte `i` of a range of `n` bytes from `a` on lies in one entry of
the table: packets are cut anew in every chunk. -/
def CheckedInRegion (a n i : ℕ) : Prop :=
  PacketInRegion (a + i / 128 * 128) (min 128 (n - i / 128 * 128)) (i % 128)

instance (a n i : ℕ) : Decidable (CheckedInRegion a n i) := by
  unfold CheckedInRegion
  infer_instance

theorem checkedBytes_getElem? (mem : ℕ → UInt8) {a n i : ℕ} (hi : i < n) :
    (checkedBytes mem a n)[i]? = some (if CheckedInRegion a n i then mem (a + i) else 0xFF) := by
  have hstart : i / 128 * 128 ≤ i := Nat.div_mul_le_self i 128
  have hplace : i / 128 * 128 + i % 128 = i := by omega
  have hin : i % 128 < min 128 (n - i / 128 * 128) := by omega
  rw [checkedBytes, getElem?_flatMap_cuts (by norm_num) (readAnswer mem) (readAnswer_length mem)
    a n i hi, readAnswer_getElem? mem hin, Nat.add_assoc, hplace]
  rfl

theorem InOneRegion.last_lt {first last : ℕ} (h : InOneRegion first last) : last < 4294967296 := by
  obtain ⟨r, hr, _, hlast⟩ := h
  have hall : ∀ r ∈ memoryAccessRegions, r.last < 4294967296 := by decide
  exact hlast.trans_lt (hall r hr)

/-- In one entry of the table every packet is. -/
theorem checkedBytes_inRegion (mem : ℕ → UInt8) {a n : ℕ} (h : InOneRegion a (a + n)) :
    checkedBytes mem a n = readRange mem a n := by
  obtain ⟨r, hr, hfirst, hlast⟩ := h
  apply List.ext_getElem?
  intro i
  by_cases hi : i < n
  · have hregion : CheckedInRegion a n i := by
      refine ⟨r, hr, ?_, ?_⟩
      · omega
      · omega
    rw [checkedBytes_getElem? mem hi, if_pos hregion,
      List.getElem?_eq_getElem (by rwa [readRange_length]), readRange_getElem]
  · rw [List.getElem?_eq_none (by rw [checkedBytes_length]; omega),
      List.getElem?_eq_none (by rw [readRange_length]; omega)]

/-- Whole chunks up to `offset` have been read, and the link still answers. -/
structure CheckedUpTo (mem : ℕ → UInt8) (base len offset : ℕ)
    (s : UInt32 × List UInt8 × Host Link) : Prop where
  crc : s.1 = (checkedBytes mem base offset).foldl crc32Calc 0xFFFFFFFF
  bytes : s.2.1.length = 128
  whole : 128 ∣ offset ∨ offset = len
  device : ∃ d, s.2.2.link.device = some d ∧ d.inEndpoint = none ∧ d.mem = mem

theorem CheckedUpTo.round {mem : ℕ → UInt8} {base len offset : ℕ}
    {s : UInt32 × List UInt8 × Host Link} (hwrap : base + len < 4294967296) (hlt : offset < len)
    (h : CheckedUpTo mem base len offset s) :
    ∃ n s', crcRound firmwareLink base len offset s = .ok (n, s') ∧ n ≠ 0 ∧ offset + n ≤ len ∧
      CheckedUpTo mem base len (offset + n) s' := by
  obtain ⟨crc, bytes, host⟩ := s
  obtain ⟨hcrc, hbytes, hwhole, d, hdev, hfree, hmem⟩ := h
  have hdvd : 128 ∣ offset := by
    rcases hwhole with hdvd | heq
    · exact hdvd
    · omega
  obtain ⟨n, hn⟩ : ∃ n, n = if 128 < len - offset then 128 else len - offset := ⟨_, rfl⟩
  have hpos : 0 < n := by split_ifs at hn <;> omega
  have hle : n ≤ 128 := by split_ifs at hn <;> omega
  have hend : offset + n ≤ len := by split_ifs at hn <;> omega
  obtain ⟨host', d', hread, hdev', hfree', hmem'⟩ :=
    stm32MemRead_answers (a := base + offset) (n := n) hdev hfree (by omega)
  have hstored : (readAnswer d.mem (base + offset) n).length = n := readAnswer_length _ _ _
  simp only at hcrc hbytes
  have hbuffer : (readAnswer d.mem (base + offset) n ++ bytes.drop n).take n =
      readAnswer d.mem (base + offset) n := List.take_left' hstored
  have hone : checkedBytes mem base (offset + n) =
      checkedBytes mem base offset ++ readAnswer d.mem (base + offset) n := by
    have hrest : n - 128 = 0 := by omega
    rw [checkedBytes, cuts_append (by norm_num) base hdvd, List.flatMap_append,
      cuts_pos (by norm_num) hpos, hrest, cuts_zero, min_eq_right hle, hmem]
    simp [checkedBytes]
  refine ⟨n, ((readAnswer d.mem (base + offset) n).foldl crc32Calc crc,
    readAnswer d.mem (base + offset) n ++ bytes.drop n, host'), ?_, by omega, hend, ?_⟩
  · unfold crcRound
    simp only [← hn]
    have hround : (base + offset) % 4294967296 = base + offset := Nat.mod_eq_of_lt (by omega)
    have htarget : targetMemRead firmwareLink (base + offset) n host =
        .ok (false, readAnswer d.mem (base + offset) n, host') := by
      unfold targetMemRead
      rw [bind_of_ok hread]
      rfl
    rw [hround, bind_of_ok htarget]
    simp only [hstored, gt_iff_lt, not_lt.mpr (hbytes ▸ hle), if_false, hbuffer]
    rfl
  · refine ⟨?_, ?_, ?_, d', hdev', hfree', hmem'.trans hmem⟩
    · show _ = _
      rw [hone, List.foldl_append, ← hcrc]
    · show (readAnswer d.mem (base + offset) n ++ bytes.drop n).length = 128
      rw [List.length_append, hstored, List.length_drop, hbytes]
      omega
    · split_ifs at hn
      · exact .inl (hdvd.add (hn ▸ dvd_rfl))
      · exact .inr (by omega)

/-- `generic_crc32` against the firmware. -/
theorem genericCrc32_answers {h : Host Link} {d : Device} (hdev : h.link.device = some d)
    (hfree : d.inEndpoint = none) {base len : ℕ} (hwrap : base + len < 4294967296)
    {bytes : List UInt8} (hbytes : bytes.length = 128) :
    ∃ h' d', genericCrc32 firmwareLink base len bytes h =
        .ok ((checkedBytes d.mem base len).foldl crc32Calc 0xFFFFFFFF, h') ∧
      h'.link.device = some d' ∧ d'.inEndpoint = none ∧ d'.mem = d.mem := by
  have hstart : CheckedUpTo d.mem base len 0 (0xFFFFFFFF, bytes, h) := by
    refine ⟨?_, hbytes, .inl (dvd_zero _), d, hdev, hfree, rfl⟩
    rw [checkedBytes, cuts_zero]
    rfl
  obtain ⟨⟨crc, bytes', h'⟩, hrun, hdone⟩ := transfer_complete (CheckedUpTo d.mem base len)
    (fun _ _ hlt hat => hat.round hwrap hlt) (Nat.zero_le len) hstart
  obtain ⟨d', hdev', hfree', hmem'⟩ := hdone.device
  refine ⟨h', d', ?_, hdev', hfree', hmem'⟩
  unfold genericCrc32
  rw [bind_of_ok hrun, ← hdone.crc]
  rfl

/-- The number sent to GDB is the remainder of the range's bits, behind 32 set bits, on division
by the generator; a byte whose packet the firmware refuses counts as `0xFF`. -/
theorem genericCrc32_remainder (h : Host Link) (d : Device) (hdev : h.link.device = some d)
    (hfree : d.inEndpoint = none) (base len : ℕ) (hwrap : base + len < 4294967296)
    (bytes : List UInt8) (hbytes : bytes.length = 128) :
    ∃ crc h' checked, genericCrc32 firmwareLink base len bytes h = .ok (crc, h') ∧
      checked.length = len ∧
      (∀ i < len, checked[i]? =
        some (if CheckedInRegion base len i then d.mem (base + i) else 0xFF)) ∧
      bitPoly crc.toBitVec = (X ^ (8 * len) * bitPoly (BitVec.allOnes 32) +
        X ^ 32 * messagePoly (messageBits checked)) %ₘ generator crc32Poly := by
  obtain ⟨h', _, hrun, _⟩ := genericCrc32_answers hdev hfree hwrap hbytes
  refine ⟨_, h', checkedBytes d.mem base len, hrun, checkedBytes_length _ _ _, ?_, ?_⟩
  · intro i hi
    exact checkedBytes_getElem? d.mem hi
  · rw [crc32Calc_foldl, bitPoly_crcFeed (by decide), messageBits_length, checkedBytes_length]
    rfl

theorem genericCrc32_remainder_marked :
    ∃ crc h' checked, genericCrc32 firmwareLink 0x07FFFFF0 300 (List.replicate 128 0)
        (Host.fresh markedMemory) = .ok (crc, h') ∧ checked.length = 300 ∧
      (∀ i < 300, checked[i]? = some (if CheckedInRegion 0x07FFFFF0 300 i then
        markedMemory (0x07FFFFF0 + i) else 0xFF)) ∧
      bitPoly crc.toBitVec = (X ^ (8 * 300) * bitPoly (BitVec.allOnes 32) +
        X ^ 32 * messagePoly (messageBits checked)) %ₘ generator crc32Poly :=
  genericCrc32_remainder (Host.fresh markedMemory) (.initial markedMemory bootSymbols) rfl rfl
    0x07FFFFF0 300 (by decide) (List.replicate 128 0) rfl

/-- A range of target memory that differs from another only inside four consecutive bytes has
another checksum. -/
theorem genericCrc32_detects (h₁ h₂ : Host Link) (d₁ d₂ : Device)
    (hdev₁ : h₁.link.device = some d₁) (hfree₁ : d₁.inEndpoint = none)
    (hdev₂ : h₂.link.device = some d₂) (hfree₂ : d₂.inEndpoint = none) (base len : ℕ)
    (hregion : InOneRegion base (base + len)) (x : ℕ)
    (hdiffers : ∃ a, base ≤ a ∧ a < base + len ∧ d₁.mem a ≠ d₂.mem a)
    (honly : ∀ a, base ≤ a → a < base + len → d₁.mem a ≠ d₂.mem a → x ≤ a ∧ a < x + 4)
    (bytes₁ bytes₂ : List UInt8) (hbytes₁ : bytes₁.length = 128) (hbytes₂ : bytes₂.length = 128) :
    ∃ crc₁ h₁' crc₂ h₂', genericCrc32 firmwareLink base len bytes₁ h₁ = .ok (crc₁, h₁') ∧
      genericCrc32 firmwareLink base len bytes₂ h₂ = .ok (crc₂, h₂') ∧ crc₁ ≠ crc₂ := by
  have hwrap := hregion.last_lt
  obtain ⟨h₁', _, hrun₁, _⟩ := genericCrc32_answers hdev₁ hfree₁ hwrap hbytes₁
  obtain ⟨h₂', _, hrun₂, _⟩ := genericCrc32_answers hdev₂ hfree₂ hwrap hbytes₂
  refine ⟨_, h₁', _, h₂', hrun₁, hrun₂, ?_⟩
  rw [checkedBytes_inRegion _ hregion, checkedBytes_inRegion _ hregion]
  obtain ⟨a, hlo, hhi, hne⟩ := hdiffers
  obtain ⟨hxa, hax⟩ := honly a hlo hhi hne
  -- the window cut to the range
  obtain ⟨i, hi⟩ : ∃ i, i = max x base - base := ⟨_, rfl⟩
  obtain ⟨n, hn⟩ : ∃ n, n = min (x + 4) (base + len) - max x base := ⟨_, rfl⟩
  obtain ⟨k, hk⟩ : ∃ k, k = len - (i + n) := ⟨_, rfl⟩
  have hlen : len = i + n + k := by omega
  have hfront : readRange d₁.mem base i = readRange d₂.mem base i := by
    apply readRange_congr
    intro b hb₁ hb₂
    by_contra hb
    have hin := honly b hb₁ (by omega) hb
    omega
  have hback : readRange d₁.mem (base + (i + n)) k = readRange d₂.mem (base + (i + n)) k := by
    apply readRange_congr
    intro b hb₁ hb₂
    by_contra hb
    have hin := honly b (by omega) (by omega) hb
    omega
  have hwindow : messageBits (readRange d₁.mem (base + i) n) ≠
      messageBits (readRange d₂.mem (base + i) n) := by
    intro heq
    have hrange := messageBits_inj (by rw [readRange_length, readRange_length]) heq
    apply hne
    have hcell := congrArg (fun bs => bs[a - (base + i)]?) hrange
    have hin : a - (base + i) < n := by omega
    have hplace : base + i + (a - (base + i)) = a := by omega
    simpa [readRange, hin, hplace] using hcell
  have hsplit : ∀ m : ℕ → UInt8, messageBits (readRange m base len) =
      messageBits (readRange m base i) ++ messageBits (readRange m (base + i) n) ++
        messageBits (readRange m (base + (i + n)) k) := by
    intro m
    rw [hlen, ← readRange_append, ← readRange_append, messageBits_append, messageBits_append]
  rw [ne_eq, ← UInt32.toBitVec_inj, crc32Calc_foldl, crc32Calc_foldl, hsplit, hsplit, hfront,
    hback]
  apply crcFeed_ne_of_burst (by decide) (by decide)
  · rw [messageBits_length, messageBits_length, readRange_length, readRange_length]
  · rw [messageBits_length, readRange_length]
    omega
  · exact hwindow

theorem genericCrc32_detects_marked :
    ∃ crc₁ h₁' crc₂ h₂', genericCrc32 firmwareLink 0x08000000 0x20000 (List.replicate 128 0)
        (Host.fresh markedMemory) = .ok (crc₁, h₁') ∧
      genericCrc32 firmwareLink 0x08000000 0x20000 (List.replicate 128 0)
        (Host.fresh blankMemory) = .ok (crc₂, h₂') ∧ crc₁ ≠ crc₂ := by
  apply genericCrc32_detects (Host.fresh markedMemory) (Host.fresh blankMemory)
    (.initial markedMemory bootSymbols) (.initial blankMemory bootSymbols) rfl rfl rfl rfl
    0x08000000 0x20000 (by decide) 0x08000000
  · exact ⟨0x08000000, by decide, by decide, by decide⟩
  · intro a _ _ hne
    have ha : a = 0x08000000 := by
      by_contra h
      exact hne (if_neg h)
    omega
  · rfl
  · rfl

end BluePill
