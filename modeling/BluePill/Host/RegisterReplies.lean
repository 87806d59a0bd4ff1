import BluePill.Firmware.RegisterPackets
import BluePill.Host.ReadBack
import BluePill.Host.TargetsInit

/-! The registers that the host reads: what `regsRead` makes of the replies, and what its two
callers store for GDB. -/
namespace BluePill
open Lib

/-- A register packet is for as many registers as fit into a reply. -/
theorem regsCmd_ok (cmd : DebugCommand) (buf : Frame) (i : ℕ) {n : ℕ} (hn : 0 < n)
    (hsmall : n ≤ 65536) :
    ∃ g : Frame, MakeHead.regsCmd cmd buf i n = .ok (4, g) ∧
      g.val.take 4 = (regHeadFor cmd i (min 15 n)).encode := by
  have hreq : n * 4 % 4294967296 = n * 4 := Nat.mod_eq_of_lt (by omega)
  have hmin : (if 64 - RegReadWriteHead.size < n * 4 then 64 - RegReadWriteHead.size else n * 4) =
      4 * min 15 n := by
    show (if 60 < n * 4 then 60 else n * 4) = 4 * min 15 n
    split_ifs <;> omega
  have hmask : 4 * min 15 n &&& MakeHead.accessBitMask 4 = 4 * min 15 n := by
    have hand := and_alignMask .word (p := 4 * min 15 n) (by omega)
    rw [accessBitMask_eq]
    exact hand.trans (Nat.div_mul_cancel ⟨min 15 n, rfl⟩)
  have hcount : 4 * min 15 n / 4 = min 15 n := Nat.mul_div_cancel_left _ (by decide)
  set head := regHeadFor cmd i (min 15 n) with hhead
  have hlen : head.encode.length = 4 := RegReadWriteHead.encode_length _
  obtain ⟨g, hg, hval⟩ := store_zero_ok buf head.encode (by rw [hlen]; decide)
  refine ⟨g, ?_, by rw [hval, List.take_left' hlen]⟩
  unfold MakeHead.regsCmd
  rw [if_neg hn.ne']
  simp only [hreq, hmin, hmask, hcount]
  rw [bind_of_ok (show buf.store 0 (RegReadWriteHead.mk cmd.toByte (UInt8.ofNat (min 15 n))
    i).encode = .ok g from hg)]
  rfl

theorem readHead_reg_of_take {f : Frame} {head : RegReadWriteHead}
    (htake : f.val.take 4 = head.encode) (hi : head.regIndex < 65536) :
    readHead RegReadWriteHead.decode f.val = .ok head := by
  rw [← List.take_append_drop 4 f.val, htake]
  exact readHead_reg head _ hi

variable {σ : Type} {interface : TargetInterface σ}

theorem sendAndReceive_outBuf {n k : ℕ} {h h' : Host σ}
    (hsend : TargetSTM32F1.sendAndReceive interface n h = .ok (k, h')) : h'.outBuf = h.outBuf := by
  unfold TargetSTM32F1.sendAndReceive at hsend
  obtain ⟨packet, -, hrest⟩ := bind_eq_ok.mp hsend
  simp only at hrest
  split_ifs at hrest with hshort
  all_goals
    obtain ⟨-, rfl⟩ := Prod.mk.inj (pure_eq_ok.mp hrest)
    rfl

@[simp] theorem leWords_length (bytes : List UInt8) (n : ℕ) :
    (TargetSTM32F1.leWords bytes n).length = n := by
  simp [TargetSTM32F1.leWords]

/-- A round replaces words of the vector and adds none. -/
theorem regsReadRound_length {k offset : ℕ} {regs regs' : List UInt32} {h h' : Host σ}
    {n : Option ℕ} (hlt : offset < 4 * regs.length) (hdvd : 4 ∣ offset)
    (hlen : regs.length ≤ 65536)
    (hround : TargetSTM32F1.regsReadRound interface k (4 * regs.length) offset (regs, h) =
      .ok (n, regs', h')) : regs'.length = regs.length ∧ 4 ∣ offset + n.getD 0 := by
  obtain ⟨o, rfl⟩ := hdvd
  have hremain : (4 * regs.length - 4 * o) / 4 = regs.length - o := by omega
  set m := regs.length - o with hm
  set i := (4 * o / 4 + k) % 65536 with hi
  obtain ⟨g, hg, htake⟩ := regsCmd_ok .regsRead h.outBuf i (n := m) (by omega) (by omega)
  have hcmdHead : readHead RegReadWriteHead.decode g.val =
      .ok (regHeadFor .regsRead i (min 15 m)) :=
    readHead_reg_of_take htake (show i < 65536 by omega)
  have hcount : (regHeadFor .regsRead i (min 15 m)).regCount.toNat = min 15 m := by
    show (UInt8.ofNat (min 15 m)).toNat = _
    rw [UInt8.toNat_ofNat']
    omega
  unfold TargetSTM32F1.regsReadRound at hround
  simp only [hremain] at hround
  rw [bind_of_ok (show MakeHead.regsRead h.outBuf _ m = .ok (4, g) from hg)] at hround
  obtain ⟨⟨rxSize, h₁⟩, hsend, hround⟩ := bind_eq_ok.mp hround
  have hout : h₁.outBuf = g := sendAndReceive_outBuf hsend
  have hbreak : (pure (none, regs, h₁) : Except Fault _) = .ok (n, regs', h') →
      regs'.length = regs.length ∧ 4 ∣ 4 * o + n.getD 0 := by
    intro heq
    obtain ⟨rfl, hs⟩ := Prod.mk.inj (pure_eq_ok.mp heq)
    obtain ⟨rfl, -⟩ := Prod.mk.inj hs
    exact ⟨rfl, Nat.dvd_mul_right 4 o⟩
  simp only [hout] at hround
  split_ifs at hround with hshort
  · exact hbreak hround
  rw [bind_of_ok hcmdHead] at hround
  obtain ⟨ansHead, -, hround⟩ := bind_eq_ok.mp hround
  split_ifs at hround with hcmd hindex hle
  · exact hbreak hround
  · exact hbreak hround
  · exact hbreak hround
  obtain ⟨bytes, -, hround⟩ := bind_eq_ok.mp hround
  obtain ⟨rfl, hs⟩ := Prod.mk.inj (pure_eq_ok.mp hround)
  obtain ⟨rfl, -⟩ := Prod.mk.inj hs
  have hcount' : ansHead.regCount.toNat ≤ min 15 m := by
    rw [← hcount]
    exact UInt8.le_iff_toNat_le.mp (UInt8.not_lt.mp hle)
  constructor
  · rw [List.length_append, leWords_length, List.length_drop]
    omega
  · exact ⟨o + ansHead.regCount.toNat, by rw [Option.getD_some]; omega⟩

/-- However the device answers, there are no more registers than were asked for. -/
theorem regsRead_length {fuel k count : ℕ} {regs : List UInt32} {h h' : Host σ}
    (hcount : count ≤ 65536)
    (hread : TargetSTM32F1.regsRead interface fuel k count h = .ok (regs, h')) :
    regs.length ≤ count := by
  unfold TargetSTM32F1.regsRead at hread
  split_ifs at hread with hzero
  · obtain ⟨rfl, -⟩ := Prod.mk.inj (Except.ok.inj hread)
    exact Nat.zero_le count
  obtain ⟨⟨last, vec, h₁⟩, hloop, hrest⟩ := bind_eq_ok.mp hread
  have hinv := rounds_invariant (P := fun offset s => s.1.length = count ∧ 4 ∣ offset) (by
    rintro offset ⟨vec, h⟩ n ⟨vec', h'⟩ hlt ⟨hlen, hdvd⟩ hround
    obtain ⟨hlen', hdvd'⟩ := regsReadRound_length (k := k) (by rw [hlen]; exact hlt) hdvd
      (by omega) (by rw [hlen]; exact hround)
    exact ⟨hlen'.trans hlen, hdvd'⟩)
    ⟨List.length_replicate, Nat.dvd_zero 4⟩ hloop
  obtain ⟨rfl, -⟩ := Prod.mk.inj (pure_eq_ok.mp hrest)
  have hlen : vec.length = count := hinv.1
  split_ifs
  · exact (List.length_take_le' _ _).trans hlen.le
  · exact hlen.le

theorem regBytes_succ (context : ContextData) (i n : ℕ) :
    regBytes context i (n + 1) =
      regBytes context i n ++ toLE 4 (savedReg context (n + i)).toNat := by
  simp [regBytes, List.range_succ]

theorem leWords_regBytes (context : ContextData) (i n : ℕ) :
    TargetSTM32F1.leWords (regBytes context i n) n =
      (List.range n).map fun j => savedReg context (j + i) := by
  refine List.map_congr_left fun j hj => ?_
  have hlt := List.mem_range.mp hj
  have hword : ((regBytes context i n).drop (4 * j)).take 4 =
      toLE 4 (savedReg context (j + i)).toNat := by
    induction n with
    | zero => omega
    | succ n ih =>
      have hlen : (regBytes context i n).length = 4 * n := regBytes_length context i n
      rw [regBytes_succ]
      by_cases heq : j = n
      · subst heq
        rw [List.drop_left' hlen, List.take_of_length_le (by rw [toLE_length])]
      · rw [List.drop_append_of_le_length (by omega),
          List.take_append_of_le_length (by rw [List.length_drop]; omega)]
        exact ih (List.mem_range.mpr (by omega)) (by omega)
  rw [hword, ofLE_toLE_of_lt (savedReg context (j + i)).toNat_lt, UInt32.ofNat_toNat]

variable {h : Host Link} {d : Device} {S R : List (List UInt8)}

/-- A round of `regsRead` gets as many registers as fit into a reply, and puts them at the front
of the vector. -/
theorem regsReadRound_answers (hat : h.link.At d S R) (regs : List UInt32) {k o m n : ℕ}
    (hm : 0 < m) (hsmall : m ≤ 65536) (hn : n = min 15 m) (hk : o + k ≤ maxRegIndex)
    (hend : n + (o + k) ≤ 18) :
    ∃ h' S' R', TargetSTM32F1.regsReadRound firmwareLink k (4 * (o + m)) (4 * o) (regs, h) =
        .ok (some (n * 4), (List.range n).map (fun j => savedReg d.context (j + (o + k))) ++
          regs.drop n, h') ∧ h'.link.At d S' R' := by
  have hmax : maxRegIndex = 17 := rfl
  have hremain : (4 * (o + m) - 4 * o) / 4 = m := by omega
  set i := o + k with hi
  have hindex : (4 * o / 4 + k) % 65536 = i := by omega
  obtain ⟨g, hg, htake⟩ := regsCmd_ok .regsRead h.outBuf i hm hsmall
  rw [← hn] at htake
  set head := regHeadFor .regsRead i n with hhead
  have hlen : head.encode.length = 4 := RegReadWriteHead.encode_length _
  have hat₁ : ({ h with outBuf := g } : Host Link).link.At d S R := hat
  have hsize : (head.encode ++ regBytes d.context i n).length = 4 + 4 * n := by
    rw [List.length_append, hlen, regBytes_length]
  obtain ⟨reply, l, hsend, rfl, hl⟩ := sendAndReceive_answers hat₁ 4 htake hlen
    (usbDataOutCallback_regsRead d (by omega) hk hend) (by
      rintro reply rfl
      rw [hsize]
      omega)
  rw [← hhead] at hsend
  set inBuf := h.inBuf.receive (head.encode ++ regBytes d.context i n) with hin
  have hval : inBuf.val = head.encode ++ (regBytes d.context i n ++ h.inBuf.val.drop (4 + 4 * n)) := by
    rw [hin, Frame.receive_val _ (by omega), hsize, List.append_assoc]
  have hcmdHead : readHead RegReadWriteHead.decode g.val = .ok head :=
    readHead_reg_of_take htake (show i < 65536 by omega)
  have hansHead : readHead RegReadWriteHead.decode inBuf.val = .ok head := by
    rw [hval]
    exact readHead_reg head _ (show i < 65536 by omega)
  have hcount : head.regCount.toNat = n := by
    show (UInt8.ofNat n).toNat = n
    rw [UInt8.toNat_ofNat']
    omega
  have hbytes : readBytes inBuf.val 4 (n * 4) = .ok (regBytes d.context i n) := by
    have hbody : (regBytes d.context i n).length = n * 4 := by
      rw [regBytes_length, Nat.mul_comm]
    unfold readBytes
    rw [hval, List.drop_left' hlen, List.take_left' hbody,
      if_pos (by
        rw [List.length_append, List.length_append, hlen, hbody]
        omega)]
  refine ⟨⟨g, inBuf, l⟩, _, _, ?_, hl⟩
  unfold TargetSTM32F1.regsReadRound
  simp only [hremain]
  rw [bind_of_ok (show MakeHead.regsRead h.outBuf (4 * o / 4 + k) m = .ok (4, g) by
    rw [MakeHead.regsRead, hindex]
    exact hg)]
  simp only
  rw [bind_of_ok hsend]
  simp only [hsize, RegReadWriteHead.size]
  rw [if_neg (by omega), bind_of_ok hcmdHead, bind_of_ok hansHead]
  simp only [ne_eq, not_true_eq_false, UInt8.lt_irrefl, if_false, hcount]
  rw [bind_of_ok hbytes, leWords_regBytes]
  rfl

/-- As many registers as fit into one packet. -/
theorem regsRead_onePacket (hat : h.link.At d S R) {k n : ℕ} (hpos : 0 < n) (hn : n ≤ 15)
    (hend : n + k ≤ 18) (fuel : ℕ) :
    ∃ h' S' R', TargetSTM32F1.regsRead firmwareLink (fuel + 1) k n h =
      .ok ((List.range n).map fun j => savedReg d.context (j + k), h') ∧ h'.link.At d S' R' := by
  have hmax : maxRegIndex = 17 := rfl
  obtain ⟨h', S', R', hround, hat'⟩ := regsReadRound_answers hat (List.replicate n 0) (k := k)
    (o := 0) (m := n) (n := n) hpos (by omega) (by omega) (by omega) (by omega)
  refine ⟨h', S', R', ?_, hat'⟩
  rw [Nat.zero_add n, Nat.zero_add k] at hround
  unfold TargetSTM32F1.regsRead
  rw [if_neg hpos.ne']
  have hloop := rounds_next Fault.neverReturns fuel (show 4 * 0 < 4 * n by omega) hround
  rw [rounds_done _ _ fuel _ (by omega)] at hloop
  refine (bind_of_ok hloop).trans ?_
  simp [pure, Except.pure, Nat.mul_comm]

/-- Two more registers than one packet holds take a second one, and its registers land in the places
of the first ones. -/
theorem regsRead_twoPackets (hat : h.link.At d S R) {k n : ℕ} (hlo : 15 < n) (hhi : n ≤ 30)
    (hend : n + k ≤ 18) (fuel : ℕ) :
    ∃ h' S' R', TargetSTM32F1.regsRead firmwareLink (fuel + 2) k n h =
      .ok ((List.range (n - 15)).map (fun j => savedReg d.context (j + (15 + k))) ++
        ((List.range 15).map (fun j => savedReg d.context (j + k)) ++
          List.replicate (n - 15) 0).drop (n - 15), h') ∧ h'.link.At d S' R' := by
  have hmax : maxRegIndex = 17 := rfl
  obtain ⟨m, rfl⟩ : ∃ m, n = 15 + m := ⟨n - 15, by omega⟩
  obtain ⟨h₁, S₁, R₁, hfirst, hat₁⟩ := regsReadRound_answers hat (List.replicate (15 + m) 0)
    (k := k) (o := 0) (m := 15 + m) (n := 15) (by omega) (by omega) (by omega) (by omega) (by omega)
  rw [Nat.zero_add (15 + m), Nat.zero_add k, List.drop_replicate, Nat.add_sub_cancel_left] at hfirst
  obtain ⟨h₂, S₂, R₂, hsecond, hat₂⟩ := regsReadRound_answers hat₁
    ((List.range 15).map (fun j => savedReg d.context (j + k)) ++ List.replicate m 0) (k := k)
    (o := 15) (m := m) (n := m) (by omega) (by omega) (by omega) (by omega) (by omega)
  refine ⟨h₂, S₂, R₂, ?_, hat₂⟩
  have hloop : rounds (TargetSTM32F1.regsReadRound firmwareLink k (4 * (15 + m))) (4 * (15 + m))
      Fault.neverReturns (fuel + 2) 0 (List.replicate (15 + m) 0, h) = .ok (60 + m * 4, _, h₂) :=
    (rounds_next _ (fuel + 1) (by omega) hfirst).trans
      ((rounds_next _ fuel (by omega) hsecond).trans (rounds_done _ _ fuel _ (by omega)))
  unfold TargetSTM32F1.regsRead
  rw [if_neg (by omega)]
  refine (bind_of_ok hloop).trans ?_
  simp only
  rw [if_neg (by omega), Nat.add_sub_cancel_left]
  rfl

/-- One register. -/
theorem regsRead_one (hat : h.link.At d S R) {k : ℕ} (hk : k ≤ maxRegIndex) (fuel : ℕ) :
    ∃ h' S' R', TargetSTM32F1.regsRead firmwareLink (fuel + 1) k 1 h =
      .ok ([savedReg d.context k], h') ∧ h'.link.At d S' R' := by
  have hmax : maxRegIndex = 17 := rfl
  obtain ⟨h', S', R', hread, hat'⟩ := regsRead_onePacket hat (k := k) (n := 1) (by decide)
    (by decide) (by omega) fuel
  refine ⟨h', S', R', ?_, hat'⟩
  rw [hread, List.range_one, List.map_singleton, Nat.zero_add]

/-- The sixteen registers take two packets; the one register of the second packet lands in the
place of register 0. -/
theorem regsRead_sixteen (hat : h.link.At d S R) (fuel : ℕ) :
    ∃ h' S' R', TargetSTM32F1.regsRead firmwareLink (fuel + 2) 0 16 h =
      .ok (savedReg d.context 15 :: (List.range 14).map (fun j => savedReg d.context (j + 1)) ++
        [0], h') ∧ h'.link.At d S' R' :=
  regsRead_twoPackets hat (k := 0) (n := 16) (by decide) (by decide) (by decide) fuel

/-- The 64 bytes that `stm32_regs_read` stores are the sixteen registers, in order and low byte
first. -/
def FileStored (h : Host Link) (d : Device) : Prop :=
  ∃ fuel h', stm32RegsRead firmwareLink fuel h = .ok (regBytes d.context 0 16, h')

/-- The four bytes that `stm32_reg_read` stores for register `k` are those at `4 * k` of what
`stm32_regs_read` stores. -/
def RegisterStored (h : Host Link) (k : ℕ) : Prop :=
  ∃ fuel file stored h₁ h₂, stm32RegsRead firmwareLink fuel h = .ok (file, h₁) ∧
    stm32RegRead firmwareLink fuel k 8 h = .ok (4, stored, h₂) ∧
    ∀ j < 4, ∃ b, stored[j]? = some b ∧ file[4 * k + j]? = some b

/-- The two ways to read the registers agree with the context and with each other. -/
def ReadPathsAgree (h : Host Link) (d : Device) : Prop :=
  FileStored h d ∧ ∀ k < 16, RegisterStored h k

theorem deviceRegister_common {k : ℕ} (hk : k ≤ 16) : deviceRegister k = some k := by
  rw [deviceRegister, if_pos (.inl hk), Nat.mod_eq_of_lt (by omega)]

theorem not_fileStored (h : Host Link) (d : Device) : ¬ FileStored h d := by
  rintro ⟨fuel, h', hstored⟩
  obtain ⟨⟨regs, h₁⟩, hread, hrest⟩ := bind_eq_ok.mp hstored
  have hlen := regsRead_length (by decide) hread
  have hbytes := congrArg List.length (Prod.mk.inj (pure_eq_ok.mp hrest)).1
  rw [List.length_map, regBytes_length] at hbytes
  omega

theorem not_registerStored (h : Host Link) {k : ℕ} (hk : k < 16) : ¬ RegisterStored h k := by
  rintro ⟨fuel, file, stored, h₁, h₂, -, hstored, hbytes⟩
  unfold stm32RegRead at hstored
  simp only [deviceRegister_common hk.le] at hstored
  obtain ⟨⟨regs, h₃⟩, hread, hrest⟩ := bind_eq_ok.mp hstored
  have hlen := regsRead_length (by decide) hread
  obtain ⟨-, hs⟩ := Prod.mk.inj (pure_eq_ok.mp hrest)
  obtain ⟨rfl, -⟩ := Prod.mk.inj hs
  obtain ⟨b, hb, -⟩ := hbytes 1 (by decide)
  rw [List.getElem?_eq_none (by rw [List.length_map]; exact hlen)] at hb
  cases hb

/-- One byte of each register arrives: `stm32_regs_read` stores sixteen bytes, the first of them
from register 15 and the last from none, and `stm32_reg_read` stores one. So the two never agree
with the context or with each other. -/
theorem registerReads_keepLowBytes (h : Host Link) (d : Device) (hdev : h.link.device = some d)
    (hfree : d.inEndpoint = none) :
    (∃ h', stm32RegsRead firmwareLink 2 h = .ok ((savedReg d.context 15).toUInt8 ::
        (List.range 14).map (fun j => (savedReg d.context (j + 1)).toUInt8) ++ [0], h')) ∧
      (∀ k < 16, ∃ h', stm32RegRead firmwareLink 1 k 8 h =
        .ok (4, [(savedReg d.context k).toUInt8], h')) ∧
      ¬ FileStored h d ∧ ∀ k < 16, ¬ RegisterStored h k := by
  have hmax : maxRegIndex = 17 := rfl
  have hat := Link.at_of_device hdev hfree
  refine ⟨?_, fun k hk => ?_, not_fileStored h d, fun k hk => not_registerStored h hk⟩
  · obtain ⟨h', -, -, hread, -⟩ := regsRead_sixteen hat 0
    refine ⟨h', (bind_of_ok hread).trans ?_⟩
    simp [pure, Except.pure]
  · obtain ⟨h', -, -, hread, -⟩ := regsRead_one hat (k := k) (by omega) 0
    refine ⟨h', ?_⟩
    unfold stm32RegRead
    simp only [deviceRegister_common hk.le]
    exact bind_of_ok hread

/-- A context of zeros. -/
theorem registerReads_keepLowBytes_reset :
    ¬ FileStored (.fresh blankMemory) (.initial blankMemory bootSymbols) ∧
      ∀ k < 16, ¬ RegisterStored (.fresh blankMemory) k := by
  exact (registerReads_keepLowBytes (.fresh blankMemory) (.initial blankMemory bootSymbols) rfl
    rfl).2.2

theorem not_readPathsAgree :
    ¬ ReadPathsAgree (.fresh blankMemory) (.initial blankMemory bootSymbols) :=
  fun h => not_fileStored _ _ h.1

end BluePill
