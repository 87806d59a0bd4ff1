import BluePill.Host.RegisterReplies

/-! Register files that take more than one packet: fifteen registers fit into each. -/
namespace BluePill
open Lib

variable {h : Host Link} {d : Device} {S R : List (List UInt8)}

/-- `regsRead` returns the `n` context words from `i` on in order. -/
def ReadsInOrder (h : Host Link) (d : Device) (i n : ℕ) : Prop :=
  ∃ fuel h', TargetSTM32F1.regsRead firmwareLink fuel i n h =
    .ok ((List.range n).map fun k => savedReg d.context (i + k), h')

/-- The word in place `k` when two packets have been read. -/
def assembled (context : ContextData) (i n k : ℕ) : UInt32 :=
  if k < n - 15 then savedReg context (k + (15 + i))
  else if k < 15 then savedReg context (k + i) else 0

theorem twoPackets_eq (context : ContextData) (i : ℕ) {n : ℕ} (hlo : 15 < n) (hhi : n ≤ 30) :
    (List.range (n - 15)).map (fun j => savedReg context (j + (15 + i))) ++
        ((List.range 15).map (fun j => savedReg context (j + i)) ++
          List.replicate (n - 15) 0).drop (n - 15) =
      (List.range n).map (assembled context i n) := by
  apply List.ext_getElem
  · simp only [List.length_append, List.length_map, List.length_range, List.length_drop,
      List.length_replicate]
    omega
  · intro k hk hk'
    have hkn : k < n := by simpa using hk'
    simp only [List.getElem_append, List.getElem_map, List.getElem_range, List.getElem_drop,
      List.getElem_replicate, List.length_map, List.length_range, assembled]
    by_cases hfront : k < n - 15
    · rw [dif_pos hfront, if_pos hfront]
    · rw [dif_neg hfront, if_neg hfront]
      by_cases hold : k < 15
      · rw [dif_pos (by omega), if_pos hold]
        congr 1
        omega
      · rw [dif_neg (by omega), if_neg hold]

theorem regsRead_returns {fuel fuel' i n : ℕ} {r : List UInt32 × Host Link} (hle : fuel ≤ fuel')
    (h' : TargetSTM32F1.regsRead firmwareLink fuel i n h = .ok r) :
    TargetSTM32F1.regsRead firmwareLink fuel' i n h = .ok r := by
  unfold TargetSTM32F1.regsRead at h' ⊢
  split_ifs at h' ⊢
  · exact h'
  · obtain ⟨s, hloop, hend⟩ := bind_eq_ok.mp h'
    exact bind_eq_ok.mpr ⟨s, rounds_more hle hloop, hend⟩

/-- What two packets leave in the vector is in order when each place has its own word. -/
theorem readsInOrder_iff_assembled {d : Device} (hat : h.link.At d S R) {i n : ℕ} (hn : 15 < n)
    (hend : i + n ≤ 17) :
    ReadsInOrder h d i n ↔ ∀ k < n, assembled d.context i n k = savedReg d.context (i + k) := by
  obtain ⟨h', -, -, hread, -⟩ := regsRead_twoPackets hat (k := i) (n := n) hn (by omega)
    (by omega) 0
  rw [twoPackets_eq d.context i hn (by omega)] at hread
  constructor
  · rintro ⟨fuel, h₁, hread₁⟩ k hk
    have hboth := (regsRead_returns (Nat.le_add_left fuel 2) hread₁).symm.trans
      (regsRead_returns (Nat.le_add_right 2 fuel) hread)
    obtain ⟨hlist, -⟩ := Prod.mk.inj (Except.ok.inj hboth)
    exact (List.map_inj_left.mp hlist k (List.mem_range.mpr hk)).symm
  · intro hall
    refine ⟨2, h', hread.trans ?_⟩
    rw [List.map_inj_left.mpr fun k hk => hall k (List.mem_range.mp hk)]

/-- One packet is enough, or the words of the second packet and those that they fall on are all
zero. -/
theorem readsInOrder_iff (h : Host Link) (d : Device) (hdev : h.link.device = some d)
    (hfree : d.inEndpoint = none) {i n : ℕ} (hend : i + n ≤ 17) :
    ReadsInOrder h d i n ↔ n ≤ 15 ∨ ∀ k, 15 ≤ k → k < n →
      savedReg d.context (i + k) = 0 ∧ savedReg d.context (i + (k - 15)) = 0 := by
  have hat := Link.at_of_device hdev hfree
  by_cases hn : n ≤ 15
  · refine iff_of_true ?_ (Or.inl hn)
    by_cases hzero : n = 0
    · subst hzero
      exact ⟨0, h, rfl⟩
    · obtain ⟨h', -, -, hread, -⟩ := regsRead_onePacket hat (k := i) (n := n) (by omega) hn
        (by omega) 0
      refine ⟨1, h', hread.trans ?_⟩
      simp only [Nat.add_comm i]
  · rw [readsInOrder_iff_assembled hat (not_le.mp hn) hend]
    constructor
    · intro hall
      refine Or.inr fun k hlo hk => ?_
      have hlast := hall k hk
      rw [assembled, if_neg (by omega), if_neg (by omega)] at hlast
      have hfirst := hall (k - 15) (by omega)
      rw [assembled, if_pos (by omega), show k - 15 + (15 + i) = i + k by omega] at hfirst
      exact ⟨hlast.symm, hfirst.symm.trans hlast.symm⟩
    · rintro (hle | hzero) k hk
      · exact absurd hle hn
      · unfold assembled
        split_ifs with hfront hold
        · obtain ⟨hlast, hfirst⟩ := hzero (k + 15) (by omega) (by omega)
          rw [show k + (15 + i) = i + (k + 15) by omega, hlast, ← hfirst, Nat.add_sub_cancel]
        · rw [Nat.add_comm]
        · exact (hzero k (by omega) hk).1.symm

/-- The register file of a context of zeros comes out right. -/
theorem readsInOrder_iff_reset :
    ReadsInOrder (.fresh blankMemory) (.initial blankMemory bootSymbols) 0 17 ↔
      17 ≤ 15 ∨ ∀ k, 15 ≤ k → k < 17 →
        savedReg (Device.initial blankMemory bootSymbols).context (0 + k) = 0 ∧
        savedReg (Device.initial blankMemory bootSymbols).context (0 + (k - 15)) = 0 :=
  readsInOrder_iff (.fresh blankMemory) (.initial blankMemory bootSymbols) rfl rfl (by decide)

/-- A device after reset whose register 15 is saved as 1. -/
def Device.atOne : Device :=
  { Device.initial blankMemory bootSymbols with context := (Vector.replicate 19 0).set 15 1 }

/-- Register 15 comes out as register 0. -/
theorem not_readsInOrder :
    ¬ ReadsInOrder ⟨.zero, .zero, ⟨some Device.atOne, [], []⟩⟩ Device.atOne 0 16 := by
  have hat : Link.At ⟨some Device.atOne, [], []⟩ Device.atOne [] [] :=
    Link.at_of_device rfl rfl
  intro hreads
  have hfirst := (readsInOrder_iff_assembled hat (i := 0) (n := 16) (by decide)
    (by decide)).mp hreads 0 (by decide)
  exact absurd hfirst (by decide)

/-- `regsWrite` returns the number of words, having stored them from `i` on and nothing else. -/
def WritesExactly (h : Host Link) (d : Device) (i : ℕ) (v : List UInt32) : Prop :=
  ∃ h' e S R, TargetSTM32F1.regsWrite firmwareLink i v h = .ok (v.length, h') ∧
    h'.link.At e S R ∧ (∀ k < v.length, savedReg e.context (i + k) = v.getD k 0) ∧
    ∀ j < 19, (∀ k < v.length, j ≠ i + k) → savedReg e.context j = savedReg d.context j

/-- The first round of `regsWrite` stores as many words as fit into a packet. -/
theorem regsWriteRound_answers (hat : h.link.At d S R) {i n : ℕ} {v : List UInt32}
    (hpos : 0 < v.length) (hsmall : v.length ≤ 65536) (hn : n = min 15 v.length)
    (hi : i ≤ maxRegIndex) (hend : n + i ≤ 18) :
    ∃ h' S' R', TargetSTM32F1.regsWriteRound firmwareLink i v 0 h = .ok (n * 4, h') ∧
      h'.link.At { d with context := putRegs d.context i n (v.getD · 0) } S' R' := by
  have hmax : maxRegIndex = 17 := rfl
  obtain ⟨g, hg, htake⟩ := regsCmd_ok .regsWrite h.outBuf i hpos hsmall
  rw [← hn] at htake
  set head := regHeadFor .regsWrite i n with hhead
  set bytes := (v.take n).flatMap fun w => toLE 4 w.toNat with hbytes
  have hlen : head.encode.length = 4 := RegReadWriteHead.encode_length _
  have htaken : (v.take n).length = n := by
    rw [List.length_take]
    omega
  have hbytesLen : bytes.length = n * 4 := by
    rw [hbytes, flatMap_words_length, htaken, Nat.mul_comm]
  have hcmdHead : readHead RegReadWriteHead.decode g.val = .ok head :=
    readHead_reg_of_take htake (show i < 65536 by omega)
  have hcount : head.regCount.toNat = n := by
    show (UInt8.ofNat n).toNat = n
    rw [UInt8.toNat_ofNat']
    omega
  have hread : readBytes (v.flatMap fun w => toLE 4 w.toNat) 0 (n * 4) = .ok bytes := by
    have hfront : (v.flatMap fun w => toLE 4 w.toNat) =
        bytes ++ (v.drop n).flatMap fun w => toLE 4 w.toNat := by
      rw [hbytes, ← List.flatMap_append, List.take_append_drop]
    unfold readBytes
    rw [if_pos (by
      rw [flatMap_words_length]
      omega), List.drop_zero, hfront, List.take_left' hbytesLen]
  obtain ⟨f, hf, hfval⟩ := g.store_ok 4 bytes (by omega)
  have hpacketLen : (head.encode ++ bytes).length = 4 + n * 4 := by
    rw [List.length_append, hlen, hbytesLen]
  have hftake : f.val.take (4 + n * 4) = head.encode ++ bytes := by
    rw [hfval, htake, List.take_left' hpacketLen]
  have hat₁ : ({ h with outBuf := f } : Host Link).link.At d S R := hat
  have hanswers := usbDataOutCallback_regsWriteAll d (i := i) (v := v.take n) (by omega) hi
    (by omega)
  rw [htaken] at hanswers
  obtain ⟨reply, l, hsend, rfl, hl⟩ := sendAndReceive_answers hat₁ (4 + n * 4) hftake hpacketLen
    hanswers (by
      rintro reply rfl
      rw [hlen]
      decide)
  have hput : putRegs d.context i n ((v.take n).getD · 0) = putRegs d.context i n (v.getD · 0) :=
    putRegs_congr d.context i fun k hk => by
      simp only [List.getD_eq_getElem?_getD, List.getElem?_take_of_lt hk]
  rw [hput] at hl
  have hansHead : readHead RegReadWriteHead.decode (h.inBuf.receive head.encode).val = .ok head := by
    rw [Frame.receive_val _ (by
      rw [hlen]
      decide)]
    exact readHead_reg head _ (show i < 65536 by omega)
  refine ⟨⟨f, h.inBuf.receive head.encode, l⟩, _, _, ?_, hl⟩
  unfold TargetSTM32F1.regsWriteRound
  rw [bind_of_ok (show MakeHead.regsWrite h.outBuf (0 / 4 + i) v = .ok (4, g) by
    rw [MakeHead.regsWrite, show (0 / 4 + i) % 256 = i by omega]
    exact hg)]
  simp only
  rw [bind_of_ok hcmdHead]
  simp only [hcount]
  rw [bind_of_ok hread, bind_of_ok hf, bind_of_ok hsend]
  rw [if_neg (show ¬ head.encode.length < RegReadWriteHead.size from hlen.not_lt),
    bind_of_ok hansHead]
  have hne : head.regCount ≠ 0 := fun hzero => by
    rw [hzero] at hcount
    have hzero' : 0 = n := hcount
    omega
  simp only [ne_eq, not_true_eq_false, UInt8.lt_irrefl, if_false, hne, hcount]
  rfl

/-- The second round copies fifteen words again, past the end of the vector. -/
theorem regsWriteRound_leaves {σ : Type} (interface : TargetInterface σ) (h : Host σ) (i : ℕ)
    {v : List UInt32} (hlo : 15 < v.length) (hhi : v.length < 30) :
    TargetSTM32F1.regsWriteRound interface i v 60 h = .error .outOfBounds := by
  obtain ⟨g, hg, htake⟩ := regsCmd_ok .regsWrite h.outBuf ((60 / 4 + i) % 256) (n := v.length)
    (by omega) (by omega)
  rw [show min 15 v.length = 15 by omega] at htake
  have hcmdHead := readHead_reg_of_take htake
    (show (60 / 4 + i) % 256 < 65536 by omega)
  unfold TargetSTM32F1.regsWriteRound
  rw [bind_of_ok (show MakeHead.regsWrite h.outBuf (60 / 4 + i) v = .ok (4, g) from hg)]
  simp only
  rw [bind_of_ok hcmdHead]
  apply bind_of_error
  unfold readBytes
  rw [if_neg]
  rw [flatMap_words_length]
  show ¬ 60 + 15 * 4 ≤ 4 * v.length
  omega

theorem regsWrite_leaves (hat : h.link.At d S R) {i : ℕ} {v : List UInt32} (hlo : 15 < v.length)
    (hend : i + v.length ≤ 17) :
    TargetSTM32F1.regsWrite firmwareLink i v h = .error .outOfBounds := by
  have hmax : maxRegIndex = 17 := rfl
  obtain ⟨h₁, S₁, R₁, hfirst, -⟩ := regsWriteRound_answers hat (i := i) (n := 15) (v := v)
    (by omega) (by omega) (by omega) (by omega) (by omega)
  unfold TargetSTM32F1.regsWrite
  rw [if_neg (by omega)]
  apply bind_of_error
  exact (transfer_round (by omega) hfirst (by decide)).trans
    (transfer_fails (by omega) (regsWriteRound_leaves firmwareLink h₁ i hlo (by omega)))

/-- Words that fit into one packet are written exactly, and more are not. -/
theorem writesExactly_iff (h : Host Link) (d : Device) (hdev : h.link.device = some d)
    (hfree : d.inEndpoint = none) {i : ℕ} {v : List UInt32} (hend : i + v.length ≤ 17) :
    WritesExactly h d i v ↔ v.length ≤ 15 := by
  have hmax : maxRegIndex = 17 := rfl
  have hat := Link.at_of_device hdev hfree
  constructor
  · rintro ⟨h', e, S, R, hwrite, -⟩
    by_contra hlo
    rw [regsWrite_leaves hat (not_le.mp hlo) hend] at hwrite
    cases hwrite
  · intro hfits
    by_cases hzero : v.length = 0
    · refine ⟨h, d, _, _, ?_, hat, ?_, fun j _ _ => rfl⟩
      · rw [TargetSTM32F1.regsWrite, if_pos hzero, hzero]
      · intro k hk
        exact absurd hk (by omega)
    · obtain ⟨h', S', R', hround, hat'⟩ := regsWriteRound_answers hat (i := i) (n := v.length)
        (v := v) (by omega) (by omega) (by omega) (by omega) (by omega)
      have hrun := (transfer_round (by omega) hround (by omega)).trans
        (transfer_done _ h' (show 4 * v.length ≤ 0 + v.length * 4 by omega))
      refine ⟨h', _, S', R', ?_, hat', ?_, ?_⟩
      · unfold TargetSTM32F1.regsWrite
        rw [if_neg hzero, bind_of_ok hrun]
        simp [pure, Except.pure]
      · intro k hk
        rw [savedReg_putRegs _ _ (by omega), if_pos (by omega), Nat.add_sub_cancel_left]
      · intro j _ hout
        rw [savedReg_putRegs _ _ (by omega), if_neg]
        rintro ⟨hle, hlt⟩
        exact hout (j - i) (by omega) (by omega)

/-- Two registers. -/
theorem writesExactly_iff_two :
    WritesExactly (.fresh blankMemory) (.initial blankMemory bootSymbols) 15 [1, 2] ↔ 2 ≤ 15 :=
  writesExactly_iff (.fresh blankMemory) (.initial blankMemory bootSymbols) rfl rfl (by decide)

/-- Sixteen registers are read from behind their vector. -/
theorem not_writesExactly :
    ¬ WritesExactly (.fresh blankMemory) (.initial blankMemory bootSymbols) 0
      (List.replicate 16 1) := by
  rintro ⟨h', e, S, R, hwrite, -⟩
  have hat := Link.at_of_device (l := (Host.fresh blankMemory).link)
    (d := .initial blankMemory bootSymbols) rfl rfl
  rw [regsWrite_leaves hat (by decide) (by decide)] at hwrite
  cases hwrite

end BluePill
