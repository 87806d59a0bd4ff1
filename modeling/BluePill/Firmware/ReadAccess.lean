import BluePill.Firmware.PacketBounds

/-! Which addresses a MemoryRead packet makes the target read: the check of the access table
against the accesses of the copy loop. -/
namespace BluePill
open Lib

/-- What `memoryReadCommand` makes of the packet: every access of the copy loop lies inside one
single entry of the table, and a byte at an address outside all entries is answered with
`0xFF`. -/
def ReadConfined (inBuf : List UInt8) (inSize : ℕ) (outBuf : Frame) (d : Device) : Prop :=
  ∃ n f e xs, memoryReadCommand inBuf inSize outBuf 64 d = .ok (n, f, e) ∧
    e.accesses = d.accesses ++ xs ∧
    (∃ r ∈ memoryAccessRegions, ∀ x ∈ xs, r.first ≤ x.address ∧ x.address + x.width ≤ r.last) ∧
    ∀ head ∈ MemReadWriteHead.decode inBuf, ∀ i, 8 + i < n →
      ¬ InOneRegion ((head.address + i) % 4294967296) ((head.address + i) % 4294967296 + 1) →
      f.val[8 + i]? = some 0xFF

/-- The bytes that a read packet asks for, as the handler cuts them. -/
def readPayload (head : MemReadWriteHead) : ℕ :=
  payloadSize MemReadWriteHead.size 64 head.byteCount head.align.toNat

/-- The end of the range that the packet names does not fit into 32 bits. -/
def ReadWraps (inBuf : List UInt8) (inSize : ℕ) : Prop :=
  MemReadWriteHead.size ≤ inSize ∧
    ∃ head ∈ MemReadWriteHead.decode inBuf, 4294967296 ≤ head.address + readPayload head

instance (inBuf : List UInt8) (inSize : ℕ) : Decidable (ReadWraps inBuf inSize) := by
  unfold ReadWraps
  infer_instance

/-- The bytes copied so far have been read from inside `[a, a + off)`. -/
def ReadInside (d : Device) (a off : ℕ) (s : Frame × Device) : Prop :=
  ∃ xs, s.2.accesses = d.accesses ++ xs ∧ ∀ x ∈ xs, a ≤ x.address ∧ x.address + x.width ≤ a + off

theorem ReadInside.step {d : Device} {a off : ℕ} {s : Frame × Device} {w : AccessWidth}
    (h : ReadInside d a off s) (hfits : off + w.bytes ≤ 56) (hwrap : a + off < 4294967296) :
    ∃ s', copyFromTarget a 8 w off s = .ok s' ∧ ReadInside d a (off + w.bytes) s' := by
  obtain ⟨xs, hxs, hall⟩ := h
  have hsrc : (a + off) % 4294967296 = a + off := Nat.mod_eq_of_lt hwrap
  obtain ⟨g, hg⟩ := exists_store s.1 (8 + off) (readRange s.2.mem (a + off) w.bytes)
    (by rw [readRange_length]; omega)
  refine ⟨(g, { s.2 with accesses := s.2.accesses ++ [⟨a + off, w.bytes⟩] }), ?_,
    xs ++ [⟨a + off, w.bytes⟩], ?_, ?_⟩
  · unfold copyFromTarget
    simp only [hsrc]
    rw [bind_of_ok hg]
    rfl
  · show s.2.accesses ++ _ = _
    rw [hxs, List.append_assoc]
  · intro x hx
    rcases List.mem_append.mp hx with hx | hx
    · have hin := hall x hx
      omega
    · obtain rfl := List.mem_singleton.mp hx
      exact ⟨Nat.le_add_right a off, by simp only [Nat.add_assoc, le_refl]⟩

theorem dbgMemcpy_readInside (d : Device) (f : Frame) {a n align : ℕ} (hn : n ≤ 56)
    (hdvd : (accessWidth align).bytes ∣ n) (hwrap : a + n < 4294967296) :
    ∃ s, dbgMemcpy (copyFromTarget a 8) n align (f, d) = .ok s ∧ ReadInside d a n s := by
  have hpos := (accessWidth align).bytes_pos
  have hstart : ReadInside d a 0 (f, d) := ⟨[], (List.append_nil _).symm, by simp⟩
  obtain ⟨s, hs, hread⟩ := dbgMemcpyLoop_invariant (ReadInside d a) hdvd hstart (by
    intro off s h _ _ hoff
    exact h.step (by omega) (by omega))
  rw [Nat.zero_add] at hread
  exact ⟨s, hs, hread⟩

/-- A copy that moves anything begins with an access at its address. -/
theorem dbgMemcpy_reads (d : Device) (f : Frame) {a n align : ℕ} (ha : a < 4294967296)
    (hn : n ≠ 0) : Ensures (dbgMemcpy (copyFromTarget a 8) n align (f, d)) fun s =>
      ∃ xs, s.2.accesses = d.accesses ++ ⟨a, (accessWidth align).bytes⟩ :: xs := by
  set w := accessWidth align
  have hsrc : (a + 0) % 4294967296 = a := Nat.mod_eq_of_lt ha
  have hfirst : Ensures (copyFromTarget a 8 w 0 (f, d)) fun s =>
      ∃ xs, s.2.accesses = d.accesses ++ ⟨a, w.bytes⟩ :: xs := by
    unfold copyFromTarget
    simp only [hsrc]
    exact (Ensures.any _).bind fun g _ => .ok ⟨[], rfl⟩
  have hnext : ∀ off (t : Frame × Device), (∃ xs, t.2.accesses = d.accesses ++ ⟨a, w.bytes⟩ :: xs) →
      Ensures (copyFromTarget a 8 w off t) fun s =>
        ∃ xs, s.2.accesses = d.accesses ++ ⟨a, w.bytes⟩ :: xs := by
    rintro off t ⟨xs, hxs⟩
    unfold copyFromTarget
    refine (Ensures.any _).bind fun g _ => .ok ⟨xs ++ [⟨(a + off) % 4294967296, w.bytes⟩], ?_⟩
    show t.2.accesses ++ _ = _
    rw [hxs, List.append_assoc, List.cons_append]
  unfold dbgMemcpy
  rw [dbgMemcpyLoop]
  refine Ensures.ite (fun h => absurd h hn) fun _ => ?_
  refine Ensures.ite (fun _ => .error _) fun _ => ?_
  exact hfirst.bind fun s hs => dbgMemcpyLoop_ensures _ _ _ hnext _ _ s hs

section

variable {inBuf : List UInt8} {inSize : ℕ} (outBuf : Frame) (d : Device)

/-- The steps of `memoryReadCommand` behind its head. -/
theorem memoryReadCommand_eq (hc : commandOf inBuf = some .memoryRead)
    (hhead : MemReadWriteHead.size ≤ inSize) {head : MemReadWriteHead}
    (hread : readHead MemReadWriteHead.decode inBuf = .ok head) :
    ∃ f : Frame, memoryReadCommand inBuf inSize outBuf 64 d =
      if InOneRegion head.address ((head.address + readPayload head) % 4294967296) then
        dbgMemcpy (copyFromTarget head.address 8) (readPayload head) head.align.toNat (f, d) >>=
          fun s => pure (8 + readPayload head, s.1, s.2)
      else
        f.store 8 (List.replicate (readPayload head) 0xFF) >>=
          fun g => pure (8 + readPayload head, g, d) := by
  obtain ⟨f, hf⟩ := exists_store outBuf 0 (MemReadWriteHead.mk DebugCommand.memoryRead.toByte
    head.align (readPayload head) head.address).encode (by
      rw [MemReadWriteHead.encode_length]
      decide)
  refine ⟨f, ?_⟩
  unfold memoryReadCommand
  rw [bind_of_ok (dbgHeadValid_command hc hhead)]
  simp only [Bool.not_true, Bool.false_eq_true, if_false]
  rw [bind_of_ok hread]
  simp only [checkMemRegionAccess_and]
  exact bind_of_ok hf

/-- All entries of the table end far below the top of the address space, and all of them begin
above the wrapped end of a range there. -/
theorem memoryAccessRegions_bounds :
    ∀ r ∈ memoryAccessRegions, r.first ≤ 0xE0000000 ∧ 56 ≤ r.last ∧ r.last ≤ 0xE0100000 := by
  decide

theorem address_lt {inBuf : List UInt8} {head : MemReadWriteHead}
    (h : MemReadWriteHead.decode inBuf = some head) : head.address < 4294967296 := by
  unfold MemReadWriteHead.decode at h
  split at h
  next c al n₀ n₁ a₀ a₁ a₂ a₃ rest =>
    obtain rfl := Option.some.inj h
    have h₀ := a₀.toNat_lt
    have h₁ := a₁.toNat_lt
    have h₂ := a₂.toNat_lt
    have h₃ := a₃.toNat_lt
    simp only [ofLE]
    omega
  next => cases h

/-- A range over the end of the address space passes the check, and its first byte, which no
entry holds, is read. -/
theorem not_readConfined_of_wraps (hc : commandOf inBuf = some .memoryRead)
    (hwraps : ReadWraps inBuf inSize) : ¬ ReadConfined inBuf inSize outBuf d := by
  obtain ⟨hhead, head, hdecode, hend⟩ := hwraps
  have hdecode := Option.mem_def.mp hdecode
  have ha := address_lt hdecode
  have hn : readPayload head ≤ 56 := payloadSize_le _ _ _ _
  have hpass : InOneRegion head.address ((head.address + readPayload head) % 4294967296) := by
    have hr := memoryAccessRegions_bounds ⟨0x08000000, 0x08020000, 0x03⟩ (by decide)
    exact ⟨⟨0x08000000, 0x08020000, 0x03⟩, by decide, by omega, by omega⟩
  obtain ⟨f, heq⟩ := memoryReadCommand_eq outBuf d hc hhead
    (show readHead MemReadWriteHead.decode inBuf = .ok head by rw [readHead, hdecode])
  rintro ⟨n, g, e, xs, hcall, hxs, ⟨r, hr, hall⟩, -⟩
  rw [heq, if_pos hpass] at hcall
  obtain ⟨s, hs, hpure⟩ := bind_eq_ok.mp hcall
  obtain ⟨ys, hys⟩ := dbgMemcpy_reads d f ha (show readPayload head ≠ 0 by omega) s hs
  obtain rfl : s.2 = e := congrArg (fun t => t.2.2) (Except.ok.inj hpure)
  have hlist : xs = ⟨head.address, (accessWidth head.align.toNat).bytes⟩ :: ys :=
    List.append_cancel_left (hxs.symm.trans hys)
  have hfirst := hall ⟨head.address, (accessWidth head.align.toNat).bytes⟩ (by
    rw [hlist]
    exact List.mem_cons_self)
  have hbounds := memoryAccessRegions_bounds r hr
  have hlast : head.address + (accessWidth head.align.toNat).bytes ≤ r.last := hfirst.2
  omega

theorem readConfined_of_not_wraps (hc : commandOf inBuf = some .memoryRead)
    (hfits : inSize ≤ inBuf.length) (hin : ¬ ReadWraps inBuf inSize) :
    ReadConfined inBuf inSize outBuf d := by
  by_cases hhead : MemReadWriteHead.size ≤ inSize
  · obtain ⟨head, hdecode⟩ := exists_memReadWriteHead (hhead.trans hfits)
    have hwrap : head.address + readPayload head < 4294967296 := by
      by_contra hge
      exact hin ⟨hhead, head, hdecode, not_lt.mp hge⟩
    have hn : readPayload head ≤ 56 := payloadSize_le _ _ _ _
    obtain ⟨f, heq⟩ := memoryReadCommand_eq outBuf d hc hhead
      (show readHead MemReadWriteHead.decode inBuf = .ok head by rw [readHead, hdecode])
    rw [Nat.mod_eq_of_lt hwrap] at heq
    by_cases hregion : InOneRegion head.address (head.address + readPayload head)
    · obtain ⟨r, hr, hfirst, hlast⟩ := hregion
      obtain ⟨s, hs, xs, hxs, hall⟩ := dbgMemcpy_readInside d f hn
        (accessWidth_dvd_payloadSize _ head.byteCount head.align.toNat (by decide)) hwrap
      refine ⟨8 + readPayload head, s.1, s.2, xs, ?_, hxs, ⟨r, hr, ?_⟩, ?_⟩
      · rw [heq, if_pos ⟨r, hr, hfirst, hlast⟩]
        exact bind_of_ok hs
      · intro x hx
        have hin := hall x hx
        omega
      · intro head' hhead' i hi hout
        obtain rfl := Option.some.inj (hdecode.symm.trans hhead')
        refine absurd ⟨r, hr, ?_, ?_⟩ hout
        · rw [Nat.mod_eq_of_lt (by omega)]
          omega
        · rw [Nat.mod_eq_of_lt (by omega)]
          omega
    · obtain ⟨g, hg, hval⟩ := f.store_ok 8 (List.replicate (readPayload head) 0xFF)
        (by rw [List.length_replicate]; omega)
      refine ⟨8 + readPayload head, g, d, [], ?_, (List.append_nil _).symm,
        ⟨⟨0x08000000, 0x08020000, 0x03⟩, by decide, by simp⟩, ?_⟩
      · rw [heq, if_neg hregion]
        exact bind_of_ok hg
      · intro head' _ i hi _
        have hfront : (f.val.take 8).length = 8 := by
          rw [List.length_take, f.property]
          decide
        rw [hval, List.append_assoc, List.getElem?_append_right (by omega), hfront,
          Nat.add_sub_cancel_left, List.getElem?_append_left (by rw [List.length_replicate]; omega)]
        exact List.getElem?_replicate_of_lt (by omega)
  · refine ⟨0, outBuf, d, [], ?_, (List.append_nil _).symm,
      ⟨⟨0x08000000, 0x08020000, 0x03⟩, by decide, by simp⟩, fun _ _ i hi => absurd hi (by omega)⟩
    exact bind_of_ok (dbgHeadValid_short inBuf .memoryRead (not_le.mp hhead))

end

/-- Reads are confined to the table exactly for packets whose range ends in 32 bits. -/
theorem memoryReadCommand_confined_iff (inBuf : List UInt8) (inSize : ℕ)
    (hc : commandOf inBuf = some .memoryRead) (hfits : inSize ≤ inBuf.length) (outBuf : Frame)
    (d : Device) : ReadConfined inBuf inSize outBuf d ↔ ¬ ReadWraps inBuf inSize :=
  ⟨fun h hwraps => not_readConfined_of_wraps outBuf d hc hwraps h,
    readConfined_of_not_wraps outBuf d hc hfits⟩

/-- Four bytes of flash, in a word. -/
theorem memoryReadCommand_confined_iff_flash :
    ReadConfined [0, 4, 4, 0, 0, 0, 0, 8] 8 .zero (.initial blankMemory bootSymbols) ↔
      ¬ ReadWraps [0, 4, 4, 0, 0, 0, 0, 8] 8 :=
  memoryReadCommand_confined_iff [0, 4, 4, 0, 0, 0, 0, 8] 8 (by decide) (by decide) _ _

/-- Four bytes from `0xFFFFFFFE` on, in bytes. -/
theorem not_readConfined :
    ¬ ReadConfined [0, 1, 4, 0, 0xFE, 0xFF, 0xFF, 0xFF] 8 .zero
      (.initial blankMemory bootSymbols) :=
  not_readConfined_of_wraps _ _ (by decide) (by decide)

end BluePill
