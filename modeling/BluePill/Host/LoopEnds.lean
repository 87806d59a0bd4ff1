import BluePill.Host.LoopBodies

/-! When the loops of `TargetSTM32F1.cpp` end, and when each of their rounds advances, for every
stream of replies. -/
namespace BluePill
open Lib

/-- The calls whose loops advance by what the replies announce. -/
inductive TransferCall
  | memRead (address accessSize elementCount : ℕ)
  | memWrite (address accessSize : ℕ) (dataToWrite : List UInt8)
  | regsRead (regIndex regCount : UInt16)
  | regsWrite (regIndex : ℕ) (regsToWrite : List UInt32)
  | breakpointsSetClear (breakpoints : List Breakpoint) (set : Bool)

namespace TransferCall

variable {σ : Type}

/-- A call with at most `fuel` rounds, and the host behind it. -/
def run (interface : TargetInterface σ) (behind : ℕ → UInt8) (fuel : ℕ) (h : Host σ) :
    TransferCall → Except Fault (Host σ)
  | memRead a s n =>
    if s = 0 ∨ n = 0 then .ok h
    else do
      let total := n * s % 4294967296
      let (_, _, h, _) ← rounds
        (TargetSTM32F1.memReadBody interface (.goesOn behind) a s total) total .neverReturns fuel 0
        ([], h, [])
      return h
  | memWrite a s data =>
    if data.length = 0 then .ok h
    else do
      let (_, h, _) ← rounds (TargetSTM32F1.memWriteBody interface a s data) data.length
        .neverReturns fuel 0 (h, [])
      return h
  | regsRead k n =>
    if n = 0 then .ok h
    else do
      let (_, _, h, _) ← rounds (TargetSTM32F1.regsReadBody interface k.toNat (4 * n.toNat))
        (4 * n.toNat) .neverReturns fuel 0 (List.replicate n.toNat 0, h, [])
      return h
  | regsWrite k v =>
    if v.length = 0 then .ok h
    else do
      let (_, h, _) ← rounds (TargetSTM32F1.regsWriteBody interface (.goesOn behind) k v)
        (4 * v.length) .neverReturns fuel 0 (h, [])
      return h
  | breakpointsSetClear bs set => do
    let (_, h) ← TargetSTM32F1.breakpointsSetClear interface (.goesOn behind) fuel bs set h
    return h

/-- The call returns after finitely many rounds. -/
def Returns (interface : TargetInterface σ) (behind : ℕ → UInt8) (h : Host σ)
    (call : TransferCall) : Prop :=
  ∃ fuel h', call.run interface behind fuel h = .ok h'

/-- Every round of the call leaves its loop or strictly advances its offset. -/
def Advances (interface : TargetInterface σ) (behind : ℕ → UInt8) (h : Host σ) :
    TransferCall → Prop
  | memRead a s n =>
    ¬ (s = 0 ∨ n = 0) →
      Lib.Advances (TargetSTM32F1.memReadBody interface (.goesOn behind) a s (n * s % 4294967296))
        (n * s % 4294967296) 0 ([], h, [])
  | memWrite a s data =>
    Lib.Advances (TargetSTM32F1.memWriteBody interface a s data) data.length 0 (h, [])
  | regsRead k n =>
    Lib.Advances (TargetSTM32F1.regsReadBody interface k.toNat (4 * n.toNat)) (4 * n.toNat) 0
      (List.replicate n.toNat 0, h, [])
  | regsWrite k v =>
    Lib.Advances (TargetSTM32F1.regsWriteBody interface (.goesOn behind) k v) (4 * v.length) 0
      (h, [])
  | breakpointsSetClear bs set =>
    Lib.Advances (TargetSTM32F1.breakpointsRound interface (.goesOn behind) bs set) bs.length 0 h

end TransferCall

theorem exists_rounds_iff {σ α : Type} {round : ℕ → σ → Except Fault (Option ℕ × σ)}
    {total offset : ℕ} {s : σ} (f : ℕ × σ → α) :
    (∃ fuel r, (rounds round total .neverReturns fuel offset s >>= fun t => pure (f t)) = .ok r) ↔
      Ends round total .neverReturns offset s := by
  constructor
  · rintro ⟨fuel, r, hr⟩
    obtain ⟨t, ht, -⟩ := bind_eq_ok.mp hr
    exact ⟨fuel, t, ht⟩
  · rintro ⟨fuel, t, ht⟩
    exact ⟨fuel, f t, bind_of_ok ht⟩

section
variable {σ : Type} {interface : TargetInterface σ} (behind : ℕ → UInt8) {h h' : Host σ}

/-- A call of `memRead` that returns does so here, and leaves the same host. -/
theorem memRead_run {a s n : ℕ} {data : List UInt8}
    (hcall : TargetSTM32F1.memRead interface a s n h = .ok (data, h')) :
    ∃ fuel, (TransferCall.memRead a s n).run interface behind fuel h = .ok h' := by
  unfold TargetSTM32F1.memRead at hcall
  by_cases hnone : s = 0 ∨ n = 0
  · rw [if_pos hnone] at hcall
    obtain ⟨-, rfl⟩ := Prod.mk.inj (Except.ok.inj hcall)
    exact ⟨0, if_pos hnone⟩
  · rw [if_neg hnone] at hcall
    obtain ⟨⟨offset, t⟩, htransfer, hr⟩ := bind_eq_ok.mp hcall
    obtain rfl := Except.ok.inj hr
    obtain ⟨fuel, ⟨data', h'', uses⟩, hrounds, herase⟩ := rounds_of_transfer
      .neverReturns (fun t : List UInt8 × Host σ × List Use => (t.1, t.2.1))
      (fun offset t => (memReadBody_erase interface a s _ offset t).symm)
      (memReadBody_advances interface .stops a s _)
      (memReadBody_failsLess interface (.goesOn behind) a s _) ([], h, []) htransfer
    obtain ⟨-, rfl⟩ := Prod.mk.inj herase
    exact ⟨fuel, (if_neg hnone).trans (bind_of_ok hrounds)⟩

theorem memWrite_run {a s n : ℕ} {data : List UInt8}
    (hcall : TargetSTM32F1.memWrite interface a s data h = .ok (n, h')) :
    ∃ fuel, (TransferCall.memWrite a s data).run interface behind fuel h = .ok h' := by
  unfold TargetSTM32F1.memWrite at hcall
  by_cases hnil : data.length = 0
  · rw [if_pos hnil] at hcall
    obtain ⟨-, rfl⟩ := Prod.mk.inj (Except.ok.inj hcall)
    exact ⟨0, if_pos hnil⟩
  · rw [if_neg hnil] at hcall
    obtain ⟨fuel, ⟨h'', uses⟩, hrounds, rfl⟩ := rounds_of_transfer
      .neverReturns (fun t : Host σ × List Use => t.1)
      (fun offset t => (memWriteBody_erase interface a s data offset t).symm)
      (memWriteBody_advances interface a s data) (fun _ _ => .refl _) (h, []) hcall
    exact ⟨fuel, (if_neg hnil).trans (bind_of_ok hrounds)⟩

theorem regsRead_run {fuel : ℕ} {k n : UInt16} {regs : List UInt32}
    (hcall : TargetSTM32F1.regsRead interface fuel k.toNat n.toNat h = .ok (regs, h')) :
    (TransferCall.regsRead k n).run interface behind fuel h = .ok h' := by
  unfold TargetSTM32F1.regsRead at hcall
  by_cases hzero : n = 0
  · have hnone : n.toNat = 0 := UInt16.toNat_inj.mpr hzero
    rw [if_pos hnone] at hcall
    obtain ⟨-, rfl⟩ := Prod.mk.inj (Except.ok.inj hcall)
    exact if_pos hzero
  · have hsome : n.toNat ≠ 0 := fun h => hzero (UInt16.toNat_inj.mp h)
    rw [if_neg hsome] at hcall
    obtain ⟨⟨offset, regs', h''⟩, hrounds, hr⟩ := bind_eq_ok.mp hcall
    obtain ⟨-, rfl⟩ := Prod.mk.inj (Except.ok.inj hr)
    obtain ⟨⟨regs, h, uses⟩, hbody, herase⟩ := rounds_of_erase
      (fun t : List UInt32 × Host σ × List Use => (t.1, t.2.1))
      (fun offset t => (regsReadBody_erase interface k.toNat (4 * n.toNat) offset t).symm)
      (List.replicate n.toNat 0, h, []) hrounds
    obtain ⟨-, rfl⟩ := Prod.mk.inj herase
    exact (if_neg hzero).trans (bind_of_ok hbody)

theorem regsWrite_run {k n : ℕ} {v : List UInt32}
    (hcall : TargetSTM32F1.regsWrite interface k v h = .ok (n, h')) :
    ∃ fuel, (TransferCall.regsWrite k v).run interface behind fuel h = .ok h' := by
  unfold TargetSTM32F1.regsWrite at hcall
  by_cases hnil : v.length = 0
  · rw [if_pos hnil] at hcall
    obtain ⟨-, rfl⟩ := Prod.mk.inj (Except.ok.inj hcall)
    exact ⟨0, if_pos hnil⟩
  · rw [if_neg hnil] at hcall
    obtain ⟨⟨offset, t⟩, htransfer, hr⟩ := bind_eq_ok.mp hcall
    obtain ⟨-, rfl⟩ := Prod.mk.inj (Except.ok.inj hr)
    obtain ⟨fuel, ⟨h'', uses⟩, hrounds, rfl⟩ := rounds_of_transfer
      .neverReturns (fun t : Host σ × List Use => t.1)
      (fun offset t => (regsWriteBody_erase interface k v offset t).symm)
      (regsWriteBody_advances interface .stops k v)
      (regsWriteBody_failsLess interface (.goesOn behind) k v) (h, []) htransfer
    exact ⟨fuel, (if_neg hnil).trans (bind_of_ok hrounds)⟩

end

section
variable {σ : Type} (interface : TargetInterface σ) (behind : ℕ → UInt8) (h : Host σ)

theorem memRead_advances (a s n : ℕ) :
    (TransferCall.memRead a s n).Advances interface behind h := by
  rintro - offset ⟨data, h, uses⟩ - hlt
  by_cases hrefused : MemRefused s ((n * s % 4294967296 - offset) / s)
  · exact ⟨none, _, memReadBody_refused _ data hrefused, (Option.some_ne_none 0).symm⟩
  · obtain ⟨g, bytes, hbody⟩ := memReadBody_goesOn behind uses data hrefused
      rfl (Prod.mk.eta (p := exchange interface _ h.link)).symm
    rw [hbody]
    split_ifs with hzero
    · exact ⟨none, _, rfl, (Option.some_ne_none 0).symm⟩
    · exact ⟨some _, _, rfl, fun heq => hzero (Option.some.inj heq)⟩

theorem memRead_returns (a s n : ℕ) : (TransferCall.memRead a s n).Returns interface behind h := by
  by_cases hnone : s = 0 ∨ n = 0
  · exact ⟨0, h, if_pos hnone⟩
  unfold TransferCall.Returns TransferCall.run
  simp only [if_neg hnone]
  exact (exists_rounds_iff _).mpr (memRead_advances interface behind h a s n hnone).ends

theorem memWriteBody_divides (a : ℕ) (data : List UInt8) (offset : ℕ) (t : Host σ × List Use) :
    TargetSTM32F1.memWriteBody interface a 0 data offset t = .error .divisionByZero := by
  unfold TargetSTM32F1.memWriteBody
  exact if_pos rfl

theorem memWrite_advances_iff (a s : ℕ) (data : List UInt8) :
    (TransferCall.memWrite a s data).Advances interface behind h ↔ ¬ (s = 0 ∧ data ≠ []) := by
  constructor
  · rintro hall ⟨rfl, hne⟩
    obtain ⟨n, t, hbody, -⟩ := hall 0 (h, []) .start (List.length_pos_iff.mpr hne)
    rw [memWriteBody_divides] at hbody
    cases hbody
  · rintro hgood offset ⟨h, uses⟩ - hlt
    have hs : s ≠ 0 := fun hs => hgood ⟨hs, List.length_pos_iff.mp (by omega)⟩
    by_cases hrefused : MemRefused s ((data.length - offset) / s)
    · exact ⟨none, _, memWriteBody_refused data hs hrefused, (Option.some_ne_none 0).symm⟩
    · obtain ⟨g, hbody⟩ := memWriteBody_eq h uses a data hs hrefused rfl
        (Prod.mk.eta (p := exchange interface _ h.link)).symm
      rw [hbody]
      split_ifs with hzero
      · exact ⟨none, _, rfl, (Option.some_ne_none 0).symm⟩
      · exact ⟨some _, _, rfl, fun heq => hzero (Option.some.inj heq)⟩

theorem memWrite_returns_iff (a s : ℕ) (data : List UInt8) :
    (TransferCall.memWrite a s data).Returns interface behind h ↔ ¬ (s = 0 ∧ data ≠ []) := by
  by_cases hnil : data.length = 0
  · exact iff_of_true ⟨0, h, if_pos hnil⟩ fun hbad => hbad.2 (List.length_eq_zero_iff.mp hnil)
  unfold TransferCall.Returns TransferCall.run
  simp only [if_neg hnil]
  rw [exists_rounds_iff]
  constructor
  · rintro ⟨fuel, r, hr⟩ ⟨rfl, -⟩
    cases fuel with
    | zero =>
      rw [rounds, if_pos (Nat.pos_of_ne_zero hnil)] at hr
      cases hr
    | succ fuel =>
      rw [rounds, if_pos (Nat.pos_of_ne_zero hnil), memWriteBody_divides] at hr
      cases hr
  · intro hgood
    exact ((memWrite_advances_iff interface behind h a s data).mpr hgood).ends

theorem regsWrite_advances (k : ℕ) (v : List UInt32) :
    (TransferCall.regsWrite k v).Advances interface behind h := by
  rintro offset ⟨h, uses⟩ - hlt
  have hne : v ≠ [] := by
    rintro rfl
    exact Nat.not_lt_zero _ hlt
  obtain ⟨n, h', uses', hbody, hn⟩ := regsWriteBody_goesOn interface behind h uses offset k hne
  refine ⟨n, _, hbody, ?_⟩
  rcases hn with rfl | ⟨m, received, rfl, hm, -⟩
  · exact (Option.some_ne_none 0).symm
  · exact fun heq => hm (Option.some.inj heq)

theorem regsWrite_returns (k : ℕ) (v : List UInt32) :
    (TransferCall.regsWrite k v).Returns interface behind h := by
  by_cases hnil : v.length = 0
  · exact ⟨0, h, if_pos hnil⟩
  unfold TransferCall.Returns TransferCall.run
  simp only [if_neg hnil]
  exact (exists_rounds_iff _).mpr (regsWrite_advances interface behind h k v).ends

end

/-- Packet `j` is answered with reply `j`, of which at most 64 bytes are received. -/
def replyStream (replies : ℕ → List UInt8) : TargetInterface ℕ where
  writePacket packet j := (packet.length, j)
  readPacket size j := ((replies j).take size, j + 1)

/-- What is received of reply `j`. -/
def receivedReply (replies : ℕ → List UInt8) (j : ℕ) : List UInt8 := (replies j).take 64

theorem exchange_replyStream (replies : ℕ → List UInt8) (packet : List UInt8) (j : ℕ) :
    exchange (replyStream replies) packet j = (receivedReply replies j, j + 1) := by
  unfold exchange replyStream receivedReply
  simp only [ne_eq, not_true_eq_false, if_false, List.take_take, min_self]

/-- The register count in the head of a reply. -/
def announcedRegisters (reply : List UInt8) : ℕ :=
  ((RegReadWriteHead.decode reply).map fun ans => ans.regCount.toNat).getD 0

/-- The breakpoint count in the head of a reply. -/
def announcedBreakpoints (reply : List UInt8) : ℕ :=
  ((BreakpointHead.decode reply).map BreakpointHead.count).getD 0

theorem registersConfirmed_eq {head : RegReadWriteHead} {reply : List UInt8} {c : ℕ}
    (h : registersConfirmed head reply = some c) : c = announcedRegisters reply := by
  unfold registersConfirmed at h
  unfold announcedRegisters
  cases hdecode : RegReadWriteHead.decode reply with
  | none =>
    rw [hdecode] at h
    cases h
  | some ans =>
    rw [hdecode] at h
    exact (Option.some.inj (Option.ite_none_right_eq_some.mp h).2).symm

theorem confirmed_eq {set : Bool} {reply : List UInt8} {c : ℕ} (h : confirmed set reply = some c) :
    c = announcedBreakpoints reply := by
  unfold confirmed at h
  unfold announcedBreakpoints
  cases hdecode : BreakpointHead.decode reply with
  | none =>
    rw [hdecode] at h
    cases h
  | some ans =>
    rw [hdecode] at h
    exact (Option.some.inj (Option.ite_none_right_eq_some.mp h).2).symm

section
variable (replies : ℕ → List UInt8)

/-- The registers that the first `j` replies announce. -/
def registersBefore (j : ℕ) : ℕ :=
  ∑ i ∈ Finset.range j, announcedRegisters (receivedReply replies i)

/-- The breakpoints that the first `j` replies announce. -/
def breakpointsBefore (j : ℕ) : ℕ :=
  ∑ i ∈ Finset.range j, announcedBreakpoints (receivedReply replies i)

/-- Reply `j` confirms the packet for the registers that are left. -/
def RegistersConfirmedAt (k n j : ℕ) : Prop :=
  (registersConfirmed (regHeadFor .regsRead ((registersBefore replies j + k) % 65536)
    (min 15 (n - registersBefore replies j))) (receivedReply replies j)).isSome

variable {replies}

theorem regsReadBody_roundsBy (k : ℕ) {n : ℕ} (hn : n ≤ 65536) :
    RoundsBy (fun offset _ => 4 ∣ offset) (fun s : List UInt32 × Host ℕ × List Use => s.2.1.link)
      (fun j offset => (registersConfirmed (regHeadFor .regsRead ((offset / 4 + k) % 65536)
        (min 15 ((4 * n - offset) / 4))) (receivedReply replies j)).isSome)
      (fun j => announcedRegisters (receivedReply replies j) * 4)
      (TargetSTM32F1.regsReadBody (replyStream replies) k (4 * n)) (4 * n) := by
  rintro offset ⟨regs, h, uses⟩ hlt hdvd
  simp only
  set head := regHeadFor .regsRead ((offset / 4 + k) % 65536) (min 15 ((4 * n - offset) / 4))
    with hhead
  obtain ⟨-, g, regs', hbody⟩ := regsReadBody_eq uses regs rfl (by omega) (by omega)
    hhead (exchange_replyStream replies head.encode h.link)
  rw [hbody]
  constructor
  · intro haccepts
    obtain ⟨c, hc⟩ := Option.isSome_iff_exists.mp haccepts
    rw [hc, ← registersConfirmed_eq hc]
    exact ⟨_, rfl, rfl, dvd_add hdvd (dvd_mul_left 4 c)⟩
  · intro hnot
    rw [Option.not_isSome_iff_eq_none.mp hnot]
    exact ⟨_, rfl⟩

/-- The rounds that read registers go on from reply `j`, in registers. -/
theorem goesOnAt_registers_iff (k n : UInt16) (j : ℕ) :
    GoesOnAt (4 * n.toNat) (fun j offset => (registersConfirmed (regHeadFor .regsRead
        ((offset / 4 + k.toNat) % 65536) (min 15 ((4 * n.toNat - offset) / 4)))
        (receivedReply replies j)).isSome)
        (fun j => announcedRegisters (receivedReply replies j) * 4) j ↔
      registersBefore replies j < n.toNat ∧ RegistersConfirmedAt replies k.toNat n.toNat j := by
  have hsum : ∑ i ∈ Finset.range j, announcedRegisters (receivedReply replies i) * 4 =
      registersBefore replies j * 4 := (Finset.sum_mul _ _ 4).symm
  have hleft : (4 * n.toNat - registersBefore replies j * 4) / 4 =
      n.toNat - registersBefore replies j := by omega
  unfold GoesOnAt
  rw [hsum]
  beta_reduce
  rw [Nat.mul_div_cancel _ (by decide), hleft]
  exact and_congr_left fun _ => by omega

theorem regsRead_returns_iff (behind : ℕ → UInt8) (out inBuf : Frame) (k n : UInt16) :
    (TransferCall.regsRead k n).Returns (replyStream replies) behind ⟨out, inBuf, 0⟩ ↔
      ¬ ∀ j, registersBefore replies j < n.toNat ∧
        RegistersConfirmedAt replies k.toNat n.toNat j := by
  by_cases hzero : n = 0
  · refine iff_of_true ⟨0, _, if_pos hzero⟩ fun hall => ?_
    have hlt := (hall 0).1
    rw [hzero] at hlt
    exact Nat.not_lt_zero _ hlt
  unfold TransferCall.Returns TransferCall.run
  simp only [if_neg hzero]
  rw [exists_rounds_iff, ends_iff_of_roundsBy (regsReadBody_roundsBy k.toNat n.toNat_lt.le)
    (dvd_zero 4) rfl, not_forall]
  exact exists_congr fun j => (and_iff_right (Nat.zero_le j)).trans
    (not_congr (goesOnAt_registers_iff k n j))

theorem regsRead_advances_iff (behind : ℕ → UInt8) (out inBuf : Frame) (k n : UInt16) :
    (TransferCall.regsRead k n).Advances (replyStream replies) behind ⟨out, inBuf, 0⟩ ↔
      ∀ j, (∀ i ≤ j, registersBefore replies i < n.toNat ∧
        RegistersConfirmedAt replies k.toNat n.toNat i) →
        announcedRegisters (receivedReply replies j) ≠ 0 := by
  refine (advances_iff_of_roundsBy (regsReadBody_roundsBy k.toNat n.toNat_lt.le) (dvd_zero 4)
    rfl).trans ?_
  simp only [goesOnAt_registers_iff, ge_iff_le, Nat.zero_le, true_imp_iff, ne_eq, mul_eq_zero,
    OfNat.ofNat_ne_zero, or_false]

theorem breakpointsRound_roundsBy (behind : ℕ → UInt8) (bs : List Breakpoint) (set : Bool) :
    RoundsBy (fun _ _ => True) (fun h : Host ℕ => h.link)
      (fun j _ => (confirmed set (receivedReply replies j)).isSome)
      (fun j => announcedBreakpoints (receivedReply replies j))
      (TargetSTM32F1.breakpointsRound (replyStream replies) (.goesOn behind) bs set) bs.length := by
  intro offset h _ _
  obtain ⟨out, hround⟩ := breakpointsRound_goesOn (replyStream replies) bs set behind h offset
  rw [hround]
  simp only [exchange_replyStream]
  constructor
  · intro haccepts
    obtain ⟨c, hc⟩ := Option.isSome_iff_exists.mp haccepts
    rw [hc, ← confirmed_eq hc]
    exact ⟨_, rfl, rfl, trivial⟩
  · intro hnot
    rw [Option.not_isSome_iff_eq_none.mp hnot]
    exact ⟨_, rfl⟩

theorem breakpointsSetClear_returns_iff (behind : ℕ → UInt8) (out inBuf : Frame)
    (bs : List Breakpoint) (set : Bool) :
    (TransferCall.breakpointsSetClear bs set).Returns (replyStream replies) behind
        ⟨out, inBuf, 0⟩ ↔
      ¬ ∀ j, breakpointsBefore replies j < bs.length ∧
        (confirmed set (receivedReply replies j)).isSome := by
  unfold TransferCall.Returns TransferCall.run TargetSTM32F1.breakpointsSetClear
  rw [exists_rounds_iff, ends_iff_of_roundsBy (breakpointsRound_roundsBy behind bs set)
    (s := ⟨out, inBuf, 0⟩) trivial (Finset.sum_range_zero _).symm, not_forall]
  exact exists_congr fun j => and_iff_right (Nat.zero_le j)

theorem breakpointsSetClear_advances_iff (behind : ℕ → UInt8) (out inBuf : Frame)
    (bs : List Breakpoint) (set : Bool) :
    (TransferCall.breakpointsSetClear bs set).Advances (replyStream replies) behind
        ⟨out, inBuf, 0⟩ ↔
      ∀ j, (∀ i ≤ j, breakpointsBefore replies i < bs.length ∧
        (confirmed set (receivedReply replies i)).isSome) →
        announcedBreakpoints (receivedReply replies j) ≠ 0 := by
  have hstart : 0 = ∑ i ∈ Finset.range (Host.link (⟨out, inBuf, 0⟩ : Host ℕ)),
      announcedBreakpoints (receivedReply replies i) := (Finset.sum_range_zero _).symm
  refine (advances_iff_of_roundsBy (breakpointsRound_roundsBy behind bs set) trivial
    hstart).trans ?_
  simp only [ge_iff_le, Nat.zero_le, true_imp_iff]
  rfl

/-- The call divides by zero, or each reply in turn confirms the packet it answers and all of them
together never confirm the whole. -/
def TransferCall.NeverReturns (replies : ℕ → List UInt8) : TransferCall → Prop
  | .memRead .. | .regsWrite .. => False
  | .memWrite _ accessSize dataToWrite => accessSize = 0 ∧ dataToWrite ≠ []
  | .regsRead k n => ∀ j, registersBefore replies j < n.toNat ∧
      RegistersConfirmedAt replies k.toNat n.toNat j
  | .breakpointsSetClear bs set => ∀ j, breakpointsBefore replies j < bs.length ∧
      (confirmed set (receivedReply replies j)).isSome

/-- The call divides by zero, or comes to a reply that confirms its packet and announces nothing. -/
def TransferCall.StandsStill (replies : ℕ → List UInt8) : TransferCall → Prop
  | .memRead .. | .regsWrite .. => False
  | .memWrite _ accessSize dataToWrite => accessSize = 0 ∧ dataToWrite ≠ []
  | .regsRead k n => ∃ j, (∀ i ≤ j, registersBefore replies i < n.toNat ∧
      RegistersConfirmedAt replies k.toNat n.toNat i) ∧
      announcedRegisters (receivedReply replies j) = 0
  | .breakpointsSetClear bs set => ∃ j, (∀ i ≤ j, breakpointsBefore replies i < bs.length ∧
      (confirmed set (receivedReply replies i)).isSome) ∧
      announcedBreakpoints (receivedReply replies j) = 0

/-- Every round of a call leaves its loop or strictly advances exactly when the call does not stand
still. -/
theorem transferCall_advances_iff (replies : ℕ → List UInt8) (behind : ℕ → UInt8)
    (out inBuf : Frame) (call : TransferCall) :
    call.Advances (replyStream replies) behind ⟨out, inBuf, 0⟩ ↔ ¬ call.StandsStill replies := by
  cases call with
  | memRead a s n => exact iff_of_true (memRead_advances _ behind _ a s n) id
  | memWrite a s data => exact memWrite_advances_iff _ behind _ a s data
  | regsRead k n =>
    refine (regsRead_advances_iff behind out inBuf k n).trans ?_
    simp only [TransferCall.StandsStill, not_exists, not_and, ne_eq]
  | regsWrite k v => exact iff_of_true (regsWrite_advances _ behind _ k v) id
  | breakpointsSetClear bs set =>
    refine (breakpointsSetClear_advances_iff behind out inBuf bs set).trans ?_
    simp only [TransferCall.StandsStill, not_exists, not_and, ne_eq]

/-- For every stream of replies, and whatever the buffers hold and lies behind the arrays: a call
returns after finitely many rounds unless it divides by zero or its replies confirm packets for ever
without confirming the whole. -/
theorem transferCall_returns_iff (replies : ℕ → List UInt8) (behind : ℕ → UInt8) (out inBuf : Frame)
    (call : TransferCall) :
    call.Returns (replyStream replies) behind ⟨out, inBuf, 0⟩ ↔ ¬ call.NeverReturns replies := by
  cases call with
  | memRead a s n => exact iff_of_true (memRead_returns _ behind _ a s n) id
  | memWrite a s data => exact memWrite_returns_iff _ behind _ a s data
  | regsRead k n => exact regsRead_returns_iff behind out inBuf k n
  | regsWrite k v => exact iff_of_true (regsWrite_returns _ behind _ k v) id
  | breakpointsSetClear bs set => exact breakpointsSetClear_returns_iff behind out inBuf bs set

/-- One register, and replies that repeat the head with no register. -/
theorem not_transferCall_returns : ¬ (TransferCall.regsRead 0 1).Returns
    (replyStream fun _ => [DebugCommand.regsRead.toByte, 0, 0, 0]) (fun _ => 0)
    ⟨.zero, .zero, 0⟩ := by
  rw [regsRead_returns_iff, not_not]
  intro j
  have hnone : registersBefore (fun _ => [DebugCommand.regsRead.toByte, 0, 0, 0]) j = 0 :=
    Finset.sum_eq_zero fun i _ => rfl
  unfold RegistersConfirmedAt
  rw [hnone]
  exact ⟨by decide, rfl⟩

end

end BluePill
