import BluePill.Host.LoopEnds

/-! The bytes of `_in` that the loops of `TargetSTM32F1.cpp` use, and whether they came with the
exchange of the round that uses them. -/
namespace BluePill
open Lib

/-- The calls that move memory and registers. -/
inductive DataCall
  | memRead (address accessSize elementCount : ℕ)
  | memWrite (address accessSize : ℕ) (dataToWrite : List UInt8)
  | regsRead (regIndex regCount : UInt16)
  | regsWrite (regIndex : ℕ) (regsToWrite : List UInt32)

section
variable {σ : Type} (interface : TargetInterface σ) (behind : ℕ → UInt8) (h : Host σ)

/-- The call comes to the head of its loop with `uses` behind it. -/
def DataCall.Makes (uses : List Use) : DataCall → Prop
  | memRead a s n => s ≠ 0 ∧ n ≠ 0 ∧
      let total := n * s % 4294967296
      ∃ offset data h', Visits (TargetSTM32F1.memReadBody interface (.goesOn behind) a s total) total
        0 ([], h, []) offset (data, h', uses)
  | memWrite a s data => ∃ offset h', Visits (TargetSTM32F1.memWriteBody interface a s data)
      data.length 0 (h, []) offset (h', uses)
  | regsRead k n => ∃ offset regs h',
      Visits (TargetSTM32F1.regsReadBody interface k.toNat (4 * n.toNat)) (4 * n.toNat) 0
        (List.replicate n.toNat 0, h, []) offset (regs, h', uses)
  | regsWrite k v => ∃ offset h',
      Visits (TargetSTM32F1.regsWriteBody interface (.goesOn behind) k v) (4 * v.length) 0 (h, [])
        offset (h', uses)

/-- Each round that advances has used no bytes of `_in` but those its own exchange received. -/
def DataCall.OnlyReceived (call : DataCall) : Prop :=
  ∀ uses, call.Makes interface behind h uses → ∀ u ∈ uses, u.used ≤ u.received

/-- `regsWrite` looks at the head alone, once it is received. -/
theorem regsWrite_onlyReceived (k : ℕ) (v : List UInt32) :
    (DataCall.regsWrite k v).OnlyReceived interface behind h := by
  rintro uses ⟨offset, h', hvisits⟩
  suffices hall : ∀ offset (s : Host σ × List Use),
      Visits (TargetSTM32F1.regsWriteBody interface (.goesOn behind) k v) (4 * v.length) 0 (h, [])
        offset s → ∀ u ∈ s.2, u.used ≤ u.received from hall offset (h', uses) hvisits
  intro offset s hvisits
  induction hvisits with
  | start => exact nofun
  | @next offset n s s' _ hlt hr ih =>
    have hne : v ≠ [] := by
      rintro rfl
      exact Nat.not_lt_zero _ hlt
    obtain ⟨h, uses⟩ := s
    obtain ⟨n', h', uses', hbody, hn⟩ := regsWriteBody_goesOn interface behind h uses offset k hne
    rw [hbody] at hr
    obtain ⟨hn', rfl⟩ := Prod.mk.inj (Except.ok.inj hr)
    rcases hn with rfl | ⟨m, received, rfl, -, hsize, huses⟩
    · cases hn'
    · intro u hu
      rw [huses] at hu
      rcases List.mem_append.mp hu with hold | hnew
      · exact ih u hold
      · obtain rfl := List.mem_singleton.mp hnew
        exact hsize

end

/-- The byte count in the head of a reply. -/
def announcedBytes (reply : List UInt8) : ℕ :=
  ((MemReadWriteHead.decode reply).map MemReadWriteHead.byteCount).getD 0

theorem announced_eq {head : MemReadWriteHead} {reply : List UInt8} (h : announced head reply ≠ 0) :
    announced head reply = announcedBytes reply := by
  unfold announced at h ⊢
  unfold announcedBytes
  cases hdecode : MemReadWriteHead.decode reply with
  | none => simp only [hdecode, ne_eq, not_true_eq_false] at h
  | some ans =>
    simp only [hdecode] at h ⊢
    exact if_pos (ite_ne_right_iff.mp h).1

theorem taken_eq {head : MemReadWriteHead} {reply : List UInt8} (h : taken head reply ≠ 0) :
    taken head reply = announcedBytes reply := by
  unfold taken at h ⊢
  obtain ⟨hle, hne⟩ := ite_ne_right_iff.mp h
  rw [if_pos hle, announced_eq hne]

section
variable (replies : ℕ → List UInt8)

/-- Reply `j` answers the packet of a read that has come to `offset`, and announces some byte. -/
def MemReadAccepts (a s total j offset : ℕ) : Prop :=
  ¬ MemRefused s ((total - offset) / s) ∧
    announced (memHead .memoryRead ((a + offset) % 4294967296) s ((total - offset) / s))
      (receivedReply replies j) ≠ 0

/-- What `_in` holds after `j` replies: the bytes behind a short reply stay. -/
def bufferAfter (inBuf : Frame) : ℕ → Frame
  | 0 => inBuf
  | j + 1 => (bufferAfter inBuf j).receive (receivedReply replies j)

/-- With reply `j` in it, `_in` answers the packet of a write that has come to `offset`. -/
def MemWriteAccepts (inBuf : Frame) (a s : ℕ) (data : List UInt8) (j offset : ℕ) : Prop :=
  ¬ MemRefused s ((data.length - offset) / s) ∧
    taken (memHead .memoryWrite ((a + offset) % 4294967296) s ((data.length - offset) / s))
      (bufferAfter replies inBuf (j + 1)).val ≠ 0

/-- Reply `j` answers the packet of a read of registers that has come to `offset`. -/
def RegsReadAccepts (k n : UInt16) (j offset : ℕ) : Prop :=
  (registersConfirmed (regHeadFor .regsRead ((offset / 4 + k.toNat) % 65536)
    (min 15 ((4 * n.toNat - offset) / 4))) (receivedReply replies j)).isSome

variable {replies}

theorem memReadBody_stream (behind : ℕ → UInt8) (a s total offset : ℕ) (data : List UInt8)
    (h : Host ℕ) (uses : List Use) :
    ∃ data' h', h'.link = h.link + 1 ∧
      (MemReadAccepts replies a s total h.link offset →
        TargetSTM32F1.memReadBody (replyStream replies) (.goesOn behind) a s total offset
            (data, h, uses) =
          .ok (some (announcedBytes (receivedReply replies h.link)), data', h',
            uses ++ [⟨(receivedReply replies h.link).length, MemReadWriteHead.size +
              min (announcedBytes (receivedReply replies h.link)) (total - offset)⟩])) ∧
      (¬ MemReadAccepts replies a s total h.link offset →
        ∃ t, TargetSTM32F1.memReadBody (replyStream replies) (.goesOn behind) a s total offset
          (data, h, uses) = .ok (none, t)) := by
  by_cases hrefused : MemRefused s ((total - offset) / s)
  · exact ⟨[], { h with link := h.link + 1 }, rfl, fun haccepts => absurd hrefused haccepts.1,
      fun _ => ⟨_, memReadBody_refused _ data hrefused⟩⟩
  · obtain ⟨g, bytes, hbody⟩ := memReadBody_goesOn behind uses data hrefused
      rfl (exchange_replyStream replies _ h.link)
    refine ⟨data ++ bytes, ⟨g, h.inBuf.receive (receivedReply replies h.link), h.link + 1⟩, rfl,
      fun haccepts => ?_, fun hnot => ?_⟩
    · rw [hbody, if_neg haccepts.2, announced_eq haccepts.2]
    · rw [hbody, if_pos (not_not.mp fun hne => hnot ⟨hrefused, hne⟩)]
      exact ⟨_, rfl⟩

theorem memReadBody_roundsBy (behind : ℕ → UInt8) (a s total : ℕ) :
    RoundsBy (fun _ _ => True) (fun t : List UInt8 × Host ℕ × List Use => t.2.1.link)
      (MemReadAccepts replies a s total) (fun j => announcedBytes (receivedReply replies j))
      (TargetSTM32F1.memReadBody (replyStream replies) (.goesOn behind) a s total) total := by
  rintro offset ⟨data, h, uses⟩ _ _
  obtain ⟨data', h', hlink, hyes, hno⟩ := memReadBody_stream behind a s total offset data h uses
  exact ⟨fun haccepts => ⟨_, hyes haccepts, hlink, trivial⟩, hno⟩

theorem memReadBody_uses (behind : ℕ → UInt8) {a s total offset n : ℕ}
    {t t' : List UInt8 × Host ℕ × List Use}
    (haccepts : MemReadAccepts replies a s total t.2.1.link offset)
    (hround : TargetSTM32F1.memReadBody (replyStream replies) (.goesOn behind) a s total offset t =
      .ok (some n, t')) :
    t'.2.2 = t.2.2 ++ [⟨(receivedReply replies t.2.1.link).length, MemReadWriteHead.size +
      min (announcedBytes (receivedReply replies t.2.1.link)) (total - offset)⟩] := by
  obtain ⟨data, h, uses⟩ := t
  obtain ⟨data', h', -, hyes, -⟩ := memReadBody_stream behind a s total offset data h uses
  obtain ⟨-, rfl⟩ := Prod.mk.inj (Except.ok.inj ((hyes haccepts).symm.trans hround))
  rfl

theorem memWriteBody_stream (inBuf : Frame) (a : ℕ) {s : ℕ} (hs : s ≠ 0) (data : List UInt8)
    (offset : ℕ) {h : Host ℕ} (hin : h.inBuf = bufferAfter replies inBuf h.link) (uses : List Use) :
    ∃ h' : Host ℕ, h'.link = h.link + 1 ∧ h'.inBuf = bufferAfter replies inBuf h'.link ∧
      (MemWriteAccepts replies inBuf a s data h.link offset →
        TargetSTM32F1.memWriteBody (replyStream replies) a s data offset (h, uses) =
          .ok (some (announcedBytes (bufferAfter replies inBuf (h.link + 1)).val), h',
            uses ++ [⟨(receivedReply replies h.link).length, MemReadWriteHead.size⟩])) ∧
      (¬ MemWriteAccepts replies inBuf a s data h.link offset →
        ∃ t, TargetSTM32F1.memWriteBody (replyStream replies) a s data offset (h, uses) =
          .ok (none, t)) := by
  have hnext : bufferAfter replies inBuf (h.link + 1) =
      h.inBuf.receive (receivedReply replies h.link) := by
    rw [hin]
    rfl
  by_cases hrefused : MemRefused s ((data.length - offset) / s)
  · exact ⟨⟨h.outBuf, bufferAfter replies inBuf (h.link + 1), h.link + 1⟩, rfl, rfl,
      fun haccepts => absurd hrefused haccepts.1,
      fun _ => ⟨_, memWriteBody_refused data hs hrefused⟩⟩
  · obtain ⟨g, hbody⟩ := memWriteBody_eq h uses a data hs hrefused rfl
      (exchange_replyStream replies _ h.link)
    rw [← hnext] at hbody
    refine ⟨⟨g, bufferAfter replies inBuf (h.link + 1), h.link + 1⟩, rfl, rfl,
      fun haccepts => ?_, fun hnot => ?_⟩
    · rw [hbody, if_neg haccepts.2, taken_eq haccepts.2]
    · rw [hbody, if_pos (not_not.mp fun hne => hnot ⟨hrefused, hne⟩)]
      exact ⟨_, rfl⟩

theorem memWriteBody_roundsBy (inBuf : Frame) (a : ℕ) {s : ℕ} (hs : s ≠ 0) (data : List UInt8) :
    RoundsBy (fun _ t => t.1.inBuf = bufferAfter replies inBuf t.1.link)
      (fun t : Host ℕ × List Use => t.1.link) (MemWriteAccepts replies inBuf a s data)
      (fun j => announcedBytes (bufferAfter replies inBuf (j + 1)).val)
      (TargetSTM32F1.memWriteBody (replyStream replies) a s data) data.length := by
  rintro offset ⟨h, uses⟩ _ hin
  obtain ⟨h', hlink, hin', hyes, hno⟩ := memWriteBody_stream inBuf a hs data offset hin uses
  exact ⟨fun haccepts => ⟨_, hyes haccepts, hlink, hin'⟩, hno⟩

theorem memWriteBody_uses (inBuf : Frame) {a s : ℕ} (hs : s ≠ 0) {data : List UInt8} {offset n : ℕ}
    {t t' : Host ℕ × List Use} (hin : t.1.inBuf = bufferAfter replies inBuf t.1.link)
    (haccepts : MemWriteAccepts replies inBuf a s data t.1.link offset)
    (hround : TargetSTM32F1.memWriteBody (replyStream replies) a s data offset t =
      .ok (some n, t')) :
    t'.2 = t.2 ++ [⟨(receivedReply replies t.1.link).length, MemReadWriteHead.size⟩] := by
  obtain ⟨h, uses⟩ := t
  obtain ⟨h', -, -, hyes, -⟩ := memWriteBody_stream inBuf a hs data offset hin uses
  obtain ⟨-, rfl⟩ := Prod.mk.inj (Except.ok.inj ((hyes haccepts).symm.trans hround))
  rfl

theorem regsReadBody_uses {k n offset c : ℕ} (hlt : offset < 4 * n) (hdvd : 4 ∣ offset)
    (hn : n ≤ 65536) {t t' : List UInt32 × Host ℕ × List Use}
    (hround : TargetSTM32F1.regsReadBody (replyStream replies) k (4 * n) offset t =
      .ok (some c, t')) :
    t'.2.2 = t.2.2 ++ [⟨(receivedReply replies t.2.1.link).length, RegReadWriteHead.size +
      announcedRegisters (receivedReply replies t.2.1.link) * 4⟩] := by
  obtain ⟨regs, h, uses⟩ := t
  set head := regHeadFor .regsRead ((offset / 4 + k) % 65536) (min 15 ((4 * n - offset) / 4))
    with hhead
  obtain ⟨-, g, regs', hbody⟩ := regsReadBody_eq uses regs rfl (by omega) (by omega)
    hhead (exchange_replyStream replies head.encode h.link)
  rw [hbody] at hround
  split at hround
  next => cases hround
  next c hc =>
    obtain ⟨-, rfl⟩ := Prod.mk.inj (Except.ok.inj hround)
    rw [← registersConfirmed_eq hc]

variable (replies) in
/-- While the rounds go on, each reply has the bytes that its round uses. -/
def LongEnough (total : ℕ) (accepts : ℕ → ℕ → Prop) (count : ℕ → ℕ) (needed : ℕ → ℕ → ℕ) : Prop :=
  ∀ j, (∀ i ≤ j, GoesOnAt total accepts count i) →
    needed j (∑ i ∈ Finset.range j, count i) ≤ (receivedReply replies j).length

/-- A loop with rounds that use `needed` bytes of their replies. -/
theorem visits_used_iff {σ : Type} {I : ℕ → σ → Prop} {pos : σ → ℕ} {accepts : ℕ → ℕ → Prop}
    {count : ℕ → ℕ} {round : ℕ → σ → Except Fault (Option ℕ × σ)} {total : ℕ}
    (hround : RoundsBy I pos accepts count round total) (log : σ → List Use) (needed : ℕ → ℕ → ℕ)
    (hlog : ∀ offset s s', offset < total → I offset s → accepts (pos s) offset →
      round offset s = .ok (some (count (pos s)), s') →
      log s' = log s ++ [⟨(receivedReply replies (pos s)).length, needed (pos s) offset⟩])
    (s₀ : σ) (hI : I 0 s₀) (hpos : pos s₀ = 0) (hstart : log s₀ = []) :
    (∀ offset s, Visits round total 0 s₀ offset s → ∀ u ∈ log s, u.used ≤ u.received) ↔
      LongEnough replies total accepts count needed := by
  have hsum : 0 = ∑ i ∈ Finset.range (pos s₀), count i := by
    rw [hpos, Finset.sum_range_zero]
  refine (visits_log_iff hround log
    (fun j offset => ⟨(receivedReply replies j).length, needed j offset⟩)
    (fun u => u.used ≤ u.received) hlog hI hsum (hstart ▸ nofun)).trans ?_
  rw [hpos]
  refine forall_congr' fun j => ?_
  simp only [ge_iff_le, Nat.zero_le, true_imp_iff]

theorem longEnough_of_zero {accepts : ℕ → ℕ → Prop} {count : ℕ → ℕ} {needed : ℕ → ℕ → ℕ} :
    LongEnough replies 0 accepts count needed :=
  fun _ hgoes => absurd (hgoes 0 (Nat.zero_le _)).1 (Nat.not_lt_zero _)

theorem memRead_onlyReceived_iff (behind : ℕ → UInt8) (out inBuf : Frame) (a s n : ℕ) :
    (DataCall.memRead a s n).OnlyReceived (replyStream replies) behind ⟨out, inBuf, 0⟩ ↔
      LongEnough replies (n * s % 4294967296) (MemReadAccepts replies a s (n * s % 4294967296))
        (fun j => announcedBytes (receivedReply replies j)) fun j offset => MemReadWriteHead.size +
          min (announcedBytes (receivedReply replies j)) (n * s % 4294967296 - offset) := by
  by_cases hnone : s = 0 ∨ n = 0
  · have htotal : n * s % 4294967296 = 0 := by
      rcases hnone with rfl | rfl <;> simp
    refine iff_of_true ?_ (htotal ▸ longEnough_of_zero)
    rintro uses ⟨hs, hn, -⟩
    exact absurd hnone (not_or.mpr ⟨hs, hn⟩)
  obtain ⟨hs, hn⟩ := not_or.mp hnone
  refine Iff.trans ?_ (visits_used_iff (memReadBody_roundsBy behind a s (n * s % 4294967296))
    (fun t => t.2.2) _ (fun _ _ _ _ _ => memReadBody_uses behind)
    ([], ⟨out, inBuf, 0⟩, []) trivial rfl rfl)
  constructor
  · intro hall offset t hvisits
    exact hall t.2.2 ⟨hs, hn, offset, t.1, t.2.1, hvisits⟩
  · rintro hall uses ⟨-, -, offset, data, h, hvisits⟩
    exact hall offset _ hvisits

theorem memWrite_onlyReceived_iff (behind : ℕ → UInt8) (out inBuf : Frame) (a s : ℕ)
    (data : List UInt8) :
    (DataCall.memWrite a s data).OnlyReceived (replyStream replies) behind ⟨out, inBuf, 0⟩ ↔
      LongEnough replies data.length (MemWriteAccepts replies inBuf a s data)
        (fun j => announcedBytes (bufferAfter replies inBuf (j + 1)).val)
        fun _ _ => MemReadWriteHead.size := by
  by_cases hs : s = 0
  · subst hs
    refine iff_of_true ?_ fun j hgoes => absurd (.inr (.inl rfl)) (hgoes 0 (Nat.zero_le _)).2.1
    rintro uses ⟨offset, h, hvisits⟩
    cases hvisits with
    | start => exact nofun
    | next _ _ hround => cases hround
  refine Iff.trans ?_ (visits_used_iff (memWriteBody_roundsBy inBuf a hs data)
    (fun t => t.2) _ (fun _ _ _ _ hin => memWriteBody_uses inBuf hs hin)
    (⟨out, inBuf, 0⟩, []) rfl rfl rfl)
  constructor
  · intro hall offset t hvisits
    exact hall t.2 ⟨offset, t.1, hvisits⟩
  · rintro hall uses ⟨offset, h, hvisits⟩
    exact hall offset _ hvisits

theorem regsRead_onlyReceived_iff (behind : ℕ → UInt8) (out inBuf : Frame) (k n : UInt16) :
    (DataCall.regsRead k n).OnlyReceived (replyStream replies) behind ⟨out, inBuf, 0⟩ ↔
      LongEnough replies (4 * n.toNat) (RegsReadAccepts replies k n)
        (fun j => announcedRegisters (receivedReply replies j) * 4)
        fun j _ => RegReadWriteHead.size + announcedRegisters (receivedReply replies j) * 4 := by
  have hsmall : n.toNat ≤ 65536 := n.toNat_lt.le
  refine Iff.trans ?_ (visits_used_iff (regsReadBody_roundsBy k.toNat hsmall) (fun t => t.2.2) _
    (fun _ _ _ hlt hdvd _ => regsReadBody_uses hlt hdvd hsmall)
    (List.replicate n.toNat 0, ⟨out, inBuf, 0⟩, []) (dvd_zero 4) rfl rfl)
  constructor
  · intro hall offset t hvisits
    exact hall t.2.2 ⟨offset, t.1, t.2.1, hvisits⟩
  · rintro hall uses ⟨offset, regs, h, hvisits⟩
    exact hall offset _ hvisits

variable (replies) in
/-- As long as the replies are accepted and the total is not reached, none announces more than came with
it, and none too short for a head leaves one standing in `_in` that answers a write. -/
def DataCall.RepliesLongEnough (inBuf : Frame) : DataCall → Prop
  | memRead a s n =>
    let total := n * s % 4294967296
    LongEnough replies total (MemReadAccepts replies a s total)
      (fun j => announcedBytes (receivedReply replies j)) fun j offset =>
        MemReadWriteHead.size + min (announcedBytes (receivedReply replies j)) (total - offset)
  | memWrite a s data =>
    LongEnough replies data.length (MemWriteAccepts replies inBuf a s data)
      (fun j => announcedBytes (bufferAfter replies inBuf (j + 1)).val)
      fun _ _ => MemReadWriteHead.size
  | regsRead k n =>
    LongEnough replies (4 * n.toNat) (RegsReadAccepts replies k n)
      (fun j => announcedRegisters (receivedReply replies j) * 4)
      fun j _ => RegReadWriteHead.size + announcedRegisters (receivedReply replies j) * 4
  | regsWrite .. => True

/-- For every stream of replies, and whatever earlier calls have left in the buffers: a call uses no
bytes but those received in the exchange of the round exactly when each reply that it goes on from
is as long as what it announces. -/
theorem onlyReceived_iff (replies : ℕ → List UInt8) (behind : ℕ → UInt8) (out inBuf : Frame)
    (call : DataCall) :
    call.OnlyReceived (replyStream replies) behind ⟨out, inBuf, 0⟩ ↔
      call.RepliesLongEnough replies inBuf := by
  cases call with
  | memRead a s n => exact memRead_onlyReceived_iff behind out inBuf a s n
  | memWrite a s data => exact memWrite_onlyReceived_iff behind out inBuf a s data
  | regsRead k n => exact regsRead_onlyReceived_iff behind out inBuf k n
  | regsWrite k v => exact iff_of_true (regsWrite_onlyReceived _ behind _ k v) trivial

/-- A word is written twice. The device acknowledges the first write and leaves the second one
unanswered. -/
theorem not_onlyReceived : ¬ (DataCall.memWrite 0x20000000 4 [1, 2, 3, 4]).OnlyReceived
    (replyStream fun _ => []) (fun _ => 0)
    ⟨.zero, Frame.zero.receive (memHead .memoryWrite 0x20000000 4 1).encode, 0⟩ := by
  rw [memWrite_onlyReceived_iff]
  intro hall
  have hlong := hall 0 fun i hi => ?_
  · exact absurd hlong (by decide)
  · obtain rfl := Nat.le_zero.mp hi
    refine ⟨by decide, ?_, ?_⟩ <;> decide

end

end BluePill
