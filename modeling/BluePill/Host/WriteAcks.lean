import BluePill.Host.Exchanges

/-! Writes over any link: how often each byte of memory is acknowledged, and when every byte of a
write is. -/
namespace BluePill
open Lib

variable {σ : Type} {interface : TargetInterface σ}

theorem readHead_frame (f : Frame) : ∃ head, readHead MemReadWriteHead.decode f.val = .ok head := by
  have hsize : MemReadWriteHead.size ≤ f.val.length := by
    rw [f.property]
    decide
  obtain ⟨head, hhead⟩ := MemReadWriteHead.decode_isSome hsize
  exact ⟨head, by rw [readHead, hhead]⟩

/-- The byte count of a reply that acknowledges the command: not more than the command has. -/
def taken (head : MemReadWriteHead) (reply : List UInt8) : ℕ :=
  if announced head reply ≤ head.byteCount then announced head reply else 0

theorem taken_le (head : MemReadWriteHead) (reply : List UInt8) :
    taken head reply ≤ head.byteCount := by
  unfold taken
  split_ifs with hle
  · exact hle
  · exact Nat.zero_le _

theorem taken_of_short {head : MemReadWriteHead} {reply : List UInt8}
    (h : ¬ MemReadWriteHead.size ≤ reply.length) : taken head reply = 0 := by
  rw [taken, announced_of_short h, ite_self]

/-- The packet of one round. -/
def writePacketAt (a accessSize : ℕ) (data : List UInt8) (offset : ℕ) : List UInt8 :=
  let head := packetHead .memoryWrite a accessSize data.length offset
  head.encode ++ (data.drop offset).take head.byteCount

section
variable {h : Host σ} {a offset : ℕ} {w : AccessWidth} {data : List UInt8}

theorem memWriteRound_stops (hshort : data.length - offset < w.bytes) :
    TargetSTM32F1.memWriteRound interface a w.bytes data offset h = .ok (0, h) := by
  have hzero : (data.length - offset) / w.bytes = 0 := Nat.div_eq_of_lt hshort
  unfold TargetSTM32F1.memWriteRound
  simp only [w.bytes_pos.ne', if_false, hzero]
  rfl

/-- A round of `memWrite` over any link. Behind a reply that is too short the count is what the
receive buffer held before. -/
theorem memWriteRound_eq (hle : w.bytes ≤ data.length - offset)
    (hsmall : data.length < 4294967296) {head : MemReadWriteHead}
    (hhead : head = packetHead .memoryWrite a w.bytes data.length offset) {reply : List UInt8}
    {l : σ} (hreply : exchange interface (writePacketAt a w.bytes data offset) h.link = (reply, l)) :
    ∃ g n, TargetSTM32F1.memWriteRound interface a w.bytes data offset h =
        .ok (n, ⟨g, h.inBuf.receive reply, l⟩) ∧ n ≤ head.byteCount ∧
      (MemReadWriteHead.size ≤ reply.length → n = taken head reply) := by
  have hpos := w.bytes_pos
  have hwhole : (data.length - offset) / w.bytes * w.bytes ≤ data.length - offset :=
    Nat.div_mul_le_self _ _
  have hsome : 0 < (data.length - offset) / w.bytes * w.bytes :=
    Nat.mul_pos (Nat.div_pos hle hpos) hpos
  have hlen : head.encode.length = 8 := MemReadWriteHead.encode_length _
  have hcount : head.byteCount = packetBytes w.bytes (data.length - offset) := by rw [hhead]; rfl
  have hcountLe : head.byteCount ≤ data.length - offset := by
    rw [hcount]
    exact (Nat.min_le_right _ _).trans hwhole
  have hpayload : head.byteCount ≤ 56 := by
    rw [hcount]
    exact Nat.min_le_left _ _
  have hreplyLen : reply.length ≤ 64 := by
    have hle' := exchange_length_le interface (writePacketAt a w.bytes data offset) h.link
    rwa [hreply] at hle'
  set bytes := (data.drop offset).take head.byteCount with hbytes
  have hbytesLen : bytes.length = head.byteCount := by
    rw [hbytes, List.length_take, List.length_drop]
    omega
  obtain ⟨g, hg, htake⟩ := memCmd_ok .memoryWrite h.outBuf (a := (a + offset) % 4294967296) hsome
    (Dvd.intro_left _ rfl) (by omega)
  rw [Nat.mul_div_cancel _ hpos] at hg
  have htake' : g.val.take 8 = head.encode := by rw [hhead]; exact htake
  have hcmdHead : readHead MemReadWriteHead.decode g.val = .ok head := by
    apply readHead_of_take htake' (by omega)
    rw [hhead]
    exact Nat.mod_lt _ (by decide)
  have hread : readBytes data offset head.byteCount = .ok bytes := if_pos (by omega)
  obtain ⟨f, hf, hfval⟩ := g.store_ok 8 bytes (by omega)
  have hpacket : writePacketAt a w.bytes data offset = head.encode ++ bytes := by
    rw [hbytes, hhead]
    rfl
  have hsize : (head.encode ++ bytes).length = 8 + head.byteCount := by
    rw [List.length_append, hlen, hbytesLen]
  have hftake : f.val.take (head.encode ++ bytes).length = head.encode ++ bytes := by
    rw [hfval, htake', List.take_left' rfl]
  have hsend := sendAndReceive_eq interface (head.encode ++ bytes) (h := { h with outBuf := f })
    hftake
  rw [hpacket] at hreply
  simp only [hreply, hsize] at hsend
  obtain ⟨ans, hansHead⟩ := readHead_frame (h.inBuf.receive reply)
  set n := if TargetSTM32F1.headsAgree head ans then
    if ans.byteCount ≤ head.byteCount then ans.byteCount else 0 else 0 with hn
  refine ⟨f, n, ?_, ?_, ?_⟩
  · unfold TargetSTM32F1.memWriteRound
    simp only [hpos.ne', if_false]
    rw [bind_of_ok (show MakeHead.memWriteCmd h.outBuf _ w.bytes _ = .ok (8, g) from hg)]
    simp only [Nat.reduceEqDiff, if_false]
    rw [bind_of_ok hcmdHead, bind_of_ok hread, bind_of_ok hf, bind_of_ok hsend]
    simp only
    rw [bind_of_ok hansHead, hn]
    by_cases hagree : TargetSTM32F1.headsAgree head ans
    · by_cases hzero : ans.byteCount = 0
      · simp only [hagree, hzero, not_true_eq_false, ite_self]
        rfl
      · by_cases hmore : ans.byteCount ≤ head.byteCount
        · simp only [hagree, hzero, not_true_eq_false, if_false, if_true, hmore, not_lt.mpr hmore]
          rfl
        · simp only [hagree, hzero, not_true_eq_false, if_false, if_true, hmore, not_le.mp hmore]
          rfl
    · simp only [hagree, not_false_eq_true, if_true, if_false]
      rfl
  · rw [hn]
    split_ifs <;> omega
  · intro hreplySize
    obtain ⟨ans', hans', hdecode⟩ := readHead_receive h.inBuf hreplyLen hreplySize
    obtain rfl := Except.ok.inj (hansHead.symm.trans hans')
    rw [hn, taken, announced, hdecode]
    by_cases hagree : TargetSTM32F1.headsAgree head ans
    · simp only [hagree, if_true]
    · simp only [hagree, if_false, Nat.zero_le, if_true]

end

/-- The reply acknowledges that the byte of memory at `y` was written. -/
def Exchange.Acks (e : Exchange) (y : ℕ) : Prop :=
  match MemReadWriteHead.decode e.packet with
  | some head => head.cmd = DebugCommand.memoryWrite.toByte ∧
      ∃ j < taken head e.reply, y = (head.address + j) % 4294967296
  | none => False

instance (e : Exchange) (y : ℕ) : Decidable (e.Acks y) := by
  unfold Exchange.Acks
  split <;> infer_instance

/-- How many replies of the log acknowledge the byte at `y`. -/
def acks (log : List Exchange) (y : ℕ) : ℕ := log.countP fun e => decide (e.Acks y)

/-- The byte at `y` is one of the positions `[lo, hi)` behind `a`. -/
def Within (a lo hi y : ℕ) : Prop := ∃ i < hi, lo ≤ i ∧ y = (a + i) % 4294967296

instance (a lo hi y : ℕ) : Decidable (Within a lo hi y) := by
  unfold Within
  infer_instance

/-- How often one write of these positions covers the byte at `y`. -/
def covered (a lo hi y : ℕ) : ℕ := if Within a lo hi y then 1 else 0

theorem covered_self (a lo y : ℕ) : covered a lo lo y = 0 := by
  apply if_neg
  rintro ⟨i, hi, hle, -⟩
  omega

theorem covered_mono (a lo : ℕ) {mid hi : ℕ} (y : ℕ) (h : mid ≤ hi) :
    covered a lo mid y ≤ covered a lo hi y := by
  unfold covered
  by_cases hin : Within a lo mid y
  · obtain ⟨i, hi', hle, hy⟩ := hin
    rw [if_pos ⟨i, hi', hle, hy⟩, if_pos ⟨i, by omega, hle, hy⟩]
  · rw [if_neg hin]
    exact Nat.zero_le _

theorem covered_split (a : ℕ) {lo mid hi : ℕ} (y : ℕ) (hlo : lo ≤ mid) (hhi : mid ≤ hi)
    (hsmall : hi < 4294967296) : covered a lo mid y + covered a mid hi y = covered a lo hi y := by
  have hor : Within a lo hi y ↔ Within a lo mid y ∨ Within a mid hi y := by
    constructor
    · rintro ⟨i, hi', hle, hy⟩
      by_cases hmid : i < mid
      · exact .inl ⟨i, hmid, hle, hy⟩
      · exact .inr ⟨i, hi', not_lt.mp hmid, hy⟩
    · rintro (⟨i, hi', hle, hy⟩ | ⟨i, hi', hle, hy⟩)
      · exact ⟨i, by omega, hle, hy⟩
      · exact ⟨i, hi', by omega, hy⟩
  have hdisjoint : ¬ (Within a lo mid y ∧ Within a mid hi y) := by
    rintro ⟨⟨i, hi', -, hy⟩, ⟨j, hj, hle, hy'⟩⟩
    omega
  unfold covered
  by_cases hleft : Within a lo mid y
  · have hright : ¬ Within a mid hi y := fun h => hdisjoint ⟨hleft, h⟩
    rw [if_pos hleft, if_neg hright, if_pos (hor.mpr (.inl hleft))]
  · by_cases hright : Within a mid hi y
    · rw [if_neg hleft, if_pos hright, if_pos (hor.mpr (.inr hright))]
    · rw [if_neg hleft, if_neg hright, if_neg fun h => (hor.mp h).elim hleft hright]

theorem covered_outside (a : ℕ) {lo hi x : ℕ} (hx : x < 4294967296) (hhi : hi ≤ 4294967296)
    (h : x < lo ∨ hi ≤ x) : covered a lo hi ((a + x) % 4294967296) = 0 := by
  apply if_neg
  rintro ⟨i, hi', hle, hy⟩
  omega

/-- A round of `memWrite` whose packet is acknowledged: an element at least is left, and the reply
takes a part of the packet. -/
def writeStep (interface : TargetInterface σ) (a accessSize : ℕ) (data : List UInt8) (offset : ℕ)
    (l : σ) : Option (ℕ × σ) :=
  let (reply, l) := exchange interface (writePacketAt a accessSize data offset) l
  let n := taken (packetHead .memoryWrite a accessSize data.length offset) reply
  if accessSize ≤ data.length - offset ∧ n ≠ 0 then some (n, l) else none

section
variable {h : Host (σ × List Exchange)} {a offset : ℕ} {w : AccessWidth} {data : List UInt8}

theorem acks_writePacketAt (log : List Exchange) (reply : List UInt8) (y : ℕ) :
    acks (log ++ [⟨writePacketAt a w.bytes data offset, reply⟩]) y = acks log y +
      covered a offset
        (offset + taken (packetHead .memoryWrite a w.bytes data.length offset) reply) y := by
  have hacks : Exchange.Acks ⟨writePacketAt a w.bytes data offset, reply⟩ y ↔
      Within a offset
        (offset + taken (packetHead .memoryWrite a w.bytes data.length offset) reply) y := by
    unfold Exchange.Acks writePacketAt
    simp only [packetHead_decode]
    constructor
    · rintro ⟨-, j, hj, hy⟩
      exact ⟨offset + j, by omega, by omega, by rw [hy, packetHead, Nat.mod_add_mod, Nat.add_assoc]⟩
    · rintro ⟨i, hi, hle, hy⟩
      refine ⟨rfl, i - offset, by omega, ?_⟩
      rw [hy, packetHead, Nat.mod_add_mod, Nat.add_assoc, Nat.add_sub_cancel' hle]
  unfold acks covered
  rw [List.countP_append, List.countP_singleton]
  simp only [hacks, decide_eq_true_eq]

variable (interface) in
/-- A round always ends, and its exchange acknowledges `m` bytes from the offset on. Its step
succeeds when there are any, and then the round goes on behind them. -/
theorem memWriteRound_acks (hlt : offset < data.length) (hsmall : data.length < 4294967296) :
    ∃ n m h', TargetSTM32F1.memWriteRound (logged interface) a w.bytes data offset h = .ok (n, h') ∧
      offset + m ≤ data.length ∧
      (∀ y, acks h'.link.2 y = acks h.link.2 y + covered a offset (offset + m) y) ∧
      ((m = 0 ∧ writeStep interface a w.bytes data offset h.link.1 = none) ∨
        (m ≠ 0 ∧ n = m ∧
          writeStep interface a w.bytes data offset h.link.1 = some (m, h'.link.1))) := by
  by_cases hle : w.bytes ≤ data.length - offset
  · set head := packetHead .memoryWrite a w.bytes data.length offset with hhead
    obtain ⟨g, n, hround, -, hcount⟩ := memWriteRound_eq hle hsmall hhead
      (exchange_logged interface (writePacketAt a w.bytes data offset) h.link.1 h.link.2)
    set reply := (exchange interface (writePacketAt a w.bytes data offset) h.link.1).1 with hreply
    refine ⟨n, taken head reply, _, hround, ?_, ?_, ?_⟩
    · have htaken := taken_le head reply
      have hbytes : head.byteCount ≤ (data.length - offset) / w.bytes * w.bytes :=
        Nat.min_le_right _ _
      have hwhole := Nat.div_mul_le_self (data.length - offset) w.bytes
      omega
    · exact fun y => acks_writePacketAt h.link.2 reply y
    · unfold writeStep
      simp only [← hreply, ← hhead]
      by_cases hzero : taken head reply = 0
      · exact .inl ⟨hzero, if_neg fun hyes => hyes.2 hzero⟩
      · have hsize : MemReadWriteHead.size ≤ reply.length := by
          by_contra hshort
          exact hzero (taken_of_short hshort)
        exact .inr ⟨hzero, hcount hsize, if_pos ⟨hle, hzero⟩⟩
  · refine ⟨0, 0, h, memWriteRound_stops (not_le.mp hle), hlt.le, fun y => ?_, .inl ⟨rfl, ?_⟩⟩
    · rw [Nat.add_zero, covered_self, Nat.add_zero]
    · unfold writeStep
      exact if_neg fun hyes => hle hyes.1

/-- What a round does, from its result. -/
theorem memWriteRound_cases (hlt : offset < data.length) (hsmall : data.length < 4294967296)
    {n : ℕ} {h' : Host (σ × List Exchange)}
    (hround : TargetSTM32F1.memWriteRound (logged interface) a w.bytes data offset h = .ok (n, h')) :
    (acks h'.link.2 = acks h.link.2 ∧
        writeStep interface a w.bytes data offset h.link.1 = none) ∨
      (n ≠ 0 ∧ offset + n ≤ data.length ∧
        writeStep interface a w.bytes data offset h.link.1 = some (n, h'.link.1) ∧
        ∀ y, acks h'.link.2 y = acks h.link.2 y + covered a offset (offset + n) y) := by
  obtain ⟨n', m, s, hround', hend, hacks, hcases⟩ :=
    memWriteRound_acks interface (a := a) (w := w) (h := h) hlt hsmall
  obtain ⟨rfl, rfl⟩ := Prod.mk.inj (Except.ok.inj (hround'.symm.trans hround))
  rcases hcases with ⟨rfl, hnone⟩ | ⟨hm, rfl, hsome⟩
  · refine .inl ⟨funext fun y => ?_, hnone⟩
    rw [hacks y, Nat.add_zero, covered_self, Nat.add_zero]
  · exact .inr ⟨hm, hend, hsome, hacks⟩

end

/-- Every round is acknowledged, from the link `l` to the link `l'`. -/
def WriteCarried (interface : TargetInterface σ) (a accessSize : ℕ) (data : List UInt8) (l l' : σ) :
    Prop :=
  Carried (writeStep interface a accessSize data) data.length 0 l l'

theorem not_writeCarried_dead {a accessSize : ℕ} {data : List UInt8} (hdata : data ≠ [])
    {l' : Unit} : ¬ WriteCarried deadLink a accessSize data () l' := by
  intro hcarried
  cases hcarried with
  | done hle => exact absurd (List.length_pos_iff.mpr hdata) (not_lt.mpr hle)
  | next hlt hstep _ =>
    revert hstep
    simp [writeStep, exchange, deadLink, taken, announced, MemReadWriteHead.decode]

/-- Where every packet is echoed, a packet of whole elements is acknowledged whole. -/
theorem writeStep_echo (a : ℕ) (w : AccessWidth) {data : List UInt8} {offset : ℕ}
    (hlt : offset < data.length) (hdvd : w.bytes ∣ data.length - offset) (l : List UInt8) :
    writeStep echoLink a w.bytes data offset l = some (min 56 (data.length - offset), []) := by
  set head := packetHead .memoryWrite a w.bytes data.length offset with hhead
  have hcount : head.byteCount = min 56 (data.length - offset) := by
    rw [hhead, packetHead, packetBytes, Nat.div_mul_cancel hdvd]
  have hfront : (writePacketAt a w.bytes data offset).take 8 = head.encode :=
    List.take_left' (MemReadWriteHead.encode_length _)
  have hannounced : announced head head.encode = head.byteCount := by
    have hdecode := packetHead_decode .memoryWrite a w.bytes data.length offset []
    rw [List.append_nil, ← hhead] at hdecode
    rw [announced, hdecode]
    exact if_pos (headsAgree_refl head)
  have htaken : taken head head.encode = head.byteCount := by
    rw [taken, hannounced, if_pos le_rfl]
  have hle : w.bytes ≤ data.length - offset := Nat.le_of_dvd (by omega) hdvd
  unfold writeStep
  rw [exchange_echo, hfront]
  simp only [← hhead, htaken, hcount]
  exact if_pos ⟨hle, by omega⟩

theorem writeCarried_echo (a : ℕ) (w : AccessWidth) {data : List UInt8}
    (hdvd : w.bytes ∣ data.length) (l : List UInt8) :
    ∃ l', WriteCarried echoLink a w.bytes data l l' := by
  -- the elements that are left stay whole
  have hfrom (k offset : ℕ) (hk : data.length - offset = k) (hleft : w.bytes ∣ k)
      (l : List UInt8) :
      ∃ l', Carried (writeStep echoLink a w.bytes data) data.length offset l l' := by
    induction k using Nat.strong_induction_on generalizing offset l with
    | _ k ih =>
      by_cases hlt : offset < data.length
      · have hstep := writeStep_echo a w hlt (hk ▸ hleft) l
        rw [hk] at hstep
        obtain ⟨l', hrest⟩ := ih (k - min 56 k) (by omega) (offset + min 56 k) (by omega)
          (Nat.dvd_sub hleft (dvd_min_payload hleft)) []
        exact ⟨l', .next hlt hstep hrest⟩
      · exact ⟨l, .done (not_lt.mp hlt)⟩
  exact hfrom data.length 0 rfl hdvd l

section
variable {a : ℕ} {w : AccessWidth} {data : List UInt8} (hsmall : data.length < 4294967296)
include hsmall

variable (interface) in
theorem memWrite_total (h : Host (σ × List Exchange)) :
    ∃ last h', transfer (TargetSTM32F1.memWriteRound (logged interface) a w.bytes data) data.length
        0 h = .ok (last, h') ∧
      TargetSTM32F1.memWrite (logged interface) a w.bytes data h = .ok (last, h') := by
  obtain ⟨last, h', hrun⟩ := transfer_total
    (TargetSTM32F1.memWriteRound (logged interface) a w.bytes data) data.length
    (fun offset s hlt => by
      obtain ⟨n, m, s', hround, -⟩ := memWriteRound_acks interface (h := s) hlt hsmall
      exact ⟨n, s', hround⟩) 0 h
  refine ⟨last, h', hrun, ?_⟩
  unfold TargetSTM32F1.memWrite
  split_ifs with hzero
  · rw [transfer_done _ _ hzero.le] at hrun
    exact hrun
  · exact hrun

variable {h h' : Host (σ × List Exchange)} {last : ℕ}

theorem acks_le_of_run
    (hrun : transfer (TargetSTM32F1.memWriteRound (logged interface) a w.bytes data) data.length 0 h =
      .ok (last, h')) (y : ℕ) :
    acks h'.link.2 y ≤ acks h.link.2 y + covered a 0 data.length y := by
  have hbound := transfer_invariant
    (fun offset (s : Host (σ × List Exchange)) =>
      acks s.link.2 y ≤ acks h.link.2 y + covered a 0 (min offset data.length) y) (by
    intro offset s n s' hlt hP hround
    rw [min_eq_left hlt.le] at hP
    rcases memWriteRound_cases hlt hsmall hround with ⟨hsame, -⟩ | ⟨-, hend, -, hacks⟩
    · have hmono := covered_mono a 0 y (show offset ≤ min (offset + n) data.length by omega)
      rw [hsame]
      omega
    · have hsplit := covered_split a y (Nat.zero_le offset) (Nat.le_add_right offset n) (by omega)
      rw [min_eq_left hend, hacks y]
      omega) (by rw [Nat.zero_min, covered_self]; rfl) hrun
  exact hbound.trans (Nat.add_le_add_left (covered_mono a 0 y (Nat.min_le_right _ _)) _)

theorem acks_eq_of_carried {l' : σ} (hcarried : WriteCarried interface a w.bytes data h.link.1 l')
    (hrun : transfer (TargetSTM32F1.memWriteRound (logged interface) a w.bytes data) data.length 0 h =
      .ok (last, h')) :
    h'.link.1 = l' ∧ ∀ y, acks h'.link.2 y = acks h.link.2 y + covered a 0 data.length y := by
  obtain ⟨last', s', hrun', hend, hlink, hle, hacks⟩ := hcarried.transfer_ok
    (TargetSTM32F1.memWriteRound (logged interface) a w.bytes data)
    (fun s : Host (σ × List Exchange) => s.link.1)
    (fun offset s => offset ≤ data.length ∧
      ∀ y, acks s.link.2 y = acks h.link.2 y + covered a 0 offset y) (by
    intro offset s n l hlt hP hstep
    obtain ⟨n', m, s', hround, -⟩ :=
      memWriteRound_acks interface (a := a) (w := w) (h := s) hlt hsmall
    rcases memWriteRound_cases hlt hsmall hround with ⟨-, hnone⟩ | ⟨hn, hend, hsome, hacks⟩
    · cases hnone.symm.trans hstep
    · obtain ⟨rfl, rfl⟩ := Prod.mk.inj (Option.some.inj (hsome.symm.trans hstep))
      refine ⟨s', hround, hn, rfl, hend, fun y => ?_⟩
      have hsplit := covered_split a y (Nat.zero_le offset) (Nat.le_add_right offset n') (by omega)
      rw [hacks y, hP.2 y]
      omega) ⟨Nat.zero_le _, fun y => by rw [covered_self]; rfl⟩
  obtain ⟨-, rfl⟩ := Prod.mk.inj (Except.ok.inj (hrun.symm.trans hrun'))
  obtain rfl : last' = data.length := by omega
  exact ⟨hlink, hacks⟩

theorem acks_lt_of_not_carried
    (hfails : ¬ ∃ l', WriteCarried interface a w.bytes data h.link.1 l')
    (hrun : transfer (TargetSTM32F1.memWriteRound (logged interface) a w.bytes data) data.length 0 h =
      .ok (last, h')) :
    ∃ y, acks h'.link.2 y < acks h.link.2 y + covered a 0 data.length y := by
  have hmissed := transfer_misses (fun s : Host (σ × List Exchange) => s.link.1)
    (fun s x => acks s.link.2 ((a + x) % 4294967296)) (by
    intro offset s n l hlt hstep
    obtain ⟨n', m, s', hround, -⟩ :=
      memWriteRound_acks interface (a := a) (w := w) (h := s) hlt hsmall
    rcases memWriteRound_cases hlt hsmall hround with ⟨-, hnone⟩ | ⟨hn, hend, hsome, hacks⟩
    · cases hnone.symm.trans hstep
    · obtain ⟨rfl, rfl⟩ := Prod.mk.inj (Option.some.inj (hsome.symm.trans hstep))
      refine ⟨s', hround, hn, rfl, fun x hx hxt => ?_⟩
      rw [hacks, covered_outside a (by omega) (by omega) (.inr hx), Nat.add_zero]) (by
    intro offset s n s' hlt hstep hround
    rcases memWriteRound_cases hlt hsmall hround with ⟨hsame, -⟩ | ⟨-, -, hsome, -⟩
    · exact ⟨offset, le_rfl, hlt, fun hn => Nat.lt_add_of_pos_right (Nat.pos_of_ne_zero hn),
        congrFun hsame _⟩
    · cases hsome.symm.trans hstep) (by
    intro offset s n s' hlt hround x hx
    rcases memWriteRound_cases hlt hsmall hround with ⟨hsame, -⟩ | ⟨-, hend, -, hacks⟩
    · exact congrFun hsame _
    · rw [hacks, covered_outside a (by omega) (by omega) (.inl hx), Nat.add_zero]) hfails hrun
  obtain ⟨x, -, hx, hmark⟩ := hmissed
  refine ⟨(a + x) % 4294967296, ?_⟩
  have hin : covered a 0 data.length ((a + x) % 4294967296) = 1 :=
    if_pos ⟨x, hx, Nat.zero_le x, rfl⟩
  rw [hin]
  exact Nat.lt_succ_of_le hmark.le

end

/-- Writes of `p.2` to `p.1`, one after the other; the sizes written are dropped. -/
def memWriteAll (interface : TargetInterface σ) (accessSize : ℕ) (ps : List (ℕ × List UInt8))
    (h : Host σ) : Except Fault (Host σ) :=
  match ps with
  | [] => .ok h
  | p :: ps => do
    let (_, h) ← TargetSTM32F1.memWrite interface p.1 accessSize p.2 h
    memWriteAll interface accessSize ps h

theorem memWriteAll_append (accessSize : ℕ) (ps qs : List (ℕ × List UInt8)) (h : Host σ) :
    memWriteAll interface accessSize (ps ++ qs) h = (do
      let h ← memWriteAll interface accessSize ps h
      memWriteAll interface accessSize qs h) := by
  induction ps generalizing h with
  | nil => rfl
  | cons p ps ih =>
    rw [List.cons_append, memWriteAll, memWriteAll]
    cases TargetSTM32F1.memWrite interface p.1 accessSize p.2 h with
    | error e => rfl
    | ok r => exact ih r.2

/-- Every round of every write is acknowledged. -/
inductive AllCarried (interface : TargetInterface σ) (accessSize : ℕ) :
    List (ℕ × List UInt8) → σ → σ → Prop
  | nil (l : σ) : AllCarried interface accessSize [] l l
  | cons {p : ℕ × List UInt8} {ps : List (ℕ × List UInt8)} {l l₁ l' : σ}
    (hfirst : WriteCarried interface p.1 accessSize p.2 l l₁)
    (hrest : AllCarried interface accessSize ps l₁ l') : AllCarried interface accessSize (p :: ps) l l'

/-- How often the writes cover the byte at `y`. -/
def coveredBy (ps : List (ℕ × List UInt8)) (y : ℕ) : ℕ :=
  (ps.map fun p => covered p.1 0 p.2.length y).sum

/-- The log acknowledges every byte as often as the writes cover it. -/
def AcksAll (ps : List (ℕ × List UInt8)) (log : List Exchange) : Prop :=
  ∀ y, coveredBy ps y ≤ acks log y

variable (interface) in
/-- Writes are acknowledged as often as they cover each byte exactly when all their rounds are
acknowledged. -/
theorem memWriteAll_acks (w : AccessWidth) {ps : List (ℕ × List UInt8)}
    (hsmall : ∀ p ∈ ps, p.2.length < 4294967296) (h : Host (σ × List Exchange)) :
    ∃ h', memWriteAll (logged interface) w.bytes ps h = .ok h' ∧
      (∀ y, acks h'.link.2 y ≤ acks h.link.2 y + coveredBy ps y) ∧
      ((∀ y, acks h.link.2 y + coveredBy ps y ≤ acks h'.link.2 y) ↔
        ∃ l', AllCarried interface w.bytes ps h.link.1 l') := by
  induction ps generalizing h with
  | nil => exact ⟨h, rfl, fun y => le_rfl, iff_of_true (fun y => le_rfl) ⟨_, .nil _⟩⟩
  | cons p ps ih =>
    have hsmall₁ := hsmall p List.mem_cons_self
    obtain ⟨last, h₁, hrun, hwrite⟩ :=
      memWrite_total interface (a := p.1) (w := w) hsmall₁ h
    obtain ⟨h₂, hall, hle, hiff⟩ := ih (fun q hq => hsmall q (List.mem_cons_of_mem p hq)) h₁
    have hcovered (y : ℕ) :
        coveredBy (p :: ps) y = covered p.1 0 p.2.length y + coveredBy ps y := List.sum_cons
    have hle₁ := acks_le_of_run hsmall₁ hrun
    refine ⟨h₂, (bind_of_ok hwrite).trans hall, fun y => ?_, ?_⟩
    · have hy := hle y
      have hy₁ := hle₁ y
      rw [hcovered y]
      omega
    · constructor
      · intro hge
        by_cases hfirst : ∃ l₁, WriteCarried interface p.1 w.bytes p.2 h.link.1 l₁
        · obtain ⟨l₁, hcarried⟩ := hfirst
          obtain ⟨hlink, heq⟩ := acks_eq_of_carried hsmall₁ hcarried hrun
          have hrest : ∀ y, acks h₁.link.2 y + coveredBy ps y ≤ acks h₂.link.2 y := by
            intro y
            have hy := hge y
            rw [hcovered y] at hy
            rw [heq y]
            omega
          obtain ⟨l', hps⟩ := hiff.mp hrest
          exact ⟨l', .cons hcarried (hlink ▸ hps)⟩
        · obtain ⟨y, hlt⟩ := acks_lt_of_not_carried hsmall₁ hfirst hrun
          have hy := hge y
          have hy₂ := hle y
          rw [hcovered y] at hy
          omega
      · rintro ⟨l', hcarried⟩
        cases hcarried with
        | cons hfirst hps =>
          obtain ⟨hlink, heq⟩ := acks_eq_of_carried hsmall₁ hfirst hrun
          intro y
          have hy := hiff.mpr ⟨l', hlink ▸ hps⟩ y
          rw [hcovered y]
          rw [heq y] at hy
          omega

end BluePill
