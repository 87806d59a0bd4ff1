import BluePill.Host.Exchanges
import BluePill.Host.RegisterReplies

/-! What GDB is answered to reads over any link: which bytes of a reply were read, and which were
never stored. -/
namespace BluePill
open Lib

namespace Exchange

/-- The reply brings the byte of memory at `x`. -/
def Brings (e : Exchange) (x : ℕ) (b : UInt8) : Prop :=
  ∃ head j, MemReadWriteHead.decode e.packet = some head ∧
    head.cmd = DebugCommand.memoryRead.toByte ∧ j < announced head e.reply ∧
    x = (head.address + j) % 4294967296 ∧ e.reply[8 + j]? = some b

/-- The reply brings the byte `i` of register `k`. -/
def BringsRegister (e : Exchange) (k i : ℕ) (b : UInt8) : Prop :=
  ∃ cmdHead ansHead j, RegReadWriteHead.decode e.packet = some cmdHead ∧
    RegReadWriteHead.decode e.reply = some ansHead ∧
    cmdHead.cmd = DebugCommand.regsRead.toByte ∧ cmdHead.cmd = ansHead.cmd ∧
    cmdHead.regIndex = ansHead.regIndex ∧ ansHead.regCount ≤ cmdHead.regCount ∧
    j < ansHead.regCount.toNat ∧ k = cmdHead.regIndex + j ∧ e.reply[4 + 4 * j + i]? = some b

end Exchange

variable {σ : Type} (interface : TargetInterface σ)

/-- A round of `memRead` that is answered: an element at least is left, the reply echoes the
command, and the bytes that it announces are all there. -/
def readStep (a accessSize total offset : ℕ) (l : σ) : Option (ℕ × σ) :=
  let head := packetHead .memoryRead a accessSize total offset
  let (reply, l) := exchange interface head.encode l
  let n := announced head reply
  if accessSize ≤ total - offset ∧ n ≠ 0 ∧ 8 + min n (total - offset) ≤ reply.length then some (n, l)
  else none

variable {interface}

section
variable {a total offset : ℕ} {w : AccessWidth} {h h' : Host (σ × List Exchange)} {n : ℕ}
  {data data' : List UInt8}

/-- A round adds one exchange to the log, or stops without one. -/
theorem memReadRound_log (hsmall : total < 4294967296)
    (hround : TargetSTM32F1.memReadRound (logged interface) a w.bytes total offset (data, h) =
      .ok (n, data', h')) :
    (total - offset < w.bytes ∧ n = 0 ∧ h'.link = h.link) ∨
      ∃ reply, w.bytes ≤ total - offset ∧
        (exchange interface (packetHead .memoryRead a w.bytes total offset).encode h.link.1).1 = reply ∧
        n = announced (packetHead .memoryRead a w.bytes total offset) reply ∧
        h'.link.2 = h.link.2 ++ [⟨(packetHead .memoryRead a w.bytes total offset).encode, reply⟩] := by
  by_cases hle : w.bytes ≤ total - offset
  · right
    set head := packetHead .memoryRead a w.bytes total offset with hhead
    obtain ⟨g, heq⟩ := memReadRound_eq data hle hsmall hhead
      (exchange_logged interface head.encode h.link.1 h.link.2)
    rw [heq] at hround
    refine ⟨_, hle, rfl, ?_⟩
    split_ifs at hround with hzero
    · obtain ⟨rfl, hs⟩ := Prod.mk.inj (Except.ok.inj hround)
      obtain ⟨-, rfl⟩ := Prod.mk.inj hs
      exact ⟨hzero.symm, rfl⟩
    · obtain ⟨bytes, -, hrest⟩ := bind_eq_ok.mp hround
      obtain ⟨rfl, hs⟩ := Prod.mk.inj (Except.ok.inj hrest)
      obtain ⟨-, rfl⟩ := Prod.mk.inj hs
      exact ⟨rfl, rfl⟩
  · left
    rw [memReadRound_stops data (not_le.mp hle)] at hround
    obtain ⟨rfl, hs⟩ := Prod.mk.inj (Except.ok.inj hround)
    obtain ⟨-, rfl⟩ := Prod.mk.inj hs
    exact ⟨not_le.mp hle, rfl, rfl⟩

theorem brings_iff {reply : List UInt8} {x : ℕ} {b : UInt8} :
    Exchange.Brings ⟨(packetHead .memoryRead a w.bytes total offset).encode, reply⟩ x b ↔
      ∃ j < announced (packetHead .memoryRead a w.bytes total offset) reply,
        x = (a + offset + j) % 4294967296 ∧ reply[8 + j]? = some b := by
  unfold Exchange.Brings
  have hdecode := packetHead_decode .memoryRead a w.bytes total offset []
  rw [List.append_nil] at hdecode
  simp only [hdecode]
  constructor
  · rintro ⟨head, j, hhead, -, hj, hx, hb⟩
    obtain rfl := Option.some.inj hhead
    exact ⟨j, hj, hx.trans (Nat.mod_add_mod _ _ _), hb⟩
  · rintro ⟨j, hj, hx, hb⟩
    exact ⟨_, j, rfl, rfl, hj, hx.trans (Nat.mod_add_mod _ _ _).symm, hb⟩

variable (data) in
/-- A round that is answered copies the bytes that its reply brings. -/
theorem memReadRound_answered (hsmall : total < 4294967296) {l' : σ}
    (hstep : readStep interface a w.bytes total offset h.link.1 = some (n, l')) :
    ∃ g reply, w.bytes ≤ total - offset ∧ n ≠ 0 ∧ 8 + min n (total - offset) ≤ reply.length ∧
      n = announced (packetHead .memoryRead a w.bytes total offset) reply ∧
      TargetSTM32F1.memReadRound (logged interface) a w.bytes total offset (data, h) =
        .ok (n, data ++ (reply.drop 8).take (min n (total - offset)),
          ⟨g, h.inBuf.receive reply, l',
            h.link.2 ++ [⟨(packetHead .memoryRead a w.bytes total offset).encode, reply⟩]⟩) := by
  unfold readStep at hstep
  simp only at hstep
  split_ifs at hstep with hyes
  obtain ⟨hle, hn, hfits⟩ := hyes
  obtain ⟨hcount, hl⟩ := Prod.mk.inj (Option.some.inj hstep)
  set head := packetHead .memoryRead a w.bytes total offset with hhead
  obtain ⟨g, heq⟩ := memReadRound_eq data hle hsmall hhead
    (exchange_logged interface head.encode h.link.1 h.link.2)
  set reply := (exchange interface head.encode h.link.1).1 with hreply
  have hlen : reply.length ≤ 64 := exchange_length_le _ _ _
  have hbytes : readBytes (h.inBuf.receive reply).val 8 (min (announced head reply) (total - offset)) =
      .ok ((reply.drop 8).take (min (announced head reply) (total - offset))) := by
    have hsize : reply.length ≤ (h.inBuf.receive reply).val.length := by
      rw [h.inBuf.receive_val hlen, List.length_append]
      omega
    unfold readBytes
    rw [if_pos (by omega), h.inBuf.receive_val hlen, List.drop_append_of_le_length (by omega),
      List.take_append_of_le_length (by rw [List.length_drop]; omega)]
  refine ⟨g, reply, hle, hcount ▸ hn, hcount ▸ hfits, hcount.symm, ?_⟩
  rw [heq, if_neg hn, bind_of_ok hbytes, hl, hcount]
  rfl

end

/-- The vector has the bytes up to `offset`, and each of them was brought. -/
structure BroughtUpTo (a total offset : ℕ) (s : List UInt8 × Host (σ × List Exchange)) : Prop where
  length : s.1.length = min offset total
  brought : ∀ x < s.1.length, ∃ b, s.1[x]? = some b ∧
    ∃ e ∈ s.2.link.2, e.Brings ((a + x) % 4294967296) b

section
variable {a total : ℕ} {w : AccessWidth}

theorem BroughtUpTo.round (hsmall : total < 4294967296) {offset n : ℕ} {l : σ}
    {s : List UInt8 × Host (σ × List Exchange)} (hlt : offset < total)
    (hup : BroughtUpTo a total offset s)
    (hstep : readStep interface a w.bytes total offset s.2.link.1 = some (n, l)) :
    ∃ s', TargetSTM32F1.memReadRound (logged interface) a w.bytes total offset s = .ok (n, s') ∧
      n ≠ 0 ∧ s'.2.link.1 = l ∧ BroughtUpTo a total (offset + n) s' := by
  obtain ⟨data, h⟩ := s
  obtain ⟨hlen, hbrought⟩ := hup
  simp only at hlen hbrought hstep
  obtain ⟨g, reply, -, hn, hfits, hcount, hround⟩ :=
    memReadRound_answered data hsmall hstep
  refine ⟨_, hround, hn, rfl, ?_⟩
  set k := min n (total - offset) with hk
  have hcopied : ((reply.drop 8).take k).length = k := by
    rw [List.length_take, List.length_drop]
    omega
  constructor
  · simp only [List.length_append, hcopied]
    omega
  · intro x hx
    simp only [List.length_append, hcopied] at hx
    by_cases hold : x < data.length
    · obtain ⟨b, hb, e, he, hbrings⟩ := hbrought x hold
      exact ⟨b, by rw [List.getElem?_append_left hold, hb], e, List.mem_append_left _ he, hbrings⟩
    · have hplace : 8 + (x - data.length) < reply.length := by omega
      refine ⟨reply[8 + (x - data.length)], ?_, _, List.mem_append_right _ (List.mem_singleton_self _),
        brings_iff.mpr ⟨x - data.length, by omega, ?_, List.getElem?_eq_getElem hplace⟩⟩
      · rw [List.getElem?_append_right (not_lt.mp hold), List.getElem?_take_of_lt (by omega),
          List.getElem?_drop, List.getElem?_eq_getElem hplace]
      · congr 1
        omega

/-- A read whose packets are all answered returns bytes that were brought. -/
theorem memRead_carried (hsmall : total < 4294967296) (hdvd : w.bytes ∣ total) {h : Host σ} {l' : σ}
    (hcarried : Carried (readStep interface a w.bytes total) total 0 h.link l') :
    ∃ data h', TargetSTM32F1.memRead (logged interface) a w.bytes (total / w.bytes) h.unlogged =
        .ok (data, h') ∧ data.length = total ∧
      ∀ x < total, ∃ b, data[x]? = some b ∧
        ∃ e ∈ h'.link.2, e.Brings ((a + x) % 4294967296) b := by
  have helements : total / w.bytes * w.bytes = total := Nat.div_mul_cancel hdvd
  have hpos := w.bytes_pos
  unfold TargetSTM32F1.memRead
  by_cases hzero : total = 0
  · refine ⟨[], h.unlogged, ?_, hzero.symm, fun x hx => by omega⟩
    rw [hzero, Nat.zero_div, if_pos (Or.inr rfl)]
  · have hcount : ¬ (w.bytes = 0 ∨ total / w.bytes = 0) := by
      rintro (h0 | h0)
      · omega
      · rw [h0, Nat.zero_mul] at helements
        omega
    have hstart : BroughtUpTo a total 0 (([], h.unlogged) : List UInt8 × Host (σ × List Exchange)) :=
      ⟨(Nat.zero_min _).symm, fun x hx => absurd hx (Nat.not_lt_zero x)⟩
    obtain ⟨last, ⟨data, h'⟩, hrun, hend, -, hlen, hbrought⟩ := hcarried.transfer_ok _
      (fun s : List UInt8 × Host (σ × List Exchange) => s.2.link.1) (BroughtUpTo a total)
      (fun offset s n l hlt hup hstep => hup.round hsmall hlt hstep) hstart
    simp only at hlen hbrought
    rw [min_eq_right hend] at hlen
    refine ⟨data, h', ?_, hlen, fun x hx => hbrought x (by omega)⟩
    rw [if_neg hcount, helements, Nat.mod_eq_of_lt hsmall, bind_of_ok hrun]
    rfl

/-- Some reply brought the byte at position `x` of a read from `a` on. -/
def BroughtAt (a : ℕ) (s : List UInt8 × Host (σ × List Exchange)) (x : ℕ) : Prop :=
  ∃ b, ∃ e ∈ s.2.link.2, e.Brings ((a + x) % 4294967296) b

/-- An exchange brings the positions from its own on that its reply announces and contains. -/
theorem broughtAt_iff (hsmall : total < 4294900000) {offset x : ℕ} (hoff : offset < total)
    (hx : x < total) {s s' : List UInt8 × Host (σ × List Exchange)} {reply : List UInt8}
    (hlog : s'.2.link.2 = s.2.link.2 ++
      [⟨(packetHead .memoryRead a w.bytes total offset).encode, reply⟩]) :
    BroughtAt a s' x ↔ BroughtAt a s x ∨ (offset ≤ x ∧
      x - offset < announced (packetHead .memoryRead a w.bytes total offset) reply ∧
      8 + (x - offset) < reply.length) := by
  have hlt := announced_lt (packetHead .memoryRead a w.bytes total offset) reply
  unfold BroughtAt
  rw [hlog]
  constructor
  · rintro ⟨b, e, he, hbrings⟩
    rcases List.mem_append.mp he with hold | hnew
    · exact .inl ⟨b, e, hold, hbrings⟩
    · obtain rfl := List.mem_singleton.mp hnew
      obtain ⟨j, hj, hplace, hb⟩ := brings_iff.mp hbrings
      obtain ⟨hin, -⟩ := List.getElem?_eq_some_iff.mp hb
      obtain rfl : x = offset + j := by omega
      rw [Nat.add_sub_cancel_left]
      exact .inr ⟨Nat.le_add_right _ _, hj, hin⟩
  · rintro (⟨b, e, he, hbrings⟩ | ⟨hle, hcount, hin⟩)
    · exact ⟨b, e, List.mem_append_left _ he, hbrings⟩
    · refine ⟨reply[8 + (x - offset)], _, List.mem_append_right _ (List.mem_singleton_self _),
        brings_iff.mpr ⟨x - offset, hcount, ?_, List.getElem?_eq_getElem hin⟩⟩
      rw [Nat.add_assoc, Nat.add_sub_cancel' hle]

/-- A round that is not answered leaves one of the positions that it passes. -/
theorem memReadRound_missed (hsmall : total < 4294900000) {offset n : ℕ} (hlt : offset < total)
    {s s' : List UInt8 × Host (σ × List Exchange)}
    (hstep : readStep interface a w.bytes total offset s.2.link.1 = none)
    (hround : TargetSTM32F1.memReadRound (logged interface) a w.bytes total offset s = .ok (n, s')) :
    ∃ x, offset ≤ x ∧ x < total ∧ (n ≠ 0 → x < offset + n) ∧
      (BroughtAt a s' x ↔ BroughtAt a s x) := by
  obtain ⟨data, h⟩ := s
  obtain ⟨data', h'⟩ := s'
  rcases memReadRound_log (by omega) hround with ⟨-, rfl, hlink⟩ | ⟨reply, hle, rfl, rfl, hlog⟩
  · refine ⟨offset, le_rfl, hlt, fun hn => absurd rfl hn, ?_⟩
    unfold BroughtAt
    rw [show (data', h').2.link = (data, h).2.link from hlink]
  · set head := packetHead .memoryRead a w.bytes total offset with hhead
    set reply := (exchange interface head.encode h.link.1).1 with hreply
    have hno : ¬ (w.bytes ≤ total - offset ∧ announced head reply ≠ 0 ∧
        8 + min (announced head reply) (total - offset) ≤ reply.length) := by
      intro hyes
      unfold readStep at hstep
      simp only at hstep
      rw [if_pos hyes] at hstep
      cases hstep
    by_cases hzero : announced head reply = 0
    · refine ⟨offset, le_rfl, hlt, fun hn => absurd hzero hn, ?_⟩
      rw [broughtAt_iff (s := (data, h)) (w := w) hsmall hlt hlt hlog, ← hhead]
      exact or_iff_left fun hnew => by omega
    · have hsize : MemReadWriteHead.size ≤ reply.length := by
        by_contra hshort
        exact hzero (announced_of_short hshort)
      have hsize' : 8 ≤ reply.length := hsize
      have hshort : reply.length < 8 + min (announced head reply) (total - offset) := by
        by_contra hfits
        exact hno ⟨hle, hzero, not_lt.mp hfits⟩
      refine ⟨offset + (reply.length - 8), by omega, by omega, fun _ => by omega, ?_⟩
      rw [broughtAt_iff (s := (data, h)) (w := w) hsmall hlt (by omega) hlog]
      exact or_iff_left fun hnew => by omega

theorem memReadRound_behind (hsmall : total < 4294900000) {offset n : ℕ} (hlt : offset < total)
    {s s' : List UInt8 × Host (σ × List Exchange)}
    (hround : TargetSTM32F1.memReadRound (logged interface) a w.bytes total offset s = .ok (n, s'))
    {x : ℕ} (hx : x < offset) : BroughtAt a s' x ↔ BroughtAt a s x := by
  obtain ⟨data, h⟩ := s
  obtain ⟨data', h'⟩ := s'
  rcases memReadRound_log (by omega) hround with ⟨-, -, hlink⟩ | ⟨reply, -, -, -, hlog⟩
  · unfold BroughtAt
    rw [show (data', h').2.link = (data, h).2.link from hlink]
  · rw [broughtAt_iff (s := (data, h)) (w := w) hsmall hlt (by omega) hlog]
    exact or_iff_left fun hnew => by omega

/-- A read with a packet that is not answered leaves a byte that no reply brought. -/
theorem memRead_missed (hsmall : total < 4294900000) (hdvd : w.bytes ∣ total) {h : Host σ}
    (hfails : ¬ ∃ l', Carried (readStep interface a w.bytes total) total 0 h.link l')
    {data : List UInt8} {h' : Host (σ × List Exchange)}
    (hrun : TargetSTM32F1.memRead (logged interface) a w.bytes (total / w.bytes) h.unlogged =
      .ok (data, h')) :
    ∃ x < total, ∀ b, ∀ e ∈ h'.link.2, ¬ e.Brings ((a + x) % 4294967296) b := by
  have helements : total / w.bytes * w.bytes = total := Nat.div_mul_cancel hdvd
  have hpos := w.bytes_pos
  have hzero : total ≠ 0 := fun hzero => hfails ⟨h.link, .done hzero.le⟩
  have hcount : ¬ (w.bytes = 0 ∨ total / w.bytes = 0) := by
    rintro (h0 | h0)
    · omega
    · rw [h0, Nat.zero_mul] at helements
      omega
  unfold TargetSTM32F1.memRead at hrun
  rw [if_neg hcount, helements, Nat.mod_eq_of_lt (by omega)] at hrun
  obtain ⟨⟨last, s'⟩, hloop, hrest⟩ := bind_eq_ok.mp hrun
  obtain rfl : s' = (data, h') := pure_eq_ok.mp hrest
  have hmarks : ∃ x, 0 ≤ x ∧ x < total ∧
      BroughtAt a (data, h') x = BroughtAt a ([], h.unlogged) x := by
    refine transfer_misses (fun s : List UInt8 × Host (σ × List Exchange) => s.2.link.1)
      (BroughtAt a) ?_ ?_ ?_ hfails hloop
    · intro offset s n l hlt hstep
      obtain ⟨g, reply, -, hn, -, hcount, hround⟩ :=
        memReadRound_answered s.1 (h := s.2) (by omega) hstep
      refine ⟨_, hround, hn, rfl, fun x hx hxt => propext ?_⟩
      rw [broughtAt_iff (s := s) hsmall hlt hxt rfl]
      exact or_iff_left fun hnew => by omega
    · intro offset s n s' hlt hstep hround
      obtain ⟨x, hlo, hhi, hin, hmark⟩ := memReadRound_missed hsmall hlt hstep hround
      exact ⟨x, hlo, hhi, hin, propext hmark⟩
    · exact fun offset s n s' hlt hround x hx => propext (memReadRound_behind hsmall hlt hround hx)
  obtain ⟨x, -, hx, hmark⟩ := hmarks
  refine ⟨x, hx, fun b e he hbrings => ?_⟩
  obtain ⟨_, _, hnone, -⟩ := hmark.mp ⟨b, e, he, hbrings⟩
  cases hnone

end

/-- The packets that read. -/
inductive ReadRequest
  | m (addr len : ℕ)
  | p (reg : ℕ)
  | g

namespace ReadRequest

def handle (interface : TargetInterface σ) (fuel : ℕ) (q : ReadRequest) (h : Host σ) :
    Except Fault (GdbReply × Host σ) :=
  match q with
  | .m addr len => gdbReadMemory interface addr len h
  | .p reg => gdbReadRegister interface fuel reg h
  | .g => gdbReadRegisters interface fuel h

/-- The bytes that GDB asks for. -/
def size : ReadRequest → ℕ
  | .m _ len => len
  | .p _ => 4
  | .g => targetRegsSize

/-- A reply in the log brought the byte `i` of the request. -/
def Brought (log : List Exchange) (q : ReadRequest) (i : ℕ) (b : UInt8) : Prop :=
  match q with
  | .m addr _ => ∃ e ∈ log, e.Brings ((addr + i) % 4294967296) b
  | .p reg => ∃ k, deviceRegister reg = some k ∧ ∃ e ∈ log, e.BringsRegister k i b
  | .g => ∃ e ∈ log, e.BringsRegister (i / 4) (i % 4) b

/-- A memory read too long for the packet buffer, which is refused, or one all of whose packets
are answered. -/
def GivenWhole (interface : TargetInterface σ) (l : σ) : ReadRequest → Prop
  | .m addr len => pbufSize / 2 < len ∨
      ∃ l', Carried (readStep interface addr (accessSizeFor addr len) len) len 0 l l'
  | .p _ => False
  | .g => False

end ReadRequest

/-- GDB is answered, and when it is answered with data, with every byte that it asked for, each of
them brought by a reply during the request. -/
def OnlyBytesRead (interface : TargetInterface σ) (q : ReadRequest) (h : Host σ) : Prop :=
  ∃ fuel reply h', q.handle (logged interface) fuel h.unlogged = .ok (reply, h') ∧
    ∀ bytes, reply = .data bytes → bytes.length = q.size ∧
      ∀ i < q.size, ∃ b, bytes[i]? = some (some b) ∧ q.Brought h'.link.2 i b

theorem gdbReadMemory_of_memRead {addr len : ℕ} {h : Host (σ × List Exchange)}
    (hlen : ¬ pbufSize / 2 < len) {w : AccessWidth} (hw : accessSizeFor addr len = w.bytes) :
    gdbReadMemory (logged interface) addr len h = (do
      let (stored, h) ← TargetSTM32F1.memRead (logged interface) addr w.bytes (len / w.bytes) h
      let mem ← hostBuffer len stored
      return (.data mem, h)) := by
  have hread : stm32MemRead (logged interface) addr len h =
      TargetSTM32F1.memRead (logged interface) addr w.bytes (len / w.bytes) h := by
    rw [← hw]
    rfl
  unfold gdbReadMemory targetMemRead
  rw [if_neg hlen, hread]
  cases TargetSTM32F1.memRead (logged interface) addr w.bytes (len / w.bytes) h with
  | error e => rfl
  | ok r => rfl

theorem onlyBytesRead_m_iff (addr len : ℕ) (h : Host σ) :
    OnlyBytesRead interface (.m addr len) h ↔
      ReadRequest.GivenWhole interface h.link (.m addr len) := by
  obtain ⟨w, hw, -, hdvd⟩ := accSize_eq addr len
  have hsize : accessSizeFor addr len = w.bytes := hw
  by_cases hlong : pbufSize / 2 < len
  · refine iff_of_true ⟨0, .e02, h.unlogged, if_pos hlong, fun bytes hdata => by cases hdata⟩
      (.inl hlong)
  · have hsmall : len ≤ 512 := not_lt.mp hlong
    show _ ↔ (pbufSize / 2 < len ∨
      ∃ l', Carried (readStep interface addr (accessSizeFor addr len) len) len 0 h.link l')
    rw [hsize, or_iff_right hlong]
    constructor
    · rintro ⟨fuel, reply, h', hhandle, hdata⟩
      by_contra hfails
      have hrun := (gdbReadMemory_of_memRead hlong hsize).symm.trans hhandle
      obtain ⟨⟨stored, h₁⟩, hread, hrest⟩ := bind_eq_ok.mp hrun
      obtain ⟨mem, hmem, hpair⟩ := bind_eq_ok.mp hrest
      obtain ⟨rfl, rfl⟩ := Prod.mk.inj (pure_eq_ok.mp hpair)
      obtain ⟨x, hx, hmissed⟩ := memRead_missed (by omega) hdvd hfails hread
      obtain ⟨-, hbytes⟩ := hdata mem rfl
      obtain ⟨b, -, e, he, hbrings⟩ := hbytes x hx
      exact hmissed b e he hbrings
    · rintro ⟨l', hcarried⟩
      obtain ⟨data, h', hread, hlen, hbrought⟩ := memRead_carried (by omega) hdvd hcarried
      have hmem : hostBuffer len data = .ok (data.map some) := by
        unfold hostBuffer
        rw [if_pos hlen.le, hlen, Nat.sub_self, List.replicate_zero, List.append_nil]
      refine ⟨0, .data (data.map some), h', ?_, ?_⟩
      · refine (gdbReadMemory_of_memRead hlong hsize).trans ?_
        rw [bind_of_ok hread]
        simp only
        rw [bind_of_ok hmem]
        rfl
      · intro bytes hbytes
        obtain rfl := GdbReply.data.inj hbytes
        refine ⟨by rw [List.length_map]; exact hlen, fun i hi => ?_⟩
        obtain ⟨b, hb, hlog⟩ := hbrought i hi
        exact ⟨b, by rw [List.getElem?_map, hb]; rfl, hlog⟩

/-- One byte at most is stored for a register, and the zeros stored for an unknown one are not
read from the device. -/
theorem not_onlyBytesRead_p (reg : ℕ) (h : Host σ) : ¬ OnlyBytesRead interface (.p reg) h := by
  rintro ⟨fuel, reply, h', hhandle, hdata⟩
  obtain ⟨⟨s, stored, h₁⟩, hread, hrest⟩ := bind_eq_ok.mp hhandle
  obtain ⟨val, hval, hpair⟩ := bind_eq_ok.mp hrest
  obtain ⟨hreply, rfl⟩ := Prod.mk.inj (pure_eq_ok.mp hpair)
  cases hreg : deviceRegister reg with
  | none =>
    unfold stm32RegRead at hread
    simp only [hreg] at hread
    obtain ⟨rfl, -⟩ := Prod.mk.inj (Except.ok.inj hread)
    obtain ⟨-, hbytes⟩ := hdata _ hreply.symm
    obtain ⟨b, -, k, hk, -⟩ := hbytes 0 (show 0 < 4 by decide)
    cases hreg.symm.trans hk
  | some k =>
    unfold stm32RegRead at hread
    simp only [hreg] at hread
    obtain ⟨⟨regs, h₂⟩, hregs, hpair'⟩ := bind_eq_ok.mp hread
    have hlen : regs.length ≤ 1 := regsRead_length (by decide) hregs
    obtain ⟨rfl, hrest'⟩ := Prod.mk.inj (pure_eq_ok.mp hpair')
    obtain ⟨rfl, -⟩ := Prod.mk.inj hrest'
    obtain ⟨-, hbytes⟩ := hdata _ hreply.symm
    obtain ⟨b, hb, -⟩ := hbytes 1 (show 1 < 4 by decide)
    rw [List.getElem?_take_of_lt (by decide),
      hostBuffer_rest hval (by rw [List.length_map]; exact hlen) (by decide)] at hb
    cases hb

/-- Sixteen bytes at most are stored for the sixteen registers. -/
theorem not_onlyBytesRead_g (h : Host σ) : ¬ OnlyBytesRead interface .g h := by
  rintro ⟨fuel, reply, h', hhandle, hdata⟩
  obtain ⟨⟨stored, h₁⟩, hread, hrest⟩ := bind_eq_ok.mp hhandle
  obtain ⟨armRegs, hregs, hpair⟩ := bind_eq_ok.mp hrest
  obtain ⟨rfl, rfl⟩ := Prod.mk.inj (pure_eq_ok.mp hpair)
  obtain ⟨⟨regs, h₂⟩, hvec, hpair'⟩ := bind_eq_ok.mp hread
  obtain ⟨rfl, -⟩ := Prod.mk.inj (pure_eq_ok.mp hpair')
  have hlen : regs.length ≤ 16 := regsRead_length (by decide) hvec
  obtain ⟨-, hbytes⟩ := hdata _ rfl
  obtain ⟨b, hb, -⟩ := hbytes 16 (by decide)
  rw [hostBuffer_rest hregs (by rw [List.length_map]; exact hlen) (by decide)] at hb
  cases hb

/-- Over any link, a data reply holds only bytes that were read exactly when it answers a memory
read all of whose packets were answered. Shorter vectors are not noticed. -/
theorem onlyBytesRead_iff (interface : TargetInterface σ) (q : ReadRequest) (h : Host σ) :
    OnlyBytesRead interface q h ↔ q.GivenWhole interface h.link := by
  cases q with
  | m addr len => exact onlyBytesRead_m_iff addr len h
  | p reg => exact iff_of_false (not_onlyBytesRead_p reg h) id
  | g => exact iff_of_false (not_onlyBytesRead_g h) id

/-- GDB is answered with a byte of the host buffer that nothing was stored into. -/
theorem not_onlyBytesRead :
    ¬ OnlyBytesRead deadLink (.m 0x20000000 1) ⟨.zero, .zero, ()⟩ := by
  intro honly
  rcases (onlyBytesRead_m_iff _ _ _).mp honly with hlong | ⟨l', hcarried⟩
  · exact absurd hlong (by decide)
  · cases hcarried with
    | done hle => exact absurd hle (by decide)
    | next hlt hstep _ =>
      revert hstep
      simp [readStep, exchange, deadLink, announced, MemReadWriteHead.decode]

end BluePill
