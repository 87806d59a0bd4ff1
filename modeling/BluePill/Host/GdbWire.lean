import BluePill.Host.FlashDownload
import BluePill.Host.GdbServer

/-! Packets on a line that garbles them: the rounds of the loop do with the characters what the
handlers do with the packets, each once and in their order. -/
namespace BluePill
open Lib Ascii

/-- A packet, and what the line makes of it and of its answer: characters that start nothing, frames
that are cut off, frames whose text is garbled, and the replies that have the answer sent again. -/
structure Transmission where
  packet : List UInt8
  noise : List UInt8
  aborted : List (List UInt8)
  garbled : List (List UInt8)
  nacks : List UInt8
  fits : packet.length ≤ bufSize
  noise_waits : ∀ c ∈ noise, c ≠ dollar ∧ c ≠ Ascii.eot
  aborted_short : ∀ e ∈ aborted, ∃ q, GdbEscapes e q ∧ q.length < bufSize
  garbles : Garbles bufSize packet garbled
  refused : ∀ c ∈ nacks, c ≠ plus
  few : nacks.length ≤ 3

namespace Transmission

/-- What the server gets. -/
def input (tr : Transmission) : List UInt8 :=
  tr.noise ++ tr.aborted.flatMap (fun e => dollar :: e) ++
    tr.garbled.flatMap (garbledFrame tr.packet) ++ gdbFrame tr.packet ++ tr.nacks ++ [plus]

/-- What it sends for an answer. -/
def output (tr : Transmission) (answer : List UInt8) : List UInt8 :=
  List.replicate tr.garbled.length minus ++ plus ::
    (List.replicate (tr.nacks.length + 1) (gdbFrame answer)).flatten

/-- A packet that arrives at once, with an answer that does. -/
def plain (packet : List UInt8) (fits : packet.length ≤ bufSize) : Transmission where
  packet := packet
  noise := []
  aborted := []
  garbled := []
  nacks := []
  fits := fits
  noise_waits := by simp
  aborted_short := by simp
  garbles := by simp [Garbles]
  refused := by simp
  few := by simp

theorem getpacket (tr : Transmission) (rest : List UInt8) :
    gdbGetpacket bufSize (tr.input ++ rest) = some (tr.packet,
      List.replicate tr.garbled.length minus ++ [plus], tr.nacks ++ plus :: rest) := by
  obtain ⟨r, hr, hrun⟩ := Receiver.run_aborted (.inl rfl) tr.aborted_short
    (tr.garbled.flatMap (garbledFrame tr.packet) ++
      (gdbFrame tr.packet ++ (tr.nacks ++ plus :: rest)))
  have hinput : tr.input ++ rest = tr.noise ++ (tr.aborted.flatMap (fun e => dollar :: e) ++
      (tr.garbled.flatMap (garbledFrame tr.packet) ++
        (gdbFrame tr.packet ++ (tr.nacks ++ plus :: rest)))) := by
    simp only [input, List.append_assoc, List.singleton_append]
  unfold gdbGetpacket
  rw [hinput, Receiver.run_noise tr.noise_waits, hrun,
    Receiver.run_garbled hr tr.garbles tr.fits]

theorem putpacket (tr : Transmission) (answer rest : List UInt8) :
    gdbPutpacket answer (tr.nacks ++ plus :: rest) =
      some ((List.replicate (tr.nacks.length + 1) (gdbFrame answer)).flatten, rest) :=
  putpacketTries_nacks (gdbFrame answer) rest tr.refused tr.few

end Transmission

/-- A transmission, and what memory holds while its packet is handled. -/
abbrev Arrival := Leftovers × Transmission

namespace Arrival

def request (e : Arrival) : Leftovers × List UInt8 := (e.1, e.2.packet)

def input (e : Arrival) : List UInt8 := e.2.input

def output (e : Arrival) (answer : List UInt8) : List UInt8 := e.2.output answer

end Arrival

section
variable {σ : Type} (interface : TargetInterface σ)

/-- The server with other characters. -/
def GdbServer.onWire (s : GdbServer σ) (input output : List UInt8) : GdbServer σ :=
  { s with input := input, output := output }

/-- Whatever the characters are, the packet takes the server from `s` to `s'` and is answered. -/
def Serves (left : Leftovers) (packet : List UInt8) (s : GdbServer σ) (answer : List UInt8)
    (s' : GdbServer σ) : Prop :=
  ∀ input output, gdbSwitch interface left packet (packetBuffer left packet)
    (s.onWire input output) = ((s'.onWire input output).put answer)

/-- Packets served one after the other, with their answers. -/
inductive Served : List (Leftovers × List UInt8) → GdbServer σ → List (List UInt8) →
    GdbServer σ → Prop
  | nil (s : GdbServer σ) : Served [] s [] s
  | cons {left : Leftovers} {packet answer : List UInt8} {s s₁ s' : GdbServer σ}
      {packets : List (Leftovers × List UInt8)} {answers : List (List UInt8)} :
      Serves interface left packet s answer s₁ → Served packets s₁ answers s' →
      Served ((left, packet) :: packets) s (answer :: answers) s'

/-- The rounds of the loop, one for each element of `lefts`. -/
def gdbMainRounds (lefts : List Leftovers) (s : GdbServer σ) : Except Stop (GdbServer σ) :=
  lefts.foldlM (fun s left => gdbMainRound interface left s) s

variable {interface}

theorem Serves.round {left : Leftovers} {s s' : GdbServer σ} {answer : List UInt8}
    {tr : Transmission} (h : Serves interface left tr.packet s answer s')
    (output rest : List UInt8) :
    gdbMainRound interface left (s.onWire (tr.input ++ rest) output) =
      .ok (s'.onWire rest (output ++ tr.output answer)) := by
  have hget := tr.getpacket rest
  have hput := tr.putpacket answer rest
  unfold gdbMainRound
  simp only [GdbServer.onWire, hget]
  refine (h _ _).trans ?_
  unfold GdbServer.put GdbServer.onWire
  simp only [hput, Transmission.output, List.append_assoc, List.singleton_append]

theorem Served.append {ps qs : List (Leftovers × List UInt8)} {s s₁ s' : GdbServer σ}
    {as bs : List (List UInt8)} (h : Served interface ps s as s₁)
    (h' : Served interface qs s₁ bs s') : Served interface (ps ++ qs) s (as ++ bs) s' := by
  induction h with
  | nil => exact h'
  | cons hserves _ ih => exact .cons hserves (ih h')

/-- On every line the rounds give the answers of the packets. -/
theorem Served.rounds {s s' : GdbServer σ} {answers : List (List UInt8)} {es : List Arrival}
    (h : Served interface (es.map Arrival.request) s answers s') (output rest : List UInt8) :
    gdbMainRounds interface (es.map Prod.fst) (s.onWire (es.flatMap Arrival.input ++ rest) output) =
      .ok (s'.onWire rest (output ++ (List.zipWith Arrival.output es answers).flatten)) := by
  induction es generalizing s answers output with
  | nil =>
    cases h
    simp [gdbMainRounds, pure, Except.pure]
  | cons e es ih =>
    cases h with
    | cons hserves htail =>
      have hround := hserves.round output (es.flatMap Arrival.input ++ rest)
      rw [List.flatMap_cons, List.append_assoc, gdbMainRounds, List.map_cons, List.foldlM_cons,
        Arrival.input, bind_of_ok hround]
      refine (ih htail _).trans ?_
      rw [List.zipWith_cons_cons, List.flatten_cons, List.append_assoc]
      rfl

end

section
variable {σ : Type} {interface : TargetInterface σ} {left : Leftovers}

/-- A terminator follows every packet. -/
theorem packetBuffer_eq (left : Leftovers) (packet : List UInt8) :
    ∃ behind, packetBuffer left packet = packet ++ 0 :: behind := ⟨_, rfl⟩

theorem numberEnds_terminator (rest : List UInt8) : NumberEnds (0 :: rest) := by
  intro c hc
  obtain rfl : 0 = c := by simpa using hc
  decide

theorem scanPair_numerals {width a n : ℕ} {da dn rest : List UInt8} (ha : Numeral a da)
    (hn : Numeral n dn) (hla : a < 4294967296) (hln : n < 4294967296) (hends : NumberEnds rest)
    (hwidth : da.length + dn.length ≤ width) :
    scanPair width (da ++ 0x2C :: dn ++ rest) = (some a, some (n, rest)) := by
  have hcomma : NumberEnds (0x2C :: (dn ++ rest)) := by
    intro c hc
    obtain rfl : 0x2C = c := by simpa using hc
    decide
  unfold scanPair
  rw [List.append_assoc, List.cons_append, ha.scanHex hla hcomma (by omega)]
  simp only [expectChar, if_true, Option.bind_some,
    hn.scanHex hln hends (show dn.length ≤ width by omega)]

/-- A range of memory, as the packets `m` and `qCRC` ask for it. -/
def AsksRange (front : List UInt8) (a n : ℕ) (packet : List UInt8) : Prop :=
  ∃ da dn, Numeral a da ∧ Numeral n dn ∧ packet = front ++ (da ++ 0x2C :: dn)

theorem AsksRange.scanPair {front packet : List UInt8} {a n : ℕ} (h : AsksRange front a n packet)
    (hla : a < 4294967296) (hln : n < 4294967296) (hfits : packet.length ≤ bufSize) :
    ∃ range rest, packetBuffer left packet = front ++ range ∧
      scanPair pbufSize range = (some a, some (n, rest)) := by
  obtain ⟨da, dn, ha, hn, rfl⟩ := h
  obtain ⟨behind, hbuffer⟩ := packetBuffer_eq left (front ++ (da ++ 0x2C :: dn))
  rw [List.append_assoc] at hbuffer
  simp only [List.length_append, List.length_cons] at hfits
  have hwidth : da.length + dn.length ≤ pbufSize := by
    unfold bufSize at hfits
    unfold pbufSize
    omega
  exact ⟨_, _, hbuffer, scanPair_numerals ha hn hla hln (numberEnds_terminator behind) hwidth⟩

variable {s : GdbServer σ} {host : Host σ} {packet : List UInt8} {a n : ℕ}

/-- `m addr,len`. -/
theorem serves_m (hask : AsksRange (ascii "m") a n packet) (hla : a < 4294967296)
    (hln : n < 4294967296) (hfits : packet.length ≤ bufSize) (hcur : s.curTarget = true)
    {reply : GdbReply} (hread : gdbReadMemory interface a n s.target.host = .ok (reply, host)) :
    Serves interface left packet s (reply.text left.stack)
      { s with target := { s.target with host := host } } := by
  intro input output
  obtain ⟨range, rest, hbuffer, hscan⟩ := hask.scanPair hla hln hfits
  have hcall : (s.onWire input output).call (gdbReadMemory interface a n) =
      .ok (reply, ({ s with target := { s.target with host := host } } :
        GdbServer σ).onWire input output) := by
    unfold GdbServer.call GdbServer.onWire
    simp only [hread]
  have hswitch : gdbSwitch interface left packet (ascii "m" ++ range) (s.onWire input output) =
      (s.onWire input output).ifTarget (handleM interface left (ascii "m" ++ range)) := rfl
  have hdrop : (ascii "m" ++ range).drop 1 = range := rfl
  have htarget : (s.onWire input output).curTarget = true := hcur
  rw [hbuffer, hswitch, GdbServer.ifTarget, if_pos htarget, handleM, hdrop, hscan]
  exact bind_of_ok hcall

/-- `qCRC:addr,len`. -/
theorem serves_qCRC (hask : AsksRange (ascii "qCRC:") a n packet) (hla : a < 4294967296)
    (hln : n < 4294967296) (hfits : packet.length ≤ bufSize) (hcur : s.curTarget = true)
    {crc : UInt32} (hrun : genericCrc32 interface a n ((List.range 128).map left.stack)
      s.target.host = .ok (crc, host)) :
    Serves interface left packet s (0x43 :: printHex false crc.toNat)
      { s with target := { s.target with host := host } } := by
  intro input output
  obtain ⟨range, rest, hbuffer, hscan⟩ := hask.scanPair hla hln hfits
  have hcall : (s.onWire input output).call
      (genericCrc32 interface a n ((List.range 128).map left.stack)) =
      .ok (crc, ({ s with target := { s.target with host := host } } :
        GdbServer σ).onWire input output) := by
    unfold GdbServer.call GdbServer.onWire
    simp only [hrun]
  have hswitch : gdbSwitch interface left packet (ascii "qCRC:" ++ range)
      (s.onWire input output) =
        handleQ interface left (ascii "qCRC:" ++ range) (s.onWire input output) := rfl
  have hcommand : afterText (ascii "qRcmd,") (ascii "qCRC:" ++ range) = none :=
    afterText_eq_none (by decide) range
  have hsupported : afterText (ascii "qSupported") (ascii "qCRC:" ++ range) = none :=
    afterText_eq_none (by decide) range
  have hmap : afterText (ascii "qXfer:memory-map:read::") (ascii "qCRC:" ++ range) = none :=
    afterText_eq_none (by decide) range
  have hfeatures : afterText (ascii "qXfer:features:read:target.xml:")
      (ascii "qCRC:" ++ range) = none := afterText_eq_none (by decide) range
  have htarget : (!(s.onWire input output).curTarget) = false := by
    show (!s.curTarget) = false
    rw [hcur]
    rfl
  rw [hbuffer, hswitch, handleQ]
  simp only [hcommand, hsupported, hmap, hfeatures, afterText_append, hscan, Option.map_some,
    Option.isSome_none, Bool.false_eq_true, if_false]
  rw [handleCrc, if_neg (by rw [htarget]; exact Bool.false_ne_true)]
  exact bind_of_ok hcall

end

section
variable {σ : Type} {interface : TargetInterface σ} {left : Leftovers} {s : GdbServer σ}
  {packet : List UInt8} {target : Target σ}

/-- A write request, with up to eight digits for its address. -/
def AsksWrite (r : ℕ × List UInt8) (packet : List UInt8) : Prop :=
  ∃ digits, Numeral r.1 digits ∧ digits.length ≤ 8 ∧
    packet = ascii "vFlashWrite:" ++ (digits ++ 0x3A :: r.2)

/-- `vFlashWrite:addr:XX`. -/
theorem serves_vFlashWrite {r : ℕ × List UInt8} (hask : AsksWrite r packet)
    (hlt : r.1 < 4294967296) (hcur : s.curTarget = true)
    (hwrite : targetFlashWrite interface s.target r.1 r.2 = .ok (0, target)) :
    Serves interface left packet s (ascii "OK") { s with target := target } := by
  intro input output
  obtain ⟨digits, haddr, height, rfl⟩ := hask
  obtain ⟨behind, hbuffer⟩ :=
    packetBuffer_eq left (ascii "vFlashWrite:" ++ (digits ++ 0x3A :: r.2))
  obtain ⟨tail, htail⟩ : ∃ tail, tail = digits ++ 0x3A :: (r.2 ++ 0 :: behind) := ⟨_, rfl⟩
  have hbuffer : packetBuffer left (ascii "vFlashWrite:" ++ (digits ++ 0x3A :: r.2)) =
      ascii "vFlashWrite:" ++ tail := by
    rw [hbuffer, htail]
    simp only [List.append_assoc, List.cons_append]
  have hcolon : NumberEnds (0x3A :: (r.2 ++ 0 :: behind)) := by
    intro c hc
    obtain rfl : 0x3A = c := by simpa using hc
    decide
  have hscan : scanHex 8 tail = some (r.1, 0x3A :: (r.2 ++ 0 :: behind)) := by
    rw [htail]
    exact haddr.scanHex hlt hcolon height
  -- the data begin behind the colon
  have hindex : indexBehind 0x3A (ascii "vFlashWrite:" ++ tail)
      (some (0x3A :: (r.2 ++ 0 :: behind))) = some (12 + digits.length + 1) := by
    have htext : (ascii "vFlashWrite:").length = 12 := by decide
    unfold indexBehind
    rw [htail]
    simp only [Option.bind_some, expectChar, if_true, Option.map_some, List.length_append,
      List.length_cons, htext, Option.some.injEq]
    omega
  have hdata : (ascii "vFlashWrite:" ++ (digits ++ 0x3A :: r.2)).drop (12 + digits.length + 1) =
      r.2 := by
    have hfront : (ascii "vFlashWrite:" ++ digits ++ [0x3A]).length = 12 + digits.length + 1 := by
      have htext : (ascii "vFlashWrite:").length = 12 := by decide
      simp only [List.length_append, List.length_singleton, htext]
    rw [← hfront, show ascii "vFlashWrite:" ++ (digits ++ 0x3A :: r.2) =
      ascii "vFlashWrite:" ++ digits ++ [0x3A] ++ r.2 by simp, List.drop_left]
  have hinside : ¬ 12 + digits.length + 1 >
      (ascii "vFlashWrite:" ++ (digits ++ 0x3A :: r.2)).length := by
    have htext : (ascii "vFlashWrite:").length = 12 := by decide
    simp only [List.length_append, List.length_cons, htext]
    omega
  have hswitch : gdbSwitch interface left (ascii "vFlashWrite:" ++ (digits ++ 0x3A :: r.2))
      (ascii "vFlashWrite:" ++ tail) (s.onWire input output) =
        handleV interface left (ascii "vFlashWrite:" ++ (digits ++ 0x3A :: r.2))
          (ascii "vFlashWrite:" ++ tail) (s.onWire input output) := rfl
  have hattach : afterText (ascii "vAttach;") (ascii "vFlashWrite:" ++ tail) = none :=
    afterText_eq_none (by decide) tail
  have hrun : afterText (ascii "vRun") (ascii "vFlashWrite:" ++ tail) = none :=
    afterText_eq_none (by decide) tail
  have herase : afterText (ascii "vFlashErase:") (ascii "vFlashWrite:" ++ tail) = none :=
    afterText_eq_none (by decide) tail
  have hcall : (s.onWire input output).callFlash (gdbFlashWrite interface r.1 r.2) =
      .ok (.ok, ({ s with target := target } : GdbServer σ).onWire input output) := by
    have hreply : gdbFlashWrite interface r.1 r.2 s.target = .ok (.ok, target) := by
      unfold gdbFlashWrite
      rw [bind_of_ok hwrite]
      rfl
    unfold GdbServer.callFlash GdbServer.onWire
    simp only [hreply]
  have htarget : (!(s.onWire input output).curTarget) = false := by
    show (!s.curTarget) = false
    rw [hcur]
    rfl
  rw [hbuffer, hswitch, handleV]
  simp only [hattach, hrun, herase, afterText_append, hscan, hindex, hdata, hinside,
    Option.bind_none, Option.map_none, Option.bind_some, Option.getD_some, if_false]
  rw [handleFlashWrite, if_neg (by rw [htarget]; exact Bool.false_ne_true)]
  exact bind_of_ok hcall

theorem GdbServer.put_flashMode (s : GdbServer σ) (mode : Bool) (answer : List UInt8) :
    (do
      let s ← s.put answer
      return { s with flashMode := mode }) =
      ({ s with flashMode := mode } : GdbServer σ).put answer := by
  unfold GdbServer.put
  simp only
  cases gdbPutpacket answer s.input with
  | none => rfl
  | some r => rfl

/-- `vFlashDone`. -/
theorem serves_vFlashDone (hcur : s.curTarget = true)
    (hdone : gdbFlashDone interface left.lengthFirst s.target = .ok (.ok, target)) :
    Serves interface left (ascii "vFlashDone") s (ascii "OK")
      { s with target := target, flashMode := false } := by
  intro input output
  obtain ⟨behind, hbuffer⟩ := packetBuffer_eq left (ascii "vFlashDone")
  have hswitch : gdbSwitch interface left (ascii "vFlashDone")
      (ascii "vFlashDone" ++ 0 :: behind) (s.onWire input output) =
        handleV interface left (ascii "vFlashDone") (ascii "vFlashDone" ++ 0 :: behind)
          (s.onWire input output) := rfl
  have hattach : afterText (ascii "vAttach;") (ascii "vFlashDone" ++ 0 :: behind) = none :=
    afterText_eq_none (by decide) _
  have hrun : afterText (ascii "vRun") (ascii "vFlashDone" ++ 0 :: behind) = none :=
    afterText_eq_none (by decide) _
  have herase : afterText (ascii "vFlashErase:") (ascii "vFlashDone" ++ 0 :: behind) = none :=
    afterText_eq_none (by decide) _
  have hwrite : afterText (ascii "vFlashWrite:") (ascii "vFlashDone" ++ 0 :: behind) = none :=
    afterText_eq_none (by decide) _
  have htext : cString (ascii "vFlashDone" ++ 0 :: behind) = ascii "vFlashDone" := by
    have hall : ∀ c ∈ ascii "vFlashDone", decide (c ≠ 0) = true := by decide +kernel
    unfold cString
    rw [List.takeWhile_append_of_pos hall, List.takeWhile_cons_of_neg (by decide), List.append_nil]
  have hcall : (s.onWire input output).callFlash (gdbFlashDone interface left.lengthFirst) =
      .ok (.ok, ({ s with target := target } : GdbServer σ).onWire input output) := by
    unfold GdbServer.callFlash GdbServer.onWire
    simp only [hdone]
  have htarget : (!(s.onWire input output).curTarget) = false := by
    show (!s.curTarget) = false
    rw [hcur]
    rfl
  rw [hbuffer, hswitch, handleV]
  simp only [hattach, hrun, herase, hwrite, htext, Option.bind_none, Option.map_none, if_true]
  rw [handleFlashDone, if_neg (by rw [htarget]; exact Bool.false_ne_true), bind_of_ok hcall]
  exact GdbServer.put_flashMode _ false _

end

/-- What GDB asks about memory. -/
inductive MemoryQuery
  | read (a n : ℕ)
  | crc (a n : ℕ)
  deriving DecidableEq, Repr

namespace MemoryQuery

def Asks : MemoryQuery → List UInt8 → Prop
  | read a n, packet => AsksRange (ascii "m") a n packet
  | crc a n, packet => AsksRange (ascii "qCRC:") a n packet

/-- The range ends inside the address space. -/
def Fits : MemoryQuery → Prop
  | read a n => a + n < 4294967296
  | crc a n => a + n < 4294967296

/-- The answer of a target with the memory `mem`. -/
def answer (mem : ℕ → UInt8) : MemoryQuery → List UInt8
  | read a n => if 512 < n then ascii "E02" else hexify (readAnswer mem a n)
  | crc a n =>
    0x43 :: printHex false ((checkedBytes mem a n).foldl crc32Calc 0xFFFFFFFF).toNat

end MemoryQuery

section
variable {s : GdbServer Link} {d : Device}

theorem gdbReadMemory_answers {h : Host Link} (hdev : h.link.device = some d)
    (hfree : d.inEndpoint = none) {a n : ℕ} (hwrap : a + n < 4294967296)
    (stack : ℕ → UInt8) :
    ∃ reply h' d', gdbReadMemory firmwareLink a n h = .ok (reply, h') ∧
      reply.text stack = (MemoryQuery.read a n).answer d.mem ∧
      h'.link.device = some d' ∧ d'.inEndpoint = none ∧ d'.mem = d.mem := by
  obtain ⟨h', d', hread, hdev', hfree', hmem⟩ := stm32MemRead_answers hdev hfree hwrap
  have hanswer : (MemoryQuery.read a n).answer d.mem =
      if 512 < n then ascii "E02" else hexify (readAnswer d.mem a n) := rfl
  rw [hanswer]
  by_cases hlong : 512 < n
  · rw [if_pos hlong]
    exact ⟨.e02, h, d, if_pos hlong, rfl, hdev, hfree, rfl⟩
  · have htarget : targetMemRead firmwareLink a n h =
        .ok (stm32CheckError, readAnswer d.mem a n, h') := bind_of_ok hread
    have hlen : (readAnswer d.mem a n).length = n := readAnswer_length _ _ _
    have hbuf : hostBuffer n (readAnswer d.mem a n) = .ok ((readAnswer d.mem a n).map some) := by
      rw [hostBuffer, if_pos hlen.le, hlen, Nat.sub_self, List.replicate_zero, List.append_nil]
    refine ⟨.data ((readAnswer d.mem a n).map some), h', d', ?_, ?_, hdev', hfree', hmem⟩
    · refine (if_neg hlong).trans ?_
      rw [bind_of_ok htarget]
      exact bind_of_ok hbuf
    · rw [if_neg hlong, GdbReply.text]
      congr 1
      apply List.ext_getElem?
      intro i
      simp only [List.getElem?_mapIdx, List.getElem?_map, Option.map_map]
      cases (readAnswer d.mem a n)[i]? <;> rfl

/-- Queries are answered from memory and leave it as it is. -/
theorem served_queries {queries : List MemoryQuery} (hfits : ∀ q ∈ queries, q.Fits)
    {es : List Arrival}
    (hasks : List.Forall₂ MemoryQuery.Asks queries (es.map fun e => e.2.packet))
    (hcur : s.curTarget = true) (hdev : s.target.host.link.device = some d)
    (hfree : d.inEndpoint = none) :
    ∃ s' d', Served firmwareLink (es.map Arrival.request) s
        (queries.map fun q => q.answer d.mem) s' ∧
      s'.target.host.link.device = some d' ∧ d'.mem = d.mem := by
  induction queries generalizing es s d with
  | nil =>
    obtain rfl : es = [] := List.map_eq_nil_iff.mp (List.forall₂_nil_left_iff.mp hasks)
    exact ⟨s, d, .nil s, hdev, rfl⟩
  | cons q queries ih =>
    obtain ⟨packet, packets, hask, htail, hes⟩ := List.forall₂_cons_left_iff.mp hasks
    obtain ⟨e, es, rfl, rfl, rfl⟩ := List.map_eq_cons_iff.mp hes
    have hrange : q.Fits := hfits q List.mem_cons_self
    have hone : ∃ h' d', Serves firmwareLink e.1 e.2.packet s (q.answer d.mem)
        { s with target := { s.target with host := h' } } ∧
        h'.link.device = some d' ∧ d'.inEndpoint = none ∧ d'.mem = d.mem := by
      cases q with
      | read a n =>
        have hwrap : a + n < 4294967296 := hrange
        obtain ⟨reply, h', d', hread, htext, hdev', hfree', hmem⟩ :=
          gdbReadMemory_answers hdev hfree hwrap e.1.stack
        have hserves : Serves firmwareLink e.1 e.2.packet s (reply.text e.1.stack) _ :=
          serves_m hask (by omega) (by omega) e.2.fits hcur hread
        rw [htext] at hserves
        exact ⟨h', d', hserves, hdev', hfree', hmem⟩
      | crc a n =>
        have hwrap : a + n < 4294967296 := hrange
        have hbytes : ((List.range 128).map e.1.stack).length = 128 := by simp
        obtain ⟨h', d', hrun, hdev', hfree', hmem⟩ :=
          genericCrc32_answers hdev hfree hwrap hbytes
        exact ⟨h', d', serves_qCRC hask (by omega) (by omega) e.2.fits hcur hrun,
          hdev', hfree', hmem⟩
    obtain ⟨h', d', hserves, hdev', hfree', hmem⟩ := hone
    obtain ⟨s'', d'', hserved, hdev'', hmem'⟩ :=
      ih (s := { s with target := { s.target with host := h' } })
        (fun q' hq' => hfits q' (List.mem_cons_of_mem q hq')) htail hcur hdev' hfree'
    rw [hmem] at hserved hmem'
    exact ⟨s'', d'', .cons hserves hserved, hdev'', hmem'⟩

/-- Write requests go into the sector buffer and flash. -/
theorem served_writes {mem img : ℕ → UInt8} {log : List FlashEvent} {p : ℕ} {f : TargetFlash}
    {h : Host Link} {requests : List (ℕ × List UInt8)} (hd : Downloading mem img log p f h)
    (hlower : 0x08004000 ≤ p) (hascending : Ascending p requests 0x08020000)
    (hblank : ∀ r ∈ requests, SectorsBlank mem r.1 r.2.length) {es : List Arrival}
    (hasks : List.Forall₂ AsksWrite requests (es.map fun e => e.2.packet))
    (hcur : s.curTarget = true) (htarget : s.target = ⟨[f], h⟩) :
    ∃ s' f' h' p', Served firmwareLink (es.map Arrival.request) s
        (List.replicate requests.length (ascii "OK")) s' ∧
      s'.curTarget = true ∧ s'.target = ⟨[f'], h'⟩ ∧
      Downloading mem (layAll img requests) log p' f' h' := by
  induction requests generalizing img p f h es s with
  | nil =>
    obtain rfl : es = [] := List.map_eq_nil_iff.mp (List.forall₂_nil_left_iff.mp hasks)
    exact ⟨s, f, h, p, .nil s, hcur, htarget, hd⟩
  | cons r rest ih =>
    obtain ⟨packet, packets, hask, htail, hes⟩ := List.forall₂_cons_left_iff.mp hasks
    obtain ⟨e, es, rfl, rfl, rfl⟩ := List.map_eq_cons_iff.mp hes
    obtain ⟨hle, hrest⟩ := hascending
    have hupper := hrest.le
    obtain ⟨f₁, h₁, hwrite, hd₁⟩ := targetFlashWrite_ok hd hle (by omega) hupper
      (hblank r List.mem_cons_self)
    rw [← htarget] at hwrite
    obtain ⟨s', f', h', p', hserved, hcur', htarget', hd'⟩ :=
      ih (s := { s with target := ⟨[f₁], h₁⟩ }) hd₁ (by omega) hrest
        (fun r' hr' => hblank r' (List.mem_cons_of_mem _ hr')) htail hcur rfl
    exact ⟨s', f', h', p', .cons (serves_vFlashWrite hask (by omega) hcur hwrite) hserved, hcur',
      htarget', hd'⟩

/-- `vFlashDone` ends the download twice and completes the image. -/
theorem gdbFlashDone_ok {mem img : ℕ → UInt8} {log : List FlashEvent} {p : ℕ} {f : TargetFlash}
    {h : Host Link} (hd : Downloading mem img log p f h) (lengthFirst : Bool) :
    ∃ f' h', gdbFlashDone firmwareLink lengthFirst ⟨[f], h⟩ = .ok (.ok, ⟨[f'], h'⟩) ∧
      f'.Unbuffered ∧ h'.link.Holds img log 0x08020000 := by
  obtain ⟨f₁, h₁, hfirst, hunbuffered, hholds⟩ := targetFlashDone_ok hd
  obtain ⟨h₂, hsecond, hholds₂⟩ := targetFlashDone_of_buffered
    (hunbuffered.doneBuffered firmwareLink h₁) hholds
  refine ⟨f₁, h₂, ?_, hunbuffered, hholds₂⟩
  unfold gdbFlashDone
  rw [bind_of_ok hfirst]
  simp only
  rw [bind_of_ok hsecond]
  cases lengthFirst <;> rfl

/-- A program is loaded and looked at over a line that garbles packets: every request is answered
once, flash holds the program where it was sent and its old bytes elsewhere, and reads and checksums
are those of this memory. -/
theorem wire_load (s : GdbServer Link) (d : Device) (hcur : s.curTarget = true)
    (hdev : s.target.host.link.device = some d) (hfree : d.inEndpoint = none) (f : TargetFlash)
    (hflash : s.target.flash = [f]) (hregion : f.IsStm32f1) (hunbuffered : f.Unbuffered)
    (requests : List (ℕ × List UInt8)) (hascending : Ascending 0x08004000 requests 0x08020000)
    (hblank : ∀ y, TouchesSector requests y → d.mem y = 0xFF) (queries : List MemoryQuery)
    (hfits : ∀ q ∈ queries, q.Fits) (writes : List Arrival) (done : Arrival)
    (asked : List Arrival)
    (hwrites : List.Forall₂ AsksWrite requests (writes.map fun e => e.2.packet))
    (hdone : done.2.packet = ascii "vFlashDone")
    (hasked : List.Forall₂ MemoryQuery.Asks queries (asked.map fun e => e.2.packet))
    (rest : List UInt8)
    (hinput : s.input = (writes ++ done :: asked).flatMap Arrival.input ++ rest) :
    ∃ s' d', gdbMainRounds firmwareLink ((writes ++ done :: asked).map Prod.fst) s = .ok s' ∧
      s'.input = rest ∧
      s'.output = s.output ++ (List.zipWith Arrival.output (writes ++ done :: asked)
        (List.replicate (requests.length + 1) (ascii "OK") ++
          queries.map fun q => q.answer d'.mem)).flatten ∧
      s'.target.host.link.device = some d' ∧
      ∀ x, d'.mem x = (imageOf requests x).getD (d.mem x) := by
  have hstart : Downloading d.mem d.mem d.flashLog 0x08004000 f s.target.host := by
    constructor
    · exact hregion
    · exact fun x _ => rfl
    · exact Or.inl ⟨hunbuffered, rfl, d, _, _, [], Link.at_of_device hdev hfree, rfl,
        (List.append_nil _).symm, ProgramsOnce.nil _ _⟩
  have hsectors : ∀ r ∈ requests, SectorsBlank d.mem r.1 r.2.length := by
    intro r hr x y hlo hhi hpage
    exact hblank y ⟨x, imageOf_isSome hr hlo hhi, hpage⟩
  have htarget : s.target = ⟨[f], s.target.host⟩ := by rw [← hflash]
  obtain ⟨s₁, f₁, h₁, p₁, hserved₁, hcur₁, htarget₁, hd₁⟩ :=
    served_writes hstart le_rfl hascending hsectors hwrites hcur htarget
  obtain ⟨f₂, h₂, hflashDone, -, d₂, S, R, log, hat, hmem, -⟩ := gdbFlashDone_ok hd₁ done.1.lengthFirst
  obtain ⟨d₂', hdev₂, hfree₂, hsame⟩ := hat.device
  have hmem₂ : d₂'.mem = layAll d.mem requests := (mem_of_target hsame).trans hmem
  rw [← htarget₁] at hflashDone
  have hserves : Serves firmwareLink done.1 (ascii "vFlashDone") s₁ (ascii "OK") _ :=
    serves_vFlashDone hcur₁ hflashDone
  rw [← hdone] at hserves
  obtain ⟨s₃, d₃, hserved₃, hdev₃, hmem₃⟩ := served_queries
    (s := { s₁ with target := ⟨[f₂], h₂⟩, flashMode := false }) hfits hasked hcur₁ hdev₂ hfree₂
  have hserved : Served firmwareLink ((writes ++ done :: asked).map Arrival.request) s
      (List.replicate (requests.length + 1) (ascii "OK") ++ queries.map fun q => q.answer d₃.mem)
      s₃ := by
    rw [← hmem₃] at hserved₃
    have hall := hserved₁.append (.cons hserves hserved₃)
    rw [List.map_append, List.map_cons, List.replicate_add, List.append_assoc]
    exact hall
  have hrounds := hserved.rounds s.output rest
  rw [← hinput] at hrounds
  refine ⟨_, d₃, hrounds, rfl, rfl, hdev₃, ?_⟩
  intro x
  rw [hmem₃, hmem₂, layAll_eq hascending]

end

/-- A write request that only arrives at the second attempt; so does its answer. -/
def garbledWrite : Transmission where
  packet := ascii "vFlashWrite:8004000:B"
  noise := [0xFF]
  aborted := [ascii "vFl"]
  garbled := [ascii "vFlashWrite:8004000:A"]
  nacks := [minus]
  fits := by decide
  noise_waits := by decide +kernel
  aborted_short := by
    intro e he
    obtain rfl := List.mem_singleton.mp he
    have hplain : ∀ c ∈ ascii "vFl", ¬ needsEscape c := by decide +kernel
    exact ⟨ascii "vFl", gdbEscapes_plain hplain, by decide⟩
  garbles := by
    intro text htext
    obtain rfl := List.mem_singleton.mp htext
    have hplain : ∀ c ∈ ascii "vFlashWrite:8004000:A", ¬ needsEscape c := by decide +kernel
    exact ⟨by decide, ascii "vFlashWrite:8004000:A", gdbEscapes_plain hplain, by decide⟩
  refused := by decide +kernel
  few := by decide

def loadArrivals : List Arrival :=
  [(.zero, garbledWrite), (.zero, .plain (ascii "vFlashDone") (by decide)),
    (.zero, .plain (ascii "m8004000,1") (by decide)),
    (.zero, .plain (ascii "qCRC:8004000,1") (by decide))]

def loadServer : GdbServer Link :=
  { input := loadArrivals.flatMap Arrival.input, output := [], curTarget := true,
    lastTarget := false, controller := true, singleStep := false, flashMode := true,
    bwList := [], cmdline := [], target := ⟨[stm32f1Flash], Host.fresh blankMemory⟩ }

theorem wire_load_byte :
    ∃ s' d', gdbMainRounds firmwareLink (loadArrivals.map Prod.fst) loadServer = .ok s' ∧
      s'.input = [] ∧
      s'.output = [] ++ (List.zipWith Arrival.output loadArrivals
        (List.replicate 2 (ascii "OK") ++ [MemoryQuery.read 0x08004000 1,
          MemoryQuery.crc 0x08004000 1].map fun q => q.answer d'.mem)).flatten ∧
      s'.target.host.link.device = some d' ∧
      ∀ x, d'.mem x = (imageOf [(0x08004000, [0x42])] x).getD (blankMemory x) := by
  have hnumeral : Numeral 0x08004000 (ascii "8004000") :=
    ⟨by decide, by decide +kernel, by decide⟩
  have hone : Numeral 1 (ascii "1") := ⟨by decide, by decide +kernel, by decide⟩
  have hranges : ∀ q ∈ [MemoryQuery.read 0x08004000 1, MemoryQuery.crc 0x08004000 1], q.Fits := by
    intro q hq
    rcases List.mem_pair.mp hq with rfl | rfl
    · exact show 0x08004000 + 1 < 4294967296 by decide
    · exact show 0x08004000 + 1 < 4294967296 by decide
  exact wire_load loadServer (.initial blankMemory bootSymbols) rfl rfl rfl stm32f1Flash rfl
    ⟨rfl, rfl, rfl, rfl⟩ (Or.inl rfl) [(0x08004000, [0x42])]
    (show _ ∧ _ ≤ _ from ⟨by decide, by decide⟩) (fun _ _ => rfl)
    [.read 0x08004000 1, .crc 0x08004000 1] hranges [(.zero, garbledWrite)]
    (.zero, .plain (ascii "vFlashDone") (by decide))
    [(.zero, .plain (ascii "m8004000,1") (by decide)),
      (.zero, .plain (ascii "qCRC:8004000,1") (by decide))]
    (.cons ⟨ascii "8004000", hnumeral, by decide, by decide⟩ .nil) rfl
    (.cons ⟨ascii "8004000", ascii "1", hnumeral, hone, by decide⟩
      (.cons ⟨ascii "8004000", ascii "1", hnumeral, hone, by decide⟩ .nil))
    [] (List.append_nil _).symm

end BluePill
