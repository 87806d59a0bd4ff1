import BluePill.Lib.Escapes
import BluePill.Host.Scan

/-! `gdb_packet.c`: the packets of GDB's serial protocol, received and sent a character at a time.
The characters are those that the calls of `gdb_if_getchar` and `gdb_if_getchar_to` return, in
their order; a call that finds none waits. -/
namespace BluePill
open Lib

namespace Ascii

abbrev dollar : UInt8 := 0x24
abbrev hash : UInt8 := 0x23
abbrev brace : UInt8 := 0x7D
abbrev plus : UInt8 := 0x2B
abbrev minus : UInt8 := 0x2D
abbrev eot : UInt8 := 0x04

end Ascii

open Ascii

/-- Where `gdb_getpacket` waits for a character: with what it has stored, `packet[0 .. i)`, and
the checksum so far. -/
inductive Receiver
  | start
  | capture (packet : List UInt8) (csum : UInt8)
  /-- Behind an escape character. -/
  | escaped (packet : List UInt8) (csum : UInt8)
  | checksum (packet : List UInt8) (csum : UInt8)
  | checksum₂ (packet : List UInt8) (csum recv : UInt8)
  deriving DecidableEq, Repr

/-- What a character leads to. -/
inductive Received
  | waiting (r : Receiver)
  | nack
  | packet (p : List UInt8)
  | eot
  deriving DecidableEq, Repr

namespace Receiver

/-- A full buffer ends the capture before the character is looked at. The start character of the
remote protocol, `!`, is waited over like any other. -/
def receive (size : ℕ) : Receiver → UInt8 → Received
  | start, c =>
    if c = Ascii.eot then .eot
    else if c = dollar then .waiting (.capture [] 0)
    else .waiting .start
  | capture packet csum, c =>
    if c = hash then .waiting (.checksum packet csum)
    else if packet.length = size then .waiting (.checksum packet csum)
    else if c = dollar then .waiting (.capture [] 0)
    else if c = brace then .waiting (.escaped packet csum)
    else .waiting (.capture (packet ++ [c]) (csum + c))
  | escaped packet csum, c =>
    .waiting (.capture (packet ++ [c ^^^ 0x20]) (csum + (c + brace)))
  | checksum packet csum, c => .waiting (.checksum₂ packet csum c)
  | checksum₂ packet csum recv, c =>
    if (csum.toNat : ℤ) = strtolHex [recv, c] then .packet packet else .nack

/-- The packet returned, the characters sent and those left, when enough come. The end of a
transmission is returned as a packet of one character. -/
def run (size : ℕ) : Receiver → List UInt8 → Option (List UInt8 × List UInt8 × List UInt8)
  | _, [] => none
  | r, c :: input =>
    match r.receive size c with
    | .waiting r' => run size r' input
    | .nack => (run size .start input).map fun (p, sent, rest) => (p, minus :: sent, rest)
    | .packet p => some (p, [plus], input)
    | .eot => some ([Ascii.eot], [], input)

end Receiver

/-- `gdb_getpacket`. -/
def gdbGetpacket (size : ℕ) (input : List UInt8) :
    Option (List UInt8 × List UInt8 × List UInt8) := Receiver.run size .start input

/-- The characters that cannot be sent as they are. -/
def needsEscape (c : UInt8) : Prop := c = dollar ∨ c = hash ∨ c = brace

instance : DecidablePred needsEscape := fun c => by unfold needsEscape; infer_instance

def escapePacket (packet : List UInt8) : List UInt8 :=
  escape needsEscape brace (· ^^^ 0x20) packet

def gdbFrame (packet : List UInt8) : List UInt8 :=
  dollar :: escapePacket packet ++ hash :: printHexPadded true 2 (escapePacket packet).sum.toNat

/-- The frame goes out again while it is not acknowledged, `left` times at most: the characters
sent and those left. -/
def putpacketTries (frame : List UInt8) : ℕ → List UInt8 → Option (List UInt8 × List UInt8)
  | _, [] => none
  | left, reply :: input =>
    if reply = plus then some (frame, input)
    else match left with
      | 0 => some (frame, input)
      | left + 1 => (putpacketTries frame left input).map fun (sent, rest) => (frame ++ sent, rest)

/-- `gdb_putpacket`. A reply that does not come in time counts as the character `0xFF`. -/
def gdbPutpacket (packet input : List UInt8) : Option (List UInt8 × List UInt8) :=
  putpacketTries (gdbFrame packet) 3 input

abbrev GdbEscapes : List UInt8 → List UInt8 → Prop := Escapes needsEscape brace (· ^^^ 0x20)

theorem xor_mask_mask (c : UInt8) : c ^^^ 0x20 ^^^ 0x20 = c := by
  rw [UInt8.xor_assoc, UInt8.xor_self, UInt8.xor_zero]

theorem gdbEscapes_plain {p : List UInt8} (h : ∀ c ∈ p, ¬ needsEscape c) : GdbEscapes p p := by
  induction p with
  | nil => exact .nil
  | cons c p ih =>
    exact .plain (h c List.mem_cons_self) (ih fun d hd => h d (List.mem_cons_of_mem c hd))

theorem escapePacket_escapes (packet : List UInt8) : GdbEscapes (escapePacket packet) packet :=
  escapes_escape xor_mask_mask packet

namespace Receiver

/-- A start character counts here. -/
def Ready (size : ℕ) (r : Receiver) : Prop :=
  r = .start ∨ ∃ q csum, r = .capture q csum ∧ q.length < size

variable {size : ℕ} {p q e input : List UInt8} {csum : UInt8}

theorem run_waiting {r r' : Receiver} {c : UInt8} (h : r.receive size c = .waiting r') :
    run size r (c :: input) = run size r' input := by
  rw [run, h]

/-- Characters that start nothing are waited over. -/
theorem run_noise {noise : List UInt8} (h : ∀ c ∈ noise, c ≠ dollar ∧ c ≠ Ascii.eot) :
    run size .start (noise ++ input) = run size .start input := by
  induction noise with
  | nil => rfl
  | cons c noise ih =>
    obtain ⟨hdollar, heot⟩ := h c List.mem_cons_self
    have hwait : Receiver.start.receive size c = .waiting .start := by
      simp [receive, hdollar, heot]
    rw [List.cons_append, run_waiting hwait]
    exact ih fun d hd => h d (List.mem_cons_of_mem c hd)

theorem receive_plain {c : UInt8} (hroom : q.length < size) (hc : ¬ needsEscape c) :
    (capture q csum).receive size c = .waiting (.capture (q ++ [c]) (csum + c)) := by
  unfold needsEscape at hc
  simp only [not_or] at hc
  simp [receive, hc.1, hc.2.1, hc.2.2, hroom.ne]

theorem receive_brace (hroom : q.length < size) :
    (capture q csum).receive size brace = .waiting (.escaped q csum) := by
  have hhash : brace ≠ hash := by decide
  have hdollar : brace ≠ dollar := by decide
  simp only [receive, hhash, hdollar, hroom.ne, if_false, if_true]

theorem run_body (he : GdbEscapes e p) (hroom : q.length + p.length ≤ size) :
    run size (.capture q csum) (e ++ input) =
      run size (.capture (q ++ p) (csum + e.sum)) input := by
  induction he generalizing q csum with
  | nil => simp
  | @plain c e p hc _ ih =>
    rw [List.length_cons] at hroom
    rw [List.cons_append, run_waiting (receive_plain (by omega) hc),
      ih (by rw [List.length_append, List.length_singleton]; omega), List.append_assoc,
      List.sum_cons, UInt8.add_assoc]
    rfl
  | @masked c e p _ ih =>
    rw [List.length_cons] at hroom
    have hsum : csum + (c + brace) + e.sum = csum + (brace :: c :: e).sum := by
      rw [List.sum_cons, List.sum_cons]
      ac_rfl
    rw [List.cons_append, run_waiting (receive_brace (by omega)), List.cons_append,
      run_waiting rfl, ih (by rw [List.length_append, List.length_singleton]; omega),
      List.append_assoc, hsum]
    rfl

/-- The two characters of a checksum decide between the packet and a further attempt. -/
theorem run_trailer (p : List UInt8) (csum c₁ c₂ : UInt8) (input : List UInt8) :
    run size (.capture p csum) (hash :: c₁ :: c₂ :: input) =
      if (csum.toNat : ℤ) = strtolHex [c₁, c₂] then some (p, [plus], input)
      else (run size .start input).map fun (p, sent, rest) => (p, minus :: sent, rest) := by
  have hhash : (capture p csum).receive size hash = .waiting (.checksum p csum) := by
    simp [receive]
  rw [run_waiting hhash, run_waiting rfl, run]
  simp only [receive]
  split_ifs <;> rfl

/-- A start character begins a packet, also in the middle of another that has room left. -/
theorem run_dollar {r : Receiver} (hr : r.Ready size) :
    run size r (dollar :: input) = run size (.capture [] 0) input := by
  rcases hr with rfl | ⟨q, csum, rfl, hroom⟩
  · have heot : dollar ≠ Ascii.eot := by decide
    apply run_waiting
    simp only [receive, heot, if_false, if_true]
  · have hhash : dollar ≠ hash := by decide
    apply run_waiting
    simp only [receive, hhash, hroom.ne, if_false, if_true]

/-- A whole frame whose text stands for `p`. -/
theorem run_text {r : Receiver} (hr : r.Ready size) (he : GdbEscapes e p)
    (hroom : p.length ≤ size) (c₁ c₂ : UInt8) :
    run size r (dollar :: e ++ hash :: c₁ :: c₂ :: input) =
      if (e.sum.toNat : ℤ) = strtolHex [c₁, c₂] then some (p, [plus], input)
      else (run size .start input).map fun (p, sent, rest) => (p, minus :: sent, rest) := by
  rw [List.cons_append, run_dollar hr, run_body he (by simpa using hroom), List.nil_append,
    UInt8.zero_add, run_trailer]

end Receiver

theorem strtolHex_pair {digits : List UInt8} (hlen : digits.length = 2)
    (hdigits : ∀ c ∈ digits, isHexDigit c = true) : strtolHex digits = hexNumber 0 digits := by
  have hne : digits ≠ [] := by
    rintro rfl
    contradiction
  have hspace := dropWhile_isSpace_digits hne hdigits []
  have hends : NumberEnds [] := by
    intro c hc
    contradiction
  have hscan := scanDigits_digits hne hdigits hends
  rw [List.append_nil] at hspace hscan
  unfold strtolHex
  rw [hspace, hscan]
  rfl

theorem strtolHex_frame (csum : UInt8) :
    strtolHex (printHexPadded true 2 csum.toNat) = csum.toNat := by
  obtain ⟨hdigits, hnumber⟩ := printHexPadded_digits true 2 csum.toNat
  have hlen : (printHexPadded true 2 csum.toNat).length = 2 :=
    printHexPadded_length true (by norm_num) csum.toNat_lt
  rw [strtolHex_pair hlen hdigits, hnumber]

/-- The two digits that are sent behind a text. -/
theorem trailer_eq (csum : UInt8) : ∃ c₁ c₂, printHexPadded true 2 csum.toNat = [c₁, c₂] := by
  have hlen : (printHexPadded true 2 csum.toNat).length = 2 :=
    printHexPadded_length true (by norm_num) csum.toNat_lt
  exact List.length_eq_two.mp hlen

namespace Receiver

variable {size : ℕ} {p : List UInt8}

theorem run_frame {r : Receiver} (hr : r.Ready size) (hroom : p.length ≤ size)
    (rest : List UInt8) : run size r (gdbFrame p ++ rest) = some (p, [plus], rest) := by
  obtain ⟨c₁, c₂, htrailer⟩ := trailer_eq (escapePacket p).sum
  have hframe : gdbFrame p ++ rest =
      dollar :: escapePacket p ++ hash :: c₁ :: c₂ :: rest := by
    rw [gdbFrame, htrailer]
    simp
  rw [hframe, run_text hr (escapePacket_escapes p) hroom, ← htrailer, strtolHex_frame, if_pos rfl]

/-- Unfinished frames with room left leave the receiver where the next start character counts. -/
theorem run_aborted {r : Receiver} (hr : r.Ready size) {aborted : List (List UInt8)}
    (haborted : ∀ e ∈ aborted, ∃ q, GdbEscapes e q ∧ q.length < size) (input : List UInt8) :
    ∃ r', r'.Ready size ∧
      run size r (aborted.flatMap (fun e => dollar :: e) ++ input) = run size r' input := by
  induction aborted generalizing r with
  | nil => exact ⟨r, hr, rfl⟩
  | cons e aborted ih =>
    obtain ⟨q, he, hq⟩ := haborted e List.mem_cons_self
    obtain ⟨r', hr', hrun⟩ := ih (r := .capture q e.sum) (.inr ⟨q, _, rfl, hq⟩)
      fun e' he' => haborted e' (List.mem_cons_of_mem e he')
    refine ⟨r', hr', ?_⟩
    rw [List.flatMap_cons, List.append_assoc, List.cons_append, run_dollar hr,
      run_body he (by simpa using hq.le), List.nil_append, UInt8.zero_add, hrun]

end Receiver

/-- Noise and unfinished frames do not keep a frame from being received, and what follows it is
left alone. -/
theorem gdbGetpacket_resyncs (size : ℕ) (noise : List UInt8)
    (hnoise : ∀ c ∈ noise, c ≠ dollar ∧ c ≠ Ascii.eot) (aborted : List (List UInt8))
    (haborted : ∀ e ∈ aborted, ∃ q, GdbEscapes e q ∧ q.length < size) (p : List UInt8)
    (hroom : p.length ≤ size) (rest : List UInt8) :
    gdbGetpacket size (noise ++ aborted.flatMap (fun e => dollar :: e) ++ gdbFrame p ++ rest) =
      some (p, [plus], rest) := by
  obtain ⟨r, hr, hrun⟩ := Receiver.run_aborted (.inl rfl) haborted (gdbFrame p ++ rest)
  unfold gdbGetpacket
  rw [List.append_assoc, List.append_assoc, Receiver.run_noise hnoise, hrun,
    Receiver.run_frame hr hroom]

theorem gdbGetpacket_resyncs_ok :
    gdbGetpacket 1024 ([plus, 0xFF] ++ [ascii "m2000"].flatMap (fun e => dollar :: e) ++
      gdbFrame (ascii "#\x7d$") ++ [plus]) = some (ascii "#\x7d$", [plus], [plus]) := by
  apply gdbGetpacket_resyncs
  · decide +kernel
  · intro e he
    obtain rfl := List.mem_singleton.mp he
    have hplain : ∀ c ∈ ascii "m2000", ¬ needsEscape c := by decide +kernel
    exact ⟨ascii "m2000", gdbEscapes_plain hplain, by decide⟩
  · decide

namespace Receiver

/-- What the characters since the last attempt have led to: the last start character, the text
behind it, and its payload and checksum. -/
def Read (size : ℕ) (done : List UInt8) : Receiver → Prop
  | start => True
  | capture p csum => ∃ pre e, done = pre ++ dollar :: e ∧ GdbEscapes e p ∧ csum = e.sum ∧
      p.length ≤ size
  | escaped p csum => ∃ pre e, done = pre ++ dollar :: (e ++ [brace]) ∧ GdbEscapes e p ∧
      csum = e.sum ∧ p.length < size
  | checksum p csum => ∃ pre e t, done = pre ++ dollar :: (e ++ [t]) ∧ GdbEscapes e p ∧
      csum = e.sum ∧ p.length ≤ size ∧ (t = hash ∨ p.length = size)
  | checksum₂ p csum recv => ∃ pre e t, done = pre ++ dollar :: (e ++ [t, recv]) ∧
      GdbEscapes e p ∧ csum = e.sum ∧ p.length ≤ size ∧ (t = hash ∨ p.length = size)

variable {size : ℕ} {r r' : Receiver} {c : UInt8} {done p sent rest input : List UInt8}

theorem Read.waiting (h : r.Read size done) (hc : r.receive size c = .waiting r') :
    r'.Read size (done ++ [c]) := by
  cases r with
  | start =>
    simp only [receive] at hc
    split_ifs at hc with heot hdollar
    · obtain rfl := Received.waiting.inj hc
      exact ⟨done, [], by rw [hdollar], .nil, rfl, Nat.zero_le size⟩
    · obtain rfl := Received.waiting.inj hc
      trivial
  | capture p csum =>
    obtain ⟨pre, e, hdone, he, hcsum, hle⟩ := h
    have hnext : done ++ [c] = pre ++ dollar :: (e ++ [c]) := by simp [hdone]
    simp only [receive] at hc
    split_ifs at hc with hhash hfull hdollar hbrace <;> obtain rfl := Received.waiting.inj hc
    · exact ⟨pre, e, c, hnext, he, hcsum, hle, .inl hhash⟩
    · exact ⟨pre, e, c, hnext, he, hcsum, hle, .inr hfull⟩
    · exact ⟨done, [], by rw [hdollar], .nil, rfl, Nat.zero_le size⟩
    · exact ⟨pre, e, by rw [hnext, hbrace], he, hcsum, by omega⟩
    · refine ⟨pre, e ++ [c], hnext, he.append (.plain ?_ .nil), ?_, ?_⟩
      · rintro (h | h | h) <;> contradiction
      · rw [hcsum, List.sum_append, List.sum_singleton]
      · rw [List.length_append, List.length_singleton]
        omega
  | escaped p csum =>
    obtain ⟨pre, e, hdone, he, hcsum, hlt⟩ := h
    obtain rfl := Received.waiting.inj hc
    refine ⟨pre, e ++ [brace, c], by simp [hdone], he.append (.masked .nil), ?_, ?_⟩
    · rw [hcsum, List.sum_append, List.sum_cons, List.sum_singleton, UInt8.add_comm c brace]
    · rw [List.length_append, List.length_singleton]
      omega
  | checksum p csum =>
    obtain ⟨pre, e, t, hdone, hrest⟩ := h
    obtain rfl := Received.waiting.inj hc
    exact ⟨pre, e, t, by simp [hdone], hrest⟩
  | checksum₂ p csum recv =>
    simp only [receive] at hc
    split_ifs at hc

/-- A frame in front of `rest`: the start character, a text of the payload, what ended it, and two
characters that read as its checksum. -/
def Framed (size : ℕ) (p rest input : List UInt8) : Prop :=
  ∃ pre e t c₁ c₂, input = pre ++ dollar :: e ++ t :: c₁ :: c₂ :: rest ∧ GdbEscapes e p ∧
    (e.sum.toNat : ℤ) = strtolHex [c₁, c₂] ∧ p.length ≤ size ∧ (t = hash ∨ p.length = size)

theorem Read.packet (h : r.Read size done) (hc : r.receive size c = .packet p)
    (rest : List UInt8) : Framed size p rest (done ++ c :: rest) := by
  cases r with
  | checksum₂ q csum recv =>
    obtain ⟨pre, e, t, hdone, he, hcsum, hle, ht⟩ := h
    simp only [receive] at hc
    split_ifs at hc with hsum
    obtain rfl := Received.packet.inj hc
    exact ⟨pre, e, t, recv, c, by simp [hdone], he, by rw [← hcsum, hsum], hle, ht⟩
  | start => simp only [receive] at hc; split_ifs at hc
  | capture q csum => simp only [receive] at hc; split_ifs at hc
  | escaped q csum => simp only [receive] at hc; contradiction
  | checksum q csum => simp only [receive] at hc; contradiction

theorem receive_eot (hc : r.receive size c = .eot) : c = Ascii.eot := by
  cases r with
  | start =>
    simp only [receive] at hc
    split_ifs at hc with heot
    exact heot
  | capture q csum => simp only [receive] at hc; split_ifs at hc
  | escaped q csum => simp only [receive] at hc; contradiction
  | checksum q csum => simp only [receive] at hc; contradiction
  | checksum₂ q csum recv => simp only [receive] at hc; split_ifs at hc

/-- Every attempt that failed was answered with a `-`. -/
theorem Read.run (h : r.Read size done) (hrun : run size r input = some (p, sent, rest)) :
    (∃ n, sent = List.replicate n minus ++ [plus] ∧ Framed size p rest (done ++ input)) ∨
    (∃ n, sent = List.replicate n minus ∧ p = [Ascii.eot] ∧
      ∃ pre, done ++ input = pre ++ Ascii.eot :: rest) := by
  induction input generalizing r done sent with
  | nil => simp [Receiver.run] at hrun
  | cons c input ih =>
    rw [Receiver.run] at hrun
    cases hc : r.receive size c with
    | waiting r' =>
      simp only [hc] at hrun
      have hnext := ih (h.waiting hc) hrun
      simpa using hnext
    | nack =>
      simp only [hc, Option.map_eq_some_iff] at hrun
      obtain ⟨⟨p', sent', rest'⟩, hrun', heq⟩ := hrun
      simp only [Prod.mk.injEq] at heq
      obtain ⟨rfl, rfl, rfl⟩ := heq
      have hread : Receiver.start.Read size (done ++ [c]) := trivial
      have hnext := ih hread hrun'
      simp only [List.append_assoc, List.singleton_append] at hnext
      rcases hnext with ⟨n, rfl, hframed⟩ | ⟨n, rfl, hp, hpre⟩
      · exact .inl ⟨n + 1, rfl, hframed⟩
      · exact .inr ⟨n + 1, rfl, hp, hpre⟩
    | packet q =>
      simp only [hc, Option.some.injEq, Prod.mk.injEq] at hrun
      obtain ⟨rfl, rfl, rfl⟩ := hrun
      exact .inl ⟨0, rfl, h.packet hc input⟩
    | eot =>
      simp only [hc, Option.some.injEq, Prod.mk.injEq] at hrun
      obtain ⟨rfl, rfl, rfl⟩ := hrun
      exact .inr ⟨0, rfl, rfl, done, by rw [receive_eot hc]⟩

end Receiver

/-- Whatever the characters are: a packet that `gdb_getpacket` returns fits the buffer and came in
a frame with the right checksum directly in front of the characters left; the one other way to
return is the character of the end. -/
theorem gdbGetpacket_framed (size : ℕ) (input p sent rest : List UInt8)
    (hget : gdbGetpacket size input = some (p, sent, rest)) :
    (∃ n, sent = List.replicate n minus ++ [plus] ∧ Receiver.Framed size p rest input) ∨
    (∃ n, sent = List.replicate n minus ∧ p = [Ascii.eot] ∧
      ∃ pre, input = pre ++ Ascii.eot :: rest) := by
  have hread : Receiver.start.Read size [] := trivial
  exact hread.run hget

theorem gdbGetpacket_framed_ok :
    (∃ n, [minus, plus] = List.replicate n minus ++ [plus] ∧
      Receiver.Framed 1024 [0x67] [] (ascii "$g#66$g#67")) ∨
    (∃ n, [minus, plus] = List.replicate n minus ∧ [(0x67 : UInt8)] = [Ascii.eot] ∧
      ∃ pre, ascii "$g#66$g#67" = pre ++ Ascii.eot :: []) :=
  gdbGetpacket_framed 1024 (ascii "$g#66$g#67") [0x67] [minus, plus] [] (by decide)

/-- A frame whose text was garbled on its way; its checksum was not. -/
def garbledFrame (packet text : List UInt8) : List UInt8 :=
  dollar :: text ++ hash :: printHexPadded true 2 (escapePacket packet).sum.toNat

theorem Receiver.run_garbledFrame {size : ℕ} {r : Receiver} (hr : r.Ready size)
    {p text q : List UInt8} (htext : GdbEscapes text q) (hroom : q.length ≤ size)
    (hsum : text.sum ≠ (escapePacket p).sum) (input : List UInt8) :
    run size r (garbledFrame p text ++ input) =
      (run size .start input).map fun (p, sent, rest) => (p, minus :: sent, rest) := by
  obtain ⟨c₁, c₂, htrailer⟩ := trailer_eq (escapePacket p).sum
  have hframe : garbledFrame p text ++ input = dollar :: text ++ hash :: c₁ :: c₂ :: input := by
    rw [garbledFrame, htrailer]
    simp
  have hne : (text.sum.toNat : ℤ) ≠ strtolHex [c₁, c₂] := by
    rw [← htrailer, strtolHex_frame]
    intro heq
    exact hsum (UInt8.toNat_inj.mp (by exact_mod_cast heq))
  rw [hframe, run_text hr htext hroom, if_neg hne]

/-- No text has the checksum of the packet. -/
def Garbles (size : ℕ) (p : List UInt8) (garbled : List (List UInt8)) : Prop :=
  ∀ text ∈ garbled, text.sum ≠ (escapePacket p).sum ∧ ∃ q, GdbEscapes text q ∧ q.length ≤ size

/-- The first intact frame is received, and every other refused. -/
theorem Receiver.run_garbled {size : ℕ} {r : Receiver} (hr : r.Ready size) {p : List UInt8}
    {garbled : List (List UInt8)} (hgarbled : Garbles size p garbled) (hroom : p.length ≤ size)
    (rest : List UInt8) :
    run size r (garbled.flatMap (garbledFrame p) ++ (gdbFrame p ++ rest)) =
      some (p, List.replicate garbled.length minus ++ [plus], rest) := by
  induction garbled generalizing r with
  | nil => exact run_frame hr hroom rest
  | cons text garbled ih =>
    obtain ⟨hsum, q, htext, hq⟩ := hgarbled text List.mem_cons_self
    have htail := ih (.inl rfl) fun t ht => hgarbled t (List.mem_cons_of_mem text ht)
    rw [List.flatMap_cons, List.append_assoc, run_garbledFrame hr htext hq hsum, htail]
    rfl

/-- A receiver that only gets garbled frames waits for another. -/
theorem Receiver.run_onlyGarbled {size : ℕ} {p : List UInt8} {garbled : List (List UInt8)}
    (hgarbled : Garbles size p garbled) :
    run size .start (garbled.flatMap (garbledFrame p)) = none := by
  induction garbled with
  | nil => rfl
  | cons text garbled ih =>
    obtain ⟨hsum, q, htext, hq⟩ := hgarbled text List.mem_cons_self
    have htail := ih fun t ht => hgarbled t (List.mem_cons_of_mem text ht)
    rw [List.flatMap_cons, run_garbledFrame (.inl rfl) htext hq hsum, htail]
    rfl

/-- Every answer but a `+` has the frame sent again. -/
theorem putpacketTries_nacks (frame input : List UInt8) {nacks : List UInt8} {left : ℕ}
    (hnacks : ∀ c ∈ nacks, c ≠ plus) (hle : nacks.length ≤ left) :
    putpacketTries frame left (nacks ++ plus :: input) =
      some ((List.replicate (nacks.length + 1) frame).flatten, input) := by
  induction nacks generalizing left with
  | nil => cases left <;> simp [putpacketTries]
  | cons c nacks ih =>
    rw [List.length_cons] at hle
    obtain ⟨m, rfl⟩ : ∃ m, left = m + 1 := ⟨left - 1, by omega⟩
    have hne : c ≠ plus := hnacks c List.mem_cons_self
    have hfewer : nacks.length ≤ m := by omega
    have htail := ih (fun d hd => hnacks d (List.mem_cons_of_mem c hd)) hfewer
    rw [List.cons_append, putpacketTries, if_neg hne, htail, List.length_cons,
      List.replicate_succ (n := nacks.length + 1)]
    rfl

theorem putpacketTries_givesUp (frame input : List UInt8) (left : ℕ) :
    putpacketTries frame left (List.replicate (left + 1) minus ++ input) =
      some ((List.replicate (left + 1) frame).flatten, input) := by
  have hne : minus ≠ plus := by decide
  induction left with
  | zero => simp [putpacketTries, hne]
  | succ left ih =>
    rw [List.replicate_succ, List.cons_append, putpacketTries, if_neg hne, ih,
      List.replicate_succ (n := left + 1)]
    rfl

/-- A packet sent over a line that garbles texts is received once, by the first intact frame, if
that is among the first four; the sender stops exactly there. After four garbled frames it gives
up, and the receiver waits for another. -/
theorem putpacket_getpacket (size : ℕ) (p : List UInt8) (hroom : p.length ≤ size)
    (garbled : List (List UInt8))
    (hgarbled : Garbles size p garbled) :
    (∀ rest, gdbGetpacket size (garbled.flatMap (garbledFrame p) ++ gdbFrame p ++ rest) =
      some (p, List.replicate garbled.length minus ++ [plus], rest)) ∧
    (garbled.length ≤ 3 → ∀ input,
      gdbPutpacket p (List.replicate garbled.length minus ++ [plus] ++ input) =
        some ((List.replicate (garbled.length + 1) (gdbFrame p)).flatten, input)) ∧
    (garbled.length = 4 → gdbGetpacket size (garbled.flatMap (garbledFrame p)) = none ∧
      ∀ input, gdbPutpacket p (List.replicate 4 minus ++ input) =
        some ((List.replicate 4 (gdbFrame p)).flatten, input)) := by
  refine ⟨?_, ?_, ?_⟩
  · intro rest
    rw [List.append_assoc]
    exact Receiver.run_garbled (.inl rfl) hgarbled hroom rest
  · intro hle input
    have hnacks : ∀ c ∈ List.replicate garbled.length minus, c ≠ plus := by
      intro c hc
      rw [List.eq_of_mem_replicate hc]
      decide
    have hthree : (List.replicate garbled.length minus).length ≤ 3 := by simpa using hle
    have hsent := putpacketTries_nacks (gdbFrame p) input hnacks hthree
    rw [List.length_replicate] at hsent
    rw [List.append_assoc]
    exact hsent
  · intro hfour
    constructor
    · exact Receiver.run_onlyGarbled hgarbled
    · intro input
      exact putpacketTries_givesUp (gdbFrame p) input 3

theorem putpacket_getpacket_ok :
    (∀ rest, gdbGetpacket 1024 ([ascii "OJ"].flatMap (garbledFrame (ascii "OK")) ++
        gdbFrame (ascii "OK") ++ rest) =
      some (ascii "OK", List.replicate [ascii "OJ"].length minus ++ [plus], rest)) ∧
    ([ascii "OJ"].length ≤ 3 → ∀ input,
      gdbPutpacket (ascii "OK") (List.replicate [ascii "OJ"].length minus ++ [plus] ++ input) =
        some ((List.replicate ([ascii "OJ"].length + 1) (gdbFrame (ascii "OK"))).flatten, input)) ∧
    ([ascii "OJ"].length = 4 →
      gdbGetpacket 1024 ([ascii "OJ"].flatMap (garbledFrame (ascii "OK"))) = none ∧
      ∀ input, gdbPutpacket (ascii "OK") (List.replicate 4 minus ++ input) =
        some ((List.replicate 4 (gdbFrame (ascii "OK"))).flatten, input)) := by
  apply putpacket_getpacket
  · decide
  · intro text htext
    obtain rfl := List.mem_singleton.mp htext
    have hplain : ∀ c ∈ ascii "OJ", ¬ needsEscape c := by decide +kernel
    exact ⟨by decide, ascii "OJ", gdbEscapes_plain hplain, by decide⟩

end BluePill
