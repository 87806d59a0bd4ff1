import BluePill.Host.Exchanges
import BluePill.Host.GdbWire

/-! The memory map on the line: GDB gets the document from the pieces that it asks for. -/
namespace BluePill
open Lib Ascii

/-- `qXfer` for the memory map, with up to eight digits for a number. -/
def AsksPiece (n o : ℕ) (packet : List UInt8) : Prop :=
  ∃ dout dn, Numeral o dout ∧ Numeral n dn ∧ dout.length ≤ 8 ∧ dn.length ≤ 8 ∧
    packet = ascii "qXfer:memory-map:read::" ++ (dout ++ 0x2C :: dn)

/-- The answer for the characters from `o` on, `n` at most. -/
def pieceAnswer (document : List UInt8) (n o : ℕ) : List UInt8 :=
  if o < document.length then 0x6D :: (document.drop o).take n
  else if o = document.length then ascii "l"
  else ascii "E01"

theorem qStringReply_eq (document : List UInt8) {n o stack : ℕ} {dout dn rest : List UInt8}
    (ho : Numeral o dout) (hn : Numeral n dn) (hlo : o < 4294967296) (hln : n < 4294967296)
    (hwo : dout.length ≤ 8) (hwn : dn.length ≤ 8) (hends : NumberEnds rest)
    (hroom : n + 2 ≤ stack) :
    qStringReply document (dout ++ 0x2C :: (dn ++ rest)) stack =
      .ok (pieceAnswer document n o) := by
  have hcomma : NumberEnds (0x2C :: (dn ++ rest)) := by
    intro c hc
    obtain rfl : 0x2C = c := by simpa using hc
    decide
  have hno : ¬ n + 2 > stack := by omega
  unfold qStringReply pieceAnswer
  rw [ho.scanHex hlo hcomma hwo]
  simp only [Option.bind_eq_bind, Option.bind_some, expectChar, if_true,
    hn.scanHex hln hends hwn, pure, hno, if_false]
  split_ifs <;> rfl

section
variable {σ : Type} {interface : TargetInterface σ} {left : Leftovers} {s : GdbServer σ}
  {packet : List UInt8} {n o : ℕ}

/-- A selected target is asked for its memory map. -/
theorem serves_memoryMap (hask : AsksPiece n o packet) (hlo : o < 4294967296)
    (hln : n < 4294967296) (hroom : n + 2 ≤ left.room) (hcur : s.curTarget = true)
    (hfits : (memMapDocument stm32f1Ram s.target.flash).length < 1024) :
    Serves interface left packet s
      (pieceAnswer (memMapDocument stm32f1Ram s.target.flash) n o) s := by
  intro input output
  obtain ⟨dout, dn, ho, hn, hwo, hwn, rfl⟩ := hask
  obtain ⟨behind, hbuffer⟩ :=
    packetBuffer_eq left (ascii "qXfer:memory-map:read::" ++ (dout ++ 0x2C :: dn))
  obtain ⟨param, hparam⟩ : ∃ param, param = dout ++ 0x2C :: (dn ++ 0 :: behind) := ⟨_, rfl⟩
  have hbuffer : packetBuffer left (ascii "qXfer:memory-map:read::" ++ (dout ++ 0x2C :: dn)) =
      ascii "qXfer:memory-map:read::" ++ param := by
    rw [hbuffer, hparam]
    simp only [List.append_assoc, List.cons_append]
  have hreply : qStringReply (memMapDocument stm32f1Ram s.target.flash) param left.room =
      .ok (pieceAnswer (memMapDocument stm32f1Ram s.target.flash) n o) := by
    rw [hparam]
    exact qStringReply_eq _ ho hn hlo hln hwo hwn (numberEnds_terminator behind) hroom
  have hswitch : gdbSwitch interface left
      (ascii "qXfer:memory-map:read::" ++ (dout ++ 0x2C :: dn))
      (ascii "qXfer:memory-map:read::" ++ param) (s.onWire input output) =
        handleQ interface left (ascii "qXfer:memory-map:read::" ++ param)
          (s.onWire input output) := rfl
  have hcommand : afterText (ascii "qRcmd,") (ascii "qXfer:memory-map:read::" ++ param) = none :=
    afterText_eq_none (by decide) param
  have hsupported : afterText (ascii "qSupported")
      (ascii "qXfer:memory-map:read::" ++ param) = none := afterText_eq_none (by decide) param
  have htarget : (s.onWire input output).curTarget = true := hcur
  have hattach : attachLast interface (s.onWire input output) = .ok (s.onWire input output) := by
    unfold attachLast
    rw [htarget]
    rfl
  have hmap : targetMemMap stm32f1Ram (s.onWire input output).target.flash 1024 =
      .ok (memMapDocument stm32f1Ram s.target.flash) := targetMemMap_whole hfits
  rw [hbuffer, hswitch, handleQ]
  simp only [hcommand, hsupported, afterText_append, Option.isSome_none, Bool.false_eq_true,
    if_false]
  unfold handleDocument
  rw [bind_of_ok hattach]
  simp only [htarget, hmap, Bool.not_true, Bool.false_eq_true, if_false]
  rw [bind_of_ok rfl, hreply]

end

/-- Where GDB asks next while it gets the document in pieces of `n`: behind every piece, and last
behind the whole. -/
def pieceOffsets (n : ℕ) (document : List UInt8) : List ℕ :=
  (pieces n 0 document).map Prod.fst ++ [document.length]

theorem pieceAnswer_offsets {n : ℕ} (document : List UInt8) :
    (pieceOffsets n document).map (pieceAnswer document n) =
      (pieces n 0 document).map (fun t => 0x6D :: t.2) ++ [ascii "l"] := by
  have hlast : pieceAnswer document n document.length = ascii "l" := by
    unfold pieceAnswer
    rw [if_neg (lt_irrefl _), if_pos rfl]
  rw [pieceOffsets, List.map_append, List.map_singleton, hlast, List.map_map]
  congr 1
  apply List.map_congr_left
  intro t ht
  obtain ⟨-, hlt, heq⟩ := eq_of_mem_pieces ht
  show pieceAnswer document n t.1 = 0x6D :: t.2
  unfold pieceAnswer
  rw [if_pos (by omega), heq, Nat.sub_zero]

section
variable {σ : Type} {interface : TargetInterface σ}

theorem served_memoryMap {s : GdbServer σ} {n : ℕ} {offsets : List ℕ} {es : List Arrival}
    (hasks : List.Forall₂ (AsksPiece n) offsets (es.map fun e => e.2.packet))
    (hoffsets : ∀ o ∈ offsets, o < 4294967296) (hln : n < 4294967296)
    (hroom : ∀ e ∈ es, n + 2 ≤ e.1.room) (hcur : s.curTarget = true)
    (hfits : (memMapDocument stm32f1Ram s.target.flash).length < 1024) :
    Served interface (es.map Arrival.request) s
      (offsets.map (pieceAnswer (memMapDocument stm32f1Ram s.target.flash) n)) s := by
  induction offsets generalizing es with
  | nil =>
    obtain rfl : es = [] := List.map_eq_nil_iff.mp (List.forall₂_nil_left_iff.mp hasks)
    exact .nil s
  | cons o offsets ih =>
    obtain ⟨packet, packets, hask, htail, hes⟩ := List.forall₂_cons_left_iff.mp hasks
    obtain ⟨e, es, rfl, rfl, rfl⟩ := List.map_eq_cons_iff.mp hes
    have hserves : Serves interface e.1 e.2.packet s _ s := serves_memoryMap hask
      (hoffsets o List.mem_cons_self) hln (hroom e List.mem_cons_self) hcur hfits
    exact .cons hserves (ih htail (fun o' ho' => hoffsets o' (List.mem_cons_of_mem o ho'))
      fun e' he' => hroom e' (List.mem_cons_of_mem e he'))

/-- GDB asks for the memory map in pieces of any size, over a line that garbles packets: what comes
behind the `m` of the answers is the document, no answer is longer than asked for, and only the last
is the `l` of the end. The target is left as it is. -/
theorem wire_memoryMap (s : GdbServer σ) (hcur : s.curTarget = true)
    (hfits : (memMapDocument stm32f1Ram s.target.flash).length < 1024) (n : ℕ) (hn : 0 < n)
    (hln : n < 4294967296) (es : List Arrival) (hroom : ∀ e ∈ es, n + 2 ≤ e.1.room)
    (hasks : List.Forall₂ (AsksPiece n)
      (pieceOffsets n (memMapDocument stm32f1Ram s.target.flash)) (es.map fun e => e.2.packet))
    (rest : List UInt8) (hinput : s.input = es.flatMap Arrival.input ++ rest) :
    ∃ answers, gdbMainRounds interface (es.map Prod.fst) s =
        .ok (s.onWire rest
          (s.output ++ (List.zipWith Arrival.output es (answers ++ [ascii "l"])).flatten)) ∧
      answers.length + 1 = es.length ∧ (∀ a ∈ answers, a.head? = some 0x6D ∧ a.length ≤ n + 1) ∧
      answers.flatMap List.tail = memMapDocument stm32f1Ram s.target.flash := by
  obtain ⟨document, hdocument⟩ : ∃ document, document = memMapDocument stm32f1Ram s.target.flash :=
    ⟨_, rfl⟩
  rw [← hdocument] at hfits hasks ⊢
  have hoffsets : ∀ o ∈ pieceOffsets n document, o < 4294967296 := by
    intro o ho
    rcases List.mem_append.mp ho with hpiece | hlast
    · obtain ⟨t, ht, rfl⟩ := List.mem_map.mp hpiece
      obtain ⟨-, hlt, -⟩ := eq_of_mem_pieces ht
      omega
    · rw [List.mem_singleton.mp hlast]
      omega
  have hserved : Served interface _ s _ s := served_memoryMap hasks hoffsets hln hroom hcur
    (by rwa [← hdocument])
  rw [← hdocument, pieceAnswer_offsets] at hserved
  have hrounds := hserved.rounds s.output rest
  rw [← hinput] at hrounds
  refine ⟨(pieces n 0 document).map fun t : ℕ × List UInt8 => 0x6D :: t.2, hrounds, ?_, ?_, ?_⟩
  · have hlength := hasks.length_eq
    rw [pieceOffsets, List.length_append, List.length_map, List.length_singleton,
      List.length_map] at hlength
    rw [List.length_map]
    exact hlength
  · intro a ha
    obtain ⟨t, ht, rfl⟩ := List.mem_map.mp ha
    obtain ⟨-, -, heq⟩ := eq_of_mem_pieces ht
    refine ⟨rfl, ?_⟩
    rw [List.length_cons, heq, List.length_take]
    omega
  · rw [List.flatMap_map]
    exact (tiles_pieces hn 0 document).flatMap_snd

end

/-- The packet for a piece, in lower case and without zeros in front. -/
def pieceRequest (n o : ℕ) : List UInt8 :=
  ascii "qXfer:memory-map:read::" ++ (printHex false o ++ 0x2C :: printHex false n)

theorem asksPiece_pieceRequest {n o : ℕ} (hn : n < 4294967296) (ho : o < 4294967296) :
    AsksPiece n o (pieceRequest n o) ∧ (pieceRequest n o).length ≤ bufSize := by
  have hwo := printHex_length_le false (show 0 < 8 by norm_num) (n := o) (by simpa using ho)
  have hwn := printHex_length_le false (show 0 < 8 by norm_num) (n := n) (by simpa using hn)
  constructor
  · exact ⟨_, _, numeral_printHex false o, numeral_printHex false n, hwo, hwn, rfl⟩
  · have htext : (ascii "qXfer:memory-map:read::").length = 23 := by decide
    unfold pieceRequest bufSize
    simp only [List.length_append, List.length_cons, htext]
    omega

/-- The document of the target that the server has. -/
abbrev stm32f1Document : List UInt8 := memMapDocument stm32f1Ram [stm32f1Flash]

theorem stm32f1Document_length : 0 < stm32f1Document.length ∧ stm32f1Document.length ≤ 260 := by
  constructor
  · obtain ⟨front, hdocument, -⟩ := targetMemMap_eq stm32f1Ram [stm32f1Flash] 0
    have hclose : (ascii "</memory-map>").length = 13 := by decide
    unfold stm32f1Document
    rw [hdocument, List.length_append, hclose]
    omega
  · exact @memMapDocument_length_le stm32f1Ram [stm32f1Flash] (by decide) (by decide)

theorem pieceOffsets_stm32f1 : pieceOffsets 512 stm32f1Document = [0, stm32f1Document.length] := by
  obtain ⟨hpos, hle⟩ := stm32f1Document_length
  unfold pieceOffsets
  rw [pieces_cons (by norm_num) 0 (List.length_pos_iff.mp hpos),
    List.drop_eq_nil_of_le (by omega), pieces_nil]
  rfl

def mapArrivals : List Arrival :=
  [({ Leftovers.zero with room := 1000 }, .plain (pieceRequest 512 0)
      (asksPiece_pieceRequest (by norm_num) (by norm_num)).2),
    ({ Leftovers.zero with room := 1000 }, .plain (pieceRequest 512 stm32f1Document.length)
      (asksPiece_pieceRequest (by norm_num) (by have := stm32f1Document_length; omega)).2)]

def mapServer : GdbServer Unit :=
  { input := mapArrivals.flatMap Arrival.input, output := [], curTarget := true,
    lastTarget := false, controller := true, singleStep := false, flashMode := false,
    bwList := [], cmdline := [], target := ⟨[stm32f1Flash], .zero, .zero, ()⟩ }

theorem wire_memoryMap_stm32f1 :
    ∃ answers, gdbMainRounds deadLink (mapArrivals.map Prod.fst) mapServer =
        .ok (mapServer.onWire [] (mapServer.output ++
          (List.zipWith Arrival.output mapArrivals (answers ++ [ascii "l"])).flatten)) ∧
      answers.length + 1 = mapArrivals.length ∧
      (∀ a ∈ answers, a.head? = some 0x6D ∧ a.length ≤ 512 + 1) ∧
      answers.flatMap List.tail = memMapDocument stm32f1Ram mapServer.target.flash := by
  obtain ⟨hpos, hle⟩ := stm32f1Document_length
  have hfirst := (asksPiece_pieceRequest (n := 512) (o := 0) (by norm_num) (by norm_num)).1
  have hsecond := (asksPiece_pieceRequest (n := 512) (o := stm32f1Document.length) (by norm_num)
    (by omega)).1
  have hroom : ∀ e ∈ mapArrivals, 512 + 2 ≤ e.1.room := by
    intro e he
    rcases List.mem_pair.mp he with rfl | rfl
    · exact show 514 ≤ 1000 by norm_num
    · exact show 514 ≤ 1000 by norm_num
  have hasks : List.Forall₂ (AsksPiece 512) (pieceOffsets 512 stm32f1Document)
      (mapArrivals.map fun e => e.2.packet) := by
    rw [pieceOffsets_stm32f1]
    exact .cons hfirst (.cons hsecond .nil)
  exact wire_memoryMap mapServer rfl (show stm32f1Document.length < 1024 by omega) 512
    (by norm_num) (by norm_num) mapArrivals hroom hasks [] (List.append_nil _).symm

end BluePill
