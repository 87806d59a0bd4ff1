import Mathlib.Data.List.TakeWhile
import BluePill.Firmware.Comparators
import BluePill.Firmware.ReplyEcho

/-! `breakpointCommand`: what a packet does to the comparators and what the reply says of it, for
single packets and for runs of them. -/
namespace BluePill
open Lib

/-- The address in the entry `index` of a packet. -/
def entryAddress (inBuf : List UInt8) (index : ℕ) : UInt32 :=
  UInt32.ofNat (ofLE ((inBuf.drop (BreakpointHead.size + Breakpoint.bytes * index)).take 4))

/-- A breakpoint packet of any length with all entries that its head counts. -/
structure BreakpointPacket where
  inBuf : List UInt8
  inSize : ℕ
  head : BreakpointHead
  decodes : BreakpointHead.decode inBuf = some head
  cmd : head.cmd = DebugCommand.breakpoint.toByte
  present : BreakpointHead.size + Breakpoint.bytes * head.count ≤ inSize
  inside : inSize ≤ inBuf.length

namespace BreakpointPacket

def addresses (p : BreakpointPacket) : List UInt32 :=
  (List.range p.head.count).map (entryAddress p.inBuf)

/-- What the packet does to the comparators. -/
def apply (p : BreakpointPacket) (comp : Vector UInt32 8) : Vector UInt32 8 :=
  if p.head.set ≠ 0 then p.addresses.foldl setComparator comp
  else p.addresses.foldl clearComparator comp

def effect (p : BreakpointPacket) (d : Device) : Device :=
  { d with
    fpCtrl := if p.head.set ≠ 0 then d.fpCtrl ||| 0x03 else d.fpCtrl
    fpComp := p.apply d.fpComp }

@[simp] theorem addresses_length (p : BreakpointPacket) : p.addresses.length = p.head.count := by
  simp [addresses]

end BreakpointPacket

theorem BreakpointHead.decode_encode_append {head : BreakpointHead} (hcount : head.count < 65536)
    (rest : List UInt8) : BreakpointHead.decode (head.encode ++ rest) = some head := by
  obtain ⟨c, s, n⟩ := head
  have hvalue : ofLE (toLE 2 n) = n := ofLE_toLE_of_lt hcount
  exact congrArg (fun n => some (BreakpointHead.mk c s n)) hvalue

theorem BreakpointHead.count_lt {buf : List UInt8} {head : BreakpointHead}
    (h : BreakpointHead.decode buf = some head) : head.count < 65536 := by
  match buf, h with
  | _ :: _ :: n₀ :: n₁ :: _, rfl =>
    have hlt := ofLE_lt [n₀, n₁]
    norm_num at hlt
    exact hlt

/-- The reply repeats the count of the packet, whatever became of the entries. -/
theorem breakpointCommand_packet (p : BreakpointPacket) (outBuf : Frame) (outSize : ℕ)
    (d : Device) :
    ∃ reply : Frame, breakpointCommand p.inBuf p.inSize outBuf outSize d =
        .ok (BreakpointHead.size, reply, p.effect d) ∧
      BreakpointHead.decode reply.val = some p.head := by
  have hpresent := p.present
  have hinside := p.inside
  have hsize : BreakpointHead.size ≤ p.inSize := by omega
  have hvalid : dbgHeadValid BreakpointHead.size p.inBuf p.inSize .breakpoint = .ok true := by
    unfold dbgHeadValid
    rw [if_neg (not_lt.mpr hsize)]
    match hbuf : p.inBuf, p.decodes with
    | c :: s :: n₀ :: n₁ :: rest, hdecode =>
      have hc : c = p.head.cmd := congrArg BreakpointHead.cmd (Option.some.inj hdecode)
      simp [hc, p.cmd]
  have hread : readHead BreakpointHead.decode p.inBuf = .ok p.head := by
    unfold readHead
    rw [p.decodes]
  have hans : BreakpointHead.mk DebugCommand.breakpoint.toByte p.head.set p.head.count = p.head := by
    rw [← p.cmd]
  obtain ⟨reply, hstore⟩ := exists_store outBuf 0 p.head.encode (by simp [BreakpointHead.encode])
  obtain ⟨rest, hreply⟩ := Frame.store_front outBuf p.head.encode reply hstore
  have hentries : (List.range p.head.count).foldlM (fun comp index => do
      let word ← readBytes p.inBuf (BreakpointHead.size + Breakpoint.bytes * index) 4
      let address := UInt32.ofNat (ofLE word)
      return if p.head.set ≠ 0 then setComparator comp address else clearComparator comp address)
      d.fpComp = .ok (p.apply d.fpComp) := by
    rw [foldlM_eq_ok (g := fun comp index => if p.head.set ≠ 0 then
      setComparator comp (entryAddress p.inBuf index) else
      clearComparator comp (entryAddress p.inBuf index))]
    · unfold BreakpointPacket.apply BreakpointPacket.addresses
      split_ifs <;> rw [List.foldl_map]
    · intro comp index hindex
      have hlt := List.mem_range.mp hindex
      exact bind_of_ok (readBytes_ok (by
        show BreakpointHead.size + Breakpoint.bytes * index + 4 ≤ p.inBuf.length
        simp only [BreakpointHead.size, Breakpoint.bytes] at hpresent ⊢
        omega))
  refine ⟨reply, ?_, ?_⟩
  · unfold breakpointCommand
    rw [bind_of_ok hvalid]
    simp only [Bool.not_true, Bool.false_eq_true, if_false]
    rw [bind_of_ok hread]
    simp only [hans]
    rw [bind_of_ok hstore]
    exact bind_of_ok hentries
  · rw [hreply]
    exact BreakpointHead.decode_encode_append (BreakpointHead.count_lt p.decodes) rest

/-- The count in the reply is at most the number of leading addresses that are armed then. -/
def ReportsArmed (p : BreakpointPacket) (outBuf : Frame) (outSize : ℕ) (d : Device) : Prop :=
  ∀ n reply e, breakpointCommand p.inBuf p.inSize outBuf outSize d = .ok (n, reply, e) →
    ∃ ans, BreakpointHead.decode reply.val = some ans ∧
      ans.count ≤ (p.addresses.takeWhile fun a => Armed e.fpComp a).length

theorem reportsArmed_iff_accommodates (p : BreakpointPacket) (outBuf : Frame) (outSize : ℕ)
    (d : Device) (hset : p.head.set ≠ 0) :
    ReportsArmed p outBuf outSize d ↔ Accommodates d.fpComp p.addresses := by
  obtain ⟨reply, hcall, hreply⟩ := breakpointCommand_packet p outBuf outSize d
  have hcomp : (p.effect d).fpComp = p.addresses.foldl setComparator d.fpComp := if_pos hset
  -- the count is that of all addresses
  have hall : p.head.count ≤
        (p.addresses.takeWhile fun a => Armed (p.effect d).fpComp a).length ↔
      ∀ a ∈ p.addresses, Armed (p.effect d).fpComp a := by
    rw [← p.addresses_length]
    constructor
    · intro hle a ha
      have hself := (List.takeWhile_prefix _).eq_of_length_le hle
      exact of_decide_eq_true (List.takeWhile_eq_self_iff.mp hself a ha)
    · intro harmed
      rw [List.takeWhile_eq_self_iff.mpr fun a ha => decide_eq_true (harmed a ha)]
  rw [← all_armed_iff, ← hcomp, ← hall]
  constructor
  · intro h
    obtain ⟨ans, hans, hle⟩ := h _ reply _ hcall
    obtain rfl := Option.some.inj (hans.symm.trans hreply)
    exact hle
  · intro hle n reply' e hcall'
    obtain ⟨-, hrest⟩ := Prod.mk.inj (Except.ok.inj (hcall.symm.trans hcall'))
    obtain ⟨rfl, rfl⟩ := Prod.mk.inj hrest
    exact ⟨p.head, hreply, hle⟩

/-- The half-words wanted after a packet. -/
def BreakpointPacket.wanted (p : BreakpointPacket) (s : Finset UInt32) : Finset UInt32 :=
  if p.head.set ≠ 0 then s ∪ p.addresses.toFinset.image halfWord
  else s \ p.addresses.toFinset.image halfWord

/-- The half-words wanted after packets to a unit with nothing armed. -/
def wantedAfter (packets : List BreakpointPacket) : Finset UInt32 :=
  packets.foldl (fun s p => p.wanted s) ∅

theorem Holds.packet {comp : Vector UInt32 8} {s : Finset UInt32} (h : Holds comp s)
    (p : BreakpointPacket) (hwords : ∀ a ∈ p.addresses, compWord a ≠ 0)
    (hcard : (liveWords (p.wanted s)).card ≤ 8) :
    Holds (p.apply comp) (p.wanted s) := by
  unfold BreakpointPacket.wanted BreakpointPacket.apply at *
  by_cases hset : p.head.set ≠ 0
  · rw [if_pos hset] at hcard ⊢
    rw [if_pos hset]
    exact h.setAll hwords hcard
  · rw [if_neg hset, if_neg hset]
    exact h.clearAll hwords

/-- The packets one after the other, each reply in the buffer of the last. -/
def breakpointRun (outSize : ℕ) (packets : List BreakpointPacket) (s : Frame × Device) :
    Except Fault (Frame × Device) :=
  packets.foldlM (fun s p => do
    let (_, outBuf, d) ← breakpointCommand p.inBuf p.inSize s.1 outSize s.2
    return (outBuf, d)) s

theorem breakpointRun_snoc (outSize : ℕ) (packets : List BreakpointPacket) (p : BreakpointPacket)
    {s : Frame × Device} {outBuf : Frame} {d : Device}
    (h : breakpointRun outSize packets s = .ok (outBuf, d)) :
    ∃ outBuf' d', breakpointRun outSize (packets ++ [p]) s = .ok (outBuf', d') ∧
      d'.fpComp = p.apply d.fpComp := by
  obtain ⟨reply, hcall, -⟩ := breakpointCommand_packet p outBuf outSize d
  refine ⟨reply, p.effect d, ?_, rfl⟩
  unfold breakpointRun at h ⊢
  rw [List.foldlM_append, bind_of_ok h, List.foldlM_cons]
  apply bind_of_ok (a := (reply, p.effect d))
  exact bind_of_ok hcall

/-- After every packet of a run from comparators that are all zero, the half-words armed are those
set and not cleared since, and the comparators are canonical. -/
theorem breakpointRun_armedSet (packets : List BreakpointPacket) (outSize : ℕ) (outBuf : Frame)
    (d : Device) (hzero : d.fpComp = Vector.replicate 8 0)
    (hflash : ∀ p ∈ packets, ∀ a ∈ p.addresses, 0x08004000 ≤ a ∧ a < 0x08020000)
    (hlive : ∀ k ≤ packets.length, (liveWords (wantedAfter (packets.take k))).card ≤ 8) :
    ∀ k ≤ packets.length, ∃ outBuf' d',
      breakpointRun outSize (packets.take k) (outBuf, d) = .ok (outBuf', d') ∧
      armedSet d'.fpComp = wantedAfter (packets.take k) ∧ Canonical d'.fpComp := by
  suffices hholds : ∀ k ≤ packets.length, ∃ outBuf' d',
      breakpointRun outSize (packets.take k) (outBuf, d) = .ok (outBuf', d') ∧
      Holds d'.fpComp (wantedAfter (packets.take k)) by
    intro k hk
    obtain ⟨outBuf', d', hrun, h⟩ := hholds k hk
    obtain ⟨t, ht, -⟩ := h.table
    exact ⟨outBuf', d', hrun, h.armedSet_eq, ht.canonical⟩
  intro k
  induction k with
  | zero =>
    intro _
    refine ⟨outBuf, d, rfl, ?_⟩
    rw [hzero]
    exact holds_zero
  | succ k ih =>
    intro hk
    have hlt : k < packets.length := hk
    obtain ⟨outBuf₁, d₁, hrun, h⟩ := ih hlt.le
    have htake : packets.take (k + 1) = packets.take k ++ [packets[k]] :=
      List.take_succ_eq_append_getElem hlt
    obtain ⟨outBuf₂, d₂, hrun₂, hcomp⟩ := breakpointRun_snoc outSize _ packets[k] hrun
    have hwanted : wantedAfter (packets.take (k + 1)) =
        packets[k].wanted (wantedAfter (packets.take k)) := by
      rw [htake, wantedAfter, List.foldl_append]
      rfl
    have hwords : ∀ a ∈ packets[k].addresses, compWord a ≠ 0 := by
      intro a ha
      obtain ⟨hlo, hhi⟩ := hflash _ (List.getElem_mem hlt) a ha
      exact compWord_ne_zero hlo hhi
    have hcard := hlive (k + 1) hk
    rw [hwanted] at hcard ⊢
    refine ⟨outBuf₂, d₂, htake ▸ hrun₂, ?_⟩
    rw [hcomp]
    exact h.packet _ hwords hcard

/-- Both halves of the first word of the user flash. -/
def setBothHalves : BreakpointPacket where
  inBuf := [5, 1, 2, 0, 0x00, 0x40, 0x00, 0x08, 1, 2, 0, 0, 0x02, 0x40, 0x00, 0x08, 1, 2, 0, 0]
  inSize := 20
  head := ⟨5, 1, 2⟩
  decodes := rfl
  cmd := rfl
  present := by decide
  inside := by decide

def clearLowerHalf : BreakpointPacket where
  inBuf := [5, 0, 1, 0, 0x00, 0x40, 0x00, 0x08, 1, 2, 0, 0]
  inSize := 12
  head := ⟨5, 0, 1⟩
  decodes := rfl
  cmd := rfl
  present := by decide
  inside := by decide

theorem bothHalves_flash {p : BreakpointPacket} (hp : p ∈ [setBothHalves, clearLowerHalf])
    {a : UInt32} (ha : a ∈ p.addresses) : 0x08004000 ≤ a ∧ a < 0x08020000 := by
  have hset : setBothHalves.addresses = [0x08004000, 0x08004002] := rfl
  have hclear : clearLowerHalf.addresses = [0x08004000] := rfl
  have hmem : a ∈ [(0x08004000 : UInt32), 0x08004002] := by
    rcases List.mem_cons.mp hp with rfl | hp
    · exact hset ▸ ha
    · obtain rfl := List.mem_singleton.mp hp
      rw [hclear] at ha
      exact List.mem_cons.mpr (.inl (List.mem_singleton.mp ha))
  rcases List.mem_cons.mp hmem with rfl | hmem
  · decide
  · obtain rfl := List.mem_singleton.mp hmem
    decide

theorem breakpointRun_armedSet_bothHalves : ∃ outBuf d,
    breakpointRun 64 [setBothHalves, clearLowerHalf]
      (Frame.zero, .initial blankMemory bootSymbols) = .ok (outBuf, d) ∧
    armedSet d.fpComp = wantedAfter [setBothHalves, clearLowerHalf] ∧ Canonical d.fpComp :=
  breakpointRun_armedSet [setBothHalves, clearLowerHalf] 64 Frame.zero
    (.initial blankMemory bootSymbols) rfl (fun _ hp _ ha => bothHalves_flash hp ha) (by decide) 2
    le_rfl

end BluePill
