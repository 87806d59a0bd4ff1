import BluePill.Host.GdbMain
import BluePill.Host.MemorySplit

/-! What GDB's memory writes store: the packets `M` and `X` against the firmware, for the RAM of
the user program. -/
namespace BluePill
open Lib

inductive PayloadKind
  /-- `M`: two digits a byte. -/
  | hex
  /-- `X`. -/
  | binary
  deriving DecidableEq, Repr

/-- A packet that writes memory, with what follows the colon. -/
structure MemoryPacket where
  kind : PayloadKind
  addr : ℕ
  len : ℕ
  body : List UInt8
  deriving DecidableEq, Repr

namespace MemoryPacket

def handle {σ : Type} (interface : TargetInterface σ) (p : MemoryPacket) (atData : ℕ → UInt8)
    (h : Host σ) : Except Fault (GdbReply × Host σ) :=
  match p.kind with
  | .hex => gdbWriteMemory interface p.addr p.len p.body atData h
  | .binary => gdbWriteBinary interface p.addr p.len p.body atData h

/-- The packet is shorter than it says. -/
def Refused (p : MemoryPacket) : Prop :=
  match p.kind with
  | .hex => p.body.length / 2 < p.len
  | .binary => p.body.length < p.len

instance (p : MemoryPacket) : Decidable p.Refused := by
  unfold Refused
  split <;> infer_instance

/-- The bytes that the packet is to write. -/
def data (p : MemoryPacket) : List UInt8 :=
  match p.kind with
  | .hex => (unhexify p.body p.len).toOption.getD []
  | .binary => p.body.take p.len

variable {σ : Type} (interface : TargetInterface σ) {p : MemoryPacket} (atData : ℕ → UInt8)
  (h : Host σ)

theorem handle_refused (hshort : p.Refused) : p.handle interface atData h = .ok (.e02, h) := by
  obtain ⟨kind, addr, len, body⟩ := p
  cases kind with
  | hex => exact if_pos hshort
  | binary => exact if_pos hshort

theorem unhexify_ok {hex : List UInt8} {n : ℕ} (hn : n ≤ hex.length / 2) :
    ∃ bytes, unhexify hex n = .ok bytes ∧ bytes.length = n := by
  have hread : readBytes hex 0 (2 * n) = .ok ((hex.drop 0).take (2 * n)) := if_pos (by omega)
  refine ⟨_, bind_of_ok hread, ?_⟩
  rw [List.length_map, List.length_range]

theorem data_length (hfull : ¬ p.Refused) : p.data.length = p.len := by
  obtain ⟨kind, addr, len, body⟩ := p
  cases kind with
  | hex =>
    obtain ⟨bytes, hbytes, hlen⟩ := unhexify_ok (not_lt.mp hfull)
    simp only [data, hbytes]
    exact hlen
  | binary =>
    have hlen : len ≤ body.length := not_lt.mp hfull
    simp only [data, List.length_take]
    omega

/-- Whatever the packet holds, the callback works on its address and length only. -/
theorem handle_eq (hfull : ¬ p.Refused) {h' : Host σ}
    (hwrite : ∀ src, stm32MemWrite interface p.addr src p.len atData h = .ok h') :
    p.handle interface atData h = .ok (.ok, h') := by
  obtain ⟨kind, addr, len, body⟩ := p
  cases kind with
  | hex =>
    obtain ⟨bytes, hbytes, -⟩ := unhexify_ok (not_lt.mp hfull)
    refine (if_neg hfull).trans ?_
    rw [bind_of_ok hbytes, targetMemWrite, bind_of_ok (hwrite bytes)]
    rfl
  | binary =>
    refine (if_neg hfull).trans ?_
    rw [targetMemWrite, bind_of_ok (hwrite body)]
    rfl

end MemoryPacket

theorem readAnswer_userRam (mem : ℕ → UInt8) {a n : ℕ} (hlo : 0x20001000 ≤ a)
    (hhi : a + n ≤ 0x20005000) : readAnswer mem a n = readRange mem a n := by
  have hranges : readAnswer mem a n = (cuts 56 a n).flatMap fun c => readRange mem c.1 c.2 := by
    apply List.flatMap_congr
    intro c hc
    have hle := mem_cuts_le hc
    exact answeredBytes_userRam mem (by omega) (by omega)
  rw [hranges, flatMap_readRange_cuts (by norm_num)]

section
variable {h : Host Link} {d : Device} (hdev : h.link.device = some d) (hfree : d.inEndpoint = none)
  {a n : ℕ} (hlo : 0x20001000 ≤ a) (hhi : a + n ≤ 0x20005000)
include hdev hfree hlo hhi

/-- The device stores the bytes at `&data`. -/
theorem stm32MemWrite_userRam (atData : ℕ → UInt8) :
    ∃ h' d', (∀ src, stm32MemWrite firmwareLink a src n atData h = .ok h') ∧
      h'.link.device = some d' ∧ d'.inEndpoint = none ∧
      d'.mem = overlay d.mem a ((List.range n).map atData) := by
  set data := (List.range n).map atData with hdata
  have hlen : data.length = n := by rw [hdata, List.length_map, List.length_range]
  obtain ⟨w, hw, hwa, hwn⟩ := accSize_eq a n
  have hflash : ∀ t ∈ pieces 56 a data, isFlashRegion t.1 = false := by
    intro t ht
    have hle := mem_cuts_le (mem_spans_of_mem_pieces ht)
    rw [isFlashRegion, decide_eq_false_iff_not]
    omega
  have hdvd : w.bytes ∣ data.length := by rw [hlen]; exact hwn
  obtain ⟨h', hwrite, hat⟩ := memWrite_answers (Link.at_of_device hdev hfree)
    hdvd (a := a) (by omega)
    (fun t ht hyes => absurd (hyes.symm.trans (hflash t ht)) Bool.noConfusion)
  obtain ⟨d', hdev', hfree', htarget⟩ := hat.device
  refine ⟨h', d', fun src => ?_, hdev', hfree', ?_⟩
  · unfold stm32MemWrite
    simp only [hw]
    exact bind_of_ok hwrite
  · rw [mem_of_target htarget, writtenAll_pieces_mem]

theorem gdbReadMemory_userRam :
    ∃ h', gdbReadMemory firmwareLink a n h = if 512 < n then .ok (.e02, h)
      else .ok (.data ((readRange d.mem a n).map some), h') := by
  obtain ⟨h', -, hread, -⟩ := stm32MemRead_answers hdev hfree (show a + n < 4294967296 by omega)
  refine ⟨h', ?_⟩
  by_cases hlong : 512 < n
  · rw [if_pos hlong]
    exact if_pos hlong
  · rw [if_neg hlong]
    have htarget : targetMemRead firmwareLink a n h =
        .ok (stm32CheckError, readAnswer d.mem a n, h') := bind_of_ok hread
    refine (if_neg hlong).trans ?_
    rw [bind_of_ok htarget, readAnswer_userRam d.mem hlo hhi]
    have hbuf : hostBuffer n (readRange d.mem a n) = .ok ((readRange d.mem a n).map some) := by
      have hlen : (readRange d.mem a n).length = n := readRange_length _ _ _
      rw [hostBuffer, if_pos hlen.le, hlen, Nat.sub_self, List.replicate_zero, List.append_nil]
    exact bind_of_ok hbuf

end

/-- When GDB is answered `OK`, memory holds the packet's bytes at the packet's address and is
otherwise as it was, and `m` returns them. -/
def StoresData (p : MemoryPacket) (atData : ℕ → UInt8) (h : Host Link) (d : Device) : Prop :=
  ∃ reply h', p.handle firmwareLink atData h = .ok (reply, h') ∧ (reply = .ok →
    ∃ d', h'.link.device = some d' ∧ d'.mem = overlay d.mem p.addr p.data ∧
      ∃ h'', gdbReadMemory firmwareLink p.addr p.len h' = .ok (.data (p.data.map some), h''))

section
variable {p : MemoryPacket} {atData : ℕ → UInt8} {h : Host Link} {d : Device}
  (hdev : h.link.device = some d) (hfree : d.inEndpoint = none) (hlo : 0x20001000 ≤ p.addr)
  (hhi : p.addr + p.len ≤ 0x20005000) (hfull : ¬ p.Refused)
include hdev hfree hlo hhi hfull

theorem StoresData.bytes (hstores : StoresData p atData h d) :
    (List.range p.len).map atData = p.data ∧ p.len ≤ 512 := by
  have hlen : p.data.length = p.len := p.data_length hfull
  obtain ⟨h₁, d₁, hwrite, hdev₁, hfree₁, hmem⟩ := stm32MemWrite_userRam hdev hfree hlo hhi atData
  have hhandle := MemoryPacket.handle_eq firmwareLink atData h hfull hwrite
  obtain ⟨h₂, hread⟩ := gdbReadMemory_userRam hdev₁ hfree₁ hlo hhi
  obtain ⟨reply, h', hreply, hstored⟩ := hstores
  obtain ⟨rfl, rfl⟩ := Prod.mk.inj (Except.ok.inj (hhandle.symm.trans hreply))
  obtain ⟨d', hdev', hmem', h'', hback⟩ := hstored rfl
  obtain rfl := Option.some.inj (hdev₁.symm.trans hdev')
  constructor
  · have hranges := congrArg (fun m => readRange m p.addr p.len) (hmem.symm.trans hmem')
    have hbytes : ((List.range p.len).map atData).length = p.len := by
      rw [List.length_map, List.length_range]
    have hleft := readRange_overlay d.mem p.addr ((List.range p.len).map atData)
    have hright := readRange_overlay d.mem p.addr p.data
    rw [hbytes] at hleft
    rw [hlen] at hright
    exact hleft.symm.trans (hranges.trans hright)
  · by_contra hlong
    rw [hread, if_pos (not_le.mp hlong)] at hback
    cases hback

theorem storesData_of_bytes (hbytes : (List.range p.len).map atData = p.data)
    (hle : p.len ≤ 512) : StoresData p atData h d := by
  have hlen : p.data.length = p.len := p.data_length hfull
  obtain ⟨h₁, d₁, hwrite, hdev₁, hfree₁, hmem⟩ := stm32MemWrite_userRam hdev hfree hlo hhi atData
  obtain ⟨h₂, hread⟩ := gdbReadMemory_userRam hdev₁ hfree₁ hlo hhi
  refine ⟨.ok, h₁, MemoryPacket.handle_eq firmwareLink atData h hfull hwrite,
    fun _ => ⟨d₁, hdev₁, by rw [hmem, hbytes], h₂, ?_⟩⟩
  rw [hread, if_neg (not_lt.mpr hle), hmem, hbytes, ← hlen, readRange_overlay]

end

/-- A packet for user RAM is refused, or the bytes at the vector's own address must be those of
the packet, and few enough to be read back in one packet. -/
theorem storesData_iff (p : MemoryPacket) (atData : ℕ → UInt8) (h : Host Link) (d : Device)
    (hdev : h.link.device = some d) (hfree : d.inEndpoint = none) (hlo : 0x20001000 ≤ p.addr)
    (hhi : p.addr + p.len ≤ 0x20005000) :
    StoresData p atData h d ↔
      p.Refused ∨ ((List.range p.len).map atData = p.data ∧ p.len ≤ 512) := by
  by_cases hshort : p.Refused
  · refine iff_of_true ⟨.e02, h, p.handle_refused firmwareLink atData h hshort, ?_⟩ (.inl hshort)
    exact fun hok => by cases hok
  · constructor
    · exact fun hstores => .inr (hstores.bytes hdev hfree hlo hhi hshort)
    · rintro (hyes | ⟨hbytes, hle⟩)
      · exact absurd hyes hshort
      · exact storesData_of_bytes hdev hfree hlo hhi hshort hbytes hle

/-- The byte `0x42` in hexadecimal, for user RAM. -/
def pokePacket : MemoryPacket := ⟨.hex, 0x20001000, 1, [0x34, 0x32]⟩

/-- The vector object begins with that byte. -/
theorem storesData_iff_poke :
    StoresData pokePacket (fun _ => 0x42) (.fresh blankMemory) (.initial blankMemory bootSymbols) ↔
      pokePacket.Refused ∨
        ((List.range 1).map (fun _ => (0x42 : UInt8)) = pokePacket.data ∧ 1 ≤ 512) :=
  storesData_iff pokePacket (fun _ => 0x42) _ _ rfl rfl (by decide) (by decide)

/-- The vector object begins with a zero, and zero is stored. -/
theorem not_storesData :
    ¬ StoresData pokePacket (fun _ => 0) (.fresh blankMemory) (.initial blankMemory bootSymbols) :=
  fun hstores => absurd (hstores.bytes rfl rfl (by decide) (by decide) (by decide)).1 (by decide)

end BluePill
