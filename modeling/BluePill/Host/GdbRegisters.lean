import BluePill.Host.Exchanges

/-! What GDB's register writes do: sequences of `P` and `G` packets against the firmware, and what
`p` and `g` report afterwards. -/
namespace BluePill
open Lib

/-- The context after the writes `ws`, in order. -/
def applyWrites (context : ContextData) (ws : List (ℕ × UInt32)) : ContextData :=
  ws.foldl (fun context w => context.setIfInBounds w.1 w.2) context

theorem savedReg_setIfInBounds (context : ContextData) {i : ℕ} (v : UInt32) (hi : i < 19) (j : ℕ) :
    savedReg (context.setIfInBounds i v) j = if i = j then v else savedReg context j := by
  rw [← set_eq_setIfInBounds context v hi]
  split_ifs with hij
  · rw [← hij, savedReg_set_self]
  · exact savedReg_set_ne context v hi hij

theorem savedReg_applyWrites_other (context : ContextData) {ws : List (ℕ × UInt32)}
    (hlt : ∀ w ∈ ws, w.1 < 19) {j : ℕ} (hne : ∀ w ∈ ws, w.1 ≠ j) :
    savedReg (applyWrites context ws) j = savedReg context j := by
  induction ws generalizing context with
  | nil => rfl
  | cons w ws ih =>
    refine (ih _ (fun v hv => hlt v (List.mem_cons_of_mem w hv))
      fun v hv => hne v (List.mem_cons_of_mem w hv)).trans ?_
    rw [savedReg_setIfInBounds context w.2 (hlt w List.mem_cons_self),
      if_neg (hne w List.mem_cons_self)]

/-- The last write to a register decides it. -/
theorem savedReg_applyWrites_last (context : ContextData) {before after : List (ℕ × UInt32)}
    {w : ℕ × UInt32} (hlt : ∀ v ∈ before ++ w :: after, v.1 < 19) (hne : ∀ v ∈ after, v.1 ≠ w.1) :
    savedReg (applyWrites context (before ++ w :: after)) w.1 = w.2 := by
  have hw : w ∈ before ++ w :: after := List.mem_append_right before List.mem_cons_self
  rw [applyWrites, List.foldl_append, List.foldl_cons]
  refine (savedReg_applyWrites_other _ (fun v hv => hlt v ?_) hne).trans ?_
  · exact List.mem_append_right before (List.mem_cons_of_mem w hv)
  · rw [savedReg_setIfInBounds _ _ (hlt w hw), if_pos rfl]

/-- A list with an entry for `j` has a last one. -/
theorem exists_last {α : Type} (key : α → ℕ) (ps : List α) {j : ℕ} (h : ∃ p ∈ ps, key p = j) :
    ∃ before p after, ps = before ++ p :: after ∧ key p = j ∧ ∀ q ∈ after, key q ≠ j := by
  induction ps with
  | nil =>
    obtain ⟨p, hp, -⟩ := h
    cases hp
  | cons p ps ih =>
    by_cases hlater : ∃ q ∈ ps, key q = j
    · obtain ⟨before, q, after, rfl, hq, hafter⟩ := ih hlater
      exact ⟨p :: before, q, after, rfl, hq, hafter⟩
    · obtain ⟨q, hq, hkey⟩ := h
      rcases List.mem_cons.mp hq with rfl | hq
      · exact ⟨[], q, ps, rfl, hkey, fun r hr hrkey => hlater ⟨r, hr, hrkey⟩⟩
      · exact absurd ⟨q, hq, hkey⟩ hlater

/-- Two sequences of writes to the same registers leave the same context when the last writes to
each register agree. -/
theorem applyWrites_eq_iff {α : Type} (context : ContextData) (key : α → ℕ) (f g : α → UInt32)
    {ps : List α} (hlt : ∀ p ∈ ps, key p < 19) :
    applyWrites context (ps.map fun p => (key p, f p)) =
        applyWrites context (ps.map fun p => (key p, g p)) ↔
      ∀ before p after, ps = before ++ p :: after → (∀ q ∈ after, key q ≠ key p) → f p = g p := by
  have hbound (v : α → UInt32) : ∀ w ∈ ps.map fun p => (key p, v p), w.1 < 19 := by
    intro w hw
    obtain ⟨p, hp, rfl⟩ := List.mem_map.mp hw
    exact hlt p hp
  have hother (v : α → UInt32) {qs : List α} {j : ℕ} (hne : ∀ q ∈ qs, key q ≠ j) :
      ∀ w ∈ qs.map fun p => (key p, v p), w.1 ≠ j := by
    intro w hw
    obtain ⟨q, hq, rfl⟩ := List.mem_map.mp hw
    exact hne q hq
  have hsplit {before after : List α} {p : α} (hps : ps = before ++ p :: after)
      (hafter : ∀ q ∈ after, key q ≠ key p) (v : α → UInt32) :
      savedReg (applyWrites context (ps.map fun p => (key p, v p))) (key p) = v p := by
    have hlt' := hbound v
    rw [hps, List.map_append, List.map_cons] at hlt' ⊢
    exact savedReg_applyWrites_last context hlt' (hother v hafter)
  constructor
  · intro heq before p after hps hafter
    have hreg := congrArg (fun c => savedReg c (key p)) heq
    exact (hsplit hps hafter f).symm.trans (hreg.trans (hsplit hps hafter g))
  · intro hlast
    apply savedReg_ext
    intro j _
    by_cases hwritten : ∃ p ∈ ps, key p = j
    · obtain ⟨before, p, after, hps, rfl, hafter⟩ := exists_last key ps hwritten
      rw [hsplit hps hafter f, hsplit hps hafter g]
      exact hlast before p after hps hafter
    · have hne : ∀ q ∈ ps, key q ≠ j := fun q hq hqj => hwritten ⟨q, hq, hqj⟩
      rw [savedReg_applyWrites_other context (hbound f) (hother f hne),
        savedReg_applyWrites_other context (hbound g) (hother g hne)]

section
variable {h : Host Link} {d : Device} {S R : List (List UInt8)}

/-- `regsWrite` of one word against a device that answers. -/
theorem regsWrite_answers (hat : h.link.At d S R) {i : ℕ} (hi : i ≤ maxRegIndex) (v : UInt32) :
    ∃ n h' S' R', TargetSTM32F1.regsWrite firmwareLink i [v] h = .ok (n, h') ∧
      h'.link.At { d with context := d.context.setIfInBounds i v } S' R' := by
  have hmax : maxRegIndex = 17 := rfl
  have hhead : (regHeadFor .regsWrite i 1).encode.length = 4 := RegReadWriteHead.encode_length _
  have hsize : (registerPacket i v).length = 8 := by
    rw [registerPacket, List.length_append, hhead, toLE_length]
  obtain ⟨n, g, hwrite⟩ := regsWrite_one firmwareLink (h := h) (i := i) (by omega) v
  obtain ⟨S', R', hat'⟩ := exchange_answers hat (registerPacket i v)
    (by rw [hsize]; decide) (usbDataOutCallback_regsWrite d v hi) (by
      rintro reply rfl
      rw [hhead]
      decide)
  exact ⟨n, _, S', R', hwrite, hat'⟩

end

/-- A `P` packet: the number of the register, the characters behind the sign, and the address of
the buffer that they are decoded into. -/
structure RegisterWrite where
  reg : ℕ
  hex : List UInt8
  val : UInt32

/-- The place in the context of a register number of GDB. -/
def contextIndex (reg : ℕ) : ℕ :=
  if reg = 0x11 ∨ reg = 0x12 then 13 else if reg = 0x19 then 16 else reg

/-- The word that eight digits stand for, low byte first. -/
def hexWord (hex : List UInt8) : UInt32 :=
  match unhexify hex 4 with
  | .ok bytes => UInt32.ofNat (ofLE bytes)
  | .error _ => 0

namespace RegisterWrite

/-- One of the registers of GDB, and a value of 32 bits. -/
def WellFormed (w : RegisterWrite) : Prop :=
  (w.reg ≤ 0x12 ∨ w.reg = 0x19) ∧ w.hex.length = 8

instance (w : RegisterWrite) : Decidable w.WellFormed := inferInstanceAs (Decidable (_ ∧ _))

def index (w : RegisterWrite) : ℕ := contextIndex w.reg

def value (w : RegisterWrite) : UInt32 := hexWord w.hex

variable {w : RegisterWrite}

theorem WellFormed.index_le (hw : w.WellFormed) : w.index ≤ 16 := by
  have hreg := hw.1
  unfold index contextIndex
  split_ifs <;> omega

theorem WellFormed.deviceRegister_eq (hw : w.WellFormed) :
    deviceRegister w.reg = some w.index := by
  have hreg := hw.1
  unfold deviceRegister index contextIndex
  split_ifs with h₁ h₂ h₃ h₄ <;> first | rfl | omega | (congr 1; omega)

end RegisterWrite

/-- The packets `P n=value` and `G XX`. -/
inductive RegisterPacket
  | P (w : RegisterWrite)
  | G (hex : List UInt8) (alloca : UInt32)

namespace RegisterPacket

/-- What a packet asks to be written. -/
def writes : RegisterPacket → List (ℕ × UInt32)
  | .P w => [(w.index, w.value)]
  | .G hex _ => (List.range 16).map fun i => (i, hexWord (hex.drop (8 * i)))

variable {σ : Type} (interface : TargetInterface σ)

def handle (q : RegisterPacket) (h : Host σ) : Except Fault (GdbReply × Host σ) :=
  match q with
  | .P w => gdbWriteRegister interface w.reg w.hex w.val h
  | .G hex alloca => gdbWriteRegisters hex alloca h

def handleAll : List RegisterPacket → Host σ → Except Fault (List GdbReply × Host σ)
  | [], h => .ok ([], h)
  | q :: qs, h => do
    let (reply, h) ← q.handle interface h
    let (replies, h) ← handleAll qs h
    return (reply :: replies, h)

end RegisterPacket

/-- `G` decodes into an address below 256. -/
theorem gdbWriteRegisters_faults {σ : Type} (hex : List UInt8) (alloca : UInt32) (h : Host σ) :
    ∃ e, gdbWriteRegisters hex alloca h = .error e := by
  have hlow : ¬ hostMapped alloca.toUInt8.toNat := by
    have hbyte := alloca.toUInt8.toNat_lt
    unfold hostMapped
    omega
  unfold gdbWriteRegisters
  cases unhexify hex targetRegsSize with
  | error e => exact ⟨e, rfl⟩
  | ok bytes => exact ⟨.outOfBounds, by simp only [if_pos hlow]; rfl⟩

theorem handleAll_of_G {σ : Type} (interface : TargetInterface σ) {qs : List RegisterPacket}
    {hex : List UInt8} {alloca : UInt32} (hG : .G hex alloca ∈ qs) (h : Host σ) :
    ∃ e, RegisterPacket.handleAll interface qs h = .error e := by
  induction qs generalizing h with
  | nil => cases hG
  | cons q qs ih =>
    unfold RegisterPacket.handleAll
    cases hq : q.handle interface h with
    | error e => exact ⟨e, rfl⟩
    | ok r =>
      rcases List.mem_cons.mp hG with rfl | hrest
      · obtain ⟨e, he⟩ := gdbWriteRegisters_faults hex alloca h
        cases he.symm.trans hq
      · obtain ⟨e, he⟩ := ih hrest r.2
        exact ⟨e, (bind_of_ok rfl).trans (bind_of_error he)⟩

section
variable {h : Host Link} {d : Device} {S R : List (List UInt8)}

/-- `P` puts the address of its buffer into the context. -/
theorem gdbWriteRegister_answers (hat : h.link.At d S R) {w : RegisterWrite} (hw : w.WellFormed) :
    ∃ h' S' R', gdbWriteRegister firmwareLink w.reg w.hex w.val h = .ok (.ok, h') ∧
      h'.link.At { d with context := d.context.setIfInBounds w.index w.val } S' R' := by
  have hmax : maxRegIndex = 17 := rfl
  have hle := hw.index_le
  obtain ⟨n, h', S', R', hwrite, hat'⟩ := regsWrite_answers hat (i := w.index) (by omega) w.val
  refine ⟨h', S', R', ?_, hat'⟩
  have hhex : unhexify w.hex 4 = .ok _ :=
    bind_of_ok (show readBytes w.hex 0 8 = .ok ((w.hex.drop 0).take 8) from
      if_pos (by rw [hw.2]))
  unfold gdbWriteRegister
  rw [bind_of_ok hhex]
  unfold stm32RegWrite
  simp only [hw.deviceRegister_eq]
  rw [bind_of_ok hwrite]
  rfl

theorem handleAll_writes (hat : h.link.At d S R) {ws : List RegisterWrite}
    (hwf : ∀ w ∈ ws, w.WellFormed) :
    ∃ replies h' S' R',
      RegisterPacket.handleAll firmwareLink (ws.map .P) h = .ok (replies, h') ∧
        (∀ r ∈ replies, r = .ok) ∧
        h'.link.At { d with context := applyWrites d.context (ws.map fun w => (w.index, w.val)) }
          S' R' := by
  induction ws generalizing h d S R with
  | nil => exact ⟨[], h, S, R, rfl, by simp, hat⟩
  | cons w ws ih =>
    obtain ⟨h₁, S₁, R₁, hfirst, hat₁⟩ :=
      gdbWriteRegister_answers hat (hwf w List.mem_cons_self)
    obtain ⟨replies, h₂, S₂, R₂, hrest, hok, hat₂⟩ :=
      ih hat₁ fun v hv => hwf v (List.mem_cons_of_mem w hv)
    refine ⟨.ok :: replies, h₂, S₂, R₂, ?_, ?_, hat₂⟩
    · exact (bind_of_ok hfirst).trans (bind_of_ok hrest)
    · intro r hr
      rcases List.mem_cons.mp hr with rfl | hr
      · rfl
      · exact hok r hr

end

/-- Every packet is answered `OK`. -/
def AnsweredOk (qs : List RegisterPacket) (h h' : Host Link) : Prop :=
  ∃ replies, RegisterPacket.handleAll firmwareLink qs h = .ok (replies, h') ∧
    ∀ r ∈ replies, r = .ok

/-- After packets that are answered `OK` the saved context holds what they wrote: the last write
to a register decides it, and the other registers are as they were. -/
def ContextWritten (qs : List RegisterPacket) (h : Host Link) (d : Device) : Prop :=
  ∀ h', AnsweredOk qs h h' → ∃ d', h'.link.device = some d' ∧
    d'.context = applyWrites d.context (qs.flatMap RegisterPacket.writes)

/-- `p` with each number of register `i`, and `g`, report the word `v`. -/
def Reports (h : Host Link) (i : ℕ) (v : UInt32) : Prop :=
  (∀ n, (n ≤ 0x12 ∨ n = 0x19) → contextIndex n = i → ∃ fuel h',
    gdbReadRegister firmwareLink fuel n h = .ok (.data ((toLE 4 v.toNat).map some), h')) ∧
  (i < 16 → ∃ fuel file h', gdbReadRegisters firmwareLink fuel h = .ok (.data file, h') ∧
    (file.drop (4 * i)).take 4 = (toLE 4 v.toNat).map some)

/-- Packets that are answered `OK` change the context as they ask for, and `p` and `g` report it
afterwards. -/
def WritesTakeEffect (qs : List RegisterPacket) (h : Host Link) (d : Device) : Prop :=
  ContextWritten qs h d ∧ ∀ h', AnsweredOk qs h h' →
    ∀ w ∈ qs.flatMap RegisterPacket.writes,
      Reports h' w.1 (savedReg (applyWrites d.context (qs.flatMap RegisterPacket.writes)) w.1)

/-- One byte of a register arrives, so `p` never reports four. -/
theorem not_reports (h : Host Link) {w : RegisterWrite} (hw : w.WellFormed) (v : UInt32) :
    ¬ Reports h w.index v := by
  rintro ⟨hp, -⟩
  obtain ⟨fuel, h', hread⟩ := hp w.reg hw.1 rfl
  unfold gdbReadRegister stm32RegRead at hread
  simp only [hw.deviceRegister_eq] at hread
  obtain ⟨⟨s, stored, h₁⟩, hstored, hrest⟩ := bind_eq_ok.mp hread
  obtain ⟨⟨regs, h₂⟩, hregs, hpair⟩ := bind_eq_ok.mp hstored
  have hlen : regs.length ≤ 1 := regsRead_length (by decide) hregs
  obtain ⟨rfl, hrest'⟩ := Prod.mk.inj (pure_eq_ok.mp hpair)
  obtain ⟨rfl, -⟩ := Prod.mk.inj hrest'
  obtain ⟨val, hval, hreply⟩ := bind_eq_ok.mp hrest
  have hdata := (Prod.mk.inj (pure_eq_ok.mp hreply)).1
  rw [if_pos (show 4 > 0 by decide)] at hdata
  have hbytes : val.take 4 = (toLE 4 v.toNat).map some := GdbReply.data.inj hdata
  have hnone : (val.take 4)[1]? = some none := by
    rw [List.getElem?_take_of_lt (by decide)]
    exact hostBuffer_rest hval (by rw [List.length_map]; exact hlen) (by decide)
  rw [hbytes, List.getElem?_map] at hnone
  obtain ⟨b, -, hb⟩ := Option.map_eq_some_iff.mp hnone
  cases hb

theorem eq_map_P {qs : List RegisterPacket} (hG : ¬ ∃ hex alloca, .G hex alloca ∈ qs) :
    ∃ ws : List RegisterWrite, qs = ws.map .P := by
  induction qs with
  | nil => exact ⟨[], rfl⟩
  | cons q qs ih =>
    obtain ⟨ws, rfl⟩ := ih fun ⟨hex, alloca, hmem⟩ => hG ⟨hex, alloca, List.mem_cons_of_mem q hmem⟩
    cases q with
    | P w => exact ⟨w :: ws, rfl⟩
    | G hex alloca => exact absurd ⟨hex, alloca, List.mem_cons_self⟩ hG

theorem flatMap_writes (ws : List RegisterWrite) :
    (ws.map RegisterPacket.P).flatMap RegisterPacket.writes =
      ws.map fun w => (w.index, w.value) := by
  induction ws with
  | nil => rfl
  | cons w ws ih => rw [List.map_cons, List.flatMap_cons, ih]; rfl

/-- The last word written to each register is the address of the packet's buffer. -/
def LastWordsAre (qs : List RegisterPacket) : Prop :=
  ∀ before w after, qs = before ++ .P w :: after →
    (∀ v, .P v ∈ after → v.index ≠ w.index) → w.val = w.value

theorem lastWordsAre_iff (ws : List RegisterWrite) :
    LastWordsAre (ws.map .P) ↔ ∀ before w after, ws = before ++ w :: after →
      (∀ v ∈ after, v.index ≠ w.index) → w.val = w.value := by
  constructor
  · rintro h before w after rfl hafter
    refine h (before.map .P) w (after.map .P) (by simp) fun v hv => ?_
    obtain ⟨u, hu, huv⟩ := List.mem_map.mp hv
    exact RegisterPacket.P.inj huv ▸ hafter u hu
  · intro h before w after hws hafter
    obtain ⟨before', rest, rfl, rfl, hrest⟩ := List.map_eq_append_iff.mp hws
    obtain ⟨w', after', rfl, hw, rfl⟩ := List.map_eq_cons_iff.mp hrest
    obtain rfl := RegisterPacket.P.inj hw
    exact h before' w' after' rfl fun v hv => hafter v (List.mem_map_of_mem hv)

section
variable {h : Host Link} {d : Device} (hdev : h.link.device = some d)
  (hfree : d.inEndpoint = none)
include hdev hfree

theorem contextWritten_iff {ws : List RegisterWrite} (hwf : ∀ w ∈ ws, w.WellFormed) :
    ContextWritten (ws.map .P) h d ↔ LastWordsAre (ws.map .P) := by
  obtain ⟨replies, h₁, S, R, hall, hok, hat⟩ :=
    handleAll_writes (Link.at_of_device hdev hfree) hwf
  obtain ⟨e, hdev₁, -, htarget⟩ := hat.device
  have hlt : ∀ w ∈ ws, w.index < 19 := fun w hw => by
    have hle := (hwf w hw).index_le
    omega
  rw [lastWordsAre_iff,
    ← applyWrites_eq_iff d.context RegisterWrite.index RegisterWrite.val RegisterWrite.value hlt]
  constructor
  · intro hwritten
    obtain ⟨d', hdev', hcontext⟩ := hwritten h₁ ⟨replies, hall, hok⟩
    rw [flatMap_writes] at hcontext
    obtain rfl := Option.some.inj (hdev₁.symm.trans hdev')
    exact (context_of_target htarget).symm.trans hcontext
  · rintro heq h' ⟨replies', hall', -⟩
    obtain ⟨-, rfl⟩ := Prod.mk.inj (Except.ok.inj (hall.symm.trans hall'))
    refine ⟨e, hdev₁, ?_⟩
    rw [flatMap_writes]
    exact (context_of_target htarget).trans heq

/-- Of packets to an honest device, none or with a `G` among them, which is never answered, the
property holds; after any others `p` reports three bytes that were never stored. The context
alone is right when the last word written to each register happens to be the address of the
packet's buffer. -/
theorem writesTakeEffect_iff (qs : List RegisterPacket) (hwf : ∀ w, .P w ∈ qs → w.WellFormed) :
    (WritesTakeEffect qs h d ↔ qs = [] ∨ ∃ hex alloca, .G hex alloca ∈ qs) ∧
      (ContextWritten qs h d ↔ (∃ hex alloca, .G hex alloca ∈ qs) ∨ LastWordsAre qs) := by
  by_cases hG : ∃ hex alloca, .G hex alloca ∈ qs
  · obtain ⟨hex, alloca, hmem⟩ := hG
    have hfault : ∀ h', ¬ AnsweredOk qs h h' := by
      rintro h' ⟨replies, hall, -⟩
      obtain ⟨e, he⟩ := handleAll_of_G firmwareLink hmem h
      cases he.symm.trans hall
    have hcontext : ContextWritten qs h d := fun h' hok => absurd hok (hfault h')
    exact ⟨iff_of_true ⟨hcontext, fun h' hok => absurd hok (hfault h')⟩ (.inr ⟨hex, alloca, hmem⟩),
      iff_of_true hcontext (.inl ⟨hex, alloca, hmem⟩)⟩
  · obtain ⟨ws, rfl⟩ := eq_map_P hG
    have hwf' : ∀ w ∈ ws, w.WellFormed := fun w hw => hwf w (List.mem_map_of_mem hw)
    have hcontext := contextWritten_iff hdev hfree hwf'
    refine ⟨⟨fun heffect => .inl ?_, ?_⟩, hcontext.trans (or_iff_right hG).symm⟩
    · cases ws with
      | nil => rfl
      | cons w ws =>
        obtain ⟨replies, h₁, S, R, hall, hok, -⟩ :=
          handleAll_writes (Link.at_of_device hdev hfree) hwf'
        have hreports := heffect.2 h₁ ⟨replies, hall, hok⟩ (w.index, w.value)
          (List.mem_flatMap.mpr ⟨.P w, List.mem_cons_self, List.mem_cons_self⟩)
        exact absurd hreports (not_reports h₁ (hwf' w List.mem_cons_self) _)
    · rintro (hnil | hyes)
      · rw [List.map_eq_nil_iff] at hnil
        subst hnil
        exact ⟨hcontext.mpr fun before w after hws => by simp at hws, fun _ _ w hw => by cases hw⟩
      · exact absurd hyes hG

end

/-- `P0=ddccbbaa`, decoded at `0x0061ff00`. -/
def pokeRegister : RegisterWrite :=
  ⟨0, [0x64, 0x64, 0x63, 0x63, 0x62, 0x62, 0x61, 0x61], 0x0061ff00⟩

theorem writesTakeEffect_iff_poke :
    (WritesTakeEffect [.P pokeRegister] (.fresh blankMemory) (.initial blankMemory bootSymbols) ↔
        [RegisterPacket.P pokeRegister] = [] ∨
          ∃ hex alloca, .G hex alloca ∈ [RegisterPacket.P pokeRegister]) ∧
      (ContextWritten [.P pokeRegister] (.fresh blankMemory) (.initial blankMemory bootSymbols) ↔
        (∃ hex alloca, .G hex alloca ∈ [RegisterPacket.P pokeRegister]) ∨
          LastWordsAre [.P pokeRegister]) :=
  writesTakeEffect_iff rfl rfl _ fun w hw => by
    obtain rfl := RegisterPacket.P.inj (List.mem_singleton.mp hw)
    decide

/-- Register 0 holds `0x0061ff00` afterwards, and not `0xaabbccdd`. -/
theorem not_writesTakeEffect :
    ¬ WritesTakeEffect [.P pokeRegister] (.fresh blankMemory)
      (.initial blankMemory bootSymbols) := by
  have hiff : ContextWritten ([pokeRegister].map .P) (.fresh blankMemory)
      (.initial blankMemory bootSymbols) ↔ LastWordsAre ([pokeRegister].map .P) :=
    contextWritten_iff rfl rfl fun w hw => by
      obtain rfl := List.mem_singleton.mp hw
      decide
  intro heffect
  have hword := hiff.mp heffect.1 [] pokeRegister [] rfl fun v hv => by cases hv
  exact absurd hword (by decide)

end BluePill
