import BluePill.Host.GdbMemory
import BluePill.Host.GdbRegisters
import BluePill.Host.SectorStream

/-! What GDB is answered to writes over any link, and whether the device took what it was
handed. -/
namespace BluePill
open Lib

/-- The packets that write. `vFlashWrite` and `vFlashDone` go through the sector buffer: what a
request leaves there is handed over by a later one. -/
inductive WriteRequest
  | memory (p : MemoryPacket) (atData : ℕ → UInt8)
  | P (w : RegisterWrite)
  | vFlashWrite (addr : ℕ) (bin : List UInt8)
  | vFlashDone (lengthFirst : Bool)

/-- The place in the context of a number that is one of the registers of GDB. -/
def gdbRegister (reg : ℕ) : Option ℕ :=
  if reg ≤ 0x12 ∨ reg = 0x19 then some (contextIndex reg) else none

/-- The reply acknowledges that register `k` was written. -/
def Exchange.AcksRegister (e : Exchange) (k : ℕ) : Prop :=
  ∃ cmdHead ansHead, RegReadWriteHead.decode e.packet = some cmdHead ∧
    RegReadWriteHead.decode e.reply = some ansHead ∧
    cmdHead.cmd = DebugCommand.regsWrite.toByte ∧ cmdHead.cmd = ansHead.cmd ∧
    cmdHead.regIndex = ansHead.regIndex ∧ ansHead.regCount ≤ cmdHead.regCount ∧
    cmdHead.regIndex ≤ k ∧ k < cmdHead.regIndex + ansHead.regCount.toNat

/-- The one packet that writes register `k` is acknowledged. -/
def RegisterTaken {σ : Type} (interface : TargetInterface σ) (k : ℕ) (v : UInt32) (l : σ) : Prop :=
  RegReadWriteHead.decode (exchange interface (registerPacket k v) l).1 =
    some (regHeadFor .regsWrite k 1)

namespace WriteRequest

variable {σ : Type} (interface : TargetInterface σ)

def handle (q : WriteRequest) (t : Target σ) : Except Fault (GdbReply × Target σ) :=
  match q with
  | .memory p atData => do
    let (reply, h) ← p.handle interface atData t.host
    return (reply, { t with host := h })
  | .P w => do
    let (reply, h) ← gdbWriteRegister interface w.reg w.hex w.val t.host
    return (reply, { t with host := h })
  | .vFlashWrite addr bin => gdbFlashWrite interface addr bin t
  | .vFlashDone lengthFirst => gdbFlashDone interface lengthFirst t

/-- The packet lies in the buffer of the server, addresses have 32 bits, and the buffer goes on
behind a sign for eight characters. -/
def WellFormed : WriteRequest → Prop
  | .memory p _ => p.body.length ≤ pbufSize
  | .P w => 8 ≤ w.hex.length
  | .vFlashWrite addr bin => addr < 4294967296 ∧ bin.length ≤ pbufSize
  | .vFlashDone _ => True

/-- The replies in the log acknowledge every byte that the request hands over, or its register. -/
def Acknowledged (f : TargetFlash) (log : List Exchange) : WriteRequest → Prop
  | .memory p _ => AcksAll [(p.addr, p.data)] log
  | .P w => ∃ k, gdbRegister w.reg = some k ∧ ∃ e ∈ log, e.AcksRegister k
  | .vFlashWrite addr bin => AcksAll (sectorsOf f addr bin) log
  | .vFlashDone _ => AcksAll f.pending log

/-- A memory packet that is shorter than it says, or whose rounds are all acknowledged; a register
of GDB whose packet is acknowledged; a flash request that leaves the region, or all of whose
sectors' rounds are acknowledged. -/
def Taken (f : TargetFlash) (l : σ) : WriteRequest → Prop
  | .memory p atData => p.Refused ∨
      ∃ l', AllCarried interface (accessSizeFor p.addr p.len)
        [(p.addr, (List.range p.len).map atData)] l l'
  | .P w => ∃ k, gdbRegister w.reg = some k ∧ RegisterTaken interface k w.val l
  | .vFlashWrite addr bin => (bin ≠ [] ∧ ¬ InFlash addr bin.length) ∨
      ∃ l', AllCarried interface 2 (sectorsOf f addr bin) l l'
  | .vFlashDone _ => ∃ l', AllCarried interface 2 f.pending l l'

end WriteRequest

/-- GDB is answered: with `OK` when the device has acknowledged, during the request, everything
that it was handed, else with an error. -/
def TakenWhole {σ : Type} (interface : TargetInterface σ) (q : WriteRequest) (f : TargetFlash)
    (h : Host σ) : Prop :=
  ∃ reply t, q.handle (logged interface) ⟨[f], h.unlogged⟩ = .ok (reply, t) ∧
    ((reply = .ok ∧ q.Acknowledged f t.host.link.2) ∨ reply = .e01 ∨ reply = .e02 ∨ reply = .eff)

variable {σ : Type} {interface : TargetInterface σ} {f : TargetFlash} {h : Host σ}

/-- A request answered with `OK` was taken when it was acknowledged. -/
theorem takenWhole_of_ok {q : WriteRequest} {t : Target (σ × List Exchange)}
    (hrun : q.handle (logged interface) ⟨[f], h.unlogged⟩ = .ok (.ok, t)) :
    TakenWhole interface q f h ↔ q.Acknowledged f t.host.link.2 := by
  constructor
  · rintro ⟨reply, t', hreply, hcases⟩
    obtain ⟨rfl, rfl⟩ := Prod.mk.inj (Except.ok.inj (hrun.symm.trans hreply))
    rcases hcases with ⟨-, hacked⟩ | herr | herr | herr
    · exact hacked
    all_goals cases herr
  · exact fun hacked => ⟨.ok, t, hrun, .inl ⟨rfl, hacked⟩⟩

/-- From an empty log a request has acknowledged what it handed over exactly when all rounds were
acknowledged. -/
theorem memWriteAll_acksAll (interface : TargetInterface σ) (w : AccessWidth)
    (ps : List (ℕ × List UInt8))
    (hsmall : ∀ p ∈ ps, p.2.length < 4294967296) (h : Host σ) :
    ∃ h', memWriteAll (logged interface) w.bytes ps h.unlogged = .ok h' ∧
      (AcksAll ps h'.link.2 ↔ ∃ l', AllCarried interface w.bytes ps h.link l') := by
  obtain ⟨h', hwrite, -, hiff⟩ := memWriteAll_acks interface w hsmall h.unlogged
  refine ⟨h', hwrite, Iff.trans ?_ hiff⟩
  have hnone (y : ℕ) : acks h.unlogged.link.2 y = 0 := rfl
  unfold AcksAll
  simp only [hnone, Nat.zero_add]

theorem takenWhole_memory_iff (p : MemoryPacket) (atData : ℕ → UInt8)
    (hbody : p.body.length ≤ pbufSize) :
    TakenWhole interface (.memory p atData) f h ↔
      WriteRequest.Taken interface f h.link (.memory p atData) := by
  by_cases hrefused : p.Refused
  · refine iff_of_true ⟨.e02, ⟨[f], h.unlogged⟩, ?_, .inr (.inr (.inl rfl))⟩ (.inl hrefused)
    exact bind_of_ok (p.handle_refused (logged interface) atData h.unlogged hrefused)
  · have hlen : p.data.length = p.len := p.data_length hrefused
    have hsmall : p.len ≤ pbufSize := by
      obtain ⟨kind, addr, len, body⟩ := p
      cases kind with
      | hex =>
        have hfull : len ≤ body.length / 2 := not_lt.mp hrefused
        simp only at hbody ⊢
        omega
      | binary => exact (not_lt.mp hrefused).trans hbody
    have hpbuf : pbufSize = 1025 := rfl
    set data := (List.range p.len).map atData with hdata
    have hdataLen : data.length = p.len := by rw [hdata, List.length_map, List.length_range]
    obtain ⟨w, hw, -, -⟩ := accSize_eq p.addr p.len
    have hsize : accessSizeFor p.addr p.len = w.bytes := hw
    obtain ⟨h', hwrite, hiff⟩ := memWriteAll_acksAll interface w
      [(p.addr, data)] (by
        intro q hq
        obtain rfl := List.mem_singleton.mp hq
        show data.length < 4294967296
        omega) h
    have hhandle : p.handle (logged interface) atData h.unlogged = .ok (.ok, h') := by
      refine p.handle_eq (logged interface) atData h.unlogged hrefused fun src => ?_
      obtain ⟨⟨n, h₁⟩, hmem, hrest⟩ := bind_eq_ok.mp hwrite
      obtain rfl := Except.ok.inj hrest
      have hstm : stm32MemWrite (logged interface) p.addr src p.len atData h.unlogged = (do
          let (_, h) ← TargetSTM32F1.memWrite (logged interface) p.addr
            (accessSizeFor p.addr p.len) data h.unlogged
          return h) := rfl
      rw [hstm, hsize, bind_of_ok hmem]
      rfl
    have hacks : AcksAll [(p.addr, p.data)] h'.link.2 ↔ AcksAll [(p.addr, data)] h'.link.2 := by
      unfold AcksAll coveredBy
      simp only [List.map_cons, List.map_nil, hlen, hdataLen]
    show _ ↔ (p.Refused ∨ ∃ l', AllCarried interface (accessSizeFor p.addr p.len)
      [(p.addr, data)] h.link l')
    rw [or_iff_right hrefused, hsize, ← hiff, ← hacks]
    have hrun : WriteRequest.handle (logged interface) (.memory p atData) ⟨[f], h.unlogged⟩ =
        .ok (.ok, ⟨[f], h'⟩) := bind_of_ok hhandle
    exact takenWhole_of_ok hrun

theorem deviceRegister_of_gdbRegister {reg k : ℕ} (h : gdbRegister reg = some k) :
    deviceRegister reg = some k ∧ k ≤ 16 := by
  unfold gdbRegister at h
  split_ifs at h with hreg
  obtain rfl := Option.some.inj h
  unfold deviceRegister contextIndex
  split_ifs with h₁ h₂ h₃ h₄ <;> constructor <;> first | rfl | omega | (congr 1; omega)

theorem acksRegister_iff {k : ℕ} (hk : k ≤ 16) (v : UInt32) (reply : List UInt8) :
    Exchange.AcksRegister ⟨registerPacket k v, reply⟩ k ↔
      RegReadWriteHead.decode reply = some (regHeadFor .regsWrite k 1) := by
  have hpacket : RegReadWriteHead.decode (registerPacket k v) = some (regHeadFor .regsWrite k 1) := by
    have hread := readHead_reg (regHeadFor .regsWrite k 1) (toLE 4 v.toNat)
      (show k < 65536 by omega)
    unfold readHead at hread
    unfold registerPacket
    cases hdecode : RegReadWriteHead.decode ((regHeadFor .regsWrite k 1).encode ++ toLE 4 v.toNat) with
    | none =>
      rw [hdecode] at hread
      cases hread
    | some head =>
      rw [hdecode] at hread
      rw [Except.ok.inj hread]
  unfold Exchange.AcksRegister
  simp only [hpacket]
  constructor
  · rintro ⟨cmdHead, ansHead, hcmdHead, hansHead, -, hcmd, hindex, hcount, hlo, hhi⟩
    obtain rfl := Option.some.inj hcmdHead
    have hle : ansHead.regCount.toNat ≤ 1 := hcount
    have hone : ansHead.regCount = 1 := by
      apply UInt8.toNat_inj.mp
      show ansHead.regCount.toNat = 1
      have hregIndex : (regHeadFor .regsWrite k 1).regIndex = k := rfl
      omega
    rw [hansHead]
    obtain ⟨cmd, regCount, regIndex⟩ := ansHead
    simp only at hcmd hindex hone
    subst hone
    rw [← hcmd, ← hindex]
    rfl
  · intro hreply
    exact ⟨_, _, rfl, hreply, rfl, rfl, rfl, UInt8.le_refl _, Nat.le_refl k, Nat.lt_succ_self k⟩

theorem takenWhole_P_iff (w : RegisterWrite) (hdigits : 8 ≤ w.hex.length) :
    TakenWhole interface (.P w) f h ↔ WriteRequest.Taken interface f h.link (.P w) := by
  have hreplyOk {reply : GdbReply} {t : Target (σ × List Exchange)}
      (hrun : WriteRequest.handle (logged interface) (.P w) ⟨[f], h.unlogged⟩ = .ok (reply, t)) :
      reply = .ok := by
    obtain ⟨⟨r, h₁⟩, hwrite, hpair⟩ := bind_eq_ok.mp hrun
    obtain ⟨rfl, -⟩ := Prod.mk.inj (pure_eq_ok.mp hpair)
    obtain ⟨bytes, -, hrest⟩ := bind_eq_ok.mp hwrite
    obtain ⟨⟨s, h₂⟩, hreg, hpair'⟩ := bind_eq_ok.mp hrest
    obtain ⟨rfl, -⟩ := Prod.mk.inj (pure_eq_ok.mp hpair')
    have hs : s = 4 := by
      unfold stm32RegWrite at hreg
      split at hreg
      · obtain ⟨_, -, hpair''⟩ := bind_eq_ok.mp hreg
        exact (Prod.mk.inj (pure_eq_ok.mp hpair'')).1.symm
      · exact (Prod.mk.inj (Except.ok.inj hreg)).1.symm
    rw [hs]
    rfl
  have hrunOf {k : ℕ} (hk : gdbRegister w.reg = some k) :
      ∃ t, WriteRequest.handle (logged interface) (.P w) ⟨[f], h.unlogged⟩ = .ok (.ok, t) ∧
        t.host.link.2 =
        [⟨registerPacket k w.val, (exchange interface (registerPacket k w.val) h.link).1⟩] := by
    obtain ⟨hdevice, hle⟩ := deviceRegister_of_gdbRegister hk
    obtain ⟨n, h', hwrite, hlog⟩ : ∃ n h',
        TargetSTM32F1.regsWrite (logged interface) k [w.val] h.unlogged = .ok (n, h') ∧
          h'.link.2 = [⟨registerPacket k w.val,
            (exchange interface (registerPacket k w.val) h.link).1⟩] := by
      obtain ⟨n, g, hwrite⟩ := regsWrite_one (logged interface) (h := h.unlogged)
        (i := k) (by omega) w.val
      rw [show h.unlogged.link = (h.link, []) from rfl, exchange_logged] at hwrite
      exact ⟨n, _, hwrite, rfl⟩
    have hhex : unhexify w.hex 4 = .ok _ :=
      bind_of_ok (show readBytes w.hex 0 8 = .ok ((w.hex.drop 0).take 8) from if_pos (by omega))
    have hreg : stm32RegWrite (logged interface) w.reg w.val h.unlogged = .ok (4, h') := by
      unfold stm32RegWrite
      simp only [hdevice]
      exact bind_of_ok hwrite
    have hpacket : gdbWriteRegister (logged interface) w.reg w.hex w.val h.unlogged =
        .ok (.ok, h') := by
      unfold gdbWriteRegister
      rw [bind_of_ok hhex, bind_of_ok hreg]
      rfl
    exact ⟨⟨[f], h'⟩, bind_of_ok hpacket, hlog⟩
  constructor
  · rintro ⟨reply, t, hrun, hcases⟩
    obtain rfl := hreplyOk hrun
    rcases hcases with ⟨-, k, hk, e, he, hacks⟩ | herr | herr | herr
    · obtain ⟨t', hrun', hlog⟩ := hrunOf hk
      obtain ⟨-, rfl⟩ := Prod.mk.inj (Except.ok.inj (hrun.symm.trans hrun'))
      rw [hlog] at he
      obtain rfl := List.mem_singleton.mp he
      exact ⟨k, hk, (acksRegister_iff (deviceRegister_of_gdbRegister hk).2 _ _).mp hacks⟩
    all_goals cases herr
  · rintro ⟨k, hk, htaken⟩
    obtain ⟨t, hrun, hlog⟩ := hrunOf hk
    refine ⟨.ok, t, hrun, .inl ⟨rfl, k, hk, _, ?_,
      (acksRegister_iff (deviceRegister_of_gdbRegister hk).2 w.val _).mpr htaken⟩⟩
    rw [hlog]
    exact List.mem_singleton_self _

theorem takenWhole_vFlashWrite_iff (hf : f.IsStm32f1) {addr : ℕ} {bin : List UInt8}
    (haddr : addr < 4294967296) (hbin : bin.length ≤ pbufSize) :
    TakenWhole interface (.vFlashWrite addr bin) f h ↔
      WriteRequest.Taken interface f h.link (.vFlashWrite addr bin) := by
  have hsectors (src : List UInt8) : ∀ p ∈ sectorsOf f addr src, p.2.length < 4294967296 := by
    intro p hp
    rw [length_of_mem_stream hp, hf.allocate.bufSize]
    decide
  have htotal (src : List UInt8) : ∃ h',
      memWriteAll (logged interface) 2 (sectorsOf f addr src) h.unlogged = .ok h' ∧
        (AcksAll (sectorsOf f addr src) h'.link.2 ↔
          ∃ l', AllCarried interface 2 (sectorsOf f addr src) h.link l') :=
    memWriteAll_acksAll interface .half _ (hsectors src) h
  have hpbuf : pbufSize = 1025 := rfl
  by_cases hout : bin ≠ [] ∧ ¬ InFlash addr bin.length
  · obtain ⟨t, hwrite⟩ := targetFlashWrite_outside (logged interface) hf haddr
      (by omega) hout.1 hout.2 fun n => by
        obtain ⟨h', hn, -⟩ := htotal (bin.take n)
        exact ⟨h', hn⟩
    exact iff_of_true ⟨.eff, t, bind_of_ok hwrite, .inr (.inr (.inr rfl))⟩ (.inl hout)
  · show _ ↔ ((bin ≠ [] ∧ ¬ InFlash addr bin.length) ∨
      ∃ l', AllCarried interface 2 (sectorsOf f addr bin) h.link l')
    obtain ⟨h', hwrite, hiff⟩ := htotal bin
    obtain ⟨t, hrun, rfl⟩ := targetFlashWrite_inside hf
      (fun hne => not_not.mp fun hno => hout ⟨hne, hno⟩) hwrite
    have hhandle : WriteRequest.handle (logged interface) (.vFlashWrite addr bin)
        ⟨[f], h.unlogged⟩ = .ok (.ok, t) := by
      show gdbFlashWrite (logged interface) addr bin ⟨[f], h.unlogged⟩ = _
      unfold gdbFlashWrite
      rw [bind_of_ok hrun]
      rfl
    rw [or_iff_right hout, ← hiff]
    exact takenWhole_of_ok hhandle

/-- `flashCmd` is one exchange, whatever comes back. -/
theorem flashCmd_one (interface : TargetInterface σ) {h : Host σ} (command : FlashCommand)
    (address size : ℕ) :
    ∃ b g, TargetSTM32F1.flashCmd interface command address size h =
      .ok (b, ⟨g, h.inBuf.receive
          (exchange interface (flashHeadFor command address size).encode h.link).1,
        (exchange interface (flashHeadFor command address size).encode h.link).2⟩) := by
  set head := flashHeadFor command address size with hheadDef
  have hhead : head.encode.length = 12 := FlashCmdHead.encode_length _
  obtain ⟨g, hg, hgval⟩ := store_zero_ok h.outBuf head.encode (by rw [hhead]; decide)
  have htake : g.val.take head.encode.length = head.encode := by
    rw [hgval, List.take_left' rfl]
  have hsend := sendAndReceive_eq interface head.encode (h := { h with outBuf := g }) htake
  simp only [hhead] at hsend
  set reply := (exchange interface head.encode h.link).1 with hreply
  obtain ⟨cmdHead, hcmdHead⟩ : ∃ c, readHead FlashCmdHead.decode g.val = .ok c := by
    match hbytes : g.val, g.property with
    | _ :: _ :: _ :: _ :: _ :: _ :: _ :: _ :: _ :: _ :: _ :: _ :: _, _ => exact ⟨_, rfl⟩
  obtain ⟨ans, hansHead⟩ : ∃ a,
      readHead FlashAnsHead.decode (h.inBuf.receive reply).val = .ok a := by
    match hbytes : (h.inBuf.receive reply).val, (h.inBuf.receive reply).property with
    | _ :: _ :: _ :: _ :: _, _ => exact ⟨_, rfl⟩
  unfold TargetSTM32F1.flashCmd
  rw [bind_of_ok (show MakeHead.flashCmd h.outBuf command address size = .ok (12, g) from
    bind_of_ok hg)]
  simp only
  rw [bind_of_ok hsend]
  simp only
  split_ifs with hrx
  · exact ⟨false, g, rfl⟩
  · rw [bind_of_ok hcmdHead, bind_of_ok hansHead]
    split_ifs with hcmd hcommand
    · exact ⟨false, g, rfl⟩
    · exact ⟨false, g, rfl⟩
    · exact ⟨_, g, rfl⟩

/-- The packet that ends a download does not write memory. -/
theorem acks_detach (log : List Exchange) (reply : List UInt8) (y : ℕ) :
    acks (log ++ [⟨(flashHeadFor .detach 0 0).encode, reply⟩]) y = acks log y := by
  have hno : ¬ Exchange.Acks ⟨(flashHeadFor .detach 0 0).encode, reply⟩ y := fun h =>
    absurd h.1 (by decide)
  unfold acks
  rw [List.countP_append, List.countP_singleton, if_neg (by simpa using hno), Nat.add_zero]

/-- `target_flash_done` hands over what is buffered; only this can be acknowledged. -/
theorem targetFlashDone_logged {h h₁ : Host (σ × List Exchange)}
    (hwrite : memWriteAll (logged interface) 2 f.pending h = .ok h₁) :
    ∃ g h₂, targetFlashDone (logged interface) ⟨[f], h⟩ = .ok (0, ⟨[g], h₂⟩) ∧
      g.pending = [] ∧ ∀ y, acks h₂.link.2 y = acks h₁.link.2 y := by
  obtain ⟨g, hflush, hunbuffered⟩ := targetFlashDoneBuffered_eq (logged interface) hwrite
  obtain ⟨b, h₂, hdetach, hacks⟩ : ∃ b h₂,
      TargetSTM32F1.flashCmd (logged interface) .detach 0 0 h₁ = .ok (b, h₂) ∧
        ∀ y, acks h₂.link.2 y = acks h₁.link.2 y := by
    obtain ⟨b, out, hdetach⟩ := flashCmd_one (logged interface) (h := h₁) .detach 0 0
    rw [show h₁.link = (h₁.link.1, h₁.link.2) from rfl, exchange_logged] at hdetach
    exact ⟨b, _, hdetach, fun y => acks_detach h₁.link.2 _ y⟩
  exact ⟨g, h₂, targetFlashDone_one hflush hdetach, g.unbuffered_iff.mp hunbuffered, hacks⟩

theorem takenWhole_vFlashDone_iff (hf : f.IsStm32f1) (lengthFirst : Bool) :
    TakenWhole interface (.vFlashDone lengthFirst) f h ↔
      WriteRequest.Taken interface f h.link (.vFlashDone lengthFirst) := by
  obtain ⟨h₁, hwrite, hiff⟩ := memWriteAll_acksAll interface .half
    f.pending (by
      intro p hp
      rw [length_of_mem_pending hp, hf.bufSize]
      decide) h
  obtain ⟨g, h₂, hfirst, hnone, hacks⟩ := targetFlashDone_logged hwrite
  -- the second run finds nothing buffered
  have hnothing : memWriteAll (logged interface) 2 g.pending h₂ = .ok h₂ := by
    rw [hnone]
    rfl
  obtain ⟨g', h₃, hsecond, -, hacks'⟩ := targetFlashDone_logged hnothing
  have hrun : WriteRequest.handle (logged interface) (.vFlashDone lengthFirst)
      ⟨[f], h.unlogged⟩ = .ok (.ok, ⟨[g'], h₃⟩) := by
    show gdbFlashDone (logged interface) lengthFirst ⟨[f], h.unlogged⟩ = _
    unfold gdbFlashDone
    rw [bind_of_ok hfirst]
    simp only
    rw [bind_of_ok hsecond]
    cases lengthFirst <;> rfl
  have hsame (y : ℕ) : acks h₃.link.2 y = acks h₁.link.2 y := (hacks' y).trans (hacks y)
  show _ ↔ ∃ l', AllCarried interface 2 f.pending h.link l'
  rw [takenWhole_of_ok hrun, show (2 : ℕ) = AccessWidth.half.bytes from rfl, ← hiff]
  show AcksAll f.pending h₃.link.2 ↔ _
  unfold AcksAll
  simp only [hsame]

/-- Over any link, a request was taken as its answer says exactly when each of its packets was
acknowledged, or it is one that is refused. Smaller counts are not noticed. -/
theorem takenWhole_iff (interface : TargetInterface σ) (q : WriteRequest) (f : TargetFlash)
    (h : Host σ) (hf : f.IsStm32f1) (hq : q.WellFormed) :
    TakenWhole interface q f h ↔ q.Taken interface f h.link := by
  cases q with
  | memory p atData => exact takenWhole_memory_iff p atData hq
  | P w => exact takenWhole_P_iff w hq
  | vFlashWrite addr bin => exact takenWhole_vFlashWrite_iff hf hq.1 hq.2
  | vFlashDone lengthFirst => exact takenWhole_vFlashDone_iff hf lengthFirst

/-- A sector that begins with one byte of a program is buffered. -/
def bufferedFlash : TargetFlash :=
  { stm32f1Flash with
    buf := some ⟨0x42 :: List.replicate 1023 0xFF, by rw [List.length_cons, List.length_replicate]; rfl⟩
    bufAddr := 0x08004000 }

/-- The end of a download with that sector: taken where every packet is echoed, not over a dead
link. -/
theorem takenWhole_iff_done :
    TakenWhole echoLink (.vFlashDone false) bufferedFlash ⟨.zero, .zero, []⟩ ∧
      ¬ TakenWhole deadLink (.vFlashDone false) bufferedFlash ⟨.zero, .zero, ()⟩ := by
  constructor
  · apply (takenWhole_iff echoLink (.vFlashDone false) bufferedFlash ⟨.zero, .zero, []⟩
      ⟨rfl, rfl, rfl, rfl⟩ trivial).mpr
    have hdvd : AccessWidth.half.bytes ∣ (0x42 :: List.replicate 1023 0xFF : List UInt8).length := by
      rw [List.length_cons, List.length_replicate]
      decide
    obtain ⟨l', hcarried⟩ := writeCarried_echo 0x08004000 .half hdvd []
    exact ⟨l', .cons hcarried (.nil l')⟩
  · intro htaken
    obtain ⟨l', hcarried⟩ := (takenWhole_iff deadLink (.vFlashDone false) bufferedFlash
      ⟨.zero, .zero, ()⟩ ⟨rfl, rfl, rfl, rfl⟩ trivial).mp htaken
    cases hcarried with
    | cons hfirst _ => exact not_writeCarried_dead (List.cons_ne_nil _ _) hfirst

/-- Over a dead link one byte is answered with `OK`. -/
theorem not_takenWhole :
    ¬ TakenWhole deadLink (.memory pokePacket fun _ => 0x42) stm32f1Flash ⟨.zero, .zero, ()⟩ := by
  intro htaken
  rcases (takenWhole_memory_iff _ _ (by decide)).mp htaken with hrefused | ⟨l', hcarried⟩
  · exact absurd hrefused (by decide)
  · cases hcarried with
    | cons hfirst _ => exact not_writeCarried_dead (List.cons_ne_nil _ _) hfirst

end BluePill
