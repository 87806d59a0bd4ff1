import BluePill.Lib.RoundLoops
import BluePill.Host.BreakpointLists
import BluePill.Host.CallRuns
import BluePill.Host.WriteAcks

/-! The loops of `TargetSTM32F1.cpp` with their `break`s: none for each `break`, and the count that the
loop advances by otherwise. A copy that leaves its array goes on behind it, and a log keeps what
each round that advances has used of `_in`. -/
namespace BluePill
open Lib

/-- A round that advances: the bytes received in its exchange, and the bytes from the front of `_in`
that it has used. -/
structure Use where
  received : ℕ
  used : ℕ
  deriving DecidableEq, Repr

namespace TargetSTM32F1

variable {σ : Type} (interface : TargetInterface σ)

def memReadBody (overrun : Overrun) (address accessSize total offset : ℕ)
    (s : List UInt8 × Host σ × List Use) :
    Except Fault (Option ℕ × List UInt8 × Host σ × List Use) := do
  let (data, h, uses) := s
  let remain := total - offset
  let (cmdHeadSize, out) ←
    MakeHead.memReadCmd h.outBuf ((address + offset) % 4294967296) accessSize (remain / accessSize)
  let h := { h with outBuf := out }
  if cmdHeadSize = 0 then return (none, data, h, uses)
  let (rxSize, h) ← sendAndReceive interface cmdHeadSize h
  if rxSize < MemReadWriteHead.size then return (none, data, h, uses)
  let cmdHead ← readHead MemReadWriteHead.decode h.outBuf.val
  let ansHead ← readHead MemReadWriteHead.decode h.inBuf.val
  if ¬ headsAgree cmdHead ansHead then return (none, data, h, uses)
  if ansHead.byteCount = 0 then return (none, data, h, uses)
  let readCount := if ansHead.byteCount < remain then ansHead.byteCount else remain
  let bytes ← overrun.load h.inBuf.val MemReadWriteHead.size readCount
  return (some ansHead.byteCount, data ++ bytes, h,
    uses ++ [⟨rxSize, MemReadWriteHead.size + readCount⟩])

def memWriteBody (address accessSize : ℕ) (dataToWrite : List UInt8) (offset : ℕ)
    (s : Host σ × List Use) : Except Fault (Option ℕ × Host σ × List Use) := do
  let (h, uses) := s
  let remain := dataToWrite.length - offset
  if accessSize = 0 then throw .divisionByZero
  let (cmdHeadSize, out) ← MakeHead.memWriteCmd h.outBuf ((address + offset) % 4294967296)
    accessSize (remain / accessSize)
  let h := { h with outBuf := out }
  if cmdHeadSize = 0 then return (none, h, uses)
  let cmdHead ← readHead MemReadWriteHead.decode h.outBuf.val
  let bytes ← readBytes dataToWrite offset cmdHead.byteCount
  let out ← h.outBuf.store cmdHeadSize bytes
  let (rxSize, h) ← sendAndReceive interface (cmdHeadSize + cmdHead.byteCount) { h with outBuf := out }
  let ansHead ← readHead MemReadWriteHead.decode h.inBuf.val
  if ¬ headsAgree cmdHead ansHead then return (none, h, uses)
  if ansHead.byteCount = 0 then return (none, h, uses)
  if ansHead.byteCount > cmdHead.byteCount then return (none, h, uses)
  return (some ansHead.byteCount, h, uses ++ [⟨rxSize, MemReadWriteHead.size⟩])

def regsReadBody (regIndex total offset : ℕ) (s : List UInt32 × Host σ × List Use) :
    Except Fault (Option ℕ × List UInt32 × Host σ × List Use) := do
  let (regs, h, uses) := s
  let remain := total - offset
  let (cmdHeadSize, out) ← MakeHead.regsRead h.outBuf (offset / 4 + regIndex) (remain / 4)
  let (rxSize, h) ← sendAndReceive interface cmdHeadSize { h with outBuf := out }
  if rxSize < RegReadWriteHead.size then return (none, regs, h, uses)
  let cmdHead ← readHead RegReadWriteHead.decode h.outBuf.val
  let ansHead ← readHead RegReadWriteHead.decode h.inBuf.val
  if cmdHead.cmd ≠ ansHead.cmd then return (none, regs, h, uses)
  if cmdHead.regIndex ≠ ansHead.regIndex then return (none, regs, h, uses)
  if cmdHead.regCount < ansHead.regCount then return (none, regs, h, uses)
  let count := ansHead.regCount.toNat
  let bytes ← readBytes h.inBuf.val RegReadWriteHead.size (count * 4)
  return (some (count * 4), leWords bytes count ++ regs.drop count, h,
    uses ++ [⟨rxSize, RegReadWriteHead.size + count * 4⟩])

def regsWriteBody (overrun : Overrun) (regIndex : ℕ) (regsToWrite : List UInt32) (offset : ℕ)
    (s : Host σ × List Use) : Except Fault (Option ℕ × Host σ × List Use) := do
  let (h, uses) := s
  let (cmdHeadSize, out) ← MakeHead.regsWrite h.outBuf (offset / 4 + regIndex) regsToWrite
  let cmdHead ← readHead RegReadWriteHead.decode out.val
  let count := cmdHead.regCount.toNat
  let bytes ← overrun.load (regsToWrite.flatMap fun v => toLE 4 v.toNat) offset (count * 4)
  let out ← out.store cmdHeadSize bytes
  let (rxSize, h) ← sendAndReceive interface (cmdHeadSize + count * 4) { h with outBuf := out }
  if rxSize < RegReadWriteHead.size then return (none, h, uses)
  let ansHead ← readHead RegReadWriteHead.decode h.inBuf.val
  if cmdHead.cmd ≠ ansHead.cmd then return (none, h, uses)
  if cmdHead.regIndex ≠ ansHead.regIndex then return (none, h, uses)
  if ansHead.regCount = 0 then return (none, h, uses)
  if cmdHead.regCount < ansHead.regCount then return (none, h, uses)
  return (some (ansHead.regCount.toNat * 4), h, uses ++ [⟨rxSize, RegReadWriteHead.size⟩])

end TargetSTM32F1

section
variable {σ : Type} (interface : TargetInterface σ)

theorem memReadBody_erase (a s total offset : ℕ) (t : List UInt8 × Host σ × List Use) :
    (fun r => (r.1.getD 0, r.2.1, r.2.2.1)) <$>
        TargetSTM32F1.memReadBody interface .stops a s total offset t =
      TargetSTM32F1.memReadRound interface a s total offset (t.1, t.2.1) := by
  obtain ⟨data, h, uses⟩ := t
  unfold TargetSTM32F1.memReadBody TargetSTM32F1.memReadRound
  refine map_bind_congr fun made => map_ite_congr rfl (map_bind_congr fun received => ?_)
  refine map_ite_congr rfl (map_bind_congr fun cmdHead => map_bind_congr fun ansHead => ?_)
  refine map_ite_congr rfl (map_ite_congr rfl (map_bind_congr fun bytes => ?_))
  rfl

theorem memWriteBody_erase (a s : ℕ) (data : List UInt8) (offset : ℕ) (t : Host σ × List Use) :
    (fun r => (r.1.getD 0, r.2.1)) <$> TargetSTM32F1.memWriteBody interface a s data offset t =
      TargetSTM32F1.memWriteRound interface a s data offset t.1 := by
  obtain ⟨h, uses⟩ := t
  unfold TargetSTM32F1.memWriteBody TargetSTM32F1.memWriteRound
  refine map_ite_congr rfl (map_bind_congr fun made => map_ite_congr rfl ?_)
  refine map_bind_congr fun cmdHead => map_bind_congr fun bytes => map_bind_congr fun out => ?_
  refine map_bind_congr fun received => map_bind_congr fun ansHead => ?_
  exact map_ite_congr rfl (map_ite_congr rfl (map_ite_congr rfl rfl))

theorem regsReadBody_erase (k total offset : ℕ) (t : List UInt32 × Host σ × List Use) :
    (fun r => (r.1, r.2.1, r.2.2.1)) <$> TargetSTM32F1.regsReadBody interface k total offset t =
      TargetSTM32F1.regsReadRound interface k total offset (t.1, t.2.1) := by
  obtain ⟨regs, h, uses⟩ := t
  unfold TargetSTM32F1.regsReadBody TargetSTM32F1.regsReadRound
  refine map_bind_congr fun made => map_bind_congr fun received => map_ite_congr rfl ?_
  refine map_bind_congr fun cmdHead => map_bind_congr fun ansHead => ?_
  refine map_ite_congr rfl (map_ite_congr rfl (map_ite_congr rfl ?_))
  exact map_bind_congr fun bytes => rfl

theorem regsWriteBody_erase (k : ℕ) (v : List UInt32) (offset : ℕ) (t : Host σ × List Use) :
    (fun r => (r.1.getD 0, r.2.1)) <$>
        TargetSTM32F1.regsWriteBody interface .stops k v offset t =
      TargetSTM32F1.regsWriteRound interface k v offset t.1 := by
  obtain ⟨h, uses⟩ := t
  unfold TargetSTM32F1.regsWriteBody TargetSTM32F1.regsWriteRound
  refine map_bind_congr fun made => map_bind_congr fun cmdHead => map_bind_congr fun bytes => ?_
  refine map_bind_congr fun out => map_bind_congr fun received => map_ite_congr rfl ?_
  refine map_bind_congr fun ansHead => ?_
  exact map_ite_congr rfl (map_ite_congr rfl (map_ite_congr rfl (map_ite_congr rfl rfl)))

end

section
variable {σ : Type} (interface : TargetInterface σ) (overrun : Overrun)

theorem Overrun.load_failsLess (list : List UInt8) (first n : ℕ) :
    FailsLess (Overrun.stops.load list first n) (overrun.load list first n) := by
  cases overrun with
  | stops => exact .refl _
  | goesOn behind =>
    intro bytes hbytes
    have hlen : bytes.length = n := readBytes_length hbytes
    unfold load readBytes at hbytes
    split_ifs at hbytes with hfits
    obtain rfl := Except.ok.inj hbytes
    apply congrArg Except.ok
    apply List.ext_getElem
    · rw [List.length_map, List.length_range, hlen]
    · intro i hi hi'
      rw [List.getElem_map, List.getElem_range, List.getElem_take, List.getElem_drop,
        List.getElem?_eq_getElem, Option.getD_some]

theorem memReadBody_advances (a s total offset : ℕ) (t : List UInt8 × Host σ × List Use) :
    Ensures (TargetSTM32F1.memReadBody interface overrun a s total offset t)
      fun r => r.1 ≠ some 0 := by
  unfold TargetSTM32F1.memReadBody
  refine .bind (.any _) fun made _ => .ite (fun _ => .ok nofun) fun _ => ?_
  refine .bind (.any _) fun received _ => .ite (fun _ => .ok nofun) fun _ => ?_
  refine .bind (.any _) fun cmdHead _ => .bind (.any _) fun ansHead _ => ?_
  refine .ite (fun _ => .ok nofun) fun _ => .ite (fun _ => .ok nofun) fun hne => ?_
  exact .bind (.any _) fun bytes _ => .ok fun hzero => hne (Option.some.inj hzero)

theorem memReadBody_failsLess (a s total offset : ℕ) (t : List UInt8 × Host σ × List Use) :
    FailsLess (TargetSTM32F1.memReadBody interface .stops a s total offset t)
      (TargetSTM32F1.memReadBody interface overrun a s total offset t) := by
  unfold TargetSTM32F1.memReadBody
  refine .bind (.refl _) fun made => .ite (.refl _) (.bind (.refl _) fun received => ?_)
  refine .ite (.refl _) (.bind (.refl _) fun cmdHead => .bind (.refl _) fun ansHead => ?_)
  refine .ite (.refl _) (.ite (.refl _) (.bind ?_ fun bytes => .refl _))
  exact overrun.load_failsLess _ _ _

theorem memWriteBody_advances (a s : ℕ) (data : List UInt8) (offset : ℕ) (t : Host σ × List Use) :
    Ensures (TargetSTM32F1.memWriteBody interface a s data offset t) fun r => r.1 ≠ some 0 := by
  unfold TargetSTM32F1.memWriteBody
  refine .ite (fun _ => .error _) fun _ => .bind (.any _) fun made _ => ?_
  refine .ite (fun _ => .ok nofun) fun _ => .bind (.any _) fun cmdHead _ => ?_
  refine .bind (.any _) fun bytes _ => .bind (.any _) fun out _ => ?_
  refine .bind (.any _) fun received _ => ?_
  refine .bind (.any _) fun ansHead _ => .ite (fun _ => .ok nofun) fun _ => ?_
  refine .ite (fun _ => .ok nofun) fun hne => .ite (fun _ => .ok nofun) fun _ => ?_
  exact .ok fun hzero => hne (Option.some.inj hzero)

theorem regsWriteBody_advances (k : ℕ) (v : List UInt32) (offset : ℕ) (t : Host σ × List Use) :
    Ensures (TargetSTM32F1.regsWriteBody interface overrun k v offset t)
      fun r => r.1 ≠ some 0 := by
  unfold TargetSTM32F1.regsWriteBody
  refine .bind (.any _) fun made _ => .bind (.any _) fun cmdHead _ => ?_
  refine .bind (.any _) fun bytes _ => ?_
  refine .bind (.any _) fun out _ => .bind (.any _) fun received _ => ?_
  refine .ite (fun _ => .ok nofun) fun _ => .bind (.any _) fun ansHead _ => ?_
  refine .ite (fun _ => .ok nofun) fun _ => .ite (fun _ => .ok nofun) fun _ => ?_
  refine .ite (fun _ => .ok nofun) fun hne => .ite (fun _ => .ok nofun) fun _ => .ok fun hzero => ?_
  have hcount : ansHead.regCount.toNat ≠ 0 := fun h => hne (UInt8.toNat_inj.mp h)
  have hbytes := Option.some.inj hzero
  omega

theorem regsWriteBody_failsLess (k : ℕ) (v : List UInt32) (offset : ℕ) (t : Host σ × List Use) :
    FailsLess (TargetSTM32F1.regsWriteBody interface .stops k v offset t)
      (TargetSTM32F1.regsWriteBody interface overrun k v offset t) := by
  unfold TargetSTM32F1.regsWriteBody
  refine .bind (.refl _) fun made => .bind (.refl _) fun cmdHead => .bind ?_ fun bytes => .refl _
  exact overrun.load_failsLess _ _ _

end

/-- The arguments for which `memReadCmd` and `memWriteCmd` make no head. -/
def MemRefused (accessSize elementCount : ℕ) : Prop :=
  elementCount = 0 ∨ accessSize = 0 ∨ (accessSize - 1) &&& accessSize ≠ 0

instance (accessSize elementCount : ℕ) : Decidable (MemRefused accessSize elementCount) :=
  inferInstanceAs (Decidable (_ ∨ _))

/-- The head that they make otherwise. -/
def memHead (cmd : DebugCommand) (address accessSize elementCount : ℕ) : MemReadWriteHead :=
  let requiredBytes := elementCount * accessSize % 4294967296
  let bytesCount := if 56 < requiredBytes then 56 else requiredBytes
  ⟨cmd.toByte, UInt8.ofNat accessSize, bytesCount &&& MakeHead.accessBitMask accessSize, address⟩

theorem memHead_byteCount_le (cmd : DebugCommand) (a s n : ℕ) :
    (memHead cmd a s n).byteCount ≤ 56 ∧ (memHead cmd a s n).byteCount ≤ n * s := by
  have hand := Nat.and_le_left (n := if 56 < n * s % 4294967296 then 56 else n * s % 4294967296)
    (m := MakeHead.accessBitMask s)
  have hmod := Nat.mod_le (n * s) 4294967296
  have hle : (memHead cmd a s n).byteCount ≤
      if 56 < n * s % 4294967296 then 56 else n * s % 4294967296 := hand
  split_ifs at hle <;> omega

theorem memCmd_of_refused {cmd : DebugCommand} (buf : Frame) {a s n : ℕ} (h : MemRefused s n) :
    MakeHead.memCmd cmd buf a s n = .ok (0, buf) := by
  unfold MakeHead.memCmd
  by_cases hzero : n = 0 ∨ s = 0
  · rw [if_pos hzero]
  · rw [if_neg hzero, if_pos]
    rcases h with hn | hs | hpower
    · exact absurd (.inl hn) hzero
    · exact absurd (.inr hs) hzero
    · exact hpower

theorem memCmd_of_not_refused (cmd : DebugCommand) (buf : Frame) {a s n : ℕ}
    (h : ¬ MemRefused s n) (ha : a < 4294967296) :
    ∃ g : Frame, MakeHead.memCmd cmd buf a s n = .ok (8, g) ∧
      g.val.take 8 = (memHead cmd a s n).encode ∧
      readHead MemReadWriteHead.decode g.val = .ok (memHead cmd a s n) := by
  have hlen : (memHead cmd a s n).encode.length = 8 := MemReadWriteHead.encode_length _
  have hle := (memHead_byteCount_le cmd a s n).1
  obtain ⟨g, hg, hval⟩ := store_zero_ok buf (memHead cmd a s n).encode (by omega)
  have htake : g.val.take 8 = (memHead cmd a s n).encode := by rw [hval, List.take_left' hlen]
  refine ⟨g, ?_, htake, readHead_of_take htake (by omega) ha⟩
  unfold MakeHead.memCmd
  rw [if_neg fun hzero => h (hzero.imp_right .inl), if_neg fun hpower => h (.inr (.inr hpower))]
  exact bind_of_ok hg

theorem regsCmd_any (cmd : DebugCommand) (buf : Frame) {i n : ℕ} (hn : n ≠ 0) (hi : i < 65536) :
    ∃ (g : Frame) (c : ℕ), c ≤ 15 ∧ MakeHead.regsCmd cmd buf i n = .ok (4, g) ∧
      g.val.take 4 = (regHeadFor cmd i c).encode ∧
      readHead RegReadWriteHead.decode g.val = .ok (regHeadFor cmd i c) := by
  set bytes := (if 64 - RegReadWriteHead.size < n * 4 % 4294967296 then 64 - RegReadWriteHead.size
    else n * 4 % 4294967296) &&& MakeHead.accessBitMask 4 with hbytes
  have hle : bytes ≤ 60 := by
    refine Nat.and_le_left.trans ?_
    show (if 60 < n * 4 % 4294967296 then 60 else n * 4 % 4294967296) ≤ 60
    split_ifs <;> omega
  have hlen : (regHeadFor cmd i (bytes / 4)).encode.length = 4 := RegReadWriteHead.encode_length _
  obtain ⟨g, hg, hval⟩ := store_zero_ok buf (regHeadFor cmd i (bytes / 4)).encode (by omega)
  have htake : g.val.take 4 = (regHeadFor cmd i (bytes / 4)).encode := by
    rw [hval, List.take_left' hlen]
  refine ⟨g, bytes / 4, by omega, ?_, htake, readHead_reg_of_take htake hi⟩
  unfold MakeHead.regsCmd
  rw [if_neg hn]
  exact bind_of_ok hg

section
variable {σ : Type} {interface : TargetInterface σ} {behind : ℕ → UInt8} {h : Host σ}
  {uses : List Use} {a s offset total : ℕ}

theorem memReadBody_refused (overrun : Overrun) (data : List UInt8)
    (hrefused : MemRefused s ((total - offset) / s)) :
    TargetSTM32F1.memReadBody interface overrun a s total offset (data, h, uses) =
      .ok (none, data, h, uses) := by
  unfold TargetSTM32F1.memReadBody
  exact bind_of_ok (memCmd_of_refused h.outBuf hrefused)

variable (behind uses) in
theorem memReadBody_goesOn (data : List UInt8) (hsends : ¬ MemRefused s ((total - offset) / s))
    {head : MemReadWriteHead}
    (hhead : head = memHead .memoryRead ((a + offset) % 4294967296) s ((total - offset) / s))
    {reply : List UInt8} {l : σ} (hreply : exchange interface head.encode h.link = (reply, l)) :
    ∃ g bytes, TargetSTM32F1.memReadBody interface (.goesOn behind) a s total offset
        (data, h, uses) = .ok (if announced head reply = 0
          then (none, data, ⟨g, h.inBuf.receive reply, l⟩, uses)
          else (some (announced head reply), data ++ bytes, ⟨g, h.inBuf.receive reply, l⟩,
            uses ++ [⟨reply.length,
              MemReadWriteHead.size + min (announced head reply) (total - offset)⟩])) := by
  have hlen : head.encode.length = 8 := MemReadWriteHead.encode_length _
  have hreplyLen : reply.length ≤ 64 := by
    have hle := exchange_length_le interface head.encode h.link
    rwa [hreply] at hle
  obtain ⟨g, hg, htake, hcmdHead⟩ := memCmd_of_not_refused .memoryRead h.outBuf hsends
    (Nat.mod_lt (a + offset) (by decide))
  rw [← hhead] at htake hcmdHead
  have hsend := sendAndReceive_eq interface head.encode (h := { h with outBuf := g })
    (by rw [hlen]; exact htake)
  simp only [hreply, hlen] at hsend
  set m := min (announced head reply) (total - offset) with hm
  refine ⟨g, (List.range m).map fun i =>
    ((h.inBuf.receive reply).val[8 + i]?).getD (behind (8 + i)), ?_⟩
  unfold TargetSTM32F1.memReadBody
  simp only
  rw [bind_of_ok (show MakeHead.memReadCmd h.outBuf _ s _ = .ok (8, g) from hg)]
  simp only [Nat.reduceEqDiff, if_false]
  rw [bind_of_ok hsend]
  simp only
  by_cases hsize : reply.length < MemReadWriteHead.size
  · have hnone : announced head reply = 0 := announced_of_short (not_le.mpr hsize)
    rw [if_pos hsize, if_pos hnone]
    rfl
  · obtain ⟨ans, hansHead, hdecode⟩ := readHead_receive h.inBuf hreplyLen (not_lt.mp hsize)
    have hann : announced head reply =
        if TargetSTM32F1.headsAgree head ans then ans.byteCount else 0 := by
      rw [announced, hdecode]
    rw [if_neg hsize, bind_of_ok hcmdHead, bind_of_ok hansHead]
    by_cases hagree : TargetSTM32F1.headsAgree head ans
    · rw [if_pos hagree] at hann
      rw [if_neg (not_not.mpr hagree)]
      by_cases hzero : ans.byteCount = 0
      · rw [if_pos hzero, if_pos (hann.trans hzero)]
        rfl
      · have hmin : (if ans.byteCount < total - offset then ans.byteCount else total - offset) =
            m := by
          rw [hm, hann]
          split_ifs <;> omega
        rw [if_neg hzero, if_neg (hann.trans_ne hzero), hmin, hann]
        rfl
    · rw [if_neg hagree] at hann
      rw [if_pos hagree, if_pos hann]
      rfl

theorem memWriteBody_refused (data : List UInt8) (hs : s ≠ 0)
    (hrefused : MemRefused s ((data.length - offset) / s)) :
    TargetSTM32F1.memWriteBody interface a s data offset (h, uses) = .ok (none, h, uses) := by
  unfold TargetSTM32F1.memWriteBody
  simp only
  rw [if_neg hs]
  exact bind_of_ok (memCmd_of_refused h.outBuf hrefused)

/-- The packet of a round for any arguments. -/
def writePacketFor (a s : ℕ) (data : List UInt8) (offset : ℕ) : List UInt8 :=
  let head := memHead .memoryWrite ((a + offset) % 4294967296) s ((data.length - offset) / s)
  head.encode ++ (data.drop offset).take head.byteCount

variable (h uses a) in
/-- The count is taken from `_in`, whatever of it came with this exchange. -/
theorem memWriteBody_eq (data : List UInt8) (hs : s ≠ 0)
    (hsends : ¬ MemRefused s ((data.length - offset) / s)) {head : MemReadWriteHead}
    (hhead : head =
      memHead .memoryWrite ((a + offset) % 4294967296) s ((data.length - offset) / s))
    {reply : List UInt8} {l : σ}
    (hreply : exchange interface (writePacketFor a s data offset) h.link = (reply, l)) :
    ∃ g, TargetSTM32F1.memWriteBody interface a s data offset (h, uses) =
      .ok (if taken head (h.inBuf.receive reply).val = 0
        then (none, ⟨g, h.inBuf.receive reply, l⟩, uses)
        else (some (taken head (h.inBuf.receive reply).val), ⟨g, h.inBuf.receive reply, l⟩,
          uses ++ [⟨reply.length, MemReadWriteHead.size⟩])) := by
  have hlen : head.encode.length = 8 := MemReadWriteHead.encode_length _
  have hbounds : head.byteCount ≤ 56 ∧ head.byteCount ≤ (data.length - offset) / s * s := by
    rw [hhead]
    exact memHead_byteCount_le _ _ _ _
  have hwhole := Nat.div_mul_le_self (data.length - offset) s
  have hsome : 0 < data.length - offset := Nat.pos_of_ne_zero fun hzero =>
    hsends (.inl (by rw [hzero, Nat.zero_div]))
  obtain ⟨g, hg, htake, hcmdHead⟩ := memCmd_of_not_refused .memoryWrite h.outBuf hsends
    (Nat.mod_lt (a + offset) (by decide))
  rw [← hhead] at htake hcmdHead
  set bytes := (data.drop offset).take head.byteCount with hbytes
  have hbytesLen : bytes.length = head.byteCount := by
    rw [hbytes, List.length_take, List.length_drop]
    omega
  have hread : readBytes data offset head.byteCount = .ok bytes := if_pos (by omega)
  obtain ⟨f, hf, hfval⟩ := g.store_ok 8 bytes (by omega)
  have hpacket : writePacketFor a s data offset = head.encode ++ bytes := by
    rw [hbytes, hhead]
    rfl
  have hsize : (head.encode ++ bytes).length = 8 + head.byteCount := by
    rw [List.length_append, hlen, hbytesLen]
  have hftake : f.val.take (head.encode ++ bytes).length = head.encode ++ bytes := by
    rw [hfval, htake, List.take_left' rfl]
  have hsend := sendAndReceive_eq interface (head.encode ++ bytes) (h := { h with outBuf := f })
    hftake
  rw [hpacket] at hreply
  simp only [hreply, hsize] at hsend
  obtain ⟨ans, hansHead⟩ := readHead_frame (h.inBuf.receive reply)
  have hdecode : MemReadWriteHead.decode (h.inBuf.receive reply).val = some ans := by
    unfold readHead at hansHead
    split at hansHead
    next hd => exact hd.trans (congrArg some (Except.ok.inj hansHead))
    next => cases hansHead
  have htaken : taken head (h.inBuf.receive reply).val =
      if TargetSTM32F1.headsAgree head ans then
        if ans.byteCount ≤ head.byteCount then ans.byteCount else 0
      else 0 := by
    rw [taken, announced, hdecode]
    by_cases hagree : TargetSTM32F1.headsAgree head ans
    · simp only [hagree, if_true]
    · simp only [hagree, if_false, ite_self]
  refine ⟨f, ?_⟩
  unfold TargetSTM32F1.memWriteBody
  simp only
  rw [if_neg hs, bind_of_ok (show MakeHead.memWriteCmd h.outBuf _ s _ = .ok (8, g) from hg)]
  simp only [Nat.reduceEqDiff, if_false]
  rw [bind_of_ok hcmdHead, bind_of_ok hread, bind_of_ok hf, bind_of_ok hsend]
  simp only
  rw [bind_of_ok hansHead, htaken]
  by_cases hagree : TargetSTM32F1.headsAgree head ans
  · by_cases hzero : ans.byteCount = 0
    · simp only [hagree, hzero, not_true_eq_false, ite_self, if_true]
      rfl
    · by_cases hmore : ans.byteCount ≤ head.byteCount
      · simp only [hagree, hzero, not_true_eq_false, if_false, if_true, hmore, not_lt.mpr hmore]
        rfl
      · simp only [hagree, hzero, not_true_eq_false, if_false, if_true, hmore, not_le.mp hmore]
        rfl
  · simp only [hagree, not_false_eq_true, if_true, if_false]
    rfl

/-- The count of a reply that `regsRead` accepts. -/
def registersConfirmed (head : RegReadWriteHead) (reply : List UInt8) : Option ℕ :=
  match RegReadWriteHead.decode reply with
  | some ans =>
    if head.cmd = ans.cmd ∧ head.regIndex = ans.regIndex ∧ ans.regCount ≤ head.regCount then
      some ans.regCount.toNat
    else none
  | none => none

variable (uses) in
/-- A round of `regsRead` for `n` registers more. -/
theorem regsReadBody_eq (regs : List UInt32) {k n : ℕ} (hn : n = (total - offset) / 4)
    (hpos : 0 < n) (hsmall : n ≤ 65536) {head : RegReadWriteHead}
    (hhead : head = regHeadFor .regsRead ((offset / 4 + k) % 65536) (min 15 n))
    {reply : List UInt8} {l : σ} (hreply : exchange interface head.encode h.link = (reply, l)) :
    (∀ c, registersConfirmed head reply = some c → c ≤ min 15 n) ∧
    ∃ g regs', TargetSTM32F1.regsReadBody interface k total offset (regs, h, uses) =
      .ok (match registersConfirmed head reply with
        | none => (none, regs, ⟨g, h.inBuf.receive reply, l⟩, uses)
        | some c => (some (c * 4), regs', ⟨g, h.inBuf.receive reply, l⟩,
            uses ++ [⟨reply.length, RegReadWriteHead.size + c * 4⟩])) := by
  have hlen : head.encode.length = 4 := RegReadWriteHead.encode_length _
  have hreplyLen : reply.length ≤ 64 := by
    have hle := exchange_length_le interface head.encode h.link
    rwa [hreply] at hle
  have hcount : head.regCount.toNat = min 15 n := by
    rw [hhead]
    show (UInt8.ofNat (min 15 n)).toNat = _
    rw [UInt8.toNat_ofNat']
    omega
  have hbound : ∀ c, registersConfirmed head reply = some c → c ≤ min 15 n := by
    intro c hc
    unfold registersConfirmed at hc
    split at hc
    next ans _ =>
      split_ifs at hc with haccepted
      obtain rfl := Option.some.inj hc
      rw [← hcount]
      exact UInt8.le_iff_toNat_le.mp haccepted.2.2
    next => cases hc
  obtain ⟨g, hg, htake⟩ := regsCmd_ok .regsRead h.outBuf ((offset / 4 + k) % 65536) hpos hsmall
  rw [← hhead] at htake
  have hcmdHead : readHead RegReadWriteHead.decode g.val = .ok head :=
    readHead_reg_of_take htake (by
      rw [hhead]
      exact Nat.mod_lt _ (by decide))
  have hsend := sendAndReceive_eq interface head.encode (h := { h with outBuf := g })
    (by rw [hlen]; exact htake)
  simp only [hreply, hlen] at hsend
  refine ⟨hbound, g, ?_⟩
  unfold TargetSTM32F1.regsReadBody
  simp only [← hn]
  rw [bind_of_ok (show MakeHead.regsRead h.outBuf _ n = .ok (4, g) from hg), bind_of_ok hsend]
  simp only
  by_cases hsize : reply.length < RegReadWriteHead.size
  · have hnone : registersConfirmed head reply = none := by
      rw [registersConfirmed, (decode_short hsize).1]
    rw [if_pos hsize, hnone]
    exact ⟨regs, rfl⟩
  · obtain ⟨ans, hdecode⟩ : ∃ ans, RegReadWriteHead.decode reply = some ans := by
      obtain ⟨c, n, i₀, i₁, rest, rfl⟩ := exists_four (not_lt.mp hsize)
      exact ⟨_, rfl⟩
    have hansHead : readHead RegReadWriteHead.decode (h.inBuf.receive reply).val = .ok ans := by
      rw [h.inBuf.receive_val hreplyLen, readHead,
        RegReadWriteHead.decode_append _ (not_lt.mp hsize), hdecode]
    have hconfirmed : registersConfirmed head reply =
        if head.cmd = ans.cmd ∧ head.regIndex = ans.regIndex ∧ ans.regCount ≤ head.regCount then
          some ans.regCount.toNat
        else none := by
      rw [registersConfirmed, hdecode]
    rw [if_neg hsize, bind_of_ok hcmdHead, bind_of_ok hansHead]
    by_cases haccepted : head.cmd = ans.cmd ∧ head.regIndex = ans.regIndex ∧
        ans.regCount ≤ head.regCount
    · rw [if_pos haccepted] at hconfirmed
      obtain ⟨hcmd, hindex, hle⟩ := haccepted
      have hfits := hbound _ hconfirmed
      have hbytes : readBytes (h.inBuf.receive reply).val RegReadWriteHead.size
          (ans.regCount.toNat * 4) = .ok (((h.inBuf.receive reply).val.drop 4).take
            (ans.regCount.toNat * 4)) := by
        apply readBytes_ok
        rw [(h.inBuf.receive reply).property]
        show 4 + ans.regCount.toNat * 4 ≤ 64
        omega
      rw [if_neg (not_not.mpr hcmd), if_neg (not_not.mpr hindex), if_neg (UInt8.not_lt.mpr hle),
        bind_of_ok hbytes, hconfirmed]
      exact ⟨_, rfl⟩
    · rw [if_neg haccepted] at hconfirmed
      rw [hconfirmed]
      refine ⟨regs, ?_⟩
      by_cases hcmd : head.cmd = ans.cmd
      · by_cases hindex : head.regIndex = ans.regIndex
        · have hmore : head.regCount < ans.regCount :=
            UInt8.not_le.mp fun hle => haccepted ⟨hcmd, hindex, hle⟩
          rw [if_neg (not_not.mpr hcmd), if_neg (not_not.mpr hindex), if_pos hmore]
          rfl
        · rw [if_neg (not_not.mpr hcmd), if_pos hindex]
          rfl
      · rw [if_pos hcmd]
        rfl

variable (interface behind h uses offset) in
/-- A round of `regsWrite` leaves the loop or advances, and has looked at the head alone. -/
theorem regsWriteBody_goesOn (k : ℕ) {v : List UInt32} (hv : v ≠ []) :
    ∃ n h' uses', TargetSTM32F1.regsWriteBody interface (.goesOn behind) k v offset (h, uses) =
        .ok (n, h', uses') ∧
      (n = none ∨ ∃ m received, n = some m ∧ m ≠ 0 ∧ RegReadWriteHead.size ≤ received ∧
        uses' = uses ++ [⟨received, RegReadWriteHead.size⟩]) := by
  obtain ⟨g, c, hc, hg, htake, hcmdHead⟩ := regsCmd_any .regsWrite h.outBuf
    (i := (offset / 4 + k) % 256) (fun hzero => hv (List.length_eq_zero_iff.mp hzero)) (by omega)
  set head := regHeadFor .regsWrite ((offset / 4 + k) % 256) c with hhead
  have hlen : head.encode.length = 4 := RegReadWriteHead.encode_length _
  have hcount : head.regCount.toNat = c := by
    show (UInt8.ofNat c).toNat = c
    rw [UInt8.toNat_ofNat']
    omega
  set bytes := (List.range (c * 4)).map fun i =>
    ((v.flatMap fun v => toLE 4 v.toNat)[offset + i]?).getD (behind (offset + i)) with hbytes
  have hbytesLen : bytes.length = c * 4 := by simp [hbytes]
  have hload : (Overrun.goesOn behind).load (v.flatMap fun v => toLE 4 v.toNat) offset (c * 4) =
      .ok bytes := rfl
  obtain ⟨f, hf, hfval⟩ := g.store_ok 4 bytes (by omega)
  have hsize : (head.encode ++ bytes).length = 4 + c * 4 := by
    rw [List.length_append, hlen, hbytesLen]
  have hftake : f.val.take (head.encode ++ bytes).length = head.encode ++ bytes := by
    rw [hfval, htake, List.take_left' rfl]
  have hsend := sendAndReceive_eq interface (head.encode ++ bytes) (h := { h with outBuf := f })
    hftake
  rw [hsize] at hsend
  set reply := (exchange interface (head.encode ++ bytes) h.link).1
  obtain ⟨ans, hansHead⟩ : ∃ ans,
      readHead RegReadWriteHead.decode (h.inBuf.receive reply).val = .ok ans := by
    have hfour : 4 ≤ (h.inBuf.receive reply).val.length := by
      rw [(h.inBuf.receive reply).property]
      decide
    obtain ⟨a, b, c, d, rest, hframe⟩ := exists_four hfour
    exact ⟨_, by rw [hframe]; rfl⟩
  unfold TargetSTM32F1.regsWriteBody
  simp only
  rw [bind_of_ok (show MakeHead.regsWrite h.outBuf _ v = .ok (4, g) from hg)]
  simp only
  rw [bind_of_ok hcmdHead]
  simp only [hcount]
  rw [bind_of_ok hload, bind_of_ok hf, bind_of_ok hsend]
  simp only
  by_cases hshort : reply.length < RegReadWriteHead.size
  · rw [if_pos hshort]
    exact ⟨none, _, _, rfl, .inl rfl⟩
  · rw [if_neg hshort, bind_of_ok hansHead]
    split_ifs with hcmd hindex hzero hmore
    · exact ⟨none, _, _, rfl, .inl rfl⟩
    · exact ⟨none, _, _, rfl, .inl rfl⟩
    · exact ⟨none, _, _, rfl, .inl rfl⟩
    · exact ⟨none, _, _, rfl, .inl rfl⟩
    · refine ⟨_, _, _, rfl, .inr ⟨_, _, rfl, ?_, not_lt.mp hshort, rfl⟩⟩
      have hne : ans.regCount.toNat ≠ 0 := fun h => hzero (UInt8.toNat_inj.mp h)
      omega

end

end BluePill
