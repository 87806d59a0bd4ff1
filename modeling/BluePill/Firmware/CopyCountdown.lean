import BluePill.Firmware.PacketBounds

/-! The countdown of `dbg_memcpy` in the 32 bits it is made of, for the sizes and aligns that the
memory commands pass. -/
namespace BluePill
open Lib

/-- What passes for an `align` byte is zero or a power of two. -/
theorem getValidatedAlign_cases {align : ℕ} (h : align < 256) :
    getValidatedAlign align = 0 ∨ ∃ k ≤ 7, getValidatedAlign align = 2 ^ k := by
  have hall : ∀ a < 256, getValidatedAlign a = 0 ∨ ∃ k ≤ 7, getValidatedAlign a = 2 ^ k := by
    decide +kernel
  exact hall align h

/-- The mask rounds down to a multiple of the align, and to zero for align zero. -/
theorem and_alignMask_validated {p align : ℕ} (hp : p < 4294967296) (h : align < 256) :
    p &&& alignMask (getValidatedAlign align) =
      p / getValidatedAlign align * getValidatedAlign align := by
  rcases getValidatedAlign_cases h with hzero | ⟨k, hk, hpow⟩
  · rw [hzero]
    exact Nat.and_zero p
  · have hmask : alignMask (2 ^ k) = 2 ^ 32 - 2 ^ k := by
      interval_cases k <;> rfl
    rw [hpow, hmask]
    exact and_complement_mask (by omega) (by simpa using hp)

theorem payloadSize_rounded {headSize maxSize align : ℕ} (n : ℕ) (hhead : headSize ≤ maxSize)
    (hmax : maxSize < 4294967296) (h : align < 256) :
    payloadSize headSize maxSize n align =
      min (maxSize - headSize) n / getValidatedAlign align * getValidatedAlign align := by
  have hpayload : (if maxSize - headSize < n then maxSize - headSize else n) =
      min (maxSize - headSize) n := by
    split_ifs <;> omega
  have hnot : ¬ headSize > maxSize := by omega
  simp only [payloadSize, hnot, if_false, hpayload]
  exact and_alignMask_validated (by omega) h

theorem payloadSize_le_requested (headSize maxSize n align : ℕ) :
    payloadSize headSize maxSize n align ≤ n := by
  unfold payloadSize
  split_ifs with h
  · exact Nat.zero_le _
  · apply Nat.and_le_left.trans
    split_ifs <;> omega

/-- `copySize` after `k` times `copySize -= sizeof(..)`, in `uint32_t`. -/
def copySizeAfter (w : AccessWidth) (size k : ℕ) : UInt32 :=
  (fun copySize : UInt32 => copySize - UInt32.ofNat w.bytes)^[k] (UInt32.ofNat size)

theorem copySizeAfter_succ (w : AccessWidth) (size k : ℕ) :
    copySizeAfter w size (k + 1) = copySizeAfter w size k - UInt32.ofNat w.bytes :=
  Function.iterate_succ_apply' _ _ _

theorem AccessWidth.toNat_ofNat_bytes (w : AccessWidth) :
    (UInt32.ofNat w.bytes).toNat = w.bytes := by
  cases w <;> rfl

/-- Up to the last whole element nothing wraps. -/
theorem copySizeAfter_toNat {w : AccessWidth} {size k : ℕ} (hsize : size < 4294967296)
    (hk : k * w.bytes ≤ size) : (copySizeAfter w size k).toNat = size - k * w.bytes := by
  induction k with
  | zero => simpa [copySizeAfter] using hsize
  | succ k ih =>
    have hmul : (k + 1) * w.bytes = k * w.bytes + w.bytes := Nat.succ_mul _ _
    have hprev := ih (by omega)
    have hle : UInt32.ofNat w.bytes ≤ copySizeAfter w size k := by
      rw [UInt32.le_iff_toNat_le, w.toNat_ofNat_bytes, hprev]
      omega
    rw [copySizeAfter_succ, UInt32.toNat_sub_of_le _ _ hle, hprev, w.toNat_ofNat_bytes]
    omega

section

variable {σ : Type} (w : AccessWidth) (copy : ℕ → σ → Except Fault σ)

/-- `while(copySize){ *cdst++ = *csrc++; copySize -= sizeof(..); }` for at most `rounds` rounds. -/
def countdownLoop (rounds : ℕ) (copySize : UInt32) (offset : ℕ) (s : σ) : Except Fault σ :=
  if copySize = 0 then .ok s
  else match rounds with
    | 0 => .error .neverReturns
    | rounds + 1 => (copy offset s).bind fun s' =>
        countdownLoop rounds (copySize - UInt32.ofNat w.bytes) (offset + w.bytes) s'

/-- The offsets of the first `n` elements, from `offset` on. -/
def copyOffsets (n offset : ℕ) : List ℕ := (List.range n).map fun i => offset + i * w.bytes

theorem copyOffsets_succ (n offset : ℕ) :
    copyOffsets w (n + 1) offset = offset :: copyOffsets w n (offset + w.bytes) := by
  unfold copyOffsets
  rw [List.range_succ_eq_map, List.map_cons, List.map_map]
  congr 1
  · omega
  · apply List.map_congr_left
    intro i _
    simp only [Function.comp_apply, Nat.succ_mul]
    omega

/-- A size of `n` elements is counted down in `n` rounds, one element after the other. -/
theorem countdownLoop_eq {n : ℕ} (hsize : n * w.bytes < 4294967296) (offset : ℕ) (s : σ) :
    countdownLoop w copy n (UInt32.ofNat (n * w.bytes)) offset s =
      (copyOffsets w n offset).foldlM (fun s off => copy off s) s := by
  induction n generalizing offset s with
  | zero =>
    rw [countdownLoop, if_pos (by simp)]
    rfl
  | succ n ih =>
    have hpos := w.bytes_pos
    have hmul : (n + 1) * w.bytes = n * w.bytes + w.bytes := Nat.succ_mul _ _
    have hne : UInt32.ofNat ((n + 1) * w.bytes) ≠ 0 := by
      intro hzero
      have hnat := congrArg UInt32.toNat hzero
      rw [UInt32.toNat_ofNat_of_lt' hsize, UInt32.toNat_zero] at hnat
      omega
    have hnext : UInt32.ofNat ((n + 1) * w.bytes) - UInt32.ofNat w.bytes =
        UInt32.ofNat (n * w.bytes) := by
      rw [hmul, UInt32.ofNat_add, UInt32.add_sub_cancel]
    rw [countdownLoop, if_neg hne, copyOffsets_succ, List.foldlM_cons, hnext]
    congr 1
    funext s'
    exact ih (by omega) _ s'

/-- The loop over naturals takes the same rounds. -/
theorem dbgMemcpyLoop_eq (n offset : ℕ) (s : σ) :
    dbgMemcpyLoop w copy (n * w.bytes) offset s =
      (copyOffsets w n offset).foldlM (fun s off => copy off s) s := by
  induction n generalizing offset s with
  | zero =>
    rw [dbgMemcpyLoop, if_pos (Nat.zero_mul _)]
    rfl
  | succ n ih =>
    have hpos := w.bytes_pos
    have hmul : (n + 1) * w.bytes = n * w.bytes + w.bytes := Nat.succ_mul _ _
    have hnext : (n + 1) * w.bytes - w.bytes = n * w.bytes := by omega
    rw [dbgMemcpyLoop, if_neg (by omega), if_neg (by omega), copyOffsets_succ, List.foldlM_cons,
      hnext]
    congr 1
    funext s'
    exact ih _ s'

end

/-- The call `dbg_memcpy(.., size, align)` counts down to zero without a wrap, after one element
copy at each offset below `size`. -/
structure CountsDown (size align room byteCount : ℕ) : Prop where
  room : size ≤ room
  requested : size ≤ byteCount
  whole : (accessWidth align).bytes ∣ size
  falls : ∀ k, k * (accessWidth align).bytes ≤ size →
    (copySizeAfter (accessWidth align) size k).toNat = size - k * (accessWidth align).bytes
  ends : copySizeAfter (accessWidth align) size (size / (accessWidth align).bytes) = 0
  copies : ∀ {σ : Type} (copy : AccessWidth → ℕ → σ → Except Fault σ) (s : σ),
    countdownLoop (accessWidth align) (copy (accessWidth align))
        (size / (accessWidth align).bytes) (UInt32.ofNat size) 0 s =
      (copyOffsets (accessWidth align) (size / (accessWidth align).bytes) 0).foldlM
        (fun s off => copy (accessWidth align) off s) s
  model : ∀ {σ : Type} (copy : AccessWidth → ℕ → σ → Except Fault σ) (s : σ),
    dbgMemcpy copy size align s =
      countdownLoop (accessWidth align) (copy (accessWidth align))
        (size / (accessWidth align).bytes) (UInt32.ofNat size) 0 s

theorem countsDown_payloadSize (headSize n align : ℕ) {maxSize : ℕ} (hmax : maxSize < 4294967296) :
    CountsDown (payloadSize headSize maxSize n align) align (maxSize - headSize) n := by
  set size := payloadSize headSize maxSize n align with hsize
  set w := accessWidth align with hw
  have hroom : size ≤ maxSize - headSize := payloadSize_le _ _ _ _
  have hwhole : w.bytes ∣ size := accessWidth_dvd_payloadSize headSize n align hmax
  have hmul : size / w.bytes * w.bytes = size := Nat.div_mul_cancel hwhole
  have hlt : size < 4294967296 := by omega
  have hcopies {σ : Type} (copy : AccessWidth → ℕ → σ → Except Fault σ) (s : σ) :
      countdownLoop w (copy w) (size / w.bytes) (UInt32.ofNat size) 0 s =
        (copyOffsets w (size / w.bytes) 0).foldlM (fun s off => copy w off s) s := by
    have hloop := countdownLoop_eq w (copy w) (n := size / w.bytes) (by rw [hmul]; exact hlt) 0 s
    rwa [hmul] at hloop
  refine ⟨hroom, payloadSize_le_requested _ _ _ _, hwhole, ?_, ?_, hcopies, ?_⟩
  · exact fun k hk => copySizeAfter_toNat hlt hk
  · apply UInt32.toNat_inj.mp
    rw [copySizeAfter_toNat hlt (by rw [hmul]), hmul, Nat.sub_self]
    rfl
  · intro σ copy s
    have hloop := dbgMemcpyLoop_eq w (copy w) (size / w.bytes) 0 s
    rw [hmul] at hloop
    exact hloop.trans (hcopies copy s).symm

/-- The computation returns, or it leaves an array: none of its loops runs on. -/
def Halts {α : Type} (x : Except Fault α) : Prop := x ≠ .error .neverReturns

theorem Halts.ok {α : Type} (a : α) : Halts (.ok a : Except Fault α) := by
  intro h
  cases h

theorem Halts.bind {α β : Type} {x : Except Fault α} {f : α → Except Fault β} (hx : Halts x)
    (hf : ∀ a, Halts (f a)) : Halts (x >>= f) := by
  cases x with
  | error e =>
    intro h
    apply hx
    have he : e = .neverReturns := Except.error.inj h
    rw [he]
  | ok a => exact hf a

theorem Halts.ite {α : Type} {c : Prop} [Decidable c] {x y : Except Fault α} (hx : Halts x)
    (hy : Halts y) : Halts (if c then x else y) := by
  split_ifs
  · exact hx
  · exact hy

theorem Halts.foldlM {α σ : Type} {f : σ → α → Except Fault σ} (hf : ∀ s a, Halts (f s a))
    (l : List α) (s : σ) : Halts (l.foldlM f s) := by
  induction l generalizing s with
  | nil => exact .ok s
  | cons a l ih =>
    rw [List.foldlM_cons]
    exact (hf s a).bind ih

theorem dbgHeadValid_halts (headSize : ℕ) (inBuf : List UInt8) (inSize : ℕ) (c : DebugCommand) :
    Halts (dbgHeadValid headSize inBuf inSize c) := by
  unfold dbgHeadValid
  apply Halts.ite
  · exact .ok _
  · cases inBuf with
    | nil => exact fun h => Fault.noConfusion (Except.error.inj h)
    | cons b rest => exact .ok _

theorem readHead_halts {α : Type} (decode : List UInt8 → Option α) (buf : List UInt8) :
    Halts (readHead decode buf) := by
  unfold readHead
  cases decode buf with
  | none => exact fun h => Fault.noConfusion (Except.error.inj h)
  | some head => exact .ok head

theorem Frame.store_halts (f : Frame) (off : ℕ) (bytes : List UInt8) :
    Halts (f.store off bytes) := by
  unfold Frame.store
  split_ifs
  · exact .ok _
  · exact fun h => Fault.noConfusion (Except.error.inj h)

theorem readBytes_halts (buf : List UInt8) (off n : ℕ) : Halts (readBytes buf off n) := by
  apply Halts.ite
  · exact .ok _
  · exact fun h => Fault.noConfusion (Except.error.inj h)

theorem flashWriteLoop_halts (address : ℕ) (data : List UInt8) (size dataIndex : ℕ) (d : Device) :
    Halts (flashWriteLoop address data size dataIndex d) := by
  induction h : size - dataIndex using Nat.strong_induction_on generalizing dataIndex d with
  | _ n ih =>
    rw [flashWriteLoop]
    by_cases hlt : dataIndex < size
    · rw [if_pos hlt]
      split
      next lo hi _ _ => exact ih (size - (dataIndex + 2)) (by omega) (dataIndex + 2) _ rfl
      next => exact fun h => Fault.noConfusion (Except.error.inj h)
    · rw [if_neg hlt]
      exact .ok d

/-- A call that counts down halts as its element copies do. -/
theorem CountsDown.halts {size align room byteCount : ℕ} (h : CountsDown size align room byteCount)
    {σ : Type} {copy : AccessWidth → ℕ → σ → Except Fault σ}
    (hcopy : ∀ w off s, Halts (copy w off s)) (s : σ) : Halts (dbgMemcpy copy size align s) := by
  rw [h.model, h.copies]
  exact Halts.foldlM (fun s off => hcopy _ off s) _ s

theorem copyFromTarget_halts (address dst : ℕ) (w : AccessWidth) (off : ℕ) (s : Frame × Device) :
    Halts (copyFromTarget address dst w off s) :=
  (s.1.store_halts _ _).bind fun _ => .ok _

theorem copyToTarget_halts (address : ℕ) (inBuf : List UInt8) (src : ℕ) (w : AccessWidth) (off : ℕ)
    (d : Device) : Halts (copyToTarget address inBuf src w off d) :=
  (readBytes_halts inBuf _ _).bind fun _ => .ok _

section

variable (inBuf : List UInt8) (inSize : ℕ) (outBuf : Frame) (outSize : ℕ) (d : Device)

theorem memoryReadCommand_halts (hsize : outSize < 4294967296) :
    Halts (memoryReadCommand inBuf inSize outBuf outSize d) := by
  unfold memoryReadCommand
  refine (dbgHeadValid_halts _ _ _ _).bind fun valid => Halts.ite (.ok _) ?_
  refine (readHead_halts _ _).bind fun head => ?_
  refine (outBuf.store_halts _ _).bind fun frame => Halts.ite ?_ ?_
  · have hcall := countsDown_payloadSize MemReadWriteHead.size head.byteCount head.align.toNat hsize
    exact (hcall.halts (copyFromTarget_halts head.address MemReadWriteHead.size) (frame, d)).bind
      fun _ => .ok _
  · exact (frame.store_halts _ _).bind fun _ => .ok _

theorem memoryWriteCommand_halts (hsize : inSize < 4294967296) :
    Halts (memoryWriteCommand inBuf inSize outBuf outSize d) := by
  unfold memoryWriteCommand
  refine (dbgHeadValid_halts _ _ _ _).bind fun valid => Halts.ite (.ok _) ?_
  refine (readHead_halts _ _).bind fun head => ?_
  have hreply (e : Device) (bytes : List UInt8) : Halts (do
      let f ← outBuf.store 0 bytes
      return (MemReadWriteHead.size, f, e)) := (outBuf.store_halts _ _).bind fun _ => .ok _
  apply Halts.ite
  · exact (flashWriteLoop_halts _ _ _ 0 d).bind fun e => hreply e _
  · have hcall := countsDown_payloadSize MemReadWriteHead.size head.byteCount
      (getValidatedAlign head.align.toNat) hsize
    exact (hcall.halts (copyToTarget_halts head.address inBuf MemReadWriteHead.size) d).bind
      fun e => hreply e _

end

/-- Both memory commands pass `dbg_memcpy` a size that it counts down to zero, whatever address,
count and align the packet carries and however long it is; so both commands end. -/
theorem memoryCommands_countDown (head : MemReadWriteHead) (inBuf : List UInt8) (outBuf : Frame)
    (inSize outSize : UInt32) (d : Device) :
    CountsDown (payloadSize MemReadWriteHead.size outSize.toNat head.byteCount head.align.toNat)
      head.align.toNat (outSize.toNat - MemReadWriteHead.size) head.byteCount ∧
    CountsDown (payloadSize MemReadWriteHead.size inSize.toNat head.byteCount
        (getValidatedAlign head.align.toNat))
      (getValidatedAlign head.align.toNat) (inSize.toNat - MemReadWriteHead.size)
      head.byteCount ∧
    Halts (memoryReadCommand inBuf inSize.toNat outBuf outSize.toNat d) ∧
    Halts (memoryWriteCommand inBuf inSize.toNat outBuf outSize.toNat d) := by
  have hin : inSize.toNat < 4294967296 := inSize.toNat_lt
  have hout : outSize.toNat < 4294967296 := outSize.toNat_lt
  refine ⟨?_, ?_, ?_, ?_⟩
  · exact countsDown_payloadSize _ _ _ hout
  · exact countsDown_payloadSize _ _ _ hin
  · exact memoryReadCommand_halts inBuf inSize.toNat outBuf outSize.toNat d hout
  · exact memoryWriteCommand_halts inBuf inSize.toNat outBuf outSize.toNat d hin

end BluePill
