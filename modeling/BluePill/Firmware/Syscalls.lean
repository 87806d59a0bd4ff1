import BluePill.Firmware.Memory

/-! `Syscalls.cpp`: the supervisor calls of the user program, and the memory that they touch. -/
namespace BluePill
open Lib

/-- `for (len = (len + 1) >> 1; len; len--) *PM++ = *lbuf++;`: the half-words that are loaded. -/
def copyHalfWords : ℕ → UInt32 → List Access
  | 0, _ => []
  | n + 1, lbuf => ⟨lbuf.toNat, 2⟩ :: copyHalfWords n (lbuf + 2)

/-- `st_usbfs_copy_to_pm`. -/
def stUsbfsCopyToPm (buf : UInt32) (len : ℕ) : List Access := copyHalfWords ((len + 1) / 2) buf

/-- The addresses of the bytes of a list of loads or stores. -/
def accessedBytes (accesses : List Access) : List ℕ :=
  accesses.flatMap fun a => (List.range a.width).map (a.address + ·)

/-- What a call takes from outside the handler. The functions are about the packet at an offset:
whether the callback of the IN endpoint runs while the call waits for it, and whether the endpoint
still has a packet then. -/
structure SyscallInputs where
  timeFromSystemStartedMs : UInt32
  hasUsbDevice : Bool
  dataInCallback : ℕ → Bool
  endpointValid : ℕ → Bool

/-- A call: the state of the target, the stores through the user's pointer, the loads of the USB
driver and the addresses of the bytes that it puts into packets. -/
structure SyscallRun where
  dev : Device
  stores : List Access
  loads : List Access
  transmitted : List ℕ

def SyscallRun.start (d : Device) : SyscallRun := ⟨d, [], [], []⟩

abbrev SysCallFunc := SyscallInputs → UInt32 → UInt32 → UInt32 → SyscallRun → SyscallRun

def sysCallReset : SysCallFunc := fun _ _ _ _ r =>
  { r with dev := (r.dev.debugStartFirmware.2.debugResume false).2 }

/-- `nvic_enable_irq` and `nvic_disable_irq`; the monitor knows the two USB interrupts. -/
def Device.nvicSetIrq (d : Device) (irqn : UInt32) (enable : Bool) : Device :=
  { d with mon := { d.mon with
    irq19 := if irqn = 19 then enable else d.mon.irq19
    irq20 := if irqn = 20 then enable else d.mon.irq20 } }

def sysCallEnableDisableIrq : SysCallFunc := fun _ arg0 arg1 _ r =>
  if arg0 > 255 then r
  else { r with dev := r.dev.nvicSetIrq arg0 (decide (arg1 ≠ 0)) }

/-- `*((volatile uint32_t*)arg0) = value`. -/
def SyscallRun.storeWord (r : SyscallRun) (arg0 value : UInt32) : SyscallRun :=
  { r with
    dev := { r.dev with mem := overlay r.dev.mem arg0.toNat (toLE 4 value.toNat) }
    stores := r.stores ++ [⟨arg0.toNat, 4⟩] }

def sysCallMillis : SysCallFunc := fun inputs arg0 _ _ r =>
  if arg0 &&& 0x03 ≠ 0 then r
  else if arg0 < 0x20001000 then r
  else if arg0 > 0x20005000 then r
  else r.storeWord arg0 inputs.timeFromSystemStartedMs

/-- `st_usbfs_ep_write_packet`: a whole number of half-words is loaded, the count is `len`. -/
def SyscallRun.epWritePacket (r : SyscallRun) (valid : Bool) (buf : UInt32) (len : ℕ) :
    SyscallRun :=
  if valid then r
  else { r with
    loads := r.loads ++ stUsbfsCopyToPm buf len
    transmitted := r.transmitted ++ (accessedBytes (stUsbfsCopyToPm buf len)).take len }

/-- `while(offset < size)`. -/
def usbSerialLoop (inputs : SyscallInputs) (ptr : UInt32) (size offset : ℕ) (r : SyscallRun) :
    SyscallRun :=
  if offset < size then
    let remain := size - offset
    let count := if remain < 64 then remain else 64
    if r.dev.allowUsbTransfer || inputs.dataInCallback offset then
      let cleared := { r with dev := { r.dev with allowUsbTransfer := false } }
      usbSerialLoop inputs ptr size (offset + count)
        (cleared.epWritePacket (inputs.endpointValid offset) (ptr + UInt32.ofNat offset) count)
    else r
  else r
termination_by size - offset
decreasing_by
  split <;> omega

def sysCallWriteUsbSerial : SysCallFunc := fun inputs arg0 arg1 _ r =>
  if ¬ r.dev.usbInitialized then r
  else if ¬ inputs.hasUsbDevice then r
  else if (arg0 < 0x8004000 ∨ arg0 > 0x8020000) ∧ (arg0 < 0x20001000 ∨ arg0 > 0x20005000) then r
  else if arg1 = 0 ∨ arg1 > 1024 then r
  else if (arg0 < 0x8004000 ∨ arg0 + arg1 > 0x8020000) ∧
      (arg0 < 0x20001000 ∨ arg0 + arg1 > 0x20005000) then r
  else if ¬ r.dev.allowUsbTransfer then r
  else usbSerialLoop inputs arg0 arg1.toNat 0 r

def sysCallFuncTable : List SysCallFunc :=
  [sysCallReset, sysCallEnableDisableIrq, sysCallMillis, sysCallWriteUsbSerial]

/-- `SVC_Handler`. -/
def svcHandler (inputs : SyscallInputs) (arg0 arg1 arg2 funcNo : UInt32) (d : Device) :
    SyscallRun :=
  match sysCallFuncTable[funcNo.toNat]? with
  | some f => f inputs arg0 arg1 arg2 (.start d)
  | none => .start d

theorem toNat_add_ofNat {ptr : UInt32} {k : ℕ} (h : ptr.toNat + k < 4294967296) :
    (ptr + UInt32.ofNat k).toNat = ptr.toNat + k := by
  simp only [UInt32.toNat_add, UInt32.toNat_ofNat']
  omega

theorem mem_copyHalfWords {n : ℕ} {lbuf : UInt32} (hfits : lbuf.toNat + 2 * n < 4294967296)
    {a : Access} (ha : a ∈ copyHalfWords n lbuf) :
    lbuf.toNat ≤ a.address ∧ a.address + a.width ≤ lbuf.toNat + 2 * n := by
  induction n generalizing lbuf with
  | zero => cases ha
  | succ n ih =>
    have hnext : (lbuf + 2).toNat = lbuf.toNat + 2 := toNat_add_ofNat (k := 2) (by omega)
    obtain rfl | hrest := List.mem_cons.mp ha
    · dsimp only
      omega
    · have hin := ih (by omega) hrest
      omega

theorem accessedBytes_copyHalfWords {n : ℕ} {lbuf : UInt32}
    (hfits : lbuf.toNat + 2 * n < 4294967296) :
    accessedBytes (copyHalfWords n lbuf) = (List.range (2 * n)).map (lbuf.toNat + ·) := by
  induction n generalizing lbuf with
  | zero => rfl
  | succ n ih =>
    have hnext : (lbuf + 2).toNat = lbuf.toNat + 2 := toNat_add_ofNat (k := 2) (by omega)
    have hsplit : 2 * (n + 1) = 2 + 2 * n := by omega
    have hfitsNext : (lbuf + 2).toNat + 2 * n < 4294967296 := by omega
    have hrest := ih hfitsNext
    rw [hnext] at hrest
    rw [hsplit, List.range_add, List.map_append, List.map_map]
    simp only [accessedBytes, copyHalfWords, List.flatMap_cons] at hrest ⊢
    rw [hrest]
    congr 1
    apply List.map_congr_left
    intro i _
    simp only [Function.comp_apply]
    omega

/-- The bytes of a packet are those that it was asked for, also where one more is loaded. -/
theorem take_accessedBytes {buf : UInt32} {len : ℕ} (hfits : buf.toNat + len + 1 < 4294967296) :
    (accessedBytes (stUsbfsCopyToPm buf len)).take len = (List.range len).map (buf.toNat + ·) := by
  have hlen : min len (2 * ((len + 1) / 2)) = len := by omega
  rw [stUsbfsCopyToPm, accessedBytes_copyHalfWords (by omega), ← List.map_take, List.take_range,
    hlen]

/-- Nothing behind the `size` bytes at `ptr` is transmitted, and at most one byte is loaded. -/
def SyscallRun.WithinRange (r : SyscallRun) (ptr size : ℕ) : Prop :=
  (∀ x ∈ r.transmitted, ptr ≤ x ∧ x < ptr + size) ∧
    ∀ a ∈ r.loads, ptr ≤ a.address ∧ a.address + a.width ≤ ptr + size + size % 2

theorem epWritePacket_withinRange {r : SyscallRun} {ptr : UInt32} {size offset len : ℕ}
    (hfits : ptr.toNat + size + 1 < 4294967296) (hlen : offset + len ≤ size)
    (hround : offset + (len + 1) / 2 * 2 ≤ size + size % 2) (valid : Bool)
    (h : r.WithinRange ptr.toNat size) :
    (r.epWritePacket valid (ptr + UInt32.ofNat offset) len).WithinRange ptr.toNat size := by
  have hbuf : (ptr + UInt32.ofNat offset).toNat = ptr.toNat + offset := toNat_add_ofNat (by omega)
  obtain ⟨hsent, hloads⟩ := h
  unfold SyscallRun.epWritePacket
  split
  · exact ⟨hsent, hloads⟩
  · constructor
    · intro x hx
      obtain hx | hx := List.mem_append.mp hx
      · exact hsent x hx
      · rw [take_accessedBytes (by omega), hbuf] at hx
        obtain ⟨i, hi, rfl⟩ := List.mem_map.mp hx
        have hi := List.mem_range.mp hi
        omega
    · intro a ha
      obtain ha | ha := List.mem_append.mp ha
      · exact hloads a ha
      · have hin := mem_copyHalfWords (by omega) ha
        omega

theorem epWritePacket_frame (r : SyscallRun) (valid : Bool) (buf : UInt32) (len : ℕ) :
    (r.epWritePacket valid buf len).dev = r.dev ∧
      (r.epWritePacket valid buf len).stores = r.stores := by
  unfold SyscallRun.epWritePacket
  split <;> exact ⟨rfl, rfl⟩

/-- Every packet starts at an even offset, so only the last one can have an odd length. -/
theorem usbSerialLoop_withinRange (inputs : SyscallInputs) {ptr : UInt32} {size : ℕ}
    (hfits : ptr.toNat + size + 1 < 4294967296) {offset : ℕ}
    (heven : offset % 2 = 0 ∨ size ≤ offset) {r : SyscallRun} (h : r.WithinRange ptr.toNat size) :
    (usbSerialLoop inputs ptr size offset r).WithinRange ptr.toNat size := by
  fun_induction usbSerialLoop inputs ptr size offset r with
  | case1 offset r hlt remain count hallow cleared ih =>
    have hcount : count = 64 ∧ 64 ≤ size - offset ∨ count = size - offset := by
      by_cases hlast : size - offset < 64
      · exact .inr (if_pos hlast)
      · exact .inl ⟨if_neg hlast, by omega⟩
    apply ih
    · omega
    · exact epWritePacket_withinRange hfits (by omega) (by omega) _ h
  | case2 => exact h
  | case3 => exact h

theorem usbSerialLoop_frame (inputs : SyscallInputs) (ptr : UInt32) (size offset : ℕ)
    (r : SyscallRun) : (usbSerialLoop inputs ptr size offset r).stores = r.stores ∧
      (usbSerialLoop inputs ptr size offset r).dev.mem = r.dev.mem := by
  fun_induction usbSerialLoop inputs ptr size offset r with
  | case1 offset r hlt remain count hallow cleared ih =>
    obtain ⟨hdev, hstores⟩ := epWritePacket_frame cleared (inputs.endpointValid offset)
      (ptr + UInt32.ofNat offset) count
    rw [hdev, hstores] at ih
    exact ih
  | case2 => exact ⟨rfl, rfl⟩
  | case3 => exact ⟨rfl, rfl⟩

/-- The stores lie in user RAM, the transmitted bytes in user memory and in the range of the
arguments. -/
def SyscallRun.TouchesUserMemory (r : SyscallRun) (arg0 arg1 : UInt32) : Prop :=
  (∀ x ∈ accessedBytes r.stores, InUserRam x) ∧
    ∀ x ∈ r.transmitted,
      (InUserFlash x ∨ InUserRam x) ∧ arg0.toNat ≤ x ∧ x < arg0.toNat + arg1.toNat

theorem touchesUserMemory_of_nil {r : SyscallRun} (hstores : r.stores = [])
    (htransmitted : r.transmitted = []) (arg0 arg1 : UInt32) : r.TouchesUserMemory arg0 arg1 := by
  constructor
  · intro x hx
    rw [hstores] at hx
    cases hx
  · intro x hx
    rw [htransmitted] at hx
    cases hx

theorem sysCallReset_touches (inputs : SyscallInputs) (arg0 arg1 arg2 : UInt32) (d : Device) :
    (sysCallReset inputs arg0 arg1 arg2 (.start d)).TouchesUserMemory arg0 arg1 :=
  touchesUserMemory_of_nil rfl rfl arg0 arg1

theorem sysCallEnableDisableIrq_touches (inputs : SyscallInputs) (arg0 arg1 arg2 : UInt32)
    (d : Device) :
    (sysCallEnableDisableIrq inputs arg0 arg1 arg2 (.start d)).TouchesUserMemory arg0 arg1 := by
  unfold sysCallEnableDisableIrq
  split <;> exact touchesUserMemory_of_nil rfl rfl arg0 arg1

/-- The call stores a word exactly where its three checks let the address through. -/
theorem sysCallMillis_stores (inputs : SyscallInputs) (arg0 arg1 arg2 : UInt32) (d : Device) :
    (sysCallMillis inputs arg0 arg1 arg2 (.start d)).stores =
      if arg0.toNat % 4 = 0 ∧ 0x20001000 ≤ arg0.toNat ∧ arg0.toNat ≤ 0x20005000
        then [⟨arg0.toNat, 4⟩] else [] := by
  have halign : arg0 &&& 0x03 ≠ 0 ↔ ¬ arg0.toNat % 4 = 0 := by
    rw [Ne, ← UInt32.toNat_inj, UInt32.toNat_and]
    simp only [UInt32.reduceToNat]
    rw [Nat.and_two_pow_sub_one_eq_mod _ 2]
  unfold sysCallMillis
  simp only [halign, UInt32.lt_iff_toNat_lt, gt_iff_lt, UInt32.reduceToNat]
  split_ifs <;> first | rfl | omega

theorem sysCallMillis_transmitted (inputs : SyscallInputs) (arg0 arg1 arg2 : UInt32) (d : Device) :
    (sysCallMillis inputs arg0 arg1 arg2 (.start d)).transmitted = [] := by
  unfold sysCallMillis
  split_ifs <;> rfl

/-- The checks let the word behind the last one of user RAM through. -/
theorem sysCallMillis_touches_iff (inputs : SyscallInputs) (arg0 arg1 arg2 : UInt32) (d : Device) :
    (sysCallMillis inputs arg0 arg1 arg2 (.start d)).TouchesUserMemory arg0 arg1 ↔
      arg0 ≠ 0x20005000 := by
  have hend : arg0 = 0x20005000 ↔ arg0.toNat = 0x20005000 := UInt32.toNat_inj.symm
  rw [SyscallRun.TouchesUserMemory, sysCallMillis_stores, sysCallMillis_transmitted, Ne, hend]
  constructor
  · rintro ⟨hstores, -⟩ heq
    rw [if_pos (by omega)] at hstores
    have hin := hstores arg0.toNat (by simp [accessedBytes])
    unfold InUserRam at hin
    omega
  · intro hne
    refine ⟨?_, by simp⟩
    split_ifs with hpass
    · intro x hx
      simp only [accessedBytes, List.flatMap_singleton, List.mem_map, List.mem_range] at hx
      obtain ⟨i, hi, rfl⟩ := hx
      unfold InUserRam
      omega
    · intro x hx
      cases hx

/-- The second test is about the end of a range that the first one and the limit of the size
keep below the end of the address space. -/
theorem sysCallWriteUsbSerial_cases (inputs : SyscallInputs) (arg0 arg1 arg2 : UInt32)
    (r : SyscallRun) : sysCallWriteUsbSerial inputs arg0 arg1 arg2 r = r ∨
      (sysCallWriteUsbSerial inputs arg0 arg1 arg2 r = usbSerialLoop inputs arg0 arg1.toNat 0 r ∧
        (0x08004000 ≤ arg0.toNat ∧ arg0.toNat + arg1.toNat ≤ 0x08020000 ∨
          0x20001000 ≤ arg0.toNat ∧ arg0.toNat + arg1.toNat ≤ 0x20005000)) := by
  unfold sysCallWriteUsbSerial
  simp only [UInt32.lt_iff_toNat_lt, gt_iff_lt, UInt32.reduceToNat, UInt32.toNat_add]
  split_ifs with hinit hdevice hstart hsize hrange hallow
  any_goals exact .inl rfl
  refine .inr ⟨rfl, ?_⟩
  omega

theorem sysCallWriteUsbSerial_withinRange (inputs : SyscallInputs) (arg0 arg1 arg2 : UInt32)
    (d : Device) :
    (sysCallWriteUsbSerial inputs arg0 arg1 arg2 (.start d)).WithinRange arg0.toNat arg1.toNat := by
  have hstart : (SyscallRun.start d).WithinRange arg0.toNat arg1.toNat :=
    ⟨fun x hx => absurd hx (List.not_mem_nil), fun a ha => absurd ha (List.not_mem_nil)⟩
  obtain hkept | ⟨hloop, hregion⟩ := sysCallWriteUsbSerial_cases inputs arg0 arg1 arg2 (.start d)
  · rw [hkept]
    exact hstart
  · rw [hloop]
    exact usbSerialLoop_withinRange inputs (by omega) (.inl rfl) hstart

theorem sysCallWriteUsbSerial_touches (inputs : SyscallInputs) (arg0 arg1 arg2 : UInt32)
    (d : Device) :
    (sysCallWriteUsbSerial inputs arg0 arg1 arg2 (.start d)).TouchesUserMemory arg0 arg1 := by
  obtain ⟨hsent, -⟩ := sysCallWriteUsbSerial_withinRange inputs arg0 arg1 arg2 d
  obtain hkept | ⟨hloop, hregion⟩ := sysCallWriteUsbSerial_cases inputs arg0 arg1 arg2 (.start d)
  · rw [hkept]
    exact touchesUserMemory_of_nil rfl rfl arg0 arg1
  · constructor
    · intro x hx
      rw [hloop, (usbSerialLoop_frame inputs arg0 arg1.toNat 0 (.start d)).1] at hx
      cases hx
    · intro x hx
      have hin := hsent x hx
      unfold InUserFlash InUserRam
      omega

theorem svcHandler_none (inputs : SyscallInputs) (arg0 arg1 arg2 : UInt32) {funcNo : UInt32}
    (d : Device) (h : 4 ≤ funcNo.toNat) :
    svcHandler inputs arg0 arg1 arg2 funcNo d = .start d := by
  have hnone : sysCallFuncTable[funcNo.toNat]? = none := List.getElem?_eq_none h
  rw [svcHandler, hnone]

theorem funcNo_cases (funcNo : UInt32) :
    funcNo = 0 ∨ funcNo = 1 ∨ funcNo = 2 ∨ funcNo = 3 ∨ 4 ≤ funcNo.toNat := by
  simp only [← UInt32.toNat_inj, UInt32.reduceToNat]
  omega

/-- Supervisor calls keep to user memory, except for the call that asks for the time at the end
of user RAM. -/
theorem svcHandler_touchesUserMemory_iff (inputs : SyscallInputs) (arg0 arg1 arg2 funcNo : UInt32)
    (d : Device) :
    (svcHandler inputs arg0 arg1 arg2 funcNo d).TouchesUserMemory arg0 arg1 ↔
      ¬ (funcNo = 2 ∧ arg0 = 0x20005000) := by
  obtain rfl | rfl | rfl | rfl | hother := funcNo_cases funcNo
  · have htouches := sysCallReset_touches inputs arg0 arg1 arg2 d
    exact iff_of_true htouches (by simp)
  · have htouches := sysCallEnableDisableIrq_touches inputs arg0 arg1 arg2 d
    exact iff_of_true htouches (by simp)
  · apply (sysCallMillis_touches_iff inputs arg0 arg1 arg2 d).trans
    simp
  · have htouches := sysCallWriteUsbSerial_touches inputs arg0 arg1 arg2 d
    exact iff_of_true htouches (by simp)
  · have hne : funcNo ≠ 2 := by
      rintro rfl
      exact absurd hother (by decide)
    rw [svcHandler_none inputs arg0 arg1 arg2 d hother]
    exact iff_of_true (touchesUserMemory_of_nil rfl rfl arg0 arg1) fun h => hne h.1

/-- A program asks for the time at the first address behind its RAM. -/
theorem svcHandler_stores_behind_ram :
    ¬ (svcHandler ⟨1, true, fun _ => true, fun _ => false⟩ 0x20005000 0 0 2
      (Device.initial (fun _ => 0xFF) ⟨0x08000100, 0x08000200⟩)).TouchesUserMemory
        0x20005000 0 := by
  rintro ⟨hstores, -⟩
  have hin : InUserRam 0x20005000 := hstores _ (by decide)
  exact absurd hin.2 (by decide)

/-- The listed stores are all that a call changes of memory. -/
theorem svcHandler_mem (inputs : SyscallInputs) (arg0 arg1 arg2 funcNo : UInt32) (d : Device)
    {x : ℕ} (hx : x ∉ accessedBytes (svcHandler inputs arg0 arg1 arg2 funcNo d).stores) :
    (svcHandler inputs arg0 arg1 arg2 funcNo d).dev.mem x = d.mem x := by
  obtain rfl | rfl | rfl | rfl | hother := funcNo_cases funcNo
  · rfl
  · change (sysCallEnableDisableIrq inputs arg0 arg1 arg2 (.start d)).dev.mem x = d.mem x
    unfold sysCallEnableDisableIrq
    split <;> rfl
  · change x ∉ accessedBytes (sysCallMillis inputs arg0 arg1 arg2 (.start d)).stores at hx
    change (sysCallMillis inputs arg0 arg1 arg2 (.start d)).dev.mem x = d.mem x
    revert hx
    unfold sysCallMillis
    split_ifs
    any_goals exact fun _ => rfl
    intro hx
    apply overlay_outside
    simp only [SyscallRun.storeWord, SyscallRun.start, accessedBytes, List.nil_append,
      List.flatMap_singleton, List.mem_map, List.mem_range, not_exists, not_and] at hx
    have hbyte := hx (x - arg0.toNat)
    rw [toLE_length]
    omega
  · change (sysCallWriteUsbSerial inputs arg0 arg1 arg2 (.start d)).dev.mem x = d.mem x
    obtain hkept | ⟨hloop, -⟩ := sysCallWriteUsbSerial_cases inputs arg0 arg1 arg2 (.start d)
    · rw [hkept]
      rfl
    · rw [hloop, (usbSerialLoop_frame inputs arg0 arg1.toNat 0 (.start d)).2]
      rfl
  · rw [svcHandler_none inputs arg0 arg1 arg2 d hother]
    rfl

end BluePill
