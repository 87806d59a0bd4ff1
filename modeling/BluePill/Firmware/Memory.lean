import BluePill.Firmware.Device

/-! `Memory.cpp`: the table of readable regions and the copy loop. -/
namespace BluePill
open Lib

structure MemoryRegion where
  first : ℕ
  last : ℕ
  attributes : ℕ
  deriving DecidableEq, Repr

/-- `begin` and `end` of each entry, in the order of the source. -/
def memoryAccessRegions : List MemoryRegion :=
  [⟨0x08000000, 0x08020000, 0x03⟩,
   ⟨0x20000000, 0x20010000, 0x03⟩,
   ⟨0xE0000000, 0xE0100000, 0x03⟩,
   ⟨0x40000000, 0x40000C00, 0x03⟩,
   ⟨0x40002800, 0x40003400, 0x03⟩,
   ⟨0x40003800, 0x40003C00, 0x03⟩,
   ⟨0x40004400, 0x40004C00, 0x03⟩,
   ⟨0x40005400, 0x40005C00, 0x03⟩,
   ⟨0x40006400, 0x40006800, 0x03⟩,
   ⟨0x40006C00, 0x40007400, 0x03⟩,
   ⟨0x40010000, 0x40011C00, 0x03⟩,
   ⟨0x40012400, 0x40013400, 0x03⟩,
   ⟨0x40013800, 0x40013C00, 0x03⟩,
   ⟨0x40020000, 0x40020400, 0x03⟩,
   ⟨0x40021000, 0x40021400, 0x03⟩,
   ⟨0x40022000, 0x40022400, 0x03⟩,
   ⟨0x40023000, 0x40023400, 0x03⟩]

/-- Attributes of the first entry of `regions` that holds `[begin, end)`, zero if none does. -/
def checkRegions (regions : List MemoryRegion) (first last : ℕ) : ℕ :=
  match regions with
  | [] => 0
  | region :: rest =>
    if region.first ≤ first ∧ last ≤ region.last then region.attributes
    else checkRegions rest first last

def checkMemRegionAccess (first last : ℕ) : ℕ := checkRegions memoryAccessRegions first last

/-- The range lies inside one single entry of the table. -/
def InOneRegion (first last : ℕ) : Prop :=
  ∃ r ∈ memoryAccessRegions, r.first ≤ first ∧ last ≤ r.last

instance (first last : ℕ) : Decidable (InOneRegion first last) := by
  unfold InOneRegion
  infer_instance

theorem checkRegions_eq (regions : List MemoryRegion) (v : ℕ)
    (hv : ∀ r ∈ regions, r.attributes = v) (first last : ℕ) :
    checkRegions regions first last =
      if ∃ r ∈ regions, r.first ≤ first ∧ last ≤ r.last then v else 0 := by
  induction regions with
  | nil => simp [checkRegions]
  | cons r rest ih =>
    have ih := ih fun r' h' => hv r' (List.mem_cons_of_mem _ h')
    by_cases h : r.first ≤ first ∧ last ≤ r.last
    · have hex : ∃ r' ∈ r :: rest, r'.first ≤ first ∧ last ≤ r'.last := ⟨r, by simp, h⟩
      rw [checkRegions, if_pos h, if_pos hex, hv r (by simp)]
    · rw [checkRegions, if_neg h, ih]
      simp only [List.exists_mem_cons_iff, h, false_or]

/-- Every entry carries the same attributes, so the check is the containment test. -/
theorem checkMemRegionAccess_eq (first last : ℕ) :
    checkMemRegionAccess first last = if InOneRegion first last then 0x03 else 0 :=
  checkRegions_eq _ 0x03 (by decide) _ _

/-- The byte at `a` belongs to the user program: its flash behind the bootloader, its RAM. -/
def InUserFlash (a : ℕ) : Prop := 0x08004000 ≤ a ∧ a < 0x08020000

def InUserRam (a : ℕ) : Prop := 0x20001000 ≤ a ∧ a < 0x20005000

/-- The element type `dbg_memcpy` copies with. -/
inductive AccessWidth where
  | byte | half | word
  deriving DecidableEq, Repr

def AccessWidth.bytes : AccessWidth → ℕ
  | .byte => 1
  | .half => 2
  | .word => 4

theorem AccessWidth.bytes_pos (w : AccessWidth) : 0 < w.bytes := by cases w <;> decide

def accessWidth (align : ℕ) : AccessWidth :=
  if align = 4 then .word else if align = 2 then .half else .byte

/-- `while(copySize){ *cdst++ = *csrc++; copySize -= sizeof(..); }` over the copy of one
element at an offset. A countdown that steps over zero wraps and never meets zero again,
because the element size divides `2^32`. -/
def dbgMemcpyLoop {σ : Type} (w : AccessWidth) (copy : ℕ → σ → Except Fault σ)
    (copySize offset : ℕ) (s : σ) : Except Fault σ :=
  if copySize = 0 then .ok s
  else if copySize < w.bytes then .error .neverReturns
  else (copy offset s).bind fun s' =>
    dbgMemcpyLoop w copy (copySize - w.bytes) (offset + w.bytes) s'
termination_by copySize
decreasing_by
  have := w.bytes_pos
  omega

/-- `dbg_memcpy`; the fault mask set around the loop is not part of the state. -/
def dbgMemcpy {σ : Type} (copy : AccessWidth → ℕ → σ → Except Fault σ) (size align : ℕ) (s : σ) :
    Except Fault σ :=
  dbgMemcpyLoop (accessWidth align) (copy (accessWidth align)) size 0 s

/-- Invariant rule for the copy loop: a property indexed by the offset that one element
copy advances is advanced by the whole loop, and the loop ends. -/
theorem dbgMemcpyLoop_invariant {σ : Type} {w : AccessWidth} {copy : ℕ → σ → Except Fault σ}
    (P : ℕ → σ → Prop) {copySize offset : ℕ} {s : σ} (hdvd : w.bytes ∣ copySize) (h0 : P offset s)
    (hstep : ∀ off s, P off s → offset ≤ off → w.bytes ∣ off - offset →
      off + w.bytes ≤ offset + copySize → ∃ s', copy off s = .ok s' ∧ P (off + w.bytes) s') :
    ∃ s', dbgMemcpyLoop w copy copySize offset s = .ok s' ∧ P (offset + copySize) s' := by
  have hw := w.bytes_pos
  induction copySize using Nat.strong_induction_on generalizing offset s with
  | _ n ih =>
    rw [dbgMemcpyLoop]
    by_cases hz : n = 0
    · exact ⟨s, by simp [hz], by simpa [hz] using h0⟩
    · have hle : w.bytes ≤ n := Nat.le_of_dvd (Nat.pos_of_ne_zero hz) hdvd
      obtain ⟨s₁, hs₁, hP₁⟩ := hstep offset s h0 le_rfl (by simp) (by omega)
      have hrest := ih (n - w.bytes) (by omega) (Nat.dvd_sub hdvd (dvd_refl _)) hP₁ (by
        intro off t hP hoff hd hb
        refine hstep off t hP (by omega) ?_ (by omega)
        have hsum : off - offset = (off - (offset + w.bytes)) + w.bytes := by omega
        rw [hsum]
        exact Dvd.dvd.add hd (dvd_refl _))
      have hend : offset + w.bytes + (n - w.bytes) = offset + n := by omega
      rw [hend] at hrest
      rw [if_neg hz, if_neg (by omega), hs₁]
      exact hrest

/-- The copy returns where every element copy inside its size does. -/
theorem dbgMemcpy_ok {σ : Type} {copy : AccessWidth → ℕ → σ → Except Fault σ} (P : σ → Prop)
    {size align : ℕ} {s : σ} (hdvd : (accessWidth align).bytes ∣ size) (h : P s)
    (hstep : ∀ off s, P s → off + (accessWidth align).bytes ≤ size →
      ∃ s', copy (accessWidth align) off s = .ok s' ∧ P s') :
    ∃ s', dbgMemcpy copy size align s = .ok s' ∧ P s' := by
  obtain ⟨s', hs', hP⟩ := dbgMemcpyLoop_invariant (fun _ s => P s) hdvd h (by
    intro off t ht _ _ hle
    rw [Nat.zero_add] at hle
    exact hstep off t ht hle)
  exact ⟨s', hs', hP⟩

end BluePill
