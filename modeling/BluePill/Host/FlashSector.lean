import BluePill.Host.FirmwareLink
import BluePill.Host.TargetFlash

/-! One flash sector written through the protocol: what the firmware programs, and that it
programs every half-word once. -/
namespace BluePill
open Lib

def programmedAddress : FlashEvent → Option ℕ
  | .programmed address _ => some address
  | _ => none

/-- The addresses programmed in a history. -/
def programmed (log : List FlashEvent) : List ℕ := log.filterMap programmedAddress

/-- A history that programs the half-words of `[lo, hi)` in ascending order, each at most
once. -/
structure ProgramsOnce (log : List FlashEvent) (lo hi : ℕ) : Prop where
  ascending : (programmed log).Pairwise (· < ·)
  within : ∀ x ∈ programmed log, lo ≤ x ∧ x < hi
  aligned : ∀ x ∈ programmed log, 2 ∣ x

theorem ProgramsOnce.nil (lo hi : ℕ) : ProgramsOnce [] lo hi := by
  constructor
  · exact List.Pairwise.nil
  · exact fun x hx => absurd hx List.not_mem_nil
  · exact fun x hx => absurd hx List.not_mem_nil

theorem ProgramsOnce.append {log log' : List FlashEvent} {lo mid hi : ℕ}
    (h : ProgramsOnce log lo mid) (h' : ProgramsOnce log' mid hi) (hlo : lo ≤ mid)
    (hhi : mid ≤ hi) : ProgramsOnce (log ++ log') lo hi := by
  have hsplit : programmed (log ++ log') = programmed log ++ programmed log' :=
    List.filterMap_append
  constructor
  · rw [hsplit, List.pairwise_append]
    refine ⟨h.ascending, h'.ascending, ?_⟩
    intro x hx y hy
    have hxm := (h.within x hx).2
    have hym := (h'.within y hy).1
    omega
  · intro x hx
    rw [hsplit] at hx
    rcases List.mem_append.mp hx with hx | hx
    · have hin := h.within x hx
      omega
    · have hin := h'.within x hx
      omega
  · intro x hx
    rw [hsplit] at hx
    rcases List.mem_append.mp hx with hx | hx
    · exact h.aligned x hx
    · exact h'.aligned x hx

theorem ProgramsOnce.mono {log : List FlashEvent} {lo hi hi' : ℕ} (h : ProgramsOnce log lo hi)
    (hhi : hi ≤ hi') : ProgramsOnce log lo hi' := by
  constructor
  · exact h.ascending
  · intro x hx
    have hin := h.within x hx
    omega
  · exact h.aligned

theorem ProgramsOnce.nodup {log : List FlashEvent} {lo hi : ℕ} (h : ProgramsOnce log lo hi) :
    (programmed log).Nodup :=
  h.ascending.imp fun hlt => Nat.ne_of_lt hlt

theorem programsOnce_halfWords (bytes : List UInt8) (a : ℕ) (heven : 2 ∣ bytes.length)
    (ha : 2 ∣ a) : ProgramsOnce (halfWords a bytes) a (a + bytes.length) := by
  induction a, bytes using halfWords.induct with
  | case1 a lo hi rest ih =>
    simp only [List.length_cons] at heven
    have hrest := ih (by omega) (by omega)
    have hone : ProgramsOnce [.programmed a (ofLE [lo, hi])] a (a + 2) := by
      have haddr : programmed [.programmed a (ofLE [lo, hi])] = [a] := rfl
      constructor
      · rw [haddr]
        exact List.pairwise_singleton _ a
      · rw [haddr]
        intro x hx
        rw [List.mem_singleton.mp hx]
        omega
      · rw [haddr]
        intro x hx
        rwa [List.mem_singleton.mp hx]
    have hall := hone.append hrest (by omega) (by omega)
    rw [halfWords, List.length_cons, List.length_cons,
      show a + (rest.length + 1 + 1) = a + 2 + rest.length by omega]
    exact hall
  | case2 bytes a hshort =>
    rw [halfWords]
    · exact .nil a _
    · exact hshort

/-- The half-words of two runs of bytes, the first one even. -/
theorem halfWords_append (a : ℕ) (xs ys : List UInt8) (heven : 2 ∣ xs.length) :
    halfWords a (xs ++ ys) = halfWords a xs ++ halfWords (a + xs.length) ys := by
  induction a, xs using halfWords.induct with
  | case1 a lo hi rest ih =>
    simp only [List.length_cons] at heven
    rw [List.cons_append, List.cons_append, halfWords, ih (by omega), halfWords, List.cons_append,
      List.length_cons, List.length_cons, show a + (rest.length + 1 + 1) = a + 2 + rest.length by
        omega]
  | case2 xs a hshort =>
    rcases xs with _ | ⟨lo, _ | ⟨hi, rest⟩⟩
    · rfl
    · simp at heven
    · exact absurd rfl (hshort lo hi rest)

/-- In flash, pieces of even length program the half-words of the whole. -/
theorem writtenAll_flash (d : Device) (w : AccessWidth) {a : ℕ} {data : List UInt8}
    {ts : List (ℕ × List UInt8)} (htiles : Tiles a data ts)
    (hflash : ∀ t ∈ ts, isFlashRegion t.1 = true) (heven : ∀ t ∈ ts, 2 ∣ t.2.length) :
    d.writtenAll w ts = { d with
      mem := overlay d.mem a data
      flashLog := d.flashLog ++ halfWords a data } := by
  induction htiles generalizing d with
  | nil a =>
    rw [overlay_nil]
    simp [Device.writtenAll, halfWords]
  | @cons a c rest ts hc htiles ih =>
    have hcons : d.writtenAll w ((a, c) :: ts) = (d.written a w c).writtenAll w ts := rfl
    have hhead : d.written a w c = { d with
        mem := overlay d.mem a c
        flashLog := d.flashLog ++ halfWords a c } := if_pos (hflash _ List.mem_cons_self)
    rw [hcons, ih (d.written a w c) (fun t ht => hflash t (List.mem_cons_of_mem _ ht))
      (fun t ht => heven t (List.mem_cons_of_mem _ ht)), hhead, overlay_append,
      halfWords_append a c rest (heven _ List.mem_cons_self), ← List.append_assoc]

variable {h : Host Link} {d : Device} {S R : List (List UInt8)}

/-- `stm32f1_flash_write` of even data into a blank range of user flash. -/
theorem stm32f1FlashWrite_answers (hat : h.link.At d S R) {b : ℕ} {bytes : List UInt8}
    (heven : 2 ∣ bytes.length) (hlo : 0x08004000 ≤ b) (hhi : b + bytes.length ≤ 0x08020000)
    (hblank : ∀ x, b ≤ x → x < b + bytes.length → d.mem x = 0xFF) :
    ∃ h' S' R', stm32f1FlashWrite firmwareLink b bytes h = .ok (0, h') ∧ h'.link.At { d with
      mem := overlay d.mem b bytes
      flashLog := d.flashLog ++ halfWords b bytes } S' R' := by
  have hpiece : ∀ t ∈ pieces 56 b bytes, isFlashRegion t.1 = true ∧ 2 ∣ t.2.length ∧
      ∀ x, t.1 ≤ x → x < t.1 + t.2.length → d.mem x = 0xFF := by
    intro t ht
    have hcut := mem_spans_of_mem_pieces ht
    have hle := mem_cuts_le hcut
    have hne : t.2.length ≠ 0 := fun hzero => (tiles_pieces (by norm_num) b bytes).ne_nil ht
      (List.length_eq_zero_iff.mp hzero)
    refine ⟨?_, dvd_snd_of_mem_cuts (by norm_num) heven hcut, ?_⟩
    · rw [isFlashRegion, decide_eq_true_iff]
      omega
    · intro x hlow hhigh
      exact hblank x (by omega) (by omega)
  obtain ⟨h', hwrite, hat'⟩ := memWrite_answers (w := .half) hat heven (by omega)
    (fun t ht _ => (hpiece t ht).2)
  rw [writtenAll_flash d .half (tiles_pieces (by norm_num) b bytes)
    (fun t ht => (hpiece t ht).1) (fun t ht => (hpiece t ht).2.1)] at hat'
  have hinit : stm32FlashWrite firmwareLink b bytes h = .ok h' := by
    unfold stm32FlashWrite
    rw [bind_of_ok (show TargetSTM32F1.memWrite firmwareLink b 2 bytes h = _ from hwrite)]
    rfl
  refine ⟨h', _, _, ?_, hat'⟩
  unfold stm32f1FlashWrite
  rw [bind_of_ok hinit]
  rfl

end BluePill
