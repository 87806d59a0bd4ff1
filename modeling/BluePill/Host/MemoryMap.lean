import BluePill.Host.Scan
import BluePill.Host.TargetFlash

/-! `qXfer`: the memory map of a target as a document, and the pieces of a document that GDB asks
for. -/
namespace BluePill
open Lib

/-- `struct target_ram`. -/
structure TargetRam where
  start : ℕ
  length : ℕ
  deriving DecidableEq, Repr

/-- The two regions that `stm32f1_probe` adds, the later one in front. -/
def stm32f1Ram : List TargetRam := [⟨0x40001000, 0x23400⟩, ⟨0x20000000, 0x5000⟩]

/-- `snprintf(&tmp[i], len - i, ..)` and `i +=`: the text so far, and `i`. The text is cut to the
buffer, `i` counts it whole, and an `i` behind the buffer makes the size wrap. -/
def snprintfAt (size : ℕ) (text : List UInt8) (s : List UInt8 × ℕ) :
    Except Fault (List UInt8 × ℕ) :=
  if s.2 > size then .error .outOfBounds
  else .ok (s.1 ++ text.take (size - s.2 - 1), s.2 + text.length)

def mapRamText (r : TargetRam) : List UInt8 :=
  ascii "<memory type=\"ram\" start=\"0x" ++ printHexPadded false 8 r.start ++
    ascii "\" length=\"0x" ++ printHex false r.length ++ ascii "\"/>"

def mapFlashText (f : TargetFlash) : List UInt8 × List UInt8 :=
  (ascii "<memory type=\"flash\" start=\"0x" ++ printHexPadded false 8 f.start ++
    ascii "\" length=\"0x" ++ printHex false f.length ++ ascii "\">",
  ascii "<property name=\"blocksize\">0x" ++ printHex false f.blocksize ++
    ascii "</property></memory>")

/-- The texts of `target_mem_map` in their order. -/
def memMapTexts (ram : List TargetRam) (flash : List TargetFlash) : List (List UInt8) :=
  ascii "<memory-map>" :: ram.map mapRamText ++
    flash.flatMap (fun f => [(mapFlashText f).1, (mapFlashText f).2]) ++ [ascii "</memory-map>"]

/-- `target_mem_map` into a buffer of `size` bytes. Its result is not looked at. -/
def targetMemMap (ram : List TargetRam) (flash : List TargetFlash) (size : ℕ) :
    Except Fault (List UInt8) := do
  let (text, _) ← (memMapTexts ram flash).foldlM (fun s text => snprintfAt size text s) ([], 0)
  return text

/-- `target_tdesc`: no target has a description. -/
def targetTdesc : List UInt8 := []

/-- The whole document. -/
def memMapDocument (ram : List TargetRam) (flash : List TargetFlash) : List UInt8 :=
  (memMapTexts ram flash).flatten

theorem snprintfAt_take {size : ℕ} {front : List UInt8} (hle : front.length ≤ size)
    (text : List UInt8) : snprintfAt size text (front.take (size - 1), front.length) =
      .ok ((front ++ text).take (size - 1), (front ++ text).length) := by
  unfold snprintfAt
  rw [if_neg (by simpa using hle), List.take_append, List.length_append,
    show size - front.length - 1 = size - 1 - front.length by omega]

/-- What was written is the front of the texts so far; a write begins behind the buffer when the
texts in front of it do not fit. -/
theorem snprintfAt_foldlM (size : ℕ) (front : List UInt8) (texts : List (List UInt8))
    (last : List UInt8) :
    (texts ++ [last]).foldlM (fun s text => snprintfAt size text s)
        (front.take (size - 1), front.length) =
      if front.length + texts.flatten.length ≤ size then
        .ok ((front ++ texts.flatten ++ last).take (size - 1),
          (front ++ texts.flatten ++ last).length)
      else .error .outOfBounds := by
  induction texts generalizing front with
  | nil =>
    rw [List.nil_append, List.foldlM_cons, List.flatten_nil, List.length_nil, Nat.add_zero,
      List.append_nil]
    by_cases hle : front.length ≤ size
    · rw [if_pos hle, bind_of_ok (snprintfAt_take hle last)]
      rfl
    · have hbehind : snprintfAt size last (front.take (size - 1), front.length) =
          .error .outOfBounds := if_pos (not_le.mp hle)
      rw [if_neg hle, bind_of_error hbehind]
  | cons text texts ih =>
    rw [List.cons_append, List.foldlM_cons, List.flatten_cons]
    by_cases hle : front.length ≤ size
    · rw [bind_of_ok (snprintfAt_take hle text), ih]
      simp only [List.length_append, List.append_assoc, Nat.add_assoc]
    · have hbehind : snprintfAt size text (front.take (size - 1), front.length) =
          .error .outOfBounds := if_pos (not_le.mp hle)
      have hlong : ¬ front.length + (text ++ texts.flatten).length ≤ size := by omega
      rw [if_neg hlong, bind_of_error hbehind]

theorem targetMemMap_eq (ram : List TargetRam) (flash : List TargetFlash) (size : ℕ) :
    ∃ front, memMapDocument ram flash = front ++ ascii "</memory-map>" ∧
      targetMemMap ram flash size =
        if front.length ≤ size then .ok ((memMapDocument ram flash).take (size - 1))
        else .error .outOfBounds := by
  obtain ⟨texts, htexts⟩ : ∃ texts, memMapTexts ram flash = texts ++ [ascii "</memory-map>"] :=
    ⟨_, rfl⟩
  have hfold := snprintfAt_foldlM size [] texts (ascii "</memory-map>")
  have hdocument : memMapDocument ram flash = texts.flatten ++ ascii "</memory-map>" := by
    rw [memMapDocument, htexts, List.flatten_append, List.flatten_singleton]
  rw [List.take_nil, List.length_nil, Nat.zero_add, List.nil_append, ← hdocument] at hfold
  refine ⟨texts.flatten, hdocument, ?_⟩
  unfold targetMemMap
  rw [htexts, hfold]
  split_ifs <;> rfl

/-- Into a buffer of `size` bytes the document is written whole, or cut to the buffer where it does
not fit; a write begins behind the buffer exactly when the document does not fit even without its
closing tag. -/
theorem targetMemMap_exact (ram : List TargetRam) (flash : List TargetFlash) (size : ℕ) :
    targetMemMap ram flash size =
      if (memMapDocument ram flash).length ≤ size + (ascii "</memory-map>").length then
        .ok ((memMapDocument ram flash).take (size - 1))
      else .error .outOfBounds := by
  obtain ⟨front, hdocument, hmap⟩ := targetMemMap_eq ram flash size
  have hlength : (memMapDocument ram flash).length ≤ size + (ascii "</memory-map>").length ↔
      front.length ≤ size := by
    rw [hdocument, List.length_append]
    omega
  rw [hmap]
  exact if_congr hlength.symm rfl rfl

theorem targetMemMap_whole {ram : List TargetRam} {flash : List TargetFlash} {size : ℕ}
    (hfits : (memMapDocument ram flash).length < size) :
    targetMemMap ram flash size = .ok (memMapDocument ram flash) := by
  obtain ⟨front, hdocument, hmap⟩ := targetMemMap_eq ram flash size
  have hfront : front.length ≤ size := by
    rw [hdocument, List.length_append] at hfits
    omega
  rw [hmap, if_pos hfront, List.take_of_length_le (by omega)]

/-- With numbers of 32 bits the document stays short. -/
theorem memMapDocument_length_le {ram : List TargetRam} {flash : List TargetFlash}
    (hram : ∀ r ∈ ram, r.start < 4294967296 ∧ r.length < 4294967296)
    (hflash : ∀ f ∈ flash, f.start < 4294967296 ∧ f.length < 4294967296 ∧
      f.blocksize < 4294967296) :
    (memMapDocument ram flash).length ≤ 25 + 59 * ram.length + 117 * flash.length := by
  have hdigits : ∀ n, n < 4294967296 → (printHex false n).length ≤ 8 :=
    fun n hn => printHex_length_le false (by norm_num) (by simpa using hn)
  have hpadded : ∀ n, n < 4294967296 → (printHexPadded false 8 n).length = 8 :=
    fun n hn => printHexPadded_length false (by norm_num) (by simpa using hn)
  have hrams : (ram.map mapRamText).flatten.length ≤ 59 * ram.length := by
    induction ram with
    | nil => simp
    | cons r ram ih =>
      obtain ⟨hstart, hlength⟩ := hram r List.mem_cons_self
      have hrest := ih fun r' hr' => hram r' (List.mem_cons_of_mem r hr')
      have htext : (mapRamText r).length ≤ 59 := by
        have h₁ : (ascii "<memory type=\"ram\" start=\"0x").length = 28 := by decide
        have h₂ : (ascii "\" length=\"0x").length = 12 := by decide
        have h₃ : (ascii "\"/>").length = 3 := by decide
        have hle := hdigits r.length hlength
        simp only [mapRamText, List.length_append, h₁, h₂, h₃, hpadded r.start hstart]
        omega
      rw [List.map_cons, List.flatten_cons, List.length_append, List.length_cons]
      omega
  have hflashes : (flash.flatMap fun f => [(mapFlashText f).1, (mapFlashText f).2]).flatten.length ≤
      117 * flash.length := by
    induction flash with
    | nil => simp
    | cons f flash ih =>
      obtain ⟨hstart, hlength, hsize⟩ := hflash f List.mem_cons_self
      have hrest := ih fun f' hf' => hflash f' (List.mem_cons_of_mem f hf')
      have htext : (mapFlashText f).1.length + (mapFlashText f).2.length ≤ 117 := by
        have h₁ : (ascii "<memory type=\"flash\" start=\"0x").length = 30 := by decide
        have h₂ : (ascii "\" length=\"0x").length = 12 := by decide
        have h₃ : (ascii "\">").length = 2 := by decide
        have h₄ : (ascii "<property name=\"blocksize\">0x").length = 29 := by decide
        have h₅ : (ascii "</property></memory>").length = 20 := by decide
        have hle := hdigits f.length hlength
        have hle' := hdigits f.blocksize hsize
        simp only [mapFlashText, List.length_append, h₁, h₂, h₃, h₄, h₅, hpadded f.start hstart]
        omega
      rw [List.flatMap_cons, List.flatten_append, List.length_append, List.flatten_cons,
        List.flatten_singleton, List.length_append, List.length_cons]
      omega
  have hopen : (ascii "<memory-map>").length = 12 := by decide
  have hclose : (ascii "</memory-map>").length = 13 := by decide
  unfold memMapDocument memMapTexts
  rw [List.cons_append, List.cons_append, List.flatten_cons, List.flatten_append,
    List.flatten_append, List.flatten_singleton]
  simp only [List.length_append, hopen, hclose]
  omega

/-- `handle_q_string_reply`: the answer for the piece that `param` asks for. The buffer for it is on
a stack of `stack` bytes. -/
def qStringReply (str param : List UInt8) (stack : ℕ) : Except Fault (List UInt8) :=
  let scanned := do
    let (addr, rest) ← scanHex 8 param
    let rest ← expectChar 0x2C rest
    let (len, _) ← scanHex 8 rest
    return (addr, len)
  match scanned with
  | none => .ok (ascii "E01")
  | some (addr, len) =>
    if addr < str.length then
      if len + 2 > stack then .error .outOfBounds
      else .ok (0x6D :: (str.drop addr).take len)
    else if addr = str.length then .ok (ascii "l")
    else .ok (ascii "E01")

end BluePill
