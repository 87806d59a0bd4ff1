import BluePill.Host.TargetsInit
import BluePill.Host.ReadBack

/-! What a memory read returns, byte by byte, and when it depends on how it is split. -/
namespace BluePill
open Lib

theorem and_two_eq_zero_iff (n : ℕ) : n &&& 0x02 = 0 ↔ n / 2 % 2 = 0 := by
  have h := Nat.and_two_pow n 1
  rw [pow_one] at h
  rw [h, Nat.testBit_eq_decide_div_mod_eq, pow_one]
  by_cases hbit : n / 2 % 2 = 1
  · simp [hbit]
  · have hzero : n / 2 % 2 = 0 := by omega
    simp [hzero]

theorem accSizeOf_eq (n : ℕ) : ∃ w : AccessWidth, accSizeOf n = w.bytes ∧ w.bytes ∣ n := by
  unfold accSizeOf
  split_ifs with h₁ h₂
  · exact ⟨.byte, rfl, Nat.one_dvd n⟩
  · rw [ne_eq, not_not, Nat.and_one_is_mod] at h₁
    exact ⟨.half, rfl, Nat.dvd_of_mod_eq_zero h₁⟩
  · rw [ne_eq, not_not] at h₁ h₂
    rw [Nat.and_one_is_mod] at h₁
    rw [and_two_eq_zero_iff] at h₂
    refine ⟨.word, rfl, Nat.dvd_of_mod_eq_zero ?_⟩
    show n % 4 = 0
    omega

/-- Of two element sizes the smaller divides the larger. -/
theorem bytes_dvd_of_le {v w : AccessWidth} (h : v.bytes ≤ w.bytes) : v.bytes ∣ w.bytes := by
  cases v <;> cases w <;> revert h <;> decide

/-- The element size divides the address and the length. -/
theorem accSize_eq (src len : ℕ) :
    ∃ w : AccessWidth, (if accSizeOf src < accSizeOf len then accSizeOf src else accSizeOf len) =
      w.bytes ∧ w.bytes ∣ src ∧ w.bytes ∣ len := by
  obtain ⟨v, hv, hsrc⟩ := accSizeOf_eq src
  obtain ⟨w, hw, hlen⟩ := accSizeOf_eq len
  rw [hv, hw]
  split_ifs with hlt
  · exact ⟨v, rfl, hsrc, (bytes_dvd_of_le hlt.le).trans hlen⟩
  · exact ⟨w, rfl, (bytes_dvd_of_le (not_lt.mp hlt)).trans hsrc, hlen⟩

/-- What `stm32_mem_read` returns: the packets' ranges, each answered as a whole. -/
def readAnswer (mem : ℕ → UInt8) (a n : ℕ) : List UInt8 :=
  (cuts 56 a n).flatMap fun c => answeredBytes mem c.1 c.2

/-- The packet of a read of `[a, a + n)` that carries the byte `i` lies in one entry of the
table. -/
def PacketInRegion (a n i : ℕ) : Prop :=
  InOneRegion (a + i / 56 * 56) (a + min (i / 56 * 56 + 56) n)

instance (a n i : ℕ) : Decidable (PacketInRegion a n i) := by
  unfold PacketInRegion
  infer_instance

theorem readAnswer_getElem? (mem : ℕ → UInt8) {a n i : ℕ} (hi : i < n) :
    (readAnswer mem a n)[i]? = some (if PacketInRegion a n i then mem (a + i) else 0xFF) := by
  have hstart : i / 56 * 56 ≤ i := Nat.div_mul_le_self i 56
  have hplace : i % 56 = i - i / 56 * 56 := by omega
  have hend : a + i / 56 * 56 + min 56 (n - i / 56 * 56) = a + min (i / 56 * 56 + 56) n := by
    omega
  have hin : i % 56 < min 56 (n - i / 56 * 56) := by omega
  rw [readAnswer, getElem?_flatMap_cuts (by norm_num) (answeredBytes mem)
    (answeredBytes_length mem) a n i hi, answeredBytes, hend]
  by_cases h : PacketInRegion a n i
  · have haddr : a + i / 56 * 56 + i % 56 = a + i := by omega
    have hlen : i % 56 < (readRange mem (a + i / 56 * 56) (min 56 (n - i / 56 * 56))).length := by
      rw [readRange_length]
      exact hin
    have hregion : InOneRegion (a + i / 56 * 56) (a + min (i / 56 * 56 + 56) n) := h
    rw [if_pos h, if_pos hregion, List.getElem?_eq_getElem hlen, readRange_getElem, haddr]
  · have hregion : ¬ InOneRegion (a + i / 56 * 56) (a + min (i / 56 * 56 + 56) n) := h
    rw [if_neg h, if_neg hregion]
    exact List.getElem?_replicate_of_lt hin

theorem readAnswer_length (mem : ℕ → UInt8) (a n : ℕ) : (readAnswer mem a n).length = n :=
  length_flatMap_cuts (by norm_num) (answeredBytes mem) (answeredBytes_length mem) a n

/-- A short read is one packet. -/
theorem readAnswer_single (mem : ℕ → UInt8) (a : ℕ) {n : ℕ} (hn : 0 < n) (hle : n ≤ 56) :
    readAnswer mem a n = answeredBytes mem a n := by
  rw [readAnswer, cuts_pos (by norm_num) hn, show n - 56 = 0 by omega, cuts_zero,
    min_eq_right hle]
  exact List.append_nil _

/-- `stm32_mem_read` against the firmware. -/
theorem stm32MemRead_answers {h : Host Link} {d : Device} (hdev : h.link.device = some d)
    (hfree : d.inEndpoint = none) {a n : ℕ} (hwrap : a + n < 4294967296) :
    ∃ h' d', stm32MemRead firmwareLink a n h = .ok (readAnswer d.mem a n, h') ∧
      h'.link.device = some d' ∧ d'.inEndpoint = none ∧ d'.mem = d.mem := by
  obtain ⟨w, hw, hsrc, hlen⟩ := accSize_eq a n
  obtain ⟨h', hread, hat⟩ := memRead_answers (Link.at_of_device hdev hfree) hlen hwrap
  obtain ⟨d', hdev', hfree', htarget⟩ := hat.device
  have hmem : d'.mem = (d.readAll w (cuts 56 a n)).mem := mem_of_target htarget
  refine ⟨h', d', ?_, hdev', hfree', hmem⟩
  unfold stm32MemRead
  simp only [hw]
  exact hread

/-- No entry of the table begins or ends strictly inside `[a, a + n)`. -/
def Unbroken (a n : ℕ) : Prop :=
  ∀ r ∈ memoryAccessRegions, (r.first ≤ a ∧ a + n ≤ r.last) ∨ a + n ≤ r.first ∨ r.last ≤ a

/-- In an unbroken range every part lies in one entry exactly when the whole does. -/
theorem Unbroken.inOneRegion_iff {a n first last : ℕ} (h : Unbroken a n) (hlo : a ≤ first)
    (hlt : first < last) (hhi : last ≤ a + n) : InOneRegion first last ↔ InOneRegion a (a + n) := by
  constructor
  · intro ⟨r, hr, hfirst, hlast⟩
    refine ⟨r, hr, ?_⟩
    rcases h r hr with hin | hbelow | habove
    · exact hin
    · omega
    · omega
  · intro ⟨r, hr, hfirst, hlast⟩
    exact ⟨r, hr, hfirst.trans hlo, hhi.trans hlast⟩

theorem Unbroken.readAnswer_eq {mem : ℕ → UInt8} {a n first k : ℕ} (h : Unbroken a n)
    (hlo : a ≤ first) (hhi : first + k ≤ a + n) :
    readAnswer mem first k =
      if InOneRegion a (a + n) then readRange mem first k else List.replicate k 0xFF := by
  apply List.ext_getElem?
  intro i
  by_cases hi : i < k
  · have hstart : i / 56 * 56 ≤ i := Nat.div_mul_le_self i 56
    have hiff : PacketInRegion first k i ↔ InOneRegion a (a + n) :=
      h.inOneRegion_iff (by omega) (by omega) (by omega)
    rw [readAnswer_getElem? mem hi]
    split_ifs with hpacket hregion hregion
    · rw [List.getElem?_eq_getElem (by rw [readRange_length]; exact hi), readRange_getElem]
    · exact absurd (hiff.mp hpacket) hregion
    · exact absurd (hiff.mpr hregion) hpacket
    · exact (List.getElem?_replicate_of_lt hi).symm
  · rw [List.getElem?_eq_none (by rw [readAnswer_length]; omega)]
    split_ifs
    · exact (List.getElem?_eq_none (by rw [readRange_length]; omega)).symm
    · exact (List.getElem?_eq_none (by rw [List.length_replicate]; omega)).symm

/-- A split at the end of a packet, or in a range that no entry breaks, changes nothing. -/
theorem readAnswer_split (mem : ℕ → UInt8) {a n₁ n₂ : ℕ} (h : 56 ∣ n₁ ∨ Unbroken a (n₁ + n₂)) :
    readAnswer mem a (n₁ + n₂) = readAnswer mem a n₁ ++ readAnswer mem (a + n₁) n₂ := by
  rcases h with hdvd | hunbroken
  · unfold readAnswer
    rw [cuts_append (by norm_num) a hdvd, List.flatMap_append]
  · rw [hunbroken.readAnswer_eq le_rfl le_rfl, hunbroken.readAnswer_eq le_rfl (by omega),
      hunbroken.readAnswer_eq (by omega) (by omega)]
    split_ifs
    · rw [readRange_append]
    · rw [List.replicate_append_replicate]

/-- Every byte is the target byte where its packet lies in one entry of the table, `0xFF`
elsewhere; two reads one after the other return the same where the split is harmless. -/
theorem stm32MemRead_bytes (h : Host Link) (d : Device) (hdev : h.link.device = some d)
    (hfree : d.inEndpoint = none) (a n : ℕ) (hwrap : a + n < 4294967296) :
    ∃ data h', stm32MemRead firmwareLink a n h = .ok (data, h') ∧ data.length = n ∧
      (∀ i < n, data[i]? = some (if PacketInRegion a n i then d.mem (a + i) else 0xFF)) ∧
      ∀ n₁ n₂, n = n₁ + n₂ → 56 ∣ n₁ ∨ Unbroken a n →
        ∃ data₁ h₁ data₂ h₂, stm32MemRead firmwareLink a n₁ h = .ok (data₁, h₁) ∧
          stm32MemRead firmwareLink (a + n₁) n₂ h₁ = .ok (data₂, h₂) ∧ data = data₁ ++ data₂ := by
  obtain ⟨h', d', hread, _, _, _⟩ := stm32MemRead_answers hdev hfree hwrap
  refine ⟨_, h', hread, readAnswer_length d.mem a n, ?_, ?_⟩
  · intro i hi
    exact readAnswer_getElem? d.mem hi
  · intro n₁ n₂ hn hsplit
    subst hn
    obtain ⟨h₁, d₁, hread₁, hdev₁, hfree₁, hmem₁⟩ :=
      stm32MemRead_answers (a := a) (n := n₁) hdev hfree (by omega)
    obtain ⟨h₂, d₂, hread₂, _, _, _⟩ :=
      stm32MemRead_answers (a := a + n₁) (n := n₂) hdev₁ hfree₁ (by omega)
    rw [hmem₁] at hread₂
    exact ⟨_, h₁, _, h₂, hread₁, hread₂, readAnswer_split d.mem hsplit⟩

/-- The byte `0x08000000` of flash is not blank. -/
def markedMemory : ℕ → UInt8 := fun x => if x = 0x08000000 then 0x12 else 0xFF

theorem stm32MemRead_bytes_marked :
    ∃ data h', stm32MemRead firmwareLink 0x08000000 60 (Host.fresh markedMemory) = .ok (data, h') ∧
      data.length = 60 ∧
      (∀ i < 60, data[i]? = some (if PacketInRegion 0x08000000 60 i then
        markedMemory (0x08000000 + i) else 0xFF)) ∧
      ∀ n₁ n₂, 60 = n₁ + n₂ → 56 ∣ n₁ ∨ Unbroken 0x08000000 60 →
        ∃ data₁ h₁ data₂ h₂,
          stm32MemRead firmwareLink 0x08000000 n₁ (Host.fresh markedMemory) = .ok (data₁, h₁) ∧
          stm32MemRead firmwareLink (0x08000000 + n₁) n₂ h₁ = .ok (data₂, h₂) ∧
          data = data₁ ++ data₂ :=
  stm32MemRead_bytes (Host.fresh markedMemory) (.initial markedMemory bootSymbols) rfl rfl
    0x08000000 60 (by decide)

/-- A read that begins eight bytes below the flash region answers `0xFF` for a readable byte,
and the same range read in two halves returns something else. -/
theorem stm32MemRead_straddles :
    markedMemory 0x08000000 = 0x12 ∧ InOneRegion 0x08000000 0x08000001 ∧
      (∃ h', stm32MemRead firmwareLink 0x07FFFFF8 16 (Host.fresh markedMemory) =
        .ok (List.replicate 16 0xFF, h')) ∧
      ∃ h₁ h₂, stm32MemRead firmwareLink 0x07FFFFF8 8 (Host.fresh markedMemory) =
          .ok (List.replicate 8 0xFF, h₁) ∧
        stm32MemRead firmwareLink 0x08000000 8 h₁ = .ok (0x12 :: List.replicate 7 0xFF, h₂) := by
  refine ⟨rfl, by decide, ?_, ?_⟩
  · obtain ⟨h', _, hread, _⟩ := stm32MemRead_answers (h := Host.fresh markedMemory)
      (d := .initial markedMemory bootSymbols) rfl rfl (show 0x07FFFFF8 + 16 < 4294967296 by decide)
    rw [readAnswer_single _ _ (by decide) (by decide)] at hread
    exact ⟨h', hread⟩
  · obtain ⟨h₁, d₁, hread₁, hdev₁, hfree₁, hmem₁⟩ := stm32MemRead_answers
      (h := Host.fresh markedMemory) (d := .initial markedMemory bootSymbols) rfl rfl
      (show 0x07FFFFF8 + 8 < 4294967296 by decide)
    obtain ⟨h₂, _, hread₂, _⟩ := stm32MemRead_answers hdev₁ hfree₁
      (show 0x08000000 + 8 < 4294967296 by decide)
    rw [readAnswer_single _ _ (by decide) (by decide)] at hread₁ hread₂
    rw [hmem₁] at hread₂
    exact ⟨h₁, h₂, hread₁, hread₂⟩

end BluePill
