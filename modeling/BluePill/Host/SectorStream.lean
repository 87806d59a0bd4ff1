import BluePill.Host.FlashDownload
import BluePill.Host.WriteAcks

/-! The sector buffer apart from the link: which sectors a write request hands over, with what
content, and what stays in the buffer. -/
namespace BluePill
open Lib

namespace TargetFlash

/-- The buffered sector. -/
def pending (f : TargetFlash) : List (ℕ × List UInt8) :=
  match f.buf with
  | none => []
  | some buf => if f.bufAddr ≠ noSector then [(f.bufAddr, buf.val)] else []

/-- The sector at `base` becomes the buffered one: what is handed over, and the buffer. -/
def select (f : TargetFlash) (base : ℕ) : List (ℕ × List UInt8) × TargetFlash :=
  if base ≠ f.bufAddr then (f.pending, f.setup base) else ([], f)

/-- A chunk is copied into the buffer. -/
def put (f : TargetFlash) (offset : ℕ) (chunk : List UInt8) : TargetFlash :=
  match f.buf with
  | none => f
  | some buf =>
    match copyIntoBuffer buf offset chunk with
    | .ok buf => { f with buf := some buf }
    | .error _ => f

@[simp] theorem bufSize_select (f : TargetFlash) (base : ℕ) :
    (f.select base).2.bufSize = f.bufSize := by
  unfold select
  split_ifs <;> rfl

@[simp] theorem bufSize_put (f : TargetFlash) (offset : ℕ) (chunk : List UInt8) :
    (f.put offset chunk).bufSize = f.bufSize := by
  unfold put
  split
  · rfl
  · split <;> rfl

/-- The sectors that leave the buffer while `src` is written from `dest` on, chunk by chunk, and
the buffer at the end. -/
def stream (f : TargetFlash) (dest : ℕ) (src : List UInt8) : List (ℕ × List UInt8) × TargetFlash :=
  if _h : src = [] then ([], f)
  else
    let offset := dest % f.bufSize
    let r := f.select (dest - offset)
    let n := min (f.bufSize - offset) src.length
    let rest := stream (r.2.put offset (src.take n)) (dest + n) (src.drop n)
    (r.1 ++ rest.1, rest.2)
termination_by src.length
decreasing_by
  have hoffset := Nat.mod_lt dest f.bufSize_pos
  have hsrc := List.length_pos_iff.mpr _h
  rw [List.length_drop]
  omega

end TargetFlash

variable {σ : Type} {interface : TargetInterface σ} {f : TargetFlash}

variable (interface) in
theorem flushSector_eq (f : TargetFlash) (h : Host σ) :
    flushSector interface f h = (do
      let h ← memWriteAll interface 2 f.pending h
      return (0, h)) := by
  unfold flushSector TargetFlash.pending
  cases f.buf with
  | none => rfl
  | some buf =>
    simp only
    split_ifs with hsome
    · unfold stm32f1FlashWrite stm32FlashWrite memWriteAll
      cases TargetSTM32F1.memWrite interface f.bufAddr 2 buf.val h with
      | error e => rfl
      | ok r => rfl
    · rfl

theorem TargetFlash.unbuffered_iff (f : TargetFlash) : f.Unbuffered ↔ f.pending = [] := by
  unfold TargetFlash.Unbuffered TargetFlash.pending
  cases f.buf with
  | none => exact iff_of_true (Or.inl rfl) rfl
  | some buf => simp

variable (interface) in
/-- The end of a download hands over what is buffered. -/
theorem targetFlashDoneBuffered_eq {h h' : Host σ}
    (hwrite : memWriteAll interface 2 f.pending h = .ok h') :
    ∃ g, targetFlashDoneBuffered interface f h = .ok (0, g, h') ∧ g.Unbuffered := by
  by_cases hunbuffered : f.Unbuffered
  · rw [f.unbuffered_iff.mp hunbuffered] at hwrite
    obtain rfl := Except.ok.inj hwrite
    exact ⟨f, hunbuffered.doneBuffered interface h, hunbuffered⟩
  · refine ⟨{ f with buf := none, bufAddr := noSector }, ?_, Or.inl rfl⟩
    have hflush : flushSector interface f h = .ok (0, h') := by
      rw [flushSector_eq]
      exact bind_of_ok hwrite
    obtain ⟨hsome, haddr⟩ := not_or.mp hunbuffered
    unfold targetFlashDoneBuffered
    rw [if_pos ⟨Option.isSome_iff_ne_none.mpr hsome, haddr⟩]
    exact bind_of_ok hflush

theorem selectSector_eq (ret : ℕ) {base : ℕ} {h h' : Host σ}
    (hwrite : memWriteAll interface 2 (f.select base).1 h = .ok h') :
    selectSector interface base ret f h = .ok (ret, (f.select base).2, h') := by
  unfold TargetFlash.select at hwrite ⊢
  unfold selectSector
  split_ifs at hwrite ⊢ with hbase
  · have hflush : flushSector interface f h = .ok (0, h') := by
      rw [flushSector_eq]
      exact bind_of_ok hwrite
    rw [bind_of_ok hflush]
    show Except.ok (ret ||| 0, f.setup base, h') = _
    rw [Nat.or_zero]
  · obtain rfl := Except.ok.inj hwrite
    rfl

theorem isSome_select (base : ℕ) (hbuf : f.buf.isSome) : (f.select base).2.buf.isSome := by
  by_cases hbase : base ≠ f.bufAddr
  · have hselect : f.select base = (f.pending, f.setup base) := if_pos hbase
    rw [hselect]
    rfl
  · have hselect : f.select base = ([], f) := if_neg hbase
    rw [hselect]
    exact hbuf

theorem put_of_fits (offset : ℕ) (chunk : List UInt8) (hbuf : f.buf.isSome)
    (hfits : offset + chunk.length ≤ f.bufSize) :
    ∃ buf buf', f.buf = some buf ∧ copyIntoBuffer buf offset chunk = .ok buf' ∧
      f.put offset chunk = { f with buf := some buf' } := by
  obtain ⟨buf, hsome⟩ := Option.isSome_iff_exists.mp hbuf
  have hcopy : ∃ buf', copyIntoBuffer buf offset chunk = .ok buf' := ⟨_, dif_pos hfits⟩
  obtain ⟨buf', hcopy⟩ := hcopy
  refine ⟨buf, buf', hsome, hcopy, ?_⟩
  unfold TargetFlash.put
  rw [hsome]
  simp only [hcopy]

/-- A round of `target_flash_write_buffered` is a step of the stream. -/
theorem writeBufferedRound_stream {dest position : ℕ} {src : List UInt8} {h h₁ : Host σ}
    (hbuf : f.buf.isSome) (hlt : position < src.length)
    (hend : dest + src.length ≤ 4294967296) {offset n : ℕ}
    (hoffset : offset = (dest + position) % f.bufSize)
    (hn : n = min (f.bufSize - offset) (src.length - position))
    (hwrite : memWriteAll interface 2 (f.select (dest + position - offset)).1 h = .ok h₁) :
    targetFlashWriteBufferedRound interface dest src position (0, f, h) =
      .ok (n, 0, (f.select (dest + position - offset)).2.put offset ((src.drop position).take n),
        h₁) := by
  have hmod : (dest + position) % 4294967296 = dest + position := Nat.mod_eq_of_lt (by omega)
  have hlow : offset < f.bufSize := hoffset ▸ Nat.mod_lt _ f.bufSize_pos
  have hselect := selectSector_eq 0 hwrite
  have hsome := isSome_select (dest + position - offset) hbuf
  have hsize : (f.select (dest + position - offset)).2.bufSize = f.bufSize := f.bufSize_select _
  generalize (f.select (dest + position - offset)).2 = g at hselect hsome hsize ⊢
  have hchunk : ((src.drop position).take n).length = n := by
    rw [List.length_take, List.length_drop]
    omega
  obtain ⟨buf, buf', hbuf', hcopy, hput⟩ :=
    put_of_fits offset ((src.drop position).take n) hsome
      (by rw [hchunk, hsize]; omega)
  unfold targetFlashWriteBufferedRound
  simp only [hmod, ← hoffset]
  rw [bind_of_ok hselect]
  simp only [hsize, ← hn, hbuf']
  rw [bind_of_ok hcopy, hput]
  rfl

theorem isSome_put (offset : ℕ) (chunk : List UInt8) (hbuf : f.buf.isSome)
    (hfits : offset + chunk.length ≤ f.bufSize) : (f.put offset chunk).buf.isSome := by
  obtain ⟨buf, buf', -, -, hput⟩ := put_of_fits offset chunk hbuf hfits
  rw [hput]
  rfl

/-- The rest of a write request is the stream of what is left. -/
theorem writeBuffered_stream (dest position : ℕ) (src : List UInt8) {h h' : Host σ}
    (hbuf : f.buf.isSome) (hle : position ≤ src.length) (hend : dest + src.length ≤ 4294967296)
    (hwrite : memWriteAll interface 2 (f.stream (dest + position) (src.drop position)).1 h = .ok h') :
    transfer (targetFlashWriteBufferedRound interface dest src) src.length position (0, f, h) =
      .ok (src.length, 0, (f.stream (dest + position) (src.drop position)).2, h') := by
  induction hk : src.length - position using Nat.strong_induction_on generalizing f position h with
  | _ k ih =>
    rw [TargetFlash.stream] at hwrite ⊢
    by_cases hlt : position < src.length
    · have hne : src.drop position ≠ [] := by
        apply List.length_pos_iff.mp
        rw [List.length_drop]
        omega
      rw [dif_neg hne] at hwrite ⊢
      simp only at hwrite ⊢
      set offset := (dest + position) % f.bufSize with hoffset
      have hlow : offset < f.bufSize := Nat.mod_lt _ f.bufSize_pos
      set n := min (f.bufSize - offset) (src.drop position).length with hn
      rw [List.length_drop] at hn
      rw [memWriteAll_append] at hwrite
      obtain ⟨h₁, hselect, hrest⟩ := bind_eq_ok.mp hwrite
      have hround := writeBufferedRound_stream hbuf hlt hend hoffset hn hselect
      have hchunk : ((src.drop position).take n).length = n := by
        rw [List.length_take, List.length_drop]
        omega
      have hbuf' := isSome_put offset ((src.drop position).take n)
        (isSome_select (dest + position - offset) hbuf) (by rw [hchunk, f.bufSize_select]; omega)
      rw [List.drop_drop, Nat.add_assoc] at hrest ⊢
      rw [transfer_round hlt hround (by omega)]
      exact ih (src.length - (position + n)) (by omega) _ hbuf' (by omega) hrest rfl
    · have hnil : src.drop position = [] := List.drop_eq_nil_of_le (not_lt.mp hlt)
      rw [dif_pos hnil] at hwrite ⊢
      obtain rfl := Except.ok.inj hwrite
      rw [transfer_done _ _ (not_lt.mp hlt), le_antisymm hle (not_lt.mp hlt)]

theorem isSome_allocate (f : TargetFlash) : f.allocate.buf.isSome := by
  unfold TargetFlash.allocate
  cases hbuf : f.buf with
  | none => rfl
  | some buf =>
    show f.buf.isSome
    rw [hbuf]
    rfl

/-- `target_flash_write_buffered` writes the sectors of its stream. -/
theorem targetFlashWriteBuffered_stream (dest : ℕ) (src : List UInt8) {h h' : Host σ}
    (hend : dest + src.length ≤ 4294967296)
    (hwrite : memWriteAll interface 2 (f.allocate.stream dest src).1 h = .ok h') :
    targetFlashWriteBuffered interface f dest src h =
      .ok (0, (f.allocate.stream dest src).2, h') := by
  have hrun := writeBuffered_stream dest 0 src
    (isSome_allocate f) (Nat.zero_le _) hend hwrite
  unfold targetFlashWriteBuffered
  rw [bind_of_ok hrun]
  rfl

theorem length_of_mem_pending {p : ℕ × List UInt8} (hp : p ∈ f.pending) :
    p.2.length = f.bufSize := by
  unfold TargetFlash.pending at hp
  cases hbuf : f.buf with
  | none =>
    rw [hbuf] at hp
    cases hp
  | some buf =>
    simp only [hbuf] at hp
    split_ifs at hp
    · obtain rfl := List.mem_singleton.mp hp
      exact buf.property
    · cases hp

theorem length_of_mem_stream {dest : ℕ} {src : List UInt8} {p : ℕ × List UInt8}
    (hp : p ∈ (f.stream dest src).1) : p.2.length = f.bufSize := by
  induction f, dest, src using TargetFlash.stream.induct with
  | case1 f dest =>
    rw [TargetFlash.stream, dif_pos rfl] at hp
    cases hp
  | case2 f dest src hne offset r n ih =>
    rw [TargetFlash.stream, dif_neg hne] at hp
    rcases List.mem_append.mp hp with hselect | hrest
    · unfold TargetFlash.select at hselect
      split_ifs at hselect
      · exact length_of_mem_pending hselect
      · cases hselect
    · rw [ih hrest, TargetFlash.bufSize_put, TargetFlash.bufSize_select]

namespace TargetFlash.IsStm32f1

theorem select (hf : f.IsStm32f1) (base : ℕ) : (f.select base).2.IsStm32f1 := by
  unfold TargetFlash.select
  split_ifs
  · exact ⟨hf.start, hf.length, hf.bufSize, hf.erased⟩
  · exact hf

theorem put (hf : f.IsStm32f1) (offset : ℕ) (chunk : List UInt8) :
    (f.put offset chunk).IsStm32f1 := by
  unfold TargetFlash.put
  split
  · exact hf
  · split
    · exact ⟨hf.start, hf.length, hf.bufSize, hf.erased⟩
    · exact hf

theorem allocate (hf : f.IsStm32f1) : f.allocate.IsStm32f1 := by
  unfold TargetFlash.allocate
  split
  · exact hf
  · exact ⟨hf.start, hf.length, hf.bufSize, hf.erased⟩

theorem stream (hf : f.IsStm32f1) (dest : ℕ) (src : List UInt8) :
    (f.stream dest src).2.IsStm32f1 := by
  induction f, dest, src using TargetFlash.stream.induct with
  | case1 f dest =>
    rw [TargetFlash.stream, dif_pos rfl]
    exact hf
  | case2 f dest src hne offset r n ih =>
    rw [TargetFlash.stream, dif_neg hne]
    exact ih ((hf.select _).put _ _)

end TargetFlash.IsStm32f1

/-- The probed region holds `n` bytes from `addr` on. -/
def InFlash (addr n : ℕ) : Prop := 0x8000000 ≤ addr ∧ addr + n ≤ 0x8020000

instance (addr n : ℕ) : Decidable (InFlash addr n) := inferInstanceAs (Decidable (_ ∧ _))

/-- The sectors that a write request hands over, the buffered one and those of its own that it
completes. -/
def sectorsOf (f : TargetFlash) (addr : ℕ) (bin : List UInt8) : List (ℕ × List UInt8) :=
  (f.allocate.stream addr bin).1

section
variable {addr : ℕ} {bin : List UInt8} {h h' : Host σ} (hf : f.IsStm32f1)
include hf

/-- A round of `target_flash_write` in the probed region. -/
theorem targetFlashWriteRound_stream {n : ℕ} (hne : n ≠ 0) (hlo : 0x8000000 ≤ addr)
    (hhi : addr + n ≤ 0x8020000) (hn : n = f.share addr bin.length) (hle : n ≤ bin.length)
    (hwrite : memWriteAll interface 2 (sectorsOf f addr (bin.take n)) h = .ok h') :
    targetFlashWriteRound interface addr bin 0 (0, ⟨[f], h⟩) =
      .ok (n, 0, ⟨[(f.allocate.stream addr (bin.take n)).2], h'⟩) := by
  have hmod : (addr + 0) % 4294967296 = addr := Nat.mod_eq_of_lt (by omega)
  have hfind : flashForAddr [f] addr = some (0, f) := hf.flashForAddr_eq hlo (by omega)
  have hread : readBytes bin 0 n = .ok (bin.take n) := by
    unfold readBytes
    rw [if_pos (by omega), List.drop_zero]
  have hlen : (bin.take n).length = n := by rw [List.length_take, min_eq_left hle]
  have hbuffered := targetFlashWriteBuffered_stream (f := f) addr (bin.take n)
    (by rw [hlen]; omega) hwrite
  unfold targetFlashWriteRound
  simp only [hmod, hfind, Nat.sub_zero, ← hn]
  rw [bind_of_ok hread, bind_of_ok hbuffered]
  show Except.ok (n, 0 ||| 0, (⟨[(f.allocate.stream addr (bin.take n)).2], h'⟩ : Target σ)) = _
  rw [Nat.or_self]

/-- `target_flash_write` inside the probed region hands over the sectors of the stream. -/
theorem targetFlashWrite_inside (hin : bin ≠ [] → InFlash addr bin.length)
    (hwrite : memWriteAll interface 2 (sectorsOf f addr bin) h = .ok h') :
    ∃ t, targetFlashWrite interface ⟨[f], h⟩ addr bin = .ok (0, t) ∧ t.host = h' := by
  unfold targetFlashWrite
  by_cases hzero : bin.length = 0
  · obtain rfl := List.length_eq_zero_iff.mp hzero
    have hnil : sectorsOf f addr [] = [] := by
      unfold sectorsOf
      rw [TargetFlash.stream, dif_pos rfl]
    rw [hnil] at hwrite
    obtain rfl := Except.ok.inj hwrite
    refine ⟨⟨[f], h⟩, ?_, rfl⟩
    exact bind_of_ok (transfer_done _ _ (Nat.le_refl 0))
  · obtain ⟨hlo, hhi⟩ := hin (List.length_pos_iff.mp (Nat.pos_of_ne_zero hzero))
    have hshare : bin.length = f.share addr bin.length := by
      rw [hf.share_eq (by omega) (by omega), if_pos (.inl hhi)]
    rw [← List.take_length (l := bin)] at hwrite
    have hround := targetFlashWriteRound_stream hf hzero hlo hhi hshare le_rfl hwrite
    refine ⟨_, bind_of_ok ((transfer_round (Nat.pos_of_ne_zero hzero) hround hzero).trans
      (transfer_done _ _ (Nat.le_add_left _ _))), rfl⟩

variable (interface) in
/-- A request that leaves the probed region is answered with an error. -/
theorem targetFlashWrite_outside (haddr : addr < 4294967296) (hlen : bin.length ≤ 65536)
    (hne : bin ≠ [])
    (hout : ¬ InFlash addr bin.length)
    (htotal : ∀ n, ∃ h', memWriteAll interface 2 (sectorsOf f addr (bin.take n)) h = .ok h') :
    ∃ t, targetFlashWrite interface ⟨[f], h⟩ addr bin = .ok (1, t) := by
  have hpos : 0 < bin.length := List.length_pos_iff.mpr hne
  have hmiss {g : TargetFlash} (hg : g.IsStm32f1) {a : ℕ} (ha : ¬ (0x8000000 ≤ a ∧ a < 0x8020000)) :
      flashForAddr [g] a = none := by
    unfold flashForAddr
    rw [if_neg fun hyes => ha ((hg.holds_iff a).mp hyes)]
    rfl
  unfold targetFlashWrite
  by_cases hstart : 0x8000000 ≤ addr ∧ addr < 0x8020000
  · have hlong : 0x8020000 < addr + bin.length := by
      by_contra hle
      exact hout ⟨hstart.1, not_lt.mp hle⟩
    set n := 0x8020000 - addr with hn
    have hshare : n = f.share addr bin.length := by
      rw [hf.share_eq hstart.2 (by omega), if_neg (by omega)]
    obtain ⟨h', hwrite⟩ := htotal n
    have hround := targetFlashWriteRound_stream hf (by omega) hstart.1 (by omega) hshare (by omega)
      hwrite
    set g := (f.allocate.stream addr (bin.take n)).2 with hg
    have hlast : targetFlashWriteRound interface addr bin (0 + n) (0, ⟨[g], h'⟩) =
        .ok (0, 1, ⟨[g], h'⟩) := by
      unfold targetFlashWriteRound
      simp only [hmiss (hf.allocate.stream addr (bin.take n))
        (show ¬ (0x8000000 ≤ (addr + (0 + n)) % 4294967296 ∧
          (addr + (0 + n)) % 4294967296 < 0x8020000) by omega), hg]
      rfl
    exact ⟨_, bind_of_ok ((transfer_round hpos hround (by omega)).trans
      (transfer_stop (by omega) hlast))⟩
  · have hlast : targetFlashWriteRound interface addr bin 0 (0, ⟨[f], h⟩) =
        .ok (0, 1, ⟨[f], h⟩) := by
      unfold targetFlashWriteRound
      simp only [hmiss hf (show ¬ (0x8000000 ≤ (addr + 0) % 4294967296 ∧
        (addr + 0) % 4294967296 < 0x8020000) by omega)]
      rfl
    exact ⟨_, bind_of_ok (transfer_stop hpos hlast)⟩

end

end BluePill
