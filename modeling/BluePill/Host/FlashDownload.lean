import BluePill.Lib.Image
import BluePill.Host.FlashSector
import BluePill.Host.ReadBack

/-! Flash download: write requests of any lengths through the sector buffer leave the image in
flash, whatever the cutting. -/
namespace BluePill
open Lib

/-- The region that `stm32f1_probe` adds, with any buffer. -/
structure TargetFlash.IsStm32f1 (f : TargetFlash) : Prop where
  start : f.start = 0x8000000
  length : f.length = 0x20000
  bufSize : f.bufSize = 0x400
  erased : f.erased = 0xFF

/-- No sector is buffered. -/
def TargetFlash.Unbuffered (f : TargetFlash) : Prop := f.buf = none ∨ f.bufAddr = noSector

/-- Flash reads `img`, and what has been programmed since `log` lies below `b`. -/
def Link.Holds (l : Link) (img : ℕ → UInt8) (log : List FlashEvent) (b : ℕ) : Prop :=
  ∃ d S R new, l.At d S R ∧ d.mem = img ∧ d.flashLog = log ++ new ∧ ProgramsOnce new 0x08004000 b

/-- The sector at `b` is buffered. The buffer holds the image `img` there; flash holds it below
`b`, and from `b` on what it held at first, `mem`, which is blank in this sector. -/
structure Buffered (mem img : ℕ → UInt8) (log : List FlashEvent) (b : ℕ) (f : TargetFlash)
    (h : Host Link) : Prop where
  region : f.IsStm32f1
  bufAddr : f.bufAddr = b
  buf : ∃ buf, f.buf = some buf ∧ buf.val = readRange img b 0x400
  page : b % 0x400 = 0
  lower : 0x08004000 ≤ b
  upper : b + 0x400 ≤ 0x08020000
  blank : ∀ x, b ≤ x → x < b + 0x400 → mem x = 0xFF
  beyond : ∀ x, b + 0x400 ≤ x → img x = mem x
  flash : h.link.Holds (fun x => if x < b then img x else mem x) log b

/-- Writing the buffered sector completes the image in flash. -/
theorem Buffered.flush {mem img : ℕ → UInt8} {log : List FlashEvent} {b : ℕ} {f : TargetFlash}
    {h : Host Link} (hb : Buffered mem img log b f h) :
    ∃ h', flushSector firmwareLink f h = .ok (0, h') ∧ h'.link.Holds img log (b + 0x400) := by
  obtain ⟨buf, hbuf, hval⟩ := hb.buf
  obtain ⟨d, S, R, new, hat, hmem, hlog, honce⟩ := hb.flash
  have hlen : buf.val.length = 0x400 := by rw [hval, readRange_length]
  have heven : 2 ∣ buf.val.length := by
    rw [hlen]
    decide
  have hlower := hb.lower
  have hupper := hb.upper
  have hpage := hb.page
  obtain ⟨h', S', R', hwrite, hat'⟩ := stm32f1FlashWrite_answers hat heven hb.lower
    (by rw [hlen]; exact hb.upper) (by
      intro x hlo hhi
      rw [hlen] at hhi
      rw [hmem]
      show (if x < b then img x else mem x) = 0xFF
      rw [if_neg (by omega)]
      exact hb.blank x hlo hhi)
  refine ⟨h', ?_, _, S', R', new ++ halfWords b buf.val, hat', ?_, ?_, ?_⟩
  · unfold flushSector
    rw [hbuf, hb.bufAddr]
    show (if b ≠ noSector then _ else _) = _
    rw [if_pos (by unfold noSector; omega)]
    exact hwrite
  · show overlay d.mem b buf.val = img
    funext x
    rw [hval, overlay_readRange, hmem]
    split_ifs with hin
    · rfl
    · by_cases hx : x < b
      · exact if_pos hx
      · show (if x < b then img x else mem x) = img x
        rw [if_neg hx, hb.beyond x (by omega)]
  · show d.flashLog ++ halfWords b buf.val = _
    rw [hlog, List.append_assoc]
  · have hnew := programsOnce_halfWords buf.val b heven (by omega)
    rw [hlen] at hnew
    exact honce.append hnew hb.lower (by omega)

/-- A chunk inside the buffered sector goes into the buffer. -/
theorem Buffered.copy {mem img : ℕ → UInt8} {log : List FlashEvent} {b x : ℕ} {f : TargetFlash}
    {h : Host Link} (hb : Buffered mem img log b f h) (chunk : List UInt8) (hlo : b ≤ x)
    (hhi : x + chunk.length ≤ b + 0x400) :
    ∃ buf buf', f.buf = some buf ∧ copyIntoBuffer buf (x - b) chunk = .ok buf' ∧
      Buffered mem (overlay img x chunk) log b { f with buf := some buf' } h := by
  obtain ⟨buf, hbuf, hval⟩ := hb.buf
  have hfits : x - b + chunk.length ≤ f.bufSize := by
    rw [hb.region.bufSize]
    omega
  refine ⟨buf, _, hbuf, dif_pos hfits, ?_⟩
  constructor
  · exact ⟨hb.region.start, hb.region.length, hb.region.bufSize, hb.region.erased⟩
  · exact hb.bufAddr
  · refine ⟨_, rfl, ?_⟩
    show buf.val.take (x - b) ++ chunk ++ buf.val.drop (x - b + chunk.length) = _
    rw [hval, readRange_overlay_part img chunk hlo hhi]
  · exact hb.page
  · exact hb.lower
  · exact hb.upper
  · exact hb.blank
  · intro y hy
    rw [overlay_above img chunk (by omega)]
    exact hb.beyond y hy
  · have hsame : (fun y => if y < b then overlay img x chunk y else mem y) =
        fun y => if y < b then img y else mem y := by
      funext y
      by_cases hy : y < b
      · rw [if_pos hy, if_pos hy, overlay_below img chunk (by omega)]
      · rw [if_neg hy, if_neg hy]
    rw [hsame]
    exact hb.flash

/-- Requests up to `p` have been taken: `img` is the old memory with their data laid over it. -/
structure Downloading (mem img : ℕ → UInt8) (log : List FlashEvent) (p : ℕ) (f : TargetFlash)
    (h : Host Link) : Prop where
  region : f.IsStm32f1
  ahead : ∀ x, p ≤ x → img x = mem x
  sector : (f.Unbuffered ∧ img = mem ∧ h.link.Holds mem log 0x08004000) ∨
    ∃ b, b ≤ p ∧ Buffered mem img log b f h

variable {mem img : ℕ → UInt8} {log : List FlashEvent} {p : ℕ} {f : TargetFlash} {h : Host Link}

theorem Downloading.mono {q : ℕ} (hd : Downloading mem img log p f h) (hle : p ≤ q) :
    Downloading mem img log q f h := by
  constructor
  · exact hd.region
  · intro x hx
    exact hd.ahead x (by omega)
  · rcases hd.sector with hnone | ⟨b, hb, hbuffered⟩
    · exact Or.inl hnone
    · exact Or.inr ⟨b, by omega, hbuffered⟩

/-- Allocating changes nothing but that there is a buffer. -/
theorem Downloading.allocate (hd : Downloading mem img log p f h) :
    Downloading mem img log p f.allocate h ∧ (f.allocate.Unbuffered → f.allocate.bufAddr = noSector) := by
  unfold TargetFlash.allocate
  cases hbuf : f.buf with
  | some buf =>
    refine ⟨hd, ?_⟩
    rintro (hnone | haddr)
    · rw [hbuf] at hnone
      contradiction
    · exact haddr
  | none =>
    refine ⟨?_, fun _ => rfl⟩
    constructor
    · exact ⟨hd.region.start, hd.region.length, hd.region.bufSize, hd.region.erased⟩
    · exact hd.ahead
    · rcases hd.sector with ⟨_, hnone⟩ | ⟨b, _, hbuffered⟩
      · exact Or.inl ⟨Or.inr rfl, hnone⟩
      · obtain ⟨buf, hsome, _⟩ := hbuffered.buf
        rw [hbuf] at hsome
        contradiction

/-- A sector set up afresh is buffered: everything below it is in flash. -/
theorem buffered_setup {b e : ℕ} (hregion : f.IsStm32f1) (hholds : h.link.Holds img log e)
    (hbeyond : ∀ x, e ≤ x → img x = mem x) (hle : e ≤ b) (hpage : b % 0x400 = 0)
    (hlower : 0x08004000 ≤ b) (hupper : b + 0x400 ≤ 0x08020000)
    (hblank : ∀ x, b ≤ x → x < b + 0x400 → mem x = 0xFF) :
    Buffered mem img log b (f.setup b) h := by
  constructor
  · exact ⟨hregion.start, hregion.length, hregion.bufSize, hregion.erased⟩
  · rfl
  · refine ⟨_, rfl, ?_⟩
    show List.replicate f.bufSize f.erased = _
    rw [hregion.bufSize, hregion.erased]
    symm
    rw [List.eq_replicate_iff]
    refine ⟨readRange_length img b 0x400, ?_⟩
    intro v hv
    obtain ⟨i, hi, hvi⟩ := List.mem_map.mp hv
    have hlt := List.mem_range.mp hi
    rw [← hvi, hbeyond _ (by omega)]
    exact hblank _ (by omega) (by omega)
  · exact hpage
  · exact hlower
  · exact hupper
  · exact hblank
  · intro x hx
    exact hbeyond x (by omega)
  · have hsame : (fun x => if x < b then img x else mem x) = img := by
      funext x
      by_cases hx : x < b
      · exact if_pos hx
      · show (if x < b then img x else mem x) = img x
        rw [if_neg hx, hbeyond x (by omega)]
    rw [hsame]
    obtain ⟨d, S, R, new, hat, hmem, hlog, honce⟩ := hholds
    exact ⟨d, S, R, new, hat, hmem, hlog, honce.mono hle⟩

/-- The sector of the next address becomes the buffered one. -/
theorem Downloading.select {x : ℕ} (hd : Downloading mem img log p f h)
    (hallocated : f.Unbuffered → f.bufAddr = noSector) (hp : p ≤ x) (hlower : 0x08004000 ≤ x)
    (hupper : x < 0x08020000)
    (hblank : ∀ y, x - x % 0x400 ≤ y → y < x - x % 0x400 + 0x400 → mem y = 0xFF) :
    ∃ f' h', selectSector firmwareLink (x - x % 0x400) 0 f h = .ok (0, f', h') ∧
      Buffered mem img log (x - x % 0x400) f' h' := by
  have hpage : (x - x % 0x400) % 0x400 = 0 := by omega
  unfold selectSector
  rcases hd.sector with ⟨hunbuffered, himg, hholds⟩ | ⟨b, hb, hbuffered⟩
  · have haddr := hallocated hunbuffered
    have hflush : flushSector firmwareLink f h = .ok (0, h) := by
      unfold flushSector
      cases f.buf with
      | none => rfl
      | some buf => exact if_neg (not_not.mpr haddr)
    refine ⟨f.setup (x - x % 0x400), h, ?_, ?_⟩
    · rw [if_pos (by rw [haddr]; unfold noSector; omega), bind_of_ok hflush]
      rfl
    · exact buffered_setup hd.region (by rw [himg]; exact hholds)
        (fun y _ => congrFun himg y) (by omega) hpage (by omega) (by omega) hblank
  · have hbpage := hbuffered.page
    by_cases hsame : x - x % 0x400 = b
    · refine ⟨f, h, ?_, ?_⟩
      · rw [if_neg (by rw [hbuffered.bufAddr]; exact not_not.mpr hsame)]
      · rw [hsame]
        exact hbuffered
    · obtain ⟨h', hflush, hholds⟩ := hbuffered.flush
      refine ⟨f.setup (x - x % 0x400), h', ?_, ?_⟩
      · rw [if_pos (by rw [hbuffered.bufAddr]; exact hsame), bind_of_ok hflush]
        rfl
      · exact buffered_setup hd.region hholds hbuffered.beyond (by omega) hpage (by omega)
          (by omega) hblank

/-- Every sector that `[a, a + n)` touches is blank. -/
def SectorsBlank (mem : ℕ → UInt8) (a n : ℕ) : Prop :=
  ∀ x y, a ≤ x → x < a + n → pageBase x = pageBase y → mem y = 0xFF

theorem pageBase_eq_iff (x y : ℕ) : pageBase x = pageBase y ↔
    x - x % 0x400 ≤ y ∧ y < x - x % 0x400 + 0x400 := by
  unfold pageBase pageSize
  omega

/-- `target_flash_write_buffered` has taken the request up to `position`; there is a buffer, and
it holds a sector unless it is marked empty. -/
structure WritingAt (mem img : ℕ → UInt8) (log : List FlashEvent) (dest : ℕ) (src : List UInt8)
    (position : ℕ) (s : ℕ × TargetFlash × Host Link) : Prop where
  ret : s.1 = 0
  taken : Downloading mem (overlay img dest (src.take position)) log (dest + position) s.2.1 s.2.2
  allocated : s.2.1.Unbuffered → s.2.1.bufAddr = noSector

/-- A round of `target_flash_write_buffered` takes the next chunk into its sector. -/
theorem WritingAt.round {dest position : ℕ} {src : List UInt8} {s : ℕ × TargetFlash × Host Link}
    (hw : WritingAt mem img log dest src position s) (hlt : position < src.length)
    (hlower : 0x08004000 ≤ dest) (hupper : dest + src.length ≤ 0x08020000)
    (hblank : SectorsBlank mem dest src.length) :
    ∃ n s', targetFlashWriteBufferedRound firmwareLink dest src position s = .ok (n, s') ∧
      n ≠ 0 ∧ position + n ≤ src.length ∧ WritingAt mem img log dest src (position + n) s' := by
  obtain ⟨ret, f, h⟩ := s
  obtain ⟨hret, hd, hallocated⟩ := hw
  obtain rfl : ret = 0 := hret
  set x := dest + position with hx
  have hmod : (dest + position) % 4294967296 = x := Nat.mod_eq_of_lt (by omega)
  obtain ⟨f₁, h₁, hselect, hbuffered⟩ := hd.select hallocated le_rfl (by omega) (by omega) (by
    intro y hlo hhi
    exact hblank x y (by omega) (by omega) ((pageBase_eq_iff x y).mpr ⟨hlo, hhi⟩))
  have hsize₁ := hbuffered.region.bufSize
  have hsize : f.bufSize = 0x400 := hd.region.bufSize
  set n := min (0x400 - x % 0x400) (src.length - position) with hn
  set chunk := (src.drop position).take n with hchunk
  have hlen : chunk.length = n := by
    rw [hchunk, List.length_take, List.length_drop]
    omega
  obtain ⟨buf, buf', hbuf, hcopy, hcopied⟩ := hbuffered.copy chunk (x := x) (by omega) (by omega)
  have htaken : (src.take position).length = position := by
    rw [List.length_take]
    omega
  have htaken' : (src.take (position + n)).length = position + n := by
    rw [List.length_take]
    omega
  have himg : overlay (overlay img dest (src.take position)) x chunk =
      overlay img dest (src.take (position + n)) := by
    rw [List.take_add, overlay_append, htaken]
  rw [himg] at hcopied
  rw [show x - (x - x % 0x400) = x % 0x400 by omega] at hcopy
  refine ⟨n, (0, { f₁ with buf := some buf' }, h₁), ?_, by omega, by omega, rfl, ?_, ?_⟩
  · unfold targetFlashWriteBufferedRound
    simp only [hmod, hsize]
    rw [bind_of_ok hselect]
    simp only [hsize₁, hbuf]
    rw [bind_of_ok hcopy]
    rfl
  · constructor
    · exact hcopied.region
    · intro y hy
      have hahead := hd.ahead y (by omega)
      rw [overlay_above _ _ (by omega)] at hahead
      rw [overlay_above _ _ (by omega)]
      exact hahead
    · exact Or.inr ⟨_, by omega, hcopied⟩
  · rintro (hnone | haddr)
    · exact absurd hnone (Option.some_ne_none buf')
    · exact haddr

/-- `target_flash_write_buffered` of a request. -/
theorem targetFlashWriteBuffered_ok {dest : ℕ} {src : List UInt8}
    (hd : Downloading mem img log p f h) (hp : p ≤ dest) (hlower : 0x08004000 ≤ dest)
    (hupper : dest + src.length ≤ 0x08020000) (hblank : SectorsBlank mem dest src.length) :
    ∃ f' h', targetFlashWriteBuffered firmwareLink f dest src h = .ok (0, f', h') ∧
      Downloading mem (overlay img dest src) log (dest + src.length) f' h' := by
  obtain ⟨hstart, hallocated⟩ := (hd.mono hp).allocate
  have hbegin : WritingAt mem img log dest src 0 (0, f.allocate, h) := by
    constructor
    · rfl
    · rw [List.take_zero, overlay_nil]
      exact hstart
    · exact hallocated
  obtain ⟨⟨ret, f', h'⟩, htransfer, hret, hend, _⟩ := transfer_complete
    (WritingAt mem img log dest src)
    (fun position s hlt hs => hs.round hlt hlower hupper hblank) (Nat.zero_le _) hbegin
  obtain rfl : ret = 0 := hret
  refine ⟨f', h', ?_, ?_⟩
  · unfold targetFlashWriteBuffered
    rw [bind_of_ok htransfer]
    rfl
  · rw [List.take_length] at hend
    exact hend

theorem TargetFlash.IsStm32f1.holds_iff (hf : f.IsStm32f1) (a : ℕ) :
    f.holds a = true ↔ 0x8000000 ≤ a ∧ a < 0x8020000 := by
  have hend : (f.start + f.length) % 4294967296 = 0x8020000 := by
    rw [hf.start, hf.length]
  unfold TargetFlash.holds
  rw [hend, hf.start, decide_eq_true_iff]

theorem TargetFlash.IsStm32f1.flashForAddr_eq (hf : f.IsStm32f1) {a : ℕ} (hlower : 0x8000000 ≤ a)
    (hupper : a < 0x8020000) : flashForAddr [f] a = some (0, f) := by
  unfold flashForAddr
  rw [if_pos ((hf.holds_iff a).mpr ⟨hlower, hupper⟩)]

/-- The probed region takes a request up to its end; one over the end of the address space it
takes whole. -/
theorem TargetFlash.IsStm32f1.share_eq (hf : f.IsStm32f1) {a n : ℕ} (ha : a < 0x8020000)
    (hn : n < 4294967296) : f.share a n =
      if a + n ≤ 0x8020000 ∨ 4294967296 ≤ a + n then n else 0x8020000 - a := by
  unfold TargetFlash.share
  rw [hf.start, hf.length]
  show (min ((a + n) % 4294967296) 0x8020000 + 4294967296 - a) % 4294967296 = _
  split_ifs with hwhole <;> omega

/-- `target_flash_write` of a request in user flash. -/
theorem targetFlashWrite_ok {dest : ℕ} {src : List UInt8} (hd : Downloading mem img log p f h)
    (hp : p ≤ dest) (hlower : 0x08004000 ≤ dest) (hupper : dest + src.length ≤ 0x08020000)
    (hblank : SectorsBlank mem dest src.length) :
    ∃ f' h', targetFlashWrite firmwareLink ⟨[f], h⟩ dest src = .ok (0, ⟨[f'], h'⟩) ∧
      Downloading mem (overlay img dest src) log (dest + src.length) f' h' := by
  by_cases hzero : src.length = 0
  · obtain rfl := List.length_eq_zero_iff.mp hzero
    refine ⟨f, h, ?_, ?_⟩
    · have hdone := transfer_done (targetFlashWriteRound firmwareLink dest [])
        (0, (⟨[f], h⟩ : Target Link)) (Nat.le_refl 0)
      unfold targetFlashWrite
      rw [bind_of_ok (show transfer _ ([] : List UInt8).length 0 _ = _ from hdone)]
      rfl
    · rw [overlay_nil]
      exact hd.mono hp
  · have hshare : f.share dest src.length = src.length := by
      rw [hd.region.share_eq (by omega) (by omega), if_pos (Or.inl hupper)]
    obtain ⟨f', h', hwrite, hd'⟩ := targetFlashWriteBuffered_ok hd hp hlower hupper hblank
    refine ⟨f', h', ?_, hd'⟩
    have hmod : (dest + 0) % 4294967296 = dest := Nat.mod_eq_of_lt (by omega)
    have hfind : flashForAddr [f] dest = some (0, f) :=
      hd.region.flashForAddr_eq (by omega) (by omega)
    have hread : readBytes src 0 src.length = .ok src := by
      unfold readBytes
      rw [if_pos (by omega), List.drop_zero, List.take_length]
    have hround : targetFlashWriteRound firmwareLink dest src 0 (0, ⟨[f], h⟩) =
        .ok (src.length, 0, ⟨[f'], h'⟩) := by
      unfold targetFlashWriteRound
      simp only [hmod, hfind, Nat.sub_zero, hshare]
      rw [bind_of_ok hread, bind_of_ok hwrite]
      show Except.ok (src.length, 0 ||| 0, (⟨[f'], h'⟩ : Target Link)) = _
      rw [Nat.or_self]
    have hend : transfer (targetFlashWriteRound firmwareLink dest src) src.length 0
        (0, ⟨[f], h⟩) = .ok (src.length, 0, ⟨[f'], h'⟩) := by
      rw [transfer_round (Nat.pos_of_ne_zero hzero) hround hzero, Nat.zero_add]
      exact transfer_done _ _ le_rfl
    unfold targetFlashWrite
    rw [bind_of_ok hend]
    rfl

theorem TargetFlash.Unbuffered.doneBuffered {σ : Type} (interface : TargetInterface σ)
    (hunbuffered : f.Unbuffered) (h : Host σ) :
    targetFlashDoneBuffered interface f h = .ok (0, f, h) := by
  unfold targetFlashDoneBuffered
  rw [if_neg]
  rintro ⟨hsome, haddr⟩
  rcases hunbuffered with hnone | hno
  · rw [hnone] at hsome
    contradiction
  · exact haddr hno

/-- `target_flash_done` of one region empties the sector buffer and sends one packet. -/
theorem targetFlashDone_one {σ : Type} {interface : TargetInterface σ} {f f₁ : TargetFlash}
    {h h₁ h₂ : Host σ} {b : Bool}
    (hbuffered : targetFlashDoneBuffered interface f h = .ok (0, f₁, h₁))
    (hcmd : TargetSTM32F1.flashCmd interface .detach 0 0 h₁ = .ok (b, h₂)) :
    targetFlashDone interface ⟨[f], h⟩ = .ok (0, ⟨[f₁], h₂⟩) := by
  have hdone : stm32f1FlashDone interface h₁ = .ok (0, h₂) := by
    unfold stm32f1FlashDone stm32FlashDone
    rw [bind_of_ok hcmd]
    rfl
  unfold targetFlashDone targetFlashDoneLoop
  rw [bind_of_ok hbuffered]
  simp only [ne_eq, not_true_eq_false, if_false]
  rw [bind_of_ok hdone]
  rfl

/-- Behind the sector buffer, the end of a download leaves memory as it is. -/
theorem targetFlashDone_of_buffered {f₁ : TargetFlash} {h₁ : Host Link} {b : ℕ}
    (hbuffered : targetFlashDoneBuffered firmwareLink f h = .ok (0, f₁, h₁))
    (hholds : h₁.link.Holds img log b) :
    ∃ h₂, targetFlashDone firmwareLink ⟨[f], h⟩ = .ok (0, ⟨[f₁], h₂⟩) ∧
      h₂.link.Holds img log b := by
  obtain ⟨d, S, R, new, hat, hmem, hlog, honce⟩ := hholds
  obtain ⟨reply, h₂, hcmd, hat₂⟩ := flashCmd_answers hat .detach
    (show 0 < 4294967296 by decide) (show 0 < 4294967296 by decide)
  exact ⟨h₂, targetFlashDone_one hbuffered hcmd, _, _, _, new, hat₂, hmem, hlog, honce⟩

/-- `target_flash_done` completes the image in flash. -/
theorem targetFlashDone_ok (hd : Downloading mem img log p f h) :
    ∃ f' h', targetFlashDone firmwareLink ⟨[f], h⟩ = .ok (0, ⟨[f'], h'⟩) ∧ f'.Unbuffered ∧
      h'.link.Holds img log 0x08020000 := by
  have hbuffered : ∃ f₁ h₁, targetFlashDoneBuffered firmwareLink f h = .ok (0, f₁, h₁) ∧
      f₁.Unbuffered ∧ h₁.link.Holds img log 0x08020000 := by
    rcases hd.sector with ⟨hunbuffered, himg, d, S, R, new, hat, hmem, hlog, honce⟩ | ⟨b, _, hb⟩
    · refine ⟨f, h, hunbuffered.doneBuffered firmwareLink h, hunbuffered, d, S, R, new, hat, ?_,
        hlog, honce.mono (by omega)⟩
      rw [hmem, himg]
    · obtain ⟨h', hflush, d, S, R, new, hat, hmem, hlog, honce⟩ := hb.flush
      obtain ⟨buf, hbuf, _⟩ := hb.buf
      have hbound := hb.upper
      refine ⟨{ f with buf := none, bufAddr := noSector }, h', ?_, Or.inl rfl,
        d, S, R, new, hat, hmem, hlog, honce.mono hbound⟩
      unfold targetFlashDoneBuffered
      rw [if_pos ⟨by rw [hbuf]; rfl, by rw [hb.bufAddr]; unfold noSector; omega⟩, bind_of_ok hflush]
      rfl
  obtain ⟨f₁, h₁, hdone, hunbuffered, hholds⟩ := hbuffered
  obtain ⟨h₂, hrun, hholds₂⟩ := targetFlashDone_of_buffered hdone hholds
  exact ⟨f₁, h₂, hrun, hunbuffered, hholds₂⟩

/-- GDB's write requests one after the other, then the end of the download: the return codes. -/
def flashDownload {σ : Type} (interface : TargetInterface σ) (requests : List (ℕ × List UInt8))
    (t : Target σ) : Except Fault (List ℕ × Target σ) :=
  match requests with
  | [] => do
    let (ret, t) ← targetFlashDone interface t
    return ([ret], t)
  | (dest, src) :: rest => do
    let (ret, t) ← targetFlashWrite interface t dest src
    let (rets, t) ← flashDownload interface rest t
    return (ret :: rets, t)

/-- The requests put a byte into the sector of `y`. -/
def TouchesSector (requests : List (ℕ × List UInt8)) (y : ℕ) : Prop :=
  ∃ x, (imageOf requests x).isSome = true ∧ pageBase x = pageBase y

theorem flashDownload_ok {requests : List (ℕ × List UInt8)} (hd : Downloading mem img log p f h)
    (hlower : 0x08004000 ≤ p) (hascending : Ascending p requests 0x08020000)
    (hblank : ∀ r ∈ requests, SectorsBlank mem r.1 r.2.length) :
    ∃ f' h', flashDownload firmwareLink requests ⟨[f], h⟩ =
        .ok (List.replicate (requests.length + 1) 0, ⟨[f'], h'⟩) ∧
      f'.Unbuffered ∧ h'.link.Holds (layAll img requests) log 0x08020000 := by
  induction requests generalizing img p f h with
  | nil =>
    obtain ⟨f', h', hdone, hunbuffered, hholds⟩ := targetFlashDone_ok hd
    refine ⟨f', h', ?_, hunbuffered, hholds⟩
    unfold flashDownload
    rw [bind_of_ok hdone]
    rfl
  | cons r rest ih =>
    obtain ⟨hle, hrest⟩ := hascending
    have hupper := hrest.le
    obtain ⟨f₁, h₁, hwrite, hd₁⟩ := targetFlashWrite_ok hd hle (by omega) hupper
      (hblank r List.mem_cons_self)
    obtain ⟨f', h', hdownload, hunbuffered, hholds⟩ := ih hd₁ (by omega) hrest
      fun r' hr' => hblank r' (List.mem_cons_of_mem _ hr')
    refine ⟨f', h', ?_, hunbuffered, hholds⟩
    unfold flashDownload
    rw [bind_of_ok hwrite]
    simp only
    rw [bind_of_ok hdownload]
    rfl

/-- Flash after a download: the old content with the data laid over it, all other bytes of
touched sectors blank, the other sectors unchanged, no half-word programmed twice. -/
structure Downloaded (requests : List (ℕ × List UInt8)) (d d' : Device) : Prop where
  mem : d'.mem = layAll d.mem requests
  rest : ∀ y, imageOf requests y = none → TouchesSector requests y → d'.mem y = 0xFF
  unchanged : ∀ y, ¬ TouchesSector requests y → d'.mem y = d.mem y
  once : ∃ log, d'.flashLog = d.flashLog ++ log ∧ (programmed log).Nodup ∧
    ∀ x ∈ programmed log, 2 ∣ x

theorem flashDownload_downloaded {t : Target Link} {d : Device}
    (hdev : t.host.link.device = some d) (hfree : d.inEndpoint = none) {f : TargetFlash}
    (hflash : t.flash = [f]) (hregion : f.IsStm32f1) (hunbuffered : f.Unbuffered)
    {requests : List (ℕ × List UInt8)} (hascending : Ascending 0x08004000 requests 0x08020000)
    (hblank : ∀ y, TouchesSector requests y → d.mem y = 0xFF) :
    ∃ t' d', flashDownload firmwareLink requests t =
        .ok (List.replicate (requests.length + 1) 0, t') ∧
      t'.host.link.device = some d' ∧ Downloaded requests d d' := by
  have hstart : Downloading d.mem d.mem d.flashLog 0x08004000 f t.host := by
    constructor
    · exact hregion
    · exact fun x _ => rfl
    · exact Or.inl ⟨hunbuffered, rfl, d, _, _, [], Link.at_of_device hdev hfree, rfl,
        (List.append_nil _).symm, ProgramsOnce.nil _ _⟩
  have hsectors : ∀ r ∈ requests, SectorsBlank d.mem r.1 r.2.length := by
    intro r hr x y hlo hhi hpage
    exact hblank y ⟨x, imageOf_isSome hr hlo hhi, hpage⟩
  obtain ⟨f', h', hdownload, _, e, S, R, log, hat, hmem, hlog, honce⟩ :=
    flashDownload_ok hstart le_rfl hascending hsectors
  obtain ⟨d', hdev', _, htarget⟩ := hat.device
  have ht : t = ⟨[f], t.host⟩ := by rw [← hflash]
  have hmem' : d'.mem = layAll d.mem requests := (mem_of_target htarget).trans hmem
  refine ⟨⟨[f'], h'⟩, d', by rw [ht]; exact hdownload, hdev', hmem', ?_, ?_, log, ?_,
    honce.nodup, honce.aligned⟩
  · intro y hnone htouched
    rw [hmem', layAll_eq hascending, hnone]
    exact hblank y htouched
  · intro y hfar
    have hnone : imageOf requests y = none := by
      by_contra hsome
      exact hfar ⟨y, Option.isSome_iff_ne_none.mpr hsome, rfl⟩
    rw [hmem', layAll_eq hascending, hnone]
    rfl
  · have hlog' : d'.target.flashLog = e.target.flashLog := by rw [htarget]
    exact hlog'.trans hlog

/-- The download is faithful, and does not depend on how the image is cut into requests. -/
theorem flashDownload_faithful (t : Target Link) (d : Device)
    (hdev : t.host.link.device = some d) (hfree : d.inEndpoint = none) (f : TargetFlash)
    (hflash : t.flash = [f]) (hregion : f.IsStm32f1) (hunbuffered : f.Unbuffered)
    (requests : List (ℕ × List UInt8)) (hascending : Ascending 0x08004000 requests 0x08020000)
    (hblank : ∀ y, TouchesSector requests y → d.mem y = 0xFF) :
    ∃ t' d', flashDownload firmwareLink requests t =
        .ok (List.replicate (requests.length + 1) 0, t') ∧
      t'.host.link.device = some d' ∧ Downloaded requests d d' ∧
      ∀ requests', Ascending 0x08004000 requests' 0x08020000 →
        imageOf requests' = imageOf requests →
        ∃ t'' d'', flashDownload firmwareLink requests' t =
            .ok (List.replicate (requests'.length + 1) 0, t'') ∧
          t''.host.link.device = some d'' ∧ d''.mem = d'.mem := by
  obtain ⟨t', d', hdownload, hdev', hdone⟩ :=
    flashDownload_downloaded hdev hfree hflash hregion hunbuffered hascending hblank
  refine ⟨t', d', hdownload, hdev', hdone, ?_⟩
  intro requests' hascending' himage
  have hblank' : ∀ y, TouchesSector requests' y → d.mem y = 0xFF := by
    intro y htouched
    apply hblank y
    unfold TouchesSector at htouched ⊢
    rwa [himage] at htouched
  obtain ⟨t'', d'', hdownload', hdev'', hdone'⟩ :=
    flashDownload_downloaded hdev hfree hflash hregion hunbuffered hascending' hblank'
  refine ⟨t'', d'', hdownload', hdev'', ?_⟩
  funext x
  rw [hdone'.mem, hdone.mem, layAll_eq hascending', layAll_eq hascending, himage]

theorem flashDownload_faithful_threeBytes :
    ∃ t' d', flashDownload firmwareLink [(0x08004000, [0x12]), (0x08004001, [0x34, 0x56])]
        ⟨[stm32f1Flash], Host.fresh blankMemory⟩ = .ok ([0, 0, 0], t') ∧
      t'.host.link.device = some d' ∧
      Downloaded [(0x08004000, [0x12]), (0x08004001, [0x34, 0x56])]
        (.initial blankMemory bootSymbols) d' ∧
      ∀ requests', Ascending 0x08004000 requests' 0x08020000 →
        imageOf requests' = imageOf [(0x08004000, [0x12]), (0x08004001, [0x34, 0x56])] →
        ∃ t'' d'', flashDownload firmwareLink requests'
            ⟨[stm32f1Flash], Host.fresh blankMemory⟩ =
            .ok (List.replicate (requests'.length + 1) 0, t'') ∧
          t''.host.link.device = some d'' ∧ d''.mem = d'.mem :=
  flashDownload_faithful ⟨[stm32f1Flash], Host.fresh blankMemory⟩
    (.initial blankMemory bootSymbols) rfl rfl stm32f1Flash rfl ⟨rfl, rfl, rfl, rfl⟩ (Or.inl rfl)
    [(0x08004000, [0x12]), (0x08004001, [0x34, 0x56])]
    (show _ ∧ _ ∧ _ ≤ _ from ⟨by decide, by decide, by decide⟩) (fun _ _ => rfl)

end BluePill
