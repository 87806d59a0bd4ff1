import BluePill.Firmware.ErasePages
import BluePill.Host.FlashDownload

/-! GDB's erase requests: what `target_flash_erase` hands to the firmware, and which ranges an
answer of zero means erased. -/
namespace BluePill
open Lib

def erasePacket (p : FlashEraseParams) : List UInt8 := (flashHeadFor .erase p.address p.size).encode

/-- The range that an erase packet asks for. -/
def eraseRequestOf (packet : List UInt8) : Option FlashEraseParams :=
  match FlashCmdHead.decode packet with
  | some head =>
    if head.cmd = DebugCommand.flash.toByte ∧ head.flashCommand = FlashCommand.erase.toByte then
      some ⟨head.address, head.blockSize⟩
    else none
  | none => none

/-- The erase requests that have crossed the link between the two states. -/
def eraseRequests (l l' : Link) : List FlashEraseParams :=
  (l'.sent.drop l.sent.length).filterMap eraseRequestOf

theorem eraseRequestOf_erasePacket {p : FlashEraseParams} (ha : p.address < 4294967296)
    (hs : p.size < 4294967296) : eraseRequestOf (erasePacket p) = some p := by
  have hdecode := FlashCmdHead.decode_encode (flashHeadFor .erase p.address p.size) [] ha hs
  rw [List.append_nil] at hdecode
  unfold eraseRequestOf erasePacket
  rw [hdecode]
  rfl

theorem eraseRequests_append {l l' : Link} {ps : List FlashEraseParams}
    (hsent : l'.sent = l.sent ++ ps.map erasePacket)
    (hps : ∀ p ∈ ps, p.address < 4294967296 ∧ p.size < 4294967296) : eraseRequests l l' = ps := by
  unfold eraseRequests
  rw [hsent, List.drop_left, List.filterMap_map]
  have hsome : ∀ p ∈ ps, (eraseRequestOf ∘ erasePacket) p = some p := fun p hp =>
    eraseRequestOf_erasePacket (hps p hp).1 (hps p hp).2
  rw [List.filterMap_congr hsome, List.filterMap_some]

/-- The device after `flashCommand` has taken the request. -/
def Device.queueErase (d : Device) (p : FlashEraseParams) : Device :=
  (d.flashRequest .erase p.address p.size).2

/-- The entries in `gEraseParams` once the request has been put: one slot stays free. -/
def Device.erasesWith (d : Device) (p : FlashEraseParams) : List FlashEraseParams :=
  if d.mon.gEraseParams.toList.length < 3 then d.mon.gEraseParams.toList ++ [p]
  else d.mon.gEraseParams.toList

theorem queueErase_entries (d : Device) (p : FlashEraseParams) :
    (d.queueErase p).mon.gEraseParams.toList = d.erasesWith p := by
  have hput : (d.queueErase p).mon.gEraseParams = (d.mon.gEraseParams.put p).2 := rfl
  rw [hput, CircularBuffer.toList_put]
  unfold Device.erasesWith
  simp only [Nat.add_lt_iff_lt_sub_right, Nat.reduceSub]

variable {h : Host Link} {d : Device} {S R : List (List UInt8)} {f : TargetFlash}

/-- `stm32f1_flash_erase` reports success whatever became of the request. -/
theorem stm32f1FlashErase_answers (hat : h.link.At d S R) {p : FlashEraseParams}
    (ha : p.address < 4294967296) (hs : p.size < 4294967296) :
    ∃ reply h', stm32f1FlashErase firmwareLink p.address p.size h = .ok (0, h') ∧
      h'.link.At (d.queueErase p) (S ++ [erasePacket p]) (R ++ [reply]) := by
  obtain ⟨reply, h', hcmd, hat'⟩ := flashCmd_answers hat .erase ha hs
  have hinit : stm32FlashErase firmwareLink p.address p.size h = .ok h' := by
    unfold stm32FlashErase
    rw [bind_of_ok hcmd]
    rfl
  refine ⟨reply, h', ?_, hat'⟩
  unfold stm32f1FlashErase
  rw [bind_of_ok hinit]
  rfl

theorem eraseRound_outside (hf : f.IsStm32f1) {addr len offset ret : ℕ}
    (hout : (addr + offset) % 4294967296 < 0x8000000 ∨ 0x8020000 ≤ (addr + offset) % 4294967296) :
    targetFlashEraseRound firmwareLink [f] addr len offset (ret, h) = .ok (0, ret, h) := by
  have hholds : f.holds ((addr + offset) % 4294967296) = false := by
    rw [← Bool.not_eq_true, hf.holds_iff]
    omega
  unfold targetFlashEraseRound flashForAddr
  simp only [hholds, Bool.false_eq_true, if_false]
  rfl

/-- The first round of a request that begins in the region. -/
theorem eraseRound_inside (hat : h.link.At d S R) (hf : f.IsStm32f1) {addr len n : ℕ}
    (hlo : 0x8000000 ≤ addr) (hhi : addr < 0x8020000) (hn : n < 4294967296)
    (hshare : f.share addr len = n) :
    ∃ reply h', targetFlashEraseRound firmwareLink [f] addr len 0 (0, h) = .ok (n, 0, h') ∧
      h'.link.At (d.queueErase ⟨addr, n⟩) (S ++ [erasePacket ⟨addr, n⟩]) (R ++ [reply]) := by
  obtain ⟨reply, h', herase, hat'⟩ :=
    stm32f1FlashErase_answers hat (p := ⟨addr, n⟩) (by show addr < _; omega) hn
  have hmod : (addr + 0) % 4294967296 = addr := Nat.mod_eq_of_lt (by omega)
  have hfind : flashForAddr [f] addr = some (0, f) := hf.flashForAddr_eq hlo hhi
  refine ⟨reply, h', ?_, hat'⟩
  unfold targetFlashEraseRound
  simp only [hmod, hfind, Nat.sub_zero, hshare]
  rw [bind_of_ok herase]
  show Except.ok (n, 0 ||| 0, h') = _
  rw [Nat.or_self]

/-- What a call hands down when the probed region is the only one: what lies in the region. A
range over the end of the address space is handed down whole. -/
def eraseShares (addr len : ℕ) : List FlashEraseParams :=
  if len = 0 ∨ addr < 0x8000000 ∨ 0x8020000 ≤ addr then []
  else if addr + len ≤ 0x8020000 ∨ 4294967296 ≤ addr + len then [⟨addr, len⟩]
  else [⟨addr, 0x8020000 - addr⟩]

/-- `target_flash_erase` returns zero for every range. -/
theorem targetFlashErase_ok (hat : h.link.At d S R) (hf : f.IsStm32f1) {addr len : ℕ}
    (ha : addr < 4294967296) (hlen : len < 4294967296) :
    ∃ replies h', targetFlashErase firmwareLink ⟨[f], h⟩ addr len = .ok (0, ⟨[f], h'⟩) ∧
      h'.link.At ((eraseShares addr len).foldl Device.queueErase d)
        (S ++ (eraseShares addr len).map erasePacket) (R ++ replies) := by
  have hloop : ∃ offset replies h', transfer (targetFlashEraseRound firmwareLink [f] addr len) len 0
      (0, h) = .ok (offset, 0, h') ∧ h'.link.At ((eraseShares addr len).foldl Device.queueErase d)
        (S ++ (eraseShares addr len).map erasePacket) (R ++ replies) := by
    unfold eraseShares
    split_ifs with hout hwhole
    · simp only [List.foldl_nil, List.map_nil, List.append_nil]
      by_cases hzero : len = 0
      · refine ⟨0, [], h, transfer_done _ _ (by omega), ?_⟩
        rwa [List.append_nil]
      · refine ⟨0, [], h, transfer_stop (by omega) (eraseRound_outside hf (by omega)), ?_⟩
        rwa [List.append_nil]
    · have hshare := hf.share_eq (show addr < 0x8020000 by omega) hlen
      rw [if_pos hwhole] at hshare
      obtain ⟨reply, h', hround, hat'⟩ :=
        eraseRound_inside hat hf (by omega) (by omega) hlen hshare
      refine ⟨0 + len, [reply], h', ?_, hat'⟩
      rw [transfer_round (by omega) hround (by omega), transfer_done _ _ (by omega)]
    · have hshare := hf.share_eq (show addr < 0x8020000 by omega) hlen
      rw [if_neg hwhole] at hshare
      obtain ⟨reply, h', hround, hat'⟩ :=
        eraseRound_inside hat hf (by omega) (by omega) (by omega) hshare
      refine ⟨0 + (0x8020000 - addr), [reply], h', ?_, hat'⟩
      rw [transfer_round (by omega) hround (by omega)]
      exact transfer_stop (by omega) (eraseRound_outside hf (by omega))
  obtain ⟨offset, replies, h', hrounds, hat'⟩ := hloop
  refine ⟨replies, h', ?_, hat'⟩
  unfold targetFlashErase
  rw [bind_of_ok hrounds]
  rfl

/-- The byte at `x` lies in `[address, address + size)`, in 32 bits. -/
def FlashEraseParams.Contains (p : FlashEraseParams) (x : ℕ) : Prop :=
  ∃ j < p.size, (p.address + j) % 4294967296 = x

/-- The loop takes the requests, they cover `[addr, addr + len)`, and once the loop has run on
the device `e` that range is erased. -/
structure RangeErased (requests : List FlashEraseParams) (e : Device) (addr len : ℕ) : Prop where
  accepted : ∀ p ∈ requests, p.accepted = true
  covered : ∀ i < len, ∃ p ∈ requests, p.Contains ((addr + i) % 4294967296)
  erased : ∃ e', LoopRun .disableIrq19 e .enableIrq19 e' ∧
    ∀ i < len, e'.mem ((addr + i) % 4294967296) = 0xFF

/-- Whatever the flash of the device holds, a call on the probed target that returns zero means
that the range gets erased. -/
def ZeroMeansErased (d : Device) (addr len : ℕ) : Prop :=
  ∀ (mem : ℕ → UInt8) (t : Target Link) (f : TargetFlash), t.flash = [f] → f.IsStm32f1 →
    t.host.link.device = some { d with mem := mem } →
    ∃ ret t' e, targetFlashErase firmwareLink t addr len = .ok (ret, t') ∧
      t'.host.link.device = some e ∧
      (ret = 0 → RangeErased (eraseRequests t.host.link t'.host.link) e addr len)

/-- The loop run on its own, from its first statement. -/
theorem loopRun_whole (d : Device) : ∃ d', LoopRun .disableIrq19 d .enableIrq19 d' ∧
    d'.mem = eraseEntries d.mon.gEraseParams.toList d.mem := by
  obtain ⟨d', hrun, hmem⟩ := loopRun_entries d.mon.gEraseParams.toList
    { d with mon := { d.mon with irq19 := false, irq20 := false } } rfl
  exact ⟨d', .cons rfl rfl (.cons rfl rfl hrun), hmem⟩

/-- The entries that wait once a call has handed its requests down. -/
def Device.erasesAfter (d : Device) (addr len : ℕ) : List FlashEraseParams :=
  ((eraseShares addr len).foldl Device.queueErase d).mon.gEraseParams.toList

theorem foldl_queueErase_mem (ps : List FlashEraseParams) (d : Device) :
    (ps.foldl Device.queueErase d).mem = d.mem := by
  induction ps generalizing d with
  | nil => rfl
  | cons p ps ih =>
    rw [List.foldl_cons, ih]
    rfl

theorem foldl_queueErase_withMem (ps : List FlashEraseParams) (d : Device) (mem : ℕ → UInt8) :
    ps.foldl Device.queueErase { d with mem := mem } =
      { ps.foldl Device.queueErase d with mem := mem } := by
  induction ps generalizing d with
  | nil => rfl
  | cons p ps ih =>
    rw [List.foldl_cons, List.foldl_cons]
    exact ih (d.queueErase p)

theorem eraseShares_lt {addr len : ℕ} (ha : addr < 4294967296) (hlen : len < 4294967296) :
    ∀ p ∈ eraseShares addr len, p.address < 4294967296 ∧ p.size < 4294967296 := by
  intro p hp
  unfold eraseShares at hp
  split_ifs at hp
  · exact absurd hp List.not_mem_nil
  · rw [List.mem_singleton.mp hp]
    exact ⟨ha, hlen⟩
  · rw [List.mem_singleton.mp hp]
    show addr < 4294967296 ∧ 0x8020000 - addr < 4294967296
    omega

/-- The promise of the answer, by the requests and the entries that wait after the call. -/
theorem zeroMeansErased_iff {d : Device} (hfree : d.inEndpoint = none) {addr len : ℕ}
    (ha : addr < 4294967296) (hlen : len < 4294967296) : ZeroMeansErased d addr len ↔
      (∀ p ∈ eraseShares addr len, p.accepted = true) ∧
      (∀ i < len, ∃ p ∈ eraseShares addr len, p.Contains ((addr + i) % 4294967296)) ∧
      ∀ i < len, ∃ p ∈ carriedOut (d.erasesAfter addr len), p.Erases ((addr + i) % 4294967296) := by
  have hcall : ∀ (mem : ℕ → UInt8) (t : Target Link) (f : TargetFlash), t.flash = [f] →
      f.IsStm32f1 → t.host.link.device = some { d with mem := mem } →
      ∃ t' e e', targetFlashErase firmwareLink t addr len = .ok (0, t') ∧
        t'.host.link.device = some e ∧
        eraseRequests t.host.link t'.host.link = eraseShares addr len ∧
        LoopRun .disableIrq19 e .enableIrq19 e' ∧
        e'.mem = eraseEntries (d.erasesAfter addr len) mem := by
    intro mem t f hflash hf hdev
    obtain ⟨replies, h', hcall, hat⟩ :=
      targetFlashErase_ok (Link.at_of_device hdev hfree) hf ha hlen
    obtain ⟨e, he, _, htarget⟩ := hat.device
    obtain ⟨e', hrun, hmem⟩ := loopRun_whole e
    have ht : t = ⟨[f], t.host⟩ := by rw [← hflash]
    refine ⟨⟨[f], h'⟩, e, e', by rw [ht]; exact hcall, he,
      eraseRequests_append hat.sent (eraseShares_lt ha hlen), hrun, ?_⟩
    have hqueue : e.mon = ((eraseShares addr len).foldl Device.queueErase d).mon := by
      have hmon : e.target.mon = _ := congrArg Device.mon htarget
      rw [foldl_queueErase_withMem] at hmon
      exact hmon
    rw [hmem, hqueue, mem_of_target htarget, foldl_queueErase_mem]
    rfl
  constructor
  · intro hzero
    have hpromise : ∀ mem : ℕ → UInt8, (∀ p ∈ eraseShares addr len, p.accepted = true) ∧
        (∀ i < len, ∃ p ∈ eraseShares addr len, p.Contains ((addr + i) % 4294967296)) ∧
        ∀ i < len, eraseEntries (d.erasesAfter addr len) mem ((addr + i) % 4294967296) = 0xFF := by
      intro mem
      set t : Target Link :=
        ⟨[stm32f1Flash], ⟨.zero, .zero, ⟨some { d with mem := mem }, [], []⟩⟩⟩ with ht
      obtain ⟨ret, t₁, e₁, hcall₁, he₁, hok⟩ :=
        hzero mem t stm32f1Flash rfl ⟨rfl, rfl, rfl, rfl⟩ rfl
      obtain ⟨t₂, e₂, e', hcall₂, he₂, hrequests, hrun, hmem⟩ :=
        hcall mem t stm32f1Flash rfl ⟨rfl, rfl, rfl, rfl⟩ rfl
      have hsame := Except.ok.inj (hcall₁.symm.trans hcall₂)
      obtain ⟨rfl, rfl⟩ := Prod.mk.inj hsame
      obtain rfl := Option.some.inj (he₁.symm.trans he₂)
      have herased := hok rfl
      rw [hrequests] at herased
      refine ⟨herased.accepted, herased.covered, ?_⟩
      obtain ⟨e'', hrun', hall⟩ := herased.erased
      obtain ⟨-, rfl⟩ := hrun'.unique hrun rfl rfl
      rw [← hmem]
      exact hall
    refine ⟨(hpromise d.mem).1, (hpromise d.mem).2.1, ?_⟩
    intro i hi
    rw [← eraseEntries_erases_iff]
    exact fun mem => (hpromise mem).2.2 i hi
  · rintro ⟨haccepted, hcovered, herased⟩ mem t f hflash hf hdev
    obtain ⟨t', e, e', hcall, he, hrequests, hrun, hmem⟩ := hcall mem t f hflash hf hdev
    refine ⟨0, t', e, hcall, he, fun _ => ?_⟩
    rw [hrequests]
    refine ⟨haccepted, hcovered, e', hrun, ?_⟩
    intro i hi
    obtain ⟨p, hp, hpe⟩ := herased i hi
    rw [hmem]
    exact eraseEntries_erases mem hp hpe

/-- The range is empty, or it lies in user flash and each of its bytes is erased by an entry that
the loop carries out when the request joins those that wait. -/
def RangeErasable (d : Device) (addr len : ℕ) : Prop :=
  len = 0 ∨ (0x08004000 ≤ addr ∧ addr + len ≤ 0x08020000 ∧
    ∀ x, addr ≤ x → x < addr + len → ∃ p ∈ carriedOut (d.erasesWith ⟨addr, len⟩), p.Erases x)

/-- With no entry waiting the request itself has to do it, page by page. -/
theorem rangeErasable_noneWaiting {d : Device} (hnone : d.mon.gEraseParams.toList = [])
    (addr len : ℕ) : RangeErasable d addr len ↔ len = 0 ∨
      (0x08004000 ≤ addr ∧ addr + len ≤ 0x08020000 ∧
        (addr % 0x400 = 0 ∨ addr % 0x400 + len ≤ 0x400)) := by
  have hwith : d.erasesWith ⟨addr, len⟩ = [⟨addr, len⟩] := by
    unfold Device.erasesWith
    rw [hnone]
    rfl
  unfold RangeErasable
  rw [hwith]
  apply or_congr Iff.rfl
  apply and_congr_right
  intro hlo
  apply and_congr_right
  intro hhi
  rw [← erases_range_iff (a := addr) (n := len) (by omega)]
  have haccepted : FlashEraseParams.accepted ⟨addr, len⟩ = true := by
    rw [accepted_iff]
    show 0x08004000 ≤ addr ∧ addr ≤ 0x80020000 ∧ (addr + len) % 4294967296 ≤ 0x80020000
    omega
  have hcarried : carriedOut [⟨addr, len⟩] = [⟨addr, len⟩] := by
    rw [carriedOut_cons, if_pos haccepted]
    rfl
  rw [hcarried]
  simp only [List.mem_singleton, exists_eq_left]

/-- No entry that is carried out reaches the end of the address space. -/
theorem not_erases_last {ps : List FlashEraseParams} {p : FlashEraseParams}
    (hp : p ∈ carriedOut ps) : ¬ p.Erases 0xFFFFFFFF := by
  have hlast := ((accepted_iff p).mp (accepted_of_carriedOut hp)).2.2
  rintro ⟨-, hbelow, -⟩
  omega

/-- A request that the region takes whole: the promise is kept inside user flash, and never for a
range that goes over the end of the address space. -/
theorem wholeShare_iff {d : Device} {addr len : ℕ} (hlen : len < 4294967296) (hpos : len ≠ 0)
    (haddr : addr < 0x8020000)
    (hwhole : addr + len ≤ 0x8020000 ∨ 4294967296 ≤ addr + len) :
    (FlashEraseParams.accepted ⟨addr, len⟩ = true ∧
      ∀ i < len, ∃ p ∈ carriedOut (d.erasesWith ⟨addr, len⟩),
        p.Erases ((addr + i) % 4294967296)) ↔ RangeErasable d addr len := by
  have hmod : addr + len ≤ 0x8020000 → ∀ i < len, (addr + i) % 4294967296 = addr + i :=
    fun hhi i hi => Nat.mod_eq_of_lt (by omega)
  constructor
  · rintro ⟨haccepted, herased⟩
    have hlo : 0x08004000 ≤ addr := ((accepted_iff _).mp haccepted).1
    have hhi : addr + len ≤ 0x08020000 := by
      by_contra hover
      obtain ⟨p, hp, hpe⟩ := herased (0xFFFFFFFF - addr) (by omega)
      rw [show (addr + (0xFFFFFFFF - addr)) % 4294967296 = 0xFFFFFFFF by omega] at hpe
      exact not_erases_last hp hpe
    refine Or.inr ⟨hlo, hhi, ?_⟩
    intro x hx hx'
    have hbyte := herased (x - addr) (by omega)
    rwa [hmod hhi _ (by omega), show addr + (x - addr) = x by omega] at hbyte
  · rintro (hzero | ⟨hlo, hhi, herased⟩)
    · exact absurd hzero hpos
    · constructor
      · rw [accepted_iff]
        show 0x08004000 ≤ addr ∧ addr ≤ 0x80020000 ∧ (addr + len) % 4294967296 ≤ 0x80020000
        omega
      · intro i hi
        rw [hmod hhi i hi]
        exact herased (addr + i) (by omega) (by omega)

/-- Zero from `target_flash_erase` means erased exactly for these ranges. -/
theorem targetFlashErase_zero_iff (d : Device) (hfree : d.inEndpoint = none) (addr len : ℕ)
    (ha : addr < 4294967296) (hlen : len < 4294967296) :
    ZeroMeansErased d addr len ↔ RangeErasable d addr len := by
  rw [zeroMeansErased_iff hfree ha hlen]
  unfold Device.erasesAfter eraseShares
  split_ifs with hout hwhole
  · -- nothing is handed down
    constructor
    · rintro ⟨-, hcovered, -⟩
      by_contra hno
      have hpos : len ≠ 0 := fun hzero => hno (Or.inl hzero)
      obtain ⟨p, hp, -⟩ := hcovered 0 (by omega)
      exact List.not_mem_nil hp
    · intro herasable
      have hzero : len = 0 := by
        rcases herasable with hzero | ⟨hlo, hhi, -⟩ <;> omega
      subst hzero
      exact ⟨fun p hp => absurd hp List.not_mem_nil, fun i hi => absurd hi (Nat.not_lt_zero i),
        fun i hi => absurd hi (Nat.not_lt_zero i)⟩
  · have hentries : ([⟨addr, len⟩].foldl Device.queueErase d).mon.gEraseParams.toList =
        d.erasesWith ⟨addr, len⟩ := queueErase_entries d ⟨addr, len⟩
    rw [hentries, ← wholeShare_iff hlen (by omega) (by omega) hwhole]
    simp only [List.mem_singleton, forall_eq, exists_eq_left]
    constructor
    · exact fun hall => ⟨hall.1, hall.2.2⟩
    · exact fun hall => ⟨hall.1, fun i hi => ⟨i, hi, rfl⟩, hall.2⟩
  · -- the range goes on after the region
    constructor
    · rintro ⟨-, hcovered, -⟩
      obtain ⟨p, hp, j, hj, hx⟩ := hcovered (0x8020000 - addr) (by omega)
      rw [List.mem_singleton.mp hp] at hj hx
      simp only at hj hx
      omega
    · rintro (hzero | ⟨hlo, hhi, -⟩) <;> omega

theorem targetFlashErase_zero_iff_twoPages :
    ZeroMeansErased (.initial blankMemory bootSymbols) 0x08004000 0x800 ↔
      RangeErasable (.initial blankMemory bootSymbols) 0x08004000 0x800 :=
  targetFlashErase_zero_iff (.initial blankMemory bootSymbols) rfl 0x08004000 0x800 (by decide)
    (by decide)

/-- Part of the bootloader, a range that goes on after flash, and a page and a half that do not
begin with a page: each answered with zero, and not erased. -/
theorem not_zeroMeansErased :
    ¬ ZeroMeansErased (.initial blankMemory bootSymbols) 0x08000000 0x400 ∧
    ¬ ZeroMeansErased (.initial blankMemory bootSymbols) 0x0801FC00 0x800 ∧
    ¬ ZeroMeansErased (.initial blankMemory bootSymbols) 0x08004200 0x600 := by
  refine ⟨?_, ?_, ?_⟩
  · rw [zeroMeansErased_iff rfl (by decide) (by decide)]
    rintro ⟨haccepted, -, -⟩
    exact absurd haccepted (by decide)
  · rw [zeroMeansErased_iff rfl (by decide) (by decide)]
    rintro ⟨-, hcovered, -⟩
    obtain ⟨p, hp, j, hj, hx⟩ := hcovered 0x400 (by decide)
    have hshare : eraseShares 0x0801FC00 0x800 = [⟨0x0801FC00, 0x400⟩] := by decide
    rw [hshare] at hp
    rw [List.mem_singleton.mp hp] at hj hx
    simp only at hj hx
    omega
  · rw [zeroMeansErased_iff rfl (by decide) (by decide)]
    rintro ⟨-, -, herased⟩
    obtain ⟨p, hp, hpe⟩ := herased 0x200 (by decide)
    have hentries : carriedOut (Device.erasesAfter (.initial blankMemory bootSymbols) 0x08004200
        0x600) = [⟨0x08004200, 0x600⟩] := by decide +kernel
    rw [hentries] at hp
    rw [List.mem_singleton.mp hp] at hpe
    exact absurd hpe (by decide)

end BluePill
