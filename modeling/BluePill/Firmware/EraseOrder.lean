import BluePill.Firmware.EraseLoop
import BluePill.Firmware.MonitorRules

/-! The order of erases and writes in flash: which erase of the queue a page is erased for, and
when a write that the host sent later is safe from it. -/
namespace BluePill
open Lib

def queuedEntries (log : List FlashEvent) : List FlashEraseParams :=
  log.filterMap fun
    | .eraseQueued p => some p
    | _ => none

def pulledEntries (log : List FlashEvent) : List FlashEraseParams :=
  log.filterMap fun
    | .erasePulled p => some p
    | _ => none

theorem queuedEntries_append (xs ys : List FlashEvent) :
    queuedEntries (xs ++ ys) = queuedEntries xs ++ queuedEntries ys := List.filterMap_append

theorem pulledEntries_append (xs ys : List FlashEvent) :
    pulledEntries (xs ++ ys) = pulledEntries xs ++ pulledEntries ys := List.filterMap_append

/-- The entries pulled and the entries still waiting are the entries queued, in order. -/
def Device.EraseLedger (d : Device) : Prop :=
  queuedEntries d.flashLog = pulledEntries d.flashLog ++ d.mon.gEraseParams.toList

/-- Events that packets of the host make. -/
inductive FlashEvent.ByHost : FlashEvent → Prop
  | queued (params : FlashEraseParams) : ByHost (.eraseQueued params)
  | programmed (address data : ℕ) : ByHost (.programmed address data)

theorem pulledEntries_byHost {log : List FlashEvent} (h : ∀ e ∈ log, e.ByHost) :
    pulledEntries log = [] := by
  refine List.filterMap_eq_nil_iff.mpr fun e he => ?_
  cases h e he <;> rfl

theorem queuedEntries_isProgram {log : List FlashEvent} (h : ∀ e ∈ log, e.IsProgram) :
    queuedEntries log = [] := by
  refine List.filterMap_eq_nil_iff.mpr fun e he => ?_
  cases h e he
  rfl

/-- A request adds at most the entry it queues. -/
theorem serve_flash (d : Device) (r : Request) :
    ((d.serve r).flashLog = d.flashLog ∧
      (d.serve r).mon.gEraseParams.toList = d.mon.gEraseParams.toList) ∨
    ∃ params, (d.serve r).flashLog = d.flashLog ++ [.eraseQueued params] ∧
      (d.serve r).mon.gEraseParams.toList = d.mon.gEraseParams.toList ++ [params] := by
  cases r with
  | startEraseLoop address size =>
    have hput := CircularBuffer.toList_put d.mon.gEraseParams ⟨address, size⟩
    have hfst := CircularBuffer.put_fst d.mon.gEraseParams ⟨address, size⟩
    by_cases hroom : d.mon.gEraseParams.toList.length + 1 < 4
    · rw [if_pos hroom] at hput
      rw [decide_eq_true hroom] at hfst
      refine .inr ⟨⟨address, size⟩, ?_, hput⟩
      simp only [Device.serve, Device.debugStartEraseLoop, hfst, if_true]
    · rw [if_neg hroom] at hput
      rw [decide_eq_false hroom] at hfst
      refine .inl ⟨?_, hput⟩
      simp only [Device.serve, Device.debugStartEraseLoop, hfst, Bool.false_eq_true, if_false]
  | halt | resume step | startFirmware | startLocalLoop => exact .inl ⟨rfl, rfl⟩

theorem foldl_serve_flash (d : Device) (rs : List Request) :
    ∃ more, (rs.foldl Device.serve d).flashLog = d.flashLog ++ more ∧ (∀ e ∈ more, e.ByHost) ∧
      (rs.foldl Device.serve d).mon.gEraseParams.toList =
        d.mon.gEraseParams.toList ++ queuedEntries more := by
  induction rs generalizing d with
  | nil => exact ⟨[], by simp [queuedEntries]⟩
  | cons r rs ih =>
    obtain ⟨more, hlog, hhost, hq⟩ := ih (d.serve r)
    rw [List.foldl_cons]
    rcases serve_flash d r with ⟨hlog₁, hq₁⟩ | ⟨params, hlog₁, hq₁⟩
    · exact ⟨more, by rw [hlog, hlog₁], hhost, by rw [hq, hq₁]⟩
    · refine ⟨.eraseQueued params :: more, ?_, ?_, ?_⟩
      · rw [hlog, hlog₁, List.append_assoc, List.singleton_append]
      · intro e he
        rcases List.mem_cons.mp he with rfl | he
        · exact .queued params
        · exact hhost e he
      · rw [hq, hq₁, List.append_assoc]
        rfl

/-- A packet adds queued entries and programmed half-words only. -/
theorem PacketEffect.flash {d d' : Device} (h : PacketEffect d d') :
    ∃ more, d'.flashLog = d.flashLog ++ more ∧ (∀ e ∈ more, e.ByHost) ∧
      d'.mon.gEraseParams.toList = d.mon.gEraseParams.toList ++ queuedEntries more := by
  cases h with
  | requests rs hmon hlog =>
    rw [hmon, hlog]
    exact foldl_serve_flash d rs
  | programs log hmon hlog hall =>
    refine ⟨log, hlog, fun e he => ?_, ?_⟩
    · obtain ⟨address, data⟩ := hall e he
      exact .programmed address data
    · rw [hmon, queuedEntries_isProgram hall, List.append_nil]

theorem debugHandler_flash (l : Line) (d : Device) :
    (debugHandler l d).2.flashLog = d.flashLog ∧
      (debugHandler l d).2.mon.gEraseParams = d.mon.gEraseParams := by
  cases l
  case get =>
    simp only [debugHandler]
    rcases d.mon.gCmdQueue.get with _ | c <;> exact ⟨rfl, rfl⟩
  all_goals exact ⟨rfl, rfl⟩

/-- The loop has an entry in hand. -/
def EraseLine.working : EraseLine → Bool
  | .checkAddress _ | .checkLast _ | .pageTest _ _ | .blankCheck _ _ | .erasePage _ _ _
  | .nextPage _ _ => true
  | _ => false

/-- The loop has masked the interrupts of the USB. -/
def EraseLine.masked : EraseLine → Bool
  | .disableIrq19 | .disableIrq20 | .startLocalLoop | .spin => false
  | _ => true

def Monitor.eraseWorking (m : Monitor) : Bool :=
  match m.thread with
  | .eraseLoop l => l.working
  | _ => false

def Monitor.UsbMasked (m : Monitor) : Prop :=
  ∀ l, m.thread = .eraseLoop l → l.masked = true → m.irq20 = false

theorem EraseLine.masked_of_working {l : EraseLine} (h : l.working = true) : l.masked = true := by
  cases l <;> first | rfl | exact absurd h Bool.false_ne_true

theorem not_working_of_irq20 {m : Monitor} (h : m.UsbMasked) (hirq : m.irq20 = true) :
    m.eraseWorking = false := by
  unfold Monitor.eraseWorking
  split
  next l hthread =>
    refine Bool.eq_false_iff.mpr fun hw => ?_
    have hoff := h l hthread (EraseLine.masked_of_working hw)
    exact absurd (hirq.symm.trans hoff) Bool.noConfusion
  next => rfl

theorem debugHandler_irq20 (l : Line) (d : Device) :
    (debugHandler l d).2.mon.irq20 = d.mon.irq20 := by
  cases l
  case get =>
    simp only [debugHandler]
    rcases d.mon.gCmdQueue.get with _ | c <;> rfl
  all_goals rfl

theorem usbMasked_kept (ok : Config → Event → Prop) : Kept ok fun _ m => m.UsbMasked where
  usb := by
    intro c packet m h _ hserved l hthread hmasked
    rw [hserved.frame.1] at hthread
    rw [hserved.frame.2.1]
    exact h l hthread hmasked
  enter := fun _ _ h _ _ _ => h
  handler := by
    intro c h _ _ l hthread hmasked
    rw [debugHandler_irq20]
    rcases debugHandler_eraseLoop hthread with rfl | hold
    · exact absurd hmasked Bool.false_ne_true
    · exact h l hold hmasked
  thread := by
    rintro c l h - - hthread - l' hl' hmasked
    obtain rfl : (flashEraseLoop l c.dev).1 = l' := ThreadCode.eraseLoop.inj hl'
    have hold := h l hthread
    cases l
    case disableIrq19 | enableIrq20 | startLocalLoop | spin =>
      exact absurd hmasked Bool.false_ne_true
    case disableIrq20 => rfl
    case pull =>
      simp only [threadStep, flashEraseLoop]
      rcases c.dev.mon.gEraseParams.pull with ⟨_ | p, q⟩ <;> exact hold rfl
    case erasePage p cur erase => cases erase <;> exact hold rfl
    all_goals exact hold rfl
  user := by
    intro c a h _ _ _ l hl hmasked
    obtain ⟨hthread, hirq, -⟩ := userStep_frame a c.dev
    rw [hthread] at hl
    rw [hirq]
    exact h l hl hmasked

/-- What one event adds to the flash log. -/
inductive FlashStep (d d' : Device) : Prop
  | host (more : List FlashEvent) (hlog : d'.flashLog = d.flashLog ++ more)
      (hhost : ∀ e ∈ more, e.ByHost)
      (hqueue : d'.mon.gEraseParams.toList = d.mon.gEraseParams.toList ++ queuedEntries more)
      (hwork : d'.mon.eraseWorking = true → d.mon.eraseWorking = true)
  | pulled (p : FlashEraseParams) (hlog : d'.flashLog = d.flashLog ++ [.erasePulled p])
      (hqueue : d.mon.gEraseParams.toList = p :: d'.mon.gEraseParams.toList)
  | erased (x : ℕ) (hlog : d'.flashLog = d.flashLog ++ [.pageErased x])
      (hqueue : d'.mon.gEraseParams = d.mon.gEraseParams) (hwork : d.mon.eraseWorking = true)

theorem FlashStep.same {d d' : Device} (hlog : d'.flashLog = d.flashLog)
    (hqueue : d'.mon.gEraseParams.toList = d.mon.gEraseParams.toList)
    (hwork : d'.mon.eraseWorking = true → d.mon.eraseWorking = true) : FlashStep d d' :=
  .host [] (by rw [hlog, List.append_nil]) (by simp) (by rw [hqueue]; simp [queuedEntries]) hwork

theorem eraseWorking_congr {m m' : Monitor} (h : m'.thread = m.thread) :
    m'.eraseWorking = true → m.eraseWorking = true := by
  rw [Monitor.eraseWorking, Monitor.eraseWorking, h]
  exact id

theorem threadStep_flash {l : EraseLine} {d : Device} (hthread : d.mon.thread = .eraseLoop l) :
    FlashStep d (threadStep l d) := by
  have hwork : d.mon.eraseWorking = l.working := by rw [Monitor.eraseWorking, hthread]
  cases l with
  | pull =>
    rcases hq : d.mon.gEraseParams.toList with _ | ⟨p, ps⟩
    · rw [threadStep, flashEraseLoop_pull_nil hq]
      exact .same rfl rfl fun h => absurd h Bool.false_ne_true
    · obtain ⟨q, hq', hpull⟩ := flashEraseLoop_pull_cons hq
      rw [threadStep, hpull]
      exact .pulled p rfl (by rw [hq, hq'])
  | erasePage p cur erase =>
    cases erase with
    | true => exact .erased cur rfl rfl hwork
    | false => exact .same rfl rfl fun _ => hwork
  | checkAddress p | checkLast p | pageTest p cur | blankCheck p cur | nextPage p cur =>
    exact .same rfl rfl fun _ => hwork
  | disableIrq19 | disableIrq20 | enableIrq19 | enableIrq20 | startLocalLoop | spin =>
    exact .same rfl rfl fun h => absurd h Bool.false_ne_true

theorem step_flash {c c' : Config} {e : Event} (hs : step c e = some c') :
    FlashStep c.dev c'.dev := by
  rcases step_cases hs with ⟨packet, rfl, _, hline, hd⟩ | ⟨rfl, rfl⟩ | ⟨regs, rfl, hline, hen, rfl⟩ |
    ⟨rfl, hline, rfl⟩ | ⟨l, rfl, hline, hthread, hruns, rfl⟩ | ⟨a, rfl, hline, hthread, rfl⟩
  · have heffect := usbDataOutCallback_effect hd
    obtain ⟨more, hlog, hhost, hqueue⟩ := heffect.flash
    exact .host more hlog hhost hqueue (eraseWorking_congr heffect.requested.frame.1)
  · exact .same rfl rfl id
  · exact .same rfl rfl id
  · obtain ⟨hlog, hqueue⟩ := debugHandler_flash c.line c.dev
    refine .same hlog (by rw [hqueue]) ?_
    by_cases hl : ∃ s, c.line = .setPc s
    · obtain ⟨s, hpc⟩ := hl
      rw [hpc]
      cases s <;> exact fun h => absurd h Bool.false_ne_true
    · exact eraseWorking_congr (debugHandler_thread c.dev fun s hs => hl ⟨s, hs⟩)
  · exact threadStep_flash hthread
  · cases a with
    | store mem => exact .same rfl rfl id
    | breakpoint => exact .same rfl rfl id
    | fault => exact .same rfl rfl id
    | sysCallReset => exact .same rfl rfl id

/-- First in, first out: the ledger is kept by every event. -/
theorem eraseLedger_step {d d' : Device} (h : d.EraseLedger) (hs : FlashStep d d') :
    d'.EraseLedger := by
  unfold Device.EraseLedger at h ⊢
  cases hs with
  | host more hlog hhost hqueue =>
    rw [hlog, queuedEntries_append, pulledEntries_append, hqueue, pulledEntries_byHost hhost, h]
    simp
  | pulled p hlog hqueue =>
    rw [hqueue] at h
    rw [hlog, queuedEntries_append, pulledEntries_append, h]
    simp [queuedEntries, pulledEntries]
  | erased x hlog hqueue =>
    rw [hlog, queuedEntries_append, pulledEntries_append, hqueue, h]
    simp [queuedEntries, pulledEntries]

theorem targetRun_eraseLedger {ok : Config → Event → Prop} {mem : ℕ → UInt8} {symbols : Symbols}
    {es : List Event} {c : Config} (h : TargetRun ok mem symbols es c) : c.dev.EraseLedger :=
  h.invariant (P := fun c => c.dev.EraseLedger) (by rfl)
    fun _ _ _ hledger _ hs => eraseLedger_step hledger (step_flash hs)

/-- Since the log was `base`, pages were erased for entries pulled since then only. -/
def ErasedSince (base : List FlashEvent) (d : Device) : Prop :=
  ∃ more, d.flashLog = base ++ more ∧ (d.mon.eraseWorking = true → pulledEntries more ≠ []) ∧
    ∀ m₁ x m₂, more = m₁ ++ .pageErased x :: m₂ → pulledEntries m₁ ≠ []

theorem pulledEntries_ne_nil_append {xs : List FlashEvent} (h : pulledEntries xs ≠ [])
    (ys : List FlashEvent) : pulledEntries (xs ++ ys) ≠ [] := by
  rw [pulledEntries_append]
  exact fun hnil => h (List.append_eq_nil_iff.mp hnil).1

/-- An element of two joined lists lies in the first or in the second. -/
theorem split_append_cases {α : Type} {xs ys m₁ m₂ : List α} {e : α}
    (h : xs ++ ys = m₁ ++ e :: m₂) :
    (∃ m₂', xs = m₁ ++ e :: m₂') ∨ ∃ n₁, m₁ = xs ++ n₁ ∧ ys = n₁ ++ e :: m₂ := by
  rcases List.append_eq_append_iff.mp h with ⟨n₁, hm, hy⟩ | ⟨rest, hx, hrest⟩
  · exact .inr ⟨n₁, hm, hy⟩
  · rcases rest with _ | ⟨e', rest⟩
    · exact .inr ⟨[], by simpa using hx.symm, by simpa using hrest.symm⟩
    · obtain rfl : e = e' := (List.cons.inj hrest).1
      exact .inl ⟨rest, hx⟩

theorem erasedSince_step {base : List FlashEvent} {d d' : Device} (h : ErasedSince base d)
    (hs : FlashStep d d') : ErasedSince base d' := by
  obtain ⟨more, hlog, hwork, herased⟩ := h
  cases hs with
  | host added hlog' hhost _ hwork' =>
    refine ⟨more ++ added, by rw [hlog', hlog, List.append_assoc],
      fun hw => pulledEntries_ne_nil_append (hwork (hwork' hw)) added, fun m₁ x m₂ hsplit => ?_⟩
    rcases split_append_cases hsplit with ⟨m₂', hin⟩ | ⟨n₁, -, hin⟩
    · exact herased m₁ x m₂' hin
    · exact nomatch hhost (.pageErased x) (by simp [hin])
  | pulled p hlog' hqueue =>
    refine ⟨more ++ [.erasePulled p], by rw [hlog', hlog, List.append_assoc], fun _ => ?_,
      fun m₁ x m₂ hsplit => ?_⟩
    · simp [pulledEntries]
    · rcases split_append_cases hsplit with ⟨m₂', hin⟩ | ⟨n₁, -, hin⟩
      · exact herased m₁ x m₂' hin
      · have hmem : FlashEvent.pageErased x ∈ [FlashEvent.erasePulled p] := by simp [hin]
        simp at hmem
  | erased y hlog' hqueue hw =>
    refine ⟨more ++ [.pageErased y], by rw [hlog', hlog, List.append_assoc],
      fun _ => pulledEntries_ne_nil_append (hwork hw) _, fun m₁ x m₂ hsplit => ?_⟩
    rcases split_append_cases hsplit with ⟨m₂', hin⟩ | ⟨n₁, hm, hin⟩
    · exact herased m₁ x m₂' hin
    · rw [hm]
      exact pulledEntries_ne_nil_append (hwork hw) n₁

theorem run_erasedSince {ok : Config → Event → Prop} {c c' : Config} {es : List Event}
    (h : Run step ok c es c') (hwork : c.dev.mon.eraseWorking = false) :
    ErasedSince c.dev.flashLog c'.dev := by
  refine h.invariant (P := fun c' => ErasedSince c.dev.flashLog c'.dev) ?_
    fun _ _ _ herased _ hs => erasedSince_step herased (step_flash hs)
  exact ⟨[], by simp, fun hw => absurd (hw.symm.trans hwork) Bool.noConfusion, by simp⟩

/-- The flash range a `MemoryWrite` packet programs: its address and the number of bytes. -/
def flashWriteRange (packet : List UInt8) : Option (ℕ × ℕ) :=
  match MemReadWriteHead.decode packet with
  | some head =>
    if head.cmd = DebugCommand.memoryWrite.toByte ∧ isFlashRegion head.address then
      some (head.address, payloadSize MemReadWriteHead.size packet.length head.byteCount
        (getValidatedAlign head.align.toNat))
    else none
  | none => none

/-- The byte ranges of an erase and of a write have a byte in common. -/
def FlashEraseParams.Overlaps (p : FlashEraseParams) (range : ℕ × ℕ) : Prop :=
  range.1 < p.address + p.size ∧ p.address < range.1 + range.2

instance (p : FlashEraseParams) (range : ℕ × ℕ) : Decidable (p.Overlaps range) := by
  unfold FlashEraseParams.Overlaps
  infer_instance

/-- A write packet is handled with no erase queued for the range it programs. -/
def writesAfterErase (c : Config) : Event → Prop
  | .usb packet => ∀ range ∈ flashWriteRange packet,
      ∀ p ∈ c.dev.mon.gEraseParams.toList, ¬ p.Overlaps range
  | _ => True

instance (c : Config) : (e : Event) → Decidable (writesAfterErase c e)
  | .usb packet => inferInstanceAs (Decidable (∀ range ∈ flashWriteRange packet,
      ∀ p ∈ c.dev.mon.gEraseParams.toList, ¬ p.Overlaps range))
  | .collect | .enter _ | .handler | .thread | .user _ => inferInstanceAs (Decidable True)

/-- What the host sees: it sends an erase, which is queued; it collects the reply with status
one; and later it sends a write into the range. The run goes on to `after`. -/
structure EraseThenWrite (ok : Config → Event → Prop) (mem : ℕ → UInt8) (symbols : Symbols) where
  params : FlashEraseParams
  range : ℕ × ℕ
  erasePacket : List UInt8
  writePacket : List UInt8
  reply : List UInt8
  before : Config
  queued : Config
  answered : Config
  arrived : Config
  written : Config
  after : Config
  reach : ∃ es, TargetRun ok mem symbols es before
  erase : Run step ok before [.usb erasePacket] queued
  entry : queued.dev.flashLog = before.dev.flashLog ++ [.eraseQueued params]
  status : queued.dev.inEndpoint = some reply ∧ reply.take 3 = [6, 2, 1]
  delay : ∃ es, Run step ok queued es answered
  waiting : answered.dev.inEndpoint = some reply
  collect : ∃ es, Run step ok answered (.collect :: es) arrived
  write : Run step ok arrived [.usb writePacket] written
  writes : flashWriteRange writePacket = some range
  into : params.Overlaps range
  rest : ∃ es, Run step ok written es after

/-- The place of the erase in the queue's history, counted from one. -/
def EraseThenWrite.number {ok : Config → Event → Prop} {mem : ℕ → UInt8} {symbols : Symbols}
    (r : EraseThenWrite ok mem symbols) : ℕ := (queuedEntries r.before.dev.flashLog).length + 1

/-- No page is erased for this erase, the one pulled last, after the write. -/
def EraseThenWrite.Ordered {ok : Config → Event → Prop} {mem : ℕ → UInt8} {symbols : Symbols}
    (r : EraseThenWrite ok mem symbols) : Prop :=
  ∀ m₁ x m₂, r.after.dev.flashLog = r.written.dev.flashLog ++ m₁ ++ .pageErased x :: m₂ →
    (pulledEntries (r.written.dev.flashLog ++ m₁)).length ≠ r.number

theorem flashLog_le_step {d d' : Device} (h : FlashStep d d') : d.flashLog <+: d'.flashLog := by
  cases h with
  | host more hlog => exact ⟨more, hlog.symm⟩
  | pulled p hlog => exact ⟨_, hlog.symm⟩
  | erased x hlog => exact ⟨_, hlog.symm⟩

theorem flashLog_le_run {ok : Config → Event → Prop} {c c' : Config} {es : List Event}
    (h : Run step ok c es c') : c.dev.flashLog <+: c'.dev.flashLog :=
  h.invariant (P := fun c' => c.dev.flashLog <+: c'.dev.flashLog) List.prefix_rfl
    fun _ _ _ hp _ hs => hp.trans (flashLog_le_step (step_flash hs))

/-- An entry of the history that no longer waits has been pulled. -/
theorem pulled_of_not_waiting {d : Device} (h : d.EraseLedger) {log more : List FlashEvent}
    {params : FlashEraseParams} (hlog : d.flashLog = log ++ .eraseQueued params :: more)
    (hgone : params ∉ d.mon.gEraseParams.toList) :
    (queuedEntries log).length < (pulledEntries d.flashLog).length := by
  unfold Device.EraseLedger at h
  have hqueued : queuedEntries d.flashLog = queuedEntries log ++ params :: queuedEntries more := by
    rw [hlog, queuedEntries_append]
    rfl
  rw [hqueued] at h
  by_contra hle
  rcases List.append_eq_append_iff.mp h with ⟨rest, hpulled, hrest⟩ | ⟨rest, -, hrest⟩
  · rw [hpulled] at hle
    rcases rest with _ | ⟨p, rest⟩
    · exact hgone (by rw [← List.nil_append d.mon.gEraseParams.toList, ← hrest]; simp)
    · simp at hle
  · exact hgone (by rw [hrest]; simp)

/-- In a run whose write packets never meet a queued erase, an acknowledged erase is over
before a later write into its range is programmed. -/
theorem eraseThenWrite_ordered {mem : ℕ → UInt8} {symbols : Symbols}
    (r : EraseThenWrite writesAfterErase mem symbols) : r.Ordered := by
  obtain ⟨es₀, hreach⟩ := r.reach
  obtain ⟨es₁, hdelay⟩ := r.delay
  obtain ⟨es₂, hcollect⟩ := r.collect
  obtain ⟨es₃, hrest⟩ := r.rest
  have harrived := ((hreach.trans r.erase).trans hdelay).trans hcollect
  have hwritten := harrived.trans r.write
  obtain ⟨hok, hstep⟩ := r.write.singleton rfl
  -- the entry has been pulled when the write is handled
  have hpulled : r.number ≤ (pulledEntries r.arrived.dev.flashLog).length := by
    obtain ⟨more, hmore⟩ := flashLog_le_run (hdelay.trans hcollect)
    rw [r.entry, List.append_assoc, List.singleton_append] at hmore
    refine pulled_of_not_waiting (targetRun_eraseLedger harrived) hmore.symm fun hmem => ?_
    exact hok r.range r.writes r.params hmem r.into
  -- and no entry is in hand
  have hidle : r.written.dev.mon.eraseWorking = false := by
    have hmasked := (usbMasked_kept writesAfterErase).run (c := .initial mem symbols)
      (fun _ h => nomatch h) harrived
    rcases step_cases hstep with ⟨packet, he, hirq, -, hd⟩ | ⟨he, -⟩ | ⟨_, he, -⟩ | ⟨he, -⟩ |
      ⟨_, he, -⟩ | ⟨_, he, -⟩
    · have hnone := not_working_of_irq20 hmasked hirq
      rw [Monitor.eraseWorking] at hnone ⊢
      rwa [(usbDataOutCallback_effect hd).requested.frame.1]
    all_goals cases he
  intro m₁ x m₂ hafter
  obtain ⟨more, hlog, -, herased⟩ := run_erasedSince hrest hidle
  rw [hlog, List.append_assoc] at hafter
  have hnew := herased m₁ x m₂ (List.append_cancel_left hafter)
  have hlen : 0 < (pulledEntries m₁).length := List.length_pos_iff.mpr hnew
  obtain ⟨ws, hws⟩ := flashLog_le_run r.write
  rw [← hws, pulledEntries_append, pulledEntries_append, List.length_append, List.length_append]
  omega

def erasePagePacket : List UInt8 := FlashCmdHead.encode ⟨6, 2, 0x08004000, 0x400⟩

def writeWordPacket : List UInt8 := MemReadWriteHead.encode ⟨1, 2, 2, 0x08004000⟩ ++ [0x34, 0x12]

/-- The handler dispatches the erase and the loop gets to its first page. -/
def dispatchEvents : List Event :=
  .collect :: .enter threadRegs :: List.replicate 20 .handler ++ List.replicate 8 .thread

/-- The write comes in before the handler has dispatched the erase. -/
def overtakingWrite : EraseThenWrite anyStep blankMemory bootSymbols where
  params := ⟨0x08004000, 0x400⟩
  range := (0x08004000, 2)
  erasePacket := erasePagePacket
  writePacket := writeWordPacket
  reply := [6, 2, 1, 0]
  before := targetState anyStep []
  queued := targetState anyStep [.usb erasePagePacket]
  answered := targetState anyStep [.usb erasePagePacket]
  arrived := targetState anyStep [.usb erasePagePacket, .collect]
  written := targetState anyStep [.usb erasePagePacket, .collect, .usb writeWordPacket]
  after := targetState anyStep
    ([.usb erasePagePacket, .collect, .usb writeWordPacket] ++ dispatchEvents)
  reach := ⟨[], .start⟩
  erase := targetState_run [] [.usb erasePagePacket] (by decide +kernel)
  entry := by decide +kernel
  status := by decide +kernel
  delay := ⟨[], .start⟩
  waiting := by decide +kernel
  collect := ⟨[], targetState_run [.usb erasePagePacket] [.collect] (by decide +kernel)⟩
  write := targetState_run [.usb erasePagePacket, .collect] [.usb writeWordPacket] (by decide +kernel)
  writes := by decide +kernel
  into := by decide
  rest := ⟨dispatchEvents, targetState_run _ _ (by decide +kernel)⟩

/-- The page is erased after the write into it was programmed. -/
theorem overtakingWrite_not_ordered : ¬ overtakingWrite.Ordered := by
  intro h
  have hlog : overtakingWrite.after.dev.flashLog = overtakingWrite.written.dev.flashLog ++
      [.erasePulled ⟨0x08004000, 0x400⟩] ++ .pageErased 0x08004000 :: [] := by decide +kernel
  have hnumber : (pulledEntries (overtakingWrite.written.dev.flashLog ++
      [.erasePulled ⟨0x08004000, 0x400⟩])).length = overtakingWrite.number := by decide +kernel
  exact h _ _ _ hlog hnumber

/-- The loop runs to its end before the host sends the write. -/
def eraseEvents : List Event :=
  .enter threadRegs :: List.replicate 20 .handler ++ List.replicate 14 .thread

set_option maxRecDepth 4000 in
def settledWrite : EraseThenWrite writesAfterErase blankMemory bootSymbols where
  params := ⟨0x08004000, 0x400⟩
  range := (0x08004000, 2)
  erasePacket := erasePagePacket
  writePacket := writeWordPacket
  reply := [6, 2, 1, 0]
  before := targetState writesAfterErase []
  queued := targetState writesAfterErase [.usb erasePagePacket]
  answered := targetState writesAfterErase [.usb erasePagePacket]
  arrived := targetState writesAfterErase ([.usb erasePagePacket] ++ .collect :: eraseEvents)
  written := targetState writesAfterErase
    ([.usb erasePagePacket] ++ .collect :: eraseEvents ++ [.usb writeWordPacket])
  after := targetState writesAfterErase
    ([.usb erasePagePacket] ++ .collect :: eraseEvents ++ [.usb writeWordPacket] ++ [.enter threadRegs])
  reach := ⟨[], .start⟩
  erase := targetState_run [] [.usb erasePagePacket] (by decide +kernel)
  entry := by decide +kernel
  status := by decide +kernel
  delay := ⟨[], .start⟩
  waiting := by decide +kernel
  collect := ⟨eraseEvents, targetState_run [.usb erasePagePacket]
    (.collect :: eraseEvents) (by decide +kernel)⟩
  write := targetState_run _ [.usb writeWordPacket] (by decide +kernel)
  writes := by decide +kernel
  into := by decide
  rest := ⟨[.enter threadRegs], targetState_run _ [.enter threadRegs] (by decide +kernel)⟩

theorem eraseThenWrite_ordered_settledWrite : settledWrite.Ordered :=
  eraseThenWrite_ordered settledWrite

end BluePill
