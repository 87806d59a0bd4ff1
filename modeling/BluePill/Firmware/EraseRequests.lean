import BluePill.Firmware.EraseOrder
import BluePill.Firmware.ReplyEcho

/-! Erase requests: the two queues one request has to enter, its acknowledgement, and which
requests the erase loop carries out later. -/
namespace BluePill
open Lib

/-- There is room for one more entry. -/
def Monitor.RoomForParams (m : Monitor) : Prop := m.gEraseParams.toList.length < 3

/-- There is room for one more command. -/
def Monitor.RoomForCommand (m : Monitor) : Prop := m.gCmdQueue.toList.length < 15

instance (m : Monitor) : Decidable m.RoomForParams := by
  unfold Monitor.RoomForParams
  infer_instance

instance (m : Monitor) : Decidable m.RoomForCommand := by
  unfold Monitor.RoomForCommand
  infer_instance

/-- Each of the two puts succeeds or fails on its own. -/
theorem debugStartEraseLoop_spec (d : Device) (p : FlashEraseParams) :
    (d.debugStartEraseLoop p.address p.size).1 =
        decide (d.mon.RoomForParams ∧ d.mon.RoomForCommand) ∧
      (d.debugStartEraseLoop p.address p.size).2.mon.gEraseParams.toList =
        (if d.mon.RoomForParams then d.mon.gEraseParams.toList ++ [p]
          else d.mon.gEraseParams.toList) ∧
      (d.debugStartEraseLoop p.address p.size).2.mon.gCmdQueue.toList =
        (if d.mon.RoomForCommand then d.mon.gCmdQueue.toList ++ [.startEraseLoop]
          else d.mon.gCmdQueue.toList) := by
  have hparams : d.mon.gEraseParams.toList.length + 1 < 4 ↔ d.mon.RoomForParams :=
    Nat.succ_lt_succ_iff
  have hcommand : d.mon.gCmdQueue.toList.length + 1 < 16 ↔ d.mon.RoomForCommand :=
    Nat.succ_lt_succ_iff
  refine ⟨?_, ?_, ?_⟩
  · have hfst := CircularBuffer.put_fst d.mon.gEraseParams p
    have hsnd := CircularBuffer.put_fst d.mon.gCmdQueue .startEraseLoop
    rw [Bool.decide_and, ← decide_eq_decide.mpr hparams, ← decide_eq_decide.mpr hcommand,
      ← hfst, ← hsnd]
    rfl
  · have hput := CircularBuffer.toList_put d.mon.gEraseParams p
    simp only [hparams] at hput
    exact hput
  · have hput := CircularBuffer.toList_put d.mon.gCmdQueue .startEraseLoop
    simp only [hcommand] at hput
    exact hput

/-- The request returns true and enters both queues, or returns false and enters neither. -/
def Device.QueuesEntirely (d : Device) (p : FlashEraseParams) : Prop :=
  ((d.debugStartEraseLoop p.address p.size).1 = true ∧
    (d.debugStartEraseLoop p.address p.size).2.mon.gEraseParams.toList =
      d.mon.gEraseParams.toList ++ [p] ∧
    (d.debugStartEraseLoop p.address p.size).2.mon.gCmdQueue.toList =
      d.mon.gCmdQueue.toList ++ [.startEraseLoop]) ∨
  ((d.debugStartEraseLoop p.address p.size).1 = false ∧
    (d.debugStartEraseLoop p.address p.size).2.mon.gEraseParams.toList =
      d.mon.gEraseParams.toList ∧
    (d.debugStartEraseLoop p.address p.size).2.mon.gCmdQueue.toList = d.mon.gCmdQueue.toList)

theorem queuesEntirely_iff (d : Device) (p : FlashEraseParams) :
    d.QueuesEntirely p ↔ (d.mon.RoomForParams ↔ d.mon.RoomForCommand) := by
  obtain ⟨hfst, hparams, hcommand⟩ := debugStartEraseLoop_spec d p
  unfold Device.QueuesEntirely
  rw [hfst, hparams, hcommand]
  by_cases h₁ : d.mon.RoomForParams
  · by_cases h₂ : d.mon.RoomForCommand
    · simp [h₁, h₂]
    · simp [h₁, h₂]
  · by_cases h₂ : d.mon.RoomForCommand
    · simp [h₁, h₂]
    · simp [h₁, h₂]

/-- What an Erase packet asks for; `none` for every other packet. -/
def eraseRequest (packet : List UInt8) : Option FlashEraseParams :=
  match FlashCmdHead.decode packet with
  | some head =>
    if head.cmd = DebugCommand.flash.toByte ∧ FlashCommand.ofByte head.flashCommand = some .erase
    then some ⟨head.address, head.blockSize⟩
    else none
  | none => none

theorem eraseRequest_eq_some {packet : List UInt8} {p : FlashEraseParams}
    (h : eraseRequest packet = some p) : ∃ head, FlashCmdHead.decode packet = some head ∧
      head.cmd = DebugCommand.flash.toByte ∧ FlashCommand.ofByte head.flashCommand = some .erase ∧
      p = ⟨head.address, head.blockSize⟩ := by
  unfold eraseRequest at h
  split at h
  next head hdecode =>
    split_ifs at h with herase
    exact ⟨head, hdecode, herase.1, herase.2, (Option.some.inj h).symm⟩
  next => cases h

/-- An Erase packet is answered with status one, whatever became of the request. -/
theorem flashCommand_erase {inBuf : List UInt8} {inSize : ℕ} {p : FlashEraseParams}
    (outBuf : Frame) (outSize : ℕ) (d : Device) (h : eraseRequest inBuf = some p)
    (hsize : FlashCmdHead.size ≤ inSize) :
    ∃ g : Frame, flashCommand inBuf inSize outBuf outSize d =
        .ok (4, g, (d.debugStartEraseLoop p.address p.size).2) ∧ g.val[2]? = some 1 := by
  obtain ⟨head, hdecode, hcmd, herase, rfl⟩ := eraseRequest_eq_some h
  obtain ⟨tail, hbuf⟩ := FlashCmdHead.eq_of_decode hdecode
  have hcommand : commandOf inBuf = some .flash := by
    rw [hbuf, hcmd]
    exact DebugCommand.ofByte_toByte .flash
  have hread : readHead FlashCmdHead.decode inBuf = .ok head := by rw [readHead, hdecode]
  obtain ⟨g, hg, hval⟩ := store_zero_ok outBuf [DebugCommand.flash.toByte, head.flashCommand, 1]
    (by norm_num)
  refine ⟨g, ?_, ?_⟩
  · unfold flashCommand
    rw [bind_of_ok (dbgHeadValid_command hcommand hsize)]
    simp only [Bool.not_true, Bool.false_eq_true, if_false]
    rw [bind_of_ok hread]
    simp only [herase]
    exact bind_of_ok hg
  · rw [hval]
    rfl

/-- The reply to the Erase packet has status one only if the request was queued. -/
def Device.AnswersHonestly (d : Device) (inBuf : List UInt8) (inSize : ℕ) (outBuf : Frame)
    (outSize : ℕ) (p : FlashEraseParams) : Prop :=
  ∃ n g e, flashCommand inBuf inSize outBuf outSize d = .ok (n, g, e) ∧
    (g.val[2]? = some 1 → (d.debugStartEraseLoop p.address p.size).1 = true)

theorem answersHonestly_iff {inBuf : List UInt8} {inSize : ℕ} {p : FlashEraseParams}
    (outBuf : Frame) (outSize : ℕ) (d : Device) (h : eraseRequest inBuf = some p)
    (hsize : FlashCmdHead.size ≤ inSize) :
    d.AnswersHonestly inBuf inSize outBuf outSize p ↔
      d.mon.RoomForParams ∧ d.mon.RoomForCommand := by
  obtain ⟨g, hg, hstatus⟩ := flashCommand_erase outBuf outSize d h hsize
  have hqueued := (debugStartEraseLoop_spec d p).1
  constructor
  · rintro ⟨n, g', e, hg', hhonest⟩
    rw [hg] at hg'
    obtain ⟨rfl, rfl, rfl⟩ : 4 = n ∧ g = g' ∧ _ = e := by simpa using hg'
    exact of_decide_eq_true (hqueued.symm.trans (hhonest hstatus))
  · intro hroom
    exact ⟨_, g, _, hg, fun _ => hqueued.trans (decide_eq_true hroom)⟩

/-- The computation queues no erase request. -/
def QueuesNone (d : Device) (r : HandlerResult) : Prop :=
  Ensures r fun r => queuedEntries r.2.2.flashLog = queuedEntries d.flashLog

section

variable (inBuf : List UInt8) (inSize : ℕ) (outBuf : Frame) (outSize : ℕ) (d : Device)

/-- Behind the checks of the head. -/
theorem queuesNone_of_valid {α : Type} (headSize : ℕ) (c : DebugCommand)
    {decode : List UInt8 → Option α} {reply : α → HandlerResult}
    (h : ∀ head, decode inBuf = some head → QueuesNone d (reply head)) :
    QueuesNone d (do
      if !(← dbgHeadValid headSize inBuf inSize c) then return (0, outBuf, d)
      let head ← readHead decode inBuf
      reply head) := by
  refine (Ensures.any _).bind fun valid _ => ?_
  apply Ensures.ite
  · exact fun _ => .ok rfl
  · exact fun _ => (readHead_decodes decode inBuf).bind h

theorem memoryReadCommand_queuesNone :
    QueuesNone d (memoryReadCommand inBuf inSize outBuf outSize d) := by
  unfold memoryReadCommand
  apply queuesNone_of_valid inBuf inSize outBuf d
  intro head _
  refine (Ensures.any _).bind fun frame _ => ?_
  apply Ensures.ite
  · intro _
    have hcopy := dbgMemcpyLoop_ensures (accessWidth head.align.toNat)
      (copyFromTarget head.address MemReadWriteHead.size (accessWidth head.align.toNat))
      (fun s => s.2.flashLog = d.flashLog)
      (fun off s hs => (Ensures.any _).bind fun frame _ => .ok hs)
    exact (hcopy _ 0 (frame, d) rfl).bind fun s hs => .ok (congrArg queuedEntries hs)
  · exact fun _ => (Ensures.any _).bind fun frame _ => .ok rfl

theorem memoryWriteCommand_queuesNone :
    QueuesNone d (memoryWriteCommand inBuf inSize outBuf outSize d) := by
  unfold memoryWriteCommand
  apply queuesNone_of_valid inBuf inSize outBuf d
  intro head _
  apply Ensures.ite
  · intro _
    refine (flashWriteLoop_effect _ _ _ 0 d).bind ?_
    rintro e ⟨-, log, hlog, hall⟩
    have hqueued : queuedEntries e.flashLog = queuedEntries d.flashLog := by
      rw [hlog, queuedEntries_append, queuedEntries_isProgram hall, List.append_nil]
    exact (Ensures.any _).bind fun frame _ => .ok hqueued
  · intro _
    have hcopy := dbgMemcpyLoop_ensures
      (accessWidth (getValidatedAlign head.align.toNat))
      (copyToTarget head.address inBuf MemReadWriteHead.size
        (accessWidth (getValidatedAlign head.align.toNat)))
      (fun e => e.flashLog = d.flashLog)
      (fun off s hs => (Ensures.any _).bind fun bytes _ => .ok hs)
    exact (hcopy _ 0 d rfl).bind fun e he =>
      (Ensures.any _).bind fun frame _ => .ok (congrArg queuedEntries he)

theorem regsReadCommand_queuesNone :
    QueuesNone d (regsReadCommand inBuf inSize outBuf outSize d) := by
  unfold regsReadCommand
  apply queuesNone_of_valid inBuf inSize outBuf d
  intro head _
  apply Ensures.ite
  · exact fun _ => .ok rfl
  · exact fun _ => (Ensures.any _).bind fun words _ => (Ensures.any _).bind fun frame _ =>
      (Ensures.any _).bind fun frame _ => .ok rfl

theorem regsWriteCommand_queuesNone :
    QueuesNone d (regsWriteCommand inBuf inSize outBuf outSize d) := by
  unfold regsWriteCommand
  apply queuesNone_of_valid inBuf inSize outBuf d
  intro head _
  apply Ensures.ite
  · exact fun _ => .ok rfl
  · exact fun _ => (Ensures.any _).bind fun context _ => (Ensures.any _).bind fun frame _ => .ok rfl

theorem resetHaltCommand_queuesNone :
    QueuesNone d (resetHaltCommand inBuf inSize outBuf outSize d) := by
  unfold resetHaltCommand
  apply queuesNone_of_valid inBuf inSize outBuf d
  intro head _
  refine (Ensures.any _).bind fun frame _ => ?_
  apply Ensures.ok
  rcases ResetHaltCommand.ofByte head.sub with _ | cmd
  · rfl
  · cases cmd <;> rfl

theorem attachCommand_queuesNone :
    QueuesNone d (attachCommand inBuf inSize outBuf outSize d) := by
  unfold attachCommand
  apply queuesNone_of_valid inBuf inSize outBuf d
  intro head _
  refine (Ensures.any _).bind fun frame _ => ?_
  apply Ensures.ok
  by_cases h₀ : head.sub = 0
  · rw [h₀]
    rfl
  · simp only [h₀, if_false]
    by_cases h₁ : head.sub = 1
    · simp only [h₁, if_true]
      rfl
    · simp only [h₁, if_false]

theorem breakpointCommand_queuesNone :
    QueuesNone d (breakpointCommand inBuf inSize outBuf outSize d) := by
  unfold breakpointCommand
  apply queuesNone_of_valid inBuf inSize outBuf d
  intro head _
  exact (Ensures.any _).bind fun frame _ => (Ensures.any _).bind fun fpComp _ => .ok rfl

/-- Flash commands other than Erase. -/
theorem flashCommand_queuesNone (h : eraseRequest inBuf = none)
    (hcommand : commandOf inBuf = some .flash) :
    QueuesNone d (flashCommand inBuf inSize outBuf outSize d) := by
  unfold flashCommand
  apply queuesNone_of_valid inBuf inSize outBuf d
  intro head hdecode
  obtain ⟨tail, hbuf⟩ := FlashCmdHead.eq_of_decode hdecode
  have hcmd : head.cmd = DebugCommand.flash.toByte := by
    rw [hbuf] at hcommand
    exact DebugCommand.toByte_of_ofByte hcommand
  have herase : FlashCommand.ofByte head.flashCommand ≠ some .erase := by
    intro herase
    simp [eraseRequest, hdecode, hcmd, herase] at h
  rcases hof : FlashCommand.ofByte head.flashCommand with _ | cmd
  · exact (Ensures.any _).bind fun frame _ => .ok rfl
  · cases cmd with
    | erase => exact absurd hof herase
    | unlock => exact (Ensures.any _).bind fun frame _ => .ok rfl
    | lock => exact (Ensures.any _).bind fun frame _ => .ok rfl
    | detach => exact (Ensures.any _).bind fun frame _ => .ok rfl

theorem dispatchCommand_queuesNone (h : eraseRequest inBuf = none) :
    QueuesNone d (dispatchCommand inBuf inSize outBuf d) := by
  rcases inBuf with _ | ⟨b, rest⟩
  · exact .error _
  · rcases hb : DebugCommand.ofByte b with _ | c
    · simp only [dispatchCommand, hb]
      exact .ok rfl
    · have hc : commandOf (b :: rest) = some c := hb
      rw [dispatchCommand_eq outBuf d hc]
      cases c with
      | memoryRead => exact memoryReadCommand_queuesNone _ _ _ _ _
      | memoryWrite => exact memoryWriteCommand_queuesNone _ _ _ _ _
      | regsRead => exact regsReadCommand_queuesNone _ _ _ _ _
      | regsWrite => exact regsWriteCommand_queuesNone _ _ _ _ _
      | resetHalt => exact resetHaltCommand_queuesNone _ _ _ _ _
      | breakpoint => exact breakpointCommand_queuesNone _ _ _ _ _
      | flash => exact flashCommand_queuesNone _ _ _ _ _ h hc
      | attach => exact attachCommand_queuesNone _ _ _ _ _

end

theorem eraseRequest_append {buf : List UInt8} (h : FlashCmdHead.size ≤ buf.length)
    (rest : List UInt8) : eraseRequest (buf ++ rest) = eraseRequest buf := by
  rw [eraseRequest, eraseRequest, FlashCmdHead.decode_append rest h]

theorem eraseRequest_length {buf : List UInt8} {p : FlashEraseParams}
    (h : eraseRequest buf = some p) : FlashCmdHead.size ≤ buf.length := by
  obtain ⟨head, hdecode, -⟩ := eraseRequest_eq_some h
  unfold FlashCmdHead.decode at hdecode
  split at hdecode
  · exact Nat.le_add_left 12 _
  · cases hdecode

/-- The callback looks at the packet and not at what the buffer held before. -/
theorem eraseRequest_receive (f : Frame) {packet : List UInt8}
    (h : FlashCmdHead.size ≤ (packet.take 64).length) :
    eraseRequest (f.receive packet).val = eraseRequest packet := by
  have hwhole := eraseRequest_append h (packet.drop 64)
  rw [List.take_append_drop] at hwhole
  exact (eraseRequest_append h _).trans hwhole.symm

theorem debugStartEraseLoop_flashLog (d : Device) (p : FlashEraseParams) :
    (d.debugStartEraseLoop p.address p.size).2.flashLog =
      if d.mon.RoomForParams then d.flashLog ++ [.eraseQueued p] else d.flashLog := by
  have hfst := CircularBuffer.put_fst d.mon.gEraseParams p
  have hroom : d.mon.gEraseParams.toList.length + 1 < 4 ↔ d.mon.RoomForParams :=
    Nat.succ_lt_succ_iff
  simp only [Device.debugStartEraseLoop, hfst, hroom, decide_eq_true_eq]

/-- The entries a packet queues. -/
def queuedBy (m : Monitor) (packet : List UInt8) : List FlashEraseParams :=
  if m.RoomForParams then (eraseRequest packet).toList else []

theorem usbDataOutCallback_queued {packet : List UInt8} {d d' : Device}
    (h : usbDataOutCallback packet d = .ok d') :
    queuedEntries d'.flashLog = queuedEntries d.flashLog ++ queuedBy d.mon packet := by
  simp only [usbDataOutCallback] at h
  by_cases hlen : (packet.take 64).length = 0
  · rw [if_pos hlen] at h
    obtain rfl := Except.ok.inj h
    have hnone : eraseRequest packet = none := by
      apply Option.eq_none_iff_forall_ne_some.mpr
      intro p hp
      have hsize : 12 ≤ packet.length := eraseRequest_length hp
      rw [List.length_take] at hlen
      omega
    simp [queuedBy, hnone]
  · rw [if_neg hlen] at h
    obtain ⟨⟨n, g, e⟩, hdispatch, hend⟩ := bind_eq_ok.mp h
    simp only at hend
    by_cases hn : n = 0
    · rw [if_pos hn] at hend
      cases hend
    rw [if_neg hn] at hend
    obtain rfl := Except.ok.inj hend
    rw [epWritePacket_flashLog]
    set d₁ : Device :=
      { d with usbCmdFrame := d.usbCmdFrame.receive packet, usbInitialized := true } with hd₁
    rcases hrequest : eraseRequest (d.usbCmdFrame.receive packet).val with _ | p
    · have hnone : eraseRequest packet = none := by
        apply Option.eq_none_iff_forall_ne_some.mpr
        intro p hp
        have hsize : 12 ≤ packet.length := eraseRequest_length hp
        have htake : FlashCmdHead.size ≤ (packet.take 64).length := by
          rw [List.length_take]
          show 12 ≤ _
          omega
        rw [← eraseRequest_receive d.usbCmdFrame htake, hrequest] at hp
        cases hp
      have hkept := dispatchCommand_queuesNone _ _ _ d₁ hrequest _ hdispatch
      rw [queuedBy, hnone]
      simpa using hkept
    · have hcommand : commandOf (d.usbCmdFrame.receive packet).val = some .flash := by
        obtain ⟨head, hdecode, hcmd, -⟩ := eraseRequest_eq_some hrequest
        obtain ⟨tail, hbuf⟩ := FlashCmdHead.eq_of_decode hdecode
        rw [hbuf, hcmd]
        exact DebugCommand.ofByte_toByte .flash
      by_cases hsize : FlashCmdHead.size ≤ (packet.take 64).length
      · obtain ⟨g', hg', -⟩ := flashCommand_erase d.usbAnsFrame 64 d₁ hrequest hsize
        rw [dispatchCommand_eq _ _ hcommand] at hdispatch
        have hresult := Except.ok.inj (hdispatch.symm.trans hg')
        have he : e = (d₁.debugStartEraseLoop p.address p.size).2 :=
          congrArg (fun r => r.2.2) hresult
        have hlog := debugStartEraseLoop_flashLog d₁ p
        have hpacket : eraseRequest packet = some p :=
          (eraseRequest_receive d.usbCmdFrame hsize).symm.trans hrequest
        show queuedEntries e.flashLog = _
        rw [he, hlog, queuedBy, hpacket]
        by_cases hroom : d.mon.RoomForParams
        · rw [if_pos hroom, if_pos (show d₁.mon.RoomForParams from hroom), queuedEntries_append]
          rfl
        · rw [if_neg hroom, if_neg (show ¬ d₁.mon.RoomForParams from hroom), List.append_nil]
      · rw [dispatchCommand_short _ _ hcommand (Nat.lt_of_not_le hsize)] at hdispatch
        exact absurd (congrArg Prod.fst (Except.ok.inj hdispatch)).symm hn

/-- The request that an event makes and that returns true. -/
def acceptedErase (c : Config) : Event → List FlashEraseParams
  | .usb packet => (eraseRequest packet).toList.filter fun p =>
      (c.dev.debugStartEraseLoop p.address p.size).1
  | _ => []

/-- The requests that returned true while the events happened, in their order. -/
def acceptedErases (c : Config) : List Event → List FlashEraseParams
  | [] => []
  | e :: es => acceptedErase c e ++ match step c e with
    | some c' => acceptedErases c' es
    | none => []

theorem acceptedErases_append {ok : Config → Event → Prop} {c c' : Config} {es : List Event}
    (h : Run step ok c es c') (fs : List Event) :
    acceptedErases c (es ++ fs) = acceptedErases c es ++ acceptedErases c' fs := by
  induction h generalizing fs with
  | start => rfl
  | snoc _ _ hs ih =>
    rw [List.append_assoc, ih, ih, List.append_assoc]
    simp [acceptedErases, hs]

/-- No Erase packet is handled with room for its parameters and none for its command. -/
def wholeErases (c : Config) : Event → Prop
  | .usb packet => eraseRequest packet ≠ none → c.dev.mon.RoomForParams → c.dev.mon.RoomForCommand
  | _ => True

instance (c : Config) : (e : Event) → Decidable (wholeErases c e)
  | .usb packet => inferInstanceAs (Decidable (eraseRequest packet ≠ none →
      c.dev.mon.RoomForParams → c.dev.mon.RoomForCommand))
  | .collect | .enter _ | .handler | .thread | .user _ => inferInstanceAs (Decidable True)

theorem threadStep_queued (l : EraseLine) (d : Device) :
    queuedEntries (threadStep l d).flashLog = queuedEntries d.flashLog := by
  cases l
  case pull =>
    simp only [threadStep, flashEraseLoop]
    rcases d.mon.gEraseParams.pull with ⟨_ | p, q⟩
    · rfl
    · exact (queuedEntries_append _ _).trans (List.append_nil _)
  case erasePage p cur erase =>
    cases erase
    · rfl
    · exact (queuedEntries_append _ _).trans (List.append_nil _)
  all_goals rfl

theorem step_queued {c c' : Config} {e : Event} (hok : wholeErases c e) (hs : step c e = some c') :
    queuedEntries c'.dev.flashLog = queuedEntries c.dev.flashLog ++ acceptedErase c e := by
  rcases step_cases hs with ⟨packet, rfl, _, hline, hd⟩ | ⟨rfl, rfl⟩ |
    ⟨regs, rfl, hline, hen, rfl⟩ | ⟨rfl, hline, rfl⟩ | ⟨l, rfl, hline, hthread, hruns, rfl⟩ |
    ⟨a, rfl, hline, hthread, rfl⟩
  · rw [usbDataOutCallback_queued hd]
    congr 1
    rcases hrequest : eraseRequest packet with _ | p
    · simp [queuedBy, acceptedErase, hrequest]
    · have hroom : c.dev.mon.RoomForParams → c.dev.mon.RoomForCommand := hok (by simp [hrequest])
      have hfst := (debugStartEraseLoop_spec c.dev p).1
      by_cases hparams : c.dev.mon.RoomForParams
      · simp [queuedBy, acceptedErase, hrequest, hfst, hparams, hroom hparams]
      · simp [queuedBy, acceptedErase, hrequest, hfst, hparams]
  · exact (List.append_nil _).symm
  · exact (List.append_nil _).symm
  · rw [(debugHandler_flash c.line c.dev).1]
    exact (List.append_nil _).symm
  · exact (threadStep_queued l c.dev).trans (List.append_nil _).symm
  · cases a with
    | store mem => exact (List.append_nil _).symm
    | breakpoint => exact (List.append_nil _).symm
    | fault => exact (List.append_nil _).symm
    | sysCallReset => exact (List.append_nil _).symm

theorem targetRun_queued {mem : ℕ → UInt8} {symbols : Symbols} {es : List Event} {c : Config}
    (h : TargetRun wholeErases mem symbols es c) :
    queuedEntries c.dev.flashLog = acceptedErases (Config.initial mem symbols) es := by
  induction h with
  | start => rfl
  | snoc hrun hok hs ih =>
    rw [step_queued hok hs, ih, acceptedErases_append hrun]
    simp [acceptedErases, hs]

/-- A request enters both queues or none exactly when both or neither has room, and the Erase
packet is moreover answered honestly exactly when both have room. Over a run whose Erase packets
never find room for their parameters alone, the erase loop carries out the requests that returned
true, in their order, and no others. -/
theorem eraseRequests_iff (mem : ℕ → UInt8) (symbols : Symbols) :
    (∀ d : Device, ∀ p, d.QueuesEntirely p ↔ (d.mon.RoomForParams ↔ d.mon.RoomForCommand)) ∧
    (∀ (d : Device) inBuf inSize outBuf outSize p, eraseRequest inBuf = some p →
      FlashCmdHead.size ≤ inSize →
      (d.QueuesEntirely p ∧ d.AnswersHonestly inBuf inSize outBuf outSize p ↔
        d.mon.RoomForParams ∧ d.mon.RoomForCommand)) ∧
    ∀ es c, TargetRun wholeErases mem symbols es c →
      pulledEntries c.dev.flashLog <+: acceptedErases (Config.initial mem symbols) es := by
  refine ⟨queuesEntirely_iff, ?_, ?_⟩
  · intro d inBuf inSize outBuf outSize p hrequest hsize
    rw [queuesEntirely_iff, answersHonestly_iff outBuf outSize d hrequest hsize]
    tauto
  · intro es c hrun
    rw [← targetRun_queued hrun]
    exact ⟨_, (targetRun_eraseLedger hrun).symm⟩

set_option maxRecDepth 4000 in
/-- A page is erased for a request that returned true. -/
theorem eraseRequests_iff_eraseEvents :
    ∃ c, TargetRun wholeErases blankMemory bootSymbols (.usb erasePagePacket :: eraseEvents) c ∧
      pulledEntries c.dev.flashLog = [⟨0x08004000, 0x400⟩] ∧
      [⟨0x08004000, 0x400⟩] <+: acceptedErases (Config.initial blankMemory bootSymbols)
        (.usb erasePagePacket :: eraseEvents) := by
  obtain ⟨c, hrun, hpulled⟩ := targetRun_of_checked wholeErases
    (.usb erasePagePacket :: eraseEvents) (f := fun c => pulledEntries c.dev.flashLog)
    (v := [⟨0x08004000, 0x400⟩]) (by decide +kernel)
  have hprefix := (eraseRequests_iff blankMemory bootSymbols).2.2 _ c hrun
  exact ⟨c, hrun, hpulled, hpulled ▸ hprefix⟩

/-- Three Erase packets fill `gEraseParams`. The fourth queues its command without parameters,
returns false and is answered with status one. -/
theorem eraseRequest_half_queued :
    ∃ c, TargetRun anyStep blankMemory bootSymbols (List.replicate 3 (.usb erasePagePacket)) c ∧
      ¬ c.dev.QueuesEntirely ⟨0x08004000, 0x400⟩ ∧
      ¬ c.dev.AnswersHonestly erasePagePacket 12 .zero 64 ⟨0x08004000, 0x400⟩ := by
  obtain ⟨c, hrun, hroom⟩ := targetRun_of_events (List.replicate 3 (.usb erasePagePacket))
    (f := fun c => (decide c.dev.mon.RoomForParams, decide c.dev.mon.RoomForCommand))
    (v := (false, true)) (by decide +kernel)
  obtain ⟨hparams, hcommand⟩ := Prod.mk.inj hroom
  have hparams := of_decide_eq_false hparams
  refine ⟨c, hrun, ?_, ?_⟩
  · rw [queuesEntirely_iff]
    exact fun h => hparams (h.mpr (of_decide_eq_true hcommand))
  · rw [answersHonestly_iff _ _ _ (by decide +kernel) (by decide)]
    exact fun h => hparams h.1

end BluePill
