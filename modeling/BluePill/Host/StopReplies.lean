import BluePill.Host.LiveTarget

/-! What GDB is told when it asks for the halt reason or waits for a halt, against a target that goes
on meanwhile. -/
namespace BluePill
open Lib Ascii

section

variable {σ : Type} {interface : TargetInterface σ}

/-- The state in a reply to the command. -/
def acceptedState (command : ResetHaltCommand) : List UInt8 → Option UInt8
  | cmd :: sub :: state :: _ :: _ =>
    if cmd = DebugCommand.resetHalt.toByte ∧ sub = command.toByte then some state else none
  | _ => none

theorem acceptedState_short {command : ResetHaltCommand} {reply : List UInt8}
    (h : reply.length < 4) : acceptedState command reply = none := by
  match reply, h with
  | [], _ | [_], _ | [_, _], _ | [_, _, _], _ => rfl

variable (interface) in
/-- `resetHaltResume` is one exchange. -/
theorem resetHaltResume_eq (command : ResetHaltCommand) (h : Host σ) :
    ∃ x y g, TargetSTM32F1.resetHaltResume interface command h =
      .ok (acceptedState command (exchange interface [4, command.toByte, x, y] h.link).1,
        ⟨g, h.inBuf.receive (exchange interface [4, command.toByte, x, y] h.link).1,
          (exchange interface [4, command.toByte, x, y] h.link).2⟩) := by
  obtain ⟨g, hg, hval⟩ := store_zero_ok h.outBuf [4, command.toByte] (by simp)
  have hlen : (h.outBuf.val.drop 2).length = 62 := by
    have hbuf : h.outBuf.val.length = 64 := h.outBuf.property
    rw [List.length_drop, hbuf]
  obtain ⟨x, y, tail, htail⟩ : ∃ x y tail, h.outBuf.val.drop 2 = x :: y :: tail := by
    match h.outBuf.val.drop 2, hlen with
    | x :: y :: tail, _ => exact ⟨x, y, tail, rfl⟩
  have hbuf : g.val = 4 :: command.toByte :: x :: y :: tail := by
    rw [hval, ← htail]
    rfl
  refine ⟨x, y, g, ?_⟩
  obtain ⟨reply, link, hx⟩ : ∃ reply link,
      exchange interface [4, command.toByte, x, y] h.link = (reply, link) := ⟨_, _, rfl⟩
  have hshort : reply.length ≤ 64 := by
    have hle := exchange_length_le interface [4, command.toByte, x, y] h.link
    rwa [hx] at hle
  have hsent : TargetSTM32F1.sendAndReceive interface 4 { h with outBuf := g } =
      .ok (reply.length, ⟨g, h.inBuf.receive reply, link⟩) := by
    have hsend := sendAndReceive_eq interface [4, command.toByte, x, y]
      (h := { h with outBuf := g }) (by rw [hbuf]; rfl)
    rw [hx] at hsend
    exact hsend
  have hmake : MakeHead.resetHaltResume h.outBuf command = .ok (4, g) := by
    unfold MakeHead.resetHaltResume
    exact bind_of_ok hg
  have hcmd : readHead SubCmdHead.decode g.val = .ok ⟨4, command.toByte⟩ := by
    rw [hbuf]
    rfl
  rw [hx]
  unfold TargetSTM32F1.resetHaltResume
  rw [bind_of_ok hmake]
  dsimp only
  rw [bind_of_ok hsent]
  dsimp only
  by_cases hfew : reply.length < SubCmdHead.size
  · rw [if_pos hfew, acceptedState_short hfew]
    rfl
  obtain ⟨a, b, s, z, rest, rfl⟩ := exists_four (not_lt.mp hfew)
  have hans : readHead SubCmdHead.decode (h.inBuf.receive (a :: b :: s :: z :: rest)).val =
      .ok ⟨a, b⟩ := by
    rw [h.inBuf.receive_val hshort]
    rfl
  have hread : readBytes (h.inBuf.receive (a :: b :: s :: z :: rest)).val 2 1 = .ok [s] := by
    rw [h.inBuf.receive_val hshort, readBytes, if_pos (by simp)]
    rfl
  rw [if_neg hfew, bind_of_ok hcmd, bind_of_ok hans, bind_of_ok hread]
  unfold acceptedState
  dsimp only
  by_cases hcode : a = 4
  · subst hcode
    by_cases hsub : b = command.toByte
    · subst hsub
      rw [if_neg (by simp), if_neg (by simp), if_pos ⟨rfl, rfl⟩]
      rfl
    · rw [if_neg (by simp), if_pos fun heq => hsub heq.symm, if_neg fun hecho => hsub hecho.2]
      rfl
  · rw [if_pos fun heq => hcode heq.symm, if_neg fun hecho => hcode hecho.1]
    rfl

end

section

open GdbServer

variable {c₀ : Config}

variable {s s' : GdbServer LiveTarget}

@[simp] theorem packetBuffer_headD (left : Leftovers) (packet : List UInt8) :
    (packetBuffer left packet).headD 0 = packet.headD 0 := by
  cases packet <;> rfl

end

/-- GDB asks for the halt reason of the target of `haltRun`. -/
def haltedServer : GdbServer LiveTarget :=
  { input := ascii "$?#3f+", output := [], curTarget := true, lastTarget := false,
    controller := true, singleStep := false, flashMode := false, bwList := [], cmdline := [],
    target := ⟨[], .zero, .zero, targetState anyStep haltRun, none,
      [[.handler], [.handler, .usb, .handler]]⟩ }

theorem TargetHaltReason.ofByte_ne_running {state : ResetHaltState} (h : state ≠ .running) :
    TargetHaltReason.ofByte state.toByte ≠ .running := by
  cases state with
  | running => contradiction
  | _ => decide

/-- A poll that finds the target halted ends the wait. -/
theorem waitForHalt_first {s s₁ : GdbServer LiveTarget} {reason : TargetHaltReason}
    (hpoll : s.call (stm32HaltPoll liveLink) = .ok (reason, s₁)) (hrunning : reason ≠ .running)
    (hinput : s₁.input = s.input) : waitForHalt liveLink s.input s = .ok (reason, s₁) := by
  have hsame : s₁ = { s₁ with input := s.input } := by rw [← hinput]
  cases hin : s.input with
  | nil =>
    unfold waitForHalt
    rw [bind_of_ok hpoll]
    dsimp only
    rw [if_neg hrunning, ← hin, ← hsame]
    rfl
  | cons c input =>
    unfold waitForHalt
    rw [bind_of_ok hpoll]
    dsimp only
    rw [if_neg hrunning, ← hin, ← hsame]
    rfl

theorem LiveTarget.Rests.poll {d : Device} {s : GdbServer LiveTarget}
    {before during : List TargetEvent} {later : List (List TargetEvent)}
    (h : s.target.host.link.Rests d none none) (hirq : d.mon.irq20 = true) (husb : .usb ∈ during)
    (hschedule : s.target.host.link.schedule = before :: during :: later) :
    ∃ host : Host LiveTarget, s.call (stm32HaltPoll liveLink) =
        .ok (.ofByte d.mon.gHaltState.toByte, { s with target := { s.target with host := host } }) ∧
      host.link.Rests d none none ∧ host.link.schedule = later := by
  obtain ⟨x, y, g, hcall⟩ := resetHaltResume_eq liveLink .getState s.target.host
  obtain ⟨t, hx, hrests, hlater⟩ := h.exchange hirq husb hschedule x y
  have hbyte : ResetHaltCommand.getState.toByte = 5 := rfl
  rw [hbyte, hx] at hcall
  obtain ⟨host, hhost⟩ : ∃ host : Host LiveTarget, host =
      ⟨g, s.target.host.inBuf.receive [4, 5, d.mon.gHaltState.toByte, 0], t⟩ := ⟨_, rfl⟩
  have hpoll : stm32HaltPoll liveLink s.target.host =
      .ok (.ofByte d.mon.gHaltState.toByte, host) := by
    unfold stm32HaltPoll
    rw [bind_of_ok hcall, hhost]
    rfl
  refine ⟨host, ?_, ?_, ?_⟩
  · unfold GdbServer.call
    rw [hpoll]
  · rw [hhost]
    exact hrests
  · rw [hhost]
    exact hlater

/-- A target that is halted is reported at the first poll, if the USB interrupt comes to it, and is
left as it is: what GDB reads next is what was there at the halt. -/
theorem haltReason_halted (s : GdbServer LiveTarget) (c : Config) (hhalted : c.Halted)
    (hfree : c.dev.inEndpoint = none) (hirq : c.dev.mon.irq20 = true)
    (before during : List TargetEvent) (later : List (List TargetEvent)) (husb : .usb ∈ during)
    (hlink : s.target.host.link = ⟨c, none, before :: during :: later⟩)
    (hcur : s.curTarget = true) {packet sent rest : List UInt8}
    (hget : gdbGetpacket bufSize s.input = some (packet, sent, rest))
    (hasks : packet.headD 0 = 0x3F) (left : Leftovers) :
    ∃ (s₁ : GdbServer LiveTarget) (c₁ : Config), gdbMainRound liveLink left s =
        s₁.put (stopReply (.ofByte c.dev.mon.gHaltState.toByte)) ∧
      s₁.input = rest ∧ s₁.output = s.output ++ sent ∧
      s₁.target.host.link = ⟨c₁, none, later⟩ ∧ c₁.Halted ∧ c₁.dev.bare = c.dev.bare ∧
      c₁.dev.inEndpoint = none := by
  obtain ⟨s₀, hs₀⟩ : ∃ s₀, s₀ = { s with input := rest, output := s.output ++ sent } := ⟨_, rfl⟩
  have hcur₀ : s₀.curTarget = true := by
    rw [hs₀]
    exact hcur
  have hlink₀ : s₀.target.host.link = ⟨c, none, before :: during :: later⟩ := by
    rw [hs₀]
    exact hlink
  have hswitch : gdbMainRound liveLink left s = handleHaltReason liveLink s₀ := by
    unfold gdbMainRound
    rw [hget]
    dsimp only
    rw [← hs₀]
    unfold gdbSwitch
    rw [packetBuffer_headD, hasks]
    rfl
  have hrests : s₀.target.host.link.Rests c.dev none none := by
    rw [hlink₀]
    exact ⟨hhalted, rfl, rfl, hfree⟩
  have hschedule : s₀.target.host.link.schedule = before :: during :: later := by rw [hlink₀]
  obtain ⟨host, hpoll, hrests', hlater⟩ := hrests.poll hirq husb hschedule
  have hwait := waitForHalt_first hpoll (TargetHaltReason.ofByte_ne_running hhalted.state) rfl
  refine ⟨{ s₀ with target := { s₀.target with host := host } }, host.link.config, ?_, ?_, ?_, ?_,
    hrests'.halted, hrests'.bare, hrests'.reply⟩
  · rw [hswitch, handleHaltReason, if_pos hcur₀, bind_of_ok hwait]
  · rw [hs₀]
  · rw [hs₀]
  · show host.link = ⟨host.link.config, none, later⟩
    rw [← hlater, ← hrests'.out]

theorem haltReason_halted_request :
    ∃ (s₁ : GdbServer LiveTarget) (c₁ : Config), gdbMainRound liveLink .zero haltedServer =
        s₁.put (stopReply (.ofByte (targetState anyStep haltRun).dev.mon.gHaltState.toByte)) ∧
      s₁.input = [plus] ∧ s₁.output = [] ++ [plus] ∧
      s₁.target.host.link = ⟨c₁, none, []⟩ ∧ c₁.Halted ∧
      c₁.dev.bare = (targetState anyStep haltRun).dev.bare ∧ c₁.dev.inEndpoint = none := by
  have hget : gdbGetpacket bufSize haltedServer.input = some (ascii "?", [plus], [plus]) := by
    rfl
  have hhalted : (targetState anyStep haltRun).Halted :=
    ⟨by decide +kernel, by decide +kernel, by decide +kernel⟩
  exact haltReason_halted haltedServer (targetState anyStep haltRun) hhalted (by decide +kernel)
    (by decide +kernel) [.handler] [.handler, .usb, .handler] [] (by simp) rfl rfl hget rfl .zero

end BluePill
