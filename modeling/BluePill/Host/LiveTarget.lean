import BluePill.Firmware.Halted
import BluePill.Host.GdbSession

/-! The host in front of a target that goes on: while a call of the interface lasts, the handler, the
erase loop and the user program take their steps, and the USB interrupt takes the packet of the host
when it comes to it. -/
namespace BluePill
open Lib Ascii

/-- What may happen in the target while the host waits. -/
inductive TargetEvent where
  | enter (regs : Vector UInt32 17)
  | handler
  | thread
  | user (action : UserAction)
  /-- The USB interrupt takes the packet in the OUT endpoint. -/
  | usb

structure LiveTarget where
  config : Config
  /-- The packet in the OUT endpoint. -/
  outEndpoint : Option (List UInt8)
  /-- What happens before each of the next calls of the interface returns. -/
  schedule : List (List TargetEvent)

namespace LiveTarget

/-- An event that is not enabled does not happen. -/
def advance (t : LiveTarget) (e : Event) : LiveTarget :=
  { t with config := (step t.config e).getD t.config }

def happen (t : LiveTarget) : TargetEvent → LiveTarget
  | .enter regs => t.advance (.enter regs)
  | .handler => t.advance .handler
  | .thread => t.advance .thread
  | .user action => t.advance (.user action)
  | .usb =>
    match t.outEndpoint.bind fun packet => step t.config (.usb packet) with
    | some c => { t with config := c, outEndpoint := none }
    | none => t

/-- The time until the next call returns. -/
def elapse (t : LiveTarget) : LiveTarget :=
  (t.schedule.headD []).foldl happen { t with schedule := t.schedule.tail }

def accept (t : LiveTarget) (packet : List UInt8) : LiveTarget :=
  { t with outEndpoint := some packet }

end LiveTarget

/-- A packet is not taken while the last one waits in the OUT endpoint; a read fails when no reply
has come. -/
def liveLink : TargetInterface LiveTarget where
  writePacket packet t :=
    let t := t.elapse
    match t.outEndpoint with
    | none => (packet.length, t.accept packet)
    | some _ => (0, t)
  readPacket size t :=
    let t := t.elapse
    match t.config.dev.inEndpoint with
    | none => ([], t)
    | some reply => (reply.take size, t.advance .collect)

/-- A halt state that the target had on its way from `c₀` to `c`. -/
def HadState (c₀ c : Config) (state : UInt8) : Prop :=
  ∃ es₁ c₁ es₂, Run step anyStep c₀ es₁ c₁ ∧ Run step anyStep c₁ es₂ c ∧
    state = c₁.dev.mon.gHaltState.toByte

theorem HadState.trans {c₀ c c' : Config} {state : UInt8} (h : HadState c₀ c state)
    {es : List Event} (hrun : Run step anyStep c es c') : HadState c₀ c' state := by
  obtain ⟨es₁, c₁, es₂, hbefore, hafter, heq⟩ := h
  exact ⟨es₁, c₁, es₂ ++ es, hbefore, hafter.trans hrun, heq⟩

/-- On the way from `c₀` the host has sent nothing but run control, and a halt state that waits for
the host is one that the target has had. -/
structure LiveTarget.Since (c₀ : Config) (t : LiveTarget) : Prop where
  reached : ∃ es, Run step anyStep c₀ es t.config
  packet : ∀ p, t.outEndpoint = some p →
    ∃ command x y, p = [4, ResetHaltCommand.toByte command, x, y]
  reply : ∀ state rest, t.config.dev.inEndpoint = some (4 :: 5 :: state :: rest) →
    HadState c₀ t.config state

namespace LiveTarget

variable {c₀ : Config} {t : LiveTarget}

theorem Since.advance (h : t.Since c₀) {e : Event} (husb : ∀ packet, e ≠ .usb packet) :
    (t.advance e).Since c₀ := by
  unfold LiveTarget.advance
  cases hstep : step t.config e with
  | none => exact h
  | some c =>
    obtain ⟨es, hrun⟩ := h.reached
    have hone : Run step anyStep t.config [e] c := Run.start.snoc trivial hstep
    refine ⟨⟨es ++ [e], hrun.trans hone⟩, h.packet, ?_⟩
    intro state rest hreply
    by_cases hcollect : e = .collect
    · subst hcollect
      obtain rfl := Option.some.inj hstep
      contradiction
    · have hsame := step_inEndpoint hstep husb hcollect
      exact (h.reply state rest (hsame.symm.trans hreply)).trans hone

/-- The USB interrupt handles a packet of run control. -/
theorem Since.usb (h : t.Since c₀) {packet : List UInt8} (hpacket : t.outEndpoint = some packet)
    {c : Config} (hstep : step t.config (.usb packet) = some c) :
    ({ t with config := c, outEndpoint := none } : LiveTarget).Since c₀ := by
  obtain ⟨es, hrun⟩ := h.reached
  have hone : Run step anyStep t.config [.usb packet] c := Run.start.snoc trivial hstep
  refine ⟨⟨es ++ [.usb packet], hrun.trans hone⟩, by simp, ?_⟩
  intro state rest hreply
  obtain ⟨command, x, y, rfl⟩ := h.packet packet hpacket
  obtain ⟨p, heq, -, -, hcall⟩ | ⟨heq, -⟩ | ⟨_, heq, -⟩ | ⟨heq, -⟩ | ⟨_, heq, -⟩ | ⟨_, heq, -⟩ :=
    step_cases hstep
  all_goals try contradiction
  obtain rfl := Event.usb.inj heq
  obtain ⟨r, hendpoint, hecho⟩ := usbDataOutCallback_echoes (by simp) (by simp) hcall
  cases hfull : t.config.dev.inEndpoint with
  | some waiting =>
    rw [hfull, Option.getD_some] at hendpoint
    have hwaits : t.config.dev.inEndpoint = some (4 :: 5 :: state :: rest) :=
      hfull.trans (hendpoint.symm.trans hreply)
    exact (h.reply state rest hwaits).trans hone
  | none =>
    rw [hfull, Option.getD_none] at hendpoint
    obtain rfl : r = 4 :: 5 :: state :: rest := Option.some.inj (hendpoint.symm.trans hreply)
    have hbytes : [some (4 : UInt8), some 5] = [some 4, some command.toByte] := hecho
    have hask : command = .getState := by
      have hall : ∀ k : ResetHaltCommand, k.toByte = 5 → k = .getState := by
        intro k
        cases k <;> decide
      apply hall
      simpa using hbytes.symm
    subst hask
    obtain ⟨e, hcall', hmon, hstate⟩ := usbDataOutCallback_getState x y [] t.config.dev (by simp)
    obtain rfl : e = c.dev := Except.ok.inj (hcall'.symm.trans hcall)
    rw [hfull, Option.getD_none] at hstate
    have hsame := Option.some.inj (hstate.symm.trans hreply)
    refine ⟨es, t.config, [.usb _], hrun, hone, ?_⟩
    exact (List.cons.inj (List.cons.inj (List.cons.inj hsame).2).2).1.symm

theorem Since.happen (h : t.Since c₀) (e : TargetEvent) : (t.happen e).Since c₀ := by
  cases e with
  | enter regs | handler | thread | user action => exact h.advance (by simp)
  | usb =>
    unfold LiveTarget.happen
    dsimp only
    cases hstep : t.outEndpoint.bind fun packet => step t.config (.usb packet) with
    | none => exact h
    | some c =>
      obtain ⟨packet, hpacket, hstep⟩ := Option.bind_eq_some_iff.mp hstep
      exact h.usb hpacket hstep

theorem Since.elapse (h : t.Since c₀) : t.elapse.Since c₀ := by
  have hall : ∀ es : List TargetEvent, ∀ u : LiveTarget, u.Since c₀ →
      (es.foldl LiveTarget.happen u).Since c₀ := by
    intro es
    induction es with
    | nil => exact fun u hu => hu
    | cons e es ih => exact fun u hu => ih _ (hu.happen e)
  exact hall _ _ ⟨h.reached, h.packet, h.reply⟩

/-- An exchange goes wrong where the last packet still waits, or where no reply comes. -/
theorem exchange_eq {packet : List UInt8} (hne : packet ≠ []) (t : LiveTarget) :
    BluePill.exchange liveLink packet t =
      match t.elapse.outEndpoint with
      | some _ => ([], t.elapse)
      | none =>
        match (t.elapse.accept packet).elapse.config.dev.inEndpoint with
        | none => ([], (t.elapse.accept packet).elapse)
        | some reply => (reply.take 64, (t.elapse.accept packet).elapse.advance .collect) := by
  have hlen : ¬ 0 = packet.length := fun h => hne (List.length_eq_zero_iff.mp h.symm)
  unfold BluePill.exchange liveLink
  cases hfull : t.elapse.outEndpoint with
  | some waiting => simp [hfull, hlen]
  | none =>
    cases hreply : (t.elapse.accept packet).elapse.config.dev.inEndpoint with
    | none => simp [hfull, hreply]
    | some reply => simp [hfull, hreply]

/-- An exchange of run control; a halt state that comes back is one that the target has had. -/
theorem Since.exchange (h : t.Since c₀) (command : ResetHaltCommand) (x y : UInt8) :
    (BluePill.exchange liveLink [4, command.toByte, x, y] t).2.Since c₀ ∧
      ∀ state rest, (BluePill.exchange liveLink [4, command.toByte, x, y] t).1 =
          4 :: 5 :: state :: rest →
        HadState c₀ (BluePill.exchange liveLink [4, command.toByte, x, y] t).2.config state := by
  rw [exchange_eq (by simp)]
  cases hfull : t.elapse.outEndpoint with
  | some packet => exact ⟨h.elapse, by simp⟩
  | none =>
    dsimp only
    obtain ⟨u, hu⟩ : ∃ u, u = (t.elapse.accept [4, command.toByte, x, y]).elapse := ⟨_, rfl⟩
    rw [← hu]
    have hsince : u.Since c₀ := by
      rw [hu]
      apply Since.elapse
      refine ⟨h.elapse.reached, ?_, h.elapse.reply⟩
      intro p hp
      exact ⟨command, x, y, (Option.some.inj hp).symm⟩
    cases hreply : u.config.dev.inEndpoint with
    | none => exact ⟨hsince, by simp⟩
    | some r =>
      refine ⟨hsince.advance (by simp), ?_⟩
      intro state rest heq
      obtain ⟨tail, rfl⟩ : ∃ tail, r = 4 :: 5 :: state :: tail := by
        match r, heq with
        | a :: b :: c :: tail, heq =>
          simp only [List.take_succ_cons, List.cons.injEq] at heq
          obtain ⟨rfl, rfl, rfl, -⟩ := heq
          exact ⟨tail, rfl⟩
      have hrun : Run step anyStep u.config [.collect] (u.advance .collect).config :=
        Run.start.snoc trivial rfl
      exact (hsince.reply state tail hreply).trans hrun

end LiveTarget

namespace LiveTarget

/-- The target is halted with the device `d` up to its USB buffers, and this is what waits in its
endpoints. -/
structure Rests (d : Device) (out : Option (List UInt8)) (reply : Option (List UInt8))
    (t : LiveTarget) : Prop where
  halted : t.config.Halted
  bare : t.config.dev.bare = d.bare
  out : t.outEndpoint = out
  reply : t.config.dev.inEndpoint = reply

variable {d : Device} {out reply : Option (List UInt8)} {t : LiveTarget}

theorem Rests.advance (h : t.Rests d out reply) {e : Event} (husb : ∀ packet, e ≠ .usb packet)
    (hcollect : e ≠ .collect) : (t.advance e).Rests d out reply := by
  unfold LiveTarget.advance
  cases hstep : step t.config e with
  | none => exact h
  | some c =>
    have hasks : asksOnlyStep t.config e := by
      cases e with
      | usb packet => exact absurd rfl (husb packet)
      | collect | enter regs | handler | thread | user action => trivial
    obtain ⟨hhalted, hbare⟩ := h.halted.step hasks hstep
    exact ⟨hhalted, hbare.trans h.bare, h.out,
      (step_inEndpoint hstep husb hcollect).trans h.reply⟩

theorem Rests.happen (h : t.Rests d out reply) {e : TargetEvent} (he : e = .usb → out = none) :
    (t.happen e).Rests d out reply := by
  cases e with
  | enter regs | handler | thread | user action => exact h.advance (by simp) (by simp)
  | usb =>
    have hnone : t.outEndpoint = none := h.out.trans (he rfl)
    unfold LiveTarget.happen
    rw [hnone]
    exact h

/-- The interrupt answers the question for the state. -/
theorem Rests.usb {x y : UInt8} (h : t.Rests d (some [4, 5, x, y]) none)
    (hirq : d.mon.irq20 = true) :
    (t.happen .usb).Rests d none (some [4, 5, d.mon.gHaltState.toByte, 0]) := by
  have hmon : t.config.dev.mon = d.mon := Device.mon_of_bare h.bare
  obtain ⟨e, hcall, -, hendpoint⟩ := usbDataOutCallback_getState x y [] t.config.dev (by simp)
  rw [h.reply, Option.getD_none, hmon] at hendpoint
  have hstep : step t.config (.usb [4, 5, x, y]) = some { t.config with dev := e } := by
    unfold step
    dsimp only
    rw [hmon, if_pos hirq, hcall]
  have hasks : asksOnlyStep t.config (.usb [4, 5, x, y]) := .inr (.inr ⟨rfl, rfl⟩)
  obtain ⟨hhalted, hbare⟩ := h.halted.step hasks hstep
  have hnext : t.happen .usb =
      { t with config := { t.config with dev := e }, outEndpoint := none } := by
    unfold LiveTarget.happen
    simp only [h.out, Option.bind_some, hstep]
  rw [hnext]
  exact ⟨hhalted, hbare.trans h.bare, rfl, hendpoint⟩

theorem Rests.answered (es : List TargetEvent) (h : t.Rests d none reply) :
    (es.foldl LiveTarget.happen t).Rests d none reply := by
  induction es generalizing t with
  | nil => exact h
  | cons e es ih => exact ih (h.happen fun _ => rfl)

theorem Rests.asked {x y : UInt8} {es : List TargetEvent} (husb : .usb ∈ es)
    (h : t.Rests d (some [4, 5, x, y]) none) (hirq : d.mon.irq20 = true) :
    (es.foldl LiveTarget.happen t).Rests d none (some [4, 5, d.mon.gHaltState.toByte, 0]) := by
  induction es generalizing t with
  | nil => contradiction
  | cons e es ih =>
    by_cases he : e = .usb
    · subst he
      exact (h.usb hirq).answered es
    · apply ih _ (h.happen fun heq => absurd heq he)
      rcases List.mem_cons.mp husb with heq | hmem
      · exact absurd heq.symm he
      · exact hmem

@[simp] theorem happen_schedule (t : LiveTarget) (e : TargetEvent) :
    (t.happen e).schedule = t.schedule := by
  cases e with
  | enter regs | handler | thread | user action => rfl
  | usb =>
    unfold LiveTarget.happen
    dsimp only
    split <;> rfl

@[simp] theorem elapse_schedule (t : LiveTarget) : t.elapse.schedule = t.schedule.tail := by
  have hall : ∀ es : List TargetEvent, ∀ u : LiveTarget,
      (es.foldl LiveTarget.happen u).schedule = u.schedule := by
    intro es
    induction es with
    | nil => exact fun u => rfl
    | cons e es ih => exact fun u => (ih (u.happen e)).trans (u.happen_schedule e)
  exact hall _ _

/-- A poll of a halted target whose interrupt comes to the packet in time. -/
theorem Rests.exchange {before during : List TargetEvent} {later : List (List TargetEvent)}
    (h : t.Rests d none none) (hirq : d.mon.irq20 = true) (husb : .usb ∈ during)
    (hschedule : t.schedule = before :: during :: later) (x y : UInt8) :
    ∃ t', BluePill.exchange liveLink [4, 5, x, y] t = ([4, 5, d.mon.gHaltState.toByte, 0], t') ∧
      t'.Rests d none none ∧ t'.schedule = later := by
  have hsent : t.elapse.Rests d none none :=
    Rests.answered _ ⟨h.halted, h.bare, h.out, h.reply⟩
  have hnext : t.elapse.schedule = during :: later := by
    rw [elapse_schedule, hschedule]
    rfl
  obtain ⟨v, hv⟩ : ∃ v, v = t.elapse.accept [4, 5, x, y] := ⟨_, rfl⟩
  obtain ⟨u, hu⟩ : ∃ u, u = v.elapse := ⟨_, rfl⟩
  have hwaits : v.Rests d (some [4, 5, x, y]) none := by
    rw [hv]
    exact ⟨hsent.halted, hsent.bare, rfl, hsent.reply⟩
  have hduring : v.schedule = during :: later := by
    rw [hv]
    exact hnext
  have hasked : u.Rests d none (some [4, 5, d.mon.gHaltState.toByte, 0]) := by
    rw [hu]
    unfold LiveTarget.elapse
    rw [hduring]
    exact Rests.asked husb ⟨hwaits.halted, hwaits.bare, hwaits.out, hwaits.reply⟩ hirq
  have hlater : u.schedule = later := by
    rw [hu, elapse_schedule, hduring]
    rfl
  refine ⟨u.advance .collect, ?_, ⟨?_, ?_, ?_, rfl⟩, hlater⟩
  · rw [exchange_eq (by simp)]
    simp only [hsent.out, ← hv, ← hu, hasked.reply]
    rfl
  · exact ⟨hasked.halted.line, hasked.halted.queue, hasked.halted.state⟩
  · exact hasked.bare
  · exact hasked.out

end LiveTarget

end BluePill
