import BluePill.Host.Exchanges
import BluePill.Host.GdbServer
import BluePill.Lib.Latches
import BluePill.Lib.Runs

/-! What every packet does to a session: which target is selected and remembered, and what is
answered. The automaton of the session is refined by the rounds of the loop. -/
namespace BluePill
open Lib Ascii

/-- What the answers to GDB depend on from one packet to the next. -/
@[ext] structure GdbSession where
  curTarget : Bool
  lastTarget : Bool
  controller : Bool
  singleStep : Bool
  deriving DecidableEq, Repr

inductive SessionEvent
  | detach
  | kill
  /-- A packet that attaches to the last target when none is selected. -/
  | reattach
  /-- An attach to a target that is there, or to one that is not. -/
  | attach (present : Bool)
  | resume (step : Bool)
  | other
  deriving DecidableEq, Repr

def GdbSession.step (s : GdbSession) : SessionEvent → GdbSession
  | .detach => { s with lastTarget := s.curTarget, curTarget := false }
  | .kill => if s.curTarget then { s with lastTarget := true, curTarget := false } else s
  | .reattach =>
    if !s.curTarget && s.lastTarget then
      { s with curTarget := true, lastTarget := !s.controller, controller := true }
    else s
  | .attach true =>
    { s with curTarget := true, lastTarget := s.lastTarget && !s.controller, controller := true }
  | .attach false => { s with curTarget := false }
  | .resume step =>
    if s.curTarget then { s with singleStep := false }
    else { s with singleStep := s.singleStep || step }
  | .other => s

def queryEvent (pbuf : List UInt8) : SessionEvent :=
  if (afterText (ascii "qRcmd,") pbuf).isSome then .other
  else if (afterText (ascii "qSupported") pbuf).isSome then .other
  else if (afterText (ascii "qXfer:memory-map:read::") pbuf).isSome then .reattach
  else if (afterText (ascii "qXfer:features:read:target.xml:") pbuf).isSome then .reattach
  else .other

def vEvent (pbuf : List UInt8) : SessionEvent :=
  match (afterText (ascii "vAttach;") pbuf).bind (scanHex 8) with
  | some (n, _) => .attach (n = 1)
  | none => if (afterText (ascii "vRun") pbuf).isSome then .reattach else .other

/-- The event that a packet with the first character `c` is. -/
def charEvent (pbuf : List UInt8) (c : Char) : SessionEvent :=
  match c with
  | 's' => .resume true
  | 'c' => .resume false
  | '\x04' => .detach
  | 'D' => .detach
  | 'k' => .kill
  | 'r' => .reattach
  | 'R' => .reattach
  | 'q' => queryEvent pbuf
  | 'v' => vEvent pbuf
  | _ => .other

def sessionEvent (pbuf : List UInt8) : SessionEvent :=
  charEvent pbuf (Char.ofUInt8 (pbuf.headD 0))

/-- The packets that are not answered. -/
def Unanswered (pbuf : List UInt8) : Prop :=
  Char.ofUInt8 (pbuf.headD 0) = 'k' ∨ Char.ofUInt8 (pbuf.headD 0) = 'r' ∨
    Char.ofUInt8 (pbuf.headD 0) = 'R'

instance (pbuf : List UInt8) : Decidable (Unanswered pbuf) := by
  unfold Unanswered
  infer_instance

theorem putpacketTries_sends {frame input sent rest : List UInt8} {left : ℕ}
    (h : putpacketTries frame left input = some (sent, rest)) :
    ∃ nacks reply, sent = (List.replicate (nacks.length + 1) frame).flatten ∧
      input = nacks ++ reply :: rest ∧ (∀ c ∈ nacks, c ≠ plus) ∧ nacks.length ≤ left ∧
      (reply = plus ∨ nacks.length = left) := by
  induction input generalizing left sent with
  | nil => cases left <;> simp [putpacketTries] at h
  | cons c input ih =>
    by_cases hplus : c = plus
    · have hsent : putpacketTries frame left (c :: input) = some (frame, input) := by
        cases left <;> rw [putpacketTries, if_pos hplus]
      obtain ⟨rfl, rfl⟩ := Prod.mk.inj (Option.some.inj (hsent.symm.trans h))
      exact ⟨[], c, by simp, rfl, by simp, Nat.zero_le left, .inl hplus⟩
    · cases left with
      | zero =>
        rw [putpacketTries, if_neg hplus] at h
        obtain ⟨rfl, rfl⟩ := Prod.mk.inj (Option.some.inj h)
        exact ⟨[], c, by simp, rfl, by simp, le_rfl, .inr rfl⟩
      | succ left =>
        rw [putpacketTries, if_neg hplus, Option.map_eq_some_iff] at h
        obtain ⟨⟨sent', rest'⟩, htail, heq⟩ := h
        obtain ⟨rfl, rfl⟩ := Prod.mk.inj heq
        obtain ⟨nacks, reply, rfl, rfl, hnacks, hle, hlast⟩ := ih htail
        refine ⟨c :: nacks, reply, ?_, rfl, ?_, ?_, ?_⟩
        · rw [List.length_cons, List.replicate_succ (n := nacks.length + 1)]
          rfl
        · intro d hd
          rcases List.mem_cons.mp hd with rfl | hd
          · exact hplus
          · exact hnacks d hd
        · rw [List.length_cons]
          omega
        · rw [List.length_cons]
          rcases hlast with hlast | hlast
          · exact .inl hlast
          · exact .inr (by omega)

namespace GdbServer

variable {σ : Type} {α : Type}

def session (s : GdbServer σ) : GdbSession :=
  ⟨s.curTarget, s.lastTarget, s.controller, s.singleStep⟩

/-- One payload has been sent, in up to four frames until one was acknowledged; what was read before
is `skipped`. -/
def Answered (s s' : GdbServer σ) : Prop :=
  ∃ payload skipped nacks reply,
    s.input = skipped ++ nacks ++ reply :: s'.input ∧
    s'.output = s.output ++ (List.replicate (nacks.length + 1) (gdbFrame payload)).flatten ∧
    (∀ c ∈ nacks, c ≠ plus) ∧ nacks.length ≤ 3 ∧ (reply = plus ∨ nacks.length = 3)

/-- Nothing has been sent, and what was read is `skipped`. -/
def Quiet (s s' : GdbServer σ) : Prop :=
  s'.output = s.output ∧ ∃ skipped, s.input = skipped ++ s'.input

theorem Quiet.refl (s : GdbServer σ) : Quiet s s := ⟨rfl, [], rfl⟩

theorem Quiet.of_eq {s s' : GdbServer σ} (hinput : s'.input = s.input)
    (houtput : s'.output = s.output) : Quiet s s' := ⟨houtput, [], hinput.symm⟩

theorem Quiet.trans {s s₁ s₂ : GdbServer σ} (h₁ : Quiet s s₁) (h₂ : Quiet s₁ s₂) :
    Quiet s s₂ := by
  obtain ⟨hout₁, skipped₁, hin₁⟩ := h₁
  obtain ⟨hout₂, skipped₂, hin₂⟩ := h₂
  exact ⟨hout₂.trans hout₁, skipped₁ ++ skipped₂, by rw [hin₁, hin₂, List.append_assoc]⟩

theorem Quiet.answered {s s₁ s₂ : GdbServer σ} (h₁ : Quiet s s₁) (h₂ : Answered s₁ s₂) :
    Answered s s₂ := by
  obtain ⟨hout, skipped, hin⟩ := h₁
  obtain ⟨payload, skipped', nacks, reply, hinput, houtput, hrest⟩ := h₂
  refine ⟨payload, skipped ++ skipped', nacks, reply, ?_, by rw [houtput, hout], hrest⟩
  rw [hin, hinput]
  simp only [List.append_assoc]

theorem call_ok {f : Host σ → Except Fault (α × Host σ)} {s s' : GdbServer σ} {a : α}
    (h : s.call f = .ok (a, s')) :
    ∃ host, f s.target.host = .ok (a, host) ∧
      s' = { s with target := { s.target with host := host } } := by
  unfold call at h
  split at h
  · rename_i b host heq
    simp only [Except.ok.injEq, Prod.mk.injEq] at h
    obtain ⟨rfl, rfl⟩ := h
    exact ⟨host, heq, rfl⟩
  · contradiction

theorem callFlash_ok {f : Target σ → Except Fault (α × Target σ)} {s s' : GdbServer σ} {a : α}
    (h : s.callFlash f = .ok (a, s')) :
    ∃ target, f s.target = .ok (a, target) ∧ s' = { s with target := target } := by
  unfold callFlash at h
  split at h
  · rename_i b target heq
    simp only [Except.ok.injEq, Prod.mk.injEq] at h
    obtain ⟨rfl, rfl⟩ := h
    exact ⟨target, heq, rfl⟩
  · contradiction

theorem command_ok {f : Host σ → Except Fault (Unit × Host σ)} {s s' : GdbServer σ}
    (h : s.command f = .ok s') :
    ∃ host, f s.target.host = .ok ((), host) ∧
      s' = { s with target := { s.target with host := host } } := by
  unfold command at h
  obtain ⟨⟨_, s₁⟩, hcall, hret⟩ := bind_eq_ok.mp h
  obtain rfl := Except.ok.inj hret
  exact call_ok hcall

theorem onlyIf_ok {b : Bool} {k : GdbServer σ → Except Stop (GdbServer σ)} {s s' : GdbServer σ}
    (h : s.onlyIf b k = .ok s') : (b = true ∧ k s = .ok s') ∨ (b = false ∧ s' = s) := by
  unfold onlyIf at h
  cases b with
  | true => exact .inl ⟨rfl, h⟩
  | false => exact .inr ⟨rfl, (Except.ok.inj h).symm⟩

/-- A call that is made at most once leaves the session and the characters alone. -/
theorem onlyIf_command_ok {b : Bool} {f : Host σ → Except Fault (Unit × Host σ)}
    {s s' : GdbServer σ} (h : s.onlyIf b (command f) = .ok s') :
    ∃ host, s' = { s with target := { s.target with host := host } } := by
  rcases onlyIf_ok h with ⟨-, hcommand⟩ | ⟨-, rfl⟩
  · obtain ⟨host, -, rfl⟩ := command_ok hcommand
    exact ⟨host, rfl⟩
  · exact ⟨s'.target.host, rfl⟩

theorem put_ok {payload : List UInt8} {s s' : GdbServer σ} (h : s.put payload = .ok s') :
    s'.session = s.session ∧ Answered s s' := by
  unfold put at h
  split at h
  · rename_i sent rest heq
    obtain rfl := Except.ok.inj h
    obtain ⟨nacks, reply, hsent, hinput, hnacks, hle, hlast⟩ := putpacketTries_sends heq
    refine ⟨rfl, payload, [], nacks, reply, ?_, ?_, hnacks, hle, hlast⟩
    · rw [List.nil_append]
      exact hinput
    · show s.output ++ sent = _
      rw [hsent]
  · contradiction

/-- The session after a handler, and its answer. -/
structure Handled (event : SessionEvent) (s s' : GdbServer σ) : Prop where
  session : s'.session = s.session.step event
  answered : Answered s s'

theorem Handled.of_put {event : SessionEvent} {payload : List UInt8} {s s₁ s' : GdbServer σ}
    (h : s₁.put payload = .ok s') (hquiet : Quiet s s₁)
    (hsession : s₁.session = s.session.step event) : Handled event s s' := by
  obtain ⟨hsame, hanswered⟩ := put_ok h
  exact ⟨hsame.trans hsession, hquiet.answered hanswered⟩

theorem answer_handled {left : Leftovers} {f : Host σ → Except Fault (GdbReply × Host σ)}
    {s s' : GdbServer σ} (h : s.answer left f = .ok s') : Handled .other s s' := by
  unfold answer at h
  obtain ⟨⟨reply, s₁⟩, hcall, hput⟩ := bind_eq_ok.mp h
  obtain ⟨host, -, rfl⟩ := call_ok hcall
  dsimp only at hput
  exact .of_put hput (.of_eq rfl rfl) rfl

theorem ifTarget_handled {k : GdbServer σ → Except Stop (GdbServer σ)} {s s' : GdbServer σ}
    (hk : k s = .ok s' → Handled .other s s') (h : s.ifTarget k = .ok s') :
    Handled .other s s' := by
  unfold ifTarget at h
  split_ifs at h
  · exact hk h
  · exact .of_put h (.refl s) rfl

end GdbServer

open GdbServer

section
variable {σ : Type} {interface : TargetInterface σ} {left : Leftovers}
  {packet pbuf : List UInt8} {s s' : GdbServer σ}

theorem handleWrite_handled
    {write : ℕ → ℕ → List UInt8 → (ℕ → UInt8) → Host σ → Except Fault (GdbReply × Host σ)}
    (h : handleWrite left pbuf packet s write = .ok s') : Handled .other s s' := by
  unfold handleWrite at h
  simp only at h
  split_ifs at h
  exact answer_handled h

theorem handleZ_handled {set : Bool} (h : handleZ interface left set pbuf s = .ok s') :
    Handled .other s s' := by
  unfold handleZ at h
  obtain ⟨⟨⟨reply, bwList⟩, s₁⟩, hcall, hput⟩ := bind_eq_ok.mp h
  obtain ⟨host, -, rfl⟩ := call_ok hcall
  dsimp only at hput
  exact .of_put hput (.of_eq rfl rfl) rfl

theorem attachTarget_ok (h : attachTarget interface s = .ok s') :
    Quiet s s' ∧ s'.session = s.session.step (.attach true) := by
  unfold attachTarget at h
  obtain ⟨⟨ok, s₁⟩, hcall, hret⟩ := bind_eq_ok.mp h
  obtain ⟨host, -, rfl⟩ := call_ok hcall
  obtain rfl := Except.ok.inj hret
  cases hcontroller : s.controller with
  | true =>
    refine ⟨.of_eq rfl rfl, ?_⟩
    simp [session, GdbSession.step, hcontroller]
  | false =>
    refine ⟨.of_eq rfl rfl, ?_⟩
    simp [session, GdbSession.step, hcontroller]

theorem attachLast_ok (h : attachLast interface s = .ok s') :
    Quiet s s' ∧ s'.session = s.session.step .reattach := by
  unfold attachLast at h
  split_ifs at h with hlast
  · obtain ⟨hquiet, hsession⟩ := attachTarget_ok h
    refine ⟨hquiet, hsession.trans ?_⟩
    simp only [Bool.and_eq_true, Bool.not_eq_true'] at hlast
    simp [session, GdbSession.step, hlast.1, hlast.2]
  · obtain rfl := Except.ok.inj h
    refine ⟨.refl s, ?_⟩
    have hsame : ¬ (!s.session.curTarget && s.session.lastTarget) = true := hlast
    rw [GdbSession.step, if_neg hsame]

theorem handleDetach_handled (h : handleDetach interface s = .ok s') : Handled .detach s s' := by
  unfold handleDetach at h
  obtain ⟨s₁, hdetach, hput⟩ := bind_eq_ok.mp h
  obtain ⟨host, rfl⟩ := onlyIf_command_ok hdetach
  exact .of_put hput (.of_eq rfl rfl) rfl

theorem handleKill_ok (h : handleKill interface s = .ok s') :
    Quiet s s' ∧ s'.session = s.session.step .kill := by
  unfold handleKill at h
  split_ifs at h with hcur
  · obtain ⟨s₁, hreset, hrest⟩ := bind_eq_ok.mp h
    obtain ⟨host₁, -, rfl⟩ := command_ok hreset
    obtain ⟨s₂, hdetach, hret⟩ := bind_eq_ok.mp hrest
    obtain ⟨host₂, -, rfl⟩ := command_ok hdetach
    obtain rfl := Except.ok.inj hret
    refine ⟨.of_eq rfl rfl, ?_⟩
    simp [session, GdbSession.step, hcur]
  · obtain rfl := Except.ok.inj h
    refine ⟨.refl s, ?_⟩
    simp [session, GdbSession.step, hcur]

theorem handleRestart_ok (h : handleRestart interface s = .ok s') :
    Quiet s s' ∧ s'.session = s.session.step .reattach := by
  unfold handleRestart at h
  obtain ⟨s₁, hattach, hreset⟩ := bind_eq_ok.mp h
  obtain ⟨hquiet, hsession⟩ := attachLast_ok hattach
  obtain ⟨host, rfl⟩ := onlyIf_command_ok hreset
  exact ⟨hquiet.trans (.of_eq rfl rfl), hsession⟩

/-- Waiting takes characters and leaves the session alone. -/
theorem waitForHalt_ok {input : List UInt8} {reason : TargetHaltReason}
    (h : waitForHalt interface input s = .ok (reason, s')) :
    s'.output = s.output ∧ (∃ skipped, input = skipped ++ s'.input) ∧ s'.session = s.session := by
  induction input generalizing s with
  | nil =>
    unfold waitForHalt at h
    obtain ⟨⟨reason', s₁⟩, hpoll, hrest⟩ := bind_eq_ok.mp h
    obtain ⟨host, -, rfl⟩ := call_ok hpoll
    dsimp only at hrest
    split_ifs at hrest
    obtain ⟨rfl, rfl⟩ := Prod.mk.inj (Except.ok.inj hrest)
    exact ⟨rfl, ⟨[], rfl⟩, rfl⟩
  | cons c input ih =>
    unfold waitForHalt at h
    obtain ⟨⟨reason', s₁⟩, hpoll, hrest⟩ := bind_eq_ok.mp h
    obtain ⟨host, -, rfl⟩ := call_ok hpoll
    dsimp only at hrest
    split_ifs at hrest with hrunning
    · obtain ⟨s₂, hrequest, hwait⟩ := bind_eq_ok.mp hrest
      obtain ⟨host', rfl⟩ := onlyIf_command_ok hrequest
      obtain ⟨houtput, ⟨skipped, hinput⟩, hsession⟩ := ih hwait
      exact ⟨houtput, ⟨c :: skipped, by rw [hinput]; rfl⟩, hsession⟩
    · obtain ⟨rfl, rfl⟩ := Prod.mk.inj (Except.ok.inj hrest)
      exact ⟨rfl, ⟨[], rfl⟩, rfl⟩

theorem handleHaltReason_handled (h : handleHaltReason interface s = .ok s') :
    Handled .other s s' := by
  unfold handleHaltReason at h
  split_ifs at h
  · obtain ⟨⟨reason, s₁⟩, hwait, hput⟩ := bind_eq_ok.mp h
    obtain ⟨houtput, hinput, hsession⟩ := waitForHalt_ok hwait
    exact .of_put hput ⟨houtput, hinput⟩ hsession
  · exact .of_put h (.refl s) rfl

/-- A step is asked for once, by the packet itself or by one that found no target. -/
theorem handleContinue_handled (step : Bool)
    (h : handleContinue interface { s with singleStep := s.singleStep || step } = .ok s') :
    Handled (.resume step) s s' := by
  unfold handleContinue at h
  split_ifs at h with hcur
  · obtain ⟨s₁, hresume, hrest⟩ := bind_eq_ok.mp h
    obtain ⟨host, -, rfl⟩ := command_ok hresume
    obtain ⟨hsession, hanswered⟩ := handleHaltReason_handled hrest
    refine ⟨hsession.trans ?_, hanswered⟩
    have hcur' : s.curTarget = true := hcur
    simp [session, GdbSession.step, hcur']
  · refine .of_put h (.of_eq rfl rfl) ?_
    have hcur' : s.curTarget = false := by simpa using hcur
    simp [session, GdbSession.step, hcur']

theorem handleDocument_handled {document : GdbServer σ → Except Fault (List UInt8)}
    {param : List UInt8} (h : handleDocument interface left document param s = .ok s') :
    Handled .reattach s s' := by
  unfold handleDocument at h
  obtain ⟨s₁, hattach, hrest⟩ := bind_eq_ok.mp h
  obtain ⟨hquiet, hsession⟩ := attachLast_ok hattach
  split_ifs at hrest
  · exact .of_put hrest hquiet hsession
  · split at hrest
    · exact .of_put hrest hquiet hsession
    · contradiction

theorem handleCrc_handled {addr alen : ℕ} (h : handleCrc interface left addr alen s = .ok s') :
    Handled .other s s' := by
  unfold handleCrc at h
  split_ifs at h
  · exact .of_put h (.refl s) rfl
  · obtain ⟨⟨crc, s₁⟩, hcall, hput⟩ := bind_eq_ok.mp h
    obtain ⟨host, -, rfl⟩ := call_ok hcall
    exact .of_put hput (.of_eq rfl rfl) rfl

theorem handleQ_handled (h : handleQ interface left pbuf s = .ok s') :
    Handled (queryEvent pbuf) s s' := by
  unfold handleQ at h
  unfold queryEvent
  split_ifs at h ⊢ with hcommand hsupported hmap hfeatures
  · exact .of_put h (.refl s) rfl
  · exact .of_put h (.refl s) rfl
  · obtain ⟨param, hparam⟩ := Option.isSome_iff_exists.mp hmap
    rw [hparam] at h
    exact handleDocument_handled h
  · obtain ⟨param, hparam⟩ := Option.isSome_iff_exists.mp hfeatures
    rw [Bool.not_eq_true, Option.isSome_eq_false_iff, Option.isNone_iff_eq_none] at hmap
    rw [hmap, hparam] at h
    exact handleDocument_handled h
  · rw [Bool.not_eq_true, Option.isSome_eq_false_iff, Option.isNone_iff_eq_none] at hmap hfeatures
    rw [hmap, hfeatures] at h
    dsimp only at h
    split at h
    · exact handleCrc_handled h
    · exact .of_put h (.refl s) rfl

theorem handleAttach_handled {n : ℕ} (h : handleAttach interface n s = .ok s') :
    Handled (.attach (n = 1)) s s' := by
  unfold handleAttach attachN at h
  obtain ⟨s₁, hattach, hput⟩ := bind_eq_ok.mp h
  split_ifs at hattach with hn
  · obtain ⟨hquiet, hsession⟩ := attachTarget_ok hattach
    rw [decide_eq_true hn]
    exact .of_put hput hquiet hsession
  · obtain rfl := Except.ok.inj hattach
    rw [decide_eq_false hn]
    exact .of_put hput (.of_eq rfl rfl) rfl

theorem handleRun_handled {tok : List UInt8} (h : handleRun interface left tok s = .ok s') :
    Handled .reattach s s' := by
  unfold handleRun at h
  split at h
  · contradiction
  · obtain ⟨s₁, hattach, hrest⟩ := bind_eq_ok.mp h
    obtain ⟨hquiet, hsession⟩ := attachLast_ok hattach
    split_ifs at hrest
    · split at hrest
      · contradiction
      · obtain ⟨s₂, hreset, hput⟩ := bind_eq_ok.mp hrest
        obtain ⟨host, -, rfl⟩ := command_ok hreset
        exact .of_put hput (hquiet.trans (.of_eq rfl rfl)) hsession
    · exact .of_put hrest hquiet hsession

theorem handleFlashErase_handled {addr len : ℕ}
    (h : handleFlashErase interface addr len s = .ok s') : Handled .other s s' := by
  unfold handleFlashErase at h
  split_ifs at h
  · exact .of_put h (.refl s) rfl
  · obtain ⟨s₁, hreset, hrest⟩ := bind_eq_ok.mp h
    have hmode : ∃ host mode, s₁ =
        { s with target := { s.target with host := host }, flashMode := mode } := by
      rcases onlyIf_ok hreset with ⟨-, hrun⟩ | ⟨-, rfl⟩
      · obtain ⟨s₂, hcommand, hret⟩ := bind_eq_ok.mp hrun
        obtain ⟨host, -, rfl⟩ := command_ok hcommand
        obtain rfl := Except.ok.inj hret
        exact ⟨host, true, rfl⟩
      · exact ⟨s₁.target.host, s₁.flashMode, rfl⟩
    obtain ⟨host, mode, rfl⟩ := hmode
    obtain ⟨⟨ret, s₂⟩, herase, hput⟩ := bind_eq_ok.mp hrest
    obtain ⟨target, -, rfl⟩ := callFlash_ok herase
    dsimp only at hput
    split_ifs at hput
    · exact .of_put hput (.of_eq rfl rfl) rfl
    · exact .of_put hput (.of_eq rfl rfl) rfl

theorem handleFlashWrite_handled {addr : ℕ} {bin : List UInt8}
    (h : handleFlashWrite interface left addr bin s = .ok s') : Handled .other s s' := by
  unfold handleFlashWrite at h
  split_ifs at h
  · exact .of_put h (.of_eq rfl rfl) rfl
  · obtain ⟨⟨reply, s₁⟩, hwrite, hput⟩ := bind_eq_ok.mp h
    obtain ⟨target, -, rfl⟩ := callFlash_ok hwrite
    dsimp only at hput
    split_ifs at hput
    · exact .of_put hput (.of_eq rfl rfl) rfl
    · exact .of_put hput (.of_eq rfl rfl) rfl

theorem handleFlashDone_handled (h : handleFlashDone interface left s = .ok s') :
    Handled .other s s' := by
  unfold handleFlashDone at h
  split_ifs at h
  obtain ⟨⟨reply, s₁⟩, hdone, hrest⟩ := bind_eq_ok.mp h
  obtain ⟨target, -, rfl⟩ := callFlash_ok hdone
  obtain ⟨s₂, hput, hret⟩ := bind_eq_ok.mp hrest
  obtain rfl := Except.ok.inj hret
  obtain ⟨hsession, hanswered⟩ := put_ok hput
  exact ⟨hsession, hanswered⟩

theorem handleV_handled (h : handleV interface left packet pbuf s = .ok s') :
    Handled (vEvent pbuf) s s' := by
  unfold handleV at h
  unfold vEvent
  cases hattach : (afterText (ascii "vAttach;") pbuf).bind (scanHex 8) with
  | some r =>
    obtain ⟨n, rest⟩ := r
    simp only [hattach] at h
    exact handleAttach_handled h
  | none =>
    simp only [hattach] at h
    cases hrun : afterText (ascii "vRun") pbuf with
    | some tok =>
      simp only [hrun] at h
      exact handleRun_handled h
    | none =>
      simp only [hrun] at h
      split at h
      · exact handleFlashErase_handled h
      · split at h
        · split_ifs at h
          exact handleFlashWrite_handled h
        · split_ifs at h
          · exact handleFlashDone_handled h
          · exact .of_put h (.refl s) rfl

theorem GdbServer.Handled.round {event : SessionEvent} (h : Handled event s s') {c : Char}
    (hc : Char.ofUInt8 (pbuf.headD 0) = c) (hevent : charEvent pbuf c = event)
    (hanswered : c ≠ 'k' ∧ c ≠ 'r' ∧ c ≠ 'R') :
    s'.session = s.session.step (sessionEvent pbuf) ∧
      if Unanswered pbuf then Quiet s s' else Answered s s' := by
  have hnot : ¬ Unanswered pbuf := by
    unfold Unanswered
    rw [hc]
    simp [hanswered]
  rw [if_neg hnot, sessionEvent, hc, hevent]
  exact ⟨h.session, h.answered⟩

theorem GdbServer.Quiet.round {event : SessionEvent}
    (h : Quiet s s' ∧ s'.session = s.session.step event) {c : Char}
    (hc : Char.ofUInt8 (pbuf.headD 0) = c) (hevent : charEvent pbuf c = event)
    (hunanswered : Unanswered pbuf) :
    s'.session = s.session.step (sessionEvent pbuf) ∧
      if Unanswered pbuf then Quiet s s' else Answered s s' := by
  rw [if_pos hunanswered, sessionEvent, hc, hevent]
  exact ⟨h.2, h.1⟩

/-- The session after a packet, and whether it is answered. -/
theorem gdbSwitch_handled (h : gdbSwitch interface left packet pbuf s = .ok s') :
    s'.session = s.session.step (sessionEvent pbuf) ∧
      if Unanswered pbuf then Quiet s s' else Answered s s' := by
  unfold gdbSwitch at h
  have hevent {event : SessionEvent} {c : Char} (hc : Char.ofUInt8 (pbuf.headD 0) = c)
      (heq : charEvent pbuf c = event) (hhandled : Handled event s s')
      (hanswered : c ≠ 'k' ∧ c ≠ 'r' ∧ c ≠ 'R') := hhandled.round hc heq hanswered
  split at h
  case h_1 hc =>
    exact hevent hc rfl (ifTarget_handled answer_handled h) (by decide)
  case h_2 hc =>
    exact hevent hc rfl (ifTarget_handled answer_handled h) (by decide)
  case h_3 hc =>
    exact hevent hc rfl (ifTarget_handled answer_handled h) (by decide)
  case h_4 hc =>
    exact hevent hc rfl (ifTarget_handled handleWrite_handled h) (by decide)
  case h_5 hc =>
    exact hevent hc rfl (handleContinue_handled true (by simpa using h)) (by decide)
  case h_6 hc =>
    exact hevent hc rfl (handleContinue_handled false (by simpa using h)) (by decide)
  case h_7 hc =>
    exact hevent hc rfl (handleHaltReason_handled h) (by decide)
  case h_8 hc =>
    exact hevent hc rfl (ifTarget_handled answer_handled h) (by decide)
  case h_9 hc =>
    exact hevent hc rfl (ifTarget_handled answer_handled h) (by decide)
  case h_10 hc =>
    exact hevent hc rfl (.of_put h (.refl s) rfl) (by decide)
  case h_11 hc =>
    exact hevent hc rfl (.of_put h (.refl s) rfl) (by decide)
  case h_12 hc =>
    exact hevent hc rfl (handleDetach_handled h) (by decide)
  case h_13 hc =>
    exact hevent hc rfl (handleDetach_handled h) (by decide)
  case h_14 hc =>
    exact Quiet.round (handleKill_ok h) hc rfl (.inl hc)
  case h_15 hc =>
    exact Quiet.round (handleRestart_ok h) hc rfl (.inr (.inl hc))
  case h_16 hc =>
    exact Quiet.round (handleRestart_ok h) hc rfl (.inr (.inr hc))
  case h_17 hc =>
    exact hevent hc rfl (ifTarget_handled handleWrite_handled h) (by decide)
  case h_18 hc =>
    exact hevent hc rfl (handleQ_handled h) (by decide)
  case h_19 hc =>
    exact hevent hc rfl (handleV_handled h) (by decide)
  case h_20 hc =>
    exact hevent hc rfl (ifTarget_handled handleZ_handled h) (by decide)
  case h_21 hc =>
    exact hevent hc rfl (ifTarget_handled handleZ_handled h) (by decide)
  case h_22 =>
    have hother : charEvent pbuf (Char.ofUInt8 (pbuf.headD 0)) = .other := by
      unfold charEvent
      split <;> first | rfl | contradiction
    exact hevent rfl hother (.of_put h (.refl s) rfl) ⟨by assumption, by assumption, by assumption⟩

end

section
variable {σ : Type} (interface : TargetInterface σ)

/-- A packet, with what memory holds while it is handled. -/
structure Round where
  left : Leftovers
  packet : List UInt8

def Round.pbuf (r : Round) : List UInt8 := packetBuffer r.left r.packet

/-- A round of the loop that gets the packet `r.packet`. -/
def roundStep (s : GdbServer σ) (r : Round) : Option (GdbServer σ) :=
  if (gdbGetpacket bufSize s.input).map Prod.fst = some r.packet then
    (gdbMainRound interface r.left s).toOption
  else none

variable {interface}

/-- A round that goes on has got a packet, and handles it. -/
theorem gdbMainRound_ok {left : Leftovers} {s s' : GdbServer σ}
    (h : gdbMainRound interface left s = .ok s') :
    ∃ packet sent rest, gdbGetpacket bufSize s.input = some (packet, sent, rest) ∧
      gdbSwitch interface left packet (packetBuffer left packet)
        { s with input := rest, output := s.output ++ sent } = .ok s' := by
  unfold gdbMainRound at h
  split at h
  · contradiction
  · rename_i packet sent rest hget
    exact ⟨packet, sent, rest, hget, h⟩

/-- Every packet gets one answer, in up to four frames, except those that kill, reset or restart the
target; and it takes the session where the automaton goes. -/
theorem gdbMainRound_answers (left : Leftovers) (s s' : GdbServer σ)
    (h : gdbMainRound interface left s = .ok s') :
    ∃ packet sent rest, gdbGetpacket bufSize s.input = some (packet, sent, rest) ∧
      s'.session = s.session.step (sessionEvent (packetBuffer left packet)) ∧
      if Unanswered (packetBuffer left packet) then
        s'.output = s.output ++ sent ∧ ∃ skipped, rest = skipped ++ s'.input
      else ∃ payload skipped nacks reply, rest = skipped ++ nacks ++ reply :: s'.input ∧
        s'.output = s.output ++ sent ++
          (List.replicate (nacks.length + 1) (gdbFrame payload)).flatten ∧
        (∀ c ∈ nacks, c ≠ plus) ∧ nacks.length ≤ 3 ∧ (reply = plus ∨ nacks.length = 3) := by
  obtain ⟨packet, sent, rest, hget, hswitch⟩ := gdbMainRound_ok h
  obtain ⟨hsession, hwire⟩ := gdbSwitch_handled hswitch
  refine ⟨packet, sent, rest, hget, hsession, ?_⟩
  split_ifs at hwire ⊢
  · exact hwire
  · exact hwire

/-- A server that remembers its target and has none selected. -/
def detachedServer (input : List UInt8) : GdbServer Unit :=
  { input := input, output := [], curTarget := false, lastTarget := true, controller := true,
    singleStep := false, flashMode := false, bwList := [], cmdline := [],
    target := ⟨[], .zero, .zero, ()⟩ }

/-- What a detach makes of it. -/
def lostServer : GdbServer Unit :=
  { detachedServer [] with output := plus :: gdbFrame (ascii "OK"), lastTarget := false }

theorem gdbMainRound_answers_detach :
    ∃ packet sent rest, gdbGetpacket bufSize (ascii "$D#44+") = some (packet, sent, rest) ∧
      lostServer.session =
        (detachedServer (ascii "$D#44+")).session.step (sessionEvent (packetBuffer .zero packet)) ∧
      if Unanswered (packetBuffer .zero packet) then
        lostServer.output = (detachedServer (ascii "$D#44+")).output ++ sent ∧
          ∃ skipped, rest = skipped ++ lostServer.input
      else ∃ payload skipped nacks reply, rest = skipped ++ nacks ++ reply :: lostServer.input ∧
        lostServer.output = (detachedServer (ascii "$D#44+")).output ++ sent ++
          (List.replicate (nacks.length + 1) (gdbFrame payload)).flatten ∧
        (∀ c ∈ nacks, c ≠ plus) ∧ nacks.length ≤ 3 ∧ (reply = plus ∨ nacks.length = 3) := by
  have hround : gdbMainRound deadLink .zero (detachedServer (ascii "$D#44+")) =
      .ok lostServer := rfl
  exact gdbMainRound_answers .zero _ _ hround

theorem roundStep_session {s t : GdbServer σ} {r : Round} (h : roundStep interface s r = some t) :
    t.session = s.session.step (sessionEvent r.pbuf) := by
  unfold roundStep at h
  split_ifs at h with hpacket
  have hround : gdbMainRound interface r.left s = .ok t := by
    cases hx : gdbMainRound interface r.left s with
    | error e => rw [hx] at h; contradiction
    | ok t' => rw [hx] at h; exact congrArg Except.ok (Option.some.inj h)
  obtain ⟨packet, sent, rest, hget, hswitch⟩ := gdbMainRound_ok hround
  rw [hget] at hpacket
  obtain rfl : packet = r.packet := Option.some.inj hpacket
  exact (gdbSwitch_handled hswitch).1

/-- The events of a run. -/
def sessionEvents (rs : List Round) : List SessionEvent := rs.map fun r => sessionEvent r.pbuf

/-- The session after a run is that of the automaton. -/
def sessionAfter (s : GdbSession) (rs : List Round) : GdbSession :=
  (sessionEvents rs).foldl GdbSession.step s

theorem run_session {ok : GdbServer σ → Round → Prop} {s t : GdbServer σ} {rs : List Round}
    (h : Run (roundStep interface) ok s rs t) : t.session = sessionAfter s.session rs := by
  induction h with
  | start => rfl
  | snoc _ _ hstep ih =>
    rw [roundStep_session hstep, ih]
    simp only [sessionAfter, sessionEvents, List.map_append, List.foldl_append]
    rfl

/-- A cut of the events is a cut of the run. -/
theorem sessionEvents_eq {rs : List Round} {front back : List SessionEvent} {e : SessionEvent}
    (h : sessionEvents rs = front ++ e :: back) : ∃ front' r back', rs = front' ++ r :: back' ∧
      sessionEvents front' = front ∧ sessionEvent r.pbuf = e ∧ sessionEvents back' = back := by
  obtain ⟨front', tail, rfl, hfront, htail⟩ := List.map_eq_append_iff.mp h
  obtain ⟨r, back', rfl, hr, hback⟩ := List.map_eq_cons_iff.mp htail
  exact ⟨front', r, back', rfl, hfront, hr, hback⟩

end

/-- No target is selected, and none is remembered. -/
def GdbSession.Lost (s : GdbSession) : Prop := s.curTarget = false ∧ s.lastTarget = false

/-- A detach without a selected target forgets the last one, and an attach to a target that is not
there gives up the selected one. -/
def GdbSession.Loses (s : GdbSession) (event : SessionEvent) : Prop :=
  (event = .detach ∧ s.curTarget = false) ∨ (event = .attach false ∧ s.lastTarget = false)

theorem GdbSession.lost_latch :
    Latch GdbSession.step GdbSession.Lost GdbSession.Loses (fun _ e => e = .attach true) := by
  constructor
  intro s event
  obtain ⟨cur, last, controller, single⟩ := s
  unfold GdbSession.Lost GdbSession.Loses
  cases event with
  | detach => cases cur <;> cases last <;> simp [GdbSession.step]
  | kill => cases cur <;> cases last <;> simp [GdbSession.step]
  | reattach => cases cur <;> cases last <;> cases controller <;> simp [GdbSession.step]
  | attach present => cases present <;> cases cur <;> cases last <;> simp [GdbSession.step]
  | resume step => cases cur <;> cases last <;> simp [GdbSession.step]
  | other => cases cur <;> cases last <;> simp [GdbSession.step]

/-- In every run that starts with a target: none is selected or remembered at its end exactly when a
packet lost it and none has attached to it since. -/
theorem run_lost_iff {σ : Type} {interface : TargetInterface σ} (s t : GdbServer σ)
    (rs : List Round) (h : Run (roundStep interface) anyStep s rs t) (hstart : ¬ s.session.Lost) :
    t.session.Lost ↔ ∃ front r back, rs = front ++ r :: back ∧
      (sessionAfter s.session front).Loses (sessionEvent r.pbuf) ∧
      ∀ r' ∈ back, sessionEvent r'.pbuf ≠ .attach true := by
  rw [run_session h, sessionAfter, GdbSession.lost_latch.foldl_iff]
  constructor
  · rintro (⟨hlost, -⟩ | ⟨front, e, back, heq, hloses, hkept⟩)
    · contradiction
    · obtain ⟨front, r, back, rfl, rfl, rfl, rfl⟩ := sessionEvents_eq heq
      refine ⟨front, r, back, rfl, hloses, ?_⟩
      intro r' hr'
      exact (kept_iff_forall _ _).mp hkept _ (List.mem_map_of_mem hr')
  · rintro ⟨front, r, back, rfl, hloses, hback⟩
    refine .inr ⟨sessionEvents front, sessionEvent r.pbuf, sessionEvents back, ?_, hloses, ?_⟩
    · exact List.map_append
    · apply (kept_iff_forall _ _).mpr
      intro e he
      obtain ⟨r', hr', rfl⟩ := List.mem_map.mp he
      exact hback r' hr'

theorem run_lost_iff_detach : lostServer.session.Lost ↔
    ∃ front r back, [(⟨.zero, ascii "D"⟩ : Round)] = front ++ r :: back ∧
      (sessionAfter (detachedServer (ascii "$D#44+")).session front).Loses (sessionEvent r.pbuf) ∧
      ∀ r' ∈ back, sessionEvent r'.pbuf ≠ .attach true := by
  have hstep : roundStep deadLink (detachedServer (ascii "$D#44+")) ⟨.zero, ascii "D"⟩ =
      some lostServer := rfl
  have hstart : ¬ (detachedServer (ascii "$D#44+")).session.Lost := by
    rintro ⟨-, hlast⟩
    contradiction
  exact run_lost_iff (detachedServer (ascii "$D#44+")) lostServer [⟨.zero, ascii "D"⟩]
    (.snoc .start trivial hstep) hstart

/-- A step was asked for while no target was selected. -/
def GdbSession.LeavesStep (s : GdbSession) (event : SessionEvent) : Prop :=
  event = .resume true ∧ s.curTarget = false

/-- A target was there to be resumed. -/
def GdbSession.Resumes (s : GdbSession) (event : SessionEvent) : Prop :=
  (∃ step, event = .resume step) ∧ s.curTarget = true

theorem GdbSession.singleStep_latch :
    Latch GdbSession.step (fun s => s.singleStep = true) GdbSession.LeavesStep
      GdbSession.Resumes := by
  constructor
  intro s event
  obtain ⟨cur, last, controller, single⟩ := s
  unfold GdbSession.LeavesStep GdbSession.Resumes
  cases event with
  | detach => simp [GdbSession.step]
  | kill => cases cur <;> simp [GdbSession.step]
  | reattach => cases cur <;> cases last <;> simp [GdbSession.step]
  | attach present => cases present <;> simp [GdbSession.step]
  | resume step => cases cur <;> cases step <;> cases single <;> simp [GdbSession.step]
  | other => simp [GdbSession.step]

/-- In every run of the loop: `single_step` is left set, so that the next `c` steps, exactly when an
`s` found no target and no `s` or `c` has found one since. -/
theorem run_singleStep_iff {σ : Type} {interface : TargetInterface σ} (s t : GdbServer σ)
    (rs : List Round) (h : Run (roundStep interface) anyStep s rs t)
    (hstart : s.singleStep = false) :
    t.singleStep = true ↔ ∃ front r back, rs = front ++ r :: back ∧
      (sessionAfter s.session front).LeavesStep (sessionEvent r.pbuf) ∧
      ∀ front' r' back', back = front' ++ r' :: back' →
        ¬ (sessionAfter s.session (front ++ r :: front')).Resumes (sessionEvent r'.pbuf) := by
  have hsession : t.singleStep = (sessionAfter s.session rs).singleStep :=
    congrArg GdbSession.singleStep (run_session h)
  have hafter : ∀ front r front', sessionAfter s.session (front ++ r :: front') =
      (sessionEvents front').foldl GdbSession.step
        ((sessionAfter s.session front).step (sessionEvent r.pbuf)) := by
    intro front r front'
    simp only [sessionAfter, sessionEvents, List.map_append, List.foldl_append]
    rfl
  rw [hsession, sessionAfter, GdbSession.singleStep_latch.foldl_iff]
  constructor
  · rintro (⟨hset, -⟩ | ⟨front, e, back, heq, hleaves, hkept⟩)
    · have hunset : s.session.singleStep = false := hstart
      rw [hunset] at hset
      contradiction
    · obtain ⟨front, r, back, rfl, rfl, rfl, rfl⟩ := sessionEvents_eq heq
      refine ⟨front, r, back, rfl, hleaves, ?_⟩
      rintro front' r' back' rfl
      rw [hafter]
      exact hkept (sessionEvents front') _ (sessionEvents back') List.map_append
  · rintro ⟨front, r, back, rfl, hleaves, hback⟩
    refine .inr ⟨sessionEvents front, sessionEvent r.pbuf, sessionEvents back, ?_, hleaves, ?_⟩
    · exact List.map_append
    · intro front' e back' heq
      obtain ⟨front', r', back', rfl, rfl, rfl, -⟩ := sessionEvents_eq heq
      have hnot := hback front' r' back' rfl
      rwa [hafter] at hnot

/-- What a step order leaves of the detached server. -/
def steppedServer : GdbServer Unit :=
  { detachedServer [] with output := plus :: gdbFrame (ascii "X1D"), singleStep := true }

theorem run_singleStep_iff_step : steppedServer.singleStep = true ↔
    ∃ front r back, [(⟨.zero, ascii "s"⟩ : Round)] = front ++ r :: back ∧
      (sessionAfter (detachedServer (ascii "$s#73+")).session front).LeavesStep
        (sessionEvent r.pbuf) ∧
      ∀ front' r' back', back = front' ++ r' :: back' →
        ¬ (sessionAfter (detachedServer (ascii "$s#73+")).session (front ++ r :: front')).Resumes
          (sessionEvent r'.pbuf) := by
  have hstep : roundStep deadLink (detachedServer (ascii "$s#73+")) ⟨.zero, ascii "s"⟩ =
      some steppedServer := rfl
  exact run_singleStep_iff (detachedServer (ascii "$s#73+")) steppedServer [⟨.zero, ascii "s"⟩]
    (.snoc .start trivial hstep) rfl

end BluePill
