import BluePill.Host.CallRuns

/-! The calls over a cable on which reads fail. A reply that has not been read stays in the IN
endpoint, and the device drops its next replies until then. Each reply bears the number of the
exchange it was computed in; no code reads it. -/
namespace BluePill
open Lib

/-- One exchange: the packet, what the host got, and the number of the exchange for whose packet
the firmware computed it. -/
structure Delivery where
  packet : List UInt8
  reply : List UInt8
  origin : Option ℕ
  deriving DecidableEq, Repr

/-- The device, none once its callback has not returned, the reply in its IN endpoint with its
number, and the exchanges so far. -/
structure LossyLink where
  device : Option Device
  waiting : Option (ℕ × List UInt8)
  log : List Delivery

namespace LossyLink

def start (d : Device) : LossyLink := ⟨some d, none, []⟩

/-- The callback handles a packet. A reply that waits keeps its number. -/
def handle (between : ℕ → Device → Device) (packet : List UInt8) (l : LossyLink) :
    Option Device × Option (ℕ × List UInt8) :=
  match l.device with
  | none => (none, l.waiting)
  | some d =>
    match usbDataOutCallback packet
        { between l.log.length d with inEndpoint := l.waiting.map Prod.snd } with
    | .ok e =>
      (some e, e.inEndpoint.map fun reply => ((l.waiting.map Prod.fst).getD l.log.length, reply))
    | .error _ => (none, l.waiting)

end LossyLink

/-- The read of exchange `k` fails when `fails k` says so. Before its packet arrives the target
does what `between k` says. -/
def lossyLink (fails : ℕ → Bool) (between : ℕ → Device → Device) : TargetInterface LossyLink where
  writePacket packet l :=
    let (device, waiting) := l.handle between packet
    (packet.length, ⟨device, waiting, l.log ++ [⟨packet, [], none⟩]⟩)
  readPacket size l :=
    if fails (l.log.length - 1) then ([], l)
    else
      match l.waiting with
      | none => ([], l)
      | some (k, reply) =>
        (reply.take size, ⟨l.device, none, l.log.dropLast ++ (l.log.getLast?.map fun e =>
          { e with reply := reply.take size, origin := some k }).toList⟩)

/-- `j` is the first of the exchanges right before `i` whose reads all failed; it is `i` when the
read before `i` got through. -/
structure UnreadSince (fails : ℕ → Bool) (j i : ℕ) : Prop where
  le : j ≤ i
  failed : ∀ k, j ≤ k → k < i → fails k = true
  before : ∀ k, j = k + 1 → fails k = false

/-- The reply was computed for the packet of exchange `j`, the first that went unread. -/
structure ComputedFor (fails : ℕ → Bool) (log : List Delivery) (i j : ℕ) (reply : List UInt8) :
    Prop where
  unread : UnreadSince fails j i
  packet : ∃ p, log[j]? = some p ∧ echoedBytes reply = echoedBytes p.packet

/-- What every exchange keeps. -/
structure LossyLink.Tagged (fails : ℕ → Bool) (l : LossyLink) : Prop where
  waiting : ∀ j reply, l.waiting = some (j, reply) →
    ComputedFor fails l.log l.log.length j (reply.take 64)
  /-- After a failed read the endpoint of a device at work holds a reply. -/
  free : l.waiting = none → l.device.isSome = true → ∀ k, l.log.length = k + 1 → fails k = false

variable {fails : ℕ → Bool} {between : ℕ → Device → Device}

theorem UnreadSince.self {i : ℕ} (h : ∀ k, i = k + 1 → fails k = false) : UnreadSince fails i i :=
  ⟨le_rfl, fun _ hle hlt => absurd hle (not_le.mpr hlt), h⟩

theorem UnreadSince.succ {j i : ℕ} (h : UnreadSince fails j i) (hi : fails i = true) :
    UnreadSince fails j (i + 1) := by
  refine ⟨h.le.trans i.le_succ, fun k hle hlt => ?_, h.before⟩
  rcases Nat.lt_succ_iff_lt_or_eq.mp hlt with hlt | rfl
  · exact h.failed k hle hlt
  · exact hi

/-- The packet is that of the exchange itself unless the read before it failed. -/
theorem UnreadSince.eq_iff {j i : ℕ} (h : UnreadSince fails j i) :
    j = i ↔ ∀ k, i = k + 1 → fails k = false := by
  constructor
  · rintro rfl
    exact h.before
  · intro hread
    by_contra hne
    have hlt : j < i := lt_of_le_of_ne h.le hne
    have hfailed := h.failed (i - 1) (by omega) (by omega)
    rw [hread (i - 1) (by omega)] at hfailed
    cases hfailed

/-- The reply that waited still waits; else a reply to this packet does, unless the callback did
not return. -/
theorem LossyLink.handle_spec (between : ℕ → Device → Device) {packet : List UInt8}
    (l : LossyLink) (hne : packet ≠ [])
    (hlen : packet.length ≤ 64) :
    (∃ w, l.waiting = some w ∧ (l.handle between packet).2 = some w) ∨
    l.waiting = none ∧ l.device.isSome = true ∧ (∃ reply,
      (l.handle between packet).2 = some (l.log.length, reply) ∧
        echoedBytes (reply.take 64) = echoedBytes packet) ∨
    l.waiting = none ∧ (l.handle between packet) = (none, none) := by
  unfold handle
  rcases hdev : l.device with _ | d
  · rcases hwait : l.waiting with _ | w
    · exact .inr (.inr ⟨rfl, rfl⟩)
    · exact .inl ⟨w, rfl, rfl⟩
  · simp only
    rcases hcall : usbDataOutCallback packet
        { between l.log.length d with inEndpoint := l.waiting.map Prod.snd } with fault | e
    · rcases hwait : l.waiting with _ | w
      · exact .inr (.inr ⟨rfl, rfl⟩)
      · exact .inl ⟨w, rfl, rfl⟩
    · obtain ⟨reply, hreply, hecho⟩ := usbDataOutCallback_echoes hne hlen hcall
      simp only [hreply]
      rcases hwait : l.waiting with _ | w
      · exact .inr (.inl ⟨rfl, rfl, reply, rfl, hecho⟩)
      · exact .inl ⟨w, rfl, rfl⟩

/-- The reply that waits once the packet has been handled. -/
theorem LossyLink.Tagged.handle {l : LossyLink} (hl : l.Tagged fails) {packet : List UInt8}
    (hne : packet ≠ []) (hlen : packet.length ≤ 64) {j : ℕ} {reply : List UInt8}
    (hwait : (l.handle between packet).2 = some (j, reply)) (got : List UInt8) (o : Option ℕ) :
    ComputedFor fails (l.log ++ [⟨packet, got, o⟩]) l.log.length j (reply.take 64) := by
  rcases l.handle_spec between hne hlen with
    ⟨w, hold, hkept⟩ | ⟨hnone, hdev, fresh, hfresh, hecho⟩ | ⟨-, hstuck⟩
  · rw [hkept] at hwait
    obtain rfl := Option.some.inj hwait
    obtain ⟨hunread, p, hp, hecho⟩ := hl.waiting j reply hold
    exact ⟨hunread, p, List.getElem?_append_left (List.getElem?_eq_some_iff.mp hp).1 ▸ hp, hecho⟩
  · rw [hfresh] at hwait
    obtain ⟨rfl, rfl⟩ := Prod.mk.inj (Option.some.inj hwait)
    exact ⟨.self (hl.free hnone hdev), ⟨packet, got, o⟩, List.getElem?_concat_length, hecho⟩
  · rw [hstuck] at hwait
    cases hwait

/-- What an exchange brings, adds to the log and leaves in the endpoint. -/
inductive LossyLink.Exchanged (fails : ℕ → Bool) (between : ℕ → Device → Device)
    (packet : List UInt8) (l : LossyLink) : List UInt8 × LossyLink → Prop
  | unread (hfails : fails l.log.length = true) : Exchanged fails between packet l
      ([], ⟨(l.handle between packet).1, (l.handle between packet).2,
        l.log ++ [⟨packet, [], none⟩]⟩)
  | empty (hreads : fails l.log.length = false) (hnone : (l.handle between packet).2 = none) :
      Exchanged fails between packet l
        ([], ⟨(l.handle between packet).1, none, l.log ++ [⟨packet, [], none⟩]⟩)
  | read {j : ℕ} {reply : List UInt8} (hreads : fails l.log.length = false)
      (hwait : (l.handle between packet).2 = some (j, reply)) :
      Exchanged fails between packet l (reply.take 64,
        ⟨(l.handle between packet).1, none, l.log ++ [⟨packet, reply.take 64, some j⟩]⟩)

variable (fails between) in
theorem exchange_lossyLink (packet : List UInt8) (l : LossyLink) :
    LossyLink.Exchanged fails between packet l (exchange (lossyLink fails between) packet l) := by
  have hlast : (l.log ++ [(⟨packet, [], none⟩ : Delivery)]).length - 1 = l.log.length := by simp
  unfold exchange lossyLink
  simp only [ne_eq, not_true_eq_false, if_false, hlast]
  by_cases hfails : fails l.log.length = true
  · rw [if_pos hfails]
    exact .unread hfails
  · have hreads : fails l.log.length = false := Bool.eq_false_iff.mpr hfails
    rw [if_neg hfails]
    rcases hwait : (l.handle between packet).2 with _ | ⟨j, reply⟩
    · exact .empty hreads hwait
    · simp only [List.dropLast_concat, List.getLast?_concat, Option.map_some, Option.toList_some,
        List.take_take, min_self]
      exact .read hreads hwait

theorem LossyLink.tagged_start (d : Device) : (start d).Tagged fails := by
  refine ⟨fun j reply hwait => ?_, fun _ _ k hk => ?_⟩
  · cases hwait
  · cases hk

theorem LossyLink.Tagged.exchange {l : LossyLink} (hl : l.Tagged fails) {packet : List UInt8}
    (hne : packet ≠ []) (hlen : packet.length ≤ 64) :
    (exchange (lossyLink fails between) packet l).2.Tagged fails := by
  have hnext : ∀ e : Delivery, (l.log ++ [e]).length = l.log.length + 1 := fun e => by simp
  generalize hx : BluePill.exchange (lossyLink fails between) packet l = r
  have hcases := hx ▸ exchange_lossyLink fails between packet l
  cases hcases with
  | unread hfails =>
    constructor
    · intro j reply hwait
      obtain ⟨hunread, hpacket⟩ := hl.handle hne hlen hwait [] none
      simp only [hnext]
      exact ⟨hunread.succ hfails, hpacket⟩
    · -- a device that is still at work has left a reply in the endpoint
      intro hnone hdev
      rcases l.handle_spec between hne hlen with
        ⟨w, -, hkept⟩ | ⟨-, -, fresh, hfresh, -⟩ | ⟨-, hstuck⟩
      · simp only [hkept] at hnone
        cases hnone
      · simp only [hfresh] at hnone
        cases hnone
      · simp only [hstuck] at hdev
        cases hdev
  | empty hreads _ =>
    refine ⟨fun j reply hwait => ?_, fun _ _ k hk => ?_⟩
    · cases hwait
    · simp only [hnext] at hk
      rw [← Nat.succ.inj hk, hreads]
  | read hreads _ =>
    refine ⟨fun j reply hwait => ?_, fun _ _ k hk => ?_⟩
    · cases hwait
    · simp only [hnext] at hk
      rw [← Nat.succ.inj hk, hreads]

theorem tagged_of_calls {d : Device} {f g : Frame} {h : Host LossyLink}
    (hcalls : (⟨f, g, LossyLink.start d⟩ : Host LossyLink).Calls (lossyLink fails between) h) :
    h.link.Tagged fails :=
  hcalls.invariant (I := LossyLink.Tagged fails)
    (fun _ _ hne hlen hl => hl.exchange hne hlen) (LossyLink.tagged_start d)

/-- Whenever a call accepts a reply, the firmware computed it for the packet of that call. -/
def OwnReplies (fails : ℕ → Bool) (between : ℕ → Device → Device) (d : Device) : Prop :=
  ∀ (f g : Frame) (h h' : Host LossyLink) (accepts : Prop),
    (⟨f, g, LossyLink.start d⟩ : Host LossyLink).Calls (lossyLink fails between) h →
    h.Exchanges (lossyLink fails between) h' accepts → accepts →
    ∃ e, h'.link.log = h.link.log ++ [e] ∧ e.origin = some h.link.log.length

/-- A reply that a call accepts was computed for the first packet that has gone unread: the
call's own one exactly when the read before got through, else one with the same echoed bytes. -/
theorem acceptedReply_computedFor (fails : ℕ → Bool) (between : ℕ → Device → Device) (d : Device)
    (f g : Frame) {h h' : Host LossyLink} {accepts : Prop}
    (hcalls : (⟨f, g, LossyLink.start d⟩ : Host LossyLink).Calls (lossyLink fails between) h)
    (hx : h.Exchanges (lossyLink fails between) h' accepts) (haccepts : accepts) :
    ∃ e j, h'.link.log = h.link.log ++ [e] ∧ e.origin = some j ∧
      UnreadSince fails j h.link.log.length ∧
      (j = h.link.log.length ↔ ∀ k, h.link.log.length = k + 1 → fails k = false) ∧
      ∃ p, h'.link.log[j]? = some p ∧ echoedBytes p.packet = echoedBytes e.packet := by
  have htagged := tagged_of_calls hcalls
  obtain ⟨p, n, out, reply, l, hmake, hn, hexchange, rfl, hiff⟩ := hx
  have haccept := hiff.mp haccepts
  obtain ⟨hne, hlen⟩ := out.take_packet hn
  have hcases := hexchange ▸ exchange_lossyLink fails between (out.val.take n) h.link
  cases hcases with
  | unread _ => exact absurd rfl (ne_nil_of_accepts haccept)
  | empty _ _ => exact absurd rfl (ne_nil_of_accepts haccept)
  | @read j reply hreads hwait =>
    obtain ⟨hunread, q, hq, hecho⟩ := htagged.handle hne hlen hwait (reply.take 64) (some j)
    exact ⟨_, j, rfl, rfl, hunread, hunread.eq_iff, q, hq,
      hecho.symm.trans (echoedBytes_of_accepts haccept)⟩

/-- A cable on which only the first read fails. -/
def firstReadFails : TargetInterface LossyLink := lossyLink (fun k => k == 0) fun _ d => d

/-- The host after one more `resetHaltResume(GetState)`. -/
def Host.pollState (h : Host LossyLink) : Host LossyLink :=
  match TargetSTM32F1.resetHaltResume firstReadFails .getState h with
  | .ok (_, h) => h
  | .error _ => h

def freshHost : Host LossyLink := ⟨.zero, .zero, .start (.initial blankMemory bootSymbols)⟩

theorem pollState_unread : TargetSTM32F1.resetHaltResume firstReadFails .getState freshHost =
    .ok (none, freshHost.pollState) := rfl

theorem pollState_accepts :
    TargetSTM32F1.resetHaltResume firstReadFails .getState freshHost.pollState =
      .ok (some 0, freshHost.pollState.pollState) := rfl

theorem acceptedReply_computedFor_poll :
    ∃ e j, freshHost.pollState.pollState.link.log = freshHost.pollState.link.log ++ [e] ∧
      e.origin = some j ∧
      UnreadSince (fun k => k == 0) j freshHost.pollState.link.log.length ∧
      (j = freshHost.pollState.link.log.length ↔
        ∀ k, freshHost.pollState.link.log.length = k + 1 → (k == 0) = false) ∧
      ∃ p, freshHost.pollState.pollState.link.log[j]? = some p ∧
        echoedBytes p.packet = echoedBytes e.packet :=
  acceptedReply_computedFor (fun k => k == 0) (fun _ d => d) _ .zero .zero
    (.next .start (resetHaltResume_exchanges pollState_unread))
    (resetHaltResume_exchanges pollState_accepts) rfl

/-- The second call accepts the state that was the answer to the first. -/
theorem not_ownReplies :
    ¬ OwnReplies (fun k => k == 0) (fun _ d => d) (.initial blankMemory bootSymbols) := by
  intro hown
  obtain ⟨e, hlog, horigin⟩ := hown .zero .zero freshHost.pollState freshHost.pollState.pollState _
    (.next .start (resetHaltResume_exchanges pollState_unread))
    (resetHaltResume_exchanges pollState_accepts) rfl
  have hbefore : freshHost.pollState.link.log = [⟨[4, 5, 0, 0], [], none⟩] := rfl
  have hafter : freshHost.pollState.pollState.link.log =
      [⟨[4, 5, 0, 0], [], none⟩, ⟨[4, 5, 0, 0], [4, 5, 0, 0], some 0⟩] := rfl
  rw [hbefore, hafter] at hlog
  obtain rfl : ⟨[4, 5, 0, 0], [4, 5, 0, 0], some 0⟩ = e := by simpa using hlog
  rw [hbefore] at horigin
  exact absurd horigin (by decide)

end BluePill
