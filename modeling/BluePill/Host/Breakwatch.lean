import BluePill.Host.BreakpointLists

/-! The breakpoints of `target.c` and their adapter in `TargetsInit.cpp`. The list of a target is a
chain of nodes; the adapter is handed a node and follows its link. -/
namespace BluePill
open Lib

/-- `struct breakwatch` without its link: a list of them is a chain. -/
@[ext] structure Breakwatch where
  type : UInt32
  addr : UInt32
  size : UInt32
  deriving DecidableEq, Repr

/-- The entry that the adapter makes of a node. -/
def Breakwatch.breakpoint (bw : Breakwatch) : Breakpoint :=
  ⟨bw.addr, bw.type.toUInt8, bw.size.toUInt8, 0⟩

/-- The virtual call `breakpointsSetClear` of a device in the state `σ`. -/
abbrev SetClear (σ : Type) := List Breakpoint → Bool → σ → Except Fault (ℕ × σ)

variable {σ : Type}

/-- The body that both calls share: every node from `bw` on goes into a vector of `capacity`
entries. What the device returns is dropped. -/
def stm32Breakwatch (device : SetClear σ) (capacity : ℕ) (set : Bool) (bw : List Breakwatch) (s : σ) :
    Except Fault (ℤ × σ) := do
  if bw.length > capacity then throw .outOfBounds
  let (_, s) ← device (bw.map Breakwatch.breakpoint) set s
  return (if bw.length > 0 then 0 else -1, s)

def stm32BreakwatchSet (device : SetClear σ) := stm32Breakwatch device 32 true

def stm32BreakwatchClear (device : SetClear σ) := stm32Breakwatch device 128 false

/-- The new node has no link while it is set. -/
def targetBreakwatchSet (device : SetClear σ) (type addr len : UInt32) (t : List Breakwatch × σ) :
    Except Fault (ℤ × List Breakwatch × σ) := do
  let (bwList, s) := t
  let bw : Breakwatch := ⟨type, addr, len⟩
  let (ret, s) ← stm32BreakwatchSet device [bw] s
  return (ret, if ret = 0 then bw :: bwList else bwList, s)

/-- The node found is handed on as it is linked. -/
def targetBreakwatchClear (device : SetClear σ) (type addr len : UInt32) (t : List Breakwatch × σ) :
    Except Fault (ℤ × List Breakwatch × σ) :=
  let (bwList, s) := t
  let found := fun bw : Breakwatch => bw.type = type ∧ bw.addr = addr ∧ bw.size = len
  let before := bwList.takeWhile fun bw => ¬ found bw
  match bwList.dropWhile fun bw => ¬ found bw with
  | [] => .ok (-1, bwList, s)
  | bw :: next => do
    let (ret, s) ← stm32BreakwatchClear device (bw :: next) s
    return (ret, if ret = 0 then before ++ next else bwList, s)

inductive BreakwatchCall
  | set (bw : Breakwatch)
  | clear (bw : Breakwatch)
  deriving DecidableEq, Repr

def BreakwatchCall.run (device : SetClear σ) (call : BreakwatchCall) (t : List Breakwatch × σ) :
    Except Fault (List Breakwatch × σ) := do
  let (_, t) ← match call with
    | .set bw => targetBreakwatchSet device bw.type bw.addr bw.size t
    | .clear bw => targetBreakwatchClear device bw.type bw.addr bw.size t
  return t

/-- What the device has been asked. -/
structure BreakpointRequest where
  set : Bool
  breakpoints : List Breakpoint
  deriving DecidableEq, Repr

/-- A device, whatever it answers, with a log of its requests. -/
def asked (device : List Breakpoint → Bool → σ → ℕ × σ) : SetClear (σ × List BreakpointRequest) :=
  fun breakpoints set s =>
    let (n, d) := device breakpoints set s.1
    .ok (n, d, s.2 ++ [⟨set, breakpoints⟩])

/-- The addresses set and not cleared since. -/
def requested (requests : List BreakpointRequest) : Finset UInt32 :=
  requests.foldl (fun s r =>
    let addresses := (r.breakpoints.map Breakpoint.address).toFinset
    if r.set then s ∪ addresses else s \ addresses) ∅

def addressesOf (bwList : List Breakwatch) : Finset UInt32 := (bwList.map Breakwatch.addr).toFinset

/-- A clear asks for the one breakpoint that it removes, and the device has been asked for the
breakpoints of the list. -/
structure ClearsThatOne (call : BreakwatchCall)
    (t t' : List Breakwatch × σ × List BreakpointRequest) : Prop where
  asks : ∀ bw, call = .clear bw → bw ∈ t.1 →
    t'.1 = t.1.erase bw ∧ t'.2.2 = t.2.2 ++ [⟨false, [bw.breakpoint]⟩]
  agrees : requested t'.2.2 = addressesOf t'.1

/-- The list after a call. -/
def BreakwatchCall.after (call : BreakwatchCall) (bwList : List Breakwatch) : List Breakwatch :=
  match call with
  | .set bw => bw :: bwList
  | .clear bw => bwList.erase bw

/-- A breakpoint that is cleared is the last of the list, the oldest, and no other has its
address. -/
def Isolated (call : BreakwatchCall) (bwList : List Breakwatch) : Prop :=
  ∀ bw, call = .clear bw → bw ∈ bwList →
    ∃ before, bwList = before ++ [bw] ∧ ∀ b ∈ before, b.addr ≠ bw.addr

theorem requested_append (requests : List BreakpointRequest) (r : BreakpointRequest) :
    requested (requests ++ [r]) =
      if r.set then requested requests ∪ (r.breakpoints.map Breakpoint.address).toFinset
      else requested requests \ (r.breakpoints.map Breakpoint.address).toFinset := by
  unfold requested
  rw [List.foldl_append]
  rfl

theorem map_address_breakpoint (bws : List Breakwatch) :
    ((bws.map Breakwatch.breakpoint).map Breakpoint.address).toFinset = addressesOf bws := by
  rw [List.map_map]
  rfl

theorem addressesOf_append (before next : List Breakwatch) :
    addressesOf (before ++ next) = addressesOf before ∪ addressesOf next := by
  unfold addressesOf
  rw [List.map_append, List.toFinset_append]

theorem same_iff {b bw : Breakwatch} :
    (b.type = bw.type ∧ b.addr = bw.addr ∧ b.size = bw.size) ↔ b = bw :=
  Breakwatch.ext_iff.symm

section
variable (device : List Breakpoint → Bool → σ → ℕ × σ) {l : List Breakwatch} {bw : Breakwatch}
  {s : σ} {requests : List BreakpointRequest}

theorem run_set (l : List Breakwatch) (bw : Breakwatch) (s : σ)
    (requests : List BreakpointRequest) :
    ∃ s', (BreakwatchCall.set bw).run (asked device) (l, s, requests) =
      .ok (bw :: l, s', requests ++ [⟨true, [bw.breakpoint]⟩]) :=
  ⟨_, rfl⟩

theorem run_clear_absent (s : σ) (requests : List BreakpointRequest) (h : bw ∉ l) :
    (BreakwatchCall.clear bw).run (asked device) (l, s, requests) = .ok (l, s, requests) := by
  have hnone : (l.dropWhile fun b => ¬ (b.type = bw.type ∧ b.addr = bw.addr ∧ b.size = bw.size)) =
      [] := by
    rw [List.dropWhile_eq_nil_iff]
    intro b hb
    apply decide_eq_true
    rw [same_iff]
    exact fun heq => h (heq ▸ hb)
  unfold BreakwatchCall.run targetBreakwatchClear
  simp only [hnone]
  rfl

/-- The device is asked for every node from the one removed on. -/
theorem run_clear_found (s : σ) (requests : List BreakpointRequest) {before : List Breakwatch}
    (next : List Breakwatch) (hnot : bw ∉ before) :
    (next.length < 128 → ∃ s', (BreakwatchCall.clear bw).run (asked device)
      (before ++ bw :: next, s, requests) = .ok (before ++ next, s',
        requests ++ [⟨false, (bw :: next).map Breakwatch.breakpoint⟩])) ∧
    (128 ≤ next.length → (BreakwatchCall.clear bw).run (asked device)
      (before ++ bw :: next, s, requests) = .error .outOfBounds) := by
  have hother : ∀ b ∈ before,
      decide (¬ (b.type = bw.type ∧ b.addr = bw.addr ∧ b.size = bw.size)) = true := by
    intro b hb
    apply decide_eq_true
    rw [same_iff]
    exact fun heq => hnot (heq ▸ hb)
  have hdrop : ((before ++ bw :: next).dropWhile fun b =>
      ¬ (b.type = bw.type ∧ b.addr = bw.addr ∧ b.size = bw.size)) = bw :: next := by
    rw [List.dropWhile_append_of_pos hother]
    simp
  have htake : ((before ++ bw :: next).takeWhile fun b =>
      ¬ (b.type = bw.type ∧ b.addr = bw.addr ∧ b.size = bw.size)) = before := by
    rw [List.takeWhile_append_of_pos hother]
    simp
  constructor
  · intro hlen
    refine ⟨(device ((bw :: next).map Breakwatch.breakpoint) false s).2, ?_⟩
    unfold BreakwatchCall.run targetBreakwatchClear
    simp only [hdrop, htake]
    unfold stm32BreakwatchClear stm32Breakwatch
    rw [if_neg (by
      rw [List.length_cons]
      omega)]
    rfl
  · intro hlen
    unfold BreakwatchCall.run targetBreakwatchClear
    simp only [hdrop, htake]
    unfold stm32BreakwatchClear stm32Breakwatch
    rw [if_pos (by
      rw [List.length_cons]
      omega)]
    rfl

theorem run_list {call : BreakwatchCall} {t t' : List Breakwatch × σ × List BreakpointRequest}
    (h : call.run (asked device) t = .ok t') : t'.1 = call.after t.1 := by
  obtain ⟨l, s, requests⟩ := t
  cases call with
  | set bw =>
    obtain ⟨s', hrun⟩ := run_set device l bw s requests
    rw [hrun] at h
    rw [← Except.ok.inj h]
    rfl
  | clear bw =>
    show t'.1 = l.erase bw
    by_cases hmem : bw ∈ l
    · obtain ⟨before, next, rfl, hnot⟩ := List.eq_append_cons_of_mem hmem
      obtain ⟨hruns, hfaults⟩ := run_clear_found device s requests next hnot
      rcases lt_or_ge next.length 128 with hlen | hlen
      · obtain ⟨s', hrun⟩ := hruns hlen
        rw [hrun] at h
        rw [← Except.ok.inj h, List.erase_append_right _ hnot, List.erase_cons_head]
      · rw [hfaults hlen] at h
        cases h
    · rw [run_clear_absent device s requests hmem] at h
      rw [← Except.ok.inj h, List.erase_of_not_mem hmem]

/-- One call meets the claim on its list if it is isolated in it, and otherwise it does not. -/
theorem clearsThatOne_iff {call : BreakwatchCall} (h : requested requests = addressesOf l) :
    (∃ t', call.run (asked device) (l, s, requests) = .ok t' ∧
      ClearsThatOne call (l, s, requests) t') ↔ Isolated call l := by
  cases call with
  | set bw =>
    obtain ⟨s', hrun⟩ := run_set device l bw s requests
    have hset (b : Breakwatch) : BreakwatchCall.set bw ≠ .clear b := fun heq => by cases heq
    apply iff_of_true
    · refine ⟨_, hrun, fun b hb => absurd hb (hset b), ?_⟩
      show requested (requests ++ [_]) = addressesOf ([bw] ++ l)
      rw [requested_append, if_pos rfl, h, addressesOf_append, Finset.union_comm]
      rfl
    · exact fun b hb => absurd hb (hset b)
  | clear bw =>
    by_cases hmem : bw ∈ l
    · constructor
      · rintro ⟨t', hrun, hcall⟩ bw' hbw' -
        obtain rfl := BreakwatchCall.clear.inj hbw'
        obtain ⟨before, next, rfl, hnot⟩ := List.eq_append_cons_of_mem hmem
        obtain ⟨hruns, hfaults⟩ := run_clear_found device s requests next hnot
        rcases lt_or_ge next.length 128 with hlen | hlen
        · obtain ⟨s', hrun'⟩ := hruns hlen
          obtain rfl := Except.ok.inj (hrun'.symm.trans hrun)
          obtain ⟨-, hasked⟩ := hcall.asks bw rfl hmem
          have hone := List.append_cancel_left hasked
          obtain rfl : next = [] := by simpa using hone
          refine ⟨before, rfl, fun b hb heq => ?_⟩
          have hagrees := hcall.agrees
          simp only [List.append_nil] at hagrees
          rw [requested_append, if_neg Bool.false_ne_true, map_address_breakpoint] at hagrees
          have hb' : b.addr ∈ addressesOf before :=
            List.mem_toFinset.mpr (List.mem_map_of_mem hb)
          rw [← hagrees, heq] at hb'
          exact (Finset.mem_sdiff.mp hb').2 (by simp [addressesOf])
        · rw [hfaults hlen] at hrun
          cases hrun
      · intro hisolated
        obtain ⟨before, rfl, hother⟩ := hisolated bw rfl hmem
        have hnot : bw ∉ before := fun hb => hother bw hb rfl
        obtain ⟨hruns, -⟩ := run_clear_found device s requests [] hnot
        obtain ⟨s', hrun⟩ := hruns (by decide)
        refine ⟨_, hrun, ?_, ?_⟩
        · intro bw' hbw' _
          obtain rfl := BreakwatchCall.clear.inj hbw'
          rw [List.erase_append_right _ hnot, List.erase_cons_head]
          exact ⟨rfl, rfl⟩
        · show requested (requests ++ [_]) = addressesOf (before ++ [])
          have hfree : bw.addr ∉ addressesOf before := by
            intro hb
            obtain ⟨b, hb, heq⟩ := List.mem_map.mp (List.mem_toFinset.mp hb)
            exact hother b hb heq
          rw [requested_append, if_neg Bool.false_ne_true, map_address_breakpoint, h,
            addressesOf_append, List.append_nil]
          show (addressesOf before ∪ {bw.addr}) \ {bw.addr} = addressesOf before
          rw [Finset.union_sdiff_right, Finset.sdiff_singleton_eq_erase,
            Finset.erase_eq_of_notMem hfree]
    · refine iff_of_true ⟨_, run_clear_absent device s requests hmem, ?_, h⟩ ?_
      · intro bw' hbw' hmem'
        obtain rfl := BreakwatchCall.clear.inj hbw'
        exact absurd hmem' hmem
      · intro bw' hbw' hmem'
        obtain rfl := BreakwatchCall.clear.inj hbw'
        exact absurd hmem' hmem

end

/-- The calls one after the other on a target without breakpoints. -/
def runBreakwatch (device : List Breakpoint → Bool → σ → ℕ × σ) (s : σ)
    (calls : List BreakwatchCall) :
    Except Fault (List Breakwatch × σ × List BreakpointRequest) :=
  calls.foldlM (fun t call => call.run (asked device) t) ([], s, [])

/-- The list that calls leave. -/
def bwListAfter (calls : List BreakwatchCall) : List Breakwatch :=
  calls.foldl (fun bwList call => call.after bwList) []

/-- The call number `k` of the run returns and meets the claim. -/
def CallClearsThatOne (device : List Breakpoint → Bool → σ → ℕ × σ) (s : σ)
    (calls : List BreakwatchCall) (k : ℕ) (call : BreakwatchCall) : Prop :=
  ∃ t t', runBreakwatch device s (calls.take k) = .ok t ∧ call.run (asked device) t = .ok t' ∧
    ClearsThatOne call t t'

/-- The calls so far have returned, and the device has been asked for the breakpoints of the list. -/
def AgreesAfter (device : List Breakpoint → Bool → σ → ℕ × σ) (s : σ)
    (calls : List BreakwatchCall) : Prop :=
  ∃ t, runBreakwatch device s calls = .ok t ∧ t.1 = bwListAfter calls ∧
    requested t.2.2 = addressesOf t.1

section
variable {device : List Breakpoint → Bool → σ → ℕ × σ} {s : σ} {calls : List BreakwatchCall} {k : ℕ}

theorem agreesAfter_nil : AgreesAfter device s [] := ⟨_, rfl, rfl, rfl⟩

theorem AgreesAfter.callClearsThatOne_iff (h : AgreesAfter device s (calls.take k))
    (hk : k < calls.length) :
    CallClearsThatOne device s calls k calls[k] ↔
      Isolated calls[k] (bwListAfter (calls.take k)) := by
  obtain ⟨t, hrun, hlist, hagrees⟩ := h
  rw [← hlist, ← clearsThatOne_iff device (s := t.2.1) hagrees]
  constructor
  · rintro ⟨t₁, t', hrun₁, hcall, hone⟩
    obtain rfl := Except.ok.inj (hrun.symm.trans hrun₁)
    exact ⟨t', hcall, hone⟩
  · rintro ⟨t', hcall, hone⟩
    exact ⟨t, t', hrun, hcall, hone⟩

theorem AgreesAfter.succ (h : AgreesAfter device s (calls.take k)) (hk : k < calls.length)
    (hcall : CallClearsThatOne device s calls k calls[k]) :
    AgreesAfter device s (calls.take (k + 1)) := by
  obtain ⟨t, hrun, hlist, -⟩ := h
  obtain ⟨t₁, t', hrun₁, hstep, hone⟩ := hcall
  obtain rfl := Except.ok.inj (hrun.symm.trans hrun₁)
  have htake : calls.take (k + 1) = calls.take k ++ [calls[k]] :=
    List.take_succ_eq_append_getElem hk
  refine ⟨t', ?_, ?_, hone.agrees⟩
  · unfold runBreakwatch at hrun ⊢
    rw [htake, List.foldlM_append, bind_of_ok hrun, List.foldlM_cons, bind_of_ok hstep]
    rfl
  · rw [run_list device hstep, hlist, htake]
    unfold bwListAfter
    rw [List.foldl_append]
    rfl

end

/-- Every clear of a run asks for its breakpoint alone, and the device keeps to the list, exactly in
the runs whose clears all find the oldest breakpoint, with an address that no other has. -/
theorem callClearsThatOne_iff_isolated (device : List Breakpoint → Bool → σ → ℕ × σ) (s : σ)
    (calls : List BreakwatchCall) :
    (∀ k (hk : k < calls.length), CallClearsThatOne device s calls k calls[k]) ↔
    ∀ k (hk : k < calls.length), Isolated calls[k] (bwListAfter (calls.take k)) := by
  constructor
  · intro hcalls
    have hagrees : ∀ k ≤ calls.length, AgreesAfter device s (calls.take k) := by
      intro k
      induction k with
      | zero => exact fun _ => agreesAfter_nil
      | succ k ih => exact fun hk => (ih (Nat.le_of_succ_le hk)).succ hk (hcalls k hk)
    exact fun k hk => ((hagrees k hk.le).callClearsThatOne_iff hk).mp (hcalls k hk)
  · intro hisolated
    have hagrees : ∀ k ≤ calls.length, AgreesAfter device s (calls.take k) := by
      intro k
      induction k with
      | zero => exact fun _ => agreesAfter_nil
      | succ k ih =>
        intro hk
        have hbefore := ih (Nat.le_of_succ_le hk)
        exact hbefore.succ hk ((hbefore.callClearsThatOne_iff hk).mpr (hisolated k hk))
    exact fun k hk => ((hagrees k hk.le).callClearsThatOne_iff hk).mpr (hisolated k hk)

/-- Two breakpoints, and the newer one is cleared: the device is asked for both. -/
theorem not_callClearsThatOne :
    ¬ ∀ k (hk : k < [BreakwatchCall.set ⟨1, 0x08004000, 2⟩, .set ⟨1, 0x08005000, 2⟩,
        .clear ⟨1, 0x08005000, 2⟩].length),
      CallClearsThatOne (fun breakpoints _ (_ : Unit) => (breakpoints.length, ())) ()
        [.set ⟨1, 0x08004000, 2⟩, .set ⟨1, 0x08005000, 2⟩, .clear ⟨1, 0x08005000, 2⟩] k
        [BreakwatchCall.set ⟨1, 0x08004000, 2⟩, .set ⟨1, 0x08005000, 2⟩,
          .clear ⟨1, 0x08005000, 2⟩][k] := by
  intro h
  obtain ⟨t, t', hrun, hcall, hone⟩ := h 2 (by decide)
  obtain rfl := Except.ok.inj hrun
  obtain rfl := Except.ok.inj hcall
  obtain ⟨-, hasked⟩ := hone.asks ⟨1, 0x08005000, 2⟩ rfl (by decide)
  revert hasked
  decide

end BluePill
