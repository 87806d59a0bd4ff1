import BluePill.Firmware.QueueSteps

/-! `put` access by access at lower priority than the USB interrupt, whose own puts run whole
between its accesses: which runs keep every accepted command. -/
namespace BluePill
open Lib

/-- `sysCallReset` in the supervisor call or the end of `flashEraseLoop`, which do not interrupt
each other; and the USB interrupt, which interrupts both. -/
inductive PutContext where
  | low | usb
  deriving DecidableEq, Repr, Inhabited

/-- A command with the context that puts it and the number of the put, which the code does not
store: they tell equal commands of different puts apart. -/
structure Tagged (α : Type) where
  context : PutContext
  serial : ℕ
  value : α
  deriving DecidableEq, Repr, Inhabited

/-- The commands of each context are the same ones in the same order. -/
def SameByContext {α : Type} (xs ys : List (Tagged α)) : Prop :=
  ∀ c, xs.filter (·.context = c) = ys.filter (·.context = c)

/-- The next access of the interrupted put, with its local variables. `_last` is read for `next`
when the put is called, and once more for the index of the slot. -/
inductive PutLine (α : Type) (size : ℕ) where
  | idle
  | readFirst (value : Tagged α) (next : Fin size)
  | readLast (value : Tagged α) (next : Fin size)
  | writeBuffer (value : Tagged α) (next index : Fin size)
  | writeLast (value : Tagged α) (next : Fin size)

def PutLine.pending {α : Type} {size : ℕ} : PutLine α size → Option (Tagged α)
  | .idle => none
  | .readFirst value _ | .readLast value _ => some value
  | .writeBuffer value _ _ | .writeLast value _ => some value

/-- `_buffer[index] = value`. -/
def CircularBuffer.setSlot {α : Type} {size : ℕ} (b : CircularBuffer α size) (index : Fin size)
    (value : α) : CircularBuffer α size :=
  { b with buffer := b.buffer.set index.val value index.isLt }

/-- The queue, the put at lower priority, the number of puts so far, the commands whose put
returned true and those that were pulled. -/
structure NestedState (α : Type) (size : ℕ) where
  queue : CircularBuffer (Tagged α) size
  low : PutLine α size
  serial : ℕ
  accepted : List (Tagged α)
  pulled : List (Tagged α)

/-- A put is called at lower priority, or makes its next access; or the USB interrupt makes a
whole put; or the monitor pulls. -/
inductive NestedAction (α : Type) where
  | start (value : α)
  | access
  | usbPut (value : α)
  | pull
  deriving DecidableEq, Repr

namespace NestedState

variable {α : Type} {size : ℕ}

def initial [Inhabited α] [NeZero size] : NestedState α size := ⟨.empty, .idle, 0, [], []⟩

def access (s : NestedState α size) : NestedState α size :=
  match s.low with
  | .idle => s
  | .readFirst value next =>
    if next = s.queue.first then { s with low := .idle } else { s with low := .readLast value next }
  | .readLast value next => { s with low := .writeBuffer value next s.queue.last }
  | .writeBuffer value next index =>
    { s with
      queue := s.queue.setSlot index value
      low := .writeLast value next }
  | .writeLast value next =>
    { s with
      queue := { s.queue with last := next }
      low := .idle
      accepted := s.accepted ++ [value] }

/-- A second put at lower priority is called when the first one has returned. -/
def start (s : NestedState α size) (value : α) : NestedState α size :=
  match s.low with
  | .idle =>
    { s with
      low := .readFirst ⟨.low, s.serial, value⟩ (CircularBuffer.nextPos s.queue.last)
      serial := s.serial + 1 }
  | _ => s

def usbPut (s : NestedState α size) (value : α) : NestedState α size :=
  let tagged : Tagged α := ⟨.usb, s.serial, value⟩
  let put := s.queue.put tagged
  { s with
    queue := put.2
    serial := s.serial + 1
    accepted := if put.1 then s.accepted ++ [tagged] else s.accepted }

def step (s : NestedState α size) : NestedAction α → NestedState α size
  | .start value => s.start value
  | .access => s.access
  | .usbPut value => s.usbPut value
  | .pull => { s with queue := s.queue.pull.2, pulled := s.pulled ++ s.queue.pull.1.toList }

def run (s : NestedState α size) (actions : List (NestedAction α)) : NestedState α size :=
  actions.foldl step s

/-- The commands that were pulled or are in the queue are the accepted ones, each once and those
of one context in its own order. -/
def KeepsAccepted (s : NestedState α size) : Prop :=
  SameByContext (s.pulled ++ s.queue.toList) s.accepted

end NestedState

namespace CircularBuffer

variable {α : Type} {size : ℕ}

/-- The slot holds an element of the queue. -/
def Holds (b : CircularBuffer α size) (index : Fin size) : Prop :=
  ∃ i : Fin size, i.val < b.count ∧ b.slot i = index

theorem toList_set_of_not_holds {b : CircularBuffer α size} {index : Fin size} (value : α)
    (h : ¬ b.Holds index) :
    (b.setSlot index value).toList = b.toList := by
  apply List.ext_getElem
  · rw [length_toList, length_toList]
    rfl
  · intro i hi hi'
    have hcount : i < b.count := by rwa [length_toList] at hi'
    have hne : index.val ≠ (b.slot ⟨i, hcount.trans b.count_lt⟩).val := fun he =>
      h ⟨⟨i, hcount.trans b.count_lt⟩, hcount, (Fin.ext he).symm⟩
    rw [getElem_toList, getElem_toList]
    exact Vector.getElem_set_ne index.isLt (b.slot ⟨i, hcount.trans b.count_lt⟩).isLt hne

theorem mem_toList_set {b : CircularBuffer α size} {index : Fin size} (value : α)
    (h : b.Holds index) :
    value ∈ (b.setSlot index value).toList := by
  obtain ⟨i, hcount, rfl⟩ := h
  have hi : i.val < (b.setSlot (b.slot i) value).toList.length := by
    rw [length_toList]
    exact hcount
  have hvalue : (b.setSlot (b.slot i) value).toList[i.val] = value := by
    rw [getElem_toList]
    exact Vector.getElem_set_self _
  have hmem := List.getElem_mem hi
  rwa [hvalue] at hmem

/-- Moving `_last` on takes in the slot that was free. -/
theorem toList_advance_last {b : CircularBuffer α size} (h : nextPos b.last ≠ b.first) :
    ({ b with last := nextPos b.last } : CircularBuffer α size).toList =
      b.toList ++ [b.buffer.get b.last] := by
  have hput : b.put (b.buffer.get b.last) = (true, { b with last := nextPos b.last }) := by
    have hsame : b.buffer.set b.last.val (b.buffer.get b.last) b.last.isLt = b.buffer :=
      Vector.set_getElem_self b.last.isLt
    rw [put, if_neg h, hsame]
  have hroom : b.toList.length + 1 < size := by
    have hfst := b.put_fst (b.buffer.get b.last)
    rw [hput] at hfst
    exact of_decide_eq_true hfst.symm
  have hlist := b.toList_put (b.buffer.get b.last)
  rwa [hput, if_pos hroom] at hlist

/-- No other move of `_last` makes the queue longer by one. -/
theorem eq_nextPos_of_count {b : CircularBuffer α size} {next : Fin size}
    (h : ({ b with last := next } : CircularBuffer α size).count = b.count + 1) :
    next = nextPos b.last ∧ next ≠ b.first := by
  have hnext := val_nextPos b.last
  rw [Fin.ext_iff, Ne, Fin.ext_iff, hnext]
  unfold count at h
  dsimp only at h
  split_ifs at h ⊢ <;> omega

/-- The slot at `_last` is the free one. -/
theorem not_holds_last (b : CircularBuffer α size) : ¬ b.Holds b.last := by
  rintro ⟨i, hcount, hslot⟩
  have hslot := congrArg Fin.val hslot
  rw [val_slot] at hslot
  unfold count at hcount
  split_ifs at hcount hslot <;> omega

/-- A pull does not make a queue with room full. -/
theorem nextPos_ne_first_pull {b : CircularBuffer α size} (h : nextPos b.last ≠ b.first) :
    nextPos b.pull.2.last ≠ b.pull.2.first := by
  by_cases hempty : b.first = b.last
  · rwa [pull, if_pos hempty]
  · have hne : b.first.val ≠ b.last.val := fun he => hempty (Fin.ext he)
    have hfirstLt := b.first.isLt
    have hlastLt := b.last.isLt
    rw [pull, if_neg hempty]
    intro heq
    have heq := congrArg Fin.val heq
    simp only [val_nextPos] at heq
    split_ifs at heq <;> omega

end CircularBuffer

namespace SameByContext

variable {α : Type} {xs ys : List (Tagged α)}

theorem snoc (h : SameByContext xs ys) (v : Tagged α) : SameByContext (xs ++ [v]) (ys ++ [v]) := by
  intro c
  rw [List.filter_append, List.filter_append, h c]

theorem mem (h : SameByContext xs ys) {v : Tagged α} (hv : v ∈ xs) : v ∈ ys := by
  have hfilter : v ∈ xs.filter (·.context = v.context) := List.mem_filter.mpr ⟨hv, by simp⟩
  rw [h v.context] at hfilter
  exact (List.mem_filter.mp hfilter).1

theorem length_eq (h : SameByContext xs ys) : xs.length = ys.length := by
  have hsplit : ∀ l : List (Tagged α),
      l.length = (l.filter (·.context = .low)).length + (l.filter (·.context = .usb)).length := by
    intro l
    induction l with
    | nil => rfl
    | cons v l ih =>
      cases hv : v.context <;> simp [hv] <;> omega
  rw [hsplit xs, hsplit ys, h .low, h .usb]

/-- Lists that agree before their last element agree in it. -/
theorem last_eq (h : SameByContext xs ys) {v w : Tagged α}
    (h' : SameByContext (xs ++ [v]) (ys ++ [w])) : v = w := by
  have hw := h' w.context
  rw [List.filter_append, List.filter_append, h w.context] at hw
  have hlast := List.append_cancel_left hw
  have hmem : w ∈ [v].filter (·.context = w.context) := by
    rw [hlast]
    simp
  exact (List.mem_singleton.mp (List.mem_filter.mp hmem).1).symm

end SameByContext

namespace NestedState

variable {α : Type} {size : ℕ}

/-- No command is accepted twice, and a put that has not returned is none of the accepted ones. -/
structure Numbered (s : NestedState α size) : Prop where
  accepted_lt : ∀ r ∈ s.accepted, r.serial < s.serial
  nodup : s.accepted.Nodup
  pending : ∀ v, s.low.pending = some v → v.context = .low ∧ v.serial < s.serial ∧ v ∉ s.accepted

theorem Numbered.snoc {s s' : NestedState α size} (h : s.Numbered) {v : Tagged α}
    (hnew : v ∉ s.accepted) (hlt : v.serial < s'.serial) (hserial : s.serial ≤ s'.serial)
    (haccepted : s'.accepted = s.accepted ++ [v])
    (hpending : ∀ w, s'.low.pending = some w →
      w.context = .low ∧ w.serial < s'.serial ∧ w ∉ s.accepted ++ [v]) : s'.Numbered := by
  refine ⟨?_, ?_, ?_⟩
  · intro r hr
    rw [haccepted] at hr
    obtain hr | hr := List.mem_append.mp hr
    · exact (h.accepted_lt r hr).trans_le hserial
    · rwa [List.mem_singleton.mp hr]
  · rw [haccepted]
    apply List.Nodup.append h.nodup (List.nodup_singleton v)
    exact List.disjoint_singleton.mpr hnew
  · rwa [haccepted]

theorem Numbered.of_accepted_eq {s s' : NestedState α size} (h : s.Numbered)
    (haccepted : s'.accepted = s.accepted) (hserial : s.serial ≤ s'.serial)
    (hpending : ∀ w, s'.low.pending = some w →
      w.context = .low ∧ w.serial < s'.serial ∧ w ∉ s.accepted) : s'.Numbered := by
  refine ⟨?_, ?_, ?_⟩
  · intro r hr
    rw [haccepted] at hr
    exact (h.accepted_lt r hr).trans_le hserial
  · rw [haccepted]
    exact h.nodup
  · rwa [haccepted]

theorem Numbered.start {s : NestedState α size} (h : s.Numbered) (value : α) :
    (s.start value).Numbered := by
  unfold NestedState.start
  cases hlow : s.low with
  | idle =>
    refine h.of_accepted_eq rfl (Nat.le_succ _) ?_
    intro w hw
    obtain rfl : (⟨.low, s.serial, value⟩ : Tagged α) = w := Option.some.inj hw
    exact ⟨rfl, Nat.lt_succ_self _, fun hmem => Nat.lt_irrefl _ (h.accepted_lt _ hmem)⟩
  | _ => exact h

theorem Numbered.access {s : NestedState α size} (h : s.Numbered) : s.access.Numbered := by
  have hpending := h.pending
  unfold NestedState.access
  cases hlow : s.low with
  | idle => exact h
  | readFirst value next =>
    rw [hlow] at hpending
    dsimp only
    split_ifs
    · exact h.of_accepted_eq rfl le_rfl fun w hw => by cases hw
    · exact h.of_accepted_eq rfl le_rfl hpending
  | readLast value next =>
    rw [hlow] at hpending
    exact h.of_accepted_eq rfl le_rfl hpending
  | writeBuffer value next index =>
    rw [hlow] at hpending
    exact h.of_accepted_eq rfl le_rfl hpending
  | writeLast value next =>
    rw [hlow] at hpending
    obtain ⟨-, hlt, hnew⟩ := hpending value rfl
    exact h.snoc hnew hlt le_rfl rfl fun w hw => by cases hw

theorem Numbered.usbPut {s : NestedState α size} (h : s.Numbered) (value : α) :
    (s.usbPut value).Numbered := by
  have hkept : ∀ w, s.low.pending = some w → w.context = .low ∧ w.serial < s.serial + 1 ∧
      w ∉ s.accepted := fun w hw =>
    ⟨(h.pending w hw).1, Nat.lt_succ_of_lt (h.pending w hw).2.1, (h.pending w hw).2.2⟩
  have hnew : (⟨.usb, s.serial, value⟩ : Tagged α) ∉ s.accepted := fun hmem =>
    Nat.lt_irrefl _ (h.accepted_lt _ hmem)
  unfold NestedState.usbPut
  dsimp only
  split_ifs
  · refine h.snoc hnew (Nat.lt_succ_self _) (Nat.le_succ _) rfl ?_
    intro w hw
    obtain ⟨hlow, hlt, hmem⟩ := hkept w hw
    refine ⟨hlow, hlt, ?_⟩
    rw [List.mem_append, List.mem_singleton]
    rintro (hin | rfl)
    · exact hmem hin
    · cases hlow
  · exact h.of_accepted_eq rfl (Nat.le_succ _) hkept

theorem Numbered.step {s : NestedState α size} (h : s.Numbered) (a : NestedAction α) :
    (s.step a).Numbered := by
  cases a with
  | start value => exact h.start value
  | access => exact h.access
  | usbPut value => exact h.usbPut value
  | pull => exact h.of_accepted_eq rfl le_rfl h.pending

/-- What the interrupted put finds before it writes: no command of the queue is in the slot it is
about to fill; and the position it is about to set is still the one behind `_last`, is not
`_first`, and takes in the command it has put. -/
def Undisturbed (s : NestedState α size) : NestedAction α → Prop
  | .access =>
    match s.low with
    | .writeBuffer _ _ index => ¬ s.queue.Holds index
    | .writeLast value next =>
      next = CircularBuffer.nextPos s.queue.last ∧ next ≠ s.queue.first ∧
        s.queue.buffer.get s.queue.last = value
    | _ => True
  | _ => True

theorem keepsAccepted_start {s : NestedState α size} (hkeeps : s.KeepsAccepted) (value : α) :
    (s.start value).KeepsAccepted := by
  unfold NestedState.start
  cases s.low <;> exact hkeeps

theorem keepsAccepted_usbPut {s : NestedState α size} (hkeeps : s.KeepsAccepted) (value : α) :
    (s.usbPut value).KeepsAccepted := by
  have hfst := s.queue.put_fst ⟨.usb, s.serial, value⟩
  have hlist := s.queue.toList_put ⟨.usb, s.serial, value⟩
  unfold KeepsAccepted NestedState.usbPut
  dsimp only
  rw [hfst, hlist]
  by_cases hroom : s.queue.toList.length + 1 < size
  · rw [if_pos hroom, if_pos (decide_eq_true hroom), ← List.append_assoc]
    exact hkeeps.snoc _
  · rw [if_neg hroom, if_neg (by simpa using hroom)]
    exact hkeeps

theorem keepsAccepted_pull {s : NestedState α size} (hkeeps : s.KeepsAccepted) :
    (s.step .pull).KeepsAccepted := by
  have hsplit : s.queue.toList.head?.toList ++ s.queue.toList.tail = s.queue.toList := by
    cases s.queue.toList <;> rfl
  unfold KeepsAccepted NestedState.step
  dsimp only
  rw [CircularBuffer.pull_fst, CircularBuffer.toList_pull, List.append_assoc, hsplit]
  exact hkeeps

/-- Both writes of the interrupted put keep what was accepted only if they are undisturbed. -/
theorem keepsAccepted_access_iff {s : NestedState α size} (hnumbered : s.Numbered)
    (hkeeps : s.KeepsAccepted) : s.access.KeepsAccepted ↔ s.Undisturbed .access := by
  unfold NestedState.access Undisturbed
  cases hlow : s.low with
  | idle => exact iff_of_true hkeeps trivial
  | readFirst value next =>
    dsimp only
    split_ifs <;> exact iff_of_true hkeeps trivial
  | readLast value next => exact iff_of_true hkeeps trivial
  | writeBuffer value next index =>
    constructor
    · intro hafter hholds
      have hmem := CircularBuffer.mem_toList_set value hholds
      have hin : value ∈ s.accepted := hafter.mem (List.mem_append_right s.pulled hmem)
      exact (hnumbered.pending value (by rw [hlow]; rfl)).2.2 hin
    · intro hfree
      unfold KeepsAccepted
      dsimp only
      rw [CircularBuffer.toList_set_of_not_holds value hfree]
      exact hkeeps
  | writeLast value next =>
    constructor
    · intro hafter
      have hlength := hkeeps.length_eq
      have hlength' := hafter.length_eq
      simp only [List.length_append, CircularBuffer.length_toList, List.length_singleton]
        at hlength hlength'
      have hcount : CircularBuffer.count ⟨s.queue.buffer, s.queue.first, next⟩ =
          s.queue.count + 1 := by omega
      obtain ⟨rfl, hroom⟩ := CircularBuffer.eq_nextPos_of_count hcount
      refine ⟨rfl, hroom, ?_⟩
      unfold KeepsAccepted at hafter
      dsimp only at hafter
      rw [CircularBuffer.toList_advance_last hroom, ← List.append_assoc] at hafter
      exact hkeeps.last_eq hafter
    · rintro ⟨rfl, hroom, rfl⟩
      unfold KeepsAccepted
      dsimp only
      rw [CircularBuffer.toList_advance_last hroom, ← List.append_assoc]
      exact hkeeps.snoc _

theorem keepsAccepted_step_iff {s : NestedState α size} (hnumbered : s.Numbered)
    (hkeeps : s.KeepsAccepted) (a : NestedAction α) :
    (s.step a).KeepsAccepted ↔ s.Undisturbed a := by
  cases a with
  | start value => exact iff_of_true (keepsAccepted_start hkeeps value) trivial
  | access => exact keepsAccepted_access_iff hnumbered hkeeps
  | usbPut value => exact iff_of_true (keepsAccepted_usbPut hkeeps value) trivial
  | pull => exact iff_of_true (keepsAccepted_pull hkeeps) trivial

theorem run_snoc (s : NestedState α size) (done : List (NestedAction α)) (a : NestedAction α) :
    s.run (done ++ [a]) = (s.run done).step a := by
  rw [run, List.foldl_append]
  rfl

theorem Numbered.run {s : NestedState α size} (h : s.Numbered) (actions : List (NestedAction α)) :
    (s.run actions).Numbered := by
  induction actions using List.reverseRecOn with
  | nil => exact h
  | append_singleton done a ih =>
    rw [run_snoc]
    exact ih.step a

theorem run_keepsAccepted_iff {s : NestedState α size} (hnumbered : s.Numbered)
    (hkeeps : s.KeepsAccepted) (actions : List (NestedAction α)) :
    (∀ done, done <+: actions → (s.run done).KeepsAccepted) ↔
      ∀ done a, done ++ [a] <+: actions → (s.run done).Undisturbed a := by
  constructor
  · intro hall done a hdone
    have hbefore := hall done ((List.prefix_append done [a]).trans hdone)
    have hafter := hall (done ++ [a]) hdone
    rw [run_snoc] at hafter
    exact (keepsAccepted_step_iff (hnumbered.run done) hbefore a).mp hafter
  · intro hall done
    induction done using List.reverseRecOn with
    | nil => exact fun _ => hkeeps
    | append_singleton done a ih =>
      intro hdone
      have hbefore := ih ((List.prefix_append done [a]).trans hdone)
      rw [run_snoc]
      exact (keepsAccepted_step_iff (hnumbered.run done) hbefore a).mpr (hall done a hdone)

theorem numbered_initial [Inhabited α] [NeZero size] : (initial : NestedState α size).Numbered where
  accepted_lt r hr := by cases hr
  nodup := List.nodup_nil
  pending v hv := by cases hv

theorem keepsAccepted_initial [Inhabited α] [NeZero size] :
    (initial : NestedState α size).KeepsAccepted := by
  intro c
  simp [initial]

/-- No put of the USB interrupt is accepted while a put at lower priority is running. -/
def Quiet (s : NestedState α size) : NestedAction α → Prop
  | .usbPut value => s.low.pending = none ∨ (s.queue.put ⟨.usb, s.serial, value⟩).1 = false
  | _ => True

/-- What the interrupted put has read and written is still so. -/
def Steady (q : CircularBuffer (Tagged α) size) : PutLine α size → Prop
  | .idle => True
  | .readFirst _ next => next = CircularBuffer.nextPos q.last
  | .readLast _ next => next = CircularBuffer.nextPos q.last ∧ next ≠ q.first
  | .writeBuffer _ next index =>
    next = CircularBuffer.nextPos q.last ∧ next ≠ q.first ∧ index = q.last
  | .writeLast value next =>
    next = CircularBuffer.nextPos q.last ∧ next ≠ q.first ∧ q.buffer.get q.last = value

theorem undisturbed_of_steady {s : NestedState α size} (h : Steady s.queue s.low)
    (a : NestedAction α) : s.Undisturbed a := by
  cases a with
  | access =>
    unfold Undisturbed
    cases hlow : s.low with
    | writeBuffer value next index =>
      rw [hlow] at h
      obtain ⟨-, -, rfl⟩ := h
      exact s.queue.not_holds_last
    | writeLast value next =>
      rw [hlow] at h
      exact h
    | _ => trivial
  | _ => trivial

theorem steady_access {s : NestedState α size} (h : Steady s.queue s.low) :
    Steady s.access.queue s.access.low := by
  unfold NestedState.access
  cases hlow : s.low with
  | idle =>
    dsimp only
    rw [hlow]
    trivial
  | readFirst value next =>
    rw [hlow] at h
    dsimp only
    split_ifs with hfull
    · trivial
    · exact ⟨h, hfull⟩
  | readLast value next =>
    rw [hlow] at h
    exact ⟨h.1, h.2, rfl⟩
  | writeBuffer value next index =>
    rw [hlow] at h
    obtain ⟨hnext, hroom, rfl⟩ := h
    exact ⟨hnext, hroom, Vector.getElem_set_self s.queue.last.isLt⟩
  | writeLast value next => trivial

theorem steady_pull {q : CircularBuffer (Tagged α) size} {line : PutLine α size}
    (h : Steady q line) : Steady q.pull.2 line := by
  have hlast := q.pull_last
  have hroom : ∀ next, next = CircularBuffer.nextPos q.last → next ≠ q.first →
      next ≠ q.pull.2.first := by
    rintro next rfl hne
    rw [← hlast]
    exact CircularBuffer.nextPos_ne_first_pull hne
  cases line with
  | idle => trivial
  | readFirst value next =>
    rw [Steady, hlast]
    exact h
  | readLast value next =>
    rw [Steady, hlast]
    exact ⟨h.1, hroom next h.1 h.2⟩
  | writeBuffer value next index =>
    rw [Steady, hlast]
    exact ⟨h.1, hroom next h.1 h.2.1, h.2.2⟩
  | writeLast value next =>
    simp only [Steady, hlast, q.pull_buffer]
    exact ⟨h.1, hroom next h.1 h.2.1, h.2.2⟩

theorem steady_usbPut {s : NestedState α size} (h : Steady s.queue s.low) {value : α}
    (hquiet : s.Quiet (.usbPut value)) :
    Steady (s.usbPut value).queue (s.usbPut value).low := by
  change Steady (s.queue.put ⟨.usb, s.serial, value⟩).2 s.low
  obtain hidle | hrefused := hquiet
  · cases hlow : s.low with
    | idle => trivial
    | _ =>
      rw [hlow] at hidle
      cases hidle
  · rw [CircularBuffer.put_of_refused hrefused]
    exact h

theorem steady_step {s : NestedState α size} (h : Steady s.queue s.low) {a : NestedAction α}
    (hquiet : s.Quiet a) : Steady (s.step a).queue (s.step a).low := by
  cases a with
  | start value =>
    change Steady (s.start value).queue (s.start value).low
    unfold NestedState.start
    cases hlow : s.low with
    | idle => rfl
    | _ => exact h
  | access => exact steady_access h
  | usbPut value => exact steady_usbPut h hquiet
  | pull => exact steady_pull h

/-- Nothing is lost while the puts of the USB interrupt wait for the one at lower priority. -/
theorem keepsAccepted_of_quiet [Inhabited α] [NeZero size] {actions : List (NestedAction α)}
    (hquiet : ∀ done a, done ++ [a] <+: actions →
      ((initial : NestedState α size).run done).Quiet a) :
    ((initial : NestedState α size).run actions).KeepsAccepted := by
  have hsteady : ∀ done, done <+: actions → Steady ((initial : NestedState α size).run done).queue
      ((initial : NestedState α size).run done).low := by
    intro done
    induction done using List.reverseRecOn with
    | nil => exact fun _ => trivial
    | append_singleton done a ih =>
      intro hdone
      rw [run_snoc]
      exact steady_step (ih ((List.prefix_append done [a]).trans hdone)) (hquiet done a hdone)
  apply (run_keepsAccepted_iff numbered_initial keepsAccepted_initial actions).mpr
  · intro done a hdone
    exact undisturbed_of_steady (hsteady done ((List.prefix_append done [a]).trans hdone)) a
  · exact List.prefix_rfl

/-- The accesses of a put that nothing interrupts are the `put` of the ring buffer. -/
theorem run_put (b : CircularBuffer (Tagged α) size) (serial : ℕ)
    (accepted pulled : List (Tagged α)) (value : α) :
    (⟨b, .idle, serial, accepted, pulled⟩ : NestedState α size).run
        [.start value, .access, .access, .access, .access] =
      ⟨(b.put ⟨.low, serial, value⟩).2, .idle, serial + 1,
        if (b.put ⟨.low, serial, value⟩).1 then accepted ++ [⟨.low, serial, value⟩] else accepted,
        pulled⟩ := by
  by_cases hfull : CircularBuffer.nextPos b.last = b.first
  · simp [run, step, start, access, CircularBuffer.put, hfull]
  · simp [run, step, start, access, CircularBuffer.put, CircularBuffer.setSlot, hfull]

end NestedState

/-- A run loses no accepted command exactly when every write of the interrupted put finds the
queue undisturbed. -/
theorem nestedPuts_keepAccepted_iff (actions : List (NestedAction DebugHandlerCommand)) :
    (∀ done, done <+: actions →
      ((NestedState.initial : NestedState DebugHandlerCommand 16).run done).KeepsAccepted) ↔
    ∀ done a, done ++ [a] <+: actions →
      ((NestedState.initial : NestedState DebugHandlerCommand 16).run done).Undisturbed a :=
  NestedState.run_keepsAccepted_iff NestedState.numbered_initial NestedState.keepsAccepted_initial
    actions

/-- The host halts between the two reads of `_last`: the local loop is accepted and lost. -/
theorem nestedPuts_lose_startLocalLoop :
    ¬ ((NestedState.initial : NestedState DebugHandlerCommand 16).run
      [.start .startLocalLoop, .usbPut .halt, .access, .access, .access,
        .access]).KeepsAccepted := by
  intro h
  have hlow := h .low
  exact absurd hlow (by decide)

end BluePill
