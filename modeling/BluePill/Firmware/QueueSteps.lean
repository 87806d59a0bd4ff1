import BluePill.Firmware.Device
import BluePill.Lib.BoundedQueue
import BluePill.Lib.Fallible

/-! `CircularBuffer.h` access by access: a consumer whose calls are interrupted by whole puts
between any two of its reads and writes, and the FIFO queue that the two of them see. -/
namespace BluePill
open Lib

/-- The positions are plain numbers. -/
structure RawQueue (α : Type) (size : ℕ) where
  buffer : Vector α size
  first : ℕ
  last : ℕ

namespace RawQueue

variable {α : Type} {size : ℕ}

/-- `size` is itself a `size_t`, so the increment of a position below it does not wrap. -/
def nextPos (size current : ℕ) : ℕ :=
  let next := current + 1
  if next ≥ size then 0 else next

/-- `_buffer[i]`. -/
def read (q : RawQueue α size) (i : ℕ) : Except Fault α :=
  match q.buffer[i]? with
  | some value => .ok value
  | none => .error .outOfBounds

/-- `_buffer[i] = value`. -/
def write (q : RawQueue α size) (i : ℕ) (value : α) : Except Fault (RawQueue α size) :=
  if h : i < size then .ok { q with buffer := q.buffer.set i value h } else .error .outOfBounds

/-- `put`, which the consumer does not interrupt. -/
def put (q : RawQueue α size) (value : α) : Except Fault (Bool × RawQueue α size) :=
  let next := nextPos size q.last
  if next = q.first then .ok (false, q)
  else do
    let q' ← q.write q.last value
    .ok (true, { q' with last := next })

def initial [Inhabited α] : RawQueue α size := ⟨Vector.replicate size default, 0, 0⟩

/-- The elements between the positions, oldest first. -/
def contents (q : RawQueue α size) : List α :=
  (List.range ((q.last + size - q.first) % size)).filterMap fun i => q.buffer[(q.first + i) % size]?

end RawQueue

inductive ConsumerCall where
  | get | pull | isEmpty
  deriving DecidableEq, Repr

/-- The next access of the consumer, with what it has read so far. The test is the same in all
three calls, its two reads in the order in which they are written; then `get` and `pull` read the
element, and `pull` moves `_first`. -/
inductive ConsumerLine (α : Type) where
  | idle
  | testFirst (c : ConsumerCall)
  | testLast (c : ConsumerCall) (first : ℕ)
  | readFirst (pull : Bool)
  | readBuffer (pull : Bool) (index : ℕ)
  | advanceRead (value : α)
  | advanceWrite (value : α) (next : ℕ)

/-- The queue, the consumer, and the calls that have returned. -/
structure QueueState (α : Type) (size : ℕ) where
  queue : RawQueue α size
  consumer : ConsumerLine α
  history : List (QueueEvent α)

/-- One put of the producer, the start of a call, or one access of the call that is running. -/
inductive QueueAction (α : Type) where
  | put (value : α)
  | call (c : ConsumerCall)
  | access
  deriving DecidableEq, Repr

namespace QueueState

variable {α : Type} {size : ℕ}

def initial [Inhabited α] : QueueState α size := ⟨.initial, .idle, []⟩

/-- The call of the consumer returns. -/
def finish (s : QueueState α size) (event : QueueEvent α) : QueueState α size :=
  { s with consumer := .idle, history := s.history ++ [event] }

/-- `_first == _last` once both have been read. -/
def afterTest (s : QueueState α size) (c : ConsumerCall) (equal : Bool) : QueueState α size :=
  match c with
  | .isEmpty => s.finish (.isEmpty equal)
  | .get => if equal then s.finish (.get none) else { s with consumer := .readFirst false }
  | .pull => if equal then s.finish (.pull none) else { s with consumer := .readFirst true }

/-- The next read or write of the consumer. -/
def access (s : QueueState α size) : Except Fault (QueueState α size) :=
  match s.consumer with
  | .idle => .ok s
  | .testFirst c => .ok { s with consumer := .testLast c s.queue.first }
  | .testLast c first => .ok (s.afterTest c (decide (first = s.queue.last)))
  | .readFirst pull => .ok { s with consumer := .readBuffer pull s.queue.first }
  | .readBuffer pull index => do
    let value ← s.queue.read index
    .ok (if pull then { s with consumer := .advanceRead value } else s.finish (.get (some value)))
  | .advanceRead value =>
    .ok { s with consumer := .advanceWrite value (RawQueue.nextPos size s.queue.first) }
  | .advanceWrite value next =>
    .ok ({ s with queue := { s.queue with first := next } }.finish (.pull (some value)))

/-- The consumer makes one call at a time. -/
def step (s : QueueState α size) : QueueAction α → Except Fault (QueueState α size)
  | .put value => do
    let (accepted, queue) ← s.queue.put value
    .ok { s with queue := queue, history := s.history ++ [.put value accepted] }
  | .call c =>
    match s.consumer with
    | .idle => .ok { s with consumer := .testFirst c }
    | _ => .ok s
  | .access => s.access

def run : QueueState α size → List (QueueAction α) → Except Fault (QueueState α size)
  | s, [] => .ok s
  | s, a :: actions => do
    let s' ← s.step a
    s'.run actions

end QueueState

namespace CircularBuffer

variable {α : Type} {size : ℕ}

def raw (b : CircularBuffer α size) : RawQueue α size := ⟨b.buffer, b.first.val, b.last.val⟩

theorem raw_nextPos (c : Fin size) : RawQueue.nextPos size c.val = (nextPos c).val := by
  rw [val_nextPos]
  simp only [RawQueue.nextPos]
  split_ifs <;> omega

theorem raw_read (b : CircularBuffer α size) (i : Fin size) :
    b.raw.read i.val = .ok (b.buffer.get i) := by
  have hread : b.buffer[i.val]? = some (b.buffer.get i) := Vector.getElem?_eq_getElem i.isLt
  simp only [RawQueue.read, raw, hread]

theorem raw_put (b : CircularBuffer α size) (value : α) :
    b.raw.put value = .ok ((b.put value).1, (b.put value).2.raw) := by
  have htest : RawQueue.nextPos size b.raw.last = b.raw.first ↔ nextPos b.last = b.first := by
    rw [Fin.ext_iff, ← raw_nextPos]
    rfl
  simp only [RawQueue.put, put, htest]
  split_ifs with hfull
  · rfl
  · have hwrite : b.raw.write b.raw.last value =
        .ok { b.raw with buffer := b.buffer.set b.last.val value b.last.isLt } :=
      dif_pos b.last.isLt
    rw [bind_of_ok hwrite]
    simp only [raw, raw_nextPos]

theorem raw_count (b : CircularBuffer α size) :
    (b.raw.last + size - b.raw.first) % size = b.count := by
  have hfirst := b.first.isLt
  have hlast := b.last.isLt
  simp only [raw, count]
  split_ifs with hle
  · have hsum : b.last.val + size - b.first.val = b.last.val - b.first.val + size := by omega
    rw [hsum, Nat.add_mod_right, Nat.mod_eq_of_lt (by omega)]
  · rw [Nat.mod_eq_of_lt (by omega)]
    omega

theorem raw_contents (b : CircularBuffer α size) : b.raw.contents = b.toList := by
  rw [RawQueue.contents, raw_count, ← List.map_coe_finRange_eq_range, List.filterMap_map, toList,
    List.ofFn_eq_map, ← List.filterMap_eq_map]
  apply List.filterMap_congr
  intro i _
  have hslot : (b.first.val + i.val) % size = (b.slot ⟨i.val, i.isLt.trans b.count_lt⟩).val := by
    have hfirst := b.first.isLt
    have hcount := b.count_lt
    have hi := i.isLt
    simp only [val_slot]
    split_ifs with hlt
    · exact Nat.mod_eq_of_lt hlt
    · rw [Nat.mod_eq_sub_mod (by omega), Nat.mod_eq_of_lt (by omega)]
  change b.buffer[(b.first.val + i.val) % size]? = _
  rw [hslot]
  exact Vector.getElem?_eq_getElem (b.slot ⟨i.val, i.isLt.trans b.count_lt⟩).isLt

end CircularBuffer

namespace QueueState

variable {α : Type} {size : ℕ}

/-- What the running call has read is still so, whatever was put since: the producer leaves
`_first` and the oldest element alone, and a queue that was not empty stays so. -/
def LineHolds (b : CircularBuffer α size) : ConsumerLine α → Prop
  | .idle | .testFirst _ => True
  | .testLast _ first => first = b.first.val
  | .readFirst _ => b.first ≠ b.last
  | .readBuffer _ index => b.first ≠ b.last ∧ index = b.first.val
  | .advanceRead value => b.toList.head? = some value
  | .advanceWrite value next =>
    b.toList.head? = some value ∧ next = (CircularBuffer.nextPos b.first).val

/-- The members are those of the ring buffer `b`, and the calls that have returned are a history of
the FIFO queue that holds its elements. -/
structure Refines (s : QueueState α size) (b : CircularBuffer α size) : Prop where
  queue : s.queue = b.raw
  line : LineHolds b s.consumer
  history : FifoRun (size - 1) s.history b.toList

theorem first_ne_last_iff (b : CircularBuffer α size) : b.first ≠ b.last ↔ b.toList ≠ [] :=
  (CircularBuffer.toList_eq_nil_iff b).not.symm

theorem head?_put (b : CircularBuffer α size) (value : α) (h : b.toList ≠ []) :
    (b.put value).2.toList.head? = b.toList.head? := by
  obtain ⟨rest, hrest⟩ := b.toList_prefix_put value
  rw [← hrest, List.head?_append_of_ne_nil _ h]

theorem lineHolds_put {b : CircularBuffer α size} (value : α) {line : ConsumerLine α}
    (h : LineHolds b line) : LineHolds (b.put value).2 line := by
  have hfirst := b.put_first value
  have hlast : b.first ≠ b.last → (b.put value).2.first ≠ (b.put value).2.last := by
    rw [first_ne_last_iff, first_ne_last_iff]
    intro hne hnil
    obtain ⟨rest, hrest⟩ := b.toList_prefix_put value
    rw [hnil] at hrest
    exact hne (List.append_eq_nil_iff.mp hrest).1
  have hhead : ∀ v, b.toList.head? = some v → (b.put value).2.toList.head? = some v := by
    intro v hv
    rw [head?_put b value, hv]
    rintro hnil
    rw [hnil] at hv
    cases hv
  cases line with
  | idle => trivial
  | testFirst c => trivial
  | testLast c first => exact h.trans (congrArg Fin.val hfirst.symm)
  | readFirst pull => exact hlast h
  | readBuffer pull index => exact ⟨hlast h.1, h.2.trans (congrArg Fin.val hfirst.symm)⟩
  | advanceRead v => exact hhead v h
  | advanceWrite v next =>
    refine ⟨hhead v h.1, ?_⟩
    rw [hfirst]
    exact h.2

/-- A put is refused exactly when the queue holds `size - 1` elements. -/
theorem fifoStep_put (b : CircularBuffer α size) (value : α) :
    FifoStep (size - 1) b.toList (.put value (b.put value).1) (b.put value).2.toList := by
  rw [CircularBuffer.put_fst, CircularBuffer.toList_put]
  by_cases hroom : b.toList.length + 1 < size
  · rw [if_pos hroom, decide_eq_true hroom]
    exact .accept (by omega)
  · rw [if_neg hroom, decide_eq_false hroom]
    exact .refuse (by omega)

/-- The move of `_first`, the last access of a pull, takes the oldest element out. -/
theorem toList_advance {b : CircularBuffer α size} (h : b.toList ≠ []) :
    ({ b with first := CircularBuffer.nextPos b.first } : CircularBuffer α size).toList =
      b.toList.tail := by
  have hpull : b.pull.2 = { b with first := CircularBuffer.nextPos b.first } := by
    rw [CircularBuffer.pull, if_neg ((first_ne_last_iff b).mpr h)]
  rw [← hpull, CircularBuffer.toList_pull]

theorem Refines.finish {s : QueueState α size} {b : CircularBuffer α size} (h : s.Refines b)
    {event : QueueEvent α} (hevent : FifoStep (size - 1) b.toList event b.toList) :
    (s.finish event).Refines b :=
  ⟨h.queue, trivial, h.history.snoc hevent⟩

theorem Refines.afterTest {s : QueueState α size} {b : CircularBuffer α size} (h : s.Refines b)
    (c : ConsumerCall) : (s.afterTest c (decide (b.first = b.last))).Refines b := by
  by_cases hempty : b.first = b.last
  · have hnil := (b.toList_eq_nil_iff).mpr hempty
    rw [decide_eq_true hempty]
    cases c with
    | isEmpty =>
      apply h.finish
      rw [hnil]
      exact .isEmpty
    | get =>
      apply h.finish
      rw [hnil]
      exact .get
    | pull =>
      apply h.finish
      rw [hnil]
      exact .pull
  · have hne : b.toList.isEmpty = false := by
      rw [List.isEmpty_eq_false_iff]
      exact (first_ne_last_iff b).mp hempty
    rw [decide_eq_false hempty]
    cases c with
    | isEmpty =>
      apply h.finish
      rw [← hne]
      exact .isEmpty
    | get => exact ⟨h.queue, hempty, h.history⟩
    | pull => exact ⟨h.queue, hempty, h.history⟩

/-- One access: the call goes on, or returns with what the FIFO queue says. -/
theorem Refines.access {s : QueueState α size} {b : CircularBuffer α size} (h : s.Refines b) :
    ∃ s' b', s.access = .ok s' ∧ s'.Refines b' := by
  obtain ⟨queue, consumer, history⟩ := s
  obtain ⟨hqueue, hline, hhistory⟩ := h
  obtain rfl : queue = b.raw := hqueue
  cases consumer with
  | idle => exact ⟨_, b, rfl, rfl, trivial, hhistory⟩
  | testFirst c =>
    have hread : LineHolds b (.testLast c b.first.val) := rfl
    exact ⟨⟨b.raw, .testLast c b.first.val, history⟩, b, rfl, rfl, hread, hhistory⟩
  | testLast c first =>
    obtain rfl : first = b.first.val := hline
    have htest : decide (b.first.val = b.last.val) = decide (b.first = b.last) :=
      decide_eq_decide.mpr Fin.ext_iff.symm
    have hbefore : Refines ⟨b.raw, .testLast c b.first.val, history⟩ b := ⟨rfl, rfl, hhistory⟩
    have hafter := hbefore.afterTest c
    rw [← htest] at hafter
    exact ⟨_, b, rfl, hafter⟩
  | readFirst pull =>
    have hread : LineHolds b (.readBuffer pull b.first.val) := ⟨hline, rfl⟩
    exact ⟨⟨b.raw, .readBuffer pull b.first.val, history⟩, b, rfl, rfl, hread, hhistory⟩
  | readBuffer pull index =>
    obtain ⟨hne, rfl⟩ := hline
    have hhead : b.toList.head? = some (b.buffer.get b.first) := by
      rw [CircularBuffer.head?_toList, if_neg hne]
      rfl
    simp only [QueueState.access]
    rw [bind_of_ok (b.raw_read b.first)]
    cases pull with
    | true => exact ⟨_, b, rfl, rfl, hhead, hhistory⟩
    | false =>
      refine ⟨_, b, rfl, rfl, trivial, ?_⟩
      apply hhistory.snoc
      rw [← hhead]
      exact .get
  | advanceRead value =>
    refine ⟨⟨b.raw, .advanceWrite value (RawQueue.nextPos size b.raw.first), history⟩, b, rfl, rfl,
      ⟨hline, ?_⟩, hhistory⟩
    exact CircularBuffer.raw_nextPos b.first
  | advanceWrite value next =>
    obtain ⟨hhead, rfl⟩ := hline
    have hne : b.toList ≠ [] := by
      rintro hnil
      rw [hnil] at hhead
      cases hhead
    refine ⟨_, { b with first := CircularBuffer.nextPos b.first }, rfl, rfl, trivial, ?_⟩
    rw [toList_advance hne, ← hhead]
    exact hhistory.snoc .pull

/-- The accesses of a pull that nothing interrupts are the `pull` of the ring buffer. -/
theorem run_pull (b : CircularBuffer α size) (history : List (QueueEvent α)) :
    (⟨b.raw, .idle, history⟩ : QueueState α size).run
        [.call .pull, .access, .access, .access, .access, .access, .access] =
      .ok ⟨b.pull.2.raw, .idle, history ++ [.pull b.pull.1]⟩ := by
  have hstart : ∀ actions, (⟨b.raw, .idle, history⟩ : QueueState α size).run
      (.call .pull :: .access :: .access :: actions) =
      (afterTest ⟨b.raw, .testLast .pull b.first.val, history⟩ .pull
        (decide (b.first.val = b.last.val))).run actions := fun _ => rfl
  rw [hstart]
  by_cases hempty : b.first = b.last
  · have htest : b.first.val = b.last.val := congrArg Fin.val hempty
    rw [CircularBuffer.pull, if_pos hempty, decide_eq_true htest]
    rfl
  · have htest : ¬ b.first.val = b.last.val := fun h => hempty (Fin.ext h)
    have hread : (afterTest (⟨b.raw, .testLast .pull b.first.val, history⟩ : QueueState α size)
        .pull false).run [.access, .access, .access, .access] =
        b.raw.read b.first.val >>= fun value =>
          (⟨b.raw, .advanceRead value, history⟩ : QueueState α size).run [.access, .access] := by
      change (b.raw.read b.first.val >>= fun value => _) >>= _ = _
      cases b.raw.read b.first.val <;> rfl
    have hadvance : ∀ value,
        (⟨b.raw, .advanceRead value, history⟩ : QueueState α size).run [.access, .access] =
        .ok ⟨⟨b.buffer, RawQueue.nextPos size b.first.val, b.last.val⟩, .idle,
          history ++ [.pull (some value)]⟩ := fun _ => rfl
    rw [CircularBuffer.pull, if_neg hempty, decide_eq_false htest, hread,
      bind_of_ok (b.raw_read b.first), hadvance, CircularBuffer.raw_nextPos]
    rfl

/-- Every action, also a put between two accesses, is matched by the FIFO queue. -/
theorem Refines.step {s : QueueState α size} {b : CircularBuffer α size} (h : s.Refines b)
    (a : QueueAction α) : ∃ s' b', s.step a = .ok s' ∧ s'.Refines b' := by
  cases a with
  | put value =>
    refine ⟨⟨(b.put value).2.raw, s.consumer, s.history ++ [.put value (b.put value).1]⟩,
      (b.put value).2, ?_, rfl, lineHolds_put value h.line,
      h.history.snoc (fifoStep_put b value)⟩
    simp only [QueueState.step]
    rw [h.queue, bind_of_ok (b.raw_put value)]
  | call c =>
    cases hline : s.consumer with
    | idle =>
      refine ⟨{ s with consumer := .testFirst c }, b, ?_, h.queue, trivial, h.history⟩
      simp only [QueueState.step, hline]
    | _ =>
      refine ⟨s, b, ?_, h⟩
      simp only [QueueState.step, hline]
  | access => exact h.access

theorem Refines.run {s : QueueState α size} {b : CircularBuffer α size} (h : s.Refines b)
    (actions : List (QueueAction α)) : ∃ s' b', s.run actions = .ok s' ∧ s'.Refines b' := by
  induction actions generalizing s b with
  | nil => exact ⟨s, b, rfl, h⟩
  | cons a actions ih =>
    obtain ⟨s', b', hstep, h'⟩ := h.step a
    rw [QueueState.run, bind_of_ok hstep]
    exact ih h'

theorem initial_refines [Inhabited α] [NeZero size] :
    (initial : QueueState α size).Refines .empty := by
  refine ⟨rfl, trivial, ?_⟩
  rw [CircularBuffer.toList_empty]
  exact .nil

end QueueState

/-- Whatever the consumer calls and wherever puts fall between its accesses, no access leaves the
array, the positions stay below `size`, and all results are those of a FIFO queue of at most
`size - 1` elements. -/
theorem queueRun_fifo {α : Type} [Inhabited α] {size : ℕ} (hsize : 1 ≤ size)
    (actions : List (QueueAction α)) :
    ∃ s, (QueueState.initial : QueueState α size).run actions = .ok s ∧
      FifoRun (size - 1) s.history s.queue.contents ∧
      s.queue.first < size ∧ s.queue.last < size := by
  have : NeZero size := ⟨Nat.one_le_iff_ne_zero.mp hsize⟩
  have hstart : (QueueState.initial : QueueState α size).Refines .empty :=
    QueueState.initial_refines
  obtain ⟨s, b, hrun, h⟩ := hstart.run actions
  refine ⟨s, hrun, ?_⟩
  rw [h.queue, CircularBuffer.raw_contents]
  exact ⟨h.history, b.first.isLt, b.last.isLt⟩

/-- A pull of the command queue, with a put between its test and its last write. -/
theorem queueRun_fifo_commands :
    ∃ s, (QueueState.initial : QueueState DebugHandlerCommand 16).run
        [.put .halt, .call .pull, .access, .access, .put .resume, .access, .access, .access,
          .access] = .ok s ∧
      FifoRun 15 s.history s.queue.contents ∧ s.queue.first < 16 ∧ s.queue.last < 16 :=
  queueRun_fifo (by decide : 1 ≤ 16) _

/-- What was accepted has been pulled, in the order of the puts, or is still held. -/
theorem queueRun_accepted {α : Type} [Inhabited α] {size : ℕ} [NeZero size]
    {actions : List (QueueAction α)} {s : QueueState α size}
    (hrun : QueueState.initial.run actions = .ok s) :
    acceptedElements s.history = pulledElements s.history ++ s.queue.contents ∧
      s.queue.contents.length ≤ size - 1 := by
  have hstart : (QueueState.initial : QueueState α size).Refines .empty :=
    QueueState.initial_refines
  obtain ⟨s', b, hrun', h⟩ := hstart.run actions
  obtain rfl : s' = s := Except.ok.inj (hrun'.symm.trans hrun)
  rw [h.queue, CircularBuffer.raw_contents]
  exact ⟨h.history.accepted_eq, h.history.length_le⟩

end BluePill
