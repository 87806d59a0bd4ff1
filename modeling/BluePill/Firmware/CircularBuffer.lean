import Mathlib.Tactic

/-! The ring buffer of `CircularBuffer.h` and the queue it implements. -/
namespace BluePill

/-- One slot always stays free, so `size` slots hold at most `size - 1` elements. -/
structure CircularBuffer (α : Type) (size : ℕ) where
  buffer : Vector α size
  first : Fin size
  last : Fin size
  deriving Repr

namespace CircularBuffer

variable {α : Type} {size : ℕ}

def nextPos (current : Fin size) : Fin size :=
  if h : current.val + 1 < size then ⟨current.val + 1, h⟩
  else ⟨0, Nat.zero_lt_of_lt current.isLt⟩

def put (b : CircularBuffer α size) (value : α) : Bool × CircularBuffer α size :=
  let next := nextPos b.last
  if next = b.first then (false, b)
  else (true, { b with buffer := b.buffer.set b.last value, last := next })

def get (b : CircularBuffer α size) : Option α :=
  if b.first = b.last then none else some b.buffer[b.first]

def pull (b : CircularBuffer α size) : Option α × CircularBuffer α size :=
  if b.first = b.last then (none, b)
  else (some b.buffer[b.first], { b with first := nextPos b.first })

def isEmpty (b : CircularBuffer α size) : Bool := b.first == b.last

/-- The buffer as it is declared: every slot default, both positions zero. -/
def empty [Inhabited α] [NeZero size] : CircularBuffer α size :=
  ⟨Vector.replicate size default, 0, 0⟩

/-- Number of occupied slots between `first` and `last`. -/
def count (b : CircularBuffer α size) : ℕ :=
  if b.first.val ≤ b.last.val then b.last.val - b.first.val
  else size - b.first.val + b.last.val

/-- The slot `i` places after `first`, wrapping once. -/
def slot (b : CircularBuffer α size) (i : Fin size) : Fin size :=
  if h : b.first.val + i.val < size then ⟨b.first.val + i.val, h⟩
  else ⟨b.first.val + i.val - size, by omega⟩

theorem count_lt (b : CircularBuffer α size) : b.count < size := by
  unfold count
  split_ifs <;> omega

/-- The queued elements, oldest first. -/
def toList (b : CircularBuffer α size) : List α :=
  List.ofFn fun i : Fin b.count => b.buffer[b.slot ⟨i.val, i.isLt.trans b.count_lt⟩]

@[simp] theorem length_toList (b : CircularBuffer α size) : b.toList.length = b.count := by
  simp [toList]

theorem length_toList_lt (b : CircularBuffer α size) : b.toList.length < size := by
  rw [length_toList]
  exact b.count_lt

theorem count_eq_zero_iff (b : CircularBuffer α size) : b.count = 0 ↔ b.first = b.last := by
  rw [Fin.ext_iff]
  unfold count
  split_ifs <;> omega

theorem toList_eq_nil_iff (b : CircularBuffer α size) : b.toList = [] ↔ b.first = b.last := by
  rw [← List.length_eq_zero_iff, length_toList, count_eq_zero_iff]

theorem isEmpty_iff (b : CircularBuffer α size) : b.isEmpty = true ↔ b.toList = [] := by
  rw [toList_eq_nil_iff, isEmpty, beq_iff_eq]

@[simp] theorem isEmpty_eq (b : CircularBuffer α size) : b.isEmpty = b.toList.isEmpty := by
  rw [Bool.eq_iff_iff, isEmpty_iff, List.isEmpty_iff]

@[simp] theorem toList_empty [Inhabited α] [NeZero size] :
    (empty : CircularBuffer α size).toList = [] :=
  (toList_eq_nil_iff _).mpr rfl

theorem val_nextPos (c : Fin size) : (nextPos c).val = if c.val + 1 < size then c.val + 1 else 0 := by
  unfold nextPos
  split_ifs <;> rfl

theorem val_slot (b : CircularBuffer α size) (i : Fin size) : (b.slot i).val =
    if b.first.val + i.val < size then b.first.val + i.val else b.first.val + i.val - size := by
  unfold slot
  split_ifs <;> rfl

theorem getElem_toList (b : CircularBuffer α size) (i : ℕ) (h : i < b.toList.length) :
    b.toList[i] = b.buffer[b.slot ⟨i, h.trans b.length_toList_lt⟩] := by
  simp [toList]

/-- The oldest element sits at `first`. -/
theorem head?_toList (b : CircularBuffer α size) :
    b.toList.head? = if b.first = b.last then none else some b.buffer[b.first] := by
  split_ifs with h
  · rw [(toList_eq_nil_iff b).mpr h, List.head?_nil]
  · have hpos : 0 < b.toList.length := by
      rw [length_toList, Nat.pos_iff_ne_zero, Ne, count_eq_zero_iff]
      exact h
    have hslot : b.slot ⟨0, hpos.trans b.length_toList_lt⟩ = b.first := by
      apply Fin.ext
      rw [val_slot]
      simp
    rw [List.head?_eq_getElem?, List.getElem?_eq_getElem hpos, getElem_toList]
    simp only [hslot]

@[simp] theorem get_eq (b : CircularBuffer α size) : b.get = b.toList.head? := by
  rw [head?_toList, get]

theorem pull_fst (b : CircularBuffer α size) : b.pull.1 = b.toList.head? := by
  rw [head?_toList, pull]
  split_ifs <;> rfl

/-- Pulling removes exactly the oldest element. -/
theorem toList_pull (b : CircularBuffer α size) : b.pull.2.toList = b.toList.tail := by
  by_cases h : b.first = b.last
  · rw [pull, if_pos h, (toList_eq_nil_iff b).mpr h]
    rfl
  · have hne : b.first.val ≠ b.last.val := fun he => h (Fin.ext he)
    have hnext := val_nextPos b.first
    rw [pull, if_neg h]
    apply List.ext_getElem
    · rw [List.length_tail, length_toList, length_toList]
      simp only [count, hnext]
      split_ifs <;> omega
    · intro i h₁ h₂
      have hi : i + 1 < b.count := by
        rw [List.length_tail, length_toList] at h₂
        omega
      have hc : b.count < size := b.count_lt
      rw [List.getElem_tail, getElem_toList, getElem_toList]
      congr 1
      apply Fin.ext
      simp only [val_slot, hnext]
      split_ifs <;> omega

/-- A put is refused exactly when `size - 1` elements are held. -/
theorem put_fst (b : CircularBuffer α size) (v : α) :
    (b.put v).1 = decide (b.toList.length + 1 < size) := by
  have hnext := val_nextPos b.last
  simp only [put, length_toList]
  split_ifs with h
  · rw [Fin.ext_iff, hnext] at h
    symm
    rw [decide_eq_false_iff_not]
    unfold count
    split_ifs at h ⊢ <;> omega
  · rw [Fin.ext_iff, hnext] at h
    symm
    rw [decide_eq_true_iff]
    unfold count
    split_ifs at h ⊢ <;> omega

/-- An accepted element goes to the end of the queue; a refused one changes nothing. -/
theorem toList_put (b : CircularBuffer α size) (v : α) :
    (b.put v).2.toList = if b.toList.length + 1 < size then b.toList ++ [v] else b.toList := by
  have hnext := val_nextPos b.last
  by_cases hfull : nextPos b.last = b.first
  · have hlen := put_fst b v
    rw [put, if_pos hfull] at hlen
    have hno : ¬ b.toList.length + 1 < size := of_decide_eq_false hlen.symm
    rw [if_neg hno, put, if_pos hfull]
  · have hlen := put_fst b v
    rw [put, if_neg hfull] at hlen
    have hroom : b.toList.length + 1 < size := of_decide_eq_true hlen.symm
    rw [if_pos hroom, put, if_neg hfull]
    have hfirst : (nextPos b.last).val ≠ b.first.val := fun he => hfull (Fin.ext he)
    rw [hnext] at hfirst
    rw [length_toList] at hroom
    set b' : CircularBuffer α size :=
      { b with buffer := b.buffer.set b.last v, last := nextPos b.last } with hb'
    have hcount : b'.count = b.count + 1 := by
      simp only [hb', count, hnext] at hroom ⊢
      split_ifs at hfirst hroom ⊢ <;> omega
    apply List.ext_getElem
    · rw [List.length_append, length_toList, length_toList, hcount]
      rfl
    · intro i h₁ h₂
      rw [length_toList, hcount] at h₁
      have hslot : (b'.slot ⟨i, by omega⟩).val = (b.slot ⟨i, by omega⟩).val := by
        simp [hb', val_slot]
      have hlast : i = b.count ↔ (b.slot ⟨i, by omega⟩).val = b.last.val := by
        rw [val_slot]
        simp only [count] at h₁ hroom ⊢
        split_ifs at h₁ hroom ⊢ <;> omega
      rw [getElem_toList]
      simp only [hb', Fin.getElem_fin, Vector.getElem_set]
      by_cases hi : i = b.count
      · have hl := hlast.mp hi
        have hl' : b.last.val = (b'.slot ⟨i, by omega⟩).val := by rw [hslot, hl]
        rw [if_pos hl', List.getElem_append_right (by rw [length_toList]; omega)]
        simp
      · have hl : ¬ b.last.val = (b'.slot ⟨i, by omega⟩).val := by
          rw [hslot]
          exact fun he => hi (hlast.mpr he.symm)
        rw [if_neg hl, List.getElem_append_left (by rw [length_toList]; omega), getElem_toList]
        simp only [Fin.getElem_fin, ← hslot, hb']

/-- Whatever a put does, the queue only grows at its end. -/
theorem toList_prefix_put (b : CircularBuffer α size) (v : α) :
    b.toList <+: (b.put v).2.toList := by
  rw [toList_put]
  split_ifs
  · exact List.prefix_append _ _
  · exact List.prefix_rfl

theorem put_first (b : CircularBuffer α size) (v : α) : (b.put v).2.first = b.first := by
  simp only [put]
  split_ifs <;> rfl

theorem put_of_refused {b : CircularBuffer α size} {v : α} (h : (b.put v).1 = false) :
    (b.put v).2 = b := by
  simp only [put] at h ⊢
  split_ifs at h ⊢
  rfl

theorem pull_last (b : CircularBuffer α size) : b.pull.2.last = b.last := by
  simp only [pull]
  split_ifs <;> rfl

theorem pull_buffer (b : CircularBuffer α size) : b.pull.2.buffer = b.buffer := by
  simp only [pull]
  split_ifs <;> rfl

end CircularBuffer

end BluePill
