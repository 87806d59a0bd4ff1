import Mathlib.Tactic

/-! A FIFO queue that holds a bounded number of elements: its calls with their results, its
histories, and what every history says about the elements. -/
namespace BluePill.Lib

variable {α : Type*}

/-- A call with its result. A queue that is empty has nothing to get or to pull. -/
inductive QueueEvent (α : Type*) where
  | put (value : α) (accepted : Bool)
  | get (result : Option α)
  | pull (result : Option α)
  | isEmpty (result : Bool)
  deriving DecidableEq, Repr

/-- What the calls do to a queue of at most `capacity` elements, oldest first. -/
inductive FifoStep (capacity : ℕ) : List α → QueueEvent α → List α → Prop
  | accept {items : List α} {value : α} (hroom : items.length < capacity) :
      FifoStep capacity items (.put value true) (items ++ [value])
  | refuse {items : List α} {value : α} (hfull : capacity ≤ items.length) :
      FifoStep capacity items (.put value false) items
  | get {items : List α} : FifoStep capacity items (.get items.head?) items
  | pull {items : List α} : FifoStep capacity items (.pull items.head?) items.tail
  | isEmpty {items : List α} : FifoStep capacity items (.isEmpty items.isEmpty) items

/-- The history of a queue that starts empty, and the elements that it then holds. -/
inductive FifoRun (capacity : ℕ) : List (QueueEvent α) → List α → Prop
  | nil : FifoRun capacity [] []
  | snoc {events : List (QueueEvent α)} {event : QueueEvent α} {items items' : List α} :
      FifoRun capacity events items → FifoStep capacity items event items' →
        FifoRun capacity (events ++ [event]) items'

def QueueEvent.accepted : QueueEvent α → Option α
  | .put value true => some value
  | _ => none

def QueueEvent.pulled : QueueEvent α → Option α
  | .pull result => result
  | _ => none

/-- The elements that a history put in, and those that it took out. -/
def acceptedElements (events : List (QueueEvent α)) : List α := events.filterMap QueueEvent.accepted

def pulledElements (events : List (QueueEvent α)) : List α := events.filterMap QueueEvent.pulled

theorem FifoRun.length_le {capacity : ℕ} {events : List (QueueEvent α)} {items : List α}
    (h : FifoRun capacity events items) : items.length ≤ capacity := by
  induction h with
  | nil => exact Nat.zero_le capacity
  | snoc _ hstep ih =>
    cases hstep with
    | accept hroom =>
      rw [List.length_append]
      exact hroom
    | refuse => exact ih
    | get => exact ih
    | pull =>
      rw [List.length_tail]
      omega
    | isEmpty => exact ih

theorem filterMap_singleton_eq {β : Type*} (f : α → Option β) (a : α) :
    [a].filterMap f = (f a).toList := by
  cases h : f a with
  | none => rw [List.filterMap_cons_none h]; rfl
  | some b => rw [List.filterMap_cons_some h]; rfl

/-- Every accepted element is taken out once, in the order of the puts, or still held. -/
theorem FifoRun.accepted_eq {capacity : ℕ} {events : List (QueueEvent α)} {items : List α}
    (h : FifoRun capacity events items) :
    acceptedElements events = pulledElements events ++ items := by
  induction h with
  | nil => rfl
  | @snoc events event items items' _ hstep ih =>
    unfold acceptedElements pulledElements at ih ⊢
    rw [List.filterMap_append, List.filterMap_append, filterMap_singleton_eq,
      filterMap_singleton_eq, ih]
    cases hstep with
    | accept hroom => simp [QueueEvent.accepted, QueueEvent.pulled]
    | refuse hfull => simp [QueueEvent.accepted, QueueEvent.pulled]
    | get => simp [QueueEvent.accepted, QueueEvent.pulled]
    | pull => cases items <;> simp [QueueEvent.accepted, QueueEvent.pulled]
    | isEmpty => simp [QueueEvent.accepted, QueueEvent.pulled]

end BluePill.Lib
