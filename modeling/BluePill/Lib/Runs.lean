import Mathlib.Tactic

/-! Runs of a machine whose events are partial functions on its states: reachability under a
condition on every step, invariants, and runs that continue from a reached state. -/
namespace BluePill.Lib

variable {σ ε : Type*}

/-- A run of `step` from `s` through the events `es` in which every event met `ok` in the
state where it happened. -/
inductive Run (step : σ → ε → Option σ) (ok : σ → ε → Prop) (s : σ) : List ε → σ → Prop
  | start : Run step ok s [] s
  | snoc {es : List ε} {t u : σ} {e : ε} :
      Run step ok s es t → ok t e → step t e = some u → Run step ok s (es ++ [e]) u

/-- No condition on the steps. -/
def anyStep (_ : σ) (_ : ε) : Prop := True

instance (s : σ) (e : ε) : Decidable (anyStep s e) := isTrue trivial

/-- The executable run: `none` as soon as an event is not enabled. -/
def runEvents (step : σ → ε → Option σ) : σ → List ε → Option σ
  | s, [] => some s
  | s, e :: es => (step s e).bind fun t => runEvents step t es

/-- The executable run that also checks the condition at every event. -/
def runChecked (step : σ → ε → Option σ) (ok : σ → ε → Prop) [∀ s e, Decidable (ok s e)] :
    σ → List ε → Option σ
  | s, [] => some s
  | s, e :: es =>
    if ok s e then (step s e).bind fun t => runChecked step ok t es else none

section

variable {step : σ → ε → Option σ} {ok : σ → ε → Prop} {s t u : σ} {es fs : List ε}

theorem Run.trans (h : Run step ok s es t) (h' : Run step ok t fs u) :
    Run step ok s (es ++ fs) u := by
  induction h' with
  | start => simpa using h
  | snoc _ hok hs ih =>
    rw [← List.append_assoc]
    exact ih.snoc hok hs

theorem Run.eq_of_nil (h : Run step ok s es t) (hes : es = []) : t = s := by
  cases h with
  | start => rfl
  | snoc _ _ _ => simp at hes

/-- A run of one event is that event. -/
theorem Run.singleton {e : ε} (h : Run step ok s es t) (hes : es = [e]) :
    ok s e ∧ step s e = some t := by
  cases h with
  | start => simp at hes
  | @snoc es' u _ e' hrun hok hs =>
    have hnil : es' = [] := List.length_eq_zero_iff.mp (by simpa using congrArg List.length hes)
    subst hnil
    obtain rfl : e' = e := by simpa using hes
    obtain rfl := hrun.eq_of_nil rfl
    exact ⟨hok, hs⟩

/-- What holds at the start and is kept by every step that meets the condition holds in
every state reached. -/
theorem Run.invariant (h : Run step ok s es t) {P : σ → Prop} (h0 : P s)
    (hstep : ∀ s e t, P s → ok s e → step s e = some t → P t) : P t := by
  induction h with
  | start => exact h0
  | snoc _ hok hs ih => exact hstep _ _ _ ih hok hs

theorem Run.of_runChecked [∀ s e, Decidable (ok s e)] (h : runChecked step ok s es = some t) :
    Run step ok s es t := by
  induction es generalizing s with
  | nil =>
    obtain rfl : s = t := Option.some.inj h
    exact .start
  | cons e es ih =>
    rw [runChecked] at h
    split at h
    next hok =>
      obtain ⟨u, hu, hrest⟩ := Option.bind_eq_some_iff.mp h
      have hone : Run step ok s [e] u := Run.start.snoc hok hu
      exact hone.trans (ih hrest)
    next => cases h

theorem Run.of_runEvents (h : runEvents step s es = some t) :
    Run step anyStep s es t := by
  induction es generalizing s with
  | nil =>
    obtain rfl : s = t := Option.some.inj h
    exact .start
  | cons e es ih =>
    obtain ⟨u, hu, hrest⟩ := Option.bind_eq_some_iff.mp h
    have hone : Run step anyStep s [e] u := Run.start.snoc trivial hu
    exact hone.trans (ih hrest)

/-- The state after the events of a checked run. -/
def endState (step : σ → ε → Option σ) (ok : σ → ε → Prop) [∀ s e, Decidable (ok s e)] (s : σ)
    (es : List ε) : σ := (runChecked step ok s es).getD s

theorem runChecked_append [∀ s e, Decidable (ok s e)] (s : σ) (es fs : List ε) :
    runChecked step ok s (es ++ fs) =
      (runChecked step ok s es).bind fun t => runChecked step ok t fs := by
  induction es generalizing s with
  | nil => rfl
  | cons e es ih =>
    rw [List.cons_append, runChecked, runChecked]
    split_ifs
    · rw [Option.bind_assoc]
      congr 1
      funext t
      exact ih t
    · rfl

/-- A part of a checked run is a run between its end states. -/
theorem Run.of_segment [∀ s e, Decidable (ok s e)]
    (h : (runChecked step ok s (es ++ fs)).isSome = true) :
    Run step ok (endState step ok s es) fs (endState step ok s (es ++ fs)) := by
  obtain ⟨u, hu⟩ := Option.isSome_iff_exists.mp h
  have hsplit := hu
  rw [runChecked_append] at hsplit
  obtain ⟨t, ht, hrest⟩ := Option.bind_eq_some_iff.mp hsplit
  have hmid : endState step ok s es = t := by rw [endState, ht, Option.getD_some]
  have hend : endState step ok s (es ++ fs) = u := by rw [endState, hu, Option.getD_some]
  rw [hmid, hend]
  exact .of_runChecked hrest

end

end BluePill.Lib
