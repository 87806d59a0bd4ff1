import Mathlib.Tactic

/-! Latches of a machine: what some events set and others clear, and which event is the last that
counts after a whole run. -/
namespace BluePill.Lib

variable {σ ε : Type*}

/-- `P` holds after an event that sets it, and after one that does not clear it where it held. -/
structure Latch (step : σ → ε → σ) (P : σ → Prop) (Sets Clears : σ → ε → Prop) : Prop where
  step_iff : ∀ s e, P (step s e) ↔ Sets s e ∨ (P s ∧ ¬ Clears s e)

/-- No event of the run clears, in the state where it happens. -/
def Kept (step : σ → ε → σ) (Clears : σ → ε → Prop) (s : σ) (es : List ε) : Prop :=
  ∀ front e back, es = front ++ e :: back → ¬ Clears (front.foldl step s) e

variable {step : σ → ε → σ} {P : σ → Prop} {Sets Clears : σ → ε → Prop}

theorem kept_nil (s : σ) : Kept step Clears s [] := by
  intro front e back h
  simp at h

/-- A list with a last element, cut somewhere: in front of that element or inside. -/
theorem snoc_eq_iff {es front back : List ε} {e d : ε} : es ++ [d] = front ++ e :: back ↔
    (back = [] ∧ front = es ∧ e = d) ∨ ∃ back', back = back' ++ [d] ∧ es = front ++ e :: back' := by
  constructor
  · intro h
    rcases List.eq_nil_or_concat back with rfl | ⟨back', last, rfl⟩
    · obtain ⟨rfl, hlast⟩ := List.append_inj' h rfl
      obtain rfl : d = e := by simpa using hlast
      exact .inl ⟨rfl, rfl, rfl⟩
    · rw [List.concat_eq_append, ← List.cons_append, ← List.append_assoc] at h
      obtain ⟨rfl, hlast⟩ := List.append_inj' h rfl
      obtain rfl : d = last := by simpa using hlast
      exact .inr ⟨back', List.concat_eq_append, rfl⟩
  · rintro (⟨rfl, rfl, rfl⟩ | ⟨back', rfl, rfl⟩)
    · rfl
    · simp

theorem kept_snoc (s : σ) (es : List ε) (d : ε) : Kept step Clears s (es ++ [d]) ↔
    Kept step Clears s es ∧ ¬ Clears (es.foldl step s) d := by
  constructor
  · intro h
    constructor
    · intro front e back heq
      exact h front e (back ++ [d]) (snoc_eq_iff.mpr (.inr ⟨back, rfl, heq⟩))
    · exact h es d [] rfl
  · rintro ⟨hkept, hlast⟩ front e back heq
    rcases snoc_eq_iff.mp heq with ⟨rfl, rfl, rfl⟩ | ⟨back', rfl, hes⟩
    · exact hlast
    · exact hkept front e back' hes

/-- What clears does not depend on the state. -/
theorem kept_iff_forall {C : ε → Prop} (s : σ) (es : List ε) :
    Kept step (fun _ e => C e) s es ↔ ∀ e ∈ es, ¬ C e := by
  constructor
  · intro h e he
    obtain ⟨front, back, rfl⟩ := List.append_of_mem he
    exact h front e back rfl
  · rintro h front e back rfl
    exact h e (by simp)

/-- After a run the latch is set if it was from the start on, or if an event set it and none has
cleared it since. -/
theorem Latch.foldl_iff (hlatch : Latch step P Sets Clears) (s : σ) (es : List ε) :
    P (es.foldl step s) ↔ (P s ∧ Kept step Clears s es) ∨
      ∃ front e back, es = front ++ e :: back ∧ Sets (front.foldl step s) e ∧
        Kept step Clears (step (front.foldl step s) e) back := by
  induction es using List.reverseRecOn with
  | nil =>
    constructor
    · intro h
      exact .inl ⟨h, kept_nil s⟩
    · rintro (⟨h, -⟩ | ⟨front, e, back, heq, -⟩)
      · exact h
      · simp at heq
  | append_singleton es d ih =>
    rw [List.foldl_append, List.foldl_cons, List.foldl_nil, hlatch.step_iff, ih]
    constructor
    · rintro (hsets | ⟨⟨hs, hkept⟩ | ⟨front, e, back, rfl, hsets, hkept⟩, hlast⟩)
      · exact .inr ⟨es, d, [], rfl, hsets, kept_nil _⟩
      · exact .inl ⟨hs, (kept_snoc s es d).mpr ⟨hkept, hlast⟩⟩
      · rw [List.foldl_append, List.foldl_cons] at hlast
        exact .inr ⟨front, e, back ++ [d], by simp, hsets, (kept_snoc _ back d).mpr ⟨hkept, hlast⟩⟩
    · rintro (⟨hs, hkept⟩ | ⟨front, e, back, heq, hsets, hkept⟩)
      · obtain ⟨hkept, hlast⟩ := (kept_snoc s es d).mp hkept
        exact .inr ⟨.inl ⟨hs, hkept⟩, hlast⟩
      · rcases snoc_eq_iff.mp heq with ⟨rfl, rfl, rfl⟩ | ⟨back', rfl, rfl⟩
        · exact .inl hsets
        · obtain ⟨hkept, hlast⟩ := (kept_snoc _ back' d).mp hkept
          rw [List.foldl_append, List.foldl_cons]
          exact .inr ⟨.inr ⟨front, e, back', rfl, hsets, hkept⟩, hlast⟩

end BluePill.Lib
