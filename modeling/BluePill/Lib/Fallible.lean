import Mathlib.Tactic

/-! Fallible computations: taking a computation that returned apart at its binds, and
postconditions of computations that may not return. -/
namespace BluePill.Lib

variable {ε α β : Type*}

theorem bind_eq_ok {ε α β : Type} {x : Except ε α} {f : α → Except ε β} {b : β} :
    (x >>= f) = .ok b ↔ ∃ a, x = .ok a ∧ f a = .ok b := by
  cases x <;> simp [bind, Except.bind]

theorem pure_eq_ok {ε α : Type} {a b : α} : (pure a : Except ε α) = .ok b ↔ a = b := by
  simp [pure, Except.pure]

theorem bind_of_ok {ε α β : Type} {x : Except ε α} {f : α → Except ε β} {a : α} (h : x = .ok a) :
    (x >>= f) = f a := by
  rw [h]
  rfl

theorem bind_of_error {ε α β : Type} {x : Except ε α} {f : α → Except ε β} {e : ε}
    (h : x = .error e) : (x >>= f) = .error e := by
  rw [h]
  rfl

theorem map_bind_congr {ε α β γ : Type} {f : β → γ} {x : Except ε α} {g : α → Except ε β}
    {g' : α → Except ε γ} (h : ∀ a, f <$> g a = g' a) : f <$> (x >>= g) = x >>= g' := by
  cases x with
  | error e => rfl
  | ok a => exact h a

theorem map_ite_congr {ε β γ : Type} {f : β → γ} {c : Prop} [Decidable c] {x y : Except ε β}
    {x' y' : Except ε γ} (hx : f <$> x = x') (hy : f <$> y = y') :
    f <$> (if c then x else y) = if c then x' else y' := by
  split_ifs
  · exact hx
  · exact hy

/-- `y` returns what `x` returns, and may return where `x` fails. -/
def FailsLess (x y : Except ε α) : Prop := ∀ a, x = .ok a → y = .ok a

theorem FailsLess.refl (x : Except ε α) : FailsLess x x := fun _ => id

theorem FailsLess.bind {ε α β : Type} {x y : Except ε α} {f g : α → Except ε β} (hxy : FailsLess x y)
    (hfg : ∀ a, FailsLess (f a) (g a)) : FailsLess (x >>= f) (y >>= g) := by
  intro b hb
  obtain ⟨a, ha, hfa⟩ := bind_eq_ok.mp hb
  exact bind_eq_ok.mpr ⟨a, hxy a ha, hfg a b hfa⟩

theorem FailsLess.ite {c : Prop} [Decidable c] {x y x' y' : Except ε α} (h : FailsLess x y)
    (h' : FailsLess x' y') : FailsLess (if c then x else x') (if c then y else y') := by
  split_ifs
  · exact h
  · exact h'

theorem mapM_ok {ε α β : Type} {f : α → Except ε β} {g : α → β} {l : List α}
    (h : ∀ a ∈ l, f a = .ok (g a)) : l.mapM f = .ok (l.map g) := by
  induction l with
  | nil => rfl
  | cons a l ih =>
    rw [List.mapM_cons, bind_of_ok (h a List.mem_cons_self),
      bind_of_ok (ih fun b hb => h b (List.mem_cons_of_mem a hb))]
    rfl

theorem foldlM_eq_ok {ε α σ : Type} {f : σ → α → Except ε σ} {g : σ → α → σ} {l : List α}
    (h : ∀ s, ∀ a ∈ l, f s a = .ok (g s a)) (s : σ) : l.foldlM f s = .ok (l.foldl g s) := by
  induction l generalizing s with
  | nil => rfl
  | cons a l ih =>
    rw [List.foldlM_cons, bind_of_ok (h s a List.mem_cons_self), List.foldl_cons]
    exact ih (fun s b hb => h s b (List.mem_cons_of_mem a hb)) (g s a)

/-- Steps that return and keep `P` carry a fold to its end. -/
theorem foldlM_ok {ε α σ : Type} {f : σ → α → Except ε σ} (P : σ → Prop) {l : List α}
    (hstep : ∀ s, P s → ∀ a ∈ l, ∃ s', f s a = .ok s' ∧ P s') {s : σ} (h : P s) :
    ∃ s', l.foldlM f s = .ok s' ∧ P s' := by
  induction l generalizing s with
  | nil => exact ⟨s, rfl, h⟩
  | cons a l ih =>
    obtain ⟨s₁, hs₁, hP₁⟩ := hstep s h a List.mem_cons_self
    obtain ⟨s₂, hs₂, hP₂⟩ := ih (fun s hs b hb => hstep s hs b (List.mem_cons_of_mem a hb)) hP₁
    exact ⟨s₂, by rw [List.foldlM_cons, bind_of_ok hs₁, hs₂], hP₂⟩

/-- A fold over steps that return or fail with `e` fails where one of them must. -/
theorem foldlM_error {ε α σ : Type} {f : σ → α → Except ε σ} {e : ε} {l : List α}
    (hstep : ∀ s, ∀ a ∈ l, (∃ s', f s a = .ok s') ∨ f s a = .error e) {a : α} (ha : a ∈ l)
    (hfail : ∀ s, f s a = .error e) (s : σ) : l.foldlM f s = .error e := by
  induction l generalizing s with
  | nil => exact absurd ha List.not_mem_nil
  | cons b l ih =>
    rw [List.foldlM_cons]
    rcases hstep s b List.mem_cons_self with ⟨s', hs'⟩ | herror
    · rw [bind_of_ok hs']
      rcases List.mem_cons.mp ha with rfl | hrest
      · rw [hfail s] at hs'
        cases hs'
      · exact ih (fun s c hc => hstep s c (List.mem_cons_of_mem b hc)) hrest s'
    · exact bind_of_error herror

/-- If `x` returns, what it returns satisfies `P`. -/
def Ensures (x : Except ε α) (P : α → Prop) : Prop := ∀ a, x = .ok a → P a

theorem Ensures.mono {P Q : α → Prop} {x : Except ε α} (h : Ensures x P) (hPQ : ∀ a, P a → Q a) :
    Ensures x Q := fun a ha => hPQ a (h a ha)

theorem Ensures.any (x : Except ε α) : Ensures x fun _ => True := fun _ _ => trivial

theorem Ensures.ok {P : α → Prop} {a : α} (h : P a) : Ensures (.ok a : Except ε α) P := by
  intro b hb
  obtain rfl := Except.ok.inj hb
  exact h

theorem Ensures.error {P : α → Prop} (e : ε) : Ensures (.error e : Except ε α) P := by
  intro b hb
  cases hb

theorem Ensures.bind {ε α β : Type} {P : α → Prop} {Q : β → Prop} {x : Except ε α}
    {f : α → Except ε β} (hx : Ensures x P) (hf : ∀ a, P a → Ensures (f a) Q) :
    Ensures (x >>= f) Q := by
  intro b hb
  obtain ⟨a, ha, hfa⟩ := bind_eq_ok.mp hb
  exact hf a (hx a ha) b hfa

theorem Ensures.ite {P : α → Prop} {c : Prop} [Decidable c] {x y : Except ε α}
    (hx : c → Ensures x P) (hy : ¬ c → Ensures y P) : Ensures (if c then x else y) P := by
  by_cases h : c
  · simpa only [h, if_true] using hx h
  · simpa only [h, if_false] using hy h

end BluePill.Lib
