import BluePill.Lib.Fallible

/-! Transfers in rounds: a loop that advances an offset by what each round reports, and stops
at the total or at a round that reports nothing. -/
namespace BluePill.Lib

variable {ε σ : Type}

/-- `while (offset < total)`: a round that reports zero leaves the loop. -/
def transfer (round : ℕ → σ → Except ε (ℕ × σ)) (total offset : ℕ) (s : σ) : Except ε (ℕ × σ) :=
  if offset < total then
    (round offset s).bind fun r =>
      if _h : r.1 = 0 then .ok (offset, r.2) else transfer round total (offset + r.1) r.2
  else .ok (offset, s)
termination_by total - offset
decreasing_by omega

theorem transfer_done (round : ℕ → σ → Except ε (ℕ × σ)) {total offset : ℕ} (s : σ)
    (h : total ≤ offset) : transfer round total offset s = .ok (offset, s) := by
  rw [transfer, if_neg (by omega)]

theorem transfer_round {round : ℕ → σ → Except ε (ℕ × σ)} {total offset n : ℕ} {s s' : σ}
    (h : offset < total) (hround : round offset s = .ok (n, s')) (hn : n ≠ 0) :
    transfer round total offset s = transfer round total (offset + n) s' := by
  rw [transfer, if_pos h, hround]
  show (if _h : n = 0 then _ else _) = _
  rw [dif_neg hn]

theorem transfer_stop {round : ℕ → σ → Except ε (ℕ × σ)} {total offset : ℕ} {s s' : σ}
    (h : offset < total) (hround : round offset s = .ok (0, s')) :
    transfer round total offset s = .ok (offset, s') := by
  rw [transfer, if_pos h, hround]
  show (if _h : 0 = 0 then Except.ok (offset, s') else transfer round total (offset + 0) s') = _
  rw [dif_pos rfl]

theorem transfer_fails {round : ℕ → σ → Except ε (ℕ × σ)} {total offset : ℕ} {s : σ} {e : ε}
    (h : offset < total) (hround : round offset s = .error e) :
    transfer round total offset s = .error e := by
  rw [transfer, if_pos h, hround]
  rfl

/-- Rounds that advance inside the total and keep `P` carry the transfer to its end. -/
theorem transfer_complete {round : ℕ → σ → Except ε (ℕ × σ)} {total : ℕ} (P : ℕ → σ → Prop)
    (hround : ∀ offset s, offset < total → P offset s →
      ∃ n s', round offset s = .ok (n, s') ∧ n ≠ 0 ∧ offset + n ≤ total ∧ P (offset + n) s')
    {offset : ℕ} {s : σ} (hle : offset ≤ total) (h : P offset s) :
    ∃ s', transfer round total offset s = .ok (total, s') ∧ P total s' := by
  induction hn : total - offset using Nat.strong_induction_on generalizing offset s with
  | _ k ih =>
    by_cases hlt : offset < total
    · obtain ⟨n, s₁, hs₁, hne, hle₁, hP₁⟩ := hround offset s hlt h
      obtain ⟨s₂, hs₂, hP₂⟩ := ih (total - (offset + n)) (by omega) hle₁ hP₁ rfl
      exact ⟨s₂, (transfer_round hlt hs₁ hne).trans hs₂, hP₂⟩
    · obtain rfl : offset = total := by omega
      exact ⟨s, transfer_done round s le_rfl, h⟩

/-- Rounds that do not fail carry the transfer to an end. -/
theorem transfer_total (round : ℕ → σ → Except ε (ℕ × σ)) (total : ℕ)
    (hround : ∀ offset s, offset < total → ∃ n s', round offset s = .ok (n, s')) (offset : ℕ) (s : σ) :
    ∃ last s', transfer round total offset s = .ok (last, s') := by
  induction hk : total - offset using Nat.strong_induction_on generalizing offset s with
  | _ k ih =>
    by_cases hlt : offset < total
    · obtain ⟨n, s₁, hr⟩ := hround offset s hlt
      by_cases hn : n = 0
      · subst hn
        exact ⟨offset, s₁, transfer_stop hlt hr⟩
      · obtain ⟨last, s', hrun⟩ := ih (total - (offset + n)) (by omega) (offset + n) s₁ rfl
        exact ⟨last, s', (transfer_round hlt hr hn).trans hrun⟩
    · exact ⟨offset, s, transfer_done round s (not_lt.mp hlt)⟩

/-- What every round keeps holds at the end of a transfer. -/
theorem transfer_invariant {round : ℕ → σ → Except ε (ℕ × σ)} {total : ℕ} (P : ℕ → σ → Prop)
    (hround : ∀ offset s n s', offset < total → P offset s → round offset s = .ok (n, s') →
      P (offset + n) s')
    {offset last : ℕ} {s s' : σ} (h : P offset s)
    (hrun : transfer round total offset s = .ok (last, s')) : P last s' := by
  induction hk : total - offset using Nat.strong_induction_on generalizing offset s with
  | _ k ih =>
    by_cases hlt : offset < total
    · rw [transfer, if_pos hlt] at hrun
      obtain ⟨⟨n, s₁⟩, hr, hrest⟩ := bind_eq_ok.mp hrun
      have hP := hround offset s n s₁ hlt h hr
      by_cases hn : n = 0
      · subst hn
        obtain ⟨rfl, rfl⟩ := Prod.mk.inj (Except.ok.inj hrest)
        exact hP
      · simp only [dif_neg hn] at hrest
        exact ih (total - (offset + n)) (by omega) hP hrest rfl
    · rw [transfer_done round s (not_lt.mp hlt)] at hrun
      obtain ⟨rfl, rfl⟩ := Prod.mk.inj (Except.ok.inj hrun)
      exact h

variable {τ : Type}

/-- `step` is what a round does to the part `τ` of the state when it succeeds. Every round from
`offset` on does, and `t'` is the end. -/
inductive Carried (step : ℕ → τ → Option (ℕ × τ)) (total : ℕ) : ℕ → τ → τ → Prop
  | done {offset : ℕ} {t : τ} (h : total ≤ offset) : Carried step total offset t t
  | next {offset n : ℕ} {t t₁ t' : τ} (h : offset < total) (hstep : step offset t = some (n, t₁))
    (hrest : Carried step total (offset + n) t₁ t') : Carried step total offset t t'

variable {round : ℕ → σ → Except ε (ℕ × σ)} {step : ℕ → τ → Option (ℕ × τ)} {proj : σ → τ}
  {total : ℕ}

variable (round proj) in
/-- Rounds that keep `P` where their step succeeds keep it to the end of a transfer all of whose
steps do. -/
theorem Carried.transfer_ok (P : ℕ → σ → Prop)
    (hround : ∀ offset s n t, offset < total → P offset s → step offset (proj s) = some (n, t) →
      ∃ s', round offset s = .ok (n, s') ∧ n ≠ 0 ∧ proj s' = t ∧ P (offset + n) s')
    {offset : ℕ} {s : σ} {t' : τ} (hcarried : Carried step total offset (proj s) t')
    (h : P offset s) :
    ∃ last s', transfer round total offset s = .ok (last, s') ∧ total ≤ last ∧ proj s' = t' ∧
      P last s' := by
  generalize ht : proj s = t at hcarried
  induction hcarried generalizing s with
  | done hle => exact ⟨_, s, transfer_done round s hle, hle, ht, h⟩
  | next hlt hstep _ ih =>
    obtain ⟨s₁, hr, hn, hproj₁, hP⟩ := hround _ s _ _ hlt h (ht ▸ hstep)
    obtain ⟨last, s', hrun, hend, hproj, hP'⟩ := ih hP hproj₁
    exact ⟨last, s', (transfer_round hlt hr hn).trans hrun, hend, hproj, hP'⟩

variable (proj) in
/-- `marks` says of each position what has been done about it. A transfer with a round whose step
fails leaves some position as it was, if such a round itself does and no round comes back to a
position behind it. -/
theorem transfer_misses {μ : Type} (marks : σ → ℕ → μ)
    (hgood : ∀ offset s n t, offset < total → step offset (proj s) = some (n, t) →
      ∃ s', round offset s = .ok (n, s') ∧ n ≠ 0 ∧ proj s' = t ∧
        ∀ x, offset + n ≤ x → x < total → marks s' x = marks s x)
    (hbad : ∀ offset s n s', offset < total → step offset (proj s) = none →
      round offset s = .ok (n, s') →
      ∃ x, offset ≤ x ∧ x < total ∧ (n ≠ 0 → x < offset + n) ∧ marks s' x = marks s x)
    (hbehind : ∀ offset s n s', offset < total → round offset s = .ok (n, s') →
      ∀ x < offset, marks s' x = marks s x)
    {offset last : ℕ} {s s' : σ} (hfails : ¬ ∃ t', Carried step total offset (proj s) t')
    (hrun : transfer round total offset s = .ok (last, s')) :
    ∃ x, offset ≤ x ∧ x < total ∧ marks s' x = marks s x := by
  induction hk : total - offset using Nat.strong_induction_on generalizing offset s with
  | _ k ih =>
    by_cases hlt : offset < total
    · cases hstep : step offset (proj s) with
      | some r =>
        obtain ⟨n, t⟩ := r
        obtain ⟨s₁, hr, hn, rfl, hahead⟩ := hgood offset s n t hlt hstep
        rw [transfer_round hlt hr hn] at hrun
        obtain ⟨x, hlo, hhi, hx⟩ := ih (total - (offset + n)) (by omega)
          (fun ⟨t', ht'⟩ => hfails ⟨t', .next hlt hstep ht'⟩) hrun rfl
        exact ⟨x, by omega, hhi, hx.trans (hahead x hlo hhi)⟩
      | none =>
        rw [transfer, if_pos hlt] at hrun
        obtain ⟨⟨n, s₁⟩, hr, hrest⟩ := bind_eq_ok.mp hrun
        obtain ⟨x, hlo, hhi, hin, hx⟩ := hbad offset s n s₁ hlt hstep hr
        by_cases hn : n = 0
        · subst hn
          obtain ⟨-, rfl⟩ := Prod.mk.inj (Except.ok.inj hrest)
          exact ⟨x, hlo, hhi, hx⟩
        · simp only [dif_neg hn] at hrest
          -- later rounds begin behind `x`
          have hkept := transfer_invariant (fun at' s => offset + n ≤ at' ∧ marks s x = marks s₁ x)
            (fun at' s m s' hlt' hP hr' => ⟨by omega,
              (hbehind at' s m s' hlt' hr' x (by have := hin hn; omega)).trans hP.2⟩)
            ⟨le_rfl, rfl⟩ hrest
          exact ⟨x, hlo, hhi, hkept.2.trans hx⟩
    · exact absurd ⟨proj s, .done (not_lt.mp hlt)⟩ hfails

/-- `while (offset < total)` whose rounds report how far they got, or nothing to leave the loop.
A round that reports zero is repeated, so that the loop needs a bound on its rounds; `stuck` is
the result of a loop that has not ended by then. -/
def rounds (round : ℕ → σ → Except ε (Option ℕ × σ)) (total : ℕ) (stuck : ε) :
    ℕ → ℕ → σ → Except ε (ℕ × σ)
  | 0, offset, s => if offset < total then .error stuck else .ok (offset, s)
  | fuel + 1, offset, s =>
    if offset < total then
      (round offset s).bind fun r =>
        match r.1 with
        | none => .ok (offset, r.2)
        | some n => rounds round total stuck fuel (offset + n) r.2
    else .ok (offset, s)

theorem rounds_done (round : ℕ → σ → Except ε (Option ℕ × σ)) {total offset : ℕ} (stuck : ε)
    (fuel : ℕ) (s : σ) (h : total ≤ offset) :
    rounds round total stuck fuel offset s = .ok (offset, s) := by
  cases fuel <;> rw [rounds, if_neg (by omega)]

theorem rounds_next {round : ℕ → σ → Except ε (Option ℕ × σ)} {total offset n : ℕ} (stuck : ε)
    {s s' : σ} (fuel : ℕ) (h : offset < total) (hround : round offset s = .ok (some n, s')) :
    rounds round total stuck (fuel + 1) offset s =
      rounds round total stuck fuel (offset + n) s' := by
  rw [rounds, if_pos h, hround]
  rfl

/-- A loop that has ended ends the same way with more rounds allowed. -/
theorem rounds_more {round : ℕ → σ → Except ε (Option ℕ × σ)} {total : ℕ} {stuck : ε}
    {fuel fuel' offset : ℕ} {s : σ} {r : ℕ × σ} (hle : fuel ≤ fuel')
    (h : rounds round total stuck fuel offset s = .ok r) :
    rounds round total stuck fuel' offset s = .ok r := by
  induction fuel generalizing fuel' offset s with
  | zero =>
    rw [rounds] at h
    split_ifs at h with hlt
    obtain rfl := Except.ok.inj h
    exact rounds_done round stuck fuel' s (not_lt.mp hlt)
  | succ fuel ih =>
    obtain ⟨more, rfl⟩ : ∃ more, fuel' = more + 1 := ⟨fuel' - 1, by omega⟩
    rw [rounds] at h ⊢
    split_ifs at h ⊢ with hlt
    · obtain ⟨⟨n, s₁⟩, hr, hrest⟩ := bind_eq_ok.mp h
      apply bind_eq_ok.mpr ⟨(n, s₁), hr, ?_⟩
      cases n with
      | none => exact hrest
      | some n => exact ih (Nat.le_of_succ_le_succ hle) hrest
    · exact h

/-- What every round keeps holds at the end of a loop that ends. -/
theorem rounds_invariant {round : ℕ → σ → Except ε (Option ℕ × σ)} {total : ℕ} {stuck : ε}
    (P : ℕ → σ → Prop) (hround : ∀ offset s n s', offset < total → P offset s →
      round offset s = .ok (n, s') → P (offset + n.getD 0) s')
    {fuel offset last : ℕ} {s s' : σ} (h : P offset s)
    (hend : rounds round total stuck fuel offset s = .ok (last, s')) : P last s' := by
  induction fuel generalizing offset s with
  | zero =>
    rw [rounds] at hend
    split_ifs at hend
    obtain ⟨rfl, rfl⟩ := Prod.mk.inj (Except.ok.inj hend)
    exact h
  | succ fuel ih =>
    rw [rounds] at hend
    split_ifs at hend with hlt
    · obtain ⟨⟨n, s₁⟩, hr, hrest⟩ := bind_eq_ok.mp hend
      have hP := hround offset s n s₁ hlt h hr
      cases n with
      | none =>
        obtain ⟨rfl, rfl⟩ := Prod.mk.inj (Except.ok.inj hrest)
        exact hP
      | some n => exact ih hP hrest
    · obtain ⟨rfl, rfl⟩ := Prod.mk.inj (Except.ok.inj hend)
      exact h

end BluePill.Lib
