import BluePill.Lib.Transfer

/-! Loops whose rounds report how far they got: when they end, and what holds of the states that
they pass through. -/
namespace BluePill.Lib

variable {ε σ τ : Type} {round : ℕ → σ → Except ε (Option ℕ × σ)} {total : ℕ} {stuck : ε}

variable (round total stuck) in
/-- The loop is left after finitely many rounds. -/
def Ends (offset : ℕ) (s : σ) : Prop :=
  ∃ fuel r, rounds round total stuck fuel offset s = .ok r

theorem Ends.done {offset : ℕ} (s : σ) (h : total ≤ offset) : Ends round total stuck offset s :=
  ⟨0, _, rounds_done round stuck 0 s h⟩

theorem Ends.stop {offset : ℕ} {s s' : σ} (h : offset < total)
    (hround : round offset s = .ok (none, s')) : Ends round total stuck offset s := by
  refine ⟨1, (offset, s'), ?_⟩
  rw [rounds, if_pos h, hround]
  rfl

theorem Ends.next {offset n : ℕ} {s s' : σ} (h : offset < total)
    (hround : round offset s = .ok (some n, s')) (hrest : Ends round total stuck (offset + n) s') :
    Ends round total stuck offset s := by
  obtain ⟨fuel, r, hr⟩ := hrest
  exact ⟨fuel + 1, r, (rounds_next stuck fuel h hround).trans hr⟩

section
variable (I : ℕ → σ → Prop) (pos : σ → ℕ) (accepts : ℕ → ℕ → Prop) (count : ℕ → ℕ)

/-- From where `I` holds, round `j` of the loop advances by `count j` if it is accepted, and leaves
the loop if not. -/
def RoundsBy (round : ℕ → σ → Except ε (Option ℕ × σ)) (total : ℕ) : Prop :=
  ∀ offset s, offset < total → I offset s →
    (accepts (pos s) offset → ∃ s', round offset s = .ok (some (count (pos s)), s') ∧
      pos s' = pos s + 1 ∧ I (offset + count (pos s)) s') ∧
    (¬ accepts (pos s) offset → ∃ s', round offset s = .ok (none, s'))

variable {I pos accepts count}

/-- Such a loop ends exactly when some round is not accepted or the counts reach the total. -/
theorem ends_iff_of_roundsBy (hround : RoundsBy I pos accepts count round total) {offset : ℕ}
    {s : σ} (hI : I offset s) (hoffset : offset = ∑ i ∈ Finset.range (pos s), count i) :
    Ends round total stuck offset s ↔ ∃ j ≥ pos s,
      ¬ (∑ i ∈ Finset.range j, count i < total ∧ accepts j (∑ i ∈ Finset.range j, count i)) := by
  constructor
  · rintro ⟨fuel, r, hr⟩
    induction fuel generalizing offset s with
    | zero =>
      rw [rounds] at hr
      split_ifs at hr with hlt
      exact ⟨pos s, le_rfl, fun h => hlt (hoffset ▸ h.1)⟩
    | succ fuel ih =>
      by_cases hlt : offset < total
      · by_cases haccepts : accepts (pos s) offset
        · obtain ⟨s', hr', hpos, hI'⟩ := (hround offset s hlt hI).1 haccepts
          rw [rounds_next stuck fuel hlt hr'] at hr
          obtain ⟨j, hj, hfails⟩ := ih hI' (by rw [hpos, Finset.sum_range_succ, hoffset]) hr
          exact ⟨j, by omega, hfails⟩
        · exact ⟨pos s, le_rfl, fun h => haccepts (hoffset ▸ h.2)⟩
      · exact ⟨pos s, le_rfl, fun h => hlt (hoffset ▸ h.1)⟩
  · rintro ⟨j, hj, hfails⟩
    induction hd : j - pos s generalizing offset s with
    | zero =>
      obtain rfl : j = pos s := by omega
      rw [← hoffset] at hfails
      by_cases hlt : offset < total
      · obtain ⟨s', hr⟩ := (hround offset s hlt hI).2 fun h => hfails ⟨hlt, h⟩
        exact .stop hlt hr
      · exact .done s (not_lt.mp hlt)
    | succ d ih =>
      by_cases hlt : offset < total
      · by_cases haccepts : accepts (pos s) offset
        · obtain ⟨s', hr, hpos, hI'⟩ := (hround offset s hlt hI).1 haccepts
          refine .next hlt hr (ih hI' ?_ ?_ ?_)
          · rw [hpos, Finset.sum_range_succ, hoffset]
          · omega
          · omega
        · obtain ⟨s', hr⟩ := (hround offset s hlt hI).2 haccepts
          exact .stop hlt hr
      · exact .done s (not_lt.mp hlt)

end

variable (stuck) in
/-- A loop none of whose rounds advances by zero is a transfer, whatever else its state keeps. -/
theorem transfer_eq_rounds {plain : ℕ → τ → Except ε (ℕ × τ)} (erase : σ → τ)
    (hround : ∀ offset s, plain offset (erase s) =
      (fun r => (r.1.getD 0, erase r.2)) <$> round offset s)
    (hadvance : ∀ offset s, Ensures (round offset s) fun r => r.1 ≠ some 0)
    {fuel offset : ℕ} (s : σ) (hfuel : total - offset ≤ fuel) :
    transfer plain total offset (erase s) =
      (fun r => (r.1, erase r.2)) <$> rounds round total stuck fuel offset s := by
  induction fuel generalizing offset s with
  | zero =>
    have hdone : total ≤ offset := by omega
    rw [transfer_done _ _ hdone, rounds_done _ _ _ _ hdone]
    rfl
  | succ fuel ih =>
    by_cases hlt : offset < total
    · have hplain := hround offset s
      rw [rounds, if_pos hlt]
      cases hr : round offset s with
      | error e =>
        rw [hr] at hplain
        exact transfer_fails hlt hplain
      | ok r =>
        obtain ⟨n, s'⟩ := r
        rw [hr] at hplain
        cases n with
        | none => exact transfer_stop hlt hplain
        | some n =>
          have hn : n ≠ 0 := fun hzero => hadvance offset s _ hr (congrArg some hzero)
          exact (transfer_round hlt hplain hn).trans
            (ih s' (show total - (offset + n) ≤ fuel by omega))
    · rw [transfer_done _ _ (not_lt.mp hlt), rounds_done _ _ _ _ (not_lt.mp hlt)]
      rfl

/-- What a loop keeps beside its state can be left out. -/
theorem rounds_erase {plain : ℕ → τ → Except ε (Option ℕ × τ)} (erase : σ → τ)
    (hround : ∀ offset s, plain offset (erase s) =
      (fun r => (r.1, erase r.2)) <$> round offset s) (fuel offset : ℕ) (s : σ) :
    rounds plain total stuck fuel offset (erase s) =
      (fun r => (r.1, erase r.2)) <$> rounds round total stuck fuel offset s := by
  induction fuel generalizing offset s with
  | zero =>
    rw [rounds, rounds]
    symm
    exact map_ite_congr rfl rfl
  | succ fuel ih =>
    rw [rounds, rounds]
    symm
    refine map_ite_congr ?_ rfl
    rw [hround offset s]
    cases round offset s with
    | error e => rfl
    | ok r =>
      obtain ⟨_ | n, s'⟩ := r
      · rfl
      · exact (ih (offset + n) s').symm

theorem exists_of_map_ok {x : Except ε (ℕ × σ)} {erase : σ → τ} {last : ℕ} {t : τ}
    (h : (fun r => (r.1, erase r.2)) <$> x = .ok (last, t)) :
    ∃ s', x = .ok (last, s') ∧ erase s' = t := by
  cases x with
  | error e => cases h
  | ok r =>
    obtain ⟨rfl, rfl⟩ := Prod.mk.inj (Except.ok.inj h)
    exact ⟨r.2, rfl, rfl⟩

theorem rounds_of_erase {plain : ℕ → τ → Except ε (Option ℕ × τ)} (erase : σ → τ)
    (hround : ∀ offset s, plain offset (erase s) =
      (fun r => (r.1, erase r.2)) <$> round offset s) {fuel offset last : ℕ} (s : σ) {t : τ}
    (h : rounds plain total stuck fuel offset (erase s) = .ok (last, t)) :
    ∃ s', rounds round total stuck fuel offset s = .ok (last, s') ∧ erase s' = t := by
  rw [rounds_erase erase hround] at h
  exact exists_of_map_ok h

/-- A loop whose rounds return more often returns more often. -/
theorem rounds_failsLess {round' : ℕ → σ → Except ε (Option ℕ × σ)}
    (hround : ∀ offset s, FailsLess (round offset s) (round' offset s)) (fuel offset : ℕ) (s : σ) :
    FailsLess (rounds round total stuck fuel offset s) (rounds round' total stuck fuel offset s) := by
  induction fuel generalizing offset s with
  | zero => exact .refl _
  | succ fuel ih =>
    rw [rounds, rounds]
    refine .ite (.bind (hround offset s) fun r => ?_) (.refl _)
    obtain ⟨_ | n, s'⟩ := r
    · exact .refl _
    · exact ih (offset + n) s'

variable (stuck) in
/-- A transfer that returns is a loop that ends, also in rounds that fail less. -/
theorem rounds_of_transfer {plain : ℕ → τ → Except ε (ℕ × τ)}
    {round' : ℕ → σ → Except ε (Option ℕ × σ)} (erase : σ → τ)
    (hround : ∀ offset s, plain offset (erase s) =
      (fun r => (r.1.getD 0, erase r.2)) <$> round offset s)
    (hadvance : ∀ offset s, Ensures (round offset s) fun r => r.1 ≠ some 0)
    (hless : ∀ offset s, FailsLess (round offset s) (round' offset s)) {offset last : ℕ} (s : σ)
    {t : τ} (h : transfer plain total offset (erase s) = .ok (last, t)) :
    ∃ fuel s', rounds round' total stuck fuel offset s = .ok (last, s') ∧ erase s' = t := by
  rw [transfer_eq_rounds stuck erase hround hadvance s le_rfl] at h
  obtain ⟨s', hr, herase⟩ := exists_of_map_ok h
  exact ⟨_, s', rounds_failsLess hless _ _ _ _ hr, herase⟩

variable (round total) in
/-- The loop begun at `offset₀` in `s₀` comes to the head of its body at `offset` in `s`. -/
inductive Visits (offset₀ : ℕ) (s₀ : σ) : ℕ → σ → Prop
  | start : Visits offset₀ s₀ offset₀ s₀
  | next {offset n : ℕ} {s s' : σ} (h : Visits offset₀ s₀ offset s) (hlt : offset < total)
      (hround : round offset s = .ok (some n, s')) : Visits offset₀ s₀ (offset + n) s'

variable (round total) in
/-- Every round that the loop comes to leaves it or strictly advances. -/
def Advances (offset₀ : ℕ) (s₀ : σ) : Prop :=
  ∀ offset s, Visits round total offset₀ s₀ offset s → offset < total →
    ∃ n s', round offset s = .ok (n, s') ∧ n ≠ some 0

/-- Rounds that leave the loop or advance bring it to an end. -/
theorem Advances.ends {offset₀ : ℕ} {s₀ : σ} (h : Advances round total offset₀ s₀) :
    Ends round total stuck offset₀ s₀ := by
  have hfrom (k offset : ℕ) (s : σ) (hk : total - offset = k)
      (hvisits : Visits round total offset₀ s₀ offset s) : Ends round total stuck offset s := by
    induction k using Nat.strong_induction_on generalizing offset s with
    | _ k ih =>
      by_cases hlt : offset < total
      · obtain ⟨n, s', hr, hn⟩ := h offset s hvisits hlt
        cases n with
        | none => exact .stop hlt hr
        | some n =>
          have hpos : n ≠ 0 := fun hzero => hn (congrArg some hzero)
          exact .next hlt hr
            (ih (total - (offset + n)) (by omega) (offset + n) s' rfl (hvisits.next hlt hr))
      · exact .done s (not_lt.mp hlt)
  exact hfrom _ offset₀ s₀ rfl .start

section
variable {I : ℕ → σ → Prop} {pos : σ → ℕ} {accepts : ℕ → ℕ → Prop} {count : ℕ → ℕ}

variable (total accepts count) in
/-- Round `i` is reached short of the total and accepted, if those before it are. -/
def GoesOnAt (i : ℕ) : Prop :=
  ∑ k ∈ Finset.range i, count k < total ∧ accepts i (∑ k ∈ Finset.range i, count k)

/-- A round that goes on is an accepted one. -/
theorem RoundsBy.accepts_of_some (hround : RoundsBy I pos accepts count round total)
    {offset n : ℕ} {s s' : σ} (hlt : offset < total) (hI : I offset s)
    (hr : round offset s = .ok (some n, s')) :
    accepts (pos s) offset ∧ n = count (pos s) ∧ pos s' = pos s + 1 ∧ I (offset + n) s' := by
  obtain ⟨hyes, hno⟩ := hround offset s hlt hI
  by_cases haccepts : accepts (pos s) offset
  · obtain ⟨t, ht, hpos, hI'⟩ := hyes haccepts
    obtain ⟨hn, rfl⟩ := Prod.mk.inj (Except.ok.inj (ht.symm.trans hr))
    obtain rfl := Option.some.inj hn
    exact ⟨haccepts, rfl, hpos, hI'⟩
  · obtain ⟨t, ht⟩ := hno haccepts
    obtain ⟨hn, -⟩ := Prod.mk.inj (Except.ok.inj (ht.symm.trans hr))
    cases hn

theorem Visits.reached (hround : RoundsBy I pos accepts count round total) {offset₀ offset : ℕ}
    {s₀ s : σ} (hI : I offset₀ s₀) (hoffset : offset₀ = ∑ i ∈ Finset.range (pos s₀), count i)
    (h : Visits round total offset₀ s₀ offset s) :
    pos s₀ ≤ pos s ∧ I offset s ∧ offset = ∑ i ∈ Finset.range (pos s), count i ∧
      ∀ i, pos s₀ ≤ i → i < pos s → GoesOnAt total accepts count i := by
  induction h with
  | start => exact ⟨le_rfl, hI, hoffset, fun i hlo hhi => absurd hhi (not_lt.mpr hlo)⟩
  | @next offset n s s' _ hlt hr ih =>
    obtain ⟨hle, hI, hsum, hbefore⟩ := ih
    obtain ⟨haccepts, rfl, hpos, hI'⟩ := hround.accepts_of_some hlt hI hr
    refine ⟨by omega, hI', by rw [hpos, Finset.sum_range_succ, ← hsum], fun i hlo hhi => ?_⟩
    rcases Nat.lt_succ_iff_lt_or_eq.mp (hhi.trans_eq hpos) with hlt' | rfl
    · exact hbefore i hlo hlt'
    · exact ⟨hsum ▸ hlt, hsum ▸ haccepts⟩

theorem exists_visits (hround : RoundsBy I pos accepts count round total) {offset₀ : ℕ} {s₀ : σ}
    (hI : I offset₀ s₀) (hoffset : offset₀ = ∑ i ∈ Finset.range (pos s₀), count i) {j : ℕ}
    (hj : pos s₀ ≤ j) (h : ∀ i, pos s₀ ≤ i → i < j → GoesOnAt total accepts count i) :
    ∃ s, Visits round total offset₀ s₀ (∑ i ∈ Finset.range j, count i) s ∧ pos s = j := by
  induction j, hj using Nat.le_induction with
  | base => exact ⟨s₀, hoffset ▸ .start, rfl⟩
  | succ j hj ih =>
    obtain ⟨s, hvisits, rfl⟩ := ih fun i hlo hhi => h i hlo (Nat.lt_succ_of_lt hhi)
    obtain ⟨-, hIs, -, -⟩ := hvisits.reached hround hI hoffset
    obtain ⟨hlt, haccepts⟩ := h (pos s) hj (Nat.lt_succ_self _)
    obtain ⟨s', hr, hpos, -⟩ := (hround _ s hlt hIs).1 haccepts
    refine ⟨s', ?_, hpos⟩
    rw [Finset.sum_range_succ]
    exact hvisits.next hlt hr

/-- The loop advances in every round exactly when no round that it goes on from has a count of
zero. -/
theorem advances_iff_of_roundsBy (hround : RoundsBy I pos accepts count round total) {offset₀ : ℕ}
    {s₀ : σ} (hI : I offset₀ s₀) (hoffset : offset₀ = ∑ i ∈ Finset.range (pos s₀), count i) :
    Advances round total offset₀ s₀ ↔ ∀ j ≥ pos s₀,
      (∀ i, pos s₀ ≤ i → i ≤ j → GoesOnAt total accepts count i) → count j ≠ 0 := by
  constructor
  · intro hall j hj hgoes
    obtain ⟨s, hvisits, rfl⟩ := exists_visits hround hI hoffset hj
      fun i hlo hhi => hgoes i hlo hhi.le
    obtain ⟨-, hIs, -, -⟩ := hvisits.reached hround hI hoffset
    obtain ⟨hlt, haccepts⟩ := hgoes (pos s) hj le_rfl
    obtain ⟨n, s', hr, hn⟩ := hall _ s hvisits hlt
    obtain ⟨s'', hr', -, -⟩ := (hround _ s hlt hIs).1 haccepts
    obtain ⟨rfl, -⟩ := Prod.mk.inj (Except.ok.inj (hr.symm.trans hr'))
    exact fun hzero => hn (congrArg some hzero)
  · intro hall offset s hvisits hlt
    obtain ⟨hle, hIs, hsum, hbefore⟩ := hvisits.reached hround hI hoffset
    by_cases haccepts : accepts (pos s) offset
    · obtain ⟨s', hr, -, -⟩ := (hround offset s hlt hIs).1 haccepts
      refine ⟨_, s', hr, fun hzero => hall (pos s) hle (fun i hlo hhi => ?_) (Option.some.inj hzero)⟩
      rcases hhi.lt_or_eq with hlt' | rfl
      · exact hbefore i hlo hlt'
      · exact ⟨hsum ▸ hlt, hsum ▸ haccepts⟩
    · obtain ⟨s', hr⟩ := (hround offset s hlt hIs).2 haccepts
      exact ⟨none, s', hr, (Option.some_ne_none 0).symm⟩

/-- Each round that goes on adds an entry to a log. All entries are good exactly when those of the
rounds are that the loop goes on to. -/
theorem visits_log_iff {υ : Type} (hround : RoundsBy I pos accepts count round total)
    (log : σ → List υ) (entry : ℕ → ℕ → υ) (P : υ → Prop)
    (hlog : ∀ offset s s', offset < total → I offset s → accepts (pos s) offset →
      round offset s = .ok (some (count (pos s)), s') → log s' = log s ++ [entry (pos s) offset])
    {offset₀ : ℕ} {s₀ : σ} (hI : I offset₀ s₀)
    (hoffset : offset₀ = ∑ i ∈ Finset.range (pos s₀), count i) (hstart : ∀ u ∈ log s₀, P u) :
    (∀ offset s, Visits round total offset₀ s₀ offset s → ∀ u ∈ log s, P u) ↔
      ∀ j ≥ pos s₀, (∀ i, pos s₀ ≤ i → i ≤ j → GoesOnAt total accepts count i) →
        P (entry j (∑ i ∈ Finset.range j, count i)) := by
  constructor
  · intro hall j hj hgoes
    obtain ⟨s, hvisits, rfl⟩ := exists_visits hround hI hoffset hj
      fun i hlo hhi => hgoes i hlo hhi.le
    obtain ⟨-, hIs, -, -⟩ := hvisits.reached hround hI hoffset
    obtain ⟨hlt, haccepts⟩ := hgoes (pos s) hj le_rfl
    obtain ⟨s', hr, -, -⟩ := (hround _ s hlt hIs).1 haccepts
    apply hall _ s' (hvisits.next hlt hr) _
    rw [hlog _ s s' hlt hIs haccepts hr]
    exact List.mem_append_right _ List.mem_cons_self
  · intro hall offset s hvisits
    induction hvisits with
    | start => exact hstart
    | @next offset n s s' hvisits hlt hr ih =>
      obtain ⟨hle, hIs, hsum, hbefore⟩ := hvisits.reached hround hI hoffset
      obtain ⟨haccepts, rfl, -⟩ := hround.accepts_of_some hlt hIs hr
      rw [hlog _ s s' hlt hIs haccepts hr, List.forall_mem_append, List.forall_mem_singleton]
      refine ⟨ih, ?_⟩
      have hgood := hall (pos s) hle fun i hlo hhi => ?_
      · rwa [← hsum] at hgood
      · rcases hhi.lt_or_eq with hlt' | rfl
        · exact hbefore i hlo hlt'
        · exact ⟨hsum ▸ hlt, hsum ▸ haccepts⟩

end

end BluePill.Lib
