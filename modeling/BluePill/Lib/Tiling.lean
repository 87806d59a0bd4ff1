import BluePill.Lib.Overlay

/-! Cutting a list that starts at an address into consecutive non-empty pieces. -/
namespace BluePill.Lib

variable {β : Type*}

/-- `ts` cuts the cells `xs` from address `a` on into consecutive non-empty pieces, each
with its own start address. -/
inductive Tiles : ℕ → List β → List (ℕ × List β) → Prop
  | nil (a : ℕ) : Tiles a [] []
  | cons {a : ℕ} {c rest : List β} {ts : List (ℕ × List β)} (hc : c ≠ []) :
      Tiles (a + c.length) rest ts → Tiles a (c ++ rest) ((a, c) :: ts)

/-- The address and the length of every piece. -/
def spans (ts : List (ℕ × List β)) : List (ℕ × ℕ) := ts.map fun t => (t.1, t.2.length)

/-- Address ranges that follow each other from `a` to `b` with no gap and no overlap. -/
def Contiguous : ℕ → List (ℕ × ℕ) → ℕ → Prop
  | a, [], b => a = b
  | a, (x, n) :: rest, b => x = a ∧ 0 < n ∧ Contiguous (a + n) rest b

theorem Tiles.contiguous {a : ℕ} {xs : List β} {ts : List (ℕ × List β)} (h : Tiles a xs ts) :
    Contiguous a (spans ts) (a + xs.length) := by
  induction h with
  | nil => rfl
  | @cons a c rest ts hc _ ih =>
    refine ⟨rfl, List.length_pos_iff.mpr hc, ?_⟩
    rw [List.length_append, ← Nat.add_assoc]
    exact ih

theorem Tiles.ne_nil {a : ℕ} {xs : List β} {ts : List (ℕ × List β)} (h : Tiles a xs ts)
    {t : ℕ × List β} (ht : t ∈ ts) : t.2 ≠ [] := by
  induction h with
  | nil => exact absurd ht List.not_mem_nil
  | cons hc _ ih =>
    rcases List.mem_cons.mp ht with hhead | htail
    · rw [hhead]
      exact hc
    · exact ih htail

/-- Laying the pieces one after the other is laying the whole list. -/
theorem Tiles.foldl_overlay {a : ℕ} {xs : List β} {ts : List (ℕ × List β)} (h : Tiles a xs ts)
    (m : ℕ → β) : ts.foldl (fun m t => overlay m t.1 t.2) m = overlay m a xs := by
  induction h generalizing m with
  | nil => simp
  | cons _ _ ih => rw [List.foldl_cons, ih, overlay_append]

/-- The cells `xs` from address `a` on in pieces of `k`, the last one possibly shorter. -/
def pieces (k a : ℕ) (xs : List β) : List (ℕ × List β) :=
  if _h : k = 0 ∨ xs = [] then [] else (a, xs.take k) :: pieces k (a + k) (xs.drop k)
termination_by xs.length
decreasing_by
  have := List.length_pos_iff.mpr fun hx => _h (Or.inr hx)
  simp only [List.length_drop]
  omega

/-- The ranges of the pieces of `n` cells from `a` on. -/
def cuts (k a n : ℕ) : List (ℕ × ℕ) :=
  if _h : k = 0 ∨ n = 0 then [] else (a, min k n) :: cuts k (a + k) (n - k)
termination_by n
decreasing_by omega

@[simp] theorem pieces_nil (k a : ℕ) : pieces k a ([] : List β) = [] := by
  rw [pieces, dif_pos (Or.inr rfl)]

theorem pieces_cons {k : ℕ} (hk : 0 < k) (a : ℕ) {xs : List β} (hxs : xs ≠ []) :
    pieces k a xs = (a, xs.take k) :: pieces k (a + k) (xs.drop k) := by
  rw [pieces, dif_neg]
  rintro (h | h)
  · omega
  · exact hxs h

@[simp] theorem cuts_zero (k a : ℕ) : cuts k a 0 = [] := by
  rw [cuts, dif_pos (Or.inr rfl)]

theorem cuts_pos {k n : ℕ} (hk : 0 < k) (hn : 0 < n) (a : ℕ) :
    cuts k a n = (a, min k n) :: cuts k (a + k) (n - k) := by
  rw [cuts, dif_neg]
  omega

/-- The pieces are a tiling. -/
theorem tiles_pieces {k : ℕ} (hk : 0 < k) (a : ℕ) (xs : List β) : Tiles a xs (pieces k a xs) := by
  induction hn : xs.length using Nat.strong_induction_on generalizing a xs with
  | _ n ih =>
    by_cases hxs : xs = []
    · rw [hxs, pieces_nil]
      exact .nil a
    · have hpos := List.length_pos_iff.mpr hxs
      have htake : xs.take k ≠ [] := by
        apply List.length_pos_iff.mp
        rw [List.length_take]
        omega
      rw [pieces_cons hk a hxs]
      nth_rewrite 1 [← List.take_append_drop k xs]
      refine .cons htake ?_
      by_cases hle : k ≤ xs.length
      · rw [List.length_take, min_eq_left hle]
        exact ih _ (by rw [List.length_drop]; omega) _ _ rfl
      · rw [List.drop_eq_nil_of_le (by omega), pieces_nil]
        exact .nil _

/-- The ranges of the pieces depend on the length only. -/
theorem spans_pieces (k a : ℕ) (xs : List β) : spans (pieces k a xs) = cuts k a xs.length := by
  induction hn : xs.length using Nat.strong_induction_on generalizing a xs with
  | _ n ih =>
    rw [pieces, cuts]
    by_cases h : k = 0 ∨ xs = []
    · have h' : k = 0 ∨ n = 0 := by rwa [← hn, List.length_eq_zero_iff]
      rw [dif_pos h, dif_pos h']
      rfl
    · have h' : ¬ (k = 0 ∨ n = 0) := by rwa [← hn, List.length_eq_zero_iff]
      rw [dif_neg h, dif_neg h', spans, List.map_cons, List.length_take, hn]
      congr 1
      exact ih (n - k) (by omega) _ _ (by rw [List.length_drop, hn])

theorem contiguous_cuts {k : ℕ} (hk : 0 < k) (a n : ℕ) : Contiguous a (cuts k a n) (a + n) := by
  induction n using Nat.strong_induction_on generalizing a with
  | _ n ih =>
    by_cases hn : n = 0
    · rw [hn, cuts_zero]
      rfl
    · rw [cuts_pos hk (by omega)]
      refine ⟨rfl, by omega, ?_⟩
      by_cases hle : k ≤ n
      · rw [min_eq_left hle]
        have hrest := ih (n - k) (by omega) (a + k)
        rwa [show a + k + (n - k) = a + n by omega] at hrest
      · rw [show n - k = 0 by omega, cuts_zero, min_eq_right (by omega)]
        rfl

/-- The piece that holds the cell `i`: its range, and the place of the cell in it. -/
theorem getElem?_flatMap_cuts {k : ℕ} (hk : 0 < k) (f : ℕ → ℕ → List β)
    (hf : ∀ a n, (f a n).length = n) (a n i : ℕ) (hi : i < n) :
    ((cuts k a n).flatMap fun c => f c.1 c.2)[i]? =
      (f (a + i / k * k) (min k (n - i / k * k)))[i % k]? := by
  induction n using Nat.strong_induction_on generalizing a i with
  | _ n ih =>
    rw [cuts_pos hk (by omega), List.flatMap_cons]
    by_cases hlt : i < k
    · rw [List.getElem?_append_left (by rw [hf]; omega), Nat.div_eq_of_lt hlt,
        Nat.mod_eq_of_lt hlt, Nat.zero_mul, Nat.add_zero, Nat.sub_zero]
    · obtain ⟨j, rfl⟩ : ∃ j, i = j + k := ⟨i - k, by omega⟩
      rw [List.getElem?_append_right (by rw [hf]; omega), hf, min_eq_left (by omega),
        Nat.add_sub_cancel, ih (n - k) (by omega) _ _ (by omega), Nat.add_div_right _ hk,
        Nat.add_mod_right, Nat.succ_mul]
      have haddr : a + k + j / k * k = a + (j / k * k + k) := by omega
      have hrest : n - k - j / k * k = n - (j / k * k + k) := by omega
      rw [haddr, hrest]

theorem length_flatMap_cuts {k : ℕ} (hk : 0 < k) (f : ℕ → ℕ → List β)
    (hf : ∀ a n, (f a n).length = n) (a n : ℕ) :
    ((cuts k a n).flatMap fun c => f c.1 c.2).length = n := by
  induction n using Nat.strong_induction_on generalizing a with
  | _ n ih =>
    by_cases hn : n = 0
    · rw [hn, cuts_zero]
      rfl
    · rw [cuts_pos hk (by omega), List.flatMap_cons, List.length_append, hf,
        ih (n - k) (by omega)]
      omega

/-- Every range of the cut lies inside the whole and is no longer than the piece size. -/
theorem mem_cuts_le {k a n : ℕ} {c : ℕ × ℕ} (hc : c ∈ cuts k a n) :
    a ≤ c.1 ∧ c.1 + c.2 ≤ a + n ∧ c.2 ≤ k := by
  induction n using Nat.strong_induction_on generalizing a with
  | _ n ih =>
    rw [cuts] at hc
    split_ifs at hc with h
    · exact absurd hc List.not_mem_nil
    · rcases List.mem_cons.mp hc with hhead | htail
      · subst hhead
        show a ≤ a ∧ a + min k n ≤ a + n ∧ min k n ≤ k
        omega
      · have hlater := ih (n - k) (by omega) htail
        by_cases hle : k ≤ n
        · omega
        · rw [show n - k = 0 by omega, cuts_zero] at htail
          exact absurd htail List.not_mem_nil

/-- The ranges start at multiples of what divides the start and the piece size. -/
theorem dvd_of_mem_cuts {m k a n : ℕ} (hk : m ∣ k) (ha : m ∣ a) {c : ℕ × ℕ}
    (hc : c ∈ cuts k a n) : m ∣ c.1 := by
  induction n using Nat.strong_induction_on generalizing a with
  | _ n ih =>
    rw [cuts] at hc
    split_ifs at hc with h
    · exact absurd hc List.not_mem_nil
    · rcases List.mem_cons.mp hc with hhead | htail
      · subst hhead
        exact ha
      · exact ih (n - k) (by omega) (Dvd.dvd.add ha hk) htail

/-- A memory read range by range is the memory read at once. -/
theorem flatMap_readRange_cuts {k : ℕ} (hk : 0 < k) (m : ℕ → β) (a n : ℕ) :
    ((cuts k a n).flatMap fun c => readRange m c.1 c.2) = readRange m a n := by
  induction n using Nat.strong_induction_on generalizing a with
  | _ n ih =>
    by_cases hn : n = 0
    · rw [hn, cuts_zero]
      rfl
    · rw [cuts_pos hk (by omega), List.flatMap_cons]
      by_cases hle : k ≤ n
      · rw [ih (n - k) (by omega), min_eq_left hle, readRange_append]
        congr 1
        omega
      · rw [show n - k = 0 by omega, cuts_zero, min_eq_right (by omega)]
        exact List.append_nil _

theorem mem_spans_of_mem_pieces {k a : ℕ} {xs : List β} {t : ℕ × List β}
    (ht : t ∈ pieces k a xs) : (t.1, t.2.length) ∈ cuts k a xs.length := by
  rw [← spans_pieces]
  exact List.mem_map.mpr ⟨t, ht, rfl⟩

/-- A cut at the end of a piece cuts the two parts. -/
theorem cuts_append {k : ℕ} (hk : 0 < k) (a : ℕ) {n₁ : ℕ} (hdvd : k ∣ n₁) (n₂ : ℕ) :
    cuts k a (n₁ + n₂) = cuts k a n₁ ++ cuts k (a + n₁) n₂ := by
  induction n₁ using Nat.strong_induction_on generalizing a with
  | _ n₁ ih =>
    by_cases hn : n₁ = 0
    · rw [hn, cuts_zero, Nat.zero_add, Nat.add_zero, List.nil_append]
    · have hle := Nat.le_of_dvd (by omega) hdvd
      rw [cuts_pos hk (by omega), cuts_pos hk (by omega : 0 < n₁), List.cons_append,
        min_eq_left (by omega), min_eq_left hle, show n₁ + n₂ - k = n₁ - k + n₂ by omega,
        ih (n₁ - k) (by omega) (a + k) (Nat.dvd_sub hdvd (dvd_refl k)),
        show a + k + (n₁ - k) = a + n₁ by omega]

/-- The lengths of the pieces are multiples of what divides the piece size and the whole. -/
theorem dvd_snd_of_mem_cuts {m k a n : ℕ} (hk : m ∣ k) (hn : m ∣ n) {c : ℕ × ℕ}
    (hc : c ∈ cuts k a n) : m ∣ c.2 := by
  induction n using Nat.strong_induction_on generalizing a with
  | _ n ih =>
    rw [cuts] at hc
    split_ifs at hc with h
    · exact absurd hc List.not_mem_nil
    · rcases List.mem_cons.mp hc with hhead | htail
      · subst hhead
        rcases min_choice k n with hmin | hmin
        · rwa [hmin]
        · rwa [hmin]
      · exact ih (n - k) (by omega) (Nat.dvd_sub hn hk) htail

/-- The pieces put together are the whole list. -/
theorem Tiles.flatMap_snd {a : ℕ} {xs : List β} {ts : List (ℕ × List β)} (h : Tiles a xs ts) :
    ts.flatMap Prod.snd = xs := by
  induction h with
  | nil => rfl
  | cons _ _ ih => rw [List.flatMap_cons, ih]

/-- A piece is what the list has from its place on. -/
theorem eq_of_mem_pieces {k a : ℕ} {xs : List β} {t : ℕ × List β} (ht : t ∈ pieces k a xs) :
    a ≤ t.1 ∧ t.1 < a + xs.length ∧ t.2 = (xs.drop (t.1 - a)).take k := by
  induction hn : xs.length using Nat.strong_induction_on generalizing a xs with
  | _ n ih =>
    rw [pieces] at ht
    split_ifs at ht with h
    · exact absurd ht List.not_mem_nil
    · have hpos : 0 < xs.length := List.length_pos_iff.mpr fun hx => h (.inr hx)
      rcases List.mem_cons.mp ht with rfl | htail
      · refine ⟨le_rfl, by omega, ?_⟩
        rw [Nat.sub_self, List.drop_zero]
      · obtain ⟨hlo, hhi, heq⟩ := ih (n - k) (by omega) htail (by rw [List.length_drop, hn])
        refine ⟨by omega, ?_, ?_⟩
        · by_cases hle : k ≤ n
          · omega
          · rw [List.drop_eq_nil_of_le (by omega), pieces_nil] at htail
            exact absurd htail List.not_mem_nil
        · rw [heq, List.drop_drop, show k + (t.1 - (a + k)) = t.1 - a by omega]

end BluePill.Lib
