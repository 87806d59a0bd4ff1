import Mathlib.Tactic

/-! Word memories as functions of a 32-bit address, and the runs of words that load and store
multiple instructions move: addresses four apart, and around the end of the address space. -/
namespace BluePill.Lib

/-- The `n` words of `m` from address `a` on. -/
def readWords (m : UInt32 → UInt32) (a : UInt32) : ℕ → List UInt32
  | 0 => []
  | n + 1 => m a :: readWords m (a + 4) n

/-- The memory `m` with the words `ws` stored from address `a` on, the first one first. -/
def writeWords (m : UInt32 → UInt32) (a : UInt32) : List UInt32 → UInt32 → UInt32
  | [] => m
  | w :: ws => writeWords (Function.update m a w) (a + 4) ws

/-- `x` is one of the `n` word addresses from `a` on. -/
def InBlock (a : UInt32) (n : ℕ) (x : UInt32) : Prop := ∃ i < n, x = a + 4 * UInt32.ofNat i

/-- No word address belongs to both blocks. -/
def Apart (a : UInt32) (n : ℕ) (b : UInt32) (k : ℕ) : Prop := ∀ x, InBlock a n x → ¬ InBlock b k x

instance (a : UInt32) (n : ℕ) (x : UInt32) : Decidable (InBlock a n x) :=
  inferInstanceAs (Decidable (∃ i < n, x = a + 4 * UInt32.ofNat i))

instance (a : UInt32) (n : ℕ) (b : UInt32) (k : ℕ) : Decidable (Apart a n b k) :=
  decidable_of_iff (∀ i < n, ¬ InBlock b k (a + 4 * UInt32.ofNat i)) <| by
    constructor
    · rintro h x ⟨i, hi, rfl⟩
      exact h i hi
    · exact fun h i hi => h _ ⟨i, hi, rfl⟩

theorem wordAddress_add (a : UInt32) (i j : ℕ) :
    a + 4 * UInt32.ofNat i + 4 * UInt32.ofNat j = a + 4 * UInt32.ofNat (i + j) := by
  rw [UInt32.ofNat_add, UInt32.mul_add, UInt32.add_assoc]

theorem wordAddress_succ (a : UInt32) (i : ℕ) :
    a + 4 + 4 * UInt32.ofNat i = a + 4 * UInt32.ofNat (i + 1) := by
  rw [Nat.add_comm i 1, ← wordAddress_add a 1 i]
  rfl

theorem wordAddress_inj {a : UInt32} {i j : ℕ} (hi : i < 1073741824) (hj : j < 1073741824)
    (h : a + 4 * UInt32.ofNat i = a + 4 * UInt32.ofNat j) : i = j := by
  have h' := congrArg UInt32.toNat h
  have ha := a.toNat_lt
  simp only [UInt32.toNat_add, UInt32.toNat_mul, UInt32.toNat_ofNat', UInt32.reduceToNat] at h'
  omega

/-- A block shorter than the address space does not come back to its first word. -/
theorem wordAddress_ne {a : UInt32} {i : ℕ} (hpos : 0 < i) (hi : i < 1073741824) :
    a ≠ a + 4 * UInt32.ofNat i := by
  intro h
  refine hpos.ne (wordAddress_inj (by decide) hi (Eq.trans ?_ h))
  exact UInt32.add_zero a

theorem aligned_add {a b : UInt32} (ha : a % 4 = 0) (hb : b % 4 = 0) : (a + b) % 4 = 0 := by
  rw [← UInt32.toNat_inj, UInt32.toNat_mod] at ha hb ⊢
  simp only [UInt32.toNat_add, UInt32.reduceToNat] at ha hb ⊢
  omega

theorem aligned_sub {a b : UInt32} (ha : a % 4 = 0) (hb : b % 4 = 0) : (a - b) % 4 = 0 := by
  rw [← UInt32.toNat_inj, UInt32.toNat_mod] at ha hb ⊢
  have hlt := b.toNat_lt
  simp only [UInt32.toNat_sub, UInt32.reduceToNat] at ha hb ⊢
  omega

theorem aligned_of_sub {a b : UInt32} (h : (a - b) % 4 = 0) (hb : b % 4 = 0) : a % 4 = 0 := by
  have hadd := aligned_add h hb
  rwa [UInt32.sub_add_cancel] at hadd

theorem four_mul_aligned (a : UInt32) : 4 * a % 4 = 0 := by
  rw [← UInt32.toNat_inj, UInt32.toNat_mod]
  have hlt := a.toNat_lt
  simp only [UInt32.toNat_mul, UInt32.reduceToNat]
  omega

theorem InBlock.head (a : UInt32) {n : ℕ} (h : 0 < n) : InBlock a n a := ⟨0, h, by simp⟩

theorem InBlock.tail {a x : UInt32} {n : ℕ} (h : InBlock (a + 4) n x) : InBlock a (n + 1) x := by
  obtain ⟨i, hi, rfl⟩ := h
  exact ⟨i + 1, Nat.succ_lt_succ hi, wordAddress_succ a i⟩

/-- A block inside a larger one. -/
theorem InBlock.widen {a x : UInt32} {k n : ℕ} (o : ℕ) (hfits : o + k ≤ n)
    (h : InBlock (a + 4 * UInt32.ofNat o) k x) : InBlock a n x := by
  obtain ⟨i, hi, rfl⟩ := h
  exact ⟨o + i, by omega, wordAddress_add a o i⟩

theorem Apart.symm {a b : UInt32} {n k : ℕ} (h : Apart a n b k) : Apart b k a n :=
  fun x hb ha => h x ha hb

theorem Apart.mono {a b : UInt32} {n k n' k' : ℕ} (i j : ℕ) (hn : i + n' ≤ n) (hk : j + k' ≤ k)
    (h : Apart a n b k) : Apart (a + 4 * UInt32.ofNat i) n' (b + 4 * UInt32.ofNat j) k' :=
  fun x ha hb => h x (ha.widen i hn) (hb.widen j hk)

/-- Blocks of one run of words that follow one another. -/
theorem apart_of_le (a : UInt32) {i n j k : ℕ} (hle : i + n ≤ j) (hend : j + k ≤ 1073741824) :
    Apart (a + 4 * UInt32.ofNat i) n (a + 4 * UInt32.ofNat j) k := by
  rintro x ⟨p, hp, rfl⟩ ⟨q, hq, heq⟩
  rw [wordAddress_add, wordAddress_add] at heq
  have hidx := wordAddress_inj (by omega) (by omega) heq
  omega

theorem readWords_add (m : UInt32 → UInt32) (a : UInt32) (n k : ℕ) :
    readWords m a (n + k) = readWords m a n ++ readWords m (a + 4 * UInt32.ofNat n) k := by
  induction n generalizing a with
  | zero => simp [readWords]
  | succ n ih =>
    rw [Nat.succ_add_eq_add_succ, Nat.add_succ, readWords, ih, readWords, wordAddress_succ]
    rfl

theorem writeWords_outside (m : UInt32 → UInt32) {a x : UInt32} (ws : List UInt32)
    (h : ¬ InBlock a ws.length x) : writeWords m a ws x = m x := by
  induction ws generalizing m a with
  | nil => rfl
  | cons w ws ih =>
    have hne : x ≠ a := fun heq => h (heq ▸ InBlock.head a (Nat.succ_pos ws.length))
    rw [writeWords, ih _ fun hx => h hx.tail, Function.update_of_ne hne]

theorem readWords_congr {m m' : UInt32 → UInt32} {a : UInt32} {n : ℕ}
    (h : ∀ x, InBlock a n x → m' x = m x) : readWords m' a n = readWords m a n := by
  induction n generalizing a with
  | zero => rfl
  | succ n ih =>
    rw [readWords, readWords, h a (InBlock.head a n.succ_pos), ih fun x hx => h x hx.tail]

/-- Words stored elsewhere are not seen. -/
theorem readWords_writeWords_apart (m : UInt32 → UInt32) {a b : UInt32} {n : ℕ}
    (ws : List UInt32) (h : Apart a n b ws.length) :
    readWords (writeWords m b ws) a n = readWords m a n :=
  readWords_congr fun x hx => writeWords_outside m ws (h x hx)

/-- A block of words reads back as it was stored. -/
theorem readWords_writeWords (m : UInt32 → UInt32) (a : UInt32) (ws : List UInt32)
    (h : ws.length ≤ 1073741824) : readWords (writeWords m a ws) a ws.length = ws := by
  induction ws generalizing m a with
  | nil => rfl
  | cons w ws ih =>
    have hlen : ws.length + 1 ≤ 1073741824 := h
    rw [List.length_cons, readWords, writeWords, ih _ _ (by omega), writeWords_outside,
      Function.update_self]
    rintro ⟨i, hi, heq⟩
    rw [wordAddress_succ] at heq
    exact wordAddress_ne i.succ_pos (by omega) heq

/-- Two neighbouring blocks, the upper one stored first. -/
theorem readWords_writeWords_pair (m : UInt32 → UInt32) (a : UInt32) (ws vs : List UInt32)
    (h : ws.length + vs.length ≤ 1073741824) :
    readWords (writeWords (writeWords m (a + 4 * UInt32.ofNat ws.length) vs) a ws) a
      (ws.length + vs.length) = ws ++ vs := by
  have hapart : Apart (a + 4 * UInt32.ofNat ws.length) vs.length a ws.length := by
    have hle := apart_of_le a (i := 0) (n := ws.length) (by omega) h
    rw [show a + 4 * UInt32.ofNat 0 = a from UInt32.add_zero a] at hle
    exact hle.symm
  rw [readWords_add, readWords_writeWords _ _ _ (by omega),
    readWords_writeWords_apart _ _ hapart, readWords_writeWords _ _ _ (by omega)]

end BluePill.Lib
