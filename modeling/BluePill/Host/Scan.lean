import BluePill.Host.GdbMain
import Mathlib.Data.UInt

/-! Texts and hexadecimal numbers: `hex_utils.c`, and what the server asks of `strtol`, `sscanf`
and `snprintf`. Characters are bytes. -/
namespace BluePill
open Lib

def ascii (s : String) : List UInt8 := s.toList.map Char.toUInt8

/-- The characters of a buffer up to its terminator. -/
def cString (s : List UInt8) : List UInt8 := s.takeWhile (· ≠ 0)

/-- `isspace`. -/
def isSpace (c : UInt8) : Bool := c = 0x20 ∨ 0x09 ≤ c ∧ c ≤ 0x0D

def hexDigitValue (c : UInt8) : Option ℕ :=
  if 0x30 ≤ c ∧ c ≤ 0x39 then some (c.toNat - 0x30)
  else if 0x41 ≤ c ∧ c ≤ 0x46 then some (c.toNat - 0x37)
  else if 0x61 ≤ c ∧ c ≤ 0x66 then some (c.toNat - 0x57)
  else none

/-- `isxdigit`. -/
def isHexDigit (c : UInt8) : Bool := (hexDigitValue c).isSome

def hexDigit (upper : Bool) (d : ℕ) : UInt8 :=
  if d < 10 then UInt8.ofNat (0x30 + d)
  else UInt8.ofNat ((if upper then 0x37 else 0x57) + d)

theorem hexDigitValue_hexDigit (upper : Bool) {d : ℕ} (hd : d < 16) :
    hexDigitValue (hexDigit upper d) = some d := by
  have hall : ∀ u : Bool, ∀ i : Fin 16, hexDigitValue (hexDigit u i.val) = some i.val := by decide
  exact hall upper ⟨d, hd⟩

/-- The number that digits stand for, behind the number `n` read so far. -/
def hexNumber : ℕ → List UInt8 → ℕ
  | n, [] => n
  | n, c :: digits => hexNumber (16 * n + (hexDigitValue c).getD 0) digits

theorem hexNumber_append (n : ℕ) (xs ys : List UInt8) :
    hexNumber n (xs ++ ys) = hexNumber (hexNumber n xs) ys := by
  induction xs generalizing n with
  | nil => rfl
  | cons x xs ih => exact ih _

def scanSign (s : List UInt8) : Bool × List UInt8 :=
  match s with
  | c :: rest => if c = 0x2D then (true, rest) else if c = 0x2B then (false, rest) else (false, s)
  | [] => (false, s)

/-- The prefix `0x` counts only in front of a digit. -/
def skipPrefix (s : List UInt8) : List UInt8 :=
  match s with
  | z :: x :: d :: rest =>
    if z = 0x30 ∧ (x = 0x78 ∨ x = 0x58) ∧ isHexDigit d then d :: rest else s
  | _ => s

/-- The sign and the digits of a number, with what follows them. -/
def scanDigits (s : List UInt8) : Option (Bool × List UInt8 × List UInt8) :=
  let (negative, s) := scanSign s
  let s := skipPrefix s
  if s.takeWhile isHexDigit = [] then none
  else some (negative, s.takeWhile isHexDigit, s.dropWhile isHexDigit)

/-- `strtol(s, NULL, 16)`, for texts too short to overflow. -/
def strtolHex (s : List UInt8) : ℤ :=
  match scanDigits (s.dropWhile isSpace) with
  | some (negative, digits, _) => if negative then -hexNumber 0 digits else hexNumber 0 digits
  | none => 0

/-- What is stored for a conversion `%x`: the number is read in 64 bits, with the largest for one
that does not fit, and cut to 32. -/
def storedNumber (negative : Bool) (n : ℕ) : ℕ :=
  let n := min n 18446744073709551615
  if negative then (4294967296 - n % 4294967296) % 4294967296 else n % 4294967296

/-- A conversion `%x`, of at most `width` characters behind the white space; the rest of the text
is behind the number. -/
def scanHex (width : ℕ) (s : List UInt8) : Option (ℕ × List UInt8) :=
  let s := s.dropWhile isSpace
  match scanDigits (s.take width) with
  | some (negative, digits, rest) =>
    some (storedNumber negative (hexNumber 0 digits), rest ++ s.drop width)
  | none => none

/-- A character of the format that stands for itself. -/
def expectChar (c : UInt8) : List UInt8 → Option (List UInt8)
  | [] => none
  | d :: rest => if d = c then some rest else none

/-- `strncmp(s, text, strlen(text)) == 0`, with what follows. -/
def afterText (text s : List UInt8) : Option (List UInt8) :=
  if s.take text.length = text then some (s.drop text.length) else none

/-- `%x` and `%X`. -/
def printHex (upper : Bool) (n : ℕ) : List UInt8 :=
  if _h : n < 16 then [hexDigit upper n] else printHex upper (n / 16) ++ [hexDigit upper (n % 16)]

/-- The same with zeros in front up to `width` characters. -/
def printHexPadded (upper : Bool) (width n : ℕ) : List UInt8 :=
  let digits := printHex upper n
  List.replicate (width - digits.length) 0x30 ++ digits

/-- `hexify`: two digits a byte. -/
def hexify (bytes : List UInt8) : List UInt8 :=
  bytes.flatMap fun b => [hexDigit false (b.toNat / 16), hexDigit false (b.toNat % 16)]

/-- A number ends in front of `rest`: neither a digit nor the letter of a prefix follows. -/
def NumberEnds (rest : List UInt8) : Prop :=
  ∀ c ∈ rest.head?, isHexDigit c = false ∧ c ≠ 0x78 ∧ c ≠ 0x58

theorem isHexDigit_ne {c d : UInt8} (hc : isHexDigit c = true) (hd : isHexDigit d = false) :
    c ≠ d := by
  rintro rfl
  rw [hc] at hd
  contradiction

theorem scanSign_digit {d : UInt8} (hd : isHexDigit d = true) (s : List UInt8) :
    scanSign (d :: s) = (false, d :: s) := by
  have hminus : d ≠ 0x2D := isHexDigit_ne hd (by decide)
  have hplus : d ≠ 0x2B := isHexDigit_ne hd (by decide)
  simp only [scanSign, hminus, hplus, if_false]

theorem skipPrefix_of_second {s : List UInt8} (h : ∀ x ∈ s[1]?, x ≠ 0x78 ∧ x ≠ 0x58) :
    skipPrefix s = s := by
  unfold skipPrefix
  split
  · rename_i z x d rest
    have hx := h x rfl
    exact if_neg (by simp [hx.1, hx.2])
  · rfl

/-- Digits are read as they stand, up to where the number ends. -/
theorem scanDigits_digits {digits rest : List UInt8} (hne : digits ≠ [])
    (hdigits : ∀ c ∈ digits, isHexDigit c = true) (hends : NumberEnds rest) :
    scanDigits (digits ++ rest) = some (false, digits, rest) := by
  have htake : (digits ++ rest).takeWhile isHexDigit = digits := by
    rw [List.takeWhile_append_of_pos hdigits]
    cases rest with
    | nil => simp
    | cons c rest => simp [(hends c rfl).1]
  have hdrop : (digits ++ rest).dropWhile isHexDigit = rest := by
    rw [List.dropWhile_append_of_pos hdigits]
    cases rest with
    | nil => simp
    | cons c rest => simp [(hends c rfl).1]
  -- the second character is a digit or the first of the rest, so there is no prefix
  have hskip : skipPrefix (digits ++ rest) = digits ++ rest := by
    apply skipPrefix_of_second
    intro x hx
    rcases digits with _ | ⟨d, _ | ⟨e, ds⟩⟩
    · contradiction
    · exact (hends x (by simpa [List.head?_eq_getElem?] using hx)).2
    · have he : isHexDigit x = true := hdigits x (by simp at hx; simp [hx])
      exact ⟨isHexDigit_ne he (by decide), isHexDigit_ne he (by decide)⟩
  have hsign : scanSign (digits ++ rest) = (false, digits ++ rest) := by
    obtain ⟨d, ds, rfl⟩ := List.exists_cons_of_ne_nil hne
    exact scanSign_digit (hdigits d List.mem_cons_self) _
  unfold scanDigits
  rw [hsign]
  simp only [hskip, htake, hdrop, hne, if_false]

theorem dropWhile_isSpace_digits {digits : List UInt8} (hne : digits ≠ [])
    (hdigits : ∀ c ∈ digits, isHexDigit c = true) (rest : List UInt8) :
    (digits ++ rest).dropWhile isSpace = digits ++ rest := by
  obtain ⟨d, ds, rfl⟩ := List.exists_cons_of_ne_nil hne
  have hd := hdigits d List.mem_cons_self
  have hspace : isSpace d = false := by
    have hall : ∀ c : Fin 256, isHexDigit (UInt8.ofNat c.val) = true →
        isSpace (UInt8.ofNat c.val) = false := by decide +kernel
    have hcase := hall ⟨d.toNat, d.toNat_lt⟩
    rw [UInt8.ofNat_toNat] at hcase
    exact hcase hd
  exact List.dropWhile_cons_of_neg (by simp [hspace])

theorem NumberEnds.take {rest : List UInt8} (h : NumberEnds rest) (k : ℕ) :
    NumberEnds (rest.take k) := by
  intro c hc
  apply h c
  cases rest with
  | nil => simp at hc
  | cons d rest =>
    cases k with
    | zero => simp at hc
    | succ k => simpa using hc

theorem scanHex_digits {digits rest : List UInt8} (hne : digits ≠ [])
    (hdigits : ∀ c ∈ digits, isHexDigit c = true) (hends : NumberEnds rest) {width : ℕ}
    (hwidth : digits.length ≤ width) :
    scanHex width (digits ++ rest) = some (storedNumber false (hexNumber 0 digits), rest) := by
  have htake : (digits ++ rest).take width = digits ++ rest.take (width - digits.length) := by
    rw [List.take_append, List.take_of_length_le hwidth]
  have hdrop : (digits ++ rest).drop width = rest.drop (width - digits.length) := by
    rw [List.drop_append, List.drop_of_length_le hwidth, List.nil_append]
  unfold scanHex
  simp only [dropWhile_isSpace_digits hne hdigits, htake, hdrop,
    scanDigits_digits hne hdigits (hends.take _), List.take_append_drop]

theorem printHex_digits (upper : Bool) (n : ℕ) :
    (∀ c ∈ printHex upper n, isHexDigit c = true) ∧ printHex upper n ≠ [] := by
  have hdigit : ∀ d < 16, isHexDigit (hexDigit upper d) = true := by
    intro d hd
    rw [isHexDigit, hexDigitValue_hexDigit upper hd]
    rfl
  induction n using Nat.strong_induction_on with
  | _ n ih =>
    rw [printHex]
    split_ifs with h
    · simpa using hdigit n h
    · have hrest := ih (n / 16) (by omega)
      constructor
      · intro c hc
        rcases List.mem_append.mp hc with hc | hc
        · exact hrest.1 c hc
        · rw [List.mem_singleton.mp hc]
          exact hdigit _ (by omega)
      · simp

theorem hexNumber_printHex (upper : Bool) (n : ℕ) : hexNumber 0 (printHex upper n) = n := by
  induction n using Nat.strong_induction_on with
  | _ n ih =>
    rw [printHex]
    split_ifs with h
    · simp [hexNumber, hexDigitValue_hexDigit upper h]
    · rw [hexNumber_append, ih (n / 16) (by omega)]
      simp only [hexNumber, hexDigitValue_hexDigit upper (Nat.mod_lt n (by norm_num)),
        Option.getD_some]
      omega

theorem printHex_length_le (upper : Bool) {n k : ℕ} (hk : 0 < k) (hn : n < 16 ^ k) :
    (printHex upper n).length ≤ k := by
  induction k generalizing n with
  | zero => contradiction
  | succ k ih =>
    rw [printHex]
    split_ifs with h
    · simp
    · have hpos : 0 < k := by
        by_contra hzero
        obtain rfl : k = 0 := by omega
        simp only [Nat.zero_add, pow_one] at hn
        omega
      have hdiv : n / 16 < 16 ^ k := by
        rw [pow_succ'] at hn
        exact Nat.div_lt_of_lt_mul hn
      have hrest := ih hpos hdiv
      simp only [List.length_append, List.length_singleton]
      omega

theorem hexNumber_zeros (n k : ℕ) (s : List UInt8) :
    hexNumber n (List.replicate k 0x30 ++ s) = hexNumber (16 ^ k * n) s := by
  induction k generalizing n with
  | zero => simp
  | succ k ih =>
    have hzero : (hexDigitValue 0x30).getD 0 = 0 := by decide
    rw [List.replicate_succ, List.cons_append, hexNumber, hzero, ih, pow_succ]
    congr 1
    ring

theorem printHexPadded_digits (upper : Bool) (width n : ℕ) :
    (∀ c ∈ printHexPadded upper width n, isHexDigit c = true) ∧
      hexNumber 0 (printHexPadded upper width n) = n := by
  constructor
  · intro c hc
    rcases List.mem_append.mp hc with hc | hc
    · rw [List.eq_of_mem_replicate hc]
      decide
    · exact (printHex_digits upper n).1 c hc
  · unfold printHexPadded
    rw [hexNumber_zeros, Nat.mul_zero, hexNumber_printHex]

theorem printHexPadded_length (upper : Bool) {width n : ℕ} (hwidth : 0 < width)
    (hn : n < 16 ^ width) : (printHexPadded upper width n).length = width := by
  have hle := printHex_length_le upper hwidth hn
  unfold printHexPadded
  simp only [List.length_append, List.length_replicate]
  omega

/-- Digits of the number `n`, as `%x` reads them. -/
structure Numeral (n : ℕ) (digits : List UInt8) : Prop where
  ne : digits ≠ []
  digit : ∀ c ∈ digits, isHexDigit c = true
  value : hexNumber 0 digits = n

theorem numeral_printHex (upper : Bool) (n : ℕ) : Numeral n (printHex upper n) := by
  obtain ⟨hdigits, hne⟩ := printHex_digits upper n
  exact ⟨hne, hdigits, hexNumber_printHex upper n⟩

theorem Numeral.scanHex {n width : ℕ} {digits rest : List UInt8} (h : Numeral n digits)
    (hn : n < 4294967296) (hends : NumberEnds rest) (hwidth : digits.length ≤ width) :
    scanHex width (digits ++ rest) = some (n, rest) := by
  have hstored : storedNumber false (hexNumber 0 digits) = n := by
    rw [h.value]
    unfold storedNumber
    simp only [Bool.false_eq_true, if_false]
    omega
  rw [scanHex_digits h.ne h.digit hends hwidth, hstored]

theorem afterText_append (text s : List UInt8) : afterText text (text ++ s) = some s := by
  unfold afterText
  rw [List.take_left, if_pos rfl, List.drop_left]

/-- Two texts that differ where both have characters. -/
theorem afterText_eq_none {text front : List UInt8}
    (h : text.take front.length ≠ front.take text.length) (s : List UInt8) :
    afterText text (front ++ s) = none := by
  unfold afterText
  apply if_neg
  intro heq
  apply h
  have hcut := congrArg (List.take (min text.length front.length)) heq
  rw [List.take_take, List.take_append_of_le_length (by omega)] at hcut
  rcases le_total text.length front.length with hle | hle
  · rw [min_eq_left hle, min_self, List.take_length] at hcut
    rw [List.take_of_length_le hle]
    exact hcut.symm
  · rw [List.take_of_length_le hle]
    rw [min_eq_right hle, min_eq_left hle, List.take_length] at hcut
    exact hcut.symm

theorem unhexDigit_hexDigit (upper : Bool) {d : ℕ} (hd : d < 16) :
    unhexDigit (hexDigit upper d) = UInt8.ofNat d := by
  have hall : ∀ u : Bool, ∀ i : Fin 16, unhexDigit (hexDigit u i.val) = UInt8.ofNat i.val := by
    decide
  exact hall upper ⟨d, hd⟩

@[simp] theorem hexify_cons (b : UInt8) (bs : List UInt8) : hexify (b :: bs) =
    hexDigit false (b.toNat / 16) :: hexDigit false (b.toNat % 16) :: hexify bs := rfl

theorem joinDigits (b : UInt8) :
    UInt8.ofNat (b.toNat / 16) <<< 4 ||| UInt8.ofNat (b.toNat % 16) = b := by
  have hall : ∀ i : Fin 256, UInt8.ofNat (i.val / 16) <<< 4 ||| UInt8.ofNat (i.val % 16) =
      UInt8.ofNat i.val := by decide +kernel
  have hcase := hall ⟨b.toNat, b.toNat_lt⟩
  rwa [UInt8.ofNat_toNat] at hcase

end BluePill
