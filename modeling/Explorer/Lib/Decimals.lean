import Mathlib

/-!
# Decimal numerals

A numeral is a whole part and, behind a point, a fraction; `readNumeral` says
which rational it denotes. Zeros at the end of a fraction make no difference
to that, and a whole that is cut `d` digits from the right is divided by `10^d`.
-/

namespace Explorer.Lib

/-- All characters are digits. -/
def Digits (cs : List Char) : Prop := ∀ c ∈ cs, c.isDigit = true

instance (cs : List Char) : Decidable (Digits cs) :=
  inferInstanceAs (Decidable (∀ c ∈ cs, c.isDigit = true))

/-- What digits behind the point are worth. -/
def fraction (cs : List Char) : ℚ :=
  (Nat.ofDigitChars 10 cs 0 : ℚ) / 10 ^ cs.length

/-- The rational that an unsigned numeral denotes. -/
def readUnsigned (cs : List Char) : Option ℚ :=
  let whole := cs.takeWhile (· != '.')
  match cs.dropWhile (· != '.') with
  | [] =>
      if whole ≠ [] ∧ Digits whole then some (Nat.ofDigitChars 10 whole 0 : ℚ)
      else none
  | _ :: frac =>
      if whole ≠ [] ∧ Digits whole ∧ frac ≠ [] ∧ Digits frac then
        some ((Nat.ofDigitChars 10 whole 0 : ℚ) + fraction frac)
      else none

/-- The text behind a minus sign, and the text where there is none. -/
def unsigned : List Char → List Char
  | '-' :: cs => cs
  | cs => cs

/-- The rational that a numeral denotes. -/
def readNumeral (cs : List Char) : Option ℚ :=
  if cs.head? = some '-' then (readUnsigned (unsigned cs)).map (-·)
  else readUnsigned cs

/-- The numeral with this whole and this fraction, without a point where the
fraction is empty. -/
def numeral (whole frac : List Char) : List Char :=
  if frac.isEmpty then whole else whole ++ '.' :: frac

theorem Digits.of_subset {cs cs' : List Char} (h : Digits cs)
    (hsub : cs' ⊆ cs) : Digits cs' := fun c hc => h c (hsub hc)

theorem Digits.notMem {cs : List Char} (h : Digits cs) {c : Char}
    (hc : c.isDigit = false) : c ∉ cs := by
  intro hmem
  rw [h c hmem] at hc
  cases hc

theorem digits_zero : Digits ['0'] := by simp [Digits]

theorem digits_toDigits (n : Nat) : Digits (Nat.toDigits 10 n) := by
  intro c hc
  exact Nat.isDigit_of_mem_toDigits (by decide) (by decide) hc

theorem fraction_nil : fraction [] = 0 := by simp [fraction]

theorem fraction_append_zero (cs : List Char) :
    fraction (cs ++ ['0']) = fraction cs := by
  rw [fraction, fraction, Nat.ofDigitChars_append, Nat.ofDigitChars_cons,
    Nat.ofDigitChars_nil, List.length_append, List.length_singleton, pow_succ]
  push_cast
  have hpow : (10 : ℚ) ^ cs.length ≠ 0 := pow_ne_zero _ (by norm_num)
  field_simp
  ring

/-- Zeros at the end may go. -/
theorem fraction_rdropWhile (cs : List Char) :
    fraction (cs.rdropWhile (· == '0')) = fraction cs := by
  induction cs using List.reverseRecOn with
  | nil => rfl
  | append_singleton cs c ih =>
      by_cases hc : c = '0'
      · subst hc
        rw [List.rdropWhile_concat_pos _ _ _ (by decide), ih,
          fraction_append_zero]
      · rw [List.rdropWhile_concat_neg _ _ _ (by simpa using hc)]

/-- Zeros in front do not count. -/
theorem ofDigitChars_zeros (k : Nat) (cs : List Char) :
    Nat.ofDigitChars 10 (List.replicate k '0' ++ cs) 0 =
      Nat.ofDigitChars 10 cs 0 := by
  rw [Nat.ofDigitChars_append, Nat.ofDigitChars_replicate_zero, Nat.mul_zero]

/-- A point `frac.length` digits from the right divides by that power. -/
theorem ofDigitChars_split (whole frac : List Char) :
    (Nat.ofDigitChars 10 (whole ++ frac) 0 : ℚ) / 10 ^ frac.length =
      Nat.ofDigitChars 10 whole 0 + fraction frac := by
  rw [Nat.ofDigitChars_append, Nat.ofDigitChars_eq_ofDigitChars_zero, fraction]
  push_cast
  have hpow : (10 : ℚ) ^ frac.length ≠ 0 := pow_ne_zero _ (by norm_num)
  field_simp

/-- The first digit of a number that is not zero is not zero. -/
theorem head_toDigits {n : Nat} (h : n ≠ 0) :
    (Nat.toDigits 10 n).head? ≠ some '0' := by
  induction n using Nat.strongRecOn with
  | ind n ih =>
      rw [Nat.toDigits_eq_if (by decide)]
      split
      · next hlt => interval_cases n <;> simp_all
      · next hle =>
          have hne : n / 10 ≠ 0 := by omega
          rw [List.head?_append_of_ne_nil _ Nat.toDigits_ne_nil]
          exact ih (n / 10) (by omega) hne

section

variable {whole frac : List Char}

theorem readUnsigned_numeral (hne : whole ≠ []) (hwhole : Digits whole)
    (hfrac : Digits frac) :
    readUnsigned (numeral whole frac) =
      some ((Nat.ofDigitChars 10 whole 0 : ℚ) + fraction frac) := by
  have hdot : ∀ c ∈ whole, (c != '.') = true := by
    intro c hc
    have := hwhole.notMem (c := '.') (by decide)
    simpa using fun h : c = '.' => this (h ▸ hc)
  cases frac with
  | nil =>
      have htake : whole.takeWhile (· != '.') = whole :=
        List.takeWhile_eq_self_iff.2 hdot
      have hdrop : whole.dropWhile (· != '.') = [] :=
        List.dropWhile_eq_nil_iff.2 hdot
      simp [numeral, readUnsigned, htake, hdrop, hne, hwhole, fraction_nil]
  | cons c frac =>
      have htake : (whole ++ '.' :: c :: frac).takeWhile (· != '.') =
          whole := by
        rw [List.takeWhile_append_of_pos hdot]
        simp
      have hdrop : (whole ++ '.' :: c :: frac).dropWhile (· != '.') =
          '.' :: c :: frac := by
        rw [List.dropWhile_append_of_pos hdot]
        simp
      simp [numeral, readUnsigned, htake, hdrop, hne, hwhole, hfrac]

theorem numeral_ne_nil (hne : whole ≠ []) : numeral whole frac ≠ [] := by
  cases frac with
  | nil => exact hne
  | cons c frac => simp [numeral]

theorem head?_numeral (hne : whole ≠ []) :
    (numeral whole frac).head? = whole.head? := by
  cases frac with
  | nil => rfl
  | cons c frac => exact List.head?_append_of_ne_nil whole hne

theorem head?_ne_of_digits {c : Char} (hwhole : Digits whole)
    (hc : c.isDigit = false) : whole.head? ≠ some c := by
  intro h
  exact hwhole.notMem hc (List.mem_of_head? h)

theorem getLast?_numeral (hne : frac ≠ []) :
    (numeral whole frac).getLast? = frac.getLast? := by
  cases frac with
  | nil => exact absurd rfl hne
  | cons c frac => simp [numeral, List.getLast?_cons]

end

end Explorer.Lib
