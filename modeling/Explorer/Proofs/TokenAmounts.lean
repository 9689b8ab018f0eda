import Explorer.Lib.Decimals
import Explorer.Proofs.Pagination
import Explorer.Ref.EventAmounts

/-!
# Amounts are exact

`format_token_amount` shifts the point of an integer. Its branches for short
and for long digit strings differ in what they write in front of the point;
behind it, both have the last `d` digits, padded, without the zeros at the
end. `Shifted` says what is left to be right about the two parts, and the
text is a numeral of these.
-/

namespace Explorer.Ref

open Explorer.Lib

/-- `s` is the numeral for `n / 10^d`. -/
structure Canonical (n : Int) (d : Nat) (s : String) : Prop where
  denotes : readNumeral s.toList = some ((n : ℚ) / 10 ^ d)
  minus : s.toList.head? = some '-' ↔ n < 0
  noTrailingZero : '.' ∈ s.toList → s.toList.getLast? ≠ some '0'
  noTrailingPoint : s.toList.getLast? ≠ some '.'
  /-- Below one, one zero and then the point or the end. -/
  oneZero : n.natAbs < 10 ^ d → ∃ rest, unsigned s.toList = '0' :: rest ∧
    (rest = [] ∨ rest.head? = some '.')
  noLeadingZero : 10 ^ d ≤ n.natAbs → (unsigned s.toList).head? ≠ some '0'

/-- The parts of the numeral for `m / 10^d`. -/
structure Shifted (m d : Nat) (whole frac : List Char) : Prop where
  wholeDigits : Digits whole
  fracDigits : Digits frac
  wholeNe : whole ≠ []
  value : (Nat.ofDigitChars 10 whole 0 : ℚ) + fraction frac = (m : ℚ) / 10 ^ d
  lastDigit : frac.getLast? ≠ some '0'
  small : m < 10 ^ d → whole = ['0']
  large : 10 ^ d ≤ m → whole.head? ≠ some '0'

/-! ## The digits -/

theorem getLast?_trimEndZeros (cs : List Char) :
    (trimEndZeros cs).getLast? ≠ some '0' := by
  by_cases hnil : trimEndZeros cs = []
  · simp [hnil]
  · have hlast := List.rdropWhile_last_not (· == '0') cs hnil
    rw [List.getLast?_eq_some_getLast hnil, ne_eq, Option.some.injEq]
    exact fun h => hlast (beq_iff_eq.2 h)

theorem digits_trimEndZeros {cs : List Char} (h : Digits cs) :
    Digits (trimEndZeros cs) :=
  h.of_subset (List.rdropWhile_prefix _ cs).subset

/-- Short digit strings: everything goes behind the point. -/
theorem shifted_short {m d : Nat} (hd : 0 < d)
    (hlength : (Nat.toDigits 10 m).length ≤ d) :
    Shifted m d ['0']
      (trimEndZeros (List.replicate (d - (Nat.toDigits 10 m).length) '0' ++
        Nat.toDigits 10 m)) := by
  have hlt := (Nat.length_toDigits_le_iff (by decide) hd).1 hlength
  have hzeros : Digits (List.replicate (d - (Nat.toDigits 10 m).length) '0' ++
      Nat.toDigits 10 m) := by
    intro c hc
    obtain hc | hc := List.mem_append.1 hc
    · rw [List.eq_of_mem_replicate hc]
      decide
    · exact digits_toDigits m c hc
  refine ⟨digits_zero, digits_trimEndZeros hzeros, by simp, ?_,
    getLast?_trimEndZeros _, fun _ => rfl, fun hle => by omega⟩
  rw [trimEndZeros, fraction_rdropWhile, fraction, ofDigitChars_zeros,
    Nat.ofDigitChars_ten_toDigits, List.length_append, List.length_replicate,
    Nat.sub_add_cancel hlength]
  simp [Nat.ofDigitChars_cons]

/-- Long digit strings: the point cuts them. -/
theorem shifted_long {m d : Nat} (hlength : d < (Nat.toDigits 10 m).length)
    (hm : m ≠ 0 ∨ d = 0) :
    Shifted m d
      ((Nat.toDigits 10 m).take ((Nat.toDigits 10 m).length - d))
      (trimEndZeros
        ((Nat.toDigits 10 m).drop ((Nat.toDigits 10 m).length - d))) := by
  have hdigits := digits_toDigits m
  have hne : (Nat.toDigits 10 m).take ((Nat.toDigits 10 m).length - d) ≠ [] := by
    rw [ne_eq, List.take_eq_nil_iff, not_or]
    exact ⟨by omega, Nat.toDigits_ne_nil⟩
  have hge : m ≠ 0 → 10 ^ d ≤ m := by
    intro hm
    by_contra hlt
    rcases Nat.eq_zero_or_pos d with rfl | hd
    · rw [pow_zero] at hlt
      omega
    · have := (Nat.length_toDigits_le_iff (by decide) hd).2 (not_le.1 hlt)
      omega
  refine ⟨hdigits.of_subset (List.take_subset ..),
    digits_trimEndZeros (hdigits.of_subset (List.drop_subset ..)), hne, ?_,
    getLast?_trimEndZeros _, fun hlt => ?_, fun hle => ?_⟩
  · have hsplit := ofDigitChars_split
      ((Nat.toDigits 10 m).take ((Nat.toDigits 10 m).length - d))
      ((Nat.toDigits 10 m).drop ((Nat.toDigits 10 m).length - d))
    rw [List.take_append_drop, Nat.ofDigitChars_ten_toDigits,
      List.length_drop, Nat.sub_sub_self (by omega)] at hsplit
    rw [trimEndZeros, fraction_rdropWhile, hsplit]
  · -- Only zero is below one and not short, and only without decimals.
    have hzero : m = 0 := by
      by_contra hne
      exact absurd (hge hne) (by omega)
    obtain rfl : d = 0 := by
      cases hm with
      | inl hm => exact absurd hzero hm
      | inr hd => exact hd
    rw [hzero, Nat.toDigits_zero]
    rfl
  · have hpos : m ≠ 0 := by
      have := Nat.pow_pos (n := d) (show 0 < 10 by decide)
      omega
    rw [List.head?_take, if_neg (by omega)]
    exact head_toDigits hpos

theorem formatDigits_shifted {m d : Nat} (hd : 0 < d) (hm : m ≠ 0) :
    ∃ whole frac, formatDigits (Nat.toDigits 10 m) d = numeral whole frac ∧
      Shifted m d whole frac := by
  unfold formatDigits
  split
  · next hlength =>
      refine ⟨_, _, ?_, shifted_short hd hlength⟩
      rfl
  · next hlength =>
      exact ⟨_, _, rfl, shifted_long (by omega) (.inl hm)⟩

/-! ## The numeral -/

theorem isWhitespace_of_isDigit {c : Char} (h : c.isDigit = true) :
    isWhitespace c = false := by
  rw [Char.isDigit_iff_toNat] at h
  have hzero : '0'.toNat = 48 := rfl
  have hnine : '9'.toNat = 57 := rfl
  simp [isWhitespace]
  omega

/-- An integer has no blanks to trim. -/
theorem trim_toString (n : Int) :
    trim (toString n).toList = (toString n).toList := by
  have hdigits := digits_toDigits n.natAbs
  have hblank : ∀ c ∈ (toString n).toList, isWhitespace c = false := by
    intro c hc
    rw [toList_toString_int, Nat.toList_repr] at hc
    split at hc
    · obtain rfl | hc := List.mem_cons.1 hc
      · decide
      · exact isWhitespace_of_isDigit (hdigits c hc)
    · exact isWhitespace_of_isDigit (hdigits c hc)
  have hkeep : ∀ cs : List Char, (∀ c ∈ cs, isWhitespace c = false) →
      cs.dropWhile isWhitespace = cs := by
    intro cs hcs
    cases cs with
    | nil => rfl
    | cons c rest =>
        rw [List.dropWhile_cons_of_neg]
        simp [hcs c List.mem_cons_self]
  rw [trim, hkeep _ hblank, hkeep _ (by simpa using hblank),
    List.reverse_reverse]

theorem stripMinus_digits {cs : List Char} (h : Digits cs) :
    stripMinus cs = none := by
  cases cs with
  | nil => rfl
  | cons c rest =>
      have hc : c ≠ '-' := by
        rintro rfl
        exact absurd (h '-' List.mem_cons_self) (by decide)
      unfold stripMinus
      split
      · next heq => exact absurd (List.cons.inj heq).1 hc
      · rfl

/-- Zero, and any number without decimals, is given back. -/
theorem shifted_whole {m d : Nat} (h : m = 0 ∨ d = 0) :
    Shifted m d (Nat.toDigits 10 m) [] := by
  refine ⟨digits_toDigits m, by simp [Digits], Nat.toDigits_ne_nil, ?_,
    by simp, fun hlt => ?_, fun hle => ?_⟩
  · rw [Nat.ofDigitChars_ten_toDigits, fraction_nil]
    obtain rfl | rfl := h <;> simp
  · obtain rfl : m = 0 := by
      obtain h | rfl := h
      · exact h
      · rw [pow_zero] at hlt
        omega
    exact Nat.toDigits_zero 10
  · have hpos := Nat.pow_pos (n := d) (show 0 < 10 by decide)
    exact head_toDigits (by omega)

/-- What does not denote zero is not written `0`. -/
theorem Shifted.numeral_ne {m d : Nat} {whole frac : List Char}
    (h : Shifted m d whole frac) (hm : m ≠ 0) :
    numeral whole frac ≠ ['0'] := by
  intro heq
  have hread := readUnsigned_numeral h.wholeNe h.wholeDigits h.fracDigits
  have hnil : Digits [] := by simp [Digits]
  have hzero := readUnsigned_numeral (by simp) digits_zero hnil
  rw [heq, h.value] at hread
  rw [show numeral ['0'] [] = ['0'] from rfl, hread, Option.some.injEq,
    fraction_nil] at hzero
  have hpow : (10 : ℚ) ^ d ≠ 0 := pow_ne_zero _ (by norm_num)
  rw [div_eq_iff hpow] at hzero
  simp [Nat.ofDigitChars_cons] at hzero
  exact hm hzero

theorem toList_toString_digits (n : Int) :
    (toString n).toList = if n < 0 then '-' :: Nat.toDigits 10 n.natAbs
      else Nat.toDigits 10 n.natAbs := by
  rw [toList_toString_int, Nat.toList_repr]

theorem natAbs_eq_zero_of_text {n : Int} (h : (toString n).toList = ['0']) :
    n.natAbs = 0 := by
  rw [toList_toString_digits] at h
  split at h
  · exact absurd (List.cons.inj h).1 (by decide)
  · have hread := Nat.ofDigitChars_ten_toDigits (n := n.natAbs)
    rw [h] at hread
    exact hread.symm

/-- The sign and the parts. -/
theorem formatTokenAmount_shifted (n : Int) (d : Nat) :
    ∃ whole frac, Shifted n.natAbs d whole frac ∧
      (formatTokenAmount (toString n) d).toList =
        if n < 0 then '-' :: numeral whole frac else numeral whole frac := by
  have hdigits := digits_toDigits n.natAbs
  have htext := toList_toString_digits n
  rw [formatTokenAmount]
  simp only [trim_toString]
  by_cases hplain : (toString n).toList = ['0'] ∨ d = 0
  · rw [if_pos hplain, String.toList_ofList]
    exact ⟨_, [], shifted_whole (hplain.imp natAbs_eq_zero_of_text id), htext⟩
  · rw [if_neg hplain]
    rw [not_or] at hplain
    have hne : n.natAbs ≠ 0 := by
      intro hzero
      exact hplain.1 (by rw [Int.natAbs_eq_zero.1 hzero]; rfl)
    obtain ⟨whole, frac, hformat, hshifted⟩ :=
      formatDigits_shifted (Nat.pos_of_ne_zero hplain.2) hne
    have hall : (!(Nat.toDigits 10 n.natAbs).all Char.isDigit) = false := by
      simpa [Digits] using hdigits
    refine ⟨whole, frac, hshifted, ?_⟩
    by_cases hneg : n < 0
    · rw [if_pos hneg] at htext
      have hstrip : stripMinus (toString n).toList =
          some (Nat.toDigits 10 n.natAbs) := by
        rw [htext]
        rfl
      simp only [hstrip, Option.getD_some, hall, Option.isSome_some, hformat]
      simp [hshifted.numeral_ne hne, hneg]
    · rw [if_neg hneg] at htext
      have hstrip := stripMinus_digits hdigits
      simp only [htext, hstrip, Option.getD_none, hall, hformat]
      simp [hneg]

/-! ## Exact and canonical -/

section

variable {m d : Nat} {whole frac : List Char}

theorem Shifted.head_ne_minus (h : Shifted m d whole frac) :
    (numeral whole frac).head? ≠ some '-' := by
  rw [head?_numeral h.wholeNe]
  exact head?_ne_of_digits h.wholeDigits (by decide)

theorem Shifted.unsigned_eq (h : Shifted m d whole frac) :
    unsigned (numeral whole frac) = numeral whole frac := by
  unfold unsigned
  split
  · next cs heq =>
      exact absurd (by rw [heq]; rfl) h.head_ne_minus
  · rfl

theorem Shifted.getLast?_ne (h : Shifted m d whole frac) {c : Char}
    (hc : c.isDigit = false) : (numeral whole frac).getLast? ≠ some c := by
  intro hlast
  by_cases hnil : frac = []
  · subst hnil
    exact h.wholeDigits.notMem hc (List.mem_of_getLast? hlast)
  · rw [getLast?_numeral hnil] at hlast
    exact h.fracDigits.notMem hc (List.mem_of_getLast? hlast)

theorem Shifted.getLast?_ne_zero (h : Shifted m d whole frac)
    (hdot : '.' ∈ numeral whole frac) :
    (numeral whole frac).getLast? ≠ some '0' := by
  by_cases hnil : frac = []
  · subst hnil
    exact absurd hdot (h.wholeDigits.notMem (by decide))
  · rw [getLast?_numeral hnil]
    exact h.lastDigit

end

theorem canonical_formatTokenAmount (n : Int) (d : Nat) :
    Canonical n d (formatTokenAmount (toString n) d) := by
  obtain ⟨whole, frac, h, htext⟩ := formatTokenAmount_shifted n d
  have hread := readUnsigned_numeral h.wholeNe h.wholeDigits h.fracDigits
  rw [h.value] at hread
  have hunsigned : unsigned (formatTokenAmount (toString n) d).toList =
      numeral whole frac := by
    rw [htext]
    split
    · rfl
    · exact h.unsigned_eq
  have hlast : (formatTokenAmount (toString n) d).toList.getLast? =
      (numeral whole frac).getLast? := by
    rw [htext]
    split
    · exact List.getLast?_cons_of_ne_nil (numeral_ne_nil h.wholeNe)
    · rfl
  refine ⟨?_, ?_, fun hdot => ?_, ?_, fun hlt => ?_, fun hle => ?_⟩
  · have habs : (n.natAbs : ℚ) = |(n : ℚ)| := by
      rw [Nat.cast_natAbs, Int.cast_abs]
    by_cases hneg : n < 0
    · have hcast : (n : ℚ) < 0 := by exact_mod_cast hneg
      rw [if_pos hneg] at htext
      rw [readNumeral, if_pos (by rw [htext]; rfl), hunsigned, hread, habs,
        abs_of_neg hcast, Option.map_some, neg_div, neg_neg]
    · have hcast : (0 : ℚ) ≤ n := by exact_mod_cast not_lt.1 hneg
      rw [if_neg hneg] at htext
      rw [readNumeral, htext, if_neg h.head_ne_minus, hread, habs,
        abs_of_nonneg hcast]
  · rw [htext]
    split
    · next hneg => simp [hneg]
    · next hneg => simp [hneg, h.head_ne_minus]
  · rw [hlast]
    refine h.getLast?_ne_zero ?_
    rw [htext] at hdot
    split at hdot
    · exact (List.mem_cons.1 hdot).resolve_left (by decide)
    · exact hdot
  · rw [hlast]
    exact h.getLast?_ne (by decide)
  · rw [hunsigned, h.small hlt]
    cases frac with
    | nil => exact ⟨[], rfl, .inl rfl⟩
    | cons c frac => exact ⟨'.' :: c :: frac, rfl, .inr rfl⟩
  · rw [hunsigned, head?_numeral h.wholeNe]
    exact h.large hle

/-- The text of an amount is the numeral of this amount only. -/
theorem canonical_iff {m n : Int} {d : Nat} :
    Canonical m d (formatTokenAmount (toString n) d) ↔ m = n := by
  constructor
  · intro h
    have hm := h.denotes
    have hn := (canonical_formatTokenAmount n d).denotes
    rw [hm, Option.some.injEq] at hn
    have hpow : (10 : ℚ) ^ d ≠ 0 := pow_ne_zero _ (by norm_num)
    exact_mod_cast (div_left_inj' hpow).1 hn
  · rintro rfl
    exact canonical_formatTokenAmount m d

/-- Of every integer and for every number of decimals, the text is the numeral
for the quotient, and no other integer has it. -/
theorem formatTokenAmount_exact (d : Nat) :
    (∀ n : Int, Canonical n d (formatTokenAmount (toString n) d)) ∧
    ∀ n m : Int,
      formatTokenAmount (toString n) d = formatTokenAmount (toString m) d →
        n = m :=
  ⟨fun n => canonical_formatTokenAmount n d,
    fun n _ h => canonical_iff.1 (h ▸ canonical_formatTokenAmount n d)⟩

example : formatTokenAmount "-1500" 4 = "-0.15" := by decide +kernel

end Explorer.Ref
