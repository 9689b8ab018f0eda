import Explorer.Proofs.TokenAmounts

/-!
# The fee of a gas event

The fee is price times amount, and the product is made in `i128`. Where both
operands fit but the product does not, a build with overflow checks panics and
one without shows another number. Where an operand does not fit, the bare
amount takes the place of the product. `fee_exact_iff` says when what is shown
is the fee all the same.
-/

namespace Explorer.Ref

open Explorer.Lib

/-- The event shows the canonical decimal of `fee / 10^10` as its fee. -/
def ShowsFee (overflowChecks : Bool) (value : Json) (fee : Int) : Prop :=
  ∃ shown s, enrichGasEvent overflowChecks value = some shown ∧
    shown.get "fee" = some (.str s) ∧ Canonical fee 10 s

/-! ## Reading the operands -/

/-- Digits that go out of range are an error. -/
theorem parseDigits_error {max : Nat} {overflow : String} {cs : List Char}
    {n : Nat} (hdigits : Digits cs) (hn : n ≤ max)
    (hmax : max < Nat.ofDigitChars 10 cs n) :
    parseDigits max overflow n cs = .error overflow := by
  induction cs generalizing n with
  | nil =>
      rw [Nat.ofDigitChars_nil] at hmax
      omega
  | cons c cs ih =>
      rw [Nat.ofDigitChars_cons] at hmax
      rw [parseDigits, if_pos (hdigits c List.mem_cons_self)]
      by_cases hstep : 10 * n + (c.toNat - '0'.toNat) ≤ max
      · rw [if_pos hstep]
        exact ih (fun d hd => hdigits d (List.mem_cons_of_mem _ hd)) hstep hmax
      · exact if_neg hstep

/-- A signed integer out of range is not read. -/
theorem parseSigned_toString_error {bits : Nat} {i : Int}
    (h : ¬ (-2 ^ (bits - 1) ≤ i ∧ i < 2 ^ (bits - 1))) :
    ∃ e, parseSigned bits (toString i).toList = .error e := by
  obtain ⟨hdigits, hne, hread⟩ := decimals_spec i.natAbs
  have hcast : ((2 ^ (bits - 1) : Nat) : Int) = 2 ^ (bits - 1) := by simp
  have hpos := Nat.two_pow_pos (bits - 1)
  rw [toList_toString_int]
  by_cases hneg : i < 0
  · have habs : 2 ^ (bits - 1) < i.natAbs := by omega
    rw [if_pos hneg, parseSigned_neg hne,
      parseDigits_error hdigits (Nat.zero_le _) (habs.trans_eq hread.symm)]
    exact ⟨_, rfl⟩
  · have habs : 2 ^ (bits - 1) - 1 < i.natAbs := by omega
    rw [if_neg hneg, parseSigned_digits hne hdigits,
      parseDigits_error hdigits (Nat.zero_le _) (habs.trans_eq hread.symm)]
    exact ⟨_, rfl⟩

theorem parseI128 {n : Int} (h : FitsI128 n) :
    parseSigned 128 (toString n).toList = .ok n :=
  parseSigned_toString h.1 h.2

theorem parseI128_error {n : Int} (h : ¬ FitsI128 n) :
    ∃ e, parseSigned 128 (toString n).toList = .error e :=
  parseSigned_toString_error h

/-! ## The product -/

variable (overflowChecks : Bool)

theorem feeRaw_fits {p a : Int} (hp : FitsI128 p) (ha : FitsI128 a) :
    feeRaw overflowChecks (some (toString p)) (toString a) =
      (mulI128 overflowChecks p a).map toString := by
  simp only [feeRaw, parseI128 hp, parseI128 ha]

/-- An operand that is not read leaves the amount. -/
theorem feeRaw_unread {p a : Int} (h : ¬ (FitsI128 p ∧ FitsI128 a)) :
    feeRaw overflowChecks (some (toString p)) (toString a) =
      some (toString a) := by
  by_cases hp : FitsI128 p
  · obtain ⟨e, he⟩ := parseI128_error fun ha => h ⟨hp, ha⟩
    simp only [feeRaw, parseI128 hp, he]
  · obtain ⟨e, he⟩ := parseI128_error hp
    simp only [feeRaw, he]

/-- A product that overflows is not the product. -/
theorem mulI128_overflow {p a r : Int} (h : ¬ FitsI128 (p * a))
    (hr : mulI128 overflowChecks p a = some r) : r ≠ p * a := by
  rw [mulI128, if_neg h] at hr
  split at hr
  · cases hr
  · rintro rfl
    refine h ?_
    rw [← Option.some.inj hr]
    have hlow := Int.le_bmod (x := p * a) (m := 2 ^ 128) (by decide)
    have hhigh := Int.bmod_lt (x := p * a) (m := 2 ^ 128) (by decide)
    constructor <;> omega

/-! ## The event -/

theorem scalarField_setField {key k : String} {value : Json}
    (h : k ≠ key) (object : Json.Fields) :
    scalarField k (Json.setField key value object) = scalarField k object := by
  rw [scalarField, Json.lookup_setField, if_neg h, scalarField]

/-- The event has the fee set last, on an object with the other fields. -/
theorem enrichGasEvent_eq {value : Json} {p a : Int}
    (hprice : scalarField "price" (objectFields value) = some (toString p))
    (hamount : scalarField "amount" (objectFields value) =
      some (toString a)) :
    ∃ object, enrichGasEvent overflowChecks value =
      (feeRaw overflowChecks (some (toString p)) (toString a)).map fun raw =>
        .obj (Json.setField "fee" (.str (formatTokenAmount raw 10)) object) := by
  unfold enrichGasEvent
  cases haddress : scalarField "address" (objectFields value) with
  | none =>
      simp only [haddress, hamount]
      rw [scalarField_setField (by decide), hprice]
      exact ⟨_, rfl⟩
  | some address =>
      simp only [haddress]
      rw [scalarField_setField (by decide), hamount]
      simp only []
      rw [scalarField_setField (by decide), scalarField_setField (by decide),
        hprice]
      exact ⟨_, rfl⟩

theorem showsFee_iff {value : Json} {p a fee : Int}
    (hprice : scalarField "price" (objectFields value) = some (toString p))
    (hamount : scalarField "amount" (objectFields value) =
      some (toString a)) :
    ShowsFee overflowChecks value fee ↔
      ∃ raw, feeRaw overflowChecks (some (toString p)) (toString a) =
        some raw ∧ Canonical fee 10 (formatTokenAmount raw 10) := by
  obtain ⟨object, hobject⟩ := enrichGasEvent_eq overflowChecks hprice hamount
  rw [ShowsFee, hobject]
  constructor
  · rintro ⟨shown, s, hshown, hs, hfee⟩
    obtain ⟨raw, hraw, rfl⟩ := Option.map_eq_some_iff.1 hshown
    rw [Json.get, Json.lookup_setField, if_pos rfl, Option.some.injEq,
      Json.str.injEq] at hs
    exact ⟨raw, hraw, hs ▸ hfee⟩
  · rintro ⟨raw, hraw, hfee⟩
    refine ⟨_, _, by rw [hraw]; rfl, ?_, hfee⟩
    rw [Json.get, Json.lookup_setField, if_pos rfl]

/-- The fee that is shown is price times amount just if the operands and the
product are all in range, or an operand is not and the amount is the product
anyway. -/
theorem fee_exact_iff (value : Json) (p a : Int)
    (hprice : scalarField "price" (objectFields value) = some (toString p))
    (hamount : scalarField "amount" (objectFields value) =
      some (toString a)) :
    ShowsFee overflowChecks value (p * a) ↔
      (FitsI128 p ∧ FitsI128 a ∧ FitsI128 (p * a)) ∨
      (¬ (FitsI128 p ∧ FitsI128 a) ∧ p * a = a) := by
  rw [showsFee_iff overflowChecks hprice hamount]
  by_cases hfits : FitsI128 p ∧ FitsI128 a
  · rw [feeRaw_fits overflowChecks hfits.1 hfits.2]
    by_cases hproduct : FitsI128 (p * a)
    · have hmul : mulI128 overflowChecks p a = some (p * a) := if_pos hproduct
      rw [hmul, Option.map_some]
      refine iff_of_true ⟨_, rfl, canonical_formatTokenAmount _ _⟩ ?_
      exact .inl ⟨hfits.1, hfits.2, hproduct⟩
    · refine iff_of_false ?_ (by simp [hfits, hproduct])
      rintro ⟨raw, hraw, hfee⟩
      obtain ⟨r, hr, rfl⟩ := Option.map_eq_some_iff.1 hraw
      exact mulI128_overflow overflowChecks hproduct hr
        (canonical_iff.1 hfee).symm
  · rw [feeRaw_unread overflowChecks hfits]
    constructor
    · rintro ⟨raw, hraw, hfee⟩
      rw [← Option.some.inj hraw] at hfee
      exact .inr ⟨hfits, canonical_iff.1 hfee⟩
    · rintro (⟨hp, ha, -⟩ | ⟨-, hproduct⟩)
      · exact absurd ⟨hp, ha⟩ hfits
      · exact ⟨_, rfl, canonical_iff.2 hproduct⟩

/-- A payload as the decoder of gas events writes it. -/
def gasPayload (price amount : Int) : Json :=
  Json.object
    [("price", .str (toString price)), ("amount", .str (toString amount))]

/-- 10^20 times 10^20 panics in one build and wraps in the other; twice 2^127
is shown as 2^127 in both. -/
theorem fee_overflow :
    (enrichGasEvent true (gasPayload (10 ^ 20) (10 ^ 20)) = none ∧
      ¬ ShowsFee true (gasPayload (10 ^ 20) (10 ^ 20)) (10 ^ 40) ∧
      ¬ ShowsFee false (gasPayload (10 ^ 20) (10 ^ 20)) (10 ^ 40)) ∧
    ∀ checks, ¬ ShowsFee checks (gasPayload 2 (2 ^ 127)) (2 ^ 128) := by
  have hlarge : ∀ key, key = "price" ∨ key = "amount" →
      scalarField key (objectFields (gasPayload (10 ^ 20) (10 ^ 20))) =
        some (toString (10 ^ 20 : Int)) := by
    rintro key (rfl | rfl) <;> decide +kernel
  have hproduct : mulI128 true (10 ^ 20) (10 ^ 20) = none := by decide +kernel
  have hchecked : feeRaw true (some (toString (10 ^ 20 : Int)))
      (toString (10 ^ 20 : Int)) = none := by
    rw [feeRaw_fits true (by decide) (by decide), hproduct]
    rfl
  refine ⟨⟨?_, ?_, ?_⟩, fun checks => ?_⟩
  · obtain ⟨object, hobject⟩ := enrichGasEvent_eq true
      (hlarge "price" (.inl rfl)) (hlarge "amount" (.inr rfl))
    rw [hobject, hchecked]
    rfl
  · rw [showsFee_iff true (hlarge "price" (.inl rfl))
      (hlarge "amount" (.inr rfl)), hchecked]
    rintro ⟨_, hraw, -⟩
    cases hraw
  · rw [showsFee_iff false (hlarge "price" (.inl rfl))
      (hlarge "amount" (.inr rfl)), feeRaw_fits false (by decide) (by decide)]
    rintro ⟨raw, hraw, hfee⟩
    obtain ⟨r, hr, rfl⟩ := Option.map_eq_some_iff.1 hraw
    exact mulI128_overflow false (by decide) hr (canonical_iff.1 hfee).symm
  · rw [showsFee_iff checks (p := 2) (a := 2 ^ 127) (by decide +kernel)
      (by decide +kernel), feeRaw_unread checks (by decide)]
    rintro ⟨raw, hraw, hfee⟩
    rw [← Option.some.inj hraw, canonical_iff] at hfee
    exact absurd hfee (by decide)

theorem fee_exact_iff_payment :
    ShowsFee true (gasPayload 100000 21000) (100000 * 21000) :=
  (fee_exact_iff true (gasPayload 100000 21000) 100000 21000
    (by decide +kernel) (by decide +kernel)).2 (.inl (by decide))

end Explorer.Ref
