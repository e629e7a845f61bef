import TemplateMachine.Number.Text
import TemplateMachine.Proofs.Program.Word

/-! Integers as doubles.  The double of an integer has the bits of its magnitude next to its sign,
so what depends on the magnitude alone is found for natural numbers.  Below the bound for integers
the double is read back as the integer; above it the double is still finite and not zero, as long as
the integer has a word. -/

namespace TemplateMachine.Binary64

/-! ### Sign and magnitude -/

section

variable {negative : Bool} {magnitude : Nat}

theorem toNat_ofMagnitude (h : magnitude < signBit) :
    (ofMagnitude negative magnitude).bits.toNat =
      if negative then signBit + magnitude else magnitude := by
  simp only [ofMagnitude, UInt64.toNat_ofNat']
  simp only [signBit] at h ⊢
  split <;> omega

theorem isNegative_ofMagnitude (h : magnitude < signBit) :
    (ofMagnitude negative magnitude).isNegative = negative := by
  rw [isNegative, toNat_ofMagnitude h]
  cases negative with
  | false => simpa using h
  | true => simp

theorem biased_ofMagnitude (h : magnitude < signBit) :
    (ofMagnitude negative magnitude).biased = magnitude / exponentUnit := by
  rw [biased, toNat_ofMagnitude h]
  simp only [signBit, exponentUnit] at h ⊢
  split <;> omega

theorem fraction_ofMagnitude (h : magnitude < signBit) :
    (ofMagnitude negative magnitude).fraction = magnitude % exponentUnit := by
  rw [fraction, toNat_ofMagnitude h]
  simp only [signBit, exponentUnit]
  split <;> omega

theorem isZero_ofMagnitude (h : magnitude < signBit) :
    (ofMagnitude negative magnitude).isZero = (magnitude == 0) := by
  rw [isZero, toNat_ofMagnitude h]
  congr 1
  simp only [signBit] at h ⊢
  split <;> omega

/-- The whole part does not depend on the sign. -/
theorem wholePart_ofMagnitude (h : magnitude < signBit) :
    (ofMagnitude negative magnitude).wholePart = (ofMagnitude false magnitude).wholePart := by
  simp only [wholePart, exponent, mantissa, biased_ofMagnitude h, fraction_ofMagnitude h]

theorem isIntegral_ofMagnitude (h : magnitude < signBit) :
    (ofMagnitude negative magnitude).isIntegral = (ofMagnitude false magnitude).isIntegral := by
  simp only [isIntegral, isFinite, exponent, mantissa, biased_ofMagnitude h, fraction_ofMagnitude h]

end

/-- A whole number is zero exactly if its whole part is. -/
theorem wholePart_eq_zero_iff {x : Binary64} (h : x.isIntegral = true) :
    x.wholePart = 0 ↔ x.isZero = true := by
  have hzero : x.isZero = true ↔ x.mantissa = 0 := by
    have hbits := x.bits.toNat_lt
    rw [isZero, beq_iff_eq, mantissa]
    by_cases hbiased : x.biased = 0
    · rw [if_pos hbiased]
      simp only [biased, fraction, signBit, exponentUnit] at *
      omega
    · rw [if_neg hbiased]
      simp only [biased, signBit, exponentUnit] at *
      omega
  rw [hzero, wholePart]
  by_cases hexponent : 0 ≤ x.exponent
  · rw [if_pos hexponent, Nat.mul_eq_zero]
    exact or_iff_left (Nat.ne_of_gt (Nat.pow_pos (by decide)))
  · simp only [isIntegral, hexponent, decide_false, Bool.false_or, Bool.and_eq_true,
      beq_iff_eq] at h
    rw [if_neg hexponent]
    refine ⟨fun hquotient => ?_, fun hmantissa => by rw [hmantissa, Nat.zero_div]⟩
    have := Nat.div_add_mod x.mantissa (Nat.pow 2 (-x.exponent).toNat)
    rw [hquotient, h.2] at this
    exact this.symm

theorem isTruthy_of_isFinite {x : Binary64} (h : x.isFinite = true) : x.isTruthy = !x.isZero := by
  rw [isFinite, bne_iff_ne] at h
  rw [isTruthy, isNaN, beq_false_of_ne h, Bool.false_and, Bool.not_false, Bool.and_true]

/-! ### Natural numbers -/

theorem div_le_roundDiv (num den : Nat) : num / den ≤ roundDiv num den := by
  unfold roundDiv
  dsimp only
  split
  · omega
  · split <;> omega

theorem roundDiv_le (num den : Nat) : roundDiv num den ≤ num / den + 1 := by
  unfold roundDiv
  dsimp only
  split
  · omega
  · split <;> omega

/-- The bits of a natural number are those of a positive number that is not
subnormal and not infinite. -/
theorem bits_ofNat_bounds {n : Nat} (hpos : 0 < n) (hlt : n < UInt64.size) :
    exponentUnit ≤ (ofNat n).bits.toNat ∧ (ofNat n).bits.toNat < infinite := by
  simp only [exponentUnit, infinite, UInt64.size] at *
  by_cases hsmall : n < 0x10000000000000
  · obtain ⟨hlog, hlow, hhigh⟩ := shifted_bounds hpos hsmall
    rw [bits_ofNat hpos hsmall]
    omega
  · -- the unit is the power of two that leaves fifty-three bits of the number
    have hlow : Nat.pow 2 n.log2 ≤ n := Nat.log2_self_le (by omega)
    have hhigh : n < Nat.pow 2 (n.log2 + 1) := Nat.lt_log2_self
    have hlog₁ : 52 ≤ n.log2 := (Nat.le_log2 (by omega)).mpr (by omega)
    have hlog₂ : n.log2 < 64 := (Nat.log2_lt (by omega)).mpr (by omega)
    obtain ⟨k, hk⟩ := Nat.exists_eq_add_of_le' hlog₁
    have hsplit : Nat.pow 2 n.log2 = 0x10000000000000 * Nat.pow 2 k := by
      rw [hk, ← two_pow_52, Nat.mul_comm]
      exact Nat.pow_add 2 k 52
    have hdouble : Nat.pow 2 (n.log2 + 1) = 0x20000000000000 * Nat.pow 2 k := by
      rw [two_pow_succ, hsplit, Nat.mul_right_comm]
    have hunitpos : 0 < Nat.pow 2 k := Nat.pow_pos (by decide)
    have hquotient₁ : 0x10000000000000 ≤ n / Nat.pow 2 k := by
      rw [Nat.le_div_iff_mul_le hunitpos, ← hsplit]
      exact hlow
    have hquotient₂ : n / Nat.pow 2 k < 0x20000000000000 := by
      rw [Nat.div_lt_iff_lt_mul hunitpos, ← hdouble]
      exact hhigh
    have hguess : ((n.log2 : Int) - (1 : Nat).log2 - 52) = (k : Int) := by
      have : (1 : Nat).log2 = 0 := by decide
      omega
    have hunits : inUnits n 1 (k : Int) = (n, Nat.pow 2 k) := by
      simp [inUnits]
    have hunit : unitExponent n 1 = (k : Int) := by
      simp only [unitExponent, hguess, hunits, exponentUnit]
      rw [if_neg (by omega)]
      omega
    have hround₁ := div_le_roundDiv n (Nat.pow 2 k)
    have hround₂ := roundDiv_le n (Nat.pow 2 k)
    have hexponent : ((k : Int) + 1074).toNat = k + 1074 := by omega
    simp only [ofNat, ofRatio, hunit, hunits, hexponent, exponentUnit, infinite]
    rw [if_neg (by omega), Nat.min_eq_left (by omega),
      toNat_ofMagnitude (by simp only [signBit]; omega)]
    rw [if_neg (by decide)]
    omega

/-! ### Integers -/

theorem min_infinite_lt (magnitude : Nat) : min magnitude infinite < signBit := by
  simp only [infinite, exponentUnit, signBit]
  omega

theorem bits_ofNat_lt (n : Nat) : (ofNat n).bits.toNat < signBit := by
  rw [ofNat, ofRatio]
  split
  · decide
  · rw [toNat_ofMagnitude (min_infinite_lt _), if_neg Bool.false_ne_true]
    exact min_infinite_lt _

/-- An integer is the double of its magnitude with its sign. -/
theorem ofInt_eq (n : Int) : ofInt n = ofMagnitude (n < 0) (ofNat n.natAbs).bits.toNat := by
  rw [ofInt, ofNat, ofRatio, ofRatio]
  split
  · rfl
  · rw [toNat_ofMagnitude (min_infinite_lt _), if_neg Bool.false_ne_true]

variable {n : Int}

/-- An integer that has a word is a finite double, and zero only if it is zero. -/
theorem ofInt_of_word (h : n.natAbs < UInt64.size) :
    (ofInt n).isFinite = true ∧ (ofInt n).isZero = (n == 0) := by
  by_cases hzero : n = 0
  · subst hzero
    decide
  · obtain ⟨hlow, hhigh⟩ := bits_ofNat_bounds (Int.natAbs_pos.mpr hzero) h
    have hlt := bits_ofNat_lt n.natAbs
    rw [ofInt_eq, isFinite, biased_ofMagnitude hlt, isZero_ofMagnitude hlt]
    simp only [exponentUnit, infinite] at hlow hhigh
    constructor
    · rw [bne_iff_ne]
      simp only [exponentUnit]
      omega
    · rw [beq_false_of_ne hzero, beq_eq_false_iff_ne]
      omega

theorem isTruthy_ofInt (h : n.natAbs < UInt64.size) : (ofInt n).isTruthy = (n != 0) := by
  obtain ⟨hfinite, hzero⟩ := ofInt_of_word h
  rw [isTruthy_of_isFinite hfinite, hzero]
  rfl

/-- An integer below the bound is read back from its double. -/
theorem smallInt?_ofInt (h : n.natAbs < integerBound) : (ofInt n).smallInt? = some n := by
  obtain ⟨hintegral, hwhole⟩ := isIntegral_ofNat (Nat.lt_of_lt_of_le h (by decide))
  have hlt := bits_ofNat_lt n.natAbs
  have hself : ofMagnitude false (ofNat n.natAbs).bits.toNat = ofNat n.natAbs := by
    have := ofInt_eq n.natAbs
    rw [Int.natAbs_natCast, decide_eq_false (by omega)] at this
    exact this.symm
  rw [smallInt?, ofInt_eq, isIntegral_ofMagnitude hlt, wholePart_ofMagnitude hlt,
    isNegative_ofMagnitude hlt, hself, hintegral, hwhole, decide_eq_true h]
  simp only [Bool.and_self, if_true, decide_eq_true_eq, Option.some.injEq]
  split <;> omega

/-- The integer that a double is given back as lies below the bound, and is
zero only if the double is. -/
theorem of_smallInt? {x : Binary64} (h : x.smallInt? = some n) :
    n.natAbs < integerBound ∧ x.isTruthy = (n != 0) := by
  unfold smallInt? at h
  split at h
  · rename_i hx
    rw [Bool.and_eq_true, decide_eq_true_eq] at hx
    obtain ⟨hintegral, hbound⟩ := hx
    have hfinite : x.isFinite = true := by
      rw [isIntegral, Bool.and_eq_true] at hintegral
      exact hintegral.1
    have habs : n.natAbs = x.wholePart := by
      obtain rfl := Option.some.inj h
      split <;> omega
    refine ⟨habs ▸ hbound, ?_⟩
    rw [isTruthy_of_isFinite hfinite, bne, Bool.not_inj_iff, Bool.eq_iff_iff,
      ← wholePart_eq_zero_iff hintegral, ← habs, Int.natAbs_eq_zero, beq_iff_eq]
  · cases h

end TemplateMachine.Binary64
