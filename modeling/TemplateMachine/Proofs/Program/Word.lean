import TemplateMachine.Proofs.Program.Interning

/-! Numbers in words.  A positive number below `2 ^ 52` is a double exactly, so the number that a
word holds is the number that was encoded, and the number of a handle is read back as that
handle. -/

namespace TemplateMachine

namespace Binary64

theorem two_pow_succ (k : Nat) : Nat.pow 2 (k + 1) = Nat.pow 2 k * 2 := Nat.pow_succ 2 k

theorem two_pow_le {j k : Nat} (h : j ≤ k) : Nat.pow 2 j ≤ Nat.pow 2 k :=
  Nat.pow_le_pow_right (by decide) h

theorem two_pow_52 : Nat.pow 2 52 = 0x10000000000000 := by decide

theorem two_pow_53 : Nat.pow 2 53 = 0x20000000000000 := by decide

theorem div_two_pow_eq_zero {m k : Nat} (hk : 52 ≤ k) (hm : m < exponentUnit) :
    m / Nat.pow 2 k = 0 := by
  have hpow := two_pow_le hk
  rw [two_pow_52] at hpow
  exact Nat.div_eq_of_lt (Nat.lt_of_lt_of_le hm hpow)

theorem two_pow_sub_mul {k : Nat} (hk : k ≤ 52) :
    Nat.pow 2 (52 - k) * Nat.pow 2 k = 0x10000000000000 := by
  have : Nat.pow 2 (52 - k + k) = Nat.pow 2 (52 - k) * Nat.pow 2 k := Nat.pow_add 2 (52 - k) k
  rw [← this, Nat.sub_add_cancel hk, two_pow_52]

/-- The shift that gives a number fifty-three bits gives it no more. -/
theorem shifted_bounds {n : Nat} (hpos : 0 < n) (hlt : n < 0x10000000000000) :
    n.log2 ≤ 51 ∧ 0x10000000000000 ≤ n * Nat.pow 2 (52 - n.log2) ∧
      n * Nat.pow 2 (52 - n.log2) < 0x20000000000000 := by
  have hlow : Nat.pow 2 n.log2 ≤ n := Nat.log2_self_le (by omega)
  have hhigh : n < Nat.pow 2 (n.log2 + 1) := Nat.lt_log2_self
  have hlog : n.log2 ≤ 51 := by
    by_cases h : n.log2 ≤ 51
    · exact h
    · have : Nat.pow 2 52 ≤ Nat.pow 2 n.log2 := two_pow_le (by omega)
      rw [two_pow_52] at this
      omega
  have hsplit : Nat.pow 2 n.log2 * Nat.pow 2 (52 - n.log2) = 0x10000000000000 := by
    rw [Nat.mul_comm]
    exact two_pow_sub_mul (by omega)
  have hdouble : Nat.pow 2 (n.log2 + 1) * Nat.pow 2 (52 - n.log2) = 0x20000000000000 := by
    rw [two_pow_succ, Nat.mul_right_comm, hsplit]
  refine ⟨hlog, ?_, ?_⟩
  · rw [← hsplit]
    exact Nat.mul_le_mul_right _ hlow
  · rw [← hdouble]
    exact Nat.mul_lt_mul_of_pos_right hhigh (Nat.pow_pos (by decide))

/-- The shift that gives a number fifty-three bits tells its logarithm. -/
theorem log2_of_shifted {n k : Nat} (hk : k ≤ 52) (hlow : 0x10000000000000 ≤ n * Nat.pow 2 k)
    (hhigh : n * Nat.pow 2 k < 0x20000000000000) : n.log2 = 52 - k := by
  have hpos : 0 < Nat.pow 2 k := Nat.pow_pos (by decide)
  have hn : n ≠ 0 := by
    rintro rfl
    omega
  have hdouble : Nat.pow 2 (52 - k + 1) * Nat.pow 2 k = 0x20000000000000 := by
    rw [two_pow_succ, Nat.mul_right_comm, two_pow_sub_mul hk]
  have hlower : Nat.pow 2 (52 - k) ≤ n := by
    refine Nat.le_of_mul_le_mul_right ?_ hpos
    rw [two_pow_sub_mul hk]
    exact hlow
  have hupper : n < Nat.pow 2 (52 - k + 1) := by
    refine Nat.lt_of_mul_lt_mul_right (a := Nat.pow 2 k) ?_
    rw [hdouble]
    exact hhigh
  exact (Nat.log2_eq_iff hn).mpr ⟨hlower, hupper⟩

theorem roundDiv_one (n : Nat) : roundDiv n 1 = n := by
  simp [roundDiv, Nat.mod_one]

/-- The bits of a small number: its exponent, and the number shifted to fifty-three bits. -/
theorem bits_ofNat {n : Nat} (hpos : 0 < n) (hlt : n < 0x10000000000000) :
    (ofNat n).bits.toNat = (n.log2 + 1022) * 0x10000000000000 + n * Nat.pow 2 (52 - n.log2) := by
  obtain ⟨hlog, hlow, hhigh⟩ := shifted_bounds hpos hlt
  have hguess : ((n.log2 : Int) - (1 : Nat).log2 - 52) = -((52 - n.log2 : Nat) : Int) := by
    have : (1 : Nat).log2 = 0 := by decide
    omega
  have hunits : inUnits n 1 (-((52 - n.log2 : Nat) : Int)) = (n * Nat.pow 2 (52 - n.log2), 1) := by
    have hneg : ¬ (0 : Int) ≤ -((52 - n.log2 : Nat) : Int) := by omega
    simp only [inUnits, if_neg hneg, Int.neg_neg, Int.toNat_natCast]
  have hunit : unitExponent n 1 = -((52 - n.log2 : Nat) : Int) := by
    simp only [unitExponent, hguess, hunits, Nat.div_one, exponentUnit]
    rw [if_neg (by omega)]
    omega
  have hexp : (-((52 - n.log2 : Nat) : Int) + 1074).toNat = n.log2 + 1022 := by omega
  simp only [ofNat, ofRatio, hunit, hunits, hexp, roundDiv_one, ofMagnitude, exponentUnit, infinite]
  rw [if_neg (by omega), Nat.min_eq_left (by omega)]
  simp only [UInt64.toNat_ofNat']
  rw [if_neg (by decide)]
  exact Nat.mod_eq_of_lt (by omega)

/-- The fields of a small number. -/
theorem fields_ofNat {n : Nat} (hpos : 0 < n) (hlt : n < 0x10000000000000) :
    (ofNat n).biased = n.log2 + 1023 ∧ (ofNat n).mantissa = n * Nat.pow 2 (52 - n.log2) ∧
      (ofNat n).exponent = -((52 - n.log2 : Nat) : Int) := by
  obtain ⟨hlog, hlow, hhigh⟩ := shifted_bounds hpos hlt
  have hbits := bits_ofNat hpos hlt
  have hbiased : (ofNat n).biased = n.log2 + 1023 := by
    simp only [biased, exponentUnit, hbits]
    omega
  refine ⟨hbiased, ?_, ?_⟩
  · simp only [mantissa, hbiased, fraction, exponentUnit, hbits]
    rw [if_neg (by omega)]
    omega
  · simp only [exponent, hbiased]
    rw [if_neg (by omega)]
    omega

/-- A small number is a whole number, with itself as its whole part. -/
theorem isIntegral_ofNat {n : Nat} (hlt : n < 0x10000000000000) :
    (ofNat n).isIntegral = true ∧ (ofNat n).wholePart = n := by
  by_cases hzero : n = 0
  · subst hzero
    simp only [isIntegral, wholePart, show (ofNat 0).mantissa = 0 from rfl,
      Nat.zero_mod, Nat.zero_mul, Nat.zero_div, ite_self, beq_self_eq_true, Bool.or_true,
      Bool.and_true, and_true]
    rfl
  · have hpos := Nat.pos_of_ne_zero hzero
    obtain ⟨hlog, -, -⟩ := shifted_bounds hpos hlt
    obtain ⟨hbiased, hmantissa, hexponent⟩ := fields_ofNat hpos hlt
    have hneg : ¬ (0 : Int) ≤ -((52 - n.log2 : Nat) : Int) := by omega
    simp only [isIntegral, isFinite, wholePart, hbiased, hexponent, if_neg hneg,
      hmantissa, Int.neg_neg, Int.toNat_natCast]
    refine ⟨?_, Nat.mul_div_cancel _ (Nat.pow_pos (by decide))⟩
    rw [Nat.mul_mod_left, beq_self_eq_true, Bool.or_true, Bool.and_true, bne_iff_ne]
    omega

/-- The number of a handle is read back as that handle. -/
theorem toWord?_ofNat (w : UInt32) : (ofNat w.toNat).toWord? = some w := by
  have hw : w.toNat < 4294967296 := w.toNat_lt
  have hwhole := (isIntegral_ofNat (n := w.toNat) (by omega)).2
  have hsigned : (ofNat w.toNat).isNegative = false ∧ (ofNat w.toNat).isNaN = false ∧
      (ofNat w.toNat).isInfinite = false := by
    by_cases hzero : w.toNat = 0
    · rw [hzero]
      decide
    · obtain ⟨hlog, hlow, hhigh⟩ := shifted_bounds (n := w.toNat) (by omega) (by omega)
      have hbits := bits_ofNat (n := w.toNat) (by omega) (by omega)
      obtain ⟨hbiased, -, -⟩ := fields_ofNat (n := w.toNat) (by omega) (by omega)
      have hfinite : ((ofNat w.toNat).biased == 2047) = false := by
        rw [hbiased, beq_eq_false_iff_ne]
        omega
      simp only [isNaN, isInfinite, hfinite, Bool.false_and, and_self, and_true, isNegative,
        signBit, hbits, decide_eq_false_iff_not]
      omega
  obtain ⟨hnegative, hnan, hinfinite⟩ := hsigned
  simp only [toWord?, hnegative, hnan, hinfinite, Bool.false_and, Bool.false_or,
    Bool.false_eq_true, if_false, hwhole]
  rw [Nat.min_eq_left (by omega), UInt32.ofNat_toNat]

/-- A positive integer below `2 ^ 52` is the double of its value. -/
theorem ofNat_wholePart {x : Binary64} (hintegral : x.isIntegral = true)
    (hsign : x.isNegative = false) (hpos : 0 < x.wholePart)
    (hlt : x.wholePart < 0x10000000000000) : ofNat x.wholePart = x := by
  have hword : x.bits.toNat < signBit := by
    simpa [isNegative] using hsign
  have hbits : x.bits.toNat = x.biased * exponentUnit + x.fraction := by
    simp only [biased, fraction, exponentUnit, signBit] at *
    omega
  have hfraction : x.fraction < exponentUnit := Nat.mod_lt _ (by decide)
  by_cases hb : x.biased = 0
  · exfalso
    have hexponent : x.exponent = -1074 := by simp only [exponent, if_pos hb]
    have hwhole : x.wholePart = x.fraction / Nat.pow 2 (-x.exponent).toNat := by
      simp only [wholePart, mantissa, if_pos hb]
      rw [if_neg (by omega)]
    rw [hwhole, div_two_pow_eq_zero (by omega) hfraction] at hpos
    exact Nat.lt_irrefl 0 hpos
  · have hmantissa : x.mantissa = x.fraction + exponentUnit := by simp only [mantissa, if_neg hb]
    have hexponent : x.exponent = (x.biased : Int) - 1075 := by simp only [exponent, if_neg hb]
    by_cases hlarge : 0 ≤ x.exponent
    · exfalso
      simp only [wholePart, if_pos hlarge] at hlt
      have : x.mantissa * 1 ≤ x.mantissa * Nat.pow 2 x.exponent.toNat :=
        Nat.mul_le_mul_left _ (Nat.pow_pos (by decide))
      simp only [exponentUnit] at hmantissa
      omega
    · have hshift : (-x.exponent).toNat = 1075 - x.biased := by omega
      have hmod : x.mantissa % Nat.pow 2 (1075 - x.biased) = 0 := by
        simp only [isIntegral, decide_eq_false hlarge, Bool.false_or, Bool.and_eq_true,
          beq_iff_eq, hshift] at hintegral
        exact hintegral.2
      have hwhole : x.wholePart = x.mantissa / Nat.pow 2 (1075 - x.biased) := by
        simp only [wholePart, if_neg hlarge, hshift]
      have hproduct : x.mantissa = x.wholePart * Nat.pow 2 (1075 - x.biased) := by
        rw [hwhole]
        exact (Nat.div_mul_cancel (Nat.dvd_of_mod_eq_zero hmod)).symm
      have hshiftlt : 1075 - x.biased ≤ 52 := by
        by_cases h : 1075 - x.biased ≤ 52
        · exact h
        · have hpow : Nat.pow 2 53 ≤ Nat.pow 2 (1075 - x.biased) :=
            two_pow_le (by omega)
          have hle : Nat.pow 2 (1075 - x.biased) ≤ x.mantissa := by
            rw [hproduct]
            exact Nat.le_mul_of_pos_left _ hpos
          rw [two_pow_53] at hpow
          simp only [exponentUnit] at hmantissa hfraction
          omega
      have hlog : x.wholePart.log2 = 52 - (1075 - x.biased) := by
        simp only [exponentUnit] at hmantissa hfraction
        exact log2_of_shifted hshiftlt (by omega) (by omega)
      have hself : (ofNat x.wholePart).bits.toNat = x.bits.toNat := by
        rw [bits_ofNat hpos hlt, hlog, hbits,
          show 52 - (52 - (1075 - x.biased)) = 1075 - x.biased by omega, ← hproduct, hmantissa]
        simp only [exponentUnit]
        omega
      rcases x with ⟨bits⟩
      have : (ofNat (wholePart ⟨bits⟩)).bits = bits := UInt64.toNat_inj.mp hself
      generalize ofNat (wholePart ⟨bits⟩) = y at *
      rcases y with ⟨_⟩
      exact congrArg Binary64.mk this

end Binary64

/-- Strings and numbers have indices that a word can hold beside its tag. -/
structure Constants.Encodable (c : Constants) : Prop where
  strings : c.strings.size ≤ 0x20000000
  floats : c.floats.size ≤ 0x20000000

theorem Constants.Fits.encodable {c : Constants} (h : c.Fits) : c.Encodable :=
  ⟨Nat.le_of_lt h.strings, Nat.le_of_lt h.floats⟩

namespace Primitive

theorem Kind.tag_lt (kind : Kind) : kind.tag < 8 := by
  cases kind <;> decide

/-- A word bears the tag of its kind, and no more of its payload than there was. -/
theorem tag_word (kind : Kind) (payload : UInt32) :
    (word kind payload).toNat % 8 = kind.tag ∧ (word kind payload).toNat / 8 ≤ payload.toNat := by
  have htag := kind.tag_lt
  rw [word, UInt32.toNat_ofNat']
  omega

theorem word_toNat (kind : Kind) {payload : UInt32} (h : payload.toNat < 0x20000000) :
    (word kind payload).toNat / 8 = payload.toNat ∧ (word kind payload).toNat % 8 = kind.tag := by
  have htag := kind.tag_lt
  have : (word kind payload).toNat = payload.toNat * 8 + kind.tag := by
    simp only [word, UInt32.toNat_ofNat']
    exact Nat.mod_eq_of_lt (by omega)
  omega

theorem index_lt {α : Type} {p : Pool α} {index : UInt32} {v : α} (h : p.get? index = some v)
    (hp : p.size ≤ 0x20000000) : index.toNat < 0x20000000 :=
  Nat.lt_of_lt_of_le (Array.getElem?_eq_some_iff.mp h).1 hp

/-- The constants that encoding adds. -/
def constants : Primitive → List Constant
  | .number x => if (immediate? x).isSome then [] else [.float x]
  | .string s => [.string s]
  | .boolean _ | .null | .undefined => []

/-- A number is in the word itself or in the pool of floats. -/
theorem encode_number (x : Binary64) (c : Constants) : (number x).encode c =
    match immediate? x with
    | some n => (word .number (UInt32.ofNat n), c)
    | none => (word .float (c.float x).1, (c.float x).2) := rfl

theorem encode_immediate {x : Binary64} {n : Nat} (h : immediate? x = some n) (c : Constants) :
    (number x).encode c = (word .number (UInt32.ofNat n), c) := by
  rw [encode_number, h]

theorem encode_float {x : Binary64} (h : immediate? x = none) (c : Constants) :
    (number x).encode c = (word .float (c.float x).1, (c.float x).2) := by
  rw [encode_number, h]

theorem snd_encode (p : Primitive) (c : Constants) : (p.encode c).2 = c.internAll p.constants := by
  cases p with
  | number x =>
    show _ = c.internAll (if (immediate? x).isSome then [] else [.float x])
    rw [encode_number]
    cases immediate? x <;> rfl
  | boolean b => cases b <;> rfl
  | _ => rfl

theorem extends_encode (p : Primitive) (c : Constants) : c.Extends (p.encode c).2 := by
  rw [snd_encode]
  exact c.extends_internAll p.constants

theorem immediate?_eq_some {x : Binary64} {n : Nat} (h : immediate? x = some n) :
    0 < n ∧ n < 0x20000000 ∧ Binary64.ofNat n = x := by
  unfold immediate? at h
  split at h
  · rename_i hx
    simp only [Bool.and_eq_true, Bool.not_eq_true', decide_eq_true_eq] at hx
    obtain ⟨⟨⟨hintegral, hsign⟩, hpos⟩, hlt⟩ := hx
    obtain rfl := Option.some.inj h
    exact ⟨hpos, hlt, Binary64.ofNat_wholePart hintegral hsign hpos (by omega)⟩
  · cases h

/-- A word encodes the value it was made for, as long as the pools fit. -/
theorem decode?_encode {p : Primitive} {c d : Constants} (h : (p.encode c).2.Extends d)
    (hc : (p.encode c).2.Encodable) : decode? (p.encode c).1 d = some p := by
  cases p with
  | number x =>
    cases himm : immediate? x with
    | some n =>
      obtain ⟨hpos, hlt, hx⟩ := immediate?_eq_some himm
      have hn : (UInt32.ofNat n).toNat = n := by
        simp only [UInt32.toNat_ofNat']
        exact Nat.mod_eq_of_lt (by omega)
      obtain ⟨hdiv, hmod⟩ := word_toNat .number (show (UInt32.ofNat n).toNat < _ by omega)
      simp only [encode_immediate himm, decode?, hdiv, hmod, hn, Kind.tag, hx]
    | none =>
      rw [encode_float himm] at h hc ⊢
      have hget : (c.float x).2.floats.get? (c.float x).1 = some x :=
        IndexedPool.get?_intern_eq (Nat.le_trans hc.floats (by decide))
      obtain ⟨hdiv, hmod⟩ := word_toNat .float (index_lt hget hc.floats)
      simp only [decode?, hdiv, hmod, Kind.tag, UInt32.ofNat_toNat, h.floats.get? hget,
        Option.map_some]
  | string s =>
    have hget : (c.string s).2.strings.get? (c.string s).1 = some s :=
      IndexedPool.get?_intern_eq (Nat.le_trans hc.strings (by decide))
    obtain ⟨hdiv, hmod⟩ := word_toNat .string (index_lt hget hc.strings)
    simp only [encode, decode?, hdiv, hmod, Kind.tag, UInt32.ofNat_toNat, h.strings.get? hget,
      Option.map_some]
  | boolean b => cases b <;> simp [encode, decode?, word, Kind.tag]
  | null => simp [encode, decode?, word, Kind.tag]
  | undefined => simp [encode, decode?, word, Kind.tag]

theorem decode?_mono {c d : Constants} (h : c.Extends d) {w : UInt32} {p : Primitive}
    (hw : decode? w c = some p) : decode? w d = some p := by
  unfold decode? at *
  simp only at *
  split at hw
  · exact hw
  · obtain ⟨x, hx, rfl⟩ := Option.map_eq_some_iff.mp hw
    rw [h.floats.get? hx]
    rfl
  · obtain ⟨s, hs, rfl⟩ := Option.map_eq_some_iff.mp hw
    rw [h.strings.get? hs]
    rfl
  · exact hw
  · exact hw

/-- A pool that fits before a value is encoded has an index for it. -/
theorem encodable_encode (p : Primitive) {c : Constants} (hstrings : c.strings.Fits)
    (hfloats : c.floats.Fits) : (p.encode c).2.Encodable := by
  have hsame : c.Encodable := ⟨Nat.le_of_lt hstrings, Nat.le_of_lt hfloats⟩
  cases p with
  | number x =>
    cases himm : immediate? x with
    | some n =>
      rw [encode_immediate himm]
      exact hsame
    | none =>
      rw [encode_float himm]
      exact ⟨hsame.strings, Nat.le_trans (c.floats.size_intern_le x) hfloats⟩
  | string s => exact ⟨Nat.le_trans (c.strings.size_intern_le s) hstrings, hsame.floats⟩
  | boolean b => cases b <;> exact hsame
  | null => exact hsame
  | undefined => exact hsame

/-- The low bits of a word tell the kind of the value. -/
theorem tag_encode (p : Primitive) (c : Constants) : (p.encode c).1.toNat % 8 = p.kind.tag := by
  cases p with
  | number x =>
    show _ = Kind.tag (if (immediate? x).isSome then .number else .float)
    cases himm : immediate? x with
    | some n =>
      rw [encode_immediate himm]
      exact (tag_word _ _).1
    | none =>
      rw [encode_float himm]
      exact (tag_word _ _).1
  | string s => exact (tag_word _ _).1
  | boolean b => cases b <;> exact (tag_word _ _).1
  | null => exact (tag_word _ _).1
  | undefined => exact (tag_word _ _).1

/-- A value that is encoded again has the same word, whatever was added meanwhile. -/
theorem encode_again (p : Primitive) {c d : Constants} (h : (p.encode c).2.Extends d)
    (hc : (p.encode c).2.Encodable) (hd : d.Interned) : (p.encode d).1 = (p.encode c).1 := by
  have hnumbered {α : Type} {pool : Pool α} (hsize : pool.size ≤ 0x20000000) : pool.Numbered :=
    Nat.le_trans hsize (by decide)
  cases p with
  | number x =>
    cases himm : immediate? x with
    | some n => rw [encode_immediate himm, encode_immediate himm]
    | none =>
      rw [encode_float himm] at h hc
      rw [encode_float himm, encode_float himm]
      exact congrArg (word .float)
        (IndexedPool.intern_again h.floats (hnumbered hc.floats) hd.floats)
  | string s =>
    exact congrArg (word .string)
      (IndexedPool.intern_again h.strings (hnumbered hc.strings) hd.strings)
  | boolean b => cases b <;> rfl
  | null => rfl
  | undefined => rfl

/-- Words are faithful.  Let calls for any constants leave fewer strings and fewer numbers than
words can tell apart, and encode a value.  Its word bears the tag of its kind; it is decoded to that
very value, a number by all of its bits, however many constants are added later; and what is encoded
later has the same word exactly if it is the same value. -/
theorem encodes_faithfully (calls : List Constant) (p : Primitive)
    (hstrings : (Constants.initial.internAll calls).strings.Fits)
    (hfloats : (Constants.initial.internAll calls).floats.Fits) :
    let c := Constants.initial.internAll calls
    let w := (p.encode c).1
    w.toNat % 8 = p.kind.tag ∧
      ∀ more : List Constant,
        let d := (p.encode c).2.internAll more
        decode? w d = some p ∧
          (d.strings.Fits → d.floats.Fits → ∀ q : Primitive, (q.encode d).1 = w ↔ q = p) := by
  intro c w
  have hc : (p.encode c).2.Encodable := p.encodable_encode hstrings hfloats
  refine ⟨p.tag_encode c, fun more => ?_⟩
  intro d
  have hgrows : (p.encode c).2.Extends d := Constants.extends_internAll _ more
  have hdecode : decode? w d = some p := decode?_encode hgrows hc
  refine ⟨hdecode, fun hstrings' hfloats' q => ⟨fun hword => ?_, ?_⟩⟩
  · -- both values are decoded from the one word in the pools that the second leaves
    have hfirst := decode?_mono (q.extends_encode d) hdecode
    have hsecond := decode?_encode (.refl _) (q.encodable_encode hstrings' hfloats')
    rw [hword, hfirst] at hsecond
    exact (Option.some.inj hsecond).symm
  · rintro rfl
    have hmade : d.Interned := by
      show ((q.encode c).2.internAll more).Interned
      rw [snd_encode, ← Constants.internAll_append, ← Constants.internAll_append]
      exact (Constants.made_internAll _).interned
    exact q.encode_again hgrows hc hmade

/-- Calls that leave the positive zero among the constants. -/
def zeroCalls : List Constant := [.string "a", .float (.zero false), .stringArray ["b", "a"]]

/-- The word of the negative zero is that of the second number, and of no other value ever. -/
theorem negative_zero_encodes_faithfully :
    let c := Constants.initial.internAll zeroCalls
    let p := Primitive.number (.zero true)
    (c.strings.Fits ∧ c.floats.Fits) ∧ (p.encode c).1 = 9 ∧ (p.encode c).1.toNat % 8 = p.kind.tag ∧
      ∀ more : List Constant,
        let d := (p.encode c).2.internAll more
        decode? (p.encode c).1 d = some p ∧
          (d.strings.Fits → d.floats.Fits →
            ∀ q : Primitive, (q.encode d).1 = (p.encode c).1 ↔ q = p) := by
  have hcomputed : ((Constants.initial.internAll zeroCalls).strings.Fits ∧
      (Constants.initial.internAll zeroCalls).floats.Fits) ∧
      ((number (.zero true)).encode (Constants.initial.internAll zeroCalls)).1 = 9 := by
    decide +kernel
  obtain ⟨⟨hstrings, hfloats⟩, hnine⟩ := hcomputed
  exact ⟨⟨hstrings, hfloats⟩, hnine,
    encodes_faithfully zeroCalls (.number (.zero true)) hstrings hfloats⟩

end Primitive

end TemplateMachine
