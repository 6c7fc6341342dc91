import TypedValues.HostData.Number
import TypedValues.Proofs.Binary64.Text
import TypedValues.Proofs.HostData.Tagged

/-!
# Numerals of doubles in JSON

A double is written in JSON as a numeral that JSON allows and that is never one of an integer
(`Binary64.toJsonInt?_numeral`). What the numeral is worth to a reader is found in two steps, each
of which rounds, so that it may be a neighbour of the double. It is the double itself if the first
step has nothing to round and the second rounds once: if the digits written make a number of at most
53 bits and no more than the twenty-second power of ten is called for
(`Binary64.reread?_of_writtenShort`).
-/

namespace TypedValues

/-! ## Numerals of doubles -/

namespace Decimal

theorem fractionPart_ne_some_nil (pointZero : Bool) (digits : List Char) :
    fractionPart pointZero digits ≠ some [] := by
  unfold fractionPart
  split
  · next h => simpa using h
  · cases pointZero <;> simp

/-- The digits before the point start with a zero only if that is all of them, as long as the power
of ten of zero adds no more. -/
theorem eq_nil_of_whole_numeral {layout : Layout} {sign : Option Sign} {d : Decimal}
    {rest : List Char} (hzero : d.digits = 0 → d.exponent ≤ 0)
    (h : (d.numeral layout sign).whole = '0' :: rest) : rest = [] := by
  obtain ⟨c, digits, hdigits⟩ :=
    List.exists_cons_of_ne_nil (Nat.toDigits_ne_nil : Nat.toDigits 10 d.digits ≠ [])
  unfold numeral at h
  rw [hdigits] at h
  dsimp only at h
  split at h
  · simp only [positional] at h
    split at h
    · exact (List.cons.inj h).2.symm
    · generalize hpoint : (((c :: digits).length : Int) + d.exponent).toNat = point at h
      cases point with
      | zero => simp at h
      | succ point =>
        obtain ⟨hc, hrest⟩ := List.cons.inj h
        -- the number is zero, of which there is one digit
        subst hc
        obtain rfl : digits = [] := Numeral.eq_nil_of_toDigits hdigits
        have hexponent := hzero (Numeral.eq_zero_of_toDigits hdigits)
        have hone : point = 0 := by
          simp only [List.length_singleton] at hpoint
          omega
        simpa [hone] using hrest.symm
  · exact (List.cons.inj h).2.symm

theorem allowsNumeral_numeral {layout : Layout} {sign : Option Sign} {d : Decimal}
    (hzero : d.digits = 0 → d.exponent ≤ 0) (hsign : sign ≠ some .plus) :
    Json.allowsNumeral (d.numeral layout sign) = true := by
  have hfraction : (d.numeral layout sign).fraction ≠ some [] := by
    unfold numeral
    dsimp only
    split <;> exact fractionPart_ne_some_nil _ _
  rw [Json.allowsNumeral, sign_numeral]
  simp only [Bool.and_eq_true, bne_iff_ne]
  refine ⟨⟨hsign, hfraction⟩, ?_⟩
  split
  · next h => exact absurd h (legal_numeral layout sign d).2
  · next rest h => rw [eq_nil_of_whole_numeral hzero h, List.isEmpty_nil]
  · rfl

/-- A layout that keeps a fraction never writes an integer. -/
theorem toInt?_numeral {layout : Layout} (hlayout : layout.pointZero = true) (sign : Option Sign)
    (d : Decimal) : (d.numeral layout sign).toInt? = none := by
  have hfraction (digits : List Char) : fractionPart layout.pointZero digits ≠ none := by
    rw [fractionPart, hlayout]
    split <;> simp
  unfold numeral Numeral.toInt?
  dsimp only
  split
  · rw [if_neg]
    rintro ⟨-, hnone, -⟩
    exact hfraction _ hnone
  · rw [if_neg]
    rintro ⟨-, -, hnone⟩
    contradiction

/-- Zero is written without a power of ten. -/
theorem exponent_shortest (tie : Tie) (x : Magnitude) (h : (shortest tie x).digits = 0) :
    (shortest tie x).exponent = 0 := by
  have hx := toMagnitude_shortest tie x
  rw [toMagnitude, Magnitude.ofDecimal, if_pos h] at hx
  subst hx
  rfl

end Decimal

namespace Binary64

theorem legal_numeral (negative : Bool) (x : Magnitude) :
    (numeral .json negative x).Legal ∧ Json.allowsNumeral (numeral .json negative x) = true := by
  refine ⟨(Decimal.legal_numeral _ _ _).1, ?_⟩
  apply Decimal.allowsNumeral_numeral
  · intro h
    exact Int.le_of_eq (Decimal.exponent_shortest _ _ h)
  · cases negative <;> decide

theorem toJsonInt?_numeral (negative : Bool) (x : Magnitude) :
    (numeral .json negative x).toJsonInt? = none := by
  rw [Numeral.toJsonInt?, Numeral.toInt64?, numeral, Decimal.toInt?_numeral rfl]
  rfl

/-- What the numeral of a double in JSON is worth to who reads it. -/
def reread? : Binary64 → Option Binary64
  | nan _ _ => none
  | number negative x => ofJsonNumeral? (numeral .json negative x)

end Binary64

/-! ## Exact steps -/

namespace Magnitude

/-- The magnitude is a whole number. -/
def IsNat (x : Magnitude) (n : Nat) : Prop := x.ratio.1 = n * x.ratio.2

variable {x y : Magnitude} {m n : Nat}

/-- A whole number of at most 53 bits is a double. -/
theorem exists_isNat (h : n < 2 * binade) : ∃ x : Magnitude, x.IsNat n := by
  by_cases hn : n = 0
  · have hzero : zero.ratio.1 = 0 * zero.ratio.2 := by decide
    exact ⟨zero, hn ▸ hzero⟩
  · -- the significand is the number with zeros filled up to 53 bits
    obtain ⟨k, hk⟩ : ∃ k, n.log2 + k = 52 := ⟨52 - n.log2, by
      have : n.log2 < 53 := (Nat.log2_lt hn).mpr h
      omega⟩
    have hlow : binade ≤ n * 2 ^ k := by
      calc binade = 2 ^ n.log2 * 2 ^ k := by rw [← Nat.pow_add, hk]; rfl
        _ ≤ n * 2 ^ k := Nat.mul_le_mul_right _ (Nat.log2_self_le hn)
    have hhigh : n * 2 ^ k < 2 * binade := by
      calc n * 2 ^ k < 2 ^ (n.log2 + 1) * 2 ^ k :=
            Nat.mul_lt_mul_of_pos_right Nat.lt_log2_self (Nat.two_pow_pos k)
        _ = 2 * binade := by rw [← Nat.pow_add, Nat.add_right_comm, hk]; rfl
    generalize hs : n * 2 ^ k = s at hlow hhigh
    let x : Magnitude := ⟨(n.log2 + 1022) * binade + s, by
      unfold infinityRank binade at *
      omega⟩
    have hrank : x.rank = (n.log2 + 1022) * binade + s := rfl
    have hsignificand : x.significand = s := by
      rw [significand, hrank]
      unfold binade at *
      split <;> omega
    have hexponent : x.binaryExponent = -(k : Int) := by
      rw [binaryExponent, hrank]
      unfold binade at *
      split <;> omega
    refine ⟨x, ?_⟩
    rw [IsNat, ratio, hsignificand, hexponent, Int.neg_neg, scaleDown_of_nonneg _ _ (by omega),
      ← hs, Int.toNat_natCast, Nat.shiftLeft_eq, Nat.one_mul]

theorem isNat_ofNat (h : n < 2 * binade) : (ofNat n).IsNat n := by
  obtain ⟨x, hx⟩ := exists_isNat h
  have hratio : ofNat n = x := by
    rw [ofNat, ← ofRatio_mul_right Nat.one_ne_zero x.ratio_snd_pos, Nat.one_mul, ← hx,
      ofRatio_ratio]
  rwa [hratio]

theorem isNat_powerOfTen : ∀ k < 23, (powerOfTen k).IsNat (Nat.pow 10 k) := by
  unfold IsNat
  decide +kernel

/-- A product of whole numbers is rounded once. -/
theorem mul_of_isNat (hx : x.IsNat m) (hy : y.IsNat n) : x.mul y = ofRatio (m * n) 1 := by
  have hpos : 0 < x.ratio.2 * y.ratio.2 := Nat.mul_pos x.ratio_snd_pos y.ratio_snd_pos
  rw [mul, hx, hy, Nat.mul_mul_mul_comm, ← ofRatio_mul_right Nat.one_ne_zero hpos, Nat.one_mul]

/-- A quotient of whole numbers is rounded once. -/
theorem div_of_isNat (hx : x.IsNat m) (hy : y.IsNat n) (hn : n ≠ 0) : x.div y = ofRatio m n := by
  have hpos : 0 < x.ratio.2 * y.ratio.2 := Nat.mul_pos x.ratio_snd_pos y.ratio_snd_pos
  calc x.div y = ofRatio (m * x.ratio.2 * y.ratio.2) (x.ratio.2 * (n * y.ratio.2)) := by
        rw [div, hx, hy]
    _ = ofRatio (m * (x.ratio.2 * y.ratio.2)) (n * (x.ratio.2 * y.ratio.2)) := by
        rw [Nat.mul_assoc, Nat.mul_left_comm x.ratio.2 n]
    _ = ofRatio m n := ofRatio_mul_right hn hpos

/-- A whole number is scaled by a power of ten with one rounding, as long as the power of ten is a
double. -/
theorem scaleByTen_of_isNat (hx : x.IsNat n) {e : Int} (he : e.natAbs ≤ 22) :
    x.scaleByTen e = ofDecimal n e := by
  have hpower : (powerOfTen e.natAbs).IsNat (Nat.pow 10 e.natAbs) :=
    isNat_powerOfTen _ (by omega)
  have hle : e.natAbs ≤ maxPowerOfTen := Nat.le_trans he (by decide)
  rw [scaleByTen]
  by_cases hrank : x.rank = 0
  · obtain rfl : x = zero := Magnitude.ext hrank
    have hn : n = 0 := by
      have hzero : zero.ratio.1 = 0 := by decide
      rw [IsNat, hzero] at hx
      exact (Nat.mul_eq_zero.mp hx.symm).resolve_right (Nat.ne_of_gt zero.ratio_snd_pos)
    rw [if_pos hrank, ofDecimal, if_pos hn]
  · have hn : n ≠ 0 := by
      rintro rfl
      exact ratio_fst_ne_zero hrank (hx.trans (Nat.zero_mul _))
    have hcut : ¬400 < e := by omega
    have hvanished : ¬e < -(400 + (n.log2 : Int)) := by omega
    rw [ofDecimal, if_neg hn, if_neg hcut, if_neg hvanished, if_neg hrank, if_pos hle, if_pos hle]
    split
    · next hnonneg =>
      have habs : e.natAbs = e.toNat := by omega
      rw [mul_of_isNat hx hpower, habs]
    · next hneg =>
      have habs : e.natAbs = (-e).toNat := by omega
      rw [div_of_isNat hx hpower (Nat.ne_of_gt (Nat.pow_pos (by decide))), habs]

end Magnitude

/-! ## Gathering digits -/

namespace Significand

variable {digits : List Char} {value : Nat}

theorem le_ofDigitChars : value ≤ Nat.ofDigitChars 10 digits value := by
  rw [Nat.ofDigitChars_eq_ofDigitChars_zero]
  have := Nat.le_mul_of_pos_left value (Nat.pow_pos (n := digits.length) (by decide : 0 < 10))
  omega

/-- Digits whose number fits into 64 bits are all taken. -/
theorem foldl_push (h : Nat.ofDigitChars 10 digits value < UInt64.size) (taken : Nat) :
    digits.foldl push ⟨value, false, taken, 0⟩ =
      ⟨Nat.ofDigitChars 10 digits value, false, taken + digits.length, 0⟩ := by
  induction digits generalizing value taken with
  | nil => rfl
  | cons c rest ih =>
    rw [Nat.ofDigitChars_cons] at h ⊢
    have hnext : value * 10 + digitValue c = 10 * value + (c.toNat - '0'.toNat) := by
      rw [Nat.mul_comm, digitValue]
    have hfits : 10 * value + (c.toNat - '0'.toNat) < UInt64.size :=
      Nat.lt_of_le_of_lt le_ofDigitChars h
    have hpush : push ⟨value, false, taken, 0⟩ c =
        ⟨10 * value + (c.toNat - '0'.toNat), false, taken + 1, 0⟩ := by
      rw [push, hnext, decide_eq_false (Nat.not_le.mpr hfits)]
      rfl
    rw [List.foldl_cons, hpush, ih h, List.length_cons, Nat.add_right_comm, Nat.add_assoc]

theorem gather_eq (h : Nat.ofDigitChars 10 digits value < UInt64.size) :
    gather value digits = ⟨Nat.ofDigitChars 10 digits value, false, digits.length, 0⟩ := by
  rw [gather, foldl_push h, Nat.zero_add]

end Significand

/-- Digits that make a number of at most 53 bits, and a small scale, leave a small power of ten to
be written. -/
theorem Decimal.exponent_le {layout : Layout} {sign : Option Sign} {d : Decimal}
    (hdigits : (d.numeral layout sign).digits < 2 * binade)
    (hscale : (d.numeral layout sign).scale.natAbs ≤ 22) :
    ((d.numeral layout sign).exponent.getD 0).natAbs ≤ exponentBound := by
  obtain hnone | ⟨e, hscientific⟩ : (d.numeral layout sign).exponent = none ∨
      ∃ e, d.numeral layout sign = scientific sign (Nat.toDigits 10 d.digits) e := by
    unfold numeral
    dsimp only
    split
    · exact .inl rfl
    · exact .inr ⟨_, rfl⟩
  · rw [hnone]
    exact Nat.zero_le _
  · obtain ⟨hvalue, hlength⟩ := digits_scientific sign Nat.toDigits_ne_nil e
    rw [hscientific, hvalue, Nat.ofDigitChars_ten_toDigits] at hdigits
    rw [hscientific, hlength] at hscale
    have hshort : (Nat.toDigits 10 d.digits).length ≤ 16 :=
      (Nat.length_toDigits_le_iff (by decide) (by decide)).mpr (Nat.lt_trans hdigits (by decide))
    rw [hscientific]
    show e.natAbs ≤ 0x7fffffff
    omega

namespace Binary64

/-- A numeral of few digits and no great power of ten is worth the double nearest to it. -/
theorem ofJsonNumeral?_eq {n : Numeral} (hdigits : n.digits < 2 * binade)
    (hscale : n.scale.natAbs ≤ 22) (hexponent : (n.exponent.getD 0).natAbs ≤ exponentBound)
    (hfinite : (ofNumeral n).isFinite = true) : ofJsonNumeral? n = some (ofNumeral n) := by
  have hall : Nat.ofDigitChars 10 n.decimals (Nat.ofDigitChars 10 n.whole 0) = n.digits := by
    rw [Numeral.digits, Nat.ofDigitChars_append]
  have hsize : n.digits < UInt64.size := Nat.lt_trans hdigits (by decide)
  have hwhole : Nat.ofDigitChars 10 n.whole 0 < UInt64.size := by
    have hle : Nat.ofDigitChars 10 n.whole 0 ≤ Nat.ofDigitChars 10 n.decimals _ :=
      Significand.le_ofDigitChars
    rw [hall] at hle
    exact Nat.lt_of_le_of_lt hle hsize
  have hscaled : ((0 : Nat) : Int) - n.decimals.length + n.exponent.getD 0 = n.scale := by
    rw [Numeral.scale]
    omega
  rw [ofNumeral] at hfinite ⊢
  rw [ofJsonNumeral?, Significand.gather_eq hwhole]
  dsimp only
  rw [Significand.gather_eq (by rwa [hall]), hall]
  dsimp only
  rw [if_neg (Nat.not_lt.mpr hexponent), hscaled,
    Magnitude.scaleByTen_of_isNat (Magnitude.isNat_ofNat hdigits) hscale]
  exact if_pos hfinite

/-- The digits that are written for the double make a number of at most 53 bits, and no power of ten
beyond the twenty-second is called for. -/
def WrittenShort : Binary64 → Prop
  | nan _ _ => False
  | number negative x =>
    x.isFinite = true ∧ (numeral .json negative x).digits < 2 * binade ∧
      (numeral .json negative x).scale.natAbs ≤ 22

/-- A double that is written short is what its numeral is worth. -/
theorem reread?_of_writtenShort {x : Binary64} (h : x.WrittenShort) :
    x.isFinite = true ∧ x.reread? = some x := by
  cases x with
  | nan _ _ => exact h.elim
  | number negative x =>
    obtain ⟨hfinite, hdigits, hscale⟩ := h
    have hworth := ofNumeral_numeral .json negative hfinite
    refine ⟨hfinite, ?_⟩
    rw [reread?, ofJsonNumeral?_eq hdigits hscale (Decimal.exponent_le hdigits hscale), hworth]
    rwa [hworth]

/-- One with seventeen digits may be worth a neighbour. -/
example : (ofBits 0x3ff0000000000003).reread? = some (ofBits 0x3ff0000000000004) := by
  decide +kernel

end Binary64

end TypedValues
