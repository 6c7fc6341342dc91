import TypedValues.Binary64.Shortest

/-!
# Laws of rounding

Rounding depends on the value of a ratio and not on how it is written
(`Magnitude.ofRatio_mul_right`), a double rounds to itself (`Magnitude.ofRatio_ratio`), and the
shortest decimal of a double reads back as it (`Decimal.toMagnitude_shortest`). All three hang
on what `floorLog2` is: the one exponent for which the scaled ratio is at least one and less
than two.
-/

namespace TypedValues

/-! ## Scaling by powers of two -/

theorem scaleDown_of_nonneg (num den : Nat) {e : Int} (h : 0 ≤ e) :
    scaleDown num den e = (num, den <<< e.toNat) := if_pos h

theorem scaleDown_of_neg (num den : Nat) {e : Int} (h : ¬0 ≤ e) :
    scaleDown num den e = (num <<< (-e).toNat, den) := if_neg h

theorem scaleDown_snd_pos (num : Nat) {den : Nat} (hden : 0 < den) (e : Int) :
    0 < (scaleDown num den e).2 := by
  by_cases h : 0 ≤ e
  · rw [scaleDown_of_nonneg num den h, Nat.shiftLeft_eq]
    exact Nat.mul_pos hden (Nat.two_pow_pos _)
  · rw [scaleDown_of_neg num den h]
    exact hden

/-- A factor common to both sides of a ratio stays common to both. -/
theorem scaleDown_mul_right (num den k : Nat) (e : Int) :
    scaleDown (num * k) (den * k) e =
      ((scaleDown num den e).1 * k, (scaleDown num den e).2 * k) := by
  by_cases h : 0 ≤ e
  · simp only [scaleDown_of_nonneg _ _ h, Nat.shiftLeft_eq, Nat.mul_right_comm]
  · simp only [scaleDown_of_neg _ _ h, Nat.shiftLeft_eq, Nat.mul_right_comm]

/-- Scaling by `k` more powers of two divides the scaled ratio by `2 ^ k`. -/
theorem scaleDown_add (num den : Nat) (e : Int) (k : Nat) :
    (scaleDown num den (e + k)).1 * ((scaleDown num den e).2 <<< k) =
      (scaleDown num den e).1 * (scaleDown num den (e + k)).2 := by
  by_cases h : 0 ≤ e
  · have hk : (e + k).toNat = e.toNat + k := by omega
    rw [scaleDown_of_nonneg _ _ h, scaleDown_of_nonneg _ _ (by omega : 0 ≤ e + k), hk]
    simp only [Nat.shiftLeft_eq, Nat.pow_add, Nat.mul_assoc]
  · rw [scaleDown_of_neg _ _ h]
    by_cases h' : 0 ≤ e + k
    · have hk : k = (-e).toNat + (e + k).toNat := by omega
      rw [scaleDown_of_nonneg _ _ h']
      simp only [Nat.shiftLeft_eq]
      calc num * (den * 2 ^ k) = num * (den * 2 ^ ((-e).toNat + (e + k).toNat)) := by rw [← hk]
        _ = num * 2 ^ (-e).toNat * (den * 2 ^ (e + k).toNat) := by
          rw [Nat.pow_add]; simp only [Nat.mul_assoc, Nat.mul_left_comm den]
    · have hk : (-e).toNat = (-(e + k)).toNat + k := by omega
      rw [scaleDown_of_neg _ _ h', hk]
      simp only [Nat.shiftLeft_eq, Nat.pow_add, Nat.mul_assoc, Nat.mul_comm den]

/-! ## The binary logarithm of a ratio -/

/-- The scaled ratio is at least one and less than two. -/
def IsFloorLog2 (num den : Nat) (e : Int) : Prop :=
  (scaleDown num den e).2 ≤ (scaleDown num den e).1 ∧
    (scaleDown num den e).1 < 2 * (scaleDown num den e).2

/-- No smaller exponent scales to less than two once a greater one scales to at least one. -/
theorem le_of_scaleDown {num den : Nat} (hden : 0 < den) {e f : Int}
    (he : (scaleDown num den e).1 < 2 * (scaleDown num den e).2)
    (hf : (scaleDown num den f).2 ≤ (scaleDown num den f).1) : f ≤ e := by
  refine Int.not_lt.mp fun h => ?_
  obtain ⟨k, hk⟩ : ∃ k : Nat, f = e + (k + 1 : Nat) := ⟨(f - e).toNat - 1, by omega⟩
  have hadd := scaleDown_add num den e (k + 1)
  rw [← hk, Nat.shiftLeft_eq] at hadd
  have hd := scaleDown_snd_pos num hden f
  have h₁ : (scaleDown num den f).2 * ((scaleDown num den e).2 * 2 ^ (k + 1)) ≤
      (scaleDown num den f).2 * (scaleDown num den e).1 := by
    rw [Nat.mul_comm _ (scaleDown num den e).1, ← hadd]
    exact Nat.mul_le_mul_right _ hf
  have h₂ := Nat.le_of_mul_le_mul_left h₁ hd
  have h₃ : (scaleDown num den e).2 * 2 ≤ (scaleDown num den e).2 * 2 ^ (k + 1) :=
    Nat.mul_le_mul_left _ (Nat.le_self_pow (Nat.succ_ne_zero k) 2)
  omega

theorem IsFloorLog2.unique {num den : Nat} (hden : 0 < den) {e f : Int}
    (he : IsFloorLog2 num den e) (hf : IsFloorLog2 num den f) : e = f :=
  Int.le_antisymm (le_of_scaleDown hden hf.2 he.1) (le_of_scaleDown hden he.2 hf.1)

/-- The guess by the two logarithms scales to more than a half and less than two. -/
theorem guess_bounds {num den : Nat} (hnum : num ≠ 0) (hden : den ≠ 0) :
    (scaleDown num den (num.log2 - den.log2)).1 <
        2 * (scaleDown num den (num.log2 - den.log2)).2 ∧
      (scaleDown num den (num.log2 - den.log2)).2 <
        2 * (scaleDown num den (num.log2 - den.log2)).1 := by
  have hn := Nat.log2_self_le hnum
  have hn' := Nat.lt_log2_self (n := num)
  have hd := Nat.log2_self_le hden
  have hd' := Nat.lt_log2_self (n := den)
  rw [Nat.pow_succ] at hn' hd'
  by_cases h : (0 : Int) ≤ (num.log2 : Int) - den.log2
  · rw [scaleDown_of_nonneg _ _ h, Nat.shiftLeft_eq]
    have hk : num.log2 = den.log2 + ((num.log2 : Int) - den.log2).toNat := by omega
    generalize ((num.log2 : Int) - den.log2).toNat = k at hk
    rw [hk, Nat.pow_add] at hn hn'
    have h₁ := Nat.mul_le_mul_right (2 ^ k) hd
    have h₂ := (Nat.mul_lt_mul_right (Nat.two_pow_pos k)).mpr hd'
    rw [Nat.mul_right_comm] at h₂
    constructor <;> dsimp only <;> omega
  · rw [scaleDown_of_neg _ _ h, Nat.shiftLeft_eq]
    have hk : den.log2 = num.log2 + (-((num.log2 : Int) - den.log2)).toNat := by omega
    generalize (-((num.log2 : Int) - den.log2)).toNat = k at hk
    rw [hk, Nat.pow_add] at hd hd'
    have h₁ := Nat.mul_le_mul_right (2 ^ k) hn
    have h₂ := (Nat.mul_lt_mul_right (Nat.two_pow_pos k)).mpr hn'
    rw [Nat.mul_right_comm] at h₂
    constructor <;> dsimp only <;> omega

theorem isFloorLog2_floorLog2 {num den : Nat} (hnum : num ≠ 0) (hden : den ≠ 0) :
    IsFloorLog2 num den (floorLog2 num den) := by
  obtain ⟨h₁, h₂⟩ := guess_bounds hnum hden
  unfold floorLog2
  generalize hg : (num.log2 : Int) - den.log2 = g at h₁ h₂
  dsimp only
  split
  · next h => exact ⟨h, h₁⟩
  · next h =>
    have hadd := scaleDown_add num den (g - 1) 1
    rw [show g - 1 + ((1 : Nat) : Int) = g by omega] at hadd
    have hd := scaleDown_snd_pos num (Nat.pos_of_ne_zero hden) g
    have hd' := scaleDown_snd_pos num (Nat.pos_of_ne_zero hden) (g - 1)
    generalize (scaleDown num den g).1 = n at *
    generalize (scaleDown num den g).2 = d at *
    generalize hn' : (scaleDown num den (g - 1)).1 = n' at *
    generalize hd'' : (scaleDown num den (g - 1)).2 = d' at *
    unfold IsFloorLog2
    rw [hn', hd'']
    rw [Nat.shiftLeft_eq, Nat.pow_one] at hadd
    constructor
    · refine Nat.le_of_mul_le_mul_right (c := d) ?_ hd
      rw [← hadd]
      have := Nat.mul_le_mul_right d' (Nat.le_of_lt h₂)
      calc d' * d = d * d' := Nat.mul_comm _ _
        _ ≤ 2 * n * d' := this
        _ = n * (d' * 2) := by rw [Nat.mul_comm 2 n, Nat.mul_assoc, Nat.mul_comm 2 d']
    · refine Nat.lt_of_mul_lt_mul_right (a := d) ?_
      rw [← hadd]
      have := (Nat.mul_lt_mul_right (a := d' * 2) (by omega)).mpr (Nat.not_le.mp h)
      calc n * (d' * 2) < d * (d' * 2) := this
        _ = 2 * d' * d := by rw [Nat.mul_comm 2 d', Nat.mul_comm d]

theorem floorLog2_eq {num den : Nat} {e : Int} (hnum : num ≠ 0) (hden : den ≠ 0)
    (h : IsFloorLog2 num den e) : floorLog2 num den = e :=
  (isFloorLog2_floorLog2 hnum hden).unique (Nat.pos_of_ne_zero hden) h

theorem floorLog2_mul_right {num den k : Nat} (hnum : num ≠ 0) (hden : den ≠ 0) (hk : 0 < k) :
    floorLog2 (num * k) (den * k) = floorLog2 num den := by
  refine floorLog2_eq (Nat.mul_ne_zero hnum (by omega)) (Nat.mul_ne_zero hden (by omega)) ?_
  obtain ⟨h₁, h₂⟩ := isFloorLog2_floorLog2 hnum hden
  unfold IsFloorLog2
  rw [scaleDown_mul_right]
  exact ⟨Nat.mul_le_mul_right k h₁, by
    rw [← Nat.mul_assoc]; exact (Nat.mul_lt_mul_right hk).mpr h₂⟩

/-! ## Rounding a ratio -/

theorem roundDiv_mul_right (num den : Nat) {k : Nat} (hk : 0 < k) :
    roundDiv (num * k) (den * k) = roundDiv num den := by
  unfold roundDiv
  simp only [Nat.mul_div_mul_right _ _ hk, Nat.mul_mod_mul_right, ← Nat.mul_assoc,
    Nat.mul_lt_mul_right hk]

/-- A ratio that is a whole number is not changed by rounding. -/
theorem roundDiv_mul_self (m : Nat) {den : Nat} (hden : 0 < den) : roundDiv (m * den) den = m := by
  unfold roundDiv
  simp only [Nat.mul_div_cancel m hden, Nat.mul_mod_left, Nat.mul_zero]
  exact if_pos hden

namespace Magnitude

/-- Rounding depends on the value of a ratio only. -/
theorem ofRatio_mul_right {num den k : Nat} (hden : den ≠ 0) (hk : 0 < k) :
    ofRatio (num * k) (den * k) = ofRatio num den := by
  unfold ofRatio
  by_cases hnum : num = 0
  · simp [hnum]
  · have hnum' : num * k ≠ 0 := Nat.mul_ne_zero hnum (by omega)
    simp only [hnum, hnum', if_false, floorLog2_mul_right hnum hden hk, scaleDown_mul_right,
      roundDiv_mul_right _ _ hk]

/-! ## Doubles are rounded already -/

theorem rank_eq (x : Magnitude) :
    (x.binaryExponent + 1074).toNat * binade + x.significand = x.rank := by
  unfold binaryExponent significand binade
  split
  · omega
  · omega

/-- The exponent of a double is the one that rounding to a double works with. -/
theorem max_log2_significand {x : Magnitude} (h : x.rank ≠ 0) :
    max ((x.significand.log2 : Int) + x.binaryExponent - 52) (-1074) = x.binaryExponent := by
  unfold binaryExponent significand binade
  split
  · next hx =>
    have := (Nat.log2_lt h).mpr (show x.rank < 2 ^ 52 from hx)
    omega
  · next hx =>
    have hlog : (0x10000000000000 + x.rank % 0x10000000000000).log2 = 52 :=
      (Nat.log2_eq_iff (by omega)).mpr ⟨by omega, by omega⟩
    rw [hlog]
    omega

theorem significand_ne_zero {x : Magnitude} (h : x.rank ≠ 0) : x.significand ≠ 0 := by
  unfold significand binade
  split <;> omega

/-- Scaled by its own exponent a double is its significand. -/
theorem scaleDown_ratio (x : Magnitude) :
    (scaleDown x.ratio.1 x.ratio.2 x.binaryExponent).1 =
      x.significand * (scaleDown x.ratio.1 x.ratio.2 x.binaryExponent).2 := by
  unfold ratio
  by_cases h : 0 ≤ x.binaryExponent
  · rw [scaleDown_of_nonneg _ _ h]
    by_cases h' : 0 ≤ -x.binaryExponent
    · have : x.binaryExponent = 0 := by omega
      simp [scaleDown, this]
    · simp [scaleDown_of_neg _ _ h', Nat.shiftLeft_eq]
  · rw [scaleDown_of_neg _ _ h, scaleDown_of_nonneg _ _ (by omega : 0 ≤ -x.binaryExponent)]
    simp [Nat.shiftLeft_eq]

theorem ratio_snd_pos (x : Magnitude) : 0 < x.ratio.2 := scaleDown_snd_pos _ Nat.one_pos _

theorem ratio_fst_ne_zero {x : Magnitude} (h : x.rank ≠ 0) : x.ratio.1 ≠ 0 := by
  unfold ratio scaleDown
  split
  · exact significand_ne_zero h
  · rw [Nat.shiftLeft_eq]
    exact Nat.mul_ne_zero (significand_ne_zero h) (Nat.ne_of_gt (Nat.two_pow_pos _))

theorem floorLog2_ratio {x : Magnitude} (h : x.rank ≠ 0) :
    floorLog2 x.ratio.1 x.ratio.2 = x.significand.log2 + x.binaryExponent := by
  refine floorLog2_eq (ratio_fst_ne_zero h) (Nat.ne_of_gt x.ratio_snd_pos) ?_
  have hm := significand_ne_zero h
  have hlow := Nat.log2_self_le hm
  have hhigh := Nat.lt_log2_self (n := x.significand)
  have hadd := scaleDown_add x.ratio.1 x.ratio.2 x.binaryExponent x.significand.log2
  have hd := scaleDown_snd_pos x.ratio.1 x.ratio_snd_pos x.binaryExponent
  have hdpos := scaleDown_snd_pos x.ratio.1 x.ratio_snd_pos
    (x.significand.log2 + x.binaryExponent)
  rw [scaleDown_ratio, Int.add_comm x.binaryExponent, Nat.shiftLeft_eq] at hadd
  unfold IsFloorLog2
  -- of the three scaled ratios only `hadd` matters from here on
  generalize (scaleDown x.ratio.1 x.ratio.2 (x.significand.log2 + x.binaryExponent)).1 = n at *
  generalize (scaleDown x.ratio.1 x.ratio.2 (x.significand.log2 + x.binaryExponent)).2 = d at *
  generalize (scaleDown x.ratio.1 x.ratio.2 x.binaryExponent).2 = c at *
  have hcancel : n * 2 ^ x.significand.log2 = x.significand * d := by
    refine Nat.eq_of_mul_eq_mul_right hd ?_
    calc n * 2 ^ x.significand.log2 * c = n * (c * 2 ^ x.significand.log2) := by
          rw [Nat.mul_assoc, Nat.mul_comm c]
      _ = x.significand * c * d := hadd
      _ = x.significand * d * c := Nat.mul_right_comm _ _ _
  have hp := Nat.two_pow_pos x.significand.log2
  constructor
  · refine Nat.le_of_mul_le_mul_right ?_ hp
    rw [hcancel, Nat.mul_comm]
    exact Nat.mul_le_mul_right d hlow
  · refine Nat.lt_of_not_le fun hle => ?_
    have h₁ := Nat.mul_le_mul_right (2 ^ x.significand.log2) hle
    rw [hcancel] at h₁
    have h₂ := (Nat.mul_lt_mul_right hdpos).mpr hhigh
    rw [Nat.pow_succ] at h₂
    have h₃ : 2 * d * 2 ^ x.significand.log2 = 2 ^ x.significand.log2 * 2 * d := by
      rw [Nat.mul_comm 2 d, Nat.mul_comm (d * 2), Nat.mul_assoc, Nat.mul_comm d 2]
    omega

/-- A double that is not infinite rounds to itself. -/
theorem ofRatio_ratio (x : Magnitude) : ofRatio x.ratio.1 x.ratio.2 = x := by
  by_cases h : x.rank = 0
  · have hm : x.significand = 0 := by simp [significand, h]
    have h₁ : x.ratio.1 = 0 := by unfold ratio scaleDown; split <;> simp [hm]
    rw [ofRatio, if_pos h₁, zero, ← h, ofRank_rank]
  · have hd := scaleDown_snd_pos x.ratio.1 x.ratio_snd_pos x.binaryExponent
    rw [ofRatio, if_neg (ratio_fst_ne_zero h), floorLog2_ratio h]
    dsimp only
    rw [max_log2_significand h, scaleDown_ratio, roundDiv_mul_self _ hd, rank_eq, ofRank_rank]

end Magnitude

/-! ## Shortest decimals read back -/

namespace Decimal

/-- A whole number is rounded as it stands. -/
theorem ofDecimal_zero {digits : Nat} (h : digits ≠ 0) :
    Magnitude.ofDecimal digits 0 = .ofRatio digits 1 := by
  unfold Magnitude.ofDecimal
  rw [if_neg h, if_neg (by decide), if_neg (by omega), if_pos (Int.le_refl 0)]
  simp

/-- A number with digits after the point is rounded as a fraction, unless it is too small. -/
theorem ofDecimal_neg {digits n : Nat} (h : digits ≠ 0) (hn : n ≠ 0)
    (hcut : n ≤ 400 + digits.log2) :
    Magnitude.ofDecimal digits (-(n : Int)) = .ofRatio digits (Nat.pow 10 n) := by
  unfold Magnitude.ofDecimal
  rw [if_neg h, if_neg (by omega), if_neg (by omega), if_neg (by omega), Int.neg_neg,
    Int.toNat_natCast]

/-- A multiple of `5 ^ n` has more than `n` binary digits. -/
theorem le_log2_mul_five_pow {m : Nat} (hm : m ≠ 0) (n : Nat) :
    n ≤ (m * Nat.pow 5 n).log2 := by
  have h₁ : 2 ^ n ≤ m * 5 ^ n :=
    Nat.le_trans (Nat.pow_le_pow_left (by decide) n)
      (Nat.le_mul_of_pos_left _ (Nat.pos_of_ne_zero hm))
  exact (Nat.le_log2 (Nat.mul_ne_zero hm (Nat.ne_of_gt (Nat.pow_pos (by decide))))).mpr h₁

/-- A double written out digit for digit reads back as it. -/
theorem toMagnitude_exact {x : Magnitude} (h : x.rank ≠ 0) : (exact x).toMagnitude = x := by
  have hm := x.significand_ne_zero h
  have hround := x.ofRatio_ratio
  unfold Magnitude.ratio at hround
  by_cases hq : 0 ≤ x.binaryExponent
  · have hdigits : x.significand <<< x.binaryExponent.toNat ≠ 0 := by
      rw [Nat.shiftLeft_eq]
      exact Nat.mul_ne_zero hm (Nat.ne_of_gt (Nat.two_pow_pos _))
    have hratio : scaleDown x.significand 1 (-x.binaryExponent) =
        (x.significand <<< x.binaryExponent.toNat, 1) := by
      by_cases h0 : 0 ≤ -x.binaryExponent
      · have : x.binaryExponent = 0 := by omega
        simp [scaleDown, this]
      · rw [scaleDown_of_neg _ _ h0, Int.neg_neg]
    rw [hratio] at hround
    rw [exact, if_pos hq, toMagnitude, ofDecimal_zero hdigits]
    exact hround
  · obtain ⟨n, hn⟩ : ∃ n : Nat, x.binaryExponent = -(n : Int) :=
      ⟨(-x.binaryExponent).toNat, by omega⟩
    have hn0 : n ≠ 0 := by omega
    have hratio : scaleDown x.significand 1 (-x.binaryExponent) = (x.significand, 2 ^ n) := by
      rw [scaleDown_of_nonneg _ _ (by omega), hn, Int.neg_neg, Int.toNat_natCast,
        Nat.shiftLeft_eq, Nat.one_mul]
    rw [hratio] at hround
    have hdigits : x.significand * Nat.pow 5 n ≠ 0 :=
      Nat.mul_ne_zero hm (Nat.ne_of_gt (Nat.pow_pos (by decide)))
    have hcut := le_log2_mul_five_pow hm n
    rw [exact, if_neg hq, toMagnitude, hn, Int.neg_neg, Int.toNat_natCast,
      ofDecimal_neg hdigits hn0 (by omega),
      show Nat.pow 10 n = 2 ^ n * Nat.pow 5 n from Nat.mul_pow 2 5 n,
      Magnitude.ofRatio_mul_right (Nat.ne_of_gt (Nat.two_pow_pos n))
        (show 0 < Nat.pow 5 n from Nat.pow_pos (by decide))]
    exact hround

/-- A hit on a grid reads back. -/
theorem toMagnitude_of_onGrid? {tie : Tie} {x : Magnitude} {k : Int} {d : Decimal}
    (h : onGrid? tie x k = some d) : d.toMagnitude = x := by
  simpa using List.find?_some h

/-- Whatever is found reads back. -/
theorem toMagnitude_search {x : Magnitude} (h : x.rank ≠ 0) (tie : Tie) (k : Int) (count : Nat) :
    (search tie x k count).toMagnitude = x := by
  induction count generalizing k with
  | zero => exact toMagnitude_exact h
  | succ count ih =>
    unfold search
    cases hg : onGrid? tie x k with
    | none => exact ih (k - 1)
    | some d => exact toMagnitude_of_onGrid? hg

/-- The shortest decimal of a double reads back as it. -/
theorem toMagnitude_shortest (tie : Tie) (x : Magnitude) :
    (shortest tie x).toMagnitude = x := by
  unfold shortest
  by_cases h : x.rank = 0
  · rw [if_pos h, toMagnitude, Magnitude.ofDecimal, if_pos rfl, Magnitude.zero, ← h,
      Magnitude.ofRank_rank]
  · rw [if_neg h]
    exact toMagnitude_search h _ _ _

end Decimal

end TypedValues
