import TypedValues.Binary64.Lemmas
import TypedValues.Binary64.Text
import TypedValues.Proofs.Numeral

/-!
# Doubles read back

A number is read back from its text in every layout, bit for bit (`Binary64.read?_text`). The
digits are those of a decimal that rounds to the double; moving the point and filling up with
zeros makes another decimal of them, which rounds to the same double. The text of "not a number"
leaves its pattern out (`Binary64.canonical`).
-/

namespace TypedValues

namespace Decimal

variable {digits : List Char} {point : Int} (sign : Option Sign) (pointZero : Bool)

/-! ## Zeros at the end -/

/-- A finite decimal that is whole may be written with its zeros. -/
theorem ofDecimal_mul_pow {m : Nat} {e : Int} (he : 0 ≤ e)
    (hfin : (Magnitude.ofDecimal m e).isFinite = true) :
    Magnitude.ofDecimal (m * Nat.pow 10 e.toNat) 0 = .ofDecimal m e := by
  by_cases hm : m = 0
  · rw [hm, Nat.zero_mul, Magnitude.ofDecimal, Magnitude.ofDecimal, if_pos rfl, if_pos rfl]
  · -- the powers of ten that are cut off are infinite
    have hcut : ¬400 < e := by
      intro hcut
      rw [Magnitude.ofDecimal, if_neg hm, if_pos hcut] at hfin
      exact absurd hfin (by decide)
    have hne : m * Nat.pow 10 e.toNat ≠ 0 :=
      Nat.mul_ne_zero hm (Nat.ne_of_gt (Nat.pow_pos (by decide)))
    rw [ofDecimal_zero hne, Magnitude.ofDecimal, if_neg hm, if_neg hcut, if_neg (by omega),
      if_pos he]

/-- A whole number may be written with a zero after the point. -/
theorem ofDecimal_mul_ten (m : Nat) :
    Magnitude.ofDecimal (m * 10) (-1) = .ofDecimal m 0 := by
  by_cases hm : m = 0
  · rw [hm, Nat.zero_mul, Magnitude.ofDecimal, Magnitude.ofDecimal, if_pos rfl, if_pos rfl]
  · rw [ofDecimal_zero hm]
    have hneg : Magnitude.ofDecimal (m * 10) (-(1 : Nat)) = .ofRatio (m * 10) (1 * 10) :=
      ofDecimal_neg (by omega) (by decide) (by omega)
    exact hneg.trans (Magnitude.ofRatio_mul_right (by decide) (by decide))

/-! ## The layouts -/

theorem decimals_fractionPart (pz : Bool) (l : List Char) :
    (fractionPart pz l).getD [] = if l ≠ [] then l else if pz then ['0'] else [] := by
  unfold fractionPart
  split
  · rfl
  · split <;> rfl

/-- With the point inside the digits or before them, the numeral has these digits. -/
theorem positional_of_lt (h : point < digits.length) :
    (positional pointZero sign digits point).digits = Nat.ofDigitChars 10 digits 0 ∧
      (positional pointZero sign digits point).scale = point - digits.length := by
  have hzeros : point.toNat - digits.length = 0 := by omega
  have hne : List.replicate (-point).toNat '0' ++ digits.drop point.toNat ≠ [] := by
    intro heq
    have hlength := congrArg List.length heq
    rw [List.length_append, List.length_replicate, List.length_drop, List.length_nil] at hlength
    omega
  have hdecimals : (positional pointZero sign digits point).decimals =
      List.replicate (-point).toNat '0' ++ digits.drop point.toNat := by
    show (fractionPart _ _).getD [] = _
    rw [decimals_fractionPart, if_pos hne]
  have hscale : (positional pointZero sign digits point).scale = point - digits.length := by
    rw [Numeral.scale, hdecimals]
    simp [positional]
    omega
  refine ⟨?_, hscale⟩
  rw [Numeral.digits, hdecimals]
  simp only [positional, hzeros, List.replicate_zero, List.append_nil]
  -- a point before all digits leaves a zero in front and zeros behind it, which add nothing
  by_cases hp : 0 < point
  · have htake : digits.take point.toNat ≠ [] := by
      intro heq
      have hlength := congrArg List.length heq
      rw [List.length_take, List.length_nil] at hlength
      omega
    have hnone : (-point).toNat = 0 := by omega
    rw [if_neg htake, hnone, List.replicate_zero, List.nil_append, List.take_append_drop]
  · have hnone : point.toNat = 0 := by omega
    rw [hnone, List.take_zero, if_pos rfl, List.drop_zero, Nat.ofDigitChars_append,
      Nat.ofDigitChars_append, Nat.ofDigitChars_replicate_zero]
    rfl

/-- With the point after the digits, the numeral is filled up with zeros. -/
theorem positional_of_ge (h : (digits.length : Int) ≤ point) (hne : digits ≠ []) :
    Magnitude.ofDecimal (positional pointZero sign digits point).digits
        (positional pointZero sign digits point).scale =
      .ofDecimal (Nat.ofDigitChars 10 digits 0 * Nat.pow 10 (point - digits.length).toNat) 0 := by
  have hwhole : (positional pointZero sign digits point).whole =
      digits ++ List.replicate (point.toNat - digits.length) '0' := by
    have htake : digits.take point.toNat = digits := List.take_of_length_le (by omega)
    simp only [positional, htake]
    exact if_neg (by simp [hne])
  have hfraction : (positional pointZero sign digits point).fraction =
      if pointZero then some ['0'] else none := by
    have hdrop : digits.drop point.toNat = [] := List.drop_eq_nil_of_le (by omega)
    have hnone : (-point).toNat = 0 := by
      have : digits.length ≠ 0 := by simpa using hne
      omega
    simp [positional, fractionPart, hdrop, hnone]
  have hpow : point.toNat - digits.length = (point - digits.length).toNat := by omega
  cases pointZero with
  | false =>
    have hdecimals : (positional false sign digits point).decimals = [] := by
      rw [Numeral.decimals, hfraction]
      rfl
    rw [Numeral.scale, Numeral.digits, hwhole, hdecimals, List.append_nil,
      Nat.ofDigitChars_append, Nat.ofDigitChars_replicate_zero, hpow, Nat.mul_comm]
    rfl
  | true =>
    have hdecimals : (positional true sign digits point).decimals = ['0'] := by
      rw [Numeral.decimals, hfraction]
      rfl
    rw [Numeral.scale, Numeral.digits, hwhole, hdecimals, Nat.ofDigitChars_append,
      Nat.ofDigitChars_append, Nat.ofDigitChars_replicate_zero, hpow]
    -- the zero after the point is one more digit
    have hten := ofDecimal_mul_ten
      (Nat.pow 10 (point - digits.length).toNat * Nat.ofDigitChars 10 digits 0)
    rw [Nat.mul_comm _ (Nat.pow 10 _), ← hten]
    congr 1
    show Nat.ofDigitChars 10 ['0'] _ = _
    rw [Nat.ofDigitChars_cons, Nat.ofDigitChars_nil, Nat.mul_comm 10]
    rfl

theorem digits_scientific (hne : digits ≠ []) (e : Int) :
    (scientific sign digits e).digits = Nat.ofDigitChars 10 digits 0 ∧
      (scientific sign digits e).scale = e + 1 - digits.length := by
  have hdecimals : (scientific sign digits e).decimals = digits.drop 1 := by
    show (fractionPart _ _).getD [] = _
    rw [decimals_fractionPart]
    split
    · rfl
    · next h => simpa using (Decidable.not_not.mp h).symm
  have hlength : 0 < digits.length := List.length_pos_iff.mpr hne
  constructor
  · rw [Numeral.digits, hdecimals]
    show Nat.ofDigitChars 10 (digits.take 1 ++ digits.drop 1) 0 = _
    rw [List.take_append_drop]
  · rw [Numeral.scale, hdecimals, List.length_drop]
    show e - _ = _
    omega

/-- The numeral of a decimal that rounds to a finite double rounds to it as well. -/
theorem ofDecimal_numeral (layout : Layout) (sign : Option Sign) (d : Decimal)
    (hfin : d.toMagnitude.isFinite = true) :
    Magnitude.ofDecimal (d.numeral layout sign).digits (d.numeral layout sign).scale =
      d.toMagnitude := by
  have hne : Nat.toDigits 10 d.digits ≠ [] := Nat.toDigits_ne_nil
  have hvalue : Nat.ofDigitChars 10 (Nat.toDigits 10 d.digits) 0 = d.digits :=
    Nat.ofDigitChars_ten_toDigits
  unfold numeral
  -- all that matters about the digits is their value
  generalize Nat.toDigits 10 d.digits = digits at hne hvalue
  have hshift : (digits.length : Int) + d.exponent - digits.length = d.exponent := by omega
  dsimp only
  split
  · by_cases he : d.exponent < 0
    · have hlt : digits.length + d.exponent < digits.length := by omega
      obtain ⟨hdigits, hscale⟩ := positional_of_lt sign layout.pointZero hlt
      rw [hdigits, hscale, hvalue, hshift]
      rfl
    · rw [positional_of_ge _ _ (by omega) hne, hvalue, hshift]
      exact ofDecimal_mul_pow (by omega) hfin
  · obtain ⟨hdigits, hscale⟩ := digits_scientific sign hne (digits.length + d.exponent - 1)
    rw [hdigits, hscale, hvalue, Int.sub_add_cancel, hshift]
    rfl

/-! ## Digits only -/

theorem isDigit_zeros {n : Nat} {c : Char} (h : c ∈ List.replicate n '0') : c.isDigit = true := by
  rw [List.eq_of_mem_replicate h]
  decide

theorem isDigit_fractionPart {pz : Bool} {l : List Char} (h : ∀ c ∈ l, c.isDigit = true) :
    ∀ c ∈ (fractionPart pz l).getD [], c.isDigit = true := by
  intro c hc
  rw [decimals_fractionPart] at hc
  split at hc
  · exact h c hc
  · split at hc
    · rw [List.mem_singleton.mp hc]
      decide
    · contradiction

theorem legal_positional (h : ∀ c ∈ digits, c.isDigit = true) :
    (positional pointZero sign digits point).Legal := by
  constructor
  · intro c hc
    simp only [positional] at hc
    split at hc
    · rw [List.mem_singleton.mp hc]
      decide
    · rcases List.mem_append.mp hc with hc | hc
      · exact h c (List.mem_of_mem_take hc)
      · exact isDigit_zeros hc
  · apply isDigit_fractionPart
    intro c hc
    rcases List.mem_append.mp hc with hc | hc
    · exact isDigit_zeros hc
    · exact h c (List.mem_of_mem_drop hc)

theorem legal_scientific (h : ∀ c ∈ digits, c.isDigit = true) (e : Int) :
    (scientific sign digits e).Legal :=
  ⟨fun c hc => h c (List.mem_of_mem_take hc),
    isDigit_fractionPart fun c hc => h c (List.mem_of_mem_drop hc)⟩

theorem legal_numeral (layout : Layout) (sign : Option Sign) (d : Decimal) :
    (d.numeral layout sign).Legal ∧ (d.numeral layout sign).whole ≠ [] := by
  have hne : Nat.toDigits 10 d.digits ≠ [] := Nat.toDigits_ne_nil
  have hdigits := Numeral.isDigit_toDigits d.digits
  unfold numeral
  dsimp only
  split
  · refine ⟨legal_positional _ _ hdigits, ?_⟩
    simp only [positional]
    split
    · exact List.cons_ne_nil _ _
    · assumption
  · refine ⟨legal_scientific _ hdigits _, ?_⟩
    simp [scientific]

theorem sign_numeral (layout : Layout) (sign : Option Sign) (d : Decimal) :
    (d.numeral layout sign).sign = sign := by
  unfold numeral
  dsimp only
  split <;> rfl

end Decimal

namespace Binary64

theorem isNegative_numeral (layout : Layout) (negative : Bool) (x : Magnitude) :
    (numeral layout negative x).isNegative = negative := by
  rw [Numeral.isNegative, numeral, Decimal.sign_numeral]
  cases negative <;> rfl

theorem ofNumeral_numeral (layout : Layout) (negative : Bool) {x : Magnitude}
    (hx : x.isFinite = true) : ofNumeral (numeral layout negative x) = number negative x := by
  have hshort := Decimal.toMagnitude_shortest layout.tie x
  rw [ofNumeral, isNegative_numeral, numeral, Decimal.ofDecimal_numeral _ _ _ (by rwa [hshort]),
    hshort]

theorem toLower_of_isDigit {c : Char} (h : c.isDigit = true) : c.toLower = c := by
  simp only [Char.isDigit, Bool.and_eq_true, decide_eq_true_eq] at h
  apply dif_neg
  intro hupper
  have := UInt32.le_trans hupper.1 h.2
  revert this
  decide

/-- A text with a digit in front is read as a numeral. -/
theorem read?_of_numeral {n : Numeral} (h : n.Legal) (hwhole : n.whole ≠ []) (plus : Bool) :
    read? (n.text plus) = some (ofNumeral n) := by
  obtain ⟨c, rest, hcons⟩ := List.exists_cons_of_ne_nil hwhole
  have hc : c.isDigit = true := h.whole c (by rw [hcons]; exact List.mem_cons_self)
  have hsplit : Sign.split (n.text plus) = (n.sign, c :: (rest ++ n.tailText plus)) := by
    rw [Numeral.text_eq, hcons]
    exact Sign.split_signText _ (Sign.unsigned_of_isDigit hc _)
  have hletter (l : Char) (hl : l.isDigit = false) (word : List Char) :
      (c :: (rest ++ n.tailText plus)).map Char.toLower ≠ l :: word := by
    intro heq
    rw [List.map_cons, toLower_of_isDigit hc] at heq
    rw [(List.cons.inj heq).1, hl] at hc
    contradiction
  have hdigits : n.hasDigits = true := by
    rw [Numeral.hasDigits, hcons]
    rfl
  rw [read?, hsplit]
  dsimp only
  rw [if_neg (not_or.mpr ⟨hletter 'i' rfl _, hletter 'i' rfl _⟩), if_neg (hletter 'n' rfl _),
    Numeral.read?_text h, Option.bind_some, if_pos hdigits]

/-- A number is read back from its text in any layout, bit for bit. -/
theorem read?_text (layout : Layout) (negative : Bool) (x : Magnitude) :
    read? ((number negative x).text layout) = some (number negative x) := by
  rw [text]
  split
  · next hx =>
    obtain ⟨hlegal, hwhole⟩ := Decimal.legal_numeral layout (signOf negative)
      (Decimal.shortest layout.tie x)
    rw [← ofNumeral_numeral layout negative hx]
    exact read?_of_numeral hlegal hwhole _
  · next hx =>
    have hinf : x = .infinity := by
      have hrank := x.rank_le
      simp only [Magnitude.isFinite, decide_eq_true_eq] at hx
      apply Magnitude.ext
      show x.rank = min infinityRank infinityRank
      omega
    rw [hinf]
    cases negative <;> rfl

/-! ## Keys -/

/-- The double with the sign of a zero left out, and with all but one pattern of "not a number". -/
def canonical : Binary64 → Binary64
  | nan _ _ => nan
  | number negative x => number (negative && x.rank != 0) x

theorem canonical_canonical (x : Binary64) : x.canonical.canonical = x.canonical := by
  cases x with
  | nan _ _ => rfl
  | number negative x => rw [canonical, canonical, Bool.and_assoc, Bool.and_self]

/-- A double is read back from its text in any layout, but for the pattern of "not a number". -/
theorem read?_text_canonical (layout : Layout) (x : Binary64) :
    read? (x.canonical.text layout) = some x.canonical := by
  cases x with
  | nan _ _ => rfl
  | number negative x => exact read?_text layout _ x

/-- Two doubles are equal, "not a number" to itself included, if they are one but for the sign of
a zero and the pattern of "not a number". -/
theorem same_iff_canonical (x y : Binary64) : x.same y = true ↔ x.canonical = y.canonical := by
  cases x with
  | nan _ _ =>
    cases y with
    | nan _ _ => exact iff_of_true rfl rfl
    | number t y => exact iff_of_false Bool.false_ne_true nofun
  | number s x =>
    cases y with
    | nan _ _ => exact iff_of_false Bool.false_ne_true nofun
    | number t y =>
      by_cases hxy : x = y
      · subst hxy
        cases hx : x.rank == 0 <;> simp [canonical, same, numEq, isNan, bne, hx]
      · simp [canonical, same, numEq, isNan, hxy]

end Binary64

end TypedValues
