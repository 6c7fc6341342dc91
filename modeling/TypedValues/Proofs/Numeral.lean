import TypedValues.Numeral

/-!
# Numerals read back

A numeral is read back from its text as it was written, with every part of it, whether or not
the sign of its power of ten is written out. All that this takes is that its digits are digits.
-/

namespace TypedValues

/-! ## Signs -/

/-- No sign stands in front of the text. -/
def Sign.Unsigned (text : List Char) : Prop := ∀ c ∈ text.head?, c ≠ '+' ∧ c ≠ '-'

theorem Sign.split_of_unsigned {text : List Char} (h : Unsigned text) :
    Sign.split text = (none, text) := by
  cases text with
  | nil => rfl
  | cons c rest =>
    obtain ⟨hplus, hminus⟩ := h c rfl
    unfold Sign.split
    split <;> simp_all

theorem Sign.split_signText (sign : Option Sign) {rest : List Char} (h : Unsigned rest) :
    Sign.split (Numeral.signText sign ++ rest) = (sign, rest) := by
  match sign with
  | none => exact split_of_unsigned h
  | some .plus => rfl
  | some .minus => rfl

theorem Sign.unsigned_of_isDigit {c : Char} (hc : c.isDigit = true) (rest : List Char) :
    Unsigned (c :: rest) := by
  intro d hd
  cases hd
  constructor <;> (rintro rfl; contradiction)

namespace Numeral

theorem isDigit_toDigits (n : Nat) : ∀ c ∈ Nat.toDigits 10 n, c.isDigit = true := by
  intro c hc
  exact Nat.isDigit_of_mem_toDigits (by decide) (by decide) hc

/-- The digits of a numeral are digits. -/
structure Legal (n : Numeral) : Prop where
  whole : ∀ c ∈ n.whole, c.isDigit = true
  decimals : ∀ c ∈ n.decimals, c.isDigit = true

/-! ## The power of ten -/

theorem unsigned_toDigits (n : Nat) : Sign.Unsigned (Nat.toDigits 10 n) := by
  cases h : Nat.toDigits 10 n with
  | nil => exact absurd h Nat.toDigits_ne_nil
  | cons c rest =>
    have hc : c ∈ Nat.toDigits 10 n := by rw [h]; exact List.mem_cons_self
    exact Sign.unsigned_of_isDigit (isDigit_toDigits n c hc) rest

/-- The sign of a power of ten as it is written. -/
def exponentSign (plus : Bool) (e : Int) : Option Sign :=
  if e < 0 then some .minus else if plus then some .plus else none

theorem apply_exponentSign (plus : Bool) (e : Int) :
    Sign.apply (exponentSign plus e) e.natAbs = e := by
  unfold exponentSign Sign.apply
  split
  · rw [if_pos rfl]
    omega
  · cases plus <;> simp <;> omega

theorem exponentText_some (plus : Bool) (e : Int) :
    exponentText plus (some e) =
      'e' :: (signText (exponentSign plus e) ++ Nat.toDigits 10 e.natAbs) := by
  by_cases h : e < 0
  · simp [exponentText, exponentSign, signText, h]
  · cases plus <;> simp [exponentText, exponentSign, signText, h]

theorem readExponent?_exponentText (plus : Bool) (e : Option Int) :
    readExponent? (exponentText plus e) = some e := by
  cases e with
  | none => rfl
  | some e =>
    have hdigits : (Nat.toDigits 10 e.natAbs).all Char.isDigit = true :=
      List.all_eq_true.mpr (isDigit_toDigits _)
    rw [exponentText_some, readExponent?, if_pos (.inl rfl),
      Sign.split_signText _ (unsigned_toDigits _)]
    dsimp only
    rw [if_pos ⟨Nat.toDigits_ne_nil, hdigits⟩, Nat.ofDigitChars_ten_toDigits, apply_exponentSign]

/-! ## The whole numeral -/

/-- What is written after the whole digits. -/
def tailText (plus : Bool) (n : Numeral) : List Char :=
  (match n.fraction with
   | none => []
   | some digits => '.' :: digits) ++ exponentText plus n.exponent

theorem text_eq (plus : Bool) (n : Numeral) :
    n.text plus = signText n.sign ++ (n.whole ++ n.tailText plus) := by
  rw [text, tailText]
  cases n.fraction <;> simp

theorem head_exponentText {plus : Bool} {e : Option Int} {c : Char}
    (h : c ∈ (exponentText plus e).head?) : c = 'e' := by
  cases e with
  | none => contradiction
  | some e =>
    rw [exponentText_some] at h
    cases h
    rfl

theorem head_tailText {plus : Bool} {n : Numeral} {c : Char} (h : c ∈ (n.tailText plus).head?) :
    c = '.' ∨ c = 'e' := by
  unfold tailText at h
  cases hf : n.fraction with
  | none =>
    rw [hf] at h
    exact .inr (head_exponentText h)
  | some digits =>
    rw [hf] at h
    cases h
    exact .inl rfl

theorem span_digits {digits rest : List Char} (hdigits : ∀ c ∈ digits, c.isDigit = true)
    (hrest : ∀ c ∈ rest.head?, c.isDigit = false) :
    (digits ++ rest).takeWhile Char.isDigit = digits ∧
      (digits ++ rest).dropWhile Char.isDigit = rest := by
  rw [List.takeWhile_append_of_pos hdigits, List.dropWhile_append_of_pos hdigits]
  cases rest with
  | nil => simp
  | cons c rest => simp [hrest c rfl]

theorem splitFraction_tailText {n : Numeral} (plus : Bool)
    (h : ∀ c ∈ n.decimals, c.isDigit = true) :
    splitFraction (n.tailText plus) = (n.fraction, exponentText plus n.exponent) := by
  have hexp : ∀ c ∈ (exponentText plus n.exponent).head?, c.isDigit = false := fun c hc => by
    rw [head_exponentText hc]
    decide
  unfold tailText
  cases hf : n.fraction with
  | none =>
    cases he : n.exponent with
    | none => rfl
    | some e =>
      rw [exponentText_some]
      rfl
  | some digits =>
    have hdigits : ∀ c ∈ digits, c.isDigit = true := by simpa [decimals, hf] using h
    obtain ⟨htake, hdrop⟩ := span_digits hdigits hexp
    rw [List.cons_append, splitFraction, htake, hdrop]

/-- A numeral is read back as it was written. -/
theorem read?_text {n : Numeral} (h : n.Legal) (plus : Bool) : read? (n.text plus) = some n := by
  have htail : ∀ c ∈ (n.tailText plus).head?, c.isDigit = false := fun c hc => by
    rcases head_tailText hc with rfl | rfl <;> decide
  -- without whole digits the point or the power of ten comes first
  have hunsigned : Sign.Unsigned (n.whole ++ n.tailText plus) := by
    cases hw : n.whole with
    | nil =>
      intro c hc
      rcases head_tailText hc with rfl | rfl <;> decide
    | cons c rest => exact Sign.unsigned_of_isDigit (h.whole c (by simp [hw])) _
  obtain ⟨htake, hdrop⟩ := span_digits h.whole htail
  rw [text_eq, read?, Sign.split_signText _ hunsigned]
  dsimp only
  rw [htake, hdrop, splitFraction_tailText plus h.decimals, readExponent?_exponentText]
  rfl

/-! ## Integers -/

theorem legal_ofInt (n : Int) : (ofInt n).Legal :=
  ⟨isDigit_toDigits _, fun _ hc => nomatch hc⟩

theorem toInt?_ofInt (n : Int) : (ofInt n).toInt? = some n := by
  have hne : (ofInt n).whole ≠ [] := Nat.toDigits_ne_nil
  rw [toInt?, if_pos ⟨hne, rfl, rfl⟩]
  show some (Sign.apply (exponentSign false n) (Nat.ofDigitChars 10 (Nat.toDigits 10 n.natAbs) 0)) = _
  rw [Nat.ofDigitChars_ten_toDigits, apply_exponentSign]

theorem toInt64?_ofInt (n : Int64) : (ofInt n.toInt).toInt64? = some n := by
  rw [toInt64?, toInt?_ofInt, Option.bind_some, if_pos ⟨n.minValue_le_toInt, n.toInt_le⟩,
    Int64.ofInt_toInt]

end Numeral

theorem readInt?_intText (n : Int64) : readInt? (intText n) = some n := by
  rw [readInt?, intText, String.toList_ofList, Numeral.read?_text (Numeral.legal_ofInt _),
    Option.bind_some, Numeral.toInt64?_ofInt]

end TypedValues
