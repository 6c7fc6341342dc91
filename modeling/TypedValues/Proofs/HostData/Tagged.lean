import TypedValues.HostData.Tagged
import TypedValues.Proofs.Binary64.Text
import TypedValues.Proofs.Json.Reader
import TypedValues.Proofs.Outcome

/-!
# Equal data have one tagged text

Two trees of host data have the same tagged text exactly if they are equal, "not a number" being
equal to itself and the two zeros to each other at any depth (`HostData.taggedText_eq_iff`).
-/

namespace TypedValues

/-! ## Numbers in tagged trees -/

namespace Numeral

theorem ofInt_inj {n m : Int} : ofInt n = ofInt m ↔ n = m := by
  constructor
  · exact Outcome.eq_of_read toInt? toInt?_ofInt
  · intro h
    rw [h]

/-- Only zero is written with a leading zero. -/
theorem eq_zero_of_toDigits {n : Nat} {rest : List Char} (h : Nat.toDigits 10 n = '0' :: rest) :
    n = 0 := by
  induction n using Nat.strongRecOn generalizing rest with
  | ind n ih =>
    by_cases hn : n < 10
    · rw [Nat.toDigits_of_lt_base hn] at h
      have hvalue : Nat.ofDigitChars 10 [n.digitChar] 0 = n := by
        rw [← Nat.toDigits_of_lt_base hn, Nat.ofDigitChars_ten_toDigits]
      rw [(List.cons.inj h).1] at hvalue
      exact hvalue.symm
    · rw [Nat.toDigits_of_base_le (by decide) (by omega)] at h
      cases hhead : Nat.toDigits 10 (n / 10) with
      | nil => exact absurd hhead Nat.toDigits_ne_nil
      | cons c digits =>
        -- the leading digits are those of the tenth, which is zero by induction
        rw [hhead] at h
        have hc : c = '0' := (List.cons.inj h).1
        have hzero := ih (n / 10) (by omega) (hc ▸ hhead)
        omega

/-- So no other digit follows. -/
theorem eq_nil_of_toDigits {n : Nat} {rest : List Char} (h : Nat.toDigits 10 n = '0' :: rest) :
    rest = [] := by
  have hzero := eq_zero_of_toDigits h
  rw [hzero, Nat.toDigits_zero] at h
  exact (List.cons.inj h).2.symm

theorem allowsNumeral_ofInt (n : Int) : Json.allowsNumeral (ofInt n) = true := by
  have hsign : ((ofInt n).sign != some .plus) = true := by
    simp only [ofInt]
    split <;> rfl
  rw [Json.allowsNumeral, hsign, Bool.true_and]
  refine Bool.and_eq_true_iff.mpr ⟨rfl, ?_⟩
  split
  · next h => exact absurd h Nat.toDigits_ne_nil
  · next rest h => rw [eq_nil_of_toDigits h, List.isEmpty_nil]
  · rfl

end Numeral

namespace Binary64

/-- The key text of a double is the plain text of the double without the sign of a zero. -/
theorem keyText_eq (x : Binary64) : x.keyText = String.ofList (x.canonical.text .plain) := by
  cases x with
  | nan _ _ => rfl
  | number negative x =>
    cases hx : x.rank == 0 with
    | true =>
      have hzero : x = .zero := by
        rw [Magnitude.zero, ← beq_iff_eq.mp hx, Magnitude.ofRank_rank]
      subst hzero
      cases negative <;> decide
    | false => simp [keyText, isZero, canonical, bne, hx]

theorem read?_keyText (x : Binary64) : read? x.keyText.toList = some x.canonical := by
  rw [keyText_eq, String.toList_ofList, read?_text_canonical]

theorem keyText_eq_iff (x y : Binary64) : x.keyText = y.keyText ↔ x.same y = true := by
  rw [same_iff_canonical]
  constructor
  · exact Outcome.eq_of_read (fun s => read? s.toList) read?_keyText
  · intro h
    rw [keyText_eq, h, ← keyText_eq]

end Binary64

namespace HostData

/-! ## Tagged trees -/

mutual

theorem toTagged_eq_iff :
    ∀ a b : HostData, a.toTagged = b.toTagged ↔ alike Binary64.same a b = true
  | null, b => by cases b <;> simp [toTagged, tag, alike]
  | bool x, b => by cases b <;> simp [toTagged, tag, alike]
  | int n, b => by cases b <;> simp [toTagged, tag, alike, Numeral.ofInt_inj, Int64.toInt_inj]
  | float x, b => by cases b <;> simp [toTagged, tag, alike, Binary64.keyText_eq_iff]
  | str s, b => by cases b <;> simp [toTagged, tag, alike]
  | seq items, b => by
    cases b with
    | seq items' => simpa [toTagged, tag, alike] using itemsToTagged_eq_iff items items'
    | _ => simp [toTagged, tag, alike]
  | mapping entries, b => by
    cases b with
    | mapping entries' => simpa [toTagged, tag, alike] using entriesToTagged_eq_iff entries entries'
    | _ => simp [toTagged, tag, alike]

theorem itemsToTagged_eq_iff :
    ∀ as bs : List HostData,
      itemsToTagged as = itemsToTagged bs ↔ alikeItems Binary64.same as bs = true
  | [], bs => by cases bs <;> simp [itemsToTagged, alikeItems]
  | a :: as, bs => by
    cases bs with
    | nil => simp [itemsToTagged, alikeItems]
    | cons b bs =>
      simp [itemsToTagged, alikeItems, toTagged_eq_iff a b, itemsToTagged_eq_iff as bs]

theorem entriesToTagged_eq_iff :
    ∀ as bs : List (String × HostData),
      entriesToTagged as = entriesToTagged bs ↔ alikeEntries Binary64.same as bs = true
  | [], bs => by cases bs <;> simp [entriesToTagged, alikeEntries]
  | (k, a) :: as, bs => by
    cases bs with
    | nil => simp [entriesToTagged, alikeEntries]
    | cons e bs =>
      simp [entriesToTagged, alikeEntries, toTagged_eq_iff a e.2, entriesToTagged_eq_iff as bs]

end

/-! ## Tagged texts -/

theorem legal_tag (name : String) {body : Json} (h : body.Legal) : (tag name body).Legal :=
  .intro (fun _ h => nomatch h) fun _ hj => List.mem_singleton.mp hj ▸ h

mutual

theorem legal_toTagged : ∀ d : HostData, d.toTagged.Legal
  | null => .of_leaf rfl fun _ h => nomatch h
  | bool _ => legal_tag _ (.of_leaf rfl fun _ h => nomatch h)
  | int _ => legal_tag _ (.of_leaf rfl fun _ h => by
      cases h
      exact ⟨Numeral.legal_ofInt _, Numeral.allowsNumeral_ofInt _⟩)
  | float _ => legal_tag _ (.of_leaf rfl fun _ h => nomatch h)
  | str _ => legal_tag _ (.of_leaf rfl fun _ h => nomatch h)
  | seq items => legal_tag _ (.intro (fun _ h => nomatch h) (legal_itemsToTagged items))
  | mapping entries => legal_tag _ (.intro (fun _ h => nomatch h) (legal_entriesToTagged entries))

theorem legal_itemsToTagged : ∀ items : List HostData, ∀ j ∈ itemsToTagged items, j.Legal
  | [] => fun _ h => nomatch h
  | d :: rest => List.forall_mem_cons.mpr ⟨legal_toTagged d, legal_itemsToTagged rest⟩

theorem legal_entriesToTagged :
    ∀ entries : List (String × HostData), ∀ j ∈ (entriesToTagged entries).map Prod.snd, j.Legal
  | [] => fun _ h => nomatch h
  | (_, d) :: rest => List.forall_mem_cons.mpr ⟨legal_toTagged d, legal_entriesToTagged rest⟩

end

/-- Data have one tagged text exactly if they are equal. -/
theorem taggedText_eq_iff (a b : HostData) :
    a.taggedText = b.taggedText ↔ alike Binary64.same a b = true := by
  rw [← toTagged_eq_iff]
  constructor
  · intro h
    apply Json.text_injective (legal_toTagged a) (legal_toTagged b)
    exact String.ofList_injective h
  · intro h
    rw [taggedText, taggedText, h]

end HostData

end TypedValues
