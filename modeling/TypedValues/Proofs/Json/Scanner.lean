import TypedValues.Dict
import TypedValues.Json.Printer
import TypedValues.Json.Scanner
import TypedValues.Proofs.Everywhere
import TypedValues.Proofs.Numeral

/-!
# JSON texts fall into their tokens

The text of a tree is cut back into the tokens of the tree. A token ends where the next one
starts, except that a numeral and a word go on as long as they can; what is written after them
is always a separator (`Separated`).
-/

namespace TypedValues.Json

/-! ## The parts of a tree -/

def parts : Json → List Json
  | arr items => items
  | obj members => members.map Prod.snd
  | _ => []

theorem sizeOf_lt_of_mem_parts {j k : Json} (h : k ∈ j.parts) : sizeOf k < sizeOf j := by
  cases j with
  | null | bool | number | str => contradiction
  | arr items =>
    have : sizeOf k < sizeOf items := List.sizeOf_lt_of_mem h
    rw [arr.sizeOf_spec]
    omega
  | obj members =>
    obtain ⟨m, hm, rfl⟩ := List.mem_map.mp h
    have := sizeOf_snd_lt_of_mem hm
    rw [obj.sizeOf_spec]
    omega

/-- What holds of a tree whenever it holds of the trees right inside it holds of every tree. -/
theorem induction {motive : Json → Prop} (step : ∀ j, (∀ k ∈ j.parts, motive k) → motive j)
    (j : Json) : motive j :=
  step j fun k _ => induction step k
termination_by sizeOf j
decreasing_by exact sizeOf_lt_of_mem_parts ‹_›

/-- The numerals in the tree are ones that JSON allows. -/
def Legal : Json → Prop :=
  Everywhere parts fun j => ∀ n, j = .number n → n.Legal ∧ allowsNumeral n = true

/-! ## The tokens of a tree -/

mutual

/-- The tokens of a tree in front of others. -/
def emit : Json → List Token → List Token
  | null, after => .null :: after
  | bool b, after => .bool b :: after
  | number n, after => .number n :: after
  | str s, after => .str s :: after
  | arr items, after => .openBracket :: emitItems items (.closeBracket :: after)
  | obj members, after => .openBrace :: emitMembers members (.closeBrace :: after)

def emitItems : List Json → List Token → List Token
  | [], after => after
  | [j], after => emit j after
  | j :: rest, after => emit j (.comma :: emitItems rest after)

def emitMembers : List (String × Json) → List Token → List Token
  | [], after => after
  | [(name, j)], after => .str name :: .colon :: emit j after
  | (name, j) :: rest, after => .str name :: .colon :: emit j (.comma :: emitMembers rest after)

end

/-! ## Scanning -/

namespace Scan

/-- The tokens of what is left of a text, in reverse, after those found so far. -/
def finish (s : Scan) (text : List Char) : Option (List Token) := (text.foldlM step s).bind flush

theorem finish_cons {s s' : Scan} {c : Char} (h : s.step c = some s') (text : List Char) :
    s.finish (c :: text) = s'.finish text := by
  rw [finish, List.foldlM_cons, h]
  rfl

end Scan

/-- A text falls into tokens, whatever stands before it. -/
def Scans (text : List Char) (tokens : List Token) : Prop :=
  ∀ before, Scan.finish ⟨before, .gap⟩ text = some (tokens.reverse ++ before)

/-- A numeral or a word does not go on with this text. -/
def Separated (text : List Char) : Prop :=
  ∀ c ∈ text.head?, isNumeralChar c = false ∧ c.isAlpha = false

theorem tokens?_of_scans {text : List Char} {tokens : List Token} (h : Scans text tokens) :
    tokens? text = some tokens := by
  have htext := h []
  rw [Scan.finish, List.append_nil] at htext
  rw [tokens?, htext, Option.map_some, List.reverse_reverse]

theorem scans_nil : Scans [] [] := fun _ => rfl

variable {text : List Char} {tokens : List Token}

/-- A character that is a token by itself. -/
theorem Scans.punctuation {c : Char} {t : Token}
    (hc : ∀ before, Scan.start before c = some ⟨t :: before, .gap⟩) (h : Scans text tokens) :
    Scans (c :: text) (t :: tokens) := by
  intro before
  have hstep : Scan.step ⟨before, .gap⟩ c = some ⟨t :: before, .gap⟩ := hc before
  rw [Scan.finish_cons hstep, h, List.reverse_cons, List.append_assoc]
  rfl

/-- A lexeme ends in front of a separator. -/
theorem Scan.finish_flush {s : Scan} {t : Token} {before : List Token}
    (hflush : s.flush = some (t :: before))
    (hstep : ∀ c ∈ text.head?, s.step c = s.flush.bind (Scan.start · c)) (h : Scans text tokens) :
    s.finish text = some ((t :: tokens).reverse ++ before) := by
  -- the end of the text ends a lexeme as a separator does
  have hgap : s.finish text = Scan.finish ⟨t :: before, .gap⟩ text := by
    cases text with
    | nil => exact hflush
    | cons c rest =>
      have hc := hstep c rfl
      rw [hflush, Option.bind_some] at hc
      rw [Scan.finish, Scan.finish, List.foldlM_cons, List.foldlM_cons, hc]
      rfl
  rw [hgap, h, List.reverse_cons, List.append_assoc]
  rfl

/-! ### Words -/

theorem Scans.word (chars : List Char) {t : Token} (hword : word? chars = some t)
    (hstart : ∀ before, Scan.finish ⟨before, .gap⟩ (chars ++ text) =
      Scan.finish ⟨before, .word chars.reverse⟩ text)
    (hsep : Separated text) (h : Scans text tokens) : Scans (chars ++ text) (t :: tokens) := by
  intro before
  rw [hstart]
  refine Scan.finish_flush ?_ (fun c hc => if_neg (by simp [(hsep c hc).2])) h
  simp [Scan.flush, hword]

theorem scans_null (hsep : Separated text) (h : Scans text tokens) :
    Scans ('n' :: 'u' :: 'l' :: 'l' :: text) (.null :: tokens) :=
  Scans.word ['n', 'u', 'l', 'l'] rfl (fun _ => rfl) hsep h

theorem scans_bool (b : Bool) (hsep : Separated text) (h : Scans text tokens) :
    Scans ((bool b).write text) (.bool b :: tokens) := by
  cases b with
  | true => exact Scans.word ['t', 'r', 'u', 'e'] rfl (fun _ => rfl) hsep h
  | false => exact Scans.word ['f', 'a', 'l', 's', 'e'] rfl (fun _ => rfl) hsep h

/-! ### Numerals -/

theorem isNumeralChar_of_isDigit {c : Char} (h : c.isDigit = true) : isNumeralChar c = true := by
  simp [isNumeralChar, h]

theorem isNumeralChar_signText (sign : Option Sign) :
    ∀ c ∈ Numeral.signText sign, isNumeralChar c = true := by
  intro c hc
  rcases sign with - | - | -
  · contradiction
  · rw [List.mem_singleton.mp hc]
    decide
  · rw [List.mem_singleton.mp hc]
    decide

theorem isNumeralChar_exponentText (plus : Bool) (e : Option Int) :
    ∀ c ∈ Numeral.exponentText plus e, isNumeralChar c = true := by
  cases e with
  | none =>
    intro c hc
    contradiction
  | some e =>
    rw [Numeral.exponentText_some, List.forall_mem_cons, List.forall_mem_append]
    refine ⟨by decide, isNumeralChar_signText _, ?_⟩
    intro c hc
    exact isNumeralChar_of_isDigit (Numeral.isDigit_toDigits _ c hc)

theorem isNumeralChar_text {n : Numeral} (h : n.Legal) (plus : Bool) :
    ∀ c ∈ n.text plus, isNumeralChar c = true := by
  rw [Numeral.text_eq, Numeral.tailText]
  simp only [List.forall_mem_append]
  refine ⟨isNumeralChar_signText _, ?_, ?_, isNumeralChar_exponentText plus _⟩
  · intro c hc
    exact isNumeralChar_of_isDigit (h.whole c hc)
  · cases hfraction : n.fraction with
    | none =>
      intro c hc
      contradiction
    | some digits =>
      refine List.forall_mem_cons.mpr ⟨by decide, ?_⟩
      intro c hc
      apply isNumeralChar_of_isDigit
      apply h.decimals
      rwa [Numeral.decimals, hfraction]

theorem Scan.finish_numeral {before : List Token} {chars : List Char} (rest : List Char) :
    ∀ taken, (∀ c ∈ chars, isNumeralChar c = true) →
      Scan.finish ⟨before, .numeral taken⟩ (chars ++ rest) =
        Scan.finish ⟨before, .numeral (chars.reverse ++ taken)⟩ rest := by
  induction chars with
  | nil => exact fun _ _ => rfl
  | cons c chars ih =>
    intro taken hchars
    obtain ⟨hc, hchars⟩ := List.forall_mem_cons.mp hchars
    have hstep : Scan.step ⟨before, .numeral taken⟩ c = some ⟨before, .numeral (c :: taken)⟩ :=
      if_pos hc
    rw [List.cons_append, finish_cons hstep, ih _ hchars, List.reverse_cons, List.append_assoc]
    rfl

theorem start_numeral {c : Char} (hc : isNumeralChar c = true) (before : List Token) :
    Scan.start before c = some ⟨before, .numeral [c]⟩ := by
  have hblank : isBlank c = false := by
    apply Bool.eq_false_iff.mpr
    intro hb
    simp only [isBlank, Bool.or_eq_true, decide_eq_true_eq] at hb
    rcases hb with ((rfl | rfl) | rfl) | rfl <;> contradiction
  have hquote : c ≠ '"' := by
    rintro rfl
    contradiction
  rw [Scan.start, if_neg (by simp [hblank]), if_neg hquote, if_pos hc]

theorem scans_number {n : Numeral} (hn : n.Legal) (hallowed : allowsNumeral n = true)
    (hsep : Separated text) (h : Scans text tokens) :
    Scans (n.text true ++ text) (.number n :: tokens) := by
  intro before
  have hchars := isNumeralChar_text hn true
  have hread : numeral? (n.text true) = some (.number n) := by
    rw [numeral?, Numeral.read?_text hn, Option.bind_some, if_pos hallowed]
  cases htext : n.text true with
  | nil =>
    rw [htext] at hread
    contradiction
  | cons c rest =>
    -- the first character opens the numeral, the others go on with it
    rw [htext] at hchars
    obtain ⟨hc, hrest⟩ := List.forall_mem_cons.mp hchars
    have hstep : Scan.step ⟨before, .gap⟩ c = some ⟨before, .numeral [c]⟩ := start_numeral hc before
    rw [List.cons_append, Scan.finish_cons hstep, Scan.finish_numeral text _ hrest]
    refine Scan.finish_flush ?_ (fun c hc => if_neg (by simp [(hsep c hc).1])) h
    simp [Scan.flush, ← htext, hread]

/-! ### Strings -/

theorem hexValue?_hexDigit {n : Nat} (h : n < 16) : hexValue? (hexDigit n) = some n := by
  revert n
  decide

theorem Scan.step_unit (before : List Token) (chars : List Char) (count value : Nat) (c : Char) :
    Scan.step ⟨before, .unit chars none count value⟩ c = (hexValue? c).bind fun digit =>
      if count < 3 then some ⟨before, .unit chars none (count + 1) (value * 16 + digit)⟩
      else (endUnit chars none (value * 16 + digit)).map (⟨before, ·⟩) := rfl

theorem Scan.finish_escapeChar (c : Char) (before : List Token) (chars rest : List Char) :
    Scan.finish ⟨before, .string chars⟩ (escapeChar c ++ rest) =
      Scan.finish ⟨before, .string (c :: chars)⟩ rest := by
  unfold escapeChar
  split
  · next h => subst h; rfl
  split
  · next h => subst h; rfl
  split
  · next h => subst h; rfl
  split
  · next h => subst h; rfl
  split
  · next h => subst h; rfl
  split
  · next h => subst h; rfl
  split
  · next h => subst h; rfl
  split
  · next h =>
    -- a control character is below 32, so that two of its four hexadecimal digits are zeros
    have hhigh : Scan.step ⟨before, .unit chars none 2 0⟩ (hexDigit (c.toNat / 16)) =
        some ⟨before, .unit chars none 3 (0 * 16 + c.toNat / 16)⟩ := by
      rw [step_unit, hexValue?_hexDigit (by omega)]
      rfl
    have hlow : Scan.step ⟨before, .unit chars none 3 (0 * 16 + c.toNat / 16)⟩
        (hexDigit (c.toNat % 16)) = some ⟨before, .string (c :: chars)⟩ := by
      have hvalue : (0 * 16 + c.toNat / 16) * 16 + c.toNat % 16 = c.toNat := by omega
      rw [step_unit, hexValue?_hexDigit (by omega), Option.bind_some, if_neg (by decide), hvalue]
      rw [endUnit, if_neg (by omega), if_neg (by omega), Char.ofNat_toNat]
      rfl
    show Scan.finish ⟨before, .unit chars none 2 0⟩
      (hexDigit (c.toNat / 16) :: hexDigit (c.toNat % 16) :: rest) = _
    rw [finish_cons hhigh, finish_cons hlow]
  · next hquote hslash _ _ _ _ _ hcontrol =>
    refine finish_cons ?_ rest
    simp [Scan.step, hquote, hslash, hcontrol]

theorem Scan.finish_string (before : List Token) (rest : List Char) :
    ∀ text chars : List Char, Scan.finish ⟨before, .string chars⟩ (text.flatMap escapeChar ++ rest) =
      Scan.finish ⟨before, .string (text.reverse ++ chars)⟩ rest := by
  intro text
  induction text with
  | nil => exact fun _ => rfl
  | cons c text ih =>
    intro chars
    rw [List.flatMap_cons, List.append_assoc, finish_escapeChar, ih, List.reverse_cons,
      List.append_assoc]
    rfl

theorem scans_string (s : String) (h : Scans text tokens) :
    Scans (stringText s ++ text) (.str s :: tokens) := by
  intro before
  have hopen : Scan.step ⟨before, .gap⟩ '"' = some ⟨before, .string []⟩ := rfl
  have hclose : Scan.step ⟨before, .string (s.toList.reverse ++ [])⟩ '"' =
      some ⟨.str s :: before, .gap⟩ := by
    simp [Scan.step]
  have htext : stringText s ++ text = '"' :: (s.toList.flatMap escapeChar ++ '"' :: text) := by
    simp [stringText]
  rw [htext, Scan.finish_cons hopen, Scan.finish_string, Scan.finish_cons hclose, h,
    List.reverse_cons, List.append_assoc]
  rfl

/-! ### Trees -/

theorem separated_cons {c : Char} (hc : isNumeralChar c = false ∧ c.isAlpha = false)
    (rest : List Char) : Separated (c :: rest) := by
  intro d hd
  cases hd
  exact hc

/-- The text of a tree in front of a separator falls into the tokens of the tree. -/
def WritesTokens (j : Json) : Prop :=
  ∀ text tokens, Separated text → Scans text tokens → Scans (j.write text) (j.emit tokens)

theorem scans_items {items : List Json} (hitems : ∀ j ∈ items, WritesTokens j)
    (hsep : Separated text) (h : Scans text tokens) :
    Scans (writeItems items text) (emitItems items tokens) := by
  induction items with
  | nil => exact h
  | cons j rest ih =>
    obtain ⟨hj, hrest⟩ := List.forall_mem_cons.mp hitems
    cases rest with
    | nil => exact hj _ _ hsep h
    | cons k rest =>
      exact hj _ _ (separated_cons (by decide) _) (Scans.punctuation (fun _ => rfl) (ih hrest))

theorem scans_members {members : List (String × Json)} (hmembers : ∀ m ∈ members, WritesTokens m.2)
    (hsep : Separated text) (h : Scans text tokens) :
    Scans (writeMembers members text) (emitMembers members tokens) := by
  induction members with
  | nil => exact h
  | cons m rest ih =>
    obtain ⟨name, j⟩ := m
    obtain ⟨hj, hrest⟩ := List.forall_mem_cons.mp hmembers
    cases rest with
    | nil => exact scans_string name (Scans.punctuation (fun _ => rfl) (hj _ _ hsep h))
    | cons m rest =>
      refine scans_string name (Scans.punctuation (fun _ => rfl) ?_)
      exact hj _ _ (separated_cons (by decide) _) (Scans.punctuation (fun _ => rfl) (ih hrest))

theorem writesTokens_of_legal {j : Json} (hj : j.Legal) : WritesTokens j := by
  induction j using induction with
  | step j ih =>
    intro text tokens hsep h
    cases j with
    | null => exact scans_null hsep h
    | bool b => exact scans_bool b hsep h
    | number n =>
      obtain ⟨hn, hallowed⟩ := hj.here n rfl
      exact scans_number hn hallowed hsep h
    | str s => exact scans_string s h
    | arr items =>
      have hitems : ∀ k ∈ items, WritesTokens k := fun k hk => ih k hk (hj.inside k hk)
      exact Scans.punctuation (fun _ => rfl)
        (scans_items hitems (separated_cons (by decide) _) (Scans.punctuation (fun _ => rfl) h))
    | obj members =>
      have hmembers : ∀ m ∈ members, WritesTokens m.2 := fun m hm =>
        ih m.2 (List.mem_map_of_mem hm) (hj.inside m.2 (List.mem_map_of_mem hm))
      exact Scans.punctuation (fun _ => rfl)
        (scans_members hmembers (separated_cons (by decide) _) (Scans.punctuation (fun _ => rfl) h))

/-- The text of a tree is cut back into the tokens of the tree. -/
theorem tokens?_text {j : Json} (hj : j.Legal) : tokens? j.text = some (j.emit []) :=
  tokens?_of_scans (writesTokens_of_legal hj [] [] (fun _ h => nomatch h) scans_nil)

end TypedValues.Json
