import TypedValues.Json.Reader
import TypedValues.Proofs.Json.Scanner

/-!
# JSON trees read back

A tree is put together again from its tokens, if it does not nest deeper than the limit
(`Json.ofTokens?_emit`). So a text that trees are written as belongs to one tree only
(`Json.text_injective`).
-/

namespace TypedValues.Json

/-! ## Depth -/

mutual

/-- How many containers of a tree are inside one another at most. -/
def depth : Json → Nat
  | arr items => itemsDepth items + 1
  | obj members => membersDepth members + 1
  | _ => 0

def itemsDepth : List Json → Nat
  | [] => 0
  | j :: rest => max j.depth (itemsDepth rest)

def membersDepth : List (String × Json) → Nat
  | [] => 0
  | (_, j) :: rest => max j.depth (membersDepth rest)

end

/-! ## Reading -/

variable {limit : Nat} {waiting : List Frame} {rest : List Token}

/-- The tree that is read from the tokens that are left. -/
def Reading.finish (limit : Nat) (r : Reading) (tokens : List Token) : Option Json :=
  (tokens.foldlM (step limit) r).bind result?

theorem Reading.finish_cons {r s : Reading} {t : Token} (h : r.step limit t = some s)
    (tokens : List Token) : r.finish limit (t :: tokens) = s.finish limit tokens := by
  rw [finish, List.foldlM_cons, h]
  rfl

/-- Where a value may come, the tokens of a tree are read as the tree. -/
def ReadsBack (limit : Nat) (j : Json) : Prop :=
  ∀ waiting rest, waiting.length + j.depth ≤ limit →
    Reading.finish limit ⟨waiting, .value⟩ (j.emit rest) =
      (Reading.attach waiting j).finish limit rest

theorem ReadsBack.item {j : Json} (h : ReadsBack limit j) (before : List Json)
    (hdepth : waiting.length + (j.depth + 1) ≤ limit) :
    Reading.finish limit ⟨.item before :: waiting, .value⟩ (j.emit rest) =
      Reading.finish limit ⟨waiting, .afterItem (before ++ [j])⟩ rest :=
  h (.item before :: waiting) rest (by rw [List.length_cons]; omega)

theorem ReadsBack.member {j : Json} (h : ReadsBack limit j) (before : List (String × Json))
    (name : String) (hdepth : waiting.length + (j.depth + 1) ≤ limit) :
    Reading.finish limit ⟨waiting, .nextName before⟩ (.str name :: .colon :: j.emit rest) =
      Reading.finish limit ⟨waiting, .afterMember (before ++ [(name, j)])⟩ rest := by
  have hname : Reading.step limit ⟨waiting, .nextName before⟩ (.str name) =
      some ⟨waiting, .afterName before name⟩ := rfl
  have hcolon : Reading.step limit ⟨waiting, .afterName before name⟩ .colon =
      some ⟨.member before name :: waiting, .value⟩ := rfl
  rw [Reading.finish_cons hname, Reading.finish_cons hcolon]
  exact h (.member before name :: waiting) rest (by rw [List.length_cons]; omega)

theorem finish_firstItem (j : Json) (items : List Json) :
    Reading.finish limit ⟨waiting, .firstItem⟩ (emitItems (j :: items) rest) =
      Reading.finish limit ⟨.item [] :: waiting, .value⟩ (emitItems (j :: items) rest) := by
  cases items <;> cases j <;> rfl

theorem finish_firstName (m : String × Json) (members : List (String × Json)) :
    Reading.finish limit ⟨waiting, .firstName⟩ (emitMembers (m :: members) rest) =
      Reading.finish limit ⟨waiting, .nextName []⟩ (emitMembers (m :: members) rest) := by
  cases members <;> rfl

/-- The items of an array that are left are put behind those read before. -/
theorem finish_items {items : List Json} (j : Json) (before : List Json)
    (hitems : ∀ k ∈ j :: items, ReadsBack limit k)
    (hdepth : waiting.length + (itemsDepth (j :: items) + 1) ≤ limit) :
    Reading.finish limit ⟨.item before :: waiting, .value⟩
        (emitItems (j :: items) (.closeBracket :: rest)) =
      (Reading.attach waiting (.arr (before ++ j :: items))).finish limit rest := by
  induction items generalizing j before with
  | nil =>
    rw [itemsDepth, itemsDepth] at hdepth
    rw [emitItems, (hitems j (by simp)).item before (by omega)]
    exact Reading.finish_cons rfl rest
  | cons k items ih =>
    obtain ⟨hj, hrest⟩ := List.forall_mem_cons.mp hitems
    rw [itemsDepth] at hdepth
    have hcomma : Reading.step limit ⟨waiting, .afterItem (before ++ [j])⟩ .comma =
        some ⟨.item (before ++ [j]) :: waiting, .value⟩ := rfl
    rw [emitItems, hj.item before (by omega), Reading.finish_cons hcomma,
      ih k (before ++ [j]) hrest (by omega), List.append_assoc]
    · rfl
    · exact fun h => nomatch h

theorem finish_members {members : List (String × Json)} (m : String × Json)
    (before : List (String × Json)) (hmembers : ∀ k ∈ m :: members, ReadsBack limit k.2)
    (hdepth : waiting.length + (membersDepth (m :: members) + 1) ≤ limit) :
    Reading.finish limit ⟨waiting, .nextName before⟩
        (emitMembers (m :: members) (.closeBrace :: rest)) =
      (Reading.attach waiting (.obj (before ++ m :: members))).finish limit rest := by
  induction members generalizing m before with
  | nil =>
    obtain ⟨name, j⟩ := m
    rw [membersDepth, membersDepth] at hdepth
    have hj : ReadsBack limit j := hmembers (name, j) (by simp)
    rw [emitMembers, hj.member before name (by omega)]
    exact Reading.finish_cons rfl rest
  | cons k members ih =>
    obtain ⟨name, j⟩ := m
    obtain ⟨(hj : ReadsBack limit j), hrest⟩ := List.forall_mem_cons.mp hmembers
    rw [membersDepth] at hdepth
    have hcomma : Reading.step limit ⟨waiting, .afterMember (before ++ [(name, j)])⟩ .comma =
        some ⟨waiting, .nextName (before ++ [(name, j)])⟩ := rfl
    rw [emitMembers, hj.member before name (by omega), Reading.finish_cons hcomma,
      ih k _ hrest (by omega), List.append_assoc]
    · rfl
    · exact fun h => nomatch h

theorem readsBack (limit : Nat) (j : Json) : ReadsBack limit j := by
  induction j using induction with
  | step j ih =>
    intro waiting rest hdepth
    cases j with
    | null | bool | number | str => exact Reading.finish_cons rfl rest
    | arr items =>
      rw [depth] at hdepth
      have hlt : waiting.length < limit := by omega
      have hopen : Reading.step limit ⟨waiting, .value⟩ .openBracket =
          some ⟨waiting, .firstItem⟩ := if_pos hlt
      rw [emit, Reading.finish_cons hopen]
      cases items with
      | nil => exact Reading.finish_cons rfl rest
      | cons j items =>
        rw [finish_firstItem]
        exact finish_items j [] ih hdepth
    | obj members =>
      rw [depth] at hdepth
      have hlt : waiting.length < limit := by omega
      have hopen : Reading.step limit ⟨waiting, .value⟩ .openBrace =
          some ⟨waiting, .firstName⟩ := if_pos hlt
      rw [emit, Reading.finish_cons hopen]
      cases members with
      | nil => exact Reading.finish_cons rfl rest
      | cons m members =>
        rw [finish_firstName]
        exact finish_members m [] (fun k hk => ih k.2 (List.mem_map_of_mem hk)) hdepth

/-- A tree is put together again from its tokens, if it is not too deep. -/
theorem ofTokens?_emit {j : Json} (h : j.depth ≤ limit) : ofTokens? limit (j.emit []) = some j := by
  have hread := readsBack limit j [] [] (by simpa using h)
  rw [ofTokens?]
  exact hread

theorem text_injective {j k : Json} (hj : j.Legal) (hk : k.Legal) (h : j.text = k.text) : j = k := by
  -- the two may be of different depth, but neither is deeper than the deeper one
  have htokens : j.emit [] = k.emit [] := by
    have := tokens?_text hj
    rw [h, tokens?_text hk] at this
    exact (Option.some.inj this).symm
  have hread : ofTokens? (max j.depth k.depth) (j.emit []) = some j := ofTokens?_emit (by omega)
  rw [htokens, ofTokens?_emit (by omega)] at hread
  exact (Option.some.inj hread).symm

end TypedValues.Json
