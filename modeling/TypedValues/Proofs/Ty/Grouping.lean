import TypedValues.Proofs.Ty.Parts

/-!
# Names and grouping

The name of a type does not say how maybes and results in it are grouped: `Int!Str?` is the name of
a result with a maybe as its second arm, and of a maybe of a result. Read from left to right, a
question mark belongs to what stands right before it, and an exclamation mark to all that follows.
The type that a name is read as is the type regrouped in this way (`Ty.readName?_name`). So two
types that are built without declarations have one name exactly if they are one type once they are
regrouped, and the name tells apart types that are grouped as they are read
(`Ty.name_eq_iff_regrouped`).
-/

namespace TypedValues

/-- The characters that put the names of parts together. -/
def TypeName.isMark (c : Char) : Bool := c = '[' || c = ']' || c = ':' || c = '?' || c = '!'

/-- A fixed word is looked through for marks by evaluation. -/
theorem TypeName.isMark_eq_false {word : List Char} (h : word.any isMark = false) :
    ∀ c ∈ word, isMark c = false := by
  simpa using h

namespace Ty

/-- Built without declarations: of primitive types and open parameters by lists, maps, maybes and
results. The names of the parameters are free of marks, as names of letters are. -/
def Anonymous : Ty → Prop
  | prim _ => True
  | var _ name => ∀ c ∈ name.toList, TypeName.isMark c = false
  | list _ t | maybe _ t => t.Anonymous
  | map _ t u | result _ t u => t.Anonymous ∧ u.Anonymous
  | struct _ _ _ _ | enum _ _ _ | function _ _ _ _ => False

/-! ## Regrouping -/

/-- The type with a question mark behind its name: in a row of results it goes to the last arm. -/
def asked : Ty → Ty
  | result _ t u => result .blank t u.asked
  | t => maybe .blank t

/-- Two types with an exclamation mark between their names: a row of results goes on in its last
arm. -/
def chained : Ty → Ty → Ty
  | result _ t u, v => result .blank t (u.chained v)
  | t, v => result .blank t v

/-- The type grouped as its name is read, without stamps. -/
def regrouped : Ty → Ty
  | list _ t => list .blank t.regrouped
  | map _ t u => map .blank t.regrouped u.regrouped
  | maybe _ t => t.regrouped.asked
  | result _ t u => t.regrouped.chained u.regrouped
  | t => t.restamp .blank

/-- Grouped as names are read: nothing that a mark is put behind is a result. -/
def Grouped : Ty → Prop
  | list _ t => t.Grouped
  | map _ t u => t.Grouped ∧ u.Grouped
  | maybe _ t => t.isResult = false ∧ t.Grouped
  | result _ t u => t.isResult = false ∧ t.Grouped ∧ u.Grouped
  | _ => True

variable {t u v : Ty}

theorem isResult_eq_false (h : ∀ s u v, t = result s u v → False) : t.isResult = false := by
  cases t with
  | result s u v => exact (h s u v rfl).elim
  | _ => rfl

theorem asked_of_isResult_eq_false (h : t.isResult = false) : t.asked = maybe .blank t := by
  cases t with
  | result => contradiction
  | _ => rfl

theorem chained_of_isResult_eq_false (h : t.isResult = false) :
    t.chained u = result .blank t u := by
  cases t with
  | result => contradiction
  | _ => rfl

/-- A question mark behind a row goes to the part that was put behind. -/
theorem asked_chained (t u : Ty) : (t.chained u).asked = t.chained u.asked := by
  fun_induction chained t u with
  | case1 _ t u v ih => rw [asked, chained, ih]
  | case2 t v h => rw [asked, chained_of_isResult_eq_false (isResult_eq_false h)]

/-- It does not matter in which order a row is put together. -/
theorem chained_chained (t u v : Ty) : (t.chained u).chained v = t.chained (u.chained v) := by
  fun_induction chained t u with
  | case1 _ t u w ih => rw [chained, chained, ih]
  | case2 t w h => rw [chained, chained_of_isResult_eq_false (isResult_eq_false h)]

theorem Grouped.asked (h : t.Grouped) : t.asked.Grouped := by
  fun_induction Ty.asked t with
  | case1 _ t u ih => exact ⟨h.1, h.2.1, ih h.2.2⟩
  | case2 t hresult => exact ⟨isResult_eq_false hresult, h⟩

theorem Grouped.chained (ht : t.Grouped) (hu : u.Grouped) : (t.chained u).Grouped := by
  fun_induction Ty.chained t u with
  | case1 _ t u v ih => exact ⟨ht.1, ht.2.1, ih ht.2.2 hu⟩
  | case2 t v hresult => exact ⟨isResult_eq_false hresult, ht, hu⟩

theorem grouped_regrouped (t : Ty) : t.regrouped.Grouped := by
  induction t using Ty.induction with
  | step t ih =>
    cases t with
    | prim | var | struct | enum | function => trivial
    | list _ t => exact ih t (by simp [parts])
    | map _ t u => exact ⟨ih t (by simp [parts]), ih u (by simp [parts])⟩
    | maybe _ t => exact (ih t (by simp [parts])).asked
    | result _ t u => exact (ih t (by simp [parts])).chained (ih u (by simp [parts]))

/-- A type that is grouped as it is read stays as it is. -/
theorem regrouped_of_grouped (ht : t.Anonymous) (h : t.Grouped) : t.regrouped = t.bare := by
  induction t using Ty.induction with
  | step t ih =>
    cases t with
    | prim | var => rfl
    | struct | enum | function => exact ht.elim
    | list _ t => rw [regrouped, bare, ih t (by simp [parts]) ht h]
    | map _ t u =>
      rw [regrouped, bare, ih t (by simp [parts]) ht.1 h.1, ih u (by simp [parts]) ht.2 h.2]
    | maybe _ t =>
      have hresult : t.bare.isResult = false := by rw [isResult_bare, h.1]
      rw [regrouped, bare, ih t (by simp [parts]) ht h.2, asked_of_isResult_eq_false hresult]
    | result _ t u =>
      have hresult : t.bare.isResult = false := by rw [isResult_bare, h.1]
      rw [regrouped, bare, ih t (by simp [parts]) ht.1 h.2.1, ih u (by simp [parts]) ht.2 h.2.2,
        chained_of_isResult_eq_false hresult]

/-! ## Regrouping keeps the name -/

theorem name_asked (t : Ty) : t.asked.name = TypeName.maybe t.name := by
  fun_induction asked t with
  | case1 _ t u ih => simp [ih, TypeName.result, TypeName.maybe, String.append_assoc]
  | case2 t => simp

theorem name_chained (t u : Ty) : (t.chained u).name = TypeName.result t.name u.name := by
  fun_induction chained t u with
  | case1 _ t u v ih => simp [ih, TypeName.result, String.append_assoc]
  | case2 t v => simp

theorem name_regrouped (t : Ty) : t.regrouped.name = t.name := by
  induction t using Ty.induction with
  | step t ih =>
    cases t with
    | prim | var | struct | enum | function => simp [regrouped, restamp]
    | list _ t => simp [regrouped, ih t (by simp [parts])]
    | map _ t u => simp [regrouped, ih t (by simp [parts]), ih u (by simp [parts])]
    | maybe _ t => simp [regrouped, name_asked, ih t (by simp [parts])]
    | result _ t u =>
      simp [regrouped, name_chained, ih t (by simp [parts]), ih u (by simp [parts])]

end Ty

/-! ## Reading names -/

namespace NameReading

/-- A bracket that is open. What stands before it, up to the bracket around it, ends in an
exclamation mark. -/
inductive Bracket where
  | first (before : Option Ty)
  /-- After a colon. -/
  | second (before : Option Ty) (key : Ty)

/-- Where in the innermost bracket the reading is. -/
inductive Spot where
  /-- Where a part starts, after those before it. -/
  | start (before : Option Ty)
  /-- In a word, after the parts before it. -/
  | word (before : Option Ty) (chars : List Char)
  /-- After a part. -/
  | done (t : Ty)

end NameReading

/-- A reading of a name between two characters. -/
structure NameReading where
  opened : List NameReading.Bracket
  spot : NameReading.Spot

namespace NameReading

variable {opened : List Bracket} {before : Option Ty} {word rest : List Char} {t u : Ty}

/-- A part after those before it. -/
def following : Option Ty → Ty → Ty
  | none, t => t
  | some u, t => u.chained t

/-- The primitive type or the open parameter of a name. -/
def ofWord? (word : List Char) : Option Ty :=
  match word with
  | '$' :: name => some (.var .blank (String.ofList name))
  | _ =>
    ([.void, .str, .int, .float, .bool, .dynamic].find? fun p : Primitive =>
      p.name.toList == word).map .prim

/-- Takes a mark after a part. -/
def mark (opened : List Bracket) (t : Ty) : Char → Option NameReading
  | '?' => some ⟨opened, .done t.asked⟩
  | '!' => some ⟨opened, .start (some t)⟩
  | ':' =>
    match opened with
    | .first before :: rest => some ⟨.second before t :: rest, .start none⟩
    | _ => none
  | ']' =>
    match opened with
    | .first before :: rest => some ⟨rest, .done (following before (.list .blank t))⟩
    | .second before key :: rest => some ⟨rest, .done (following before (.map .blank key t))⟩
    | [] => none
  | _ => none

/-- Takes a character. A word goes on up to the next mark. -/
def step (r : NameReading) (c : Char) : Option NameReading :=
  match r.spot with
  | .start before =>
    if c = '[' then some ⟨.first before :: r.opened, .start none⟩
    else if TypeName.isMark c then none
    else some ⟨r.opened, .word before [c]⟩
  | .word before chars =>
    if TypeName.isMark c then (ofWord? chars).bind fun t => mark r.opened (following before t) c
    else some ⟨r.opened, .word before (chars ++ [c])⟩
  | .done t => mark r.opened t c

def result? (r : NameReading) : Option Ty :=
  match r.opened, r.spot with
  | [], .word before chars => (ofWord? chars).map (following before)
  | [], .done t => some t
  | _, _ => none

/-- The type that is read in the end, after what is left of the name. -/
def finish (r : NameReading) (text : List Char) : Option Ty := (text.foldlM step r).bind result?

theorem finish_cons {r s : NameReading} {c : Char} (h : r.step c = some s) (text : List Char) :
    r.finish (c :: text) = s.finish text := by
  rw [finish, List.foldlM_cons, h]
  rfl

/-! ## Words -/

theorem finish_word_append (hword : ∀ c ∈ word, TypeName.isMark c = false) (read : List Char) :
    finish ⟨opened, .word before read⟩ (word ++ rest) =
      finish ⟨opened, .word before (read ++ word)⟩ rest := by
  induction word generalizing read with
  | nil => rw [List.nil_append, List.append_nil]
  | cons c word ih =>
    obtain ⟨hc, hword⟩ := List.forall_mem_cons.mp hword
    have hstep : step ⟨opened, .word before read⟩ c =
        some ⟨opened, .word before (read ++ [c])⟩ := by
      simp [step, hc]
    rw [List.cons_append, finish_cons hstep, ih hword, List.append_assoc, List.singleton_append]

/-- A word is over where a mark comes, or nothing. -/
theorem finish_word (ht : ofWord? word = some t) (hrest : ∀ c ∈ rest.head?, TypeName.isMark c) :
    finish ⟨opened, .word before word⟩ rest = finish ⟨opened, .done (following before t)⟩ rest := by
  cases rest with
  | nil =>
    cases opened with
    | nil => simp [finish, result?, ht]
    | cons => rfl
  | cons c rest =>
    have hc : TypeName.isMark c = true := hrest c rfl
    have hstep : step ⟨opened, .word before word⟩ c =
        step ⟨opened, .done (following before t)⟩ c := by
      simp [step, hc, ht]
    rw [finish, finish, List.foldlM_cons, List.foldlM_cons, hstep]

/-- Where a part may start, a word is read as its type. -/
theorem finish_start (ht : ofWord? word = some t) (hword : ∀ c ∈ word, TypeName.isMark c = false)
    (hrest : ∀ c ∈ rest.head?, TypeName.isMark c) :
    finish ⟨opened, .start before⟩ (word ++ rest) =
      finish ⟨opened, .done (following before t)⟩ rest := by
  cases word with
  | nil => contradiction
  | cons c word =>
    obtain ⟨hc, hword⟩ := List.forall_mem_cons.mp hword
    have hbracket : c ≠ '[' := by
      rintro rfl
      contradiction
    have hstep : step ⟨opened, .start before⟩ c = some ⟨opened, .word before [c]⟩ := by
      simp [step, hc, hbracket]
    rw [List.cons_append, finish_cons hstep, finish_word_append hword]
    exact finish_word ht hrest

/-! ## Whole names -/

theorem asked_following (before : Option Ty) (t : Ty) :
    (following before t).asked = following before t.asked := by
  cases before with
  | none => rfl
  | some u => exact u.asked_chained t

theorem chained_following (before : Option Ty) (t u : Ty) :
    (following before t).chained u = following before (t.chained u) := by
  cases before with
  | none => rfl
  | some v => exact v.chained_chained t u

/-- Where a part may start, the name of a type is read as the type regrouped, whatever stands
before it and whichever mark comes next. -/
theorem finish_name (ht : t.Anonymous) (opened : List Bracket) (before : Option Ty)
    (hrest : ∀ c ∈ rest.head?, TypeName.isMark c) :
    finish ⟨opened, .start before⟩ (t.name.toList ++ rest) =
      finish ⟨opened, .done (following before t.regrouped)⟩ rest := by
  induction t using Ty.induction generalizing opened before rest with
  | step t ih =>
    cases t with
    | struct | enum | function => exact ht.elim
    | prim p =>
      rw [Ty.name_prim]
      cases p <;> exact finish_start rfl (TypeName.isMark_eq_false rfl) hrest
    | var s name =>
      have hname : (Ty.var s name).name.toList = '$' :: name.toList := by
        simp [TypeName.var, TypeName.genericMark]
      have hword : ofWord? ('$' :: name.toList) = some (.var .blank name) := by simp [ofWord?]
      rw [hname]
      exact finish_start hword (List.forall_mem_cons.mpr ⟨rfl, ht⟩) hrest
    | list s t =>
      have hname : (Ty.list s t).name.toList ++ rest = '[' :: (t.name.toList ++ ']' :: rest) := by
        simp [TypeName.list]
      -- the bracket keeps what stands before it until it is closed
      rw [hname, finish_cons (s := ⟨.first before :: opened, .start none⟩) rfl,
        ih t (by simp [Ty.parts]) ht _ _ (by simp [TypeName.isMark])]
      exact finish_cons rfl rest
    | map s t u =>
      have hname : (Ty.map s t u).name.toList ++ rest =
          '[' :: (t.name.toList ++ ':' :: (u.name.toList ++ ']' :: rest)) := by
        simp [TypeName.map]
      rw [hname, finish_cons (s := ⟨.first before :: opened, .start none⟩) rfl,
        ih t (by simp [Ty.parts]) ht.1 _ _ (by simp [TypeName.isMark]),
        finish_cons (s := ⟨.second before t.regrouped :: opened, .start none⟩) rfl,
        ih u (by simp [Ty.parts]) ht.2 _ _ (by simp [TypeName.isMark])]
      exact finish_cons rfl rest
    -- the mark goes to the last arm of a row of results, and in a result the row goes on
    | maybe s t =>
      have hname : (Ty.maybe s t).name.toList ++ rest = t.name.toList ++ '?' :: rest := by
        simp [TypeName.maybe]
      rw [hname, ih t (by simp [Ty.parts]) ht _ _ (by simp [TypeName.isMark]), finish_cons rfl,
        asked_following]
      rfl
    | result s t u =>
      have hname : (Ty.result s t u).name.toList ++ rest =
          t.name.toList ++ '!' :: (u.name.toList ++ rest) := by
        simp [TypeName.result]
      rw [hname, ih t (by simp [Ty.parts]) ht.1 _ _ (by simp [TypeName.isMark]), finish_cons rfl,
        ih u (by simp [Ty.parts]) ht.2 _ _ hrest, following, chained_following]
      rfl

end NameReading

namespace Ty

variable {t u : Ty}

/-- Reads a whole name. -/
def readName? (name : String) : Option Ty := NameReading.finish ⟨[], .start none⟩ name.toList

/-- A name is read as the type regrouped. -/
theorem readName?_name (ht : t.Anonymous) : readName? t.name = some t.regrouped := by
  have h : NameReading.finish ⟨[], .start none⟩ (t.name.toList ++ []) =
      NameReading.finish ⟨[], .done t.regrouped⟩ [] := NameReading.finish_name ht [] none nofun
  rw [List.append_nil] at h
  exact h

/-- Types built without declarations have one name exactly if they are one type once they are
regrouped, which keeps the name. So of the types of one name one is grouped as it is read: if both
are, they have one name exactly if they are equal. -/
theorem name_eq_iff_regrouped (ht : t.Anonymous) (hu : u.Anonymous) :
    (t.name = u.name ↔ t.regrouped = u.regrouped) ∧
      (t.regrouped.Grouped ∧ t.regrouped.name = t.name) ∧
      (t.Grouped → u.Grouped → (t.name = u.name ↔ same t u = true)) := by
  have hname : t.name = u.name ↔ t.regrouped = u.regrouped := by
    constructor
    · intro h
      have hread := readName?_name ht
      rw [h, readName?_name hu] at hread
      exact (Option.some.inj hread).symm
    · intro h
      rw [← t.name_regrouped, h, u.name_regrouped]
  refine ⟨hname, ⟨t.grouped_regrouped, t.name_regrouped⟩, ?_⟩
  intro hgt hgu
  rw [hname, same_iff_bare, regrouped_of_grouped ht hgt, regrouped_of_grouped hu hgu]

/-- A number or an error that may be missing, and a number or an error, which may be missing. -/
theorem name_missingError :
    let inner : Ty := result .blank int (maybe .blank str)
    let outer : Ty := maybe .blank (result .blank int str)
    inner.Anonymous ∧ outer.Anonymous ∧ inner.name = outer.name ∧ same inner outer = false := by
  intro inner outer
  have hname : inner.name = outer.name := by
    simp [inner, outer, TypeName.result, TypeName.maybe, String.append_assoc]
  exact ⟨⟨trivial, trivial⟩, ⟨trivial, trivial⟩, hname, by simp [inner, outer, same]⟩

/-- Lists of readings in three groupings. The name of the first is that of the second, and not that
of the third. -/
theorem name_readings :
    let first : Ty := list .blank (result .blank int (maybe .blank (var .blank "T")))
    let second : Ty := list .blank (maybe .blank (result .blank int (var .blank "T")))
    let third : Ty := list .blank (result .blank (maybe .blank int) (var .blank "T"))
    first.Anonymous ∧ second.Anonymous ∧ third.Anonymous ∧ first.Grouped ∧ third.Grouped ∧
      first.regrouped = second.regrouped ∧ first.name = second.name ∧ first.name ≠ third.name := by
  intro first second third
  have hvar : ∀ c ∈ "T".toList, TypeName.isMark c = false := TypeName.isMark_eq_false (by decide)
  have hfirst : first.Anonymous := ⟨trivial, hvar⟩
  have hsecond : second.Anonymous := ⟨trivial, hvar⟩
  have hthird : third.Anonymous := ⟨trivial, hvar⟩
  have hgrouped : first.Grouped ∧ third.Grouped :=
    ⟨⟨rfl, trivial, rfl, trivial⟩, ⟨rfl, ⟨rfl, trivial⟩, trivial⟩⟩
  have hregrouped : first.regrouped = second.regrouped := rfl
  refine ⟨hfirst, hsecond, hthird, hgrouped.1, hgrouped.2, hregrouped, ?_, ?_⟩
  · exact (name_eq_iff_regrouped hfirst hsecond).1.mpr hregrouped
  · rw [ne_eq, (name_eq_iff_regrouped hfirst hthird).2.2 hgrouped.1 hgrouped.2]
    simp [first, third, same]

end Ty

end TypedValues
