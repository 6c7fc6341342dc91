import TypedValues.Proofs.Ty.Handles
import TypedValues.Proofs.Ty.Marks

/-!
# One substitution after another

Substituting twice is substituting once, under bindings to which the second substitution has been
applied (`Bindings.andThen`): the results are equal, and are one node if the table holds what goes
in (`Ty.substitute_substitute`). What is bound first may have parameters of its own, those that are
bound included.
-/

namespace TypedValues

/-! ## Bindings after bindings -/

namespace Bindings

/-- What stands for a parameter after both substitutions, without a table. -/
def followedBy (first second : Bindings) : Bindings :=
  first.map (fun e => (e.1, e.2.instantiate second)) ++ second

/-- The bindings of two substitutions, one after the other: what is bound first is substituted in
and what is bound only second stays. -/
def andThen (first second : Bindings) : Interning Bindings := do
  let bound ← first.mapM fun e => do pure (e.1, ← e.2.substitute second)
  pure (bound ++ second)

end Bindings

namespace Ty

theorem find?_followedBy (n : String) (first second : Bindings) :
    (first.followedBy second).find? n =
      ((first.find? n).map (instantiate second)).or (second.find? n) := by
  rw [Bindings.followedBy, Dict.find?_append]
  rw [Dict.find?_map (fun _ u => instantiate second u)]

/-- By induction on the type. -/
theorem instantiate_instantiate (first second : Bindings) (t : Ty) :
    (t.instantiate first).instantiate second = t.instantiate (first.followedBy second) := by
  induction t using induction_on_parts with
  | param s n =>
    rw [instantiate, instantiate, find?_followedBy]
    cases first.find? n with
    | none => rfl
    | some u => rfl
  | node t hvar ih =>
    rw [instantiate_eq_mapParts first hvar, instantiate_eq_mapParts _ hvar,
      instantiate_eq_mapParts second (isVar_mapParts t ▸ hvar), mapParts_mapParts]
    exact mapParts_congr ih

/-! ## Instances up to stamps -/

theorem bare_instantiate_bare (bindings : Bindings) (t : Ty) :
    (t.bare.instantiate bindings).bare = (t.instantiate bindings).bare := by
  induction t using induction_on_parts with
  | param s n =>
    rw [bare, instantiate, instantiate]
    cases bindings.find? n <;> rfl
  | node t hvar ih =>
    have hbare : t.bare.isVar = false := isVar_bare t ▸ hvar
    rw [instantiate_eq_mapParts bindings hbare, instantiate_eq_mapParts bindings hvar,
      bare_eq_mapParts t, mapParts_restamp, bare_restamp, mapParts_mapParts]
    exact bare_mapParts_congr ih

/-- Equal types have equal instances. -/
theorem bare_instantiate_congr {t u : Ty} (bindings : Bindings) (h : t.bare = u.bare) :
    (t.instantiate bindings).bare = (u.instantiate bindings).bare := by
  rw [← bare_instantiate_bare, h, bare_instantiate_bare]

/-- Bindings to equal types give equal instances. -/
theorem bare_instantiate_congr_bindings {s s' : Bindings}
    (h : ∀ n, (s.find? n).map bare = (s'.find? n).map bare) (t : Ty) :
    (t.instantiate s).bare = (t.instantiate s').bare := by
  induction t using induction_on_parts with
  | param st n =>
    have hgetD (o : Option Ty) : (o.getD (var st n)).bare = (o.map bare).getD (var .blank n) := by
      cases o <;> rfl
    rw [instantiate, instantiate, hgetD, hgetD, h n]
  | node t hvar ih =>
    rw [instantiate_eq_mapParts s hvar, instantiate_eq_mapParts s' hvar]
    exact bare_mapParts_congr ih

end Ty

/-! ## Bindings through a table -/

namespace Bindings

open Interning Ty

variable {first second : Bindings} {interner : Interner}

theorem andThen_cons (e : String × Ty) (rest second : Bindings) :
    andThen (e :: rest) second = e.2.substitute second >>= fun u =>
      andThen rest second >>= fun bound => pure ((e.1, u) :: bound) := by
  rw [andThen, List.mapM_cons]
  rfl

theorem adds_andThen (first second : Bindings) :
    (andThen first second).Adds {b | ∃ e ∈ first, b ∈ e.2.rebuilt second} := by
  induction first with
  | nil => exact (adds_pure second).of_eq (by simp)
  | cons e rest ih =>
    rw [andThen_cons]
    refine ((adds_substitute second e.2).bind fun _ => ih.bind fun _ => adds_pure _).of_eq ?_
    ext b
    simp

/-- Whatever the table, a parameter is bound to what it is bound to after both substitutions. -/
theorem find?_andThen (n : String) (first second : Bindings) (interner : Interner) :
    ((andThen first second interner).1.find? n).map bare =
      ((first.followedBy second).find? n).map bare := by
  induction first generalizing interner with
  | nil => rfl
  | cons e rest ih =>
    obtain ⟨m, u⟩ := e
    rw [andThen_cons]
    show (Dict.find? n ((m, _) :: _)).map bare = (Dict.find? n ((m, _) :: _)).map bare
    rw [Dict.find?_cons, Dict.find?_cons]
    split
    · rw [Option.map_some, Option.map_some, bare_substitute]
    · exact ih _

/-- A table that holds what is bound holds what is bound after both substitutions. -/
theorem holds_andThen (hfirst : ∀ e ∈ first, interner.Holds e.2)
    (hsecond : ∀ e ∈ second, interner.Holds e.2) :
    ∀ e ∈ (andThen first second interner).1, (andThen first second interner).2.Holds e.2 := by
  induction first generalizing interner with
  | nil => exact hsecond
  | cons e rest ih =>
    have hgrows := adds_substitute second e.2 interner
    obtain ⟨he, hrest⟩ := List.forall_mem_cons.mp hfirst
    rw [andThen_cons]
    refine List.forall_mem_cons.mpr ⟨?_, ?_⟩
    · exact (holds_substitute he hsecond).mono (adds_andThen rest second _)
    · apply ih
      · intro e he
        exact (hrest e he).mono hgrows
      · intro e he
        exact (hsecond e he).mono hgrows

end Bindings

namespace Ty

open Interner

/-- Whatever the tables, substituting twice gives what substituting once gives. -/
theorem bare_substitute_substitute (t : Ty) (first second : Bindings) (a b c d : Interner) :
    ((t.substitute first a).1.substitute second b).1.bare =
      (t.substitute (first.andThen second c).1 d).1.bare := by
  have hboth (n : String) := Bindings.find?_andThen n first second c
  calc ((t.substitute first a).1.substitute second b).1.bare
      = ((t.substitute first a).1.instantiate second).bare := bare_substitute second _ b
    _ = ((t.instantiate first).instantiate second).bare :=
        bare_instantiate_congr second (bare_substitute first t a)
    _ = (t.instantiate (first.followedBy second)).bare := by rw [instantiate_instantiate]
    _ = (t.instantiate (first.andThen second c).1).bare :=
        (bare_instantiate_congr_bindings hboth t).symm
    _ = (t.substitute (first.andThen second c).1 d).1.bare := (bare_substitute _ t d).symm

/-- In one table that holds what goes in, the two results are one node: each substitution leaves in
the table what the next one needs. -/
theorem sameNode_substitute_substitute {t : Ty} {first second : Bindings} {interner : Interner}
    (hconsed : interner.Consed) (ht : interner.Holds t)
    (hbound : ∀ e ∈ first ++ second, interner.Holds e.2) :
    let once := t.substitute first interner
    let twice := once.1.substitute second once.2
    let both := first.andThen second twice.2
    twice.1.sameNode (t.substitute both.1 both.2).1 = true := by
  intro once twice both
  obtain ⟨hfirst, hsecond⟩ := List.forall_mem_append.mp hbound
  -- the table of each computation is the one that the computation before it left
  have hgrows₁ := adds_substitute first t interner
  have hgrows₂ := adds_substitute second once.1 once.2
  have hgrows₃ := Bindings.adds_andThen first second twice.2
  have hgrows₄ := adds_substitute both.1 t both.2
  have hkept {u : Ty} (hu : interner.Holds u) : twice.2.Holds u := (hu.mono hgrows₁).mono hgrows₂
  have honce : once.2.Holds once.1 := holds_substitute ht hfirst
  have htwice : twice.2.Holds twice.1 := by
    apply holds_substitute honce
    intro e he
    exact (hsecond e he).mono hgrows₁
  have hboth : ∀ e ∈ both.1, both.2.Holds e.2 := by
    apply Bindings.holds_andThen
    · exact fun e he => hkept (hfirst e he)
    · exact fun e he => hkept (hsecond e he)
  have hdirect := holds_substitute ((hkept ht).mono hgrows₃) hboth
  have hend := hgrows₄.consed (hgrows₃.consed (hgrows₂.consed (hgrows₁.consed hconsed)))
  rw [hend.sameNode_iff ((htwice.mono hgrows₃).mono hgrows₄) hdirect, same_iff_bare]
  exact bare_substitute_substitute t first second interner once.2 twice.2 both.2

/-- Substituting twice gives what substituting once gives under the bindings of both, whatever the
table was filled with, and the very node if the table held the type and all that is bound. The
result has the names in the type that are not bound, and those in what the others are bound to, and
the trait of an open type exactly if there is one. -/
theorem substitute_substitute (table : Nat) (calls : List Call) (t : Ty) (first second : Bindings) :
    let filled := (runAll calls (empty table)).2
    let once := t.substitute first filled
    let twice := once.1.substitute second once.2
    let both := first.andThen second twice.2
    let direct := t.substitute both.1 both.2
    twice.1.same direct.1 = true ∧
      (filled.Holds t → (∀ e ∈ first ++ second, filled.Holds e.2) →
        twice.1.sameNode direct.1 = true) ∧
      ∀ result ∈ [twice.1, direct.1], result.openNames = namesAfter both.1 t.openNames ∧
        (result.traits.hasVar = true ↔ (namesAfter both.1 t.openNames).Nonempty) := by
  intro filled once twice both direct
  have hequal : twice.1.bare = direct.1.bare :=
    bare_substitute_substitute t first second filled once.2 twice.2 both.2
  have hconsed : filled.Consed := (adds_runAll calls _).consed (consed_empty table)
  refine ⟨(same_iff_bare _ _).mpr hequal, sameNode_substitute_substitute hconsed, ?_⟩
  intro result hresult
  have hbare : result.bare = (t.instantiate both.1).bare := by
    rw [← bare_substitute both.1 t both.2]
    rcases List.mem_pair.mp hresult with rfl | rfl
    · exact hequal
    · rfl
  have hnames : result.openNames = namesAfter both.1 t.openNames := by
    rw [openNames_congr hbare, openNames_instantiate]
  refine ⟨hnames, ?_⟩
  rw [hasVar_traits, hasVar_iff_openNames, hnames]

/-- The parameter is bound to the list of itself and then to an integer: substituting twice and
once give one node, the list of the list of integers. -/
theorem substitute_substitute_openList :
    let filled := (runAll [.var "T", .list openItem] (empty 0)).2
    let once := openList.substitute [("T", openList)] filled
    let twice := once.1.substitute [("T", int)] once.2
    let both := Bindings.andThen [("T", openList)] [("T", int)] twice.2
    let direct := openList.substitute both.1 both.2
    filled.Holds openList ∧
      (∀ e ∈ [("T", openList)] ++ [("T", int)], filled.Holds e.2) ∧
      twice.1.sameNode direct.1 = true ∧
      twice.1.bare = list .blank (list .blank int) := by
  intro filled once twice both direct
  have hfilled : filled = ⟨0, [openList, openItem]⟩ := congrArg Prod.snd runAll_openList
  have hlist : filled.Holds openList := by
    rw [hfilled, holds_iff]
    exact .inr List.mem_cons_self
  have hbound : ∀ e ∈ [("T", openList)] ++ [("T", int)], filled.Holds e.2 := by
    have hint : filled.Holds int := holds_iff.mpr (.inl rfl)
    exact List.forall_mem_cons.mpr ⟨hlist, List.forall_mem_singleton.mpr hint⟩
  have hresult : twice.1.bare = list .blank (list .blank int) := by
    calc twice.1.bare
        = (once.1.instantiate [("T", int)]).bare := bare_substitute _ once.1 once.2
      _ = ((openList.instantiate [("T", openList)]).instantiate [("T", int)]).bare :=
          bare_instantiate_congr _ (bare_substitute _ openList filled)
      _ = list .blank (list .blank int) := rfl
  exact ⟨hlist, hbound, (substitute_substitute 0 [.var "T", .list openItem] openList
    [("T", openList)] [("T", int)]).2.1 hlist hbound, hresult⟩

end Ty

end TypedValues
