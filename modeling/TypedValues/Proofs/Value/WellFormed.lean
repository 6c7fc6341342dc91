import TypedValues.Proofs.Value.Normalization

/-!
# Values of a type

Which values are values of a type (`Value.WellFormed`), with every label spelled out: the recorded
type and its kind, the flags and the origin. Keys are in the spelling that keys are written in, a
maybe is empty or has the contents of an inner value, and a result is a value of one of its arms
with the flag of that arm. Decoding gives such values only, whatever the data
(`Value.wellFormed_of_decode`).
-/

namespace TypedValues

/-- The label of a value that no flag is set on and that comes from no result. -/
def Label.unmarked (t : Ty) (kind : Kind) : Label where
  ty := t
  kind := kind
  name := t.name
  flags := { ok := false, err := false, none := false }
  origin := none

/-- The values of a type. A value of a primitive type, a list, a map, a struct or a member of an
enum has an unmarked label. A filled maybe has the contents of a value of the inner type. An arm of
a result is a value of the type of the arm, with the flags of the arms replaced by its own and the
origin by the result type; it stays an empty maybe if it was one. -/
inductive Value.WellFormed : Ty → Value → Prop
  | str (s : String) : WellFormed .str ⟨.unmarked .str .str, .str s⟩
  | int (n : Int64) : WellFormed .int ⟨.unmarked .int .int, .int n⟩
  | bool (b : Bool) : WellFormed .bool ⟨.unmarked .bool .bool, .bool b⟩
  | float (x : Binary64) : WellFormed .float ⟨.unmarked .float .float, .float x⟩
  | dynamic (d : HostData) : WellFormed .dynamic ⟨.unmarked .dynamic .dynamic, .dynamic d⟩
  | list {s : Stamp} {elem : Ty} {items : List Value} (h : ∀ v ∈ items, WellFormed elem v) :
      WellFormed (.list s elem) ⟨.unmarked (.list s elem) .list, .list items⟩
  | map {s : Stamp} {key value : Ty} {entries : Dict Value} (hasc : entries.Ascending)
      (hkeys : ∀ e ∈ entries, ∃ k, ofKeyText? key e.1 = .ok k ∧ k.keyText key = .ok e.1)
      (hvalues : ∀ e ∈ entries, WellFormed value e.2) :
      WellFormed (.map s key value) ⟨.unmarked (.map s key value) .map, .map entries⟩
  | struct {s : Stamp} {name : String} {args : List Ty} {fields : List (String × Ty)}
      {entries : Dict Value} (hasc : entries.Ascending)
      (hdeclared : ∀ e ∈ entries, e.1 ∈ fields.map Prod.fst)
      (hpresent : ∀ f ∈ fields, f.1 ∈ entries.keys)
      (hfields : ∀ f ∈ fields, ∀ v, entries.find? f.1 = some v → WellFormed f.2 v) :
      WellFormed (.struct s name args fields)
        ⟨.unmarked (.struct s name args fields) .struct, .map entries⟩
  | member {s : Stamp} {name : String} {members : List (String × Int64)}
      {m : String × Int64} (h : m ∈ members) :
      WellFormed (.enum s name members) ⟨.unmarked (.enum s name members) .enum, .int m.2⟩
  | none {s : Stamp} {inner : Ty} :
      WellFormed (.maybe s inner)
        ⟨{ Label.unmarked (.maybe s inner) .maybe with
            flags := { ok := false, err := false, none := true } }, .absent⟩
  | some {s : Stamp} {inner : Ty} {w : Value} (h : WellFormed inner w) :
      WellFormed (.maybe s inner) ⟨.unmarked (.maybe s inner) .maybe, w.payload⟩
  | ok {s : Stamp} {ok err : Ty} {w : Value} (h : WellFormed ok w) :
      WellFormed (.result s ok err)
        ⟨{ w.label with
            flags := { ok := true, err := false, none := w.label.flags.none }
            origin := Option.some (.result s ok err) }, w.payload⟩
  | err {s : Stamp} {ok err : Ty} {w : Value} (h : WellFormed err w) :
      WellFormed (.result s ok err)
        ⟨{ w.label with
            flags := { ok := false, err := true, none := w.label.flags.none }
            origin := Option.some (.result s ok err) }, w.payload⟩

namespace Value

open Outcome

variable {t : Ty} {d : HostData} {v : Value}

/-- A normal form of a type is a value of the type. -/
theorem Normal.wellFormed (h : v.Normal t) : v.WellFormed t := by
  induction h with
  | str s => exact .str s
  | int n => exact .int n
  | bool b => exact .bool b
  | float x => exact .float x
  | dynamic d => exact .dynamic d
  | list _ ih => exact .list ih
  | map hasc hkeys _ ih => exact .map hasc hkeys ih
  | empty => exact .none
  | filled _ _ ih => exact .some ih
  | struct hasc hdeclared hpresent _ ih => exact .struct hasc hdeclared hpresent ih
  | member h => exact .member h

/-- Whatever the host sends, what is decoded at a type is a value of the type. By induction on the
type, with what was decoded at its parts. -/
theorem wellFormed_of_decode (hdistinct : t.DistinctFields) (h : decode t d = .ok v) :
    v.WellFormed t := by
  induction t using Ty.induction generalizing d v with
  | step t ih =>
    have hpart : ∀ u ∈ t.parts, ∀ d v, decode u d = .ok v → v.WellFormed u :=
      fun u hu d v => ih u hu (hdistinct.inside u hu)
    cases t with
    | prim p => exact (normalizes_prim p d v h).1.wellFormed
    | enum => exact (normalizes_enum d v h).1.wellFormed
    | list s elem =>
      obtain ⟨items, vs, rfl, hvs, rfl⟩ := decode_list_eq_ok.mp h
      refine .list fun w hw => ?_
      obtain ⟨d, -, hd⟩ := exists_of_mem_forall₂ hvs hw
      exact hpart elem (by simp [Ty.parts]) d w hd
    | map s key value =>
      obtain ⟨entries, rfl, hasc, hkeys, hvalues⟩ := exists_entries_of_decode h
      refine .map hasc hkeys fun e he => ?_
      obtain ⟨d, hd⟩ := hvalues e he
      exact hpart value (by simp [Ty.parts]) d e.2 hd
    | struct s name args fields =>
      obtain ⟨entries, rfl, hasc, hdeclared, hpresent, hvalues⟩ :=
        exists_fields_of_decode hdistinct.here h
      refine .struct hasc hdeclared hpresent fun f hf w hw => ?_
      obtain ⟨d, hd⟩ := hvalues f hf w hw
      exact hpart f.2 (List.mem_append_right args (List.mem_map_of_mem hf)) d w hd
    | maybe s inner =>
      obtain ⟨rfl, rfl⟩ | ⟨-, w, hw, rfl⟩ := decode_maybe_eq_ok.mp h
      · exact .none
      · exact .some (hpart inner (by simp [Ty.parts]) d w hw)
    | result s ok err =>
      obtain ⟨d', w, rfl, hw, rfl⟩ | ⟨d', w, rfl, hw, rfl⟩ := decode_result_eq_ok.mp h
      · exact .ok (hpart ok (by simp [Ty.parts]) d' w hw)
      · exact .err (hpart err (by simp [Ty.parts]) d' w hw)
    | function | var => exact nomatch h

def code : Ty := .enum .blank "Code" [("gone", 410)]

/-- Why an attempt was refused. -/
def refusal : Ty := .struct .blank "Refusal" [] [("code", code)]

def measurement : Ty := .maybe .blank .float
def attempt : Ty := .result .blank measurement refusal
def attemptsByNumber : Ty := .map .blank .int attempt

/-- The keys are written anew, the integer is the float that it stands for, the null is an empty
maybe and still one as an arm, and each arm has its flag and the result type. -/
theorem wellFormed_attempts :
    let data := HostData.mapping
      [("+07", .mapping [("Ok", .int 3)]), ("8", .mapping [("Ok", .null)]),
        ("9", .mapping [("Err", .mapping [("code", .str "gone")])])]
    let entries : Dict Value :=
      [("7", ⟨{ Label.unmarked measurement .maybe with
          flags := ⟨true, false, false⟩, origin := some attempt }, .float (.ofInt 3)⟩),
        ("8", ⟨{ Label.unmarked measurement .maybe with
          flags := ⟨true, false, true⟩, origin := some attempt }, .absent⟩),
        ("9", ⟨{ Label.unmarked refusal .struct with
          flags := ⟨false, true, false⟩, origin := some attempt },
          .map [("code", ⟨.unmarked code .enum, .int 410⟩)]⟩)]
    attemptsByNumber.DistinctFields ∧
      decode attemptsByNumber data = .ok ⟨.unmarked attemptsByNumber .map, .map entries⟩ ∧
      WellFormed attemptsByNumber ⟨.unmarked attemptsByNumber .map, .map entries⟩ := by
  intro data entries
  have hmeasurement : measurement.DistinctFields :=
    .intro .nil (List.forall_mem_singleton.mpr (.of_leaf rfl .nil))
  have hrefusal : refusal.DistinctFields :=
    .intro (List.nodup_singleton _) (List.forall_mem_singleton.mpr (.of_leaf rfl .nil))
  have hattempt : attempt.DistinctFields :=
    .intro .nil (List.forall_mem_cons.mpr ⟨hmeasurement, List.forall_mem_singleton.mpr hrefusal⟩)
  have hdistinct : attemptsByNumber.DistinctFields :=
    .intro .nil (List.forall_mem_cons.mpr
      ⟨.of_leaf rfl .nil, List.forall_mem_singleton.mpr hattempt⟩)
  have hdecode : decode attemptsByNumber data =
      .ok ⟨.unmarked attemptsByNumber .map, .map entries⟩ := rfl
  exact ⟨hdistinct, hdecode, wellFormed_of_decode hdistinct hdecode⟩

end Value

end TypedValues
