import TypedValues.Proofs.Value.Decoding
import TypedValues.Ty.Induction

/-!
# Data that conforms to a type

Which host data is data of a type (`HostData.Conforms`), said without a word about decoding.
Decoding accepts such data and refuses all other data with an error about it; it never faults
(`Value.decode_iff_conforms`).
-/

namespace TypedValues

/-- The host data of a type. A key of a mapping must be one of the key type, however it is
spelled; void, functions and open parameters have no data. -/
inductive HostData.Conforms : Ty → HostData → Prop
  | str (s : String) : Conforms .str (.str s)
  | int (n : Int64) : Conforms .int (.int n)
  | bool (b : Bool) : Conforms .bool (.bool b)
  | float (x : Binary64) : Conforms .float (.float x)
  | widened (n : Int64) : Conforms .float (.int n)
  | dynamic (d : HostData) : Conforms .dynamic d
  | list {s : Stamp} {elem : Ty} {items : List HostData} (h : ∀ d ∈ items, Conforms elem d) :
      Conforms (.list s elem) (.seq items)
  | map {s : Stamp} {key value : Ty} {entries : Dict HostData}
      (hkeys : ∀ e ∈ entries, ∃ k, Value.ofKeyText? key e.1 = .ok k)
      (hvalues : ∀ e ∈ entries, Conforms value e.2) : Conforms (.map s key value) (.mapping entries)
  | null {s : Stamp} {inner : Ty} : Conforms (.maybe s inner) .null
  | filled {s : Stamp} {inner : Ty} {d : HostData} (h : Conforms inner d) :
      Conforms (.maybe s inner) d
  | ok {s : Stamp} {ok err : Ty} {d : HostData} (h : Conforms ok d) :
      Conforms (.result s ok err) (.mapping [("Ok", d)])
  | err {s : Stamp} {ok err : Ty} {d : HostData} (h : Conforms err d) :
      Conforms (.result s ok err) (.mapping [("Err", d)])
  | struct {s : Stamp} {name : String} {args : List Ty} {fields : List (String × Ty)}
      {entries : Dict HostData} (hdeclared : ∀ e ∈ entries, e.1 ∈ fields.map Prod.fst)
      (hpresent : ∀ f ∈ fields, f.1 ∈ entries.keys)
      (hfields : ∀ f ∈ fields, ∀ d, entries.find? f.1 = some d → Conforms f.2 d) :
      Conforms (.struct s name args fields) (.mapping entries)
  | member {s : Stamp} {name : String} {members : List (String × Int64)} {m : String × Int64}
      (h : m ∈ members) : Conforms (.enum s name members) (.str m.1)
  | discriminant {s : Stamp} {name : String} {members : List (String × Int64)}
      {m : String × Int64} (h : m ∈ members) : Conforms (.enum s name members) (.int m.2)

/-! ## Outcomes that a condition decides -/

/-- A result if the condition holds, and an error about the data if it does not. -/
inductive Decoded.Decides {α : Type} (p : Prop) : Decoded α → Prop
  | ok (h : p) (a : α) : Decides p (.ok a)
  | error (h : ¬ p) (e : DecodeError) : Decides p (.error (.error e))

namespace Decoded

variable {α β : Type} {p q : Prop} {x : Decoded α}

theorem Decides.iff (h : Decides p x) (hpq : p ↔ q) : Decides q x := by
  cases h with
  | ok h a => exact .ok (hpq.mp h) a
  | error h e => exact .error (mt hpq.mpr h) e

theorem Decides.map (h : Decides p x) (f : α → β) : Decides p (x.map f) := by
  cases h with
  | ok h a => exact .ok h (f a)
  | error h e => exact .error h e

/-- The second step need only be decided after the first gave a result. -/
theorem Decides.bind {f : α → Decoded β} (h : Decides p x)
    (hf : ∀ a, x = .ok a → Decides q (f a)) : Decides (p ∧ q) (x >>= f) := by
  cases h with
  | ok h a =>
    refine (hf a rfl).iff ?_
    rw [and_iff_right h]
  | error h e => exact .error (fun hpq => h hpq.1) e

theorem Decides.mapM {f : α → Decoded β} {p : α → Prop} {l : List α}
    (h : ∀ a ∈ l, Decides (p a) (f a)) : Decides (∀ a ∈ l, p a) (l.mapM f) := by
  induction l with
  | nil => exact .ok (fun a ha => nomatch ha) []
  | cons a rest ih =>
    obtain ⟨ha, hrest⟩ := List.forall_mem_cons.mp h
    rw [List.mapM_cons]
    refine (ha.bind fun b _ => (ih hrest).map (List.cons b)).iff ?_
    rw [List.forall_mem_cons]

theorem decides_ofKey (x : Except KeyError α) : Decides (∃ a, x = .ok a) (ofKey x) := by
  cases x with
  | ok a => exact .ok ⟨a, rfl⟩ a
  | error e => exact .error nofun (.key e)

end Decoded

/-! ## Decoding -/

namespace Value

open Decoded

variable {s : Stamp} {name : String} {key value elem inner okTy errTy : Ty} {args : List Ty}
  {fields : List (String × Ty)} {entries : Dict HostData} {members : List (String × Int64)}

theorem decides_prim (p : Primitive) (d : HostData) :
    (decode (.prim p) d).Decides (d.Conforms (.prim p)) := by
  cases p with
  | void => exact .error nofun _
  | dynamic => exact .ok (.dynamic d) _
  | str =>
    cases d with
    | str s => exact .ok (.str s) _
    | _ => exact .error nofun _
  | int =>
    cases d with
    | int n => exact .ok (.int n) _
    | _ => exact .error nofun _
  | bool =>
    cases d with
    | bool b => exact .ok (.bool b) _
    | _ => exact .error nofun _
  | float =>
    cases d with
    | float x => exact .ok (.float x) _
    | int n => exact .ok (.widened n) _
    | _ => exact .error nofun _

theorem decides_list (helem : ∀ d, (decode elem d).Decides (d.Conforms elem)) (d : HostData) :
    (decode (.list s elem) d).Decides (d.Conforms (.list s elem)) := by
  cases d with
  | seq items =>
    rw [decode_list]
    refine ((Decides.mapM fun d _ => helem d).map _).iff ⟨.list, ?_⟩
    intro h
    cases h with
    | list h => exact h
  | _ => exact .error nofun _

/-- A key that was read has a text, so that no entry faults. -/
theorem decides_entry (hvalue : ∀ d, (decode value d).Decides (d.Conforms value))
    (e : String × HostData) :
    (decodeEntry key (decode value) e).Decides
      ((∃ k, ofKeyText? key e.1 = .ok k) ∧ e.2.Conforms value) := by
  refine (decides_ofKey (ofKeyText? key e.1)).bind fun k hk => ?_
  have hread : ofKeyText? key e.1 = .ok k := ofKey_eq_ok.mp hk
  obtain ⟨text, htext⟩ := (keyOf_of_ofKeyText? hread).1.keyText_ok
  rw [htext]
  exact (hvalue e.2).map fun v => (text, v)

theorem decides_map (hvalue : ∀ d, (decode value d).Decides (d.Conforms value)) (d : HostData) :
    (decode (.map s key value) d).Decides (d.Conforms (.map s key value)) := by
  cases d with
  | mapping entries =>
    rw [decode_map]
    refine ((Decides.mapM fun e _ => decides_entry hvalue e).map _).iff ⟨?_, ?_⟩
    · exact fun h => .map (fun e he => (h e he).1) fun e he => (h e he).2
    · intro h
      cases h with
      | map hkeys hvalues => exact fun e he => ⟨hkeys e he, hvalues e he⟩
  | _ => exact .error nofun _

theorem decides_maybe (hinner : ∀ d, (decode inner d).Decides (d.Conforms inner)) (d : HostData) :
    (decode (.maybe s inner) d).Decides (d.Conforms (.maybe s inner)) := by
  by_cases hnull : d = .null
  · subst hnull
    rw [decode_maybe_null]
    exact .ok .null _
  · rw [decode_maybe hnull]
    refine ((hinner d).map _).iff ⟨.filled, ?_⟩
    intro h
    cases h with
    | null => contradiction
    | filled h => exact h

theorem conforms_result {d : HostData} :
    d.Conforms (.result s okTy errTy) ↔
      (∃ d', d = .mapping [("Ok", d')] ∧ d'.Conforms okTy) ∨
        ∃ d', d = .mapping [("Err", d')] ∧ d'.Conforms errTy := by
  constructor
  · intro h
    cases h with
    | ok h => exact .inl ⟨_, rfl, h⟩
    | err h => exact .inr ⟨_, rfl, h⟩
  · rintro (⟨d', rfl, h⟩ | ⟨d', rfl, h⟩)
    · exact .ok h
    · exact .err h

theorem decides_result (hok : ∀ d, (decode okTy d).Decides (d.Conforms okTy))
    (herr : ∀ d, (decode errTy d).Decides (d.Conforms errTy)) (d : HostData) :
    (decode (.result s okTy errTy) d).Decides (d.Conforms (.result s okTy errTy)) := by
  by_cases hokData : ∃ d', d = .mapping [("Ok", d')]
  · obtain ⟨d', rfl⟩ := hokData
    rw [decode_result_ok]
    refine ((hok d').map _).iff ?_
    simp [conforms_result]
  by_cases herrData : ∃ d', d = .mapping [("Err", d')]
  · obtain ⟨d', rfl⟩ := herrData
    rw [decode_result_err]
    refine ((herr d').map _).iff ?_
    simp [conforms_result]
  rw [decode_result_of_ne (not_exists.mp hokData) (not_exists.mp herrData)]
  refine .error ?_ _
  rw [conforms_result]
  rintro (⟨d', rfl, -⟩ | ⟨d', rfl, -⟩)
  · exact hokData ⟨d', rfl⟩
  · exact herrData ⟨d', rfl⟩

theorem decides_field (f : String × Ty) (hf : ∀ d, (decode f.2 d).Decides (d.Conforms f.2)) :
    (decodeField name entries f).Decides
      (f.1 ∈ entries.keys ∧ ∀ d, entries.find? f.1 = some d → d.Conforms f.2) := by
  rw [Dict.mem_keys, decodeField]
  cases entries.find? f.1 with
  | none => exact .error (by simp) _
  | some d =>
    refine ((hf d).map _).iff ?_
    simp

theorem decides_struct (hfields : ∀ f ∈ fields, ∀ d, (decode f.2 d).Decides (d.Conforms f.2))
    (d : HostData) :
    (decode (.struct s name args fields) d).Decides (d.Conforms (.struct s name args fields)) := by
  cases d with
  | mapping entries =>
    by_cases hdeclared : ∀ e ∈ entries, e.1 ∈ fields.map Prod.fst
    · rw [decode_struct hdeclared]
      refine ((Decides.mapM fun f hf => decides_field f (hfields f hf)).map _).iff ⟨?_, ?_⟩
      · exact fun h => .struct hdeclared (fun f hf => (h f hf).1) fun f hf => (h f hf).2
      · intro h
        cases h with
        | struct _ hpresent hconform => exact fun f hf => ⟨hpresent f hf, hconform f hf⟩
    · obtain ⟨field, hdecode⟩ := decode_struct_of_undeclared s args hdeclared
      rw [hdecode]
      refine .error ?_ _
      intro h
      cases h with
      | struct h => exact hdeclared h
  | _ => exact .error nofun _

theorem decides_member (member : String) :
    (decode (.enum s name members) (.str member)).Decides
      (HostData.Conforms (.enum s name members) (.str member)) := by
  cases h : (Ty.enum s name members).discriminant? member with
  | some n =>
    rw [decode_member h]
    exact .ok (.member (mem_of_discriminant? h)) _
  | none =>
    rw [decode_member_of_unknown h]
    refine .error ?_ _
    intro hconforms
    cases hconforms with
    | member hmem => exact discriminant?_eq_none.mp h _ hmem rfl

theorem decides_discriminant (n : Int64) :
    (decode (.enum s name members) (.int n)).Decides
      (HostData.Conforms (.enum s name members) (.int n)) := by
  cases h : (Ty.enum s name members).memberName? n with
  | some member =>
    have hmem : (member, n) ∈ members := mem_of_memberName? h
    rw [decode_discriminant hmem]
    exact .ok (.discriminant hmem) _
  | none =>
    rw [decode_discriminant_of_unknown h]
    refine .error ?_ _
    intro hconforms
    cases hconforms with
    | discriminant hmem => exact memberName?_eq_none.mp h _ hmem rfl

theorem decides_enum (d : HostData) :
    (decode (.enum s name members) d).Decides (d.Conforms (.enum s name members)) := by
  cases d with
  | str member => exact decides_member member
  | int n => exact decides_discriminant n
  | _ => exact .error nofun _

/-- By induction on the type: each step of decoding is decided by the data it looks at. -/
theorem decode_decides (t : Ty) (d : HostData) : (decode t d).Decides (d.Conforms t) := by
  induction t using Ty.induction generalizing d with
  | step t ih =>
    cases t with
    | prim p => exact decides_prim p d
    | list _ elem => exact decides_list (ih elem (by simp [Ty.parts])) d
    | map _ key value => exact decides_map (ih value (by simp [Ty.parts])) d
    | maybe _ inner => exact decides_maybe (ih inner (by simp [Ty.parts])) d
    | result _ ok err =>
      exact decides_result (ih ok (by simp [Ty.parts])) (ih err (by simp [Ty.parts])) d
    | struct _ _ args fields =>
      refine decides_struct (fun f hf => ih f.2 ?_) d
      exact List.mem_append_right args (List.mem_map_of_mem hf)
    | enum => exact decides_enum d
    | function | var => exact .error nofun _

/-- Decoding gives a value for data that conforms to the type, an error about the data for all
other data, and never faults. -/
theorem decode_iff_conforms (t : Ty) (d : HostData) :
    ((∃ v, decode t d = .ok v) ↔ d.Conforms t) ∧
      ((∃ e, decode t d = .error (.error e)) ↔ ¬ d.Conforms t) ∧
      ∀ f, decode t d ≠ .error (.fault f) := by
  have hdecides := decode_decides t d
  generalize decode t d = x at hdecides
  cases hdecides with
  | ok h v => simp [h]
  | error h e => simp [h]

end Value

end TypedValues
