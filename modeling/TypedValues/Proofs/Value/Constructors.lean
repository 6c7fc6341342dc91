import TypedValues.Proofs.Value.Operations
import TypedValues.Value.Induction

/-!
# What constructors make

The constructors of values, with the values that each of them takes. Whichever it is, what it
makes is one of three things (`Value.Makes.cases`): a value with the label of its type that holds
values that were taken or the contents of one, the empty maybe of a maybe type, or a value that was
taken, marked as an arm.
-/

namespace TypedValues.Value

/-- A constructor makes a value out of others. Keys are taken for their texts only. -/
inductive Makes : List Value → Value → Prop
  | void : Makes [] .void
  | str (s : String) : Makes [] (.str s)
  | int (n : Int64) : Makes [] (.int n)
  | float (x : Binary64) : Makes [] (.float x)
  | bool (b : Bool) : Makes [] (.bool b)
  | dynamic (d : HostData) : Makes [] (.dynamic d)
  | list {t : Ty} {items : List Value} {v : Value} (h : list t items = .ok v) : Makes items v
  | emptyMap {t : Ty} {v : Value} (h : emptyMap t = .ok v) : Makes [] v
  | mapFrom {t : Ty} {entries : List (Value × Value)} {v : Value} (h : mapFrom t entries = .ok v) :
      Makes (entries.map Prod.snd) v
  | struct {t : Ty} {fields : List (String × Value)} {v : Value} (h : struct t fields = .ok v) :
      Makes (fields.map Prod.snd) v
  | enumMember {t : Ty} {n : Int64} {v : Value} (h : enumMember t n = .ok v) : Makes [] v
  | function {t : Ty} {c : Closure} {v : Value} (h : function t c = .ok v) : Makes [] v
  | makeNone {elem : Ty} {interner : Interner} {v : Value}
      (h : (makeNone elem interner).1 = .ok v) : Makes [] v
  | noneOf {t : Ty} {v : Value} (h : noneOf t = .ok v) : Makes [] v
  | makeSome (element : Value) (interner : Interner) : Makes [element] (makeSome element interner).1
  | toSome {u element v : Value} (h : u.toSome element = .ok v) : Makes [u, element] v
  | toNone {u v : Value} (h : u.toNone = .ok v) : Makes [u] v
  | makeArm (branch : Branch) (u : Value) : Makes [u] (makeArm branch u)
  | makeArmIn {branch : Branch} {u : Value} {t : Ty} {v : Value}
      (h : makeArmIn branch u t = .ok v) : Makes [u] v

/-- The values that constructors make out of each other. -/
inductive Constructed : Value → Prop
  | make {operands : List Value} {v : Value} (hops : ∀ w ∈ operands, Constructed w)
      (h : Makes operands v) : Constructed v

/-- Contents whose values were taken, or were right inside what was taken. -/
def TakenFrom (operands : List Value) (p : Payload) : Prop :=
  ∀ w ∈ p.children, w ∈ operands ∨ ∃ u ∈ operands, w ∈ u.children

theorem TakenFrom.of_leaf {operands : List Value} {p : Payload} (h : p.children = []) :
    TakenFrom operands p := by
  intro w hw
  rw [h] at hw
  contradiction

variable {operands : List Value} {v : Value}

/-- What a constructor makes, whichever it is. -/
theorem Makes.cases (h : Makes operands v) :
    (∃ t p, typed t p = v ∧ TakenFrom operands p) ∨
      (∃ t, t.isMaybe = true ∧ ⟨noneLabel t, .absent⟩ = v) ∨
      ∃ u ∈ operands, ∃ branch origin, (∀ t, origin = some t → t.isResult = true) ∧
        u.narrow branch origin = v := by
  cases h with
  | void | str | int | float | bool | dynamic => exact .inl ⟨_, _, rfl, .of_leaf rfl⟩
  | list h =>
    obtain ⟨-, rfl⟩ := typedAs_eq_ok.mp h
    exact .inl ⟨_, _, rfl, fun w hw => .inl hw⟩
  | emptyMap h | enumMember h | function h =>
    obtain ⟨-, rfl⟩ := typedAs_eq_ok.mp h
    exact .inl ⟨_, _, rfl, .of_leaf rfl⟩
  | mapFrom h =>
    obtain ⟨d, rfl, hstored⟩ := exists_stored_of_mapFrom h
    refine .inl ⟨_, _, rfl, fun w hw => .inl ?_⟩
    obtain ⟨e, he, rfl⟩ := List.mem_map.mp hw
    exact hstored e he
  | struct h =>
    obtain ⟨-, rfl⟩ := typedAs_eq_ok.mp h
    refine .inl ⟨_, _, rfl, fun w hw => .inl ?_⟩
    obtain ⟨e, he, rfl⟩ := List.mem_map.mp hw
    exact List.mem_map_of_mem (Dict.mem_of_mem_ofList he)
  | makeNone h | noneOf h | toNone h =>
    obtain ⟨hmaybe, rfl⟩ := noneOf_eq_ok.mp h
    exact .inr (.inl ⟨_, hmaybe, rfl⟩)
  | makeSome element interner =>
    exact .inl ⟨_, _, rfl, fun w hw => .inr ⟨element, List.mem_singleton_self element, hw⟩⟩
  | @toSome u element v h =>
    obtain ⟨-, rfl⟩ := typedAs_eq_ok.mp h
    exact .inl ⟨_, _, rfl, fun w hw => .inr ⟨element, by simp, hw⟩⟩
  | makeArm branch u =>
    exact .inr (.inr ⟨u, List.mem_singleton_self u, branch, none, nofun, rfl⟩)
  | @makeArmIn branch u t v h =>
    obtain ⟨hresult, rfl⟩ := makeArmIn_eq_ok.mp h
    refine .inr (.inr ⟨u, List.mem_singleton_self u, branch, some t, ?_, rfl⟩)
    intro t' ht
    cases ht
    exact hresult

end TypedValues.Value
