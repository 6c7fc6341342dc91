import Mathlib.Logic.Relation
import TypedValues.Proofs.Ty.Interning

/-!
# One node for every type

A table that is only used through its calls keeps one node of every composite type that was
interned through it, and no primitive. A substitution interns the instances of the open types
within a type (`Ty.adds_substitute`), any other call the one type that it asks for. From it follows
what a run of calls leaves behind (`Interner.hashConses_runAll`).
-/

namespace TypedValues

open Interning

namespace Ty

/-- A type that occurs in another one, at any depth. -/
def Within (t u : Ty) : Prop := Relation.ReflTransGen (fun t u => u ∈ t.parts) t u

/-- The types that substitution builds on its way, without stamps: the instances of all open types
that occur in a type, but for the parameters. Without bindings there are none. -/
def rebuilt (bindings : Bindings) (t : Ty) : Set Ty :=
  {b | bindings.isEmpty = false ∧ ∃ u, t.Within u ∧ u.hasVar = true ∧ u.isVar = false ∧
    (u.instantiate bindings).bare = b}

variable {bindings : Bindings} {t u : Ty}

theorem within_iff : t.Within u ↔ t = u ∨ ∃ w ∈ t.parts, w.Within u := by
  rw [Within, Relation.ReflTransGen.cases_head_iff]
  rfl

/-- What occurs in a closed type is closed. -/
theorem Within.hasVar (h : t.Within u) (hu : u.hasVar = true) : t.hasVar = true := by
  induction h using Relation.ReflTransGen.head_induction_on with
  | refl => exact hu
  | head hpart _ ih =>
    rw [hasVar_eq_any_parts, Bool.or_eq_true, List.any_eq_true]
    exact .inr ⟨_, hpart, ih⟩

theorem rebuilt_of_closed (h : t.hasVar = false) : t.rebuilt bindings = ∅ := by
  apply Set.eq_empty_of_forall_notMem
  rintro b ⟨-, u, hu, hopen, -⟩
  rw [hu.hasVar hopen] at h
  contradiction

theorem rebuilt_of_unbound (h : bindings.isEmpty = true) : t.rebuilt bindings = ∅ := by
  apply Set.eq_empty_of_forall_notMem
  rintro b ⟨hbound, -⟩
  rw [h] at hbound
  contradiction

theorem rebuilt_var (s : Stamp) (n : String) : (var s n).rebuilt bindings = ∅ := by
  apply Set.eq_empty_of_forall_notMem
  rintro b ⟨-, u, hu, -, hvar, -⟩
  rcases within_iff.mp hu with rfl | ⟨w, hw, -⟩
  · contradiction
  · contradiction

/-- An open type is built anew after its parts. -/
theorem rebuilt_of_open (hopen : t.hasVar = true) (hbound : bindings.isEmpty = false)
    (hvar : t.isVar = false) : t.rebuilt bindings =
      {b | ∃ u ∈ t.parts, b ∈ u.rebuilt bindings} ∪ {(t.instantiate bindings).bare} := by
  ext b
  constructor
  · rintro ⟨-, u, hu, hu'⟩
    rcases within_iff.mp hu with rfl | ⟨w, hw, hwu⟩
    · exact .inr hu'.2.2.symm
    · exact .inl ⟨w, hw, hbound, u, hwu, hu'⟩
  · rintro (⟨w, hw, -, u, hwu, hu⟩ | rfl)
    · exact ⟨hbound, u, within_iff.mpr (.inr ⟨w, hw, hwu⟩), hu⟩
    · exact ⟨hbound, t, .refl, hopen, hvar, rfl⟩

end Ty

/-! ## What a substitution adds -/

namespace Ty

open Interner

variable (bindings : Bindings)

mutual

/-- By induction on the type: a type that is open is built anew after its parts. -/
theorem adds_substitute : ∀ t : Ty, (substitute bindings t).Adds (t.rebuilt bindings) := by
  intro t
  rw [substitute.eq_def]
  split
  · next h =>
    refine (adds_pure t).of_eq ?_
    rcases (Bool.or_eq_true _ _).mp h with h | h
    · rw [rebuilt_of_closed (by simpa using h)]
    · rw [rebuilt_of_unbound h]
  · next h =>
    obtain ⟨hopen, hbound⟩ : t.hasVar = true ∧ bindings.isEmpty = false := by
      simpa [List.isEmpty_eq_false_iff] using h
    cases t with
    | prim => simp at hopen
    | enum => simp at hopen
    | var s n => exact (adds_pure _).of_eq (rebuilt_var s n).symm
    | list s t =>
      rw [rebuilt_of_open hopen hbound rfl]
      refine ((adds_substitute t).bind fun _ =>
        adds_intern_as (.list .blank _) ((list s t).instantiate bindings).bare rfl ?_).of_eq ?_
      · simp only [bare, instantiate, bare_substitute bindings t]
      · simp [parts]
    | maybe s t =>
      rw [rebuilt_of_open hopen hbound rfl]
      refine ((adds_substitute t).bind fun _ =>
        adds_intern_as (.maybe .blank _) ((maybe s t).instantiate bindings).bare rfl ?_).of_eq ?_
      · simp only [bare, instantiate, bare_substitute bindings t]
      · simp [parts]
    | map s t u =>
      rw [rebuilt_of_open hopen hbound rfl]
      refine ((adds_substitute t).bind fun _ => (adds_substitute u).bind fun _ =>
        adds_intern_as (.map .blank _ _) ((map s t u).instantiate bindings).bare rfl ?_).of_eq ?_
      · simp only [bare, instantiate, bare_substitute bindings t, bare_substitute bindings u]
      · ext b
        simp [parts]
    | result s t u =>
      rw [rebuilt_of_open hopen hbound rfl]
      refine ((adds_substitute t).bind fun _ => (adds_substitute u).bind fun _ =>
        adds_intern_as (.result .blank _ _) ((result s t u).instantiate bindings).bare
          rfl ?_).of_eq ?_
      · simp only [bare, instantiate, bare_substitute bindings t, bare_substitute bindings u]
      · ext b
        simp [parts]
    | struct s n args fields =>
      rw [rebuilt_of_open hopen hbound rfl]
      refine ((adds_substituteAll args).bind fun _ => (adds_substituteFields fields).bind fun _ =>
        adds_intern_as (.struct .blank n _ _) ((struct s n args fields).instantiate bindings).bare
          rfl ?_).of_eq ?_
      · simp only [bare, instantiate, bareAll_substituteAll bindings args,
          bareFields_substituteFields bindings fields]
      · ext b
        simp [parts, or_and_right, exists_or]
    | function s n params ret =>
      rw [rebuilt_of_open hopen hbound rfl]
      refine ((adds_substituteParams params).bind fun _ => (adds_substitute ret).bind fun _ =>
        adds_intern_as (.function .blank n _ _)
          ((function s n params ret).instantiate bindings).bare rfl ?_).of_eq ?_
      · simp only [bare, instantiate, bareParams_substituteParams bindings params,
          bare_substitute bindings ret]
      · ext b
        simp [parts, or_and_right, exists_or]

theorem adds_substituteAll : ∀ ts : List Ty,
    (substituteAll bindings ts).Adds {b | ∃ t ∈ ts, b ∈ t.rebuilt bindings}
  | [] => (adds_pure []).of_eq (by simp)
  | t :: ts => by
    refine ((adds_substitute t).bind fun _ => (adds_substituteAll ts).bind fun _ =>
      adds_pure _).of_eq ?_
    ext b
    simp

theorem adds_substituteFields : ∀ fs : List (String × Ty),
    (substituteFields bindings fs).Adds {b | ∃ t ∈ fs.map Prod.snd, b ∈ t.rebuilt bindings}
  | [] => (adds_pure []).of_eq (by simp)
  | (n, t) :: fs => by
    refine ((adds_substitute t).bind fun _ => (adds_substituteFields fs).bind fun _ =>
      adds_pure _).of_eq ?_
    ext b
    simp

theorem adds_substituteParams : ∀ ps : List (Param Ty),
    (substituteParams bindings ps).Adds {b | ∃ t ∈ ps.map Param.ty, b ∈ t.rebuilt bindings}
  | [] => (adds_pure []).of_eq (by simp)
  | ⟨n, t, m⟩ :: ps => by
    refine ((adds_substitute t).bind fun _ => (adds_substituteParams ps).bind fun _ =>
      adds_pure _).of_eq ?_
    ext b
    simp

end

end Ty

/-! ## Runs of calls -/

namespace Interner

inductive Call where
  | list (elem : Ty)
  | map (key value : Ty)
  | maybe (inner : Ty)
  | result (ok err : Ty)
  | struct (name : String) (args : List Ty) (fields : List (String × Ty))
  | enum (name : String) (members : List (String × Int64))
  | function (name : Option String) (params : List (Param Ty)) (ret : Ty)
  | var (name : String)
  | intern (t : Ty)
  | substitute (t : Ty) (bindings : Bindings)

namespace Call

def run : Call → Interning Ty
  | list elem => Intern.list elem
  | map key value => Intern.map key value
  | maybe inner => Intern.maybe inner
  | result ok err => Intern.result ok err
  | struct name args fields => Intern.struct name args fields
  | enum name members => Intern.enum name members
  | function name params ret => Intern.function name params ret
  | var name => Intern.var name
  | intern t => TypedValues.intern t
  | substitute t bindings => t.substitute bindings

/-- The type that a call asks the node of. A substitution only has nodes made on its way. -/
def asked? : Call → Option Ty
  | list elem => some (.list .blank elem)
  | map key value => some (.map .blank key value)
  | maybe inner => some (.maybe .blank inner)
  | result ok err => some (.result .blank ok err)
  | struct name args fields => some (.struct .blank name args fields)
  | enum name members => some (.enum .blank name members)
  | function name params ret => some (.function .blank name params ret)
  | var name => some (.var .blank name)
  | intern t => some t
  | substitute _ _ => none

/-- The composite types that a call interns, without stamps. -/
def interned : Call → Set Ty
  | substitute t bindings => t.rebuilt bindings
  | call => {b | ∃ t, call.asked? = some t ∧ b ∈ t.interned}

variable {call : Call} {t : Ty}

theorem run_eq_intern (h : call.asked? = some t) : call.run = TypedValues.intern t := by
  cases call with
  | substitute => contradiction
  | _ =>
    cases h
    rfl

theorem interned_eq (h : call.asked? = some t) : call.interned = t.interned := by
  cases call with
  | substitute => contradiction
  | _ =>
    cases h
    simp [interned, asked?]

theorem adds_run (call : Call) : call.run.Adds call.interned := by
  cases h : call.asked? with
  | some t =>
    rw [run_eq_intern h, interned_eq h]
    exact adds_intern t
  | none =>
    cases call with
    | substitute t bindings => exact Ty.adds_substitute bindings t
    | _ => contradiction

end Call

/-- What a run of calls does, one after the other. -/
def runAll (calls : List Call) : Interning (List Ty) := calls.mapM Call.run

theorem adds_runAll (calls : List Call) :
    (runAll calls).Adds {b | ∃ call ∈ calls, b ∈ call.interned} := by
  induction calls with
  | nil => exact (adds_pure []).of_eq (by simp)
  | cons call calls ih =>
    rw [runAll, List.mapM_cons]
    refine ((call.adds_run).bind fun _ => ih.bind fun _ => adds_pure _).of_eq ?_
    ext b
    simp

/-! ## What a run leaves behind -/

/-- The types that the calls of a run asked for, with the nodes that they were given. -/
def answered (calls : List Call) (nodes : List Ty) : List (Ty × Ty) :=
  (calls.zip nodes).filterMap fun (call, node) => call.asked?.map fun t => (t, node)

variable {call : Call} {calls : List Call} {node : Ty} {nodes : List Ty}

theorem mem_answered_cons {a : Ty × Ty} : a ∈ answered (call :: calls) (node :: nodes) ↔
    (call.asked? = some a.1 ∧ a.2 = node) ∨ a ∈ answered calls nodes := by
  obtain ⟨t, n⟩ := a
  simp only [answered, List.zip_cons_cons, List.filterMap_cons]
  cases call.asked? with
  | none => simp
  | some u => simp [eq_comm]

theorem runAll_cons (call : Call) (calls : List Call) (interner : Interner) :
    runAll (call :: calls) interner =
      ((call.run interner).1 :: (runAll calls (call.run interner).2).1,
        (runAll calls (call.run interner).2).2) := by
  rw [runAll, List.mapM_cons]
  rfl

theorem length_runAll (calls : List Call) (interner : Interner) :
    (runAll calls interner).1.length = calls.length := by
  induction calls generalizing interner with
  | nil => rfl
  | cons call calls ih => rw [runAll_cons, List.length_cons, ih, List.length_cons]

/-- By induction on the calls: what a call was given stays in the table. -/
theorem nodeOf_answered (calls : List Call) (interner : Interner) :
    ∀ a ∈ answered calls (runAll calls interner).1,
      (runAll calls interner).2.NodeOf a.1 a.2 := by
  induction calls generalizing interner with
  | nil => nofun
  | cons call calls ih =>
    rw [runAll_cons]
    intro a ha
    rcases mem_answered_cons.mp ha with ⟨hasked, hnode⟩ | ha
    · rw [hnode, Call.run_eq_intern hasked]
      exact (nodeOf_intern a.1 interner).mono (adds_runAll calls _)
    · exact ih _ a ha

/-- A run of calls, with the nodes that it gave and the table that it left. -/
structure HashConses (calls : List Call) (nodes : List Ty) (interner : Interner) : Prop where
  length : nodes.length = calls.length
  /-- The node for a type is of that type. -/
  same : ∀ a ∈ answered calls nodes, Ty.same a.2 a.1 = true
  /-- Whenever they were given, two nodes are one exactly if they were given for equal types. -/
  sameNode_iff : ∀ a ∈ answered calls nodes, ∀ b ∈ answered calls nodes,
    (a.2.sameNode b.2 = true ↔ Ty.same a.1 b.1 = true)
  /-- A primitive is its own node. -/
  primitive : ∀ a ∈ answered calls nodes, a.1.isPrimitive = true → a.2 = a.1
  /-- No primitive is in the table. -/
  composite : ∀ t ∈ interner.entries, t.isPrimitive = false
  /-- The table has as many nodes as different composite types were interned. -/
  size : (interner.size : ℕ∞) = {b | ∃ call ∈ calls, b ∈ call.interned}.encard

/-- Through whichever calls a table was filled, with types of its own or of other tables, it has one
node of every composite type that was interned. Equal types have one name and the same traits and
look alike to every hash, and looking for a type only among those of the same hash finds its
node. -/
theorem hashConses_runAll (table : Nat) (calls : List Call) :
    let run := runAll calls (empty table)
    HashConses calls run.1 run.2 ∧
      (∀ t u : Ty, t.same u = true →
        t.name = u.name ∧ t.traits = u.traits ∧ t.outline = u.outline) ∧
      ∀ (hash : Ty → Nat) (t : Ty), (run.2.shards hash).size = run.2.size ∧
        Shards.intern hash t (run.2.shards hash) =
          ((intern t run.2).1, (intern t run.2).2.shards hash) := by
  have hgrows := adds_runAll calls (empty table)
  have hconsed := hgrows.consed (consed_empty table)
  have hnodes := nodeOf_answered calls (empty table)
  refine ⟨⟨length_runAll calls _, fun a ha => ?_, fun a ha b hb => ?_, fun a ha hprim => ?_,
      fun t ht => ?_, ?_⟩, fun t u => Ty.looks_eq_of_same, fun hash t =>
    ⟨size_shards hash _, Shards.intern_shards hash t _⟩⟩
  · exact (Ty.same_iff_bare a.2 a.1).mpr (hnodes a ha).bare
  · exact hconsed.sameNode_iff (hnodes a ha) (hnodes b hb)
  · rcases (hnodes a ha).cases with ⟨-, heq⟩ | ⟨hcomposite, -⟩
    · exact heq
    · rw [hprim] at hcomposite
      contradiction
  · exact hconsed.isPrimitive_eq_false ht
  · have htypes : {b | ∃ call ∈ calls, b ∈ call.interned} =
        {b | b ∈ (runAll calls (empty table)).2.types} := by
      ext b
      simpa [types, empty] using (hgrows.mem_types b).symm
    rw [htypes, hconsed.size_eq_encard]

end Interner

end TypedValues
