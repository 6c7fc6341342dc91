import TypedValues.Closure.Builtin
import TypedValues.Proofs.Value.Equivalence

/-!
# Chains of bound methods

A method that is bound to receivers one after another is called with the arguments behind copies of
the receivers, and shows the parameters behind those that the receivers stand for. The two are
worked out apart, the one when it is called and the other when it is looked at, and come to the same
(`Closure.bindAll_consistent`).

Of the values themselves a call only touches those in places of its own. To say so, receivers are
kept in places here, each call puts its copies and its arguments into new places, and the method may
leave anything in those (`Workspace.invoke`). No call changes a place that was in use before it
(`Workspace.extends_invoke`), so that each call of a row of calls answers as it would by itself.
-/

namespace TypedValues

namespace Closure

/-- A method bound to receivers, each with the number of the closure that this makes. The first is
bound outermost. -/
def bindAll (receivers : List (Nat × Value)) (method : Closure) : Closure :=
  receivers.foldr (fun r c => .bound r.1 r.2 c) method

/-- The copies of receivers that a method sees. The one that is bound outermost comes last. -/
def copies (receivers : List (Nat × Value)) : List Value :=
  (receivers.map fun r => r.2.copy).reverse

variable {receivers : List (Nat × Value)} {m : Closure}

theorem copies_cons (r : Nat × Value) (rest : List (Nat × Value)) :
    copies (r :: rest) = copies rest ++ [r.2.copy] := by
  rw [copies, copies, List.map_cons, List.reverse_cons]

theorem length_copies (receivers : List (Nat × Value)) :
    (copies receivers).length = receivers.length := by
  rw [copies, List.length_reverse, List.length_map]

/-- In either mode a method sees the copies in front of the arguments. -/
theorem call_bindAll (host : Host) (mode : CallMode) (receivers : List (Nat × Value)) (m : Closure)
    (args : List Value) :
    (bindAll receivers m).call host mode args = m.call host mode (copies receivers ++ args) := by
  induction receivers generalizing args with
  | nil => rfl
  | cons r rest ih =>
    calc (bindAll (r :: rest) m).call host mode args
        = (bindAll rest m).call host mode (r.2.copy :: args) := rfl
      _ = m.call host mode (copies rest ++ r.2.copy :: args) := ih _
      _ = m.call host mode (copies (r :: rest) ++ args) := by rw [copies_cons, List.append_cons]

theorem params_bindAll (receivers : List (Nat × Value)) (m : Closure) :
    (bindAll receivers m).params = m.params.drop receivers.length := by
  induction receivers with
  | nil => rfl
  | cons r rest ih =>
    show (bindAll rest m).params.tail = _
    rw [ih, List.tail_drop, List.length_cons]

theorem name?_bindAll (receivers : List (Nat × Value)) (m : Closure) :
    (bindAll receivers m).name? = m.name? := by
  induction receivers with
  | nil => rfl
  | cons r rest ih => exact ih

/-- A receiver is seen after those bound further inside. -/
theorem getElem?_copies (outer : List (Nat × Value)) (r : Nat × Value)
    (inner : List (Nat × Value)) (args : List Value) :
    (copies (outer ++ r :: inner) ++ args)[inner.length]? = some r.2.copy := by
  have hsplit : copies (outer ++ r :: inner) ++ args =
      copies inner ++ r.2.copy :: (copies outer ++ args) := by
    simp [copies]
  rw [hsplit, ← length_copies inner, List.getElem?_append_right (Nat.le_refl _), Nat.sub_self]
  rfl

/-- The parameter that binding a receiver drops is the one at which the method sees it. -/
theorem head?_params_bindAll (inner : List (Nat × Value)) (m : Closure) :
    (bindAll inner m).params.head? = m.params[inner.length]? := by
  rw [params_bindAll, List.head?_drop]

/-- What a method sees, parameter by parameter: first the copies, at the parameters that were
dropped, then the arguments, at those that are left. -/
theorem zip_params_bindAll (receivers : List (Nat × Value)) (m : Closure) (args : List Value) :
    m.params.zip (copies receivers ++ args) =
      (m.params.take receivers.length).zip (copies receivers) ++
        (bindAll receivers m).params.zip args := by
  rw [params_bindAll, ← length_copies receivers, List.zip_eq_zipWith,
    ← List.take_append_drop (copies receivers).length (List.zipWith _ _ _), List.take_zipWith,
    List.drop_zipWith, List.take_left, List.drop_left]
  rfl

end Closure

/-! ## Places -/

/-- Values in places. Temporary places are given out by number. -/
structure Workspace where
  store : Store
  /-- The number of the next temporary place. -/
  next : Nat

/-- A call, with what the rest of the program has to do with it. -/
structure Invocation where
  mode : CallMode
  args : List Value
  /-- What bodies answer at the time. -/
  body : CallMode → String → List Value → Except Fault Value
  /-- What is left in the places of the values that the method saw. -/
  leaves : Store

namespace Workspace

/-- A place is in use unless it is a temporary one that was not given out yet. -/
def InUse (w : Workspace) (p : Place) : Prop := ∀ n, p = .temporary n → n < w.next

def put (w : Workspace) (v : Value) : Place × Workspace :=
  (.temporary w.next,
    { store := fun p => if p = .temporary w.next then v else w.store p, next := w.next + 1 })

def putAll (w : Workspace) : List Value → List Place × Workspace
  | [] => ([], w)
  | v :: rest =>
    let given := w.putAll rest
    ((given.2.put v).1 :: given.1, (given.2.put v).2)

/-- Goes inwards through a chain of bound methods whose receivers are in places. Each of them puts a
copy of its receiver, in a new place, in front of the arguments. -/
def pass (w : Workspace) (args : List Place) : List (Nat × Place) → List Place × Workspace
  | [] => (args, w)
  | r :: rest =>
    let given := w.put (w.store r.2).copy
    given.2.pass (given.1 :: args) rest

/-- Leaves in the given places what `values` has there. -/
def leave (w : Workspace) (places : List Place) (values : Store) : Workspace :=
  { w with store := fun p => if p ∈ places then values p else w.store p }

section Calls

variable (native : String → List Value → Except Fault Value) (chain : List (Nat × Place))
  (m : Closure)

/-- Calls a method through a chain. -/
def invoke (w : Workspace) (c : Invocation) : Except Fault Value × Workspace :=
  let args := w.putAll c.args
  let seen := args.2.pass args.1 chain
  (m.call ⟨native, c.body⟩ c.mode (seen.1.map seen.2.store), seen.2.leave seen.1 c.leaves)

/-- Calls a method through a chain time and again. -/
def invokeAll (w : Workspace) : List Invocation → List (Except Fault Value) × Workspace
  | [] => ([], w)
  | c :: rest =>
    let first := w.invoke native chain m c
    let others := first.2.invokeAll rest
    (first.1 :: others.1, others.2)

end Calls

def receivers (w : Workspace) (chain : List (Nat × Place)) : List (Nat × Value) :=
  chain.map fun r => (r.1, w.store r.2)

/-! ## Places in use -/

/-- All that is in use stays in use, with its value. -/
def Extends (w w' : Workspace) : Prop :=
  ∀ p, w.InUse p → w'.InUse p ∧ w'.store p = w.store p

variable {w w' w'' : Workspace} {places : List Place} {values : List Value} {v : Value}
  {native : String → List Value → Except Fault Value} {chain : List (Nat × Place)} {m : Closure}

theorem Extends.refl (w : Workspace) : w.Extends w := fun _ hp => ⟨hp, rfl⟩

theorem Extends.trans (h : w.Extends w') (h' : w'.Extends w'') : w.Extends w'' := by
  intro p hp
  obtain ⟨hp', heq⟩ := h p hp
  obtain ⟨hp'', heq'⟩ := h' p hp'
  exact ⟨hp'', heq'.trans heq⟩

theorem Extends.receivers (h : w.Extends w') (hchain : ∀ r ∈ chain, w.InUse r.2) :
    w'.receivers chain = w.receivers chain := by
  apply List.map_congr_left
  intro r hr
  rw [(h r.2 (hchain r hr)).2]

theorem not_inUse_put (w : Workspace) (v : Value) : ¬w.InUse (w.put v).1 :=
  fun h => Nat.lt_irrefl _ (h w.next rfl)

theorem inUse_put (w : Workspace) (v : Value) : (w.put v).2.InUse (w.put v).1 := by
  rintro n ⟨rfl⟩
  exact Nat.lt_succ_self _

theorem store_put (w : Workspace) (v : Value) : (w.put v).2.store (w.put v).1 = v := if_pos rfl

theorem extends_put (w : Workspace) (v : Value) : w.Extends (w.put v).2 := by
  intro p hp
  refine ⟨fun n hn => Nat.lt_succ_of_lt (hp n hn), if_neg ?_⟩
  rintro rfl
  exact w.not_inUse_put v hp

/-- Values were put into new places, and nothing else was changed. -/
structure Gives (w : Workspace) (given : List Place × Workspace) (values : List Value) : Prop where
  grows : w.Extends given.2
  stored : given.1.map given.2.store = values
  inUse : ∀ p ∈ given.1, given.2.InUse p
  new : ∀ p ∈ given.1, ¬w.InUse p

theorem Gives.nil (w : Workspace) : w.Gives ([], w) [] := ⟨.refl w, rfl, nofun, nofun⟩

/-- One value more, in front. -/
theorem Gives.cons (h : w.Gives (places, w') values) (v : Value) :
    w.Gives ((w'.put v).1 :: places, (w'.put v).2) (v :: values) := by
  have hput := w'.extends_put v
  refine ⟨h.grows.trans hput, ?_, ?_, ?_⟩
  · have hkept : places.map (w'.put v).2.store = places.map w'.store :=
      List.map_congr_left fun p hp => (hput p (h.inUse p hp)).2
    rw [List.map_cons, store_put, hkept, h.stored]
  · exact List.forall_mem_cons.mpr ⟨w'.inUse_put v, fun p hp => (hput p (h.inUse p hp)).1⟩
  · refine List.forall_mem_cons.mpr ⟨fun hp => ?_, h.new⟩
    exact w'.not_inUse_put v (h.grows _ hp).1

theorem gives_putAll (w : Workspace) (values : List Value) : w.Gives (w.putAll values) values := by
  induction values with
  | nil => exact .nil w
  | cons v rest ih => exact ih.cons v

/-- The method sees copies of the receivers as they were before the call, and the arguments. -/
theorem Gives.pass (h : w.Gives (places, w') values) (hchain : ∀ r ∈ chain, w.InUse r.2) :
    w.Gives (w'.pass places chain) (Closure.copies (w.receivers chain) ++ values) := by
  induction chain generalizing places w' values with
  | nil => exact h
  | cons r rest ih =>
    obtain ⟨hr, hrest⟩ := List.forall_mem_cons.mp hchain
    rw [receivers, List.map_cons, Closure.copies_cons, List.append_assoc, List.singleton_append,
      ← (h.grows r.2 hr).2]
    exact ih (h.cons _) hrest

/-- What is left in new places is not seen in those that were in use before. -/
theorem Gives.extends_leave {given : List Place × Workspace} (h : w.Gives given values)
    (leaves : Store) : w.Extends (given.2.leave given.1 leaves) := by
  intro p hp
  refine ⟨(h.grows p hp).1, ?_⟩
  have hnew : p ∉ given.1 := fun hmem => h.new p hmem hp
  exact (if_neg hnew).trans (h.grows p hp).2

/-! ## Calls -/

theorem gives_seen (hchain : ∀ r ∈ chain, w.InUse r.2) (args : List Value) :
    w.Gives ((w.putAll args).2.pass (w.putAll args).1 chain)
      (Closure.copies (w.receivers chain) ++ args) :=
  (w.gives_putAll args).pass hchain

theorem extends_invoke (hchain : ∀ r ∈ chain, w.InUse r.2) (c : Invocation) :
    w.Extends (w.invoke native chain m c).2 := (gives_seen hchain c.args).extends_leave c.leaves

/-- A call answers as one of the chain with the receivers that are in the places. -/
theorem fst_invoke (hchain : ∀ r ∈ chain, w.InUse r.2) (c : Invocation) :
    (w.invoke native chain m c).1 =
      (Closure.bindAll (w.receivers chain) m).call ⟨native, c.body⟩ c.mode c.args := by
  rw [Closure.call_bindAll, invoke, (gives_seen hchain c.args).stored]

/-- After any calls the places in use are as they were, and each call has answered as if it had been
the first. -/
theorem invokeAll_of_inUse (hchain : ∀ r ∈ chain, w.InUse r.2) (calls : List Invocation) :
    w.Extends (w.invokeAll native chain m calls).2 ∧
      (w.invokeAll native chain m calls).1 = calls.map fun c =>
        (Closure.bindAll (w.receivers chain) m).call ⟨native, c.body⟩ c.mode c.args := by
  induction calls generalizing w with
  | nil => exact ⟨.refl w, rfl⟩
  | cons c rest ih =>
    have hfirst : w.Extends (w.invoke native chain m c).2 := extends_invoke hchain c
    have hchain' : ∀ r ∈ chain, (w.invoke native chain m c).2.InUse r.2 :=
      fun r hr => (hfirst r.2 (hchain r hr)).1
    obtain ⟨hextends, hanswers⟩ := ih hchain'
    refine ⟨hfirst.trans hextends, ?_⟩
    rw [invokeAll, List.map_cons, hanswers, fst_invoke hchain, hfirst.receivers hchain]

end Workspace

namespace Closure

/-- A method that is bound to receivers sees copies of them, the outermost last, and then the
arguments, in either mode. Its parameters are those that the receivers leave, and the one dropped
for a receiver is the one at which the copy of that receiver is seen; its name is that of the method.
No calls, in any modes and whatever is done with the values that the method sees, change a receiver.
So each call answers as it would by itself, and equal calls of a function of the host answer the
same. -/
theorem bindAll_consistent (m : Closure) (receivers : List (Nat × Value)) :
    (∀ host mode args, (bindAll receivers m).call host mode args =
        m.call host mode (copies receivers ++ args)) ∧
      (bindAll receivers m).params = m.params.drop receivers.length ∧
      (∀ args, m.params.zip (copies receivers ++ args) =
        (m.params.take receivers.length).zip (copies receivers) ++
          (bindAll receivers m).params.zip args) ∧
      (∀ outer r inner args, receivers = outer ++ r :: inner →
        (bindAll inner m).params.head? = m.params[inner.length]? ∧
          (copies receivers ++ args)[inner.length]? = some r.2.copy) ∧
      (bindAll receivers m).name? = m.name? ∧
      ∀ native (w : Workspace) chain calls, (∀ r ∈ chain, w.InUse r.2) →
        w.receivers chain = receivers →
          (w.invokeAll native chain m calls).2.receivers chain = receivers ∧
          (w.invokeAll native chain m calls).1 = calls.map (fun c =>
            (bindAll receivers m).call ⟨native, c.body⟩ c.mode c.args) ∧
          ∀ id name params function, m = .native id name params function →
            ∀ i j : Nat, calls[i]?.map Invocation.args = calls[j]?.map Invocation.args →
              (w.invokeAll native chain m calls).1[i]? =
                (w.invokeAll native chain m calls).1[j]? := by
  refine ⟨fun host mode args => call_bindAll host mode receivers m args,
    params_bindAll receivers m, zip_params_bindAll receivers m, ?_, name?_bindAll receivers m, ?_⟩
  · rintro outer r inner args rfl
    exact ⟨head?_params_bindAll inner m, getElem?_copies outer r inner args⟩
  · rintro native w chain calls hchain rfl
    obtain ⟨hextends, hanswers⟩ := w.invokeAll_of_inUse hchain calls
    refine ⟨hextends.receivers hchain, hanswers, ?_⟩
    rintro id name params function rfl i j hargs
    -- a function of the host sees neither the mode nor what bodies answer
    have hnative : ∀ k : Nat, (calls.map fun c =>
        (bindAll (w.receivers chain) (.native id name params function)).call
          ⟨native, c.body⟩ c.mode c.args)[k]? =
        (calls[k]?.map Invocation.args).map fun args =>
          native function (copies (w.receivers chain) ++ args) := by
      intro k
      rw [List.getElem?_map, Option.map_map]
      congr 1
      funext c
      exact call_bindAll _ _ _ _ _
    rw [hanswers, hnative, hnative, hargs]

/-- A list and a text, taken as receivers by a function of three parameters that adds a zero to what
it sees first. The flag is left to supply. The function is called in both modes, and what it saw is
lost each time. -/
theorem bindAll_consistent_pushZero :
    let listed : Ty := .list .blank .int
    let w : Workspace :=
      ⟨fun p => if p = .temporary 0 then .typed listed (.list [.int 7]) else .str "day", 1⟩
    let chain : List (Nat × Place) := [(2, .stored "day" []), (1, .temporary 0)]
    let self : Param Ty := ⟨"self", listed, true⟩
    let note : Param Ty := ⟨"note", .str, false⟩
    let flag : Param Ty := ⟨"flag", .bool, false⟩
    let m : Closure := .native 0 "push_zero" [self, note, flag] "push_zero"
    let calls : List Invocation := [CallMode.shared, .isolated].map fun mode =>
      ⟨mode, [.bool true], Host.builtin.body, fun _ => .void⟩
    let run := w.invokeAll Host.builtin.native chain m calls
    (∀ r ∈ chain, w.InUse r.2) ∧
      (bindAll (w.receivers chain) m).params = [flag] ∧
      m.params.zip (copies (w.receivers chain) ++ [.bool true]) =
        [(self, .typed listed (.list [.int 7])), (note, .str "day"), (flag, .bool true)] ∧
      run.2.receivers chain = w.receivers chain ∧ run.1[0]? = run.1[1]? ∧
      run.1[0]? = some (.ok (.typed listed (.list [.int 7, .int 0]))) := by
  intro listed w chain self note flag m calls run
  have hchain : ∀ r ∈ chain, w.InUse r.2 := by
    simp only [chain, List.forall_mem_cons]
    refine ⟨nofun, ?_, nofun⟩
    rintro _ ⟨rfl⟩
    exact Nat.zero_lt_one
  obtain ⟨-, hparams, hzip, -, -, hcalls⟩ := bindAll_consistent m (w.receivers chain)
  obtain ⟨hreceivers, -, hequal⟩ := hcalls Host.builtin.native w chain calls hchain rfl
  refine ⟨hchain, hparams, ?_, hreceivers, hequal _ _ _ _ rfl 0 1 rfl, ?_⟩
  · -- the flag is what the parameter that is left is paired with
    rw [hzip, hparams]
    rfl
  · rfl

end Closure

end TypedValues
