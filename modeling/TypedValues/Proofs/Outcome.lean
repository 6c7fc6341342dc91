import Mathlib.Data.List.Forall2

/-!
# Outcomes

An operation gives a result or faults. An operation made of several gives a result exactly if
each of them does in turn. A reader gives a result or none; what it reads back tells apart.
-/

namespace TypedValues.Outcome

variable {ε α β : Type} {x : Except ε α} {f : α → Except ε β} {g : α → β} {b : β}

theorem bind_eq_ok : (x >>= f) = .ok b ↔ ∃ a, x = .ok a ∧ f a = .ok b := by
  cases x <;> simp [bind, Except.bind]

theorem map_eq_ok : x.map g = .ok b ↔ ∃ a, x = .ok a ∧ g a = b := by
  cases x <;> simp [Except.map]

/-- Steps taken one after another give results exactly if each of them does. -/
theorem mapM_eq_ok {l : List α} {l' : List β} :
    l.mapM f = .ok l' ↔ List.Forall₂ (fun a b => f a = .ok b) l l' := by
  induction l generalizing l' with
  | nil => simp [pure, Except.pure, eq_comm]
  | cons a rest ih =>
    simp only [List.mapM_cons, bind_eq_ok, ih, List.forall₂_cons_left_iff]
    constructor
    · rintro ⟨b, hb, bs, hbs, h⟩
      exact ⟨b, bs, hb, hbs, (Except.ok.inj h).symm⟩
    · rintro ⟨b, bs, hb, hbs, rfl⟩
      exact ⟨b, hb, bs, hbs, rfl⟩

theorem exists_forall₂ {p : α → β → Prop} {l : List α} (h : ∀ a ∈ l, ∃ b, p a b) :
    ∃ l', List.Forall₂ p l l' := by
  induction l with
  | nil => exact ⟨[], .nil⟩
  | cons a rest ih =>
    obtain ⟨⟨b, hb⟩, hrest⟩ := List.forall_mem_cons.mp h
    obtain ⟨bs, hbs⟩ := ih hrest
    exact ⟨b :: bs, .cons hb hbs⟩

theorem exists_of_mem_forall₂ {p : α → β → Prop} {l : List α} {l' : List β}
    (h : List.Forall₂ p l l') (hb : b ∈ l') : ∃ a ∈ l, p a b := by
  induction h with
  | nil => contradiction
  | cons ha _ ih =>
    rcases List.mem_cons.mp hb with rfl | hb
    · exact ⟨_, List.mem_cons_self, ha⟩
    · obtain ⟨a, hmem, ha⟩ := ih hb
      exact ⟨a, List.mem_cons_of_mem _ hmem, ha⟩

theorem exists_append_of_forall₂ {p : α → β → Prop} {before after : List α} {a : α} {l' : List β}
    (h : List.Forall₂ p (before ++ a :: after) l') :
    ∃ before' b after', l' = before' ++ b :: after' ∧ p a b ∧ List.Forall₂ p after after' := by
  have hdrop := List.forall₂_drop_append l' before (a :: after) h.flip
  obtain ⟨b, after', hb, hafter, heq⟩ := List.forall₂_cons_right_iff.mp hdrop
  refine ⟨l'.take before.length, b, after', ?_, hb, hafter.flip⟩
  rw [← heq, List.take_append_drop]

/-- Of two rows that go together, what holds of every two in one holds of every two in the
other. -/
theorem pairwise_iff_of_forall₂ {p : α → β → Prop} {r : α → α → Prop} {r' : β → β → Prop}
    {l : List α} {l' : List β} (h : List.Forall₂ p l l')
    (hpair : ∀ a b a' b', p a b → p a' b' → (r a a' ↔ r' b b')) :
    l.Pairwise r ↔ l'.Pairwise r' := by
  induction h with
  | nil => simp
  | @cons a b rest rest' hfirst hrest ih =>
    have hhead : (∀ a' ∈ rest, r a a') ↔ ∀ b' ∈ rest', r' b b' := by
      constructor
      · intro hall b' hb'
        obtain ⟨a', ha', hmatch⟩ := exists_of_mem_forall₂ hrest hb'
        exact (hpair a b a' b' hfirst hmatch).mp (hall a' ha')
      · intro hall a' ha'
        obtain ⟨b', hb', hmatch⟩ := exists_of_mem_forall₂ hrest.flip ha'
        exact (hpair a b a' b' hfirst hmatch).mpr (hall b' hb')
    rw [List.pairwise_cons, List.pairwise_cons, hhead, ih]

theorem map_eq_map_iff_forall₂ {γ : Type} {seen : α → γ} {seen' : β → γ} {l : List α}
    {l' : List β} : l.map seen = l'.map seen' ↔ List.Forall₂ (fun a b => seen a = seen' b) l l' := by
  rw [← List.forall₂_map_right_iff, ← List.forall₂_map_left_iff, List.forall₂_eq_eq_eq]

theorem pure_eq_ok {c : β} : (pure c : Except ε β) = .ok b ↔ c = b := by
  simp [pure, Except.pure]

/-- What is written alike is read back alike. -/
theorem eq_of_read {γ : Type} {write : α → β} {seen : α → γ} (read : β → Option γ)
    (h : ∀ a, read (write a) = some (seen a)) {a a' : α} (heq : write a = write a') :
    seen a = seen a' := by
  have ha := h a
  rw [heq, h a'] at ha
  exact (Option.some.inj ha).symm

end TypedValues.Outcome
