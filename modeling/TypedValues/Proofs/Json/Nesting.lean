import TypedValues.Proofs.Json.Reader

/-!
# The nesting limit

A container is opened only where fewer than the limit are open. So no tree that is read nests
deeper than the limit (`Json.depth_le_of_read?`), and the text of a tree is read as the tree
exactly if the tree does not nest deeper (`Json.read?_text`).
-/

namespace TypedValues.Json

variable {limit : Nat} {waiting : List Frame} {j : Json}

/-! ## Depth -/

theorem itemsDepth_le {items : List Json} {n : Nat} :
    itemsDepth items ≤ n ↔ ∀ j ∈ items, j.depth ≤ n := by
  induction items with
  | nil => simp [itemsDepth]
  | cons j rest ih => rw [itemsDepth, Nat.max_le, ih, List.forall_mem_cons]

theorem membersDepth_le {members : List (String × Json)} {n : Nat} :
    membersDepth members ≤ n ↔ ∀ m ∈ members, m.2.depth ≤ n := by
  induction members with
  | nil => simp [membersDepth]
  | cons m rest ih =>
    obtain ⟨name, j⟩ := m
    rw [membersDepth, Nat.max_le, ih, List.forall_mem_cons]

theorem depth_arr_append (items : List Json) (j : Json) :
    (arr (items ++ [j])).depth = max (arr items).depth (j.depth + 1) := by
  simp only [depth]
  induction items with
  | nil => simp [itemsDepth]
  | cons k rest ih => simp only [List.cons_append, itemsDepth]; omega

theorem depth_obj_append (members : List (String × Json)) (name : String) (j : Json) :
    (obj (members ++ [(name, j)])).depth = max (obj members).depth (j.depth + 1) := by
  simp only [depth]
  induction members with
  | nil => simp [membersDepth]
  | cons m rest ih =>
    obtain ⟨name', k⟩ := m
    simp only [List.cons_append, membersDepth]
    omega

/-! ## What has been read fits into the limit -/

/-- A waiting container with what it has so far. -/
def Frame.begun : Frame → Json
  | .item before => .arr before
  | .member before _ => .obj before

/-- The container that is open, with what it has so far, or the finished value. -/
def Phase.begun? : Phase → Option Json
  | .value => none
  | .firstItem => some (.arr [])
  | .afterItem items => some (.arr items)
  | .firstName => some (.obj [])
  | .nextName members | .afterName members _ | .afterMember members => some (.obj members)
  | .finished j => some j

/-- Each waiting container, with what it has so far, fits into those it is inside of. -/
def FramesFit (limit : Nat) : List Frame → Prop
  | [] => True
  | f :: rest => f.begun.depth + rest.length ≤ limit ∧ FramesFit limit rest

theorem FramesFit.length_le (h : FramesFit limit waiting) : waiting.length ≤ limit := by
  cases waiting with
  | nil => exact Nat.zero_le limit
  | cons f rest =>
    have hone : 1 ≤ f.begun.depth := by cases f <;> exact Nat.le_add_left 1 _
    have := h.1
    rw [List.length_cons]
    omega

namespace Reading

/-- No container that is begun is deeper than the limit allows at its place. -/
structure Fits (limit : Nat) (r : Reading) : Prop where
  waiting : FramesFit limit r.waiting
  phase : ∀ j, r.phase.begun? = some j → j.depth + r.waiting.length ≤ limit

theorem fits_attach (hw : FramesFit limit waiting) (hj : j.depth + waiting.length ≤ limit) :
    (attach waiting j).Fits limit := by
  match waiting with
  | [] => exact ⟨hw, fun k hk => Option.some.inj hk ▸ hj⟩
  | .item before :: rest =>
    refine ⟨hw.2, ?_⟩
    rintro k ⟨rfl⟩
    have hbefore : (arr before).depth + rest.length ≤ limit := hw.1
    rw [List.length_cons] at hj
    simp only [attach, depth_arr_append]
    omega
  | .member before name :: rest =>
    refine ⟨hw.2, ?_⟩
    rintro k ⟨rfl⟩
    have hbefore : (obj before).depth + rest.length ≤ limit := hw.1
    rw [List.length_cons] at hj
    simp only [attach, depth_obj_append]
    omega

variable {r s : Reading} {t : Token}

theorem fits_start (hw : FramesFit limit waiting) (h : start limit waiting t = some s) :
    s.Fits limit := by
  have hleaf {k : Json} (hk : k.depth = 0) : (attach waiting k).Fits limit :=
    fits_attach hw (by rw [hk, Nat.zero_add]; exact hw.length_le)
  cases t with
  | null | bool | number | str =>
    cases h
    exact hleaf rfl
  | openBracket | openBrace =>
    simp only [start] at h
    split at h
    · next hlt =>
      cases h
      refine ⟨hw, ?_⟩
      rintro k ⟨rfl⟩
      show 1 + waiting.length ≤ limit
      omega
    · contradiction
  | closeBracket | closeBrace | comma | colon => contradiction

/-- After an opening bracket all but the closing one starts an item. -/
theorem step_firstItem (h : t ≠ .closeBracket) :
    Reading.step limit ⟨waiting, .firstItem⟩ t = start limit (.item [] :: waiting) t := by
  cases t with
  | closeBracket => contradiction
  | _ => rfl

/-- One token keeps everything within the limit. -/
theorem Fits.step (hr : r.Fits limit) (h : r.step limit t = some s) : s.Fits limit := by
  obtain ⟨waiting, phase⟩ := r
  have hw : FramesFit limit waiting := hr.waiting
  have hphase : ∀ j, phase.begun? = some j → j.depth + waiting.length ≤ limit := hr.phase
  cases phase with
  | value => exact fits_start hw h
  | firstItem =>
    by_cases ht : t = .closeBracket
    · subst ht
      cases h
      exact fits_attach hw (hphase _ rfl)
    · rw [step_firstItem ht] at h
      have hw' : FramesFit limit (.item [] :: waiting) := ⟨hphase _ rfl, hw⟩
      exact fits_start hw' h
  | afterItem items =>
    cases t with
    | closeBracket => cases h; exact fits_attach hw (hphase _ rfl)
    -- the array waits for its next item with the ones that it has
    | comma => cases h; exact ⟨⟨hphase _ rfl, hw⟩, fun _ hk => nomatch hk⟩
    | _ => contradiction
  | firstName =>
    cases t with
    | closeBrace => cases h; exact fits_attach hw (hphase _ rfl)
    | str name => cases h; exact ⟨hw, hphase⟩
    | _ => contradiction
  | nextName members =>
    cases t with
    | str name => cases h; exact ⟨hw, hphase⟩
    | _ => contradiction
  | afterName members name =>
    cases t with
    | colon => cases h; exact ⟨⟨hphase _ rfl, hw⟩, fun _ hk => nomatch hk⟩
    | _ => contradiction
  | afterMember members =>
    cases t with
    | closeBrace => cases h; exact fits_attach hw (hphase _ rfl)
    | comma => cases h; exact ⟨hw, hphase⟩
    | _ => contradiction
  | finished k => cases t <;> contradiction

theorem Fits.run {tokens : List Token} (hr : r.Fits limit)
    (h : tokens.foldlM (Reading.step limit) r = some s) : s.Fits limit := by
  induction tokens generalizing r with
  | nil =>
    cases h
    exact hr
  | cons t rest ih =>
    rw [List.foldlM_cons] at h
    obtain ⟨r', hstep, hrest⟩ := Option.bind_eq_some_iff.mp h
    exact ih (hr.step hstep) hrest

/-! ## Higher limits -/

variable {limit' : Nat}

theorem step_mono (hle : limit ≤ limit') (h : r.step limit t = some s) :
    r.step limit' t = some s := by
  have hstart (waiting : List Frame) (h : start limit waiting t = some s) :
      start limit' waiting t = some s := by
    cases t with
    | openBracket | openBrace =>
      simp only [start] at h ⊢
      split at h
      · next hlt => rwa [if_pos (Nat.lt_of_lt_of_le hlt hle)]
      · contradiction
    | _ => exact h
  obtain ⟨waiting, phase⟩ := r
  cases phase with
  | value => exact hstart waiting h
  | firstItem =>
    by_cases ht : t = .closeBracket
    · subst ht
      exact h
    · rw [step_firstItem ht] at h ⊢
      exact hstart _ h
  | _ => cases t <;> exact h

theorem run_mono {tokens : List Token} (hle : limit ≤ limit')
    (h : tokens.foldlM (step limit) r = some s) : tokens.foldlM (step limit') r = some s := by
  induction tokens generalizing r with
  | nil => exact h
  | cons t rest ih =>
    rw [List.foldlM_cons] at h ⊢
    obtain ⟨r', hstep, hrest⟩ := Option.bind_eq_some_iff.mp h
    rw [step_mono hle hstep]
    exact ih hrest

end Reading

/-! ## What is read -/

variable {limit' : Nat} {tokens : List Token}

theorem depth_le_of_ofTokens? (h : ofTokens? limit tokens = some j) : j.depth ≤ limit := by
  obtain ⟨⟨waiting, phase⟩, hrun, hresult⟩ := Option.bind_eq_some_iff.mp h
  have hstart : Reading.Fits limit ⟨[], .value⟩ := ⟨trivial, fun _ hk => nomatch hk⟩
  cases phase with
  | finished k =>
    obtain rfl : k = j := Option.some.inj hresult
    have := (hstart.run hrun).phase k rfl
    omega
  | _ => contradiction

theorem ofTokens?_mono (hle : limit ≤ limit') (h : ofTokens? limit tokens = some j) :
    ofTokens? limit' tokens = some j := by
  obtain ⟨r, hrun, hresult⟩ := Option.bind_eq_some_iff.mp h
  rw [ofTokens?, Reading.run_mono hle hrun]
  exact hresult

/-- The tokens of a tree that nests deeper than the limit are refused. -/
theorem ofTokens?_emit_of_lt (h : limit < j.depth) : ofTokens? limit (j.emit []) = none := by
  rw [Option.eq_none_iff_forall_ne_some]
  intro k hk
  -- under a limit that is high enough they are read as the tree, and as what was read before
  have htree : ofTokens? j.depth (j.emit []) = some j := ofTokens?_emit (Nat.le_refl _)
  rw [ofTokens?_mono (Nat.le_of_lt h) hk] at htree
  obtain rfl := Option.some.inj htree
  have := depth_le_of_ofTokens? hk
  omega

theorem depth_le_of_read? {text : List Char} (h : read? text = some j) :
    j.depth ≤ nestingLimit := by
  obtain ⟨tokens, -, hread⟩ := Option.bind_eq_some_iff.mp h
  exact depth_le_of_ofTokens? hread

/-- The text of a tree is read back if the tree nests no deeper than the limit, and else
refused. -/
theorem read?_text (hj : j.Legal) :
    read? j.text = if j.depth ≤ nestingLimit then some j else none := by
  rw [read?, tokens?_text hj, Option.bind_some]
  split
  · next h => exact ofTokens?_emit h
  · next h => exact ofTokens?_emit_of_lt (by omega)

end TypedValues.Json
