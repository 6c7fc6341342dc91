/-!
# Dictionaries

A dictionary keyed by text is the list of its entries in ascending order of key, the order in
which it is walked and printed. Text is ordered by code point. The main statements say which
entry a look-up finds after an insertion or a removal; they hold of every list of entries,
ordered or not.
-/

namespace TypedValues

/-- A dictionary from text, as its entries. -/
abbrev Dict (α : Type) := List (String × α)

/-- What an entry holds is smaller than the entries it is among. -/
theorem sizeOf_snd_lt_of_mem {α β : Type} [SizeOf α] [SizeOf β] {e : α × β}
    {entries : List (α × β)} (h : e ∈ entries) : sizeOf e.2 < sizeOf entries := by
  have := List.sizeOf_lt_of_mem h
  obtain ⟨key, value⟩ := e
  simp only [Prod.mk.sizeOf_spec] at this ⊢
  omega

namespace Dict

variable {α : Type}

def find? (key : String) : Dict α → Option α
  | [] => none
  | (k, v) :: rest => if k = key then some v else find? key rest

/-- Stores `value` under `key`: in place of the entry it has, else before the first greater key. -/
def insert (key : String) (value : α) : Dict α → Dict α
  | [] => [(key, value)]
  | (k, v) :: rest =>
    if k = key then (key, value) :: rest
    else if key < k then (key, value) :: (k, v) :: rest
    else (k, v) :: insert key value rest

def erase (key : String) (entries : Dict α) : Dict α :=
  entries.filter (fun e => e.1 ≠ key)

/-- Stores the entries one after another, so that of two under one key the later stays. -/
def ofList (entries : List (String × α)) : Dict α :=
  entries.foldl (fun d e => insert e.1 e.2 d) []

def keys (entries : Dict α) : List String := entries.map Prod.fst

/-- Rewrites the value stored under `key`, if there is one. -/
def modify (key : String) (f : α → α) (entries : Dict α) : Dict α :=
  entries.map (fun e => if e.1 = key then (e.1, f e.2) else e)

/-! ## What a look-up finds -/

@[simp] theorem find?_nil (key : String) : find? key ([] : Dict α) = none := rfl

theorem find?_cons (key k : String) (v : α) (rest : Dict α) :
    find? key ((k, v) :: rest) = if k = key then some v else find? key rest := rfl

@[simp] theorem find?_insert_self (key : String) (value : α) (d : Dict α) :
    find? key (insert key value d) = some value := by
  induction d with
  | nil => simp [insert, find?]
  | cons e rest ih =>
    obtain ⟨k, v⟩ := e
    simp only [insert]
    split
    · simp [find?]
    · split
      · simp [find?]
      · simp [find?, *]

theorem find?_insert_of_ne {key other : String} (h : other ≠ key) (value : α) (d : Dict α) :
    find? other (insert key value d) = find? other d := by
  induction d with
  | nil => simp [insert, find?, Ne.symm h]
  | cons e rest ih =>
    obtain ⟨k, v⟩ := e
    simp only [insert]
    split
    · next hk => subst hk; simp [find?, Ne.symm h]
    · split
      · simp [find?, Ne.symm h]
      · simp [find?, ih]

@[simp] theorem find?_erase_self (key : String) (d : Dict α) : find? key (erase key d) = none := by
  induction d with
  | nil => rfl
  | cons e rest ih =>
    obtain ⟨k, v⟩ := e
    by_cases h : k = key
    · simpa [erase, List.filter_cons, h] using ih
    · simpa [erase, List.filter_cons, h, find?] using ih

theorem find?_erase_of_ne {key other : String} (h : other ≠ key) (d : Dict α) :
    find? other (erase key d) = find? other d := by
  induction d with
  | nil => rfl
  | cons e rest ih =>
    obtain ⟨k, v⟩ := e
    by_cases hk : k = key
    · subst hk
      simpa [erase, List.filter_cons, find?, Ne.symm h] using ih
    · simpa [erase, List.filter_cons, hk, find?] using congrArg (ite (k = other) (some v)) ih

end Dict

end TypedValues
