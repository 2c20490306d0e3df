/-!
# Tables that remember their order

A table maps names to entries and lists them in the order in which the names were first inserted.
Inserting a name again replaces its entry and leaves its place alone.
-/

set_option autoImplicit false

namespace Stepwise

/-- A table from names to entries, in order of first insertion. -/
structure OrderedTable (α : Type) where
  entries : List (String × α)
  deriving Repr, DecidableEq

namespace OrderedTable

variable {α : Type}

/-- The table without entries. -/
def empty : OrderedTable α := ⟨[]⟩

instance : Inhabited (OrderedTable α) := ⟨empty⟩

/-- The entry under a name in a list of entries. -/
def lookup : List (String × α) → String → Option α
  | [], _ => none
  | (k, v) :: rest, key => if k = key then some v else lookup rest key

/-- The entries with one name's entry replaced, or appended if the name is new. -/
def put : List (String × α) → String → α → List (String × α)
  | [], key, value => [(key, value)]
  | (k, v) :: rest, key, value =>
    if k = key then (key, value) :: rest else (k, v) :: put rest key value

/-- The entry under a name. -/
def find? (t : OrderedTable α) (key : String) : Option α := lookup t.entries key

/-- Whether the table has an entry under a name. -/
def has (t : OrderedTable α) (key : String) : Bool := (t.find? key).isSome

/-- The table with an entry set. -/
def insert (t : OrderedTable α) (key : String) (value : α) : OrderedTable α :=
  ⟨put t.entries key value⟩

/-- The table with the entry under a name changed, if there is one. -/
def adjust (t : OrderedTable α) (key : String) (f : α → α) : OrderedTable α :=
  match t.find? key with
  | none => t
  | some v => t.insert key (f v)

/-- The entries in order. -/
def values (t : OrderedTable α) : List α := t.entries.map (·.2)

/-- The names in order. -/
def keys (t : OrderedTable α) : List String := t.entries.map (·.1)

@[simp] theorem find?_empty (key : String) : (empty : OrderedTable α).find? key = none := rfl

@[simp] theorem find?_insert_self (t : OrderedTable α) (key : String) (value : α) :
    (t.insert key value).find? key = some value := by
  obtain ⟨entries⟩ := t
  simp only [insert, find?]
  induction entries with
  | nil => simp [put, lookup]
  | cons e rest ih =>
    obtain ⟨k, v⟩ := e
    by_cases h : k = key <;> simp [put, lookup, h, ih]

theorem find?_insert_of_ne (t : OrderedTable α) {key other : String} (value : α) (h : other ≠ key) :
    (t.insert key value).find? other = t.find? other := by
  obtain ⟨entries⟩ := t
  simp only [insert, find?]
  induction entries with
  | nil => simp [put, lookup, Ne.symm h]
  | cons e rest ih =>
    obtain ⟨k, v⟩ := e
    by_cases hk : k = key
    · subst hk
      simp [put, lookup, Ne.symm h]
    · by_cases ho : k = other
      · subst ho
        simp [put, lookup, hk]
      · simp [put, lookup, hk, ho, ih]

/-- A new name goes to the end; a known one keeps its place. -/
theorem keys_insert (t : OrderedTable α) (key : String) (value : α) :
    (t.insert key value).keys = if t.has key then t.keys else t.keys ++ [key] := by
  obtain ⟨entries⟩ := t
  simp only [insert, keys, has, find?]
  induction entries with
  | nil => simp [put, lookup]
  | cons e rest ih =>
    obtain ⟨k, v⟩ := e
    by_cases h : k = key
    · simp [put, lookup, h]
    · simp only [put, lookup, h, if_false, List.map_cons, ih]
      by_cases hs : (lookup rest key).isSome = true <;> simp [hs]

end OrderedTable

end Stepwise
