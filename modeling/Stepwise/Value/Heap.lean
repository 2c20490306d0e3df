import Stepwise.Value.Basic

/-!
# The heap

The records that a running program has made, each a row of field values, numbered in the order of
their making. A record is never removed and never changes its number of fields.
-/

set_option autoImplicit false

namespace Stepwise

/-- The records made so far. -/
structure Heap where
  records : Array (Array Value)
  deriving Repr

namespace Heap

/-- The heap without records. -/
def empty : Heap := ⟨#[]⟩

instance : Inhabited Heap := ⟨empty⟩

/-- Makes a record. -/
def allocate (h : Heap) (fields : List Value) : Nat × Heap :=
  (h.records.size, ⟨h.records.push fields.toArray⟩)

/-- The fields of a record; none if there is no such record. -/
def fields (h : Heap) (id : Nat) : List Value := ((h.records[id]?).getD #[]).toList

/-- A field of a record; nothing if there is none. -/
def get (h : Heap) (id index : Nat) : Value := (((h.records[id]?).getD #[])[index]?).getD .nothing

/-- Sets a field of a record, if there is one. -/
def set (h : Heap) (id index : Nat) (value : Value) : Heap :=
  ⟨h.records.modify id fun row => row.setIfInBounds index value⟩

/-- Setting a field makes or removes no record. -/
@[simp] theorem size_set (h : Heap) (id index : Nat) (value : Value) :
    (h.set id index value).records.size = h.records.size := by
  simp [set]

/-- Making a record takes the next number. -/
theorem allocate_fst (h : Heap) (fields : List Value) :
    (h.allocate fields).1 = h.records.size := rfl

/-- A record is made with the fields it is given. -/
@[simp] theorem fields_allocate_self (h : Heap) (fields : List Value) :
    (h.allocate fields).2.fields (h.allocate fields).1 = fields := by
  simp [allocate, Heap.fields]

/-- Making a record leaves the fields of the others alone. -/
theorem fields_allocate_of_ne (h : Heap) (fields : List Value) {id : Nat}
    (hid : id ≠ h.records.size) :
    (h.allocate fields).2.fields id = h.fields id := by
  simp [allocate, Heap.fields, Array.getElem?_push, hid]

/-- Setting a field changes that field of that record and nothing else. -/
theorem fields_set (h : Heap) (id index other : Nat) (value : Value) :
    (h.set id index value).fields other = if id = other then (h.fields other).set index value else
      h.fields other := by
  by_cases hid : id = other
  · subst hid
    cases hr : h.records[id]? <;> simp [set, fields, Array.getElem?_modify, hr]
  · simp [set, fields, Array.getElem?_modify, hid]

/-- Reading a field is reading its place in the row. -/
theorem get_eq_getD_fields (h : Heap) (id index : Nat) :
    h.get id index = ((h.fields id)[index]?).getD .nothing := by
  simp [get, fields]

end Heap

end Stepwise
