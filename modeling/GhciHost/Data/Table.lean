/-! # Tables

Rows with the numbers under which they were added, from zero.

* `get?_modify`   what a change of one row does to the others;
* `get?_push`   a new row gets the number `size`;
* `ext`   tables with the same rows are the same. -/

namespace GhciHost

/-- Numbered rows. -/
structure Table (α : Type u) where
  rows : Array α := #[]
deriving Repr

namespace Table

variable {α : Type u}

instance : Inhabited (Table α) := ⟨{}⟩

/-- The number of rows, and of the next one. -/
def size (t : Table α) : Nat := t.rows.size

/-- The row of a number. -/
def get? (t : Table α) (i : Nat) : Option α := t.rows[i]?

/-- Add a row. -/
def push (t : Table α) (a : α) : Table α := ⟨t.rows.push a⟩

/-- Change a row; nothing happens if there is no such row. -/
def modify (t : Table α) (i : Nat) (f : α → α) : Table α := ⟨t.rows.modify i f⟩

/-- The rows in order. -/
def toList (t : Table α) : List α := t.rows.toList

@[simp] theorem size_push (t : Table α) (a : α) : (t.push a).size = t.size + 1 := by
  simp [size, push]

@[simp] theorem size_modify (t : Table α) (i : Nat) (f : α → α) : (t.modify i f).size = t.size := by
  simp [size, modify]

theorem get?_push (t : Table α) (a : α) (i : Nat) :
    (t.push a).get? i = if i = t.size then some a else t.get? i := by
  simp only [get?, push, size]
  exact Array.getElem?_push

theorem get?_modify (t : Table α) (i j : Nat) (f : α → α) :
    (t.modify i f).get? j = if i = j then (t.get? j).map f else t.get? j := by
  simp [get?, modify, Array.getElem?_modify]

theorem ext {t u : Table α} (h : ∀ i, t.get? i = u.get? i) : t = u := by
  obtain ⟨rows⟩ := t
  obtain ⟨rows'⟩ := u
  exact congrArg _ (Array.ext_getElem? h)

theorem get?_eq_none {t : Table α} {i : Nat} (h : t.size ≤ i) : t.get? i = none := by
  simpa [get?, size] using h

theorem lt_size_of_get? {t : Table α} {i : Nat} {a : α} (h : t.get? i = some a) : i < t.size := by
  simp only [get?] at h
  exact (Array.getElem?_eq_some_iff.1 h).1

theorem exists_get? {t : Table α} {i : Nat} (h : i < t.size) : ∃ a, t.get? i = some a :=
  ⟨t.rows[i], Array.getElem?_eq_getElem h⟩

end Table

end GhciHost
