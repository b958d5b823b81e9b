import GhciHost.Number.Binary64

/-! # JSON values

Integers are unbounded and kept apart from numbers written with a fraction or an exponent.
The members of an object keep the order in which their names first appeared. -/

namespace GhciHost

/-- A JSON value. -/
inductive Json
  | null
  | bool (b : Bool)
  | int (n : Int)
  | float (x : Binary64)
  | str (s : String)
  | arr (items : List Json)
  | obj (members : List (String × Json))
deriving Inhabited

namespace Json

/-- Set a member: the value of a known name is replaced where it stands, a new name comes
    last. -/
def insertMember (k : String) (v : α) : List (String × α) → List (String × α)
  | [] => [(k, v)]
  | (k', v') :: ms => if k' = k then (k, v) :: ms else (k', v') :: insertMember k v ms

/-- The members in the order of their names' first appearance, each with its last value. -/
def ofMembers (ms : List (String × α)) : List (String × α) :=
  ms.foldl (fun acc m => insertMember m.1 m.2 acc) []

/-- The value of a member. -/
def get? (j : Json) (k : String) : Option Json :=
  match j with
  | .obj ms => ms.lookup k
  | _ => none

/-- The text of a string value. -/
def str? : Json → Option String
  | .str s => some s
  | _ => none

/-- The items of an array. -/
def arr? : Json → Option (List Json)
  | .arr xs => some xs
  | _ => none

/-- The members of an object. -/
def obj? : Json → Option (List (String × Json))
  | .obj ms => some ms
  | _ => none

theorem lookup_insertMember_self (k : String) (v : α) (ms : List (String × α)) :
    (insertMember k v ms).lookup k = some v := by
  induction ms with
  | nil => simp [insertMember]
  | cons m ms ih =>
    obtain ⟨k', v'⟩ := m
    rw [insertMember]
    split
    · simp
    · next h =>
      have : (k == k') = false := by simpa using fun e => h e.symm
      simp [List.lookup_cons, this, ih]

theorem lookup_insertMember_of_ne {k k' : String} (h : k' ≠ k) (v : α) (ms : List (String × α)) :
    (insertMember k v ms).lookup k' = ms.lookup k' := by
  induction ms with
  | nil =>
    have : (k' == k) = false := by simpa using h
    simp [insertMember, List.lookup_cons, this]
  | cons m ms ih =>
    obtain ⟨k₁, v₁⟩ := m
    rw [insertMember]
    split
    · next e =>
      subst e
      have : (k' == k₁) = false := by simpa using h
      simp [List.lookup_cons, this]
    · simp [List.lookup_cons, ih]

end Json

end GhciHost
