/-! # Checks that collect all issues

A check yields a value or every issue that was found, in the order of the parts that were
checked.  Each issue has the path of the part that it is about. -/

namespace GhciHost.Record

/-- One step of a path into a value. -/
inductive Step
  | member (name : String)
  | item (index : Nat)
deriving DecidableEq, Repr

/-- What is wrong with a value. -/
inductive Cause
  | notText
  | notInteger
  | unreadableInteger
  | oversizedInteger
  | fractionalInteger
  | notFinite
  | negative
  | notNumber
  | unreadableNumber
  | notTruth
  | unreadableTruth
  | notChoice
  | notTuple
  | notList
  | notMapping
  | missing
  | notRecord
  | notTagged
  | tagMissing
  | tagUnknown
  /-- A rule of the record is broken. -/
  | rule (message : String)
deriving DecidableEq, Repr

/-- The name of a cause. -/
def Cause.name : Cause → String
  | .notText => "string_type"
  | .notInteger => "int_type"
  | .unreadableInteger => "int_parsing"
  | .oversizedInteger => "int_parsing_size"
  | .fractionalInteger => "int_from_float"
  | .notFinite => "finite_number"
  | .negative => "greater_than_equal"
  | .notNumber => "float_type"
  | .unreadableNumber => "float_parsing"
  | .notTruth => "bool_type"
  | .unreadableTruth => "bool_parsing"
  | .notChoice => "enum"
  | .notTuple => "tuple_type"
  | .notList => "list_type"
  | .notMapping => "dict_type"
  | .missing => "missing"
  | .notRecord => "model_type"
  | .notTagged => "model_attributes_type"
  | .tagMissing => "union_tag_not_found"
  | .tagUnknown => "union_tag_invalid"
  | .rule _ => "value_error"

/-- The explanation that goes with a broken rule. -/
def Cause.message? : Cause → Option String
  | .rule message => some ("Value error, " ++ message)
  | _ => none

/-- Something wrong at some place of a value. -/
structure Issue where
  path : List Step
  cause : Cause
deriving DecidableEq, Repr

/-- A value, or all that is wrong. -/
inductive Check (α : Type u)
  | ok (a : α)
  | bad (issues : List Issue)
deriving Repr

namespace Check

/-- An issue with the value itself. -/
def fail (c : Cause) : Check α := bad [⟨[], c⟩]

def map (f : α → β) : Check α → Check β
  | ok a => ok (f a)
  | bad is => bad is

/-- Check two parts; the issues of both are kept. -/
def seq (f : Check (α → β)) (x : Check α) : Check β :=
  match f, x with
  | ok f, ok a => ok (f a)
  | ok _, bad is => bad is
  | bad is, ok _ => bad is
  | bad is, bad js => bad (is ++ js)

instance : Functor Check := ⟨map, fun a x => map (fun _ => a) x⟩

instance : Applicative Check where
  pure := ok
  seq f x := Check.seq f (x ())

/-- Go on with a value that was found good. -/
def andThen (x : Check α) (f : α → Check β) : Check β :=
  match x with
  | ok a => f a
  | bad is => bad is

/-- The check of a part of a value. -/
def under (s : Step) : Check α → Check α
  | ok a => ok a
  | bad is => bad (is.map fun i => { i with path := s :: i.path })

/-- Check all items; each issue has the index of its item. -/
def items (check : α → Check β) (xs : List α) : Check (List β) :=
  let rec go : Nat → List α → Check (List β)
    | _, [] => ok []
    | i, x :: xs => (List.cons <$> (check x).under (.item i)) <*> go (i + 1) xs
  go 0 xs

@[simp] theorem seq_ok_ok (f : α → β) (a : α) : seq (ok f) (ok a) = ok (f a) := rfl

theorem under_eq_ok {s : Step} {x : Check α} {a : α} : x.under s = ok a ↔ x = ok a := by
  cases x <;> simp [under]

end Check

end GhciHost.Record
