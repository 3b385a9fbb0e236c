import SelectionMask.Schema.Basic

set_option autoImplicit false

/-! # Mask errors

What can be wrong with a query or with the type it is read at. Each error carries the names it is
about; the text shown to a user is `MaskError.message`, the name of the error `MaskError.label`. The
errors form one family, which a program can catch as a whole: `MaskError.ancestors`. -/

namespace SelectionMask

/-- Why no mask can be computed. -/
inductive MaskError where
  /-- There is no type of this name. -/
  | unknownType (type : Name)
  /-- Fields were selected at a type that is not an object type. -/
  | notAnObjectType (type : Name) (kind : TypeKind)
  /-- The object type has no such field. It may also be that the walk began at another type than the
      query was written for. -/
  | unknownField (type field : Name)
  /-- A fragment is spread that is not defined. -/
  | unknownFragment (fragment : Name)
  /-- A fragment is spread inside its own expansion. -/
  | fragmentCycle (fragment : Name)
  /-- Any other error of this family, with a text of its own. No walk gives it. -/
  | general (text : String)
deriving DecidableEq, Repr

namespace MaskError

/-- The text of the error. -/
def message : MaskError → String
  | unknownType type => type ++ " type is not found"
  | notAnObjectType type kind => type ++ " is " ++ kind.name ++ ", but want OBJECT"
  | unknownField type field => type ++ "." ++ field ++ " is not found"
  | unknownFragment fragment => "Fragment " ++ fragment ++ " is not found"
  | fragmentCycle fragment => "Fragment " ++ fragment ++ " spreads itself"
  | general text => text

/-- The name of the error. -/
def label : MaskError → String
  | unknownType _ => "UnknownTypeError"
  | notAnObjectType _ _ => "NotAnObjectTypeError"
  | unknownField _ _ => "UnknownFieldError"
  | unknownFragment _ => "UnknownFragmentError"
  | fragmentCycle _ => "FragmentCycleError"
  | general _ => "FieldMaskError"

/-- The kinds of error that this one is a case of, the closest first. -/
def ancestors : MaskError → List String
  | general _ => ["GraphQLError", "Exception"]
  | _ => ["FieldMaskError", "GraphQLError", "Exception"]

end MaskError

end SelectionMask
