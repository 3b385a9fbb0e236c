import SelectionMask.Value.Basic

set_option autoImplicit false

/-! # Mask metadata

What the author of a schema may note at a field or a type for the mask: the names a field goes by,
paths to add next to it, and the path segment of a type as a member of an abstract type. An entry
can be left out, and some can be cleared, which is not the same: a type without an entry gets a
segment made from its name, a type whose entry is cleared is left out of the mask.

Metadata is written as a record. Entries that mean nothing for the mask, or that do not have the
form they should, may stand in it too; they are kept as they are and written back. -/

namespace SelectionMask

/-- An entry of the metadata. -/
inductive Entry (α : Type) where
  /-- The entry is left out. -/
  | unset
  /-- The entry is there and says that there is nothing. -/
  | cleared
  | given (a : α)
deriving DecidableEq, Repr

namespace Entry

variable {α : Type}

/-- What the entry holds, if it holds something. -/
def value? : Entry α → Option α
  | unset => none
  | cleared => none
  | given a => some a

/-- Read an entry that is there: null clears it. -/
def ofValue? (read : Value → Option α) : Value → Option (Entry α)
  | .atom .null => some cleared
  | v => (read v).map given

/-- The entry under its key, as it is written. -/
def toEntries (key : String) (write : α → Value) : Entry α → List (String × Value)
  | unset => []
  | cleared => [(key, .atom .null)]
  | given a => [(key, write a)]

end Entry

/-! ## Fields -/

/-- The metadata of a field. -/
structure FieldMetadata where
  /-- The names of the field in the mask. -/
  maskNames : Entry (OneOrMany String)
  /-- Paths that the mask gets next to the field. -/
  extraPaths : Option (Series String)
  /-- Entries without a meaning for the mask. -/
  others : List (String × Value)
deriving DecidableEq, Repr

namespace FieldMetadata

/-- The key of the field's names. -/
def namesKey : String := "field_name"

/-- The key of the paths to add. -/
def extraKey : String := "extra_fields"

/-- The paths that the metadata adds; a text counts as the list of its characters. -/
def extraPathList (m : FieldMetadata) : List String :=
  match m.extraPaths with
  | none => []
  | some paths => paths.elements id

/-- Keep an entry as it is: its key has no meaning for the mask, or its value not the form of the
    key. -/
def keep (m : FieldMetadata) (entry : String × Value) : FieldMetadata :=
  { m with others := m.others ++ [entry] }

/-- The metadata with one more entry of the record. -/
def enter (m : FieldMetadata) (entry : String × Value) : FieldMetadata :=
  if entry.1 = namesKey then
    match Entry.ofValue? Value.textOrTexts? entry.2 with
    | some names => { m with maskNames := names }
    | none => m.keep entry
  else if entry.1 = extraKey then
    match entry.2.series? with
    | some paths => { m with extraPaths := some paths }
    | none => m.keep entry
  else m.keep entry

/-- The metadata that a record holds. -/
def ofEntries (entries : List (String × Value)) : FieldMetadata :=
  entries.foldl enter ⟨.unset, none, []⟩

/-- The metadata as a record. -/
def toEntries (m : FieldMetadata) : List (String × Value) :=
  m.maskNames.toEntries namesKey Value.ofOneOrMany
    ++ (m.extraPaths.map fun paths => (extraKey, Value.ofSeries paths)).toList
    ++ m.others

end FieldMetadata

/-! ## Types -/

/-- The metadata of a type. -/
structure TypeMetadata where
  /-- The segment under which the type's paths stand when it narrows an abstract type. -/
  segment : Entry String
  /-- Entries without a meaning for the mask. -/
  others : List (String × Value)
deriving DecidableEq, Repr

namespace TypeMetadata

/-- The key of the segment. -/
def segmentKey : String := "oneof_name"

/-- Keep an entry as it is: its key has no meaning for the mask, or its value not the form of the
    key. -/
def keep (m : TypeMetadata) (entry : String × Value) : TypeMetadata :=
  { m with others := m.others ++ [entry] }

/-- The metadata with one more entry of the record. -/
def enter (m : TypeMetadata) (entry : String × Value) : TypeMetadata :=
  if entry.1 = segmentKey then
    match Entry.ofValue? Value.text? entry.2 with
    | some segment => { m with segment := segment }
    | none => m.keep entry
  else m.keep entry

/-- The metadata that a record holds. -/
def ofEntries (entries : List (String × Value)) : TypeMetadata :=
  entries.foldl enter ⟨.unset, []⟩

/-- The metadata as a record. -/
def toEntries (m : TypeMetadata) : List (String × Value) :=
  m.segment.toEntries segmentKey Value.text ++ m.others

end TypeMetadata

end SelectionMask
