import SelectionMask.Hooks.Basic
import SelectionMask.Text.SnakeCase

set_option autoImplicit false

/-! # Hooks that read the schema's metadata

With these hooks a schema says itself what its mask looks like. A field without metadata, or whose
names are left out or cleared, is not in the mask. A member of an abstract type stands under its
segment: the one its metadata gives, or else its name in snake case; a cleared segment leaves it
out. -/

namespace SelectionMask

/-- The names that the field's metadata gives. -/
def FieldDef.metadataNames (f : FieldDef) : Option (OneOrMany String) :=
  f.metadata.bind fun m => m.maskNames.value?

/-- The paths that the field's metadata adds. -/
def FieldDef.metadataExtraPaths (f : FieldDef) : List String :=
  match f.metadata with
  | none => []
  | some m => m.extraPathList

/-- The segment of a member, from its name and metadata. -/
def memberSegment (name : Name) (metadata : Option TypeMetadata) : Option String :=
  match metadata with
  | none => some (snakeCase name)
  | some m =>
      match m.segment with
      | .unset => some (snakeCase name)
      | .cleared => none
      | .given segment => some segment

/-- The segment of the member that a fragment narrows to. -/
def Narrowing.segment (n : Narrowing) : Option String :=
  memberSegment n.concreteType n.concreteMetadata

namespace Hooks

/-- Names from the metadata. -/
def metadataNames : NameHook :=
  fun site => .ok site.field.metadataNames

/-- Extra paths from the metadata. -/
def metadataExtraPaths : ExtraHook :=
  fun site => .ok site.field.metadataExtraPaths

/-- Each member under the segment that a function gives for it. -/
def underSegments (segment : Narrowing → Except String (Option String)) : NarrowingHook :=
  fun n =>
    match segment n with
    | .ok s => .underSegment s
    | .error text => .refuse text

/-- Each member under its own segment. -/
def memberSegments : NarrowingHook :=
  underSegments fun n => .ok n.segment

/-- All three hooks as the metadata has it. -/
def ofMetadata : Hooks :=
  ⟨some metadataNames, some metadataExtraPaths, some memberSegments⟩

end Hooks

end SelectionMask
