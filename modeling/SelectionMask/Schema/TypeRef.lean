set_option autoImplicit false

/-! # Type references

A field of a schema refers to a named type, possibly inside list brackets and non-null marks, such
as `[[Root!]!]!`. The wrappers matter only for the text that is shown: what is selected below the
field is read at the named type. -/

namespace SelectionMask

/-- The name of a type, a field or a fragment. -/
abbrev Name := String

/-- A named type inside any number of list and non-null wrappers. -/
inductive TypeRef where
  | named (name : Name)
  | list (element : TypeRef)
  | nonNull (inner : TypeRef)
deriving DecidableEq, Repr, Inhabited

namespace TypeRef

/-- The type that is left when all wrappers are taken off. -/
def namedType : TypeRef → Name
  | named name => name
  | list element => element.namedType
  | nonNull inner => inner.namedType

/-- The reference as it is written in a schema. -/
def render : TypeRef → String
  | named name => name
  | list element => "[" ++ element.render ++ "]"
  | nonNull inner => inner.render ++ "!"

/-- Whether a character closes a wrapper. -/
def closesWrapper (c : Char) : Bool :=
  c == ']' || c == '!'

/-- Put the wrapper around a reference that its closing character stands for. -/
def wrap (inner : TypeRef) (c : Char) : TypeRef :=
  if c == ']' then list inner else nonNull inner

/-- Read a reference. The opening brackets say nothing that the closing ones do not say again, so
    the name is what stands before the first closing character, and each closing character wraps
    what stands before it. -/
def ofString (text : String) : TypeRef :=
  let opened := text.toList.dropWhile (· == '[')
  let name := opened.takeWhile fun c => !closesWrapper c
  let closings := opened.dropWhile fun c => !closesWrapper c
  closings.foldl wrap (named (String.ofList name))

@[simp] theorem namedType_named (name : Name) : (named name).namedType = name := rfl

@[simp] theorem namedType_list (t : TypeRef) : (list t).namedType = t.namedType := rfl

@[simp] theorem namedType_nonNull (t : TypeRef) : (nonNull t).namedType = t.namedType := rfl

end TypeRef

end SelectionMask
