import SelectionMask.Document.Address
import SelectionMask.Document.Selection
import SelectionMask.Schema.Basic

set_option autoImplicit false

/-! # Visits

A walk looks at one selection after the other, and at some of them more than once: a fragment is
looked at wherever it is spread, and a member's selections as often as a hook asks for them. A visit
says which selection is looked at and how the walk got there. -/

namespace SelectionMask

/-- Where in the schema a walk stands: the type that selections are read at, and the innermost
    field they stand in, if there is one. The field yields that type, or an abstract type that was
    narrowed to it in one step or several. -/
structure Frame where
  type : Name
  enclosing : Option FieldDef
deriving DecidableEq, Repr

/-- A look at one selection. -/
structure Visit where
  frame : Frame
  /-- The fragments being expanded, the innermost last. -/
  expanding : List Name
  /-- The address of the selection. -/
  node : Address
  selection : Selection
deriving Repr

end SelectionMask
