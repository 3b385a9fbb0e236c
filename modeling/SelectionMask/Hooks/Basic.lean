import SelectionMask.Hooks.Strategy
import SelectionMask.Schema.Basic

set_option autoImplicit false

/-! # Hooks

The three places where a caller may shape the mask: the names of a field, paths to add next to it,
and the paths of a member that narrows an abstract type. A hook that is not set leaves the default:
a field goes by its own name, nothing is added, and narrowing fragments are ignored.

A field hook is told the type, the definition of the field and the alias of the selection. A
narrowing hook is told the two types, the metadata of the member and the field that the fragment
stands in. Both are functions of just that, and where a hook goes wrong it refuses with a text.

This leaves some hooks out: those that keep state from one call to the next, those that read more of a
selection than its alias (its arguments or directives) or more of the schema than they are told, and
those that end with one of the errors of the query themselves. -/

namespace SelectionMask

/-- A visit of a field, as a field hook sees it. -/
structure FieldSite where
  /-- The object type that has the field. -/
  parentType : Name
  field : FieldDef
  /-- The alias of the selection. -/
  aliasName : Option String
deriving DecidableEq, Repr

/-- A fragment that narrows an abstract type, as the narrowing hook sees it. -/
structure Narrowing where
  abstractType : Name
  /-- The type the fragment is on. -/
  concreteType : Name
  /-- The metadata of that type. -/
  concreteMetadata : Option TypeMetadata
  /-- The innermost field that the fragment stands in. -/
  field : FieldDef
deriving DecidableEq, Repr

/-- The names a field goes by; none drops it together with its sub-selections. -/
abbrev NameHook := FieldSite → Except String (Option (OneOrMany String))

/-- The paths to add next to a field, just as they are. -/
abbrev ExtraHook := FieldSite → Except String (List String)

/-- What to do about the paths of a narrowed member. -/
abbrev NarrowingHook := Narrowing → Strategy

/-- The hooks of a computation, each of which may be left unset. -/
structure Hooks where
  fieldNames : Option NameHook
  extraPaths : Option ExtraHook
  narrowing : Option NarrowingHook

/-- The three kinds of hook. -/
inductive HookKind where
  | fieldNames
  | extraPaths
  | narrowing
deriving DecidableEq, Repr

namespace Hooks

/-- No hook is set. -/
def unset : Hooks :=
  ⟨none, none, none⟩

instance : Inhabited Hooks := ⟨unset⟩

/-- The kinds of the hooks that are set, in a fixed order. -/
def present (hooks : Hooks) : List HookKind :=
  (if hooks.fieldNames.isSome then [.fieldNames] else [])
    ++ (if hooks.extraPaths.isSome then [.extraPaths] else [])
    ++ (if hooks.narrowing.isSome then [.narrowing] else [])

end Hooks

/-- A hook set anew, or taken away. -/
inductive HookChange where
  | fieldNames (hook : Option NameHook)
  | extraPaths (hook : Option ExtraHook)
  | narrowing (hook : Option NarrowingHook)

/-- The hooks after a change. -/
def Hooks.change (hooks : Hooks) : HookChange → Hooks
  | .fieldNames hook => { hooks with fieldNames := hook }
  | .extraPaths hook => { hooks with extraPaths := hook }
  | .narrowing hook => { hooks with narrowing := hook }

end SelectionMask
