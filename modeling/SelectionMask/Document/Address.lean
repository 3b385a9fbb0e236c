import SelectionMask.Schema.TypeRef

set_option autoImplicit false

/-! # Addresses

Where a node stands. A walk starts at one of the nodes it is given, or goes on in the definition of
a named fragment, and from there an address counts the positions in the selection sets passed. A
node below a spread has the address it has in the definition, wherever it is spread. -/

namespace SelectionMask

/-- Where counting starts. -/
inductive Origin where
  /-- One of several root nodes. -/
  | root (index : Nat)
  /-- The definition of a named fragment. -/
  | definition (fragment : Name)
  /-- The only node. -/
  | single
deriving DecidableEq, Repr

/-- An origin and the positions in the selection sets on the way from it. -/
structure Address where
  origin : Origin
  steps : List Nat
deriving DecidableEq, Repr

namespace Address

/-- A root node. -/
def root (index : Nat) : Address := ⟨.root index, []⟩

/-- The definition of a fragment. -/
def definition (fragment : Name) : Address := ⟨.definition fragment, []⟩

/-- The only node. -/
def single : Address := ⟨.single, []⟩

/-- A selection of the node, by its position. -/
def child (address : Address) (index : Nat) : Address :=
  ⟨address.origin, address.steps ++ [index]⟩

/-- The address in writing: the origin, then the positions, with slashes between. -/
def render (address : Address) : String :=
  let start :=
    match address.origin with
    | .root index => "nodes/" ++ toString index
    | .definition fragment => "fragments/" ++ fragment
    | .single => "node"
  address.steps.foldl (fun text index => text ++ "/" ++ toString index) start

end Address

end SelectionMask
