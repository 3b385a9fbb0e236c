import SelectionMask.Schema.TypeRef

set_option autoImplicit false

/-! # Selections

The parts of a query that a mask is computed from. A selection set holds fields, spreads of named
fragments and inline fragments; anything else that a tree may carry there is kept as what it is, so
that it can be reported. A field without a selection set (a leaf) is not a field with an empty one:
the first ends a path, the second yields none. For a fragment the two make no difference.

The depth of a selection set counts how far fields and inline fragments nest in it, a spread
counting as nothing; it bounds how deep a walk goes before it enters a named fragment. -/

namespace SelectionMask

/-- The field that asks for the name of the type. It is no part of any mask. -/
def typenameField : Name := "__typename"

/-- One selection of a selection set. -/
inductive Selection where
  /-- A field without a selection set. -/
  | leaf (name : Name) (aliasName : Option String)
  /-- A field with a selection set. -/
  | branch (name : Name) (aliasName : Option String) (selections : List Selection)
  /-- A spread of a named fragment. -/
  | spread (fragment : Name)
  /-- A fragment written in place, on a type or on whatever type stands there. -/
  | fragment (condition : Option Name) (selections : List Selection)
  /-- A node of a kind that no selection set should hold. -/
  | other (kind : String)
deriving Repr, Inhabited

namespace Selection

/-- The name of the field, if the selection is one. -/
def fieldName? : Selection → Option Name
  | leaf name _ => some name
  | branch name _ _ => some name
  | _ => none

mutual

/-- How deep a selection nests: a field counts one, a field or a fragment with selections one more
    than these, and what is not walked in place counts nothing. -/
def depth : Selection → Nat
  | leaf _ _ => 1
  | branch _ _ selections => 1 + depthOf selections
  | spread _ => 0
  | fragment _ selections => 1 + depthOf selections
  | other _ => 0

/-- The greatest depth among the selections; zero if there are none. -/
def depthOf : List Selection → Nat
  | [] => 0
  | s :: rest => max s.depth (depthOf rest)

end

theorem depth_le_depthOf {s : Selection} {selections : List Selection} (h : s ∈ selections) :
    s.depth ≤ depthOf selections := by
  induction selections with
  | nil => simp at h
  | cons t rest ih =>
      rw [depthOf]
      rcases List.mem_cons.1 h with rfl | hrest
      · exact Nat.le_max_left _ _
      · exact Nat.le_trans (ih hrest) (Nat.le_max_right _ _)

end Selection

/-- The type a fragment is on: its condition, or the type it stands at if it has none. -/
def conditionAt (condition : Option Name) (type : Name) : Name :=
  condition.getD type

@[simp] theorem conditionAt_none (type : Name) : conditionAt none type = type := rfl

@[simp] theorem conditionAt_some (condition type : Name) :
    conditionAt (some condition) type = condition := rfl

/-- The definition of a named fragment. -/
structure Fragment where
  /-- The type the fragment is on. -/
  condition : Name
  selections : List Selection
deriving Repr, Inhabited

/-- The depth of the definition: one more than the depth of its selections. -/
def Fragment.depth (f : Fragment) : Nat :=
  1 + Selection.depthOf f.selections

/-- A node whose selection set a computation may start from. Only the selections matter for it. -/
inductive RootNode where
  | field (name : Name) (aliasName : Option String) (selections : List Selection)
  | fragment (condition : Option Name) (selections : List Selection)
  | definition (name : Name) (condition : Name) (selections : List Selection)
  | operation (selections : List Selection)
deriving Repr, Inhabited

/-- The selections of the node; a missing selection set counts as an empty one. -/
def RootNode.selections : RootNode → List Selection
  | field _ _ selections => selections
  | fragment _ selections => selections
  | definition _ _ selections => selections
  | operation selections => selections

end SelectionMask
