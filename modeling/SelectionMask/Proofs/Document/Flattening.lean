import SelectionMask.Document.Address
import SelectionMask.Document.FragmentTable

set_option autoImplicit false

/-! # Flattened queries

A fragment in place is flattened when its selections are put where it stands. Here this may happen
at any number of given addresses, inside other fragments that are flattened and in the definitions
of named fragments too. What stands behind a flattened fragment then has other positions than before,
so the addresses are always those of the query that is not flattened. -/

namespace SelectionMask

namespace Selection

/-- Fragments in one another around selections, the outermost one first. -/
def nested (conditions : List (Option Name)) (body : List Selection) : List Selection :=
  conditions.foldr (fun condition inner => [fragment condition inner]) body

/-- The second selections are the first ones with some of the fragments at flat addresses flattened.
    The first ones are selections of the node, from a given position on. -/
inductive Flattens (flat : Address → Prop) :
    Address → Nat → List Selection → List Selection → Prop
  | nil {node : Address} {index : Nat} : Flattens flat node index [] []
  | leaf {node : Address} {index : Nat} {name : Name} {aliasName : Option String}
      {rest rest' : List Selection} :
      Flattens flat node (index + 1) rest rest' →
      Flattens flat node index (.leaf name aliasName :: rest) (.leaf name aliasName :: rest')
  | branch {node : Address} {index : Nat} {name : Name} {aliasName : Option String}
      {below below' rest rest' : List Selection} :
      Flattens flat (node.child index) 0 below below' →
      Flattens flat node (index + 1) rest rest' →
      Flattens flat node index (.branch name aliasName below :: rest)
        (.branch name aliasName below' :: rest')
  | spread {node : Address} {index : Nat} {name : Name} {rest rest' : List Selection} :
      Flattens flat node (index + 1) rest rest' →
      Flattens flat node index (.spread name :: rest) (.spread name :: rest')
  | fragment {node : Address} {index : Nat} {condition : Option Name}
      {body body' rest rest' : List Selection} :
      Flattens flat (node.child index) 0 body body' →
      Flattens flat node (index + 1) rest rest' →
      Flattens flat node index (.fragment condition body :: rest)
        (.fragment condition body' :: rest')
  | flattened {node : Address} {index : Nat} {condition : Option Name}
      {body body' rest rest' : List Selection} :
      flat (node.child index) → Flattens flat (node.child index) 0 body body' →
      Flattens flat node (index + 1) rest rest' →
      Flattens flat node index (.fragment condition body :: rest) (body' ++ rest')
  | other {node : Address} {index : Nat} {kind : String} {rest rest' : List Selection} :
      Flattens flat node (index + 1) rest rest' →
      Flattens flat node index (.other kind :: rest) (.other kind :: rest')

end Selection

/-- The second definition of the name is the first one with fragments in it flattened. -/
def Fragment.Flattens (flat : Address → Prop) (name : Name) (f f' : Fragment) : Prop :=
  f.condition = f'.condition ∧
    Selection.Flattens flat (.definition name) 0 f.selections f'.selections

/-- The same names are defined, with definitions in which fragments are flattened. -/
def FragmentTable.Flattens (flat : Address → Prop) (table table' : FragmentTable) : Prop :=
  ∀ name, Option.Rel (Fragment.Flattens flat name) (table.find? name) (table'.find? name)

namespace FragmentTable.Flattens

variable {flat : Address → Prop}

theorem empty : FragmentTable.Flattens flat .empty .empty :=
  fun _ => .none

/-- Definitions put in on both sides. -/
theorem insert {table table' : FragmentTable} (h : table.Flattens flat table') {name : Name}
    {f f' : Fragment} (hf : Fragment.Flattens flat name f f') :
    (table.insert name f).Flattens flat (table'.insert name f') := by
  intro other
  rw [find?_insert, find?_insert]
  by_cases hname : name = other
  · rw [if_pos hname, if_pos hname, ← hname]
    exact .some hf
  · rw [if_neg hname, if_neg hname]
    exact h other

end FragmentTable.Flattens

/-- Root nodes, the first of which has a given index, and the same with fragments in them
    flattened. -/
inductive RootNode.Flattens (flat : Address → Prop) :
    Nat → List RootNode → List RootNode → Prop
  | nil {index : Nat} : Flattens flat index [] []
  | cons {index : Nat} {root root' : RootNode} {rest rest' : List RootNode} :
      Selection.Flattens flat (.root index) 0 root.selections root'.selections →
      Flattens flat (index + 1) rest rest' →
      Flattens flat index (root :: rest) (root' :: rest')

theorem RootNode.Flattens.length_eq {flat : Address → Prop} {index : Nat}
    {roots roots' : List RootNode} (h : RootNode.Flattens flat index roots roots') :
    roots.length = roots'.length := by
  induction h with
  | nil => rfl
  | cons _ _ ih => rw [List.length_cons, List.length_cons, ih]

end SelectionMask
