import SelectionMask.Document.Address
import SelectionMask.Document.FragmentTable

set_option autoImplicit false

/-! # Queries that differ in hidden places

Two queries may be the same but for what stands in some of their selections: in the fields and the
fragments at given addresses, which are called hidden. There one query may have other selections than
the other one, or none at all, and these need not make sense. Everything else is the same, so an
address outside of hidden places is that of the same selection in both.

`Selection.SameOutside` relates the selections of a node, `Fragment.SameOutside` definitions of one
name, and `RootNode.SameOutside` the nodes that a computation starts from. -/

namespace SelectionMask

namespace Selection

/-- The selection without the selections that stand in it. -/
def bare : Selection → Selection
  | leaf name aliasName => leaf name aliasName
  | branch name aliasName _ => leaf name aliasName
  | spread name => spread name
  | fragment condition _ => fragment condition []
  | other kind => other kind

/-- The selections of a node, the first of which stands at a given position, are the same but for
    what stands in hidden ones. -/
inductive SameOutside (hidden : Address → Prop) :
    Address → Nat → List Selection → List Selection → Prop
  | nil {node : Address} {index : Nat} : SameOutside hidden node index [] []
  | leaf {node : Address} {index : Nat} {name : Name} {aliasName : Option String}
      {rest rest' : List Selection} :
      SameOutside hidden node (index + 1) rest rest' →
      SameOutside hidden node index (.leaf name aliasName :: rest) (.leaf name aliasName :: rest')
  | branch {node : Address} {index : Nat} {name : Name} {aliasName : Option String}
      {below below' rest rest' : List Selection} :
      SameOutside hidden (node.child index) 0 below below' →
      SameOutside hidden node (index + 1) rest rest' →
      SameOutside hidden node index (.branch name aliasName below :: rest)
        (.branch name aliasName below' :: rest')
  | spread {node : Address} {index : Nat} {name : Name} {rest rest' : List Selection} :
      SameOutside hidden node (index + 1) rest rest' →
      SameOutside hidden node index (.spread name :: rest) (.spread name :: rest')
  | fragment {node : Address} {index : Nat} {condition : Option Name}
      {body body' rest rest' : List Selection} :
      SameOutside hidden (node.child index) 0 body body' →
      SameOutside hidden node (index + 1) rest rest' →
      SameOutside hidden node index (.fragment condition body :: rest)
        (.fragment condition body' :: rest')
  | other {node : Address} {index : Nat} {kind : String} {rest rest' : List Selection} :
      SameOutside hidden node (index + 1) rest rest' →
      SameOutside hidden node index (.other kind :: rest) (.other kind :: rest')
  /-- In a hidden selection anything may stand, on both sides. -/
  | hidden {node : Address} {index : Nat} {s s' : Selection} {rest rest' : List Selection} :
      hidden (node.child index) → s.bare = s'.bare →
      SameOutside hidden node (index + 1) rest rest' →
      SameOutside hidden node index (s :: rest) (s' :: rest')

theorem SameOutside.refl (hidden : Address → Prop) (node : Address) (index : Nat)
    (ss : List Selection) : SameOutside hidden node index ss ss := by
  match ss with
  | [] => exact .nil
  | .leaf _ _ :: rest => exact .leaf (refl hidden node (index + 1) rest)
  | .branch _ _ below :: rest =>
      exact .branch (refl hidden (node.child index) 0 below) (refl hidden node (index + 1) rest)
  | .spread _ :: rest => exact .spread (refl hidden node (index + 1) rest)
  | .fragment _ body :: rest =>
      exact .fragment (refl hidden (node.child index) 0 body) (refl hidden node (index + 1) rest)
  | .other _ :: rest => exact .other (refl hidden node (index + 1) rest)

end Selection

/-- Two definitions of a name are on the same type, with selections that are the same but for what
    stands in hidden ones. -/
def Fragment.SameOutside (hidden : Address → Prop) (name : Name) (f f' : Fragment) : Prop :=
  f.condition = f'.condition ∧
    Selection.SameOutside hidden (.definition name) 0 f.selections f'.selections

theorem Fragment.SameOutside.refl (hidden : Address → Prop) (name : Name) (f : Fragment) :
    Fragment.SameOutside hidden name f f :=
  ⟨rfl, .refl _ _ _ _⟩

/-- The same names are defined, with definitions that are the same but for what is hidden. -/
def FragmentTable.SameOutside (hidden : Address → Prop) (table table' : FragmentTable) : Prop :=
  ∀ name, Option.Rel (Fragment.SameOutside hidden name) (table.find? name) (table'.find? name)

namespace FragmentTable.SameOutside

theorem refl (hidden : Address → Prop) (table : FragmentTable) :
    table.SameOutside hidden table := by
  intro name
  cases table.find? name with
  | none => exact .none
  | some f => exact .some (.refl hidden name f)

/-- Definitions put in on both sides. -/
theorem insert {hidden : Address → Prop} {table table' : FragmentTable}
    (h : table.SameOutside hidden table') {name : Name} {f f' : Fragment}
    (hf : Fragment.SameOutside hidden name f f') :
    (table.insert name f).SameOutside hidden (table'.insert name f') := by
  intro other
  rw [find?_insert, find?_insert]
  by_cases hname : name = other
  · rw [if_pos hname, if_pos hname, ← hname]
    exact .some hf
  · rw [if_neg hname, if_neg hname]
    exact h other

end FragmentTable.SameOutside

/-- Root nodes, the first of which has a given index, with selections that are the same but for what
    stands in hidden ones. -/
inductive RootNode.SameOutside (hidden : Address → Prop) :
    Nat → List RootNode → List RootNode → Prop
  | nil {index : Nat} : SameOutside hidden index [] []
  | cons {index : Nat} {root root' : RootNode} {rest rest' : List RootNode} :
      Selection.SameOutside hidden (.root index) 0 root.selections root'.selections →
      SameOutside hidden (index + 1) rest rest' →
      SameOutside hidden index (root :: rest) (root' :: rest')

namespace RootNode.SameOutside

variable {hidden : Address → Prop} {index : Nat}

theorem refl (hidden : Address → Prop) (index : Nat) (roots : List RootNode) :
    SameOutside hidden index roots roots := by
  induction roots generalizing index with
  | nil => exact .nil
  | cons root rest ih => exact .cons (.refl _ _ _ _) (ih (index + 1))

theorem length_eq {roots roots' : List RootNode} (h : SameOutside hidden index roots roots') :
    roots.length = roots'.length := by
  induction h with
  | nil => rfl
  | cons _ _ ih => rw [List.length_cons, List.length_cons, ih]

end RootNode.SameOutside

end SelectionMask
