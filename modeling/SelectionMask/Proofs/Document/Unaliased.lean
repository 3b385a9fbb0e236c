import SelectionMask.Document.FragmentTable

set_option autoImplicit false

/-! # Queries without aliases

An alias renames a field in the answer to a query. It may stand at any field, or not, and two
queries are the same but for aliases if they are equal once all aliases are taken off. -/

namespace SelectionMask

namespace Selection

mutual

/-- The selection without any alias. -/
def unaliased : Selection → Selection
  | leaf name _ => leaf name none
  | branch name _ selections => branch name none (unaliasedAll selections)
  | spread name => spread name
  | fragment condition selections => fragment condition (unaliasedAll selections)
  | other kind => other kind

/-- The selections without any alias. -/
def unaliasedAll : List Selection → List Selection
  | [] => []
  | s :: rest => s.unaliased :: unaliasedAll rest

end

end Selection

/-- The definition without any alias. -/
def Fragment.unaliased (f : Fragment) : Fragment :=
  { f with selections := Selection.unaliasedAll f.selections }

/-- The node without any alias. -/
def RootNode.unaliased : RootNode → RootNode
  | field name _ selections => field name none (Selection.unaliasedAll selections)
  | fragment condition selections => fragment condition (Selection.unaliasedAll selections)
  | definition name condition selections =>
      definition name condition (Selection.unaliasedAll selections)
  | operation selections => operation (Selection.unaliasedAll selections)

theorem RootNode.selections_unaliased (root : RootNode) :
    root.unaliased.selections = Selection.unaliasedAll root.selections := by
  cases root <;> rfl

theorem RootNode.selections_eq_of_unaliased {root root' : RootNode}
    (h : root.unaliased = root'.unaliased) :
    Selection.unaliasedAll root.selections = Selection.unaliasedAll root'.selections := by
  rw [← selections_unaliased, h, selections_unaliased]

/-- The same names are defined, with definitions that are the same but for aliases. -/
def FragmentTable.SameUnaliased (table table' : FragmentTable) : Prop :=
  ∀ name, (table.find? name).map Fragment.unaliased = (table'.find? name).map Fragment.unaliased

end SelectionMask
