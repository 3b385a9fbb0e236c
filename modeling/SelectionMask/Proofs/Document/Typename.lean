import SelectionMask.Document.FragmentTable

set_option autoImplicit false

/-! # Queries without `__typename`

`__typename` may be asked for in any selection set, whatever its type, and with an alias or, though no
server would answer that, with selections of its own. Two queries are the same but for it if they are
equal once every such field is left out. -/

namespace SelectionMask

namespace Selection

/-- The selection is a field that asks for the name of the type. -/
def IsTypename (s : Selection) : Prop :=
  s.fieldName? = some typenameField

instance (s : Selection) : Decidable s.IsTypename :=
  inferInstanceAs (Decidable (s.fieldName? = some typenameField))

mutual

/-- The selection without `__typename` in what stands in it. -/
def withoutTypename : Selection → Selection
  | leaf name aliasName => leaf name aliasName
  | branch name aliasName selections => branch name aliasName (withoutTypenameAll selections)
  | spread name => spread name
  | fragment condition selections => fragment condition (withoutTypenameAll selections)
  | other kind => other kind

/-- The selections without `__typename` among them or in what stands in them. -/
def withoutTypenameAll : List Selection → List Selection
  | [] => []
  | s :: rest =>
      if s.IsTypename then withoutTypenameAll rest
      else s.withoutTypename :: withoutTypenameAll rest

end

@[simp] theorem withoutTypenameAll_nil : withoutTypenameAll [] = [] := rfl

theorem withoutTypenameAll_cons_of_typename {s : Selection} (h : s.IsTypename)
    (rest : List Selection) : withoutTypenameAll (s :: rest) = withoutTypenameAll rest := by
  rw [withoutTypenameAll, if_pos h]

theorem withoutTypenameAll_cons {s : Selection} (h : ¬s.IsTypename) (rest : List Selection) :
    withoutTypenameAll (s :: rest) = s.withoutTypename :: withoutTypenameAll rest := by
  rw [withoutTypenameAll, if_neg h]

end Selection

/-- The definition without `__typename`. -/
def Fragment.withoutTypename (f : Fragment) : Fragment :=
  { f with selections := Selection.withoutTypenameAll f.selections }

/-- The node without `__typename`. Its own name is not asked for, so that does not matter. -/
def RootNode.withoutTypename : RootNode → RootNode
  | field name aliasName selections =>
      field name aliasName (Selection.withoutTypenameAll selections)
  | fragment condition selections => fragment condition (Selection.withoutTypenameAll selections)
  | definition name condition selections =>
      definition name condition (Selection.withoutTypenameAll selections)
  | operation selections => operation (Selection.withoutTypenameAll selections)

theorem RootNode.selections_withoutTypename (root : RootNode) :
    root.withoutTypename.selections = Selection.withoutTypenameAll root.selections := by
  cases root <;> rfl

namespace FragmentTable

/-- The table whose definitions are without `__typename`. -/
def withoutTypename (table : FragmentTable) : FragmentTable where
  entries := table.entries.map fun entry => (entry.1, entry.2.withoutTypename)
  nodup_names := by
    rw [List.map_map]
    exact table.nodup_names

theorem find?_withoutTypename (table : FragmentTable) (name : Name) :
    table.withoutTypename.find? name = (table.find? name).map Fragment.withoutTypename := by
  simp only [find?, withoutTypename, List.find?_map, Option.map_map]
  rfl

/-- The same names are defined, with definitions that are the same but for `__typename`. -/
def SameButTypename (table table' : FragmentTable) : Prop :=
  ∀ name, (table.find? name).map Fragment.withoutTypename
    = (table'.find? name).map Fragment.withoutTypename

end FragmentTable

end SelectionMask
