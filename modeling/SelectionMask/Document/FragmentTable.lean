import SelectionMask.Document.Selection

set_option autoImplicit false

/-! # Fragment tables

The named fragments of a document, each name defined once. Defining a name again replaces the old
definition; erasing a name that is not defined changes nothing. -/

namespace SelectionMask

/-- Fragment definitions under distinct names. -/
structure FragmentTable where
  entries : List (Name × Fragment)
  nodup_names : (entries.map Prod.fst).Nodup

namespace FragmentTable

/-- The table without definitions. -/
def empty : FragmentTable :=
  ⟨[], List.nodup_nil⟩

instance : EmptyCollection FragmentTable := ⟨empty⟩

instance : Inhabited FragmentTable := ⟨empty⟩

/-- The names defined, each once. -/
def names (table : FragmentTable) : List Name :=
  table.entries.map Prod.fst

/-- The definition of a name. -/
def find? (table : FragmentTable) (name : Name) : Option Fragment :=
  (table.entries.find? fun entry => entry.1 == name).map Prod.snd

/-- The depths of definitions taken together. -/
def totalDepth : List (Name × Fragment) → Nat
  | [] => 0
  | entry :: rest => entry.2.depth + totalDepth rest

/-- Take a definition away. -/
def erase (table : FragmentTable) (name : Name) : FragmentTable where
  entries := table.entries.filter fun entry => entry.1 != name
  nodup_names := table.nodup_names.sublist (List.filter_sublist.map Prod.fst)

theorem notMem_names_erase (table : FragmentTable) (name : Name) :
    name ∉ (table.erase name).names := by
  simp [names, erase]

/-- Define a name, in place of its old definition if it has one. -/
def insert (table : FragmentTable) (name : Name) (fragment : Fragment) : FragmentTable where
  entries := (name, fragment) :: (table.erase name).entries
  nodup_names := List.nodup_cons.2 ⟨table.notMem_names_erase name, (table.erase name).nodup_names⟩

/-- The table of a list of definitions, of which the last one of a name counts. -/
def ofList (definitions : List (Name × Fragment)) : FragmentTable :=
  definitions.foldl (fun table entry => table.insert entry.1 entry.2) empty

/-- The names defined, in the order of their characters' code points. -/
def sortedNames (table : FragmentTable) : List Name :=
  table.names.mergeSort fun a b => decide (a ≤ b)

@[simp] theorem find?_empty (name : Name) : empty.find? name = none := rfl

theorem find?_insert (table : FragmentTable) (name other : Name) (fragment : Fragment) :
    (table.insert name fragment).find? other
      = if name = other then some fragment else table.find? other := by
  unfold find? insert erase
  by_cases h : name = other
  · simp [h]
  · have hne : (name == other) = false := by simpa using h
    simp only [List.find?_cons, hne, h, if_false, List.find?_filter]
    congr 2
    funext entry
    by_cases he : entry.1 = other
    · simp [he, Ne.symm h]
    · simp [he]

theorem find?_erase (table : FragmentTable) (name other : Name) :
    (table.erase name).find? other = if name = other then none else table.find? other := by
  unfold find? erase
  by_cases h : name = other
  · simp [h]
  · simp only [h, if_false, List.find?_filter]
    congr 2
    funext entry
    by_cases he : entry.1 = other
    · simp [he, Ne.symm h]
    · simp [he]

end FragmentTable

end SelectionMask
