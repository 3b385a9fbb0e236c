import Mathlib.Logic.Relation
import SelectionMask.Document.FragmentTable

set_option autoImplicit false

/-! # Which fragment spreads which

The definitions of a table form a graph: a fragment points to every fragment that is spread
somewhere inside its definition, however deep. A table is acyclic if no fragment comes back to
itself that way.

`FragmentTable.Unreached` is what a walk on an acyclic table keeps: none of the fragments that are
being expanded can be reached from the selections at hand. -/

namespace SelectionMask

namespace Selection

mutual

/-- The fragments spread in a selection, at any depth. -/
def spreadNames : Selection → List Name
  | leaf _ _ => []
  | branch _ _ selections => spreadNamesOf selections
  | spread name => [name]
  | fragment _ selections => spreadNamesOf selections
  | other _ => []

/-- The fragments spread in the selections, at any depth. -/
def spreadNamesOf : List Selection → List Name
  | [] => []
  | s :: rest => s.spreadNames ++ spreadNamesOf rest

end

theorem mem_spreadNamesOf_spread (name : Name) (rest : List Selection) :
    name ∈ spreadNamesOf (.spread name :: rest) :=
  List.mem_cons_self

end Selection

open Selection (spreadNamesOf)

namespace FragmentTable

variable {table : FragmentTable} {names : List Name} {ss : List Selection}

/-- A fragment is spread in the definition of another one. -/
def Spreads (table : FragmentTable) (name other : Name) : Prop :=
  ∃ definition, table.find? name = some definition ∧
    other ∈ spreadNamesOf definition.selections

/-- No fragment is reached from its own definition. -/
def Acyclic (table : FragmentTable) : Prop :=
  ∀ name, ¬ Relation.TransGen table.Spreads name name

/-- A definition that is found is one of the entries. -/
theorem mem_entries_of_find? {name : Name} {definition : Fragment}
    (h : table.find? name = some definition) : (name, definition) ∈ table.entries := by
  obtain ⟨⟨key, found⟩, hfind, hfound⟩ := Option.map_eq_some_iff.1 h
  obtain rfl : key = name := by simpa using List.find?_some hfind
  obtain rfl : found = definition := hfound
  exact List.mem_of_find?_eq_some hfind

/-- A table is acyclic if its fragments can be ranked so that each spreads lower ones only. -/
theorem acyclic_of_rank (rank : Name → Nat)
    (h : ∀ entry ∈ table.entries, ∀ other ∈ spreadNamesOf entry.2.selections,
      rank other < rank entry.1) : table.Acyclic := by
  have hlt : ∀ {name other}, Relation.TransGen table.Spreads name other →
      rank other < rank name := by
    intro name other hreach
    induction hreach with
    | single hstep =>
        obtain ⟨definition, hfind, hmem⟩ := hstep
        exact h _ (mem_entries_of_find? hfind) _ hmem
    | tail _ hstep ih =>
        obtain ⟨definition, hfind, hmem⟩ := hstep
        exact Nat.lt_trans (h _ (mem_entries_of_find? hfind) _ hmem) ih
  exact fun name hreach => Nat.lt_irrefl _ (hlt hreach)

/-- None of the fragments can be reached from the selections. -/
def Unreached (table : FragmentTable) (names : List Name) (ss : List Selection) : Prop :=
  ∀ name ∈ names, ∀ start ∈ spreadNamesOf ss, ¬ Relation.ReflTransGen table.Spreads start name

theorem unreached_nil (table : FragmentTable) (ss : List Selection) : table.Unreached [] ss :=
  fun _ hname => absurd hname List.not_mem_nil

theorem Unreached.mono {below : List Selection} (h : table.Unreached names ss)
    (hsub : spreadNamesOf below ⊆ spreadNamesOf ss) : table.Unreached names below :=
  fun name hname start hstart => h name hname start (hsub hstart)

theorem Unreached.notMem {name : Name} (h : table.Unreached names ss)
    (hname : name ∈ spreadNamesOf ss) : name ∉ names :=
  fun hmem => h name hmem name hname .refl

/-- From the definition of a spread fragment, neither the earlier fragments nor, in an acyclic
    table, the fragment itself can be reached. -/
theorem Unreached.definition (hacyclic : table.Acyclic) (h : table.Unreached names ss)
    {name : Name} {definition : Fragment} (hname : name ∈ spreadNamesOf ss)
    (hfind : table.find? name = some definition) :
    table.Unreached (names ++ [name]) definition.selections := by
  intro earlier hearlier start hstart hreach
  have hstep : table.Spreads name start := ⟨definition, hfind, hstart⟩
  rcases List.mem_append.1 hearlier with hmem | hmem
  · exact h earlier hmem name hname (.head hstep hreach)
  · obtain rfl := List.mem_singleton.1 hmem
    exact hacyclic earlier (.head' hstep hreach)

end FragmentTable

end SelectionMask
