import SelectionMask.Document.FragmentTable
import SelectionMask.Hooks.Strategy
import SelectionMask.Schema.Lookup

set_option autoImplicit false

/-! # Chains of fields

What a mask is meant to list, said without any walk. A chain goes from field to field, each in the
selection set of the one before, through fragments and spreads that are read in place, and ends at a
field without a selection set; `Chain` is the derivation of one. Its place is the list of positions
it takes in the selection sets on its way, so that places in lexicographic order are chains from
left to right, as one meets them who goes down first.

`Enumerates` says that a list of paths is that of all chains of some kind from left to right. The
lemmas below it put such lists together as chains are put together. -/

namespace SelectionMask

/-! ## Fragments read in place -/

/-- There is an abstract type of the name. -/
def Schema.IsAbstract (s : Schema) (name : Name) : Prop :=
  ∃ t, s.type? name = some t ∧ t.isAbstract = true

/-- A fragment is read in place if it is on the current type itself, or on an abstract type while
    the current type is none. -/
def Schema.Enters (s : Schema) (condition current : Name) : Prop :=
  condition = current ∨ s.IsAbstract condition ∧ ¬ s.IsAbstract current

theorem Schema.isAbstract_iff {s : Schema} {name : Name} {t : NamedType}
    (h : s.type? name = some t) : s.IsAbstract name ↔ t.isAbstract = true := by
  simp [IsAbstract, h]

theorem Schema.not_isAbstract_of_concrete {s : Schema} {name : Name} {t : NamedType}
    (h : s.type? name = some t) (hconcrete : t.isAbstract = false) : ¬ s.IsAbstract name := by
  rw [isAbstract_iff h, hconcrete]
  exact Bool.false_ne_true

instance (s : Schema) (name : Name) : Decidable (s.IsAbstract name) :=
  decidable_of_iff ((s.type? name).any NamedType.isAbstract = true) (by
    cases h : s.type? name <;> simp [Schema.IsAbstract, h])

instance (s : Schema) (condition current : Name) : Decidable (s.Enters condition current) :=
  inferInstanceAs (Decidable (condition = current ∨ s.IsAbstract condition ∧ ¬ s.IsAbstract current))

/-- At an abstract type only a fragment on that very type is read in place. -/
theorem Schema.Enters.eq_of_isAbstract {s : Schema} {condition current : Name}
    (h : s.Enters condition current) (habstract : s.IsAbstract current) : condition = current :=
  h.resolve_right fun hcrossing => hcrossing.2 habstract

/-! ## Chains -/

/-- A chain that starts in a selection read at a type, with its place below the selection and its
    fields from the outside in. The type changes only at a field, to the field's named type. -/
inductive Chain (schema : Schema) (fragments : FragmentTable) :
    Name → Selection → List Nat → List Name → Prop
  | leaf {type name : Name} {aliasName : Option String} :
      name ≠ typenameField →
      Chain schema fragments type (.leaf name aliasName) [] [name]
  | branch {type name : Name} {aliasName : Option String} {below : List Selection}
      {definition : FieldDef} {index : Nat} {s : Selection} {place : List Nat}
      {fields : List Name} :
      name ≠ typenameField → schema.fieldNamed type name = .ok definition →
      below[index]? = some s → Chain schema fragments definition.namedType s place fields →
      Chain schema fragments type (.branch name aliasName below) (index :: place) (name :: fields)
  | fragment {type : Name} {condition : Option Name} {body : List Selection} {index : Nat}
      {s : Selection} {place : List Nat} {fields : List Name} :
      schema.Enters (conditionAt condition type) type → body[index]? = some s →
      Chain schema fragments type s place fields →
      Chain schema fragments type (.fragment condition body) (index :: place) fields
  | spread {type name : Name} {definition : Fragment} {index : Nat} {s : Selection}
      {place : List Nat} {fields : List Name} :
      fragments.find? name = some definition → schema.Enters definition.condition type →
      definition.selections[index]? = some s → Chain schema fragments type s place fields →
      Chain schema fragments type (.spread name) (index :: place) fields

/-- A chain that starts in one of a list of things, the first of which has the given position. -/
def AmongFrom {α : Type} (chains : α → List Nat → List Name → Prop) (first : Nat) (as : List α)
    (place : List Nat) (fields : List Name) : Prop :=
  ∃ index a rest, as[index]? = some a ∧ place = (first + index) :: rest ∧ chains a rest fields

/-- A chain that starts in the selection set of a node, read at a type. -/
def NodeChain (schema : Schema) (fragments : FragmentTable) (type : Name) (root : RootNode) :
    List Nat → List Name → Prop :=
  AmongFrom (Chain schema fragments type) 0 root.selections

/-- A chain that starts in the selection set of a root node. Its place begins with the position of
    the node. -/
def RootChain (schema : Schema) (fragments : FragmentTable) (type : Name) (roots : List RootNode) :
    List Nat → List Name → Prop :=
  AmongFrom (NodeChain schema fragments type) 0 roots

section Chain

variable {schema : Schema} {fragments : FragmentTable} {type : Name} {place : List Nat}
  {fields : List Name}

theorem chain_leaf_iff {name : Name} {aliasName : Option String} :
    Chain schema fragments type (.leaf name aliasName) place fields ↔
      name ≠ typenameField ∧ place = [] ∧ fields = [name] := by
  constructor
  · intro h
    cases h with | leaf hname => exact ⟨hname, rfl, rfl⟩
  · rintro ⟨hname, rfl, rfl⟩
    exact .leaf hname

theorem chain_branch_iff {name : Name} {aliasName : Option String} {below : List Selection} :
    Chain schema fragments type (.branch name aliasName below) place fields ↔
      name ≠ typenameField ∧ ∃ definition, schema.fieldNamed type name = .ok definition ∧
        ∃ rest, fields = name :: rest ∧
          AmongFrom (Chain schema fragments definition.namedType) 0 below place rest := by
  constructor
  · intro h
    cases h with
    | @branch _ _ _ _ definition index s place rest hname hfield hs hchain =>
        exact ⟨hname, definition, hfield, rest, rfl, index, s, place, hs, by rw [Nat.zero_add],
          hchain⟩
  · rintro ⟨hname, definition, hfield, rest, rfl, index, s, place, hs, rfl, hchain⟩
    rw [Nat.zero_add]
    exact .branch hname hfield hs hchain

theorem chain_fragment_iff {condition : Option Name} {body : List Selection} :
    Chain schema fragments type (.fragment condition body) place fields ↔
      schema.Enters (conditionAt condition type) type ∧
        AmongFrom (Chain schema fragments type) 0 body place fields := by
  constructor
  · intro h
    cases h with
    | @fragment _ _ _ index s place _ henters hs hchain =>
        exact ⟨henters, index, s, place, hs, by rw [Nat.zero_add], hchain⟩
  · rintro ⟨henters, index, s, place, hs, rfl, hchain⟩
    rw [Nat.zero_add]
    exact .fragment henters hs hchain

theorem chain_spread_iff {name : Name} :
    Chain schema fragments type (.spread name) place fields ↔
      ∃ definition, fragments.find? name = some definition ∧
        schema.Enters definition.condition type ∧
        AmongFrom (Chain schema fragments type) 0 definition.selections place fields := by
  constructor
  · intro h
    cases h with
    | @spread _ _ definition index s place _ hfind henters hs hchain =>
        exact ⟨definition, hfind, henters, index, s, place, hs, by rw [Nat.zero_add], hchain⟩
  · rintro ⟨definition, hfind, henters, index, s, place, hs, rfl, hchain⟩
    rw [Nat.zero_add]
    exact .spread hfind henters hs hchain

theorem Chain.fields_ne_nil {s : Selection} (h : Chain schema fragments type s place fields) :
    fields ≠ [] := by
  induction h with
  | leaf _ => exact List.cons_ne_nil _ _
  | branch _ _ _ _ _ => exact List.cons_ne_nil _ _
  | fragment _ _ _ ih => exact ih
  | spread _ _ _ _ ih => exact ih

theorem AmongFrom.fields_ne_nil {first : Nat} {ss : List Selection}
    (h : AmongFrom (Chain schema fragments type) first ss place fields) : fields ≠ [] := by
  obtain ⟨_, _, _, -, -, hchain⟩ := h
  exact hchain.fields_ne_nil

theorem RootChain.fields_ne_nil {roots : List RootNode}
    (h : RootChain schema fragments type roots place fields) : fields ≠ [] := by
  obtain ⟨_, _, _, -, -, hchain⟩ := h
  exact AmongFrom.fields_ne_nil hchain

end Chain

/-! ## Paths of chains -/

/-- The fields with dots between them. -/
def dotted (fields : List Name) : String :=
  ".".intercalate fields

@[simp] theorem dotted_singleton (name : Name) : dotted [name] = name :=
  String.intercalate_singleton

theorem dotted_cons {name : Name} {fields : List Name} (h : fields ≠ []) :
    dotted (name :: fields) = joinPath name (dotted fields) := by
  obtain ⟨field, rest, rfl⟩ := List.exists_cons_of_ne_nil h
  exact String.intercalate_cons_cons

/-- The paths are those of all the chains from left to right, repetitions kept. -/
def Enumerates (chains : List Nat → List Name → Prop) (paths : List String) : Prop :=
  ∃ found : List (List Nat × List Name),
    found.map (fun entry => dotted entry.2) = paths ∧
      (found.Pairwise fun entry other => entry.1 < other.1) ∧
      ∀ place fields, (place, fields) ∈ found ↔ chains place fields

section Enumerates

variable {α : Type} {chains chains' : List Nat → List Name → Prop} {paths : List String}

theorem Enumerates.congr (h : Enumerates chains paths)
    (hiff : ∀ place fields, chains place fields ↔ chains' place fields) :
    Enumerates chains' paths := by
  obtain ⟨found, hpaths, hplaces, hfound⟩ := h
  refine ⟨found, hpaths, hplaces, fun place fields => ?_⟩
  exact (hfound place fields).trans (hiff place fields)

theorem enumerates_nil (h : ∀ place fields, ¬ chains place fields) : Enumerates chains [] :=
  ⟨[], rfl, .nil, fun place fields => by simp [h place fields]⟩

/-- The one chain that a leaf is. -/
theorem enumerates_leaf (name : Name) :
    Enumerates (fun place fields => place = [] ∧ fields = [name]) [name] :=
  ⟨[([], [name])], by simp, List.pairwise_singleton _ _, fun place fields => by simp⟩

/-- Chains with a field in front of them. -/
theorem Enumerates.cons_field (h : Enumerates chains paths)
    (hne : ∀ place fields, chains place fields → fields ≠ []) (name : Name) :
    Enumerates (fun place fields => ∃ below, fields = name :: below ∧ chains place below)
      (paths.map (joinPath name)) := by
  obtain ⟨found, rfl, hplaces, hfound⟩ := h
  refine ⟨found.map fun entry => (entry.1, name :: entry.2), ?_, ?_, ?_⟩
  · rw [List.map_map, List.map_map]
    refine List.map_congr_left fun entry hentry => ?_
    exact dotted_cons (hne entry.1 entry.2 ((hfound _ _).1 hentry))
  · exact List.pairwise_map.2 hplaces
  · intro place fields
    simp only [List.mem_map, Prod.mk.injEq]
    constructor
    · rintro ⟨⟨_, below⟩, hentry, rfl, rfl⟩
      exact ⟨below, rfl, (hfound _ _).1 hentry⟩
    · rintro ⟨below, rfl, hchain⟩
      exact ⟨(place, below), (hfound _ _).2 hchain, rfl, rfl⟩

theorem enumerates_amongFrom_nil (chains : α → List Nat → List Name → Prop) (first : Nat) :
    Enumerates (AmongFrom chains first []) [] := by
  refine enumerates_nil ?_
  rintro place fields ⟨index, a, rest, h, -⟩
  simp at h

/-- Chains of the first thing come before those of the others, by the first step of their places. -/
theorem Enumerates.amongFrom_cons {chains : α → List Nat → List Name → Prop} {first : Nat} {a : α}
    {as : List α} {others : List String} (h : Enumerates (chains a) paths)
    (hothers : Enumerates (AmongFrom chains (first + 1) as) others) :
    Enumerates (AmongFrom chains first (a :: as)) (paths ++ others) := by
  obtain ⟨found, rfl, hplaces, hfound⟩ := h
  obtain ⟨later, rfl, hplaces', hlater⟩ := hothers
  refine ⟨found.map (fun entry => (first :: entry.1, entry.2)) ++ later, ?_, ?_, ?_⟩
  · rw [List.map_append, List.map_map]
    rfl
  · refine List.pairwise_append.2 ⟨?_, hplaces', ?_⟩
    · refine List.pairwise_map.2 (hplaces.imp fun h => ?_)
      exact List.cons_lt_cons_iff.2 (.inr ⟨rfl, h⟩)
    · -- A chain of another thing starts further to the right.
      rintro entry hentry ⟨place, fields⟩ hother
      obtain ⟨entry, -, rfl⟩ := List.mem_map.1 hentry
      obtain ⟨index, a', rest, -, rfl, -⟩ := (hlater _ _).1 hother
      exact List.cons_lt_cons_iff.2 (.inl (by omega))
  · intro place fields
    rw [List.mem_append, hlater]
    simp only [List.mem_map, Prod.mk.injEq]
    constructor
    · rintro (⟨⟨rest, _⟩, hentry, rfl, rfl⟩ | ⟨index, a', rest, ha', rfl, hchain⟩)
      · exact ⟨0, a, rest, rfl, rfl, (hfound _ _).1 hentry⟩
      · exact ⟨index + 1, a', rest, ha', by rw [Nat.add_assoc, Nat.add_comm 1], hchain⟩
    · -- The position that a chain starts at tells which of the two lists holds it.
      rintro ⟨index, a', rest, ha', rfl, hchain⟩
      cases index with
      | zero =>
          obtain rfl : a = a' := by simpa using ha'
          exact .inl ⟨(rest, fields), (hfound _ _).2 hchain, rfl, rfl⟩
      | succ index =>
          exact .inr ⟨index, a', rest, by simpa using ha', by congr 1; omega, hchain⟩

end Enumerates

end SelectionMask
