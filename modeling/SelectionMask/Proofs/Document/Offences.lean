import SelectionMask.Failure
import SelectionMask.Proofs.Document.Chains
import SelectionMask.Walk.Visit

set_option autoImplicit false

/-! # Selections within reach, and what is wrong with them

Which selections a query leads to at all, said without any walk: from a field to the selections
below it, read at the field's named type, and from a fragment or spread that is read in place to its
selections, read at the same type. What stands below a name of a type (`typenameField`) or in a
fragment that is not read in place is out of reach. `Reaches` keeps the way as a list of positions,
so that places in lexicographic order are selections from left to right, each before those below it.

`Visit.Offends` says what is wrong with a selection where it stands, and with which failure it is to
be reported. -/

namespace SelectionMask

/-! ## Reach -/

/-- From a visited selection, the positions lead to another one. A spread is followed even if it
    stands inside its own expansion. -/
inductive Reaches (schema : Schema) (fragments : FragmentTable) : Visit → List Nat → Visit → Prop
  | here {v : Visit} : Reaches schema fragments v [] v
  | branch {frame : Frame} {names : List Name} {node : Address} {name : Name}
      {aliasName : Option String} {below : List Selection} {definition : FieldDef} {index : Nat}
      {s : Selection} {place : List Nat} {w : Visit} :
      name ≠ typenameField → schema.fieldNamed frame.type name = .ok definition →
      below[index]? = some s →
      Reaches schema fragments
        ⟨⟨definition.namedType, some definition⟩, names, node.child index, s⟩ place w →
      Reaches schema fragments ⟨frame, names, node, .branch name aliasName below⟩ (index :: place) w
  | fragment {frame : Frame} {names : List Name} {node : Address} {condition : Option Name}
      {body : List Selection} {index : Nat} {s : Selection} {place : List Nat} {w : Visit} :
      schema.Enters (conditionAt condition frame.type) frame.type → body[index]? = some s →
      Reaches schema fragments ⟨frame, names, node.child index, s⟩ place w →
      Reaches schema fragments ⟨frame, names, node, .fragment condition body⟩ (index :: place) w
  | spread {frame : Frame} {names : List Name} {node : Address} {name : Name}
      {definition : Fragment} {index : Nat} {s : Selection} {place : List Nat} {w : Visit} :
      fragments.find? name = some definition → schema.Enters definition.condition frame.type →
      definition.selections[index]? = some s →
      Reaches schema fragments ⟨frame, names ++ [name], (Address.definition name).child index, s⟩
        place w →
      Reaches schema fragments ⟨frame, names, node, .spread name⟩ (index :: place) w

/-- What is reached from one of a list of things, the first of which has the given position. -/
def ReachedAmong {α : Type} (reached : Nat → α → List Nat → Visit → Prop) (first : Nat)
    (as : List α) (place : List Nat) (w : Visit) : Prop :=
  ∃ index a rest, as[index]? = some a ∧ place = (first + index) :: rest ∧
    reached (first + index) a rest w

/-- What is reached from selections that stand in a node, inside the given expansions. -/
def SelectionsReach (schema : Schema) (fragments : FragmentTable) (frame : Frame)
    (names : List Name) (node : Address) : Nat → List Selection → List Nat → Visit → Prop :=
  ReachedAmong fun index s => Reaches schema fragments ⟨frame, names, node.child index, s⟩

/-- What is reached from root nodes. The place begins with the position of the node. -/
def RootsReach (schema : Schema) (fragments : FragmentTable) (type : Name) :
    Nat → List RootNode → List Nat → Visit → Prop :=
  ReachedAmong fun index root =>
    SelectionsReach schema fragments ⟨type, none⟩ [] (.root index) 0 root.selections

theorem not_reachedAmong_nil {α : Type} {reached : Nat → α → List Nat → Visit → Prop} {first : Nat}
    {place : List Nat} {w : Visit} : ¬ ReachedAmong reached first [] place w := by
  rintro ⟨index, a, rest, h, -⟩
  simp at h

theorem reachedAmong_cons_iff {α : Type} {reached : Nat → α → List Nat → Visit → Prop}
    {first : Nat} {a : α} {as : List α} {place : List Nat} {w : Visit} :
    ReachedAmong reached first (a :: as) place w ↔
      (∃ rest, place = first :: rest ∧ reached first a rest w) ∨
        ReachedAmong reached (first + 1) as place w := by
  constructor
  · rintro ⟨index, b, rest, hb, rfl, hreached⟩
    cases index with
    | zero =>
        obtain rfl : a = b := by simpa using hb
        exact .inl ⟨rest, rfl, hreached⟩
    | succ index =>
        have hindex : first + (index + 1) = first + 1 + index := by omega
        rw [hindex] at hreached ⊢
        exact .inr ⟨index, b, rest, by simpa using hb, rfl, hreached⟩
  · rintro (⟨rest, rfl, hreached⟩ | ⟨index, b, rest, hb, rfl, hreached⟩)
    · exact ⟨0, a, rest, rfl, rfl, hreached⟩
    · have hindex : first + 1 + index = first + (index + 1) := by omega
      rw [hindex] at hreached ⊢
      exact ⟨index + 1, b, rest, hb, rfl, hreached⟩

/-- A place at a position comes before all places at later positions. -/
theorem ReachedAmong.cons_lt {α : Type} {reached : Nat → α → List Nat → Visit → Prop}
    {first : Nat} {as : List α} {place rest : List Nat} {w : Visit}
    (h : ReachedAmong reached (first + 1) as place w) : first :: rest < place := by
  obtain ⟨index, a, later, -, rfl, -⟩ := h
  exact List.cons_lt_cons_iff.2 (.inl (by omega))

section

variable {schema : Schema} {fragments : FragmentTable} {frame : Frame} {names : List Name}
  {node : Address} {place : List Nat} {w : Visit}

/-- Going on from where one has come to. -/
theorem Reaches.trans {v u : Visit} {below : List Nat} (h : Reaches schema fragments v place u)
    (hbelow : Reaches schema fragments u below w) :
    Reaches schema fragments v (place ++ below) w := by
  induction h with
  | here => exact hbelow
  | branch hname hfield hs _ ih => exact .branch hname hfield hs (ih hbelow)
  | fragment henters hs _ ih => exact .fragment henters hs (ih hbelow)
  | spread hfind henters hs _ ih => exact .spread hfind henters hs (ih hbelow)

/-- The selections of root nodes are within reach. -/
theorem rootsReach_of_getElem? {type : Name} {index : Nat} {root : RootNode}
    {roots : List RootNode} (hroot : roots[index]? = some root) {position : Nat} {s : Selection}
    (hs : root.selections[position]? = some s) :
    RootsReach schema fragments type 0 roots [index, position]
      ⟨⟨type, none⟩, [], (Address.root index).child position, s⟩ := by
  refine ⟨index, root, [position], hroot, by rw [Nat.zero_add], position, s, [], hs, ?_, ?_⟩
  · rw [Nat.zero_add]
  · rw [Nat.zero_add, Nat.zero_add]
    exact .here

theorem RootsReach.trans {type : Name} {index : Nat} {roots : List RootNode} {v : Visit}
    {below : List Nat} (h : RootsReach schema fragments type index roots place v)
    (hbelow : Reaches schema fragments v below w) :
    RootsReach schema fragments type index roots (place ++ below) w := by
  obtain ⟨offset, root, _, hroot, rfl, position, s, rest, hs, rfl, hreach⟩ := h
  exact ⟨offset, root, _, hroot, rfl, position, s, rest ++ below, hs, rfl, hreach.trans hbelow⟩

theorem selectionsReach_cons_iff {index : Nat} {s : Selection} {rest : List Selection} :
    SelectionsReach schema fragments frame names node index (s :: rest) place w ↔
      (∃ below, place = index :: below ∧
        Reaches schema fragments ⟨frame, names, node.child index, s⟩ below w) ∨
      SelectionsReach schema fragments frame names node (index + 1) rest place w :=
  reachedAmong_cons_iff

theorem rootsReach_cons_iff {type : Name} {index : Nat} {root : RootNode} {rest : List RootNode} :
    RootsReach schema fragments type index (root :: rest) place w ↔
      (∃ below, place = index :: below ∧ SelectionsReach schema fragments ⟨type, none⟩ []
        (.root index) 0 root.selections below w) ∨
      RootsReach schema fragments type (index + 1) rest place w :=
  reachedAmong_cons_iff

theorem reaches_leaf_iff {name : Name} {aliasName : Option String} :
    Reaches schema fragments ⟨frame, names, node, .leaf name aliasName⟩ place w ↔
      place = [] ∧ w = ⟨frame, names, node, .leaf name aliasName⟩ := by
  constructor
  · intro h
    cases h with | here => exact ⟨rfl, rfl⟩
  · rintro ⟨rfl, rfl⟩
    exact .here

theorem reaches_branch_iff {name : Name} {aliasName : Option String} {below : List Selection} :
    Reaches schema fragments ⟨frame, names, node, .branch name aliasName below⟩ place w ↔
      place = [] ∧ w = ⟨frame, names, node, .branch name aliasName below⟩ ∨
        name ≠ typenameField ∧ ∃ definition, schema.fieldNamed frame.type name = .ok definition ∧
          SelectionsReach schema fragments ⟨definition.namedType, some definition⟩ names node 0
            below place w := by
  constructor
  · intro h
    cases h with
    | here => exact .inl ⟨rfl, rfl⟩
    | @branch _ _ _ _ _ _ definition index s place _ hname hfield hs hreach =>
        refine .inr ⟨hname, definition, hfield, index, s, place, hs, ?_, ?_⟩
        · rw [Nat.zero_add]
        · rw [Nat.zero_add]
          exact hreach
  · rintro (⟨rfl, rfl⟩ | ⟨hname, definition, hfield, index, s, place, hs, rfl, hreach⟩)
    · exact .here
    · rw [Nat.zero_add] at hreach ⊢
      exact .branch hname hfield hs hreach

theorem reaches_fragment_iff {condition : Option Name} {body : List Selection} :
    Reaches schema fragments ⟨frame, names, node, .fragment condition body⟩ place w ↔
      place = [] ∧ w = ⟨frame, names, node, .fragment condition body⟩ ∨
        schema.Enters (conditionAt condition frame.type) frame.type ∧
          SelectionsReach schema fragments frame names node 0 body place w := by
  constructor
  · intro h
    cases h with
    | here => exact .inl ⟨rfl, rfl⟩
    | @fragment _ _ _ _ _ index s place _ henters hs hreach =>
        refine .inr ⟨henters, index, s, place, hs, ?_, ?_⟩
        · rw [Nat.zero_add]
        · rw [Nat.zero_add]
          exact hreach
  · rintro (⟨rfl, rfl⟩ | ⟨henters, index, s, place, hs, rfl, hreach⟩)
    · exact .here
    · rw [Nat.zero_add] at hreach ⊢
      exact .fragment henters hs hreach

theorem reaches_spread_iff {name : Name} :
    Reaches schema fragments ⟨frame, names, node, .spread name⟩ place w ↔
      place = [] ∧ w = ⟨frame, names, node, .spread name⟩ ∨
        ∃ definition, fragments.find? name = some definition ∧
          schema.Enters definition.condition frame.type ∧
          SelectionsReach schema fragments frame (names ++ [name]) (.definition name) 0
            definition.selections place w := by
  constructor
  · intro h
    cases h with
    | here => exact .inl ⟨rfl, rfl⟩
    | @spread _ _ _ _ definition index s place _ hfind henters hs hreach =>
        refine .inr ⟨definition, hfind, henters, index, s, place, hs, ?_, ?_⟩
        · rw [Nat.zero_add]
        · rw [Nat.zero_add]
          exact hreach
  · rintro (⟨rfl, rfl⟩ | ⟨definition, hfind, henters, index, s, place, hs, rfl, hreach⟩)
    · exact .here
    · rw [Nat.zero_add] at hreach ⊢
      exact .spread hfind henters hs hreach

end

/-! ## Offences -/

/-- The selection is wrong where it stands, and this is the failure that says so. A fragment on an
    unknown type is to blame itself, a spread of one is not: the definition is. -/
inductive Visit.Offends (schema : Schema) (fragments : FragmentTable) : Visit → Failure → Prop
  | unexpected {frame : Frame} {names : List Name} {node : Address} {kind : String} :
      Offends schema fragments ⟨frame, names, node, .other kind⟩ (.unexpectedSelection kind)
  | notAnObject {frame : Frame} {names : List Name} {node : Address} {s : Selection} {name : Name}
      {t : NamedType} :
      s.fieldName? = some name → name ≠ typenameField → schema.type? frame.type = some t →
      t.isObject = false →
      Offends schema fragments ⟨frame, names, node, s⟩
        (.mask (.notAnObjectType frame.type t.kind) (some node))
  | unknownField {frame : Frame} {names : List Name} {node : Address} {s : Selection} {name : Name}
      {t : NamedType} :
      s.fieldName? = some name → name ≠ typenameField → schema.type? frame.type = some t →
      t.isObject = true → t.field? name = none →
      Offends schema fragments ⟨frame, names, node, s⟩
        (.mask (.unknownField frame.type name) (some node))
  | unknownFragment {frame : Frame} {names : List Name} {node : Address} {name : Name} :
      fragments.find? name = none →
      Offends schema fragments ⟨frame, names, node, .spread name⟩
        (.mask (.unknownFragment name) (some node))
  | cycle {frame : Frame} {names : List Name} {node : Address} {name : Name}
      {definition : Fragment} :
      fragments.find? name = some definition → name ∈ names →
      Offends schema fragments ⟨frame, names, node, .spread name⟩
        (.mask (.fragmentCycle name) (some node))
  | unknownCondition {frame : Frame} {names : List Name} {node : Address} {condition : Name}
      {body : List Selection} :
      schema.type? condition = none →
      Offends schema fragments ⟨frame, names, node, .fragment (some condition) body⟩
        (.mask (.unknownType condition) (some node))
  | unknownSpreadCondition {frame : Frame} {names : List Name} {node : Address} {name : Name}
      {definition : Fragment} :
      fragments.find? name = some definition → name ∉ names →
      schema.type? definition.condition = none →
      Offends schema fragments ⟨frame, names, node, .spread name⟩
        (.mask (.unknownType definition.condition) (some (.definition name)))

/-- The selection is wrong where it stands. -/
def Visit.IsOffending (schema : Schema) (fragments : FragmentTable) (v : Visit) : Prop :=
  ∃ failure, v.Offends schema fragments failure

/-- There is one failure for what is wrong with a selection. -/
theorem Visit.Offends.unique {schema : Schema} {fragments : FragmentTable} {v : Visit}
    {failure failure' : Failure} (h : v.Offends schema fragments failure)
    (h' : v.Offends schema fragments failure') : failure = failure' := by
  cases h with
  | unexpected => cases h' with
    | unexpected => rfl
    | notAnObject hname => cases hname
    | unknownField hname => cases hname
  | notAnObject hname hne ht ho => cases h' <;> simp_all [Selection.fieldName?]
  | unknownField hname hne ht ho hf => cases h' <;> simp_all [Selection.fieldName?]
  | unknownFragment hfind => cases h' <;> simp_all [Selection.fieldName?]
  | cycle hfind hmem => cases h' <;> simp_all [Selection.fieldName?]
  | unknownCondition htarget => cases h' <;> simp_all [Selection.fieldName?]
  | unknownSpreadCondition hfind hmem htarget => cases h' <;> simp_all [Selection.fieldName?]

/-- A failed look-up of a field is reported as what is wrong with the field. -/
theorem offends_of_fieldNamed {schema : Schema} {fragments : FragmentTable} {frame : Frame}
    {names : List Name} {node : Address} {name : Name} {s : Selection} {error : MaskError}
    (hs : s.fieldName? = some name) (hname : name ≠ typenameField)
    (hcurrent : (schema.type? frame.type).isSome)
    (hfield : schema.fieldNamed frame.type name = .error error) :
    Visit.Offends schema fragments ⟨frame, names, node, s⟩ (.mask error (some node)) := by
  obtain ⟨t, ht⟩ := Option.isSome_iff_exists.1 hcurrent
  rw [Schema.fieldNamed, Schema.objectNamed, ht] at hfield
  cases hobject : t.isObject with
  | false =>
      obtain rfl : .notAnObjectType frame.type t.kind = error := by simpa [hobject] using hfield
      exact .notAnObject hs hname ht hobject
  | true =>
      cases hfound : t.field? name with
      | some definition => simp [hobject, hfound] at hfield
      | none =>
          obtain rfl : .unknownField frame.type name = error := by
            simpa [hobject, hfound] using hfield
          exact .unknownField hs hname ht hobject hfound

end SelectionMask
