import SelectionMask.Document.FragmentTable
import SelectionMask.Proofs.Document.Offences
import SelectionMask.Proofs.Schema.Possible

set_option autoImplicit false

/-! # Valid selections

Selections are valid at a type if their fields are fields of the type, with selections that are valid
at the fields' types, and their fragments are on types that share a possible type with it, with
selections that are valid at those. So validity goes by the type that a fragment is on, while a walk
goes on at the type that it has come to: `Visit.Follows` relates the two, and `Visit.Misapplied` is
where they part. -/

namespace SelectionMask

/-- The selections are valid at the type. A spread of a fragment that is not defined is not judged, nor
    is a node of another kind. -/
inductive ValidAt (schema : Schema) (fragments : FragmentTable) : Name → List Selection → Prop
  | nil {type : Name} : ValidAt schema fragments type []
  | typename {type : Name} {s : Selection} {rest : List Selection} :
      s.fieldName? = some typenameField → ValidAt schema fragments type rest →
      ValidAt schema fragments type (s :: rest)
  | leaf {type name : Name} {aliasName : Option String} {definition : FieldDef}
      {rest : List Selection} :
      schema.fieldOf? type name = some definition → ValidAt schema fragments type rest →
      ValidAt schema fragments type (.leaf name aliasName :: rest)
  | branch {type name : Name} {aliasName : Option String} {definition : FieldDef}
      {below rest : List Selection} :
      schema.fieldOf? type name = some definition →
      ValidAt schema fragments definition.namedType below → ValidAt schema fragments type rest →
      ValidAt schema fragments type (.branch name aliasName below :: rest)
  | fragment (object : Name) {type : Name} {condition : Option Name} {body rest : List Selection} :
      schema.Possible type object → schema.Possible (conditionAt condition type) object →
      ValidAt schema fragments (conditionAt condition type) body →
      ValidAt schema fragments type rest →
      ValidAt schema fragments type (.fragment condition body :: rest)
  | spread (object : Name) {type name : Name} {definition : Fragment} {rest : List Selection} :
      fragments.find? name = some definition → schema.Possible type object →
      schema.Possible definition.condition object →
      ValidAt schema fragments definition.condition definition.selections →
      ValidAt schema fragments type rest → ValidAt schema fragments type (.spread name :: rest)
  | undefined {type name : Name} {rest : List Selection} :
      fragments.find? name = none → ValidAt schema fragments type rest →
      ValidAt schema fragments type (.spread name :: rest)
  | other {type : Name} {kind : String} {rest : List Selection} :
      ValidAt schema fragments type rest → ValidAt schema fragments type (.other kind :: rest)

section

variable {schema : Schema} {fragments : FragmentTable} {type : Name}

/-- Each of the selections is valid by itself. -/
theorem ValidAt.singleton {ss : List Selection} (h : ValidAt schema fragments type ss)
    {s : Selection} (hs : s ∈ ss) : ValidAt schema fragments type [s] := by
  induction h with
  | nil => exact absurd hs List.not_mem_nil
  | typename hname _ ih =>
      rcases List.mem_cons.1 hs with rfl | hs
      · exact .typename hname .nil
      · exact ih hs
  | leaf hfield _ ih =>
      rcases List.mem_cons.1 hs with rfl | hs
      · exact .leaf hfield .nil
      · exact ih hs
  | branch hfield hbelow _ _ ih =>
      rcases List.mem_cons.1 hs with rfl | hs
      · exact .branch hfield hbelow .nil
      · exact ih hs
  | fragment object hpossible hshared hbody _ _ ih =>
      rcases List.mem_cons.1 hs with rfl | hs
      · exact .fragment object hpossible hshared hbody .nil
      · exact ih hs
  | spread object hfind hpossible hshared hbody _ _ ih =>
      rcases List.mem_cons.1 hs with rfl | hs
      · exact .spread object hfind hpossible hshared hbody .nil
      · exact ih hs
  | undefined hnone _ ih =>
      rcases List.mem_cons.1 hs with rfl | hs
      · exact .undefined hnone .nil
      · exact ih hs
  | other _ ih =>
      rcases List.mem_cons.1 hs with rfl | hs
      · exact .other .nil
      · exact ih hs

theorem ValidAt.getElem? {ss : List Selection} (h : ValidAt schema fragments type ss) {index : Nat}
    {s : Selection} (hs : ss[index]? = some s) : ValidAt schema fragments type [s] :=
  h.singleton (List.mem_of_getElem? hs)

/-- A valid field is one of the type. -/
theorem ValidAt.fieldOf? {s : Selection} (h : ValidAt schema fragments type [s]) {name : Name}
    (hs : s.fieldName? = some name) (hname : name ≠ typenameField) :
    ∃ definition, schema.fieldOf? type name = some definition := by
  cases h with
  | typename htypename _ => exact absurd (Option.some.inj (hs.symm.trans htypename)) hname
  | leaf hfield _ => cases hs; exact ⟨_, hfield⟩
  | branch hfield _ _ => cases hs; exact ⟨_, hfield⟩
  | _ => cases hs

theorem ValidAt.of_branch {name : Name} {aliasName : Option String} {below : List Selection}
    (h : ValidAt schema fragments type [.branch name aliasName below])
    (hname : name ≠ typenameField) :
    ∃ definition, schema.fieldOf? type name = some definition ∧
      ValidAt schema fragments definition.namedType below := by
  cases h with
  | typename htypename _ => exact absurd (Option.some.inj htypename) hname
  | branch hfield hbelow _ => exact ⟨_, hfield, hbelow⟩

theorem ValidAt.of_fragment {condition : Option Name} {body : List Selection}
    (h : ValidAt schema fragments type [.fragment condition body]) :
    ValidAt schema fragments (conditionAt condition type) body := by
  cases h with
  | typename htypename _ => cases htypename
  | fragment _ _ _ hbody _ => exact hbody

theorem ValidAt.of_spread {name : Name} (h : ValidAt schema fragments type [.spread name])
    {definition : Fragment} (hfind : fragments.find? name = some definition) :
    ValidAt schema fragments definition.condition definition.selections := by
  cases h with
  | typename htypename _ => cases htypename
  | spread _ hfind' _ _ hbody _ =>
      obtain rfl := Option.some.inj (hfind.symm.trans hfind')
      exact hbody
  | undefined hnone _ => simp [hnone] at hfind

end

/-! ## Where validity and the walk part -/

/-- The type that a fragment or a spread is on, if it says so. -/
def Selection.condition? (fragments : FragmentTable) : Selection → Option Name
  | fragment condition _ => condition
  | spread name => (fragments.find? name).map Fragment.condition
  | _ => none

/-- A fragment on an abstract type is met at an object type that is no possible type of it. The walk
    reads it there, but its fields need not be fields of the object type. -/
def Visit.Misapplied (schema : Schema) (fragments : FragmentTable) (v : Visit) : Prop :=
  ∃ condition, v.selection.condition? fragments = some condition ∧ schema.IsAbstract condition ∧
    schema.IsObject v.frame.type ∧ ¬ schema.Possible condition v.frame.type

/-- The selection is valid at a type that fits the one at hand. -/
def Visit.Follows (schema : Schema) (fragments : FragmentTable) (v : Visit) : Prop :=
  ∃ type, ValidAt schema fragments type [v.selection] ∧ schema.Fits type v.frame.type

section

variable {schema : Schema} {fragments : FragmentTable}

/-- Unless the fragment is misapplied, the type that it is on fits wherever it is read in place. -/
theorem Visit.fits_of_enters {frame : Frame} {names : List Name} {node : Address} {s : Selection}
    (h : ¬ Visit.Misapplied schema fragments ⟨frame, names, node, s⟩) {condition : Name}
    (hcondition : s.condition? fragments = some condition)
    (henters : schema.Enters condition frame.type) : schema.Fits condition frame.type := by
  intro hobject
  rcases henters with hsame | ⟨habstract, -⟩
  · rw [hsame]
    exact .object hobject
  · exact Decidable.byContradiction fun himpossible =>
      h ⟨condition, hcondition, habstract, hobject, himpossible⟩

/-- A valid field is found at a type that fits. -/
theorem Visit.Follows.not_unknownField (himplements : schema.ImplementsInterfaces) {v : Visit}
    (h : v.Follows schema fragments) {owner name : Name} {blamed : Option Address} :
    ¬ v.Offends schema fragments (.mask (.unknownField owner name) blamed) := by
  intro hoffends
  obtain ⟨type, hvalid, hfits⟩ := h
  cases hoffends with
  | unknownField hs hname ht hobject hnone =>
      obtain ⟨definition, hfield⟩ := hvalid.fieldOf? hs hname
      obtain ⟨found, hfound, -⟩ :=
        himplements.fieldNamed (hfits ((Schema.isObject_iff ht).2 hobject)) hfield
      obtain ⟨t, ht', -, hsome⟩ := Schema.fieldNamed_eq_ok_iff.1 hfound
      obtain rfl := Option.some.inj (ht.symm.trans ht')
      exact absurd hsome (by simp [hnone])

end

end SelectionMask
