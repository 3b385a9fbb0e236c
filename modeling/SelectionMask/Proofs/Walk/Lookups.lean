import SelectionMask.Proofs.Document.Chains
import SelectionMask.Proofs.Document.Hidden
import SelectionMask.Walk.Basic

set_option autoImplicit false

/-! # What a walk looks up

A walk knows the schema and the fragments only by looking things up: types by their names, of which
it reads whether they are abstract and their metadata, fields of object types, and definitions of
fragments. `Visit.lookups` lists what is looked up where a selection is visited. Environments that
agree on these are the same for the visit. -/

namespace SelectionMask

/-! ## Outlines of types -/

/-- What a walk reads of a type itself: whether it is abstract, and its metadata. -/
def NamedType.outline (t : NamedType) : Bool × Option TypeMetadata :=
  (t.isAbstract, t.metadata)

namespace Schema

/-- The outline of the type of a name. -/
def outline? (s : Schema) (name : Name) : Option (Bool × Option TypeMetadata) :=
  (s.type? name).map NamedType.outline

variable {s s' : Schema} {name : Name}

theorem type?_eq_none_of_outline? (h : s'.outline? name = s.outline? name)
    (hnone : s.type? name = none) : s'.type? name = none := by
  simpa [outline?, hnone] using h

theorem type?_eq_some_of_outline? (h : s'.outline? name = s.outline? name) {t : NamedType}
    (ht : s.type? name = some t) :
    ∃ t', s'.type? name = some t' ∧ t'.isAbstract = t.isAbstract ∧ t'.metadata = t.metadata := by
  simpa [outline?, ht, NamedType.outline] using h

theorem isAbstract_congr (h : s'.outline? name = s.outline? name) :
    s'.IsAbstract name ↔ s.IsAbstract name := by
  cases ht : s.type? name with
  | none => simp [IsAbstract, ht, type?_eq_none_of_outline? h ht]
  | some t =>
      obtain ⟨t', ht', habstract, -⟩ := type?_eq_some_of_outline? h ht
      rw [isAbstract_iff ht, isAbstract_iff ht', habstract]

theorem enters_congr {current : Name} (h : s'.outline? name = s.outline? name)
    (hcurrent : s'.outline? current = s.outline? current) :
    s'.Enters name current ↔ s.Enters name current := by
  rw [Enters, Enters, isAbstract_congr h, isAbstract_congr hcurrent]

end Schema

/-! ## Look-ups -/

/-- Something that a walk looks up by name. -/
inductive Lookup where
  | type (name : Name)
  | field (owner name : Name)
  | fragment (name : Name)
deriving DecidableEq, Repr

/-- The look-up finds something. -/
def Env.Has (env : Env) : Lookup → Prop
  | .type name => (env.schema.type? name).isSome
  | .field owner name => ∃ definition, env.schema.fieldNamed owner name = .ok definition
  | .fragment name => (env.fragments.find? name).isSome

instance (env : Env) (l : Lookup) : Decidable (env.Has l) :=
  match l with
  | .type name => inferInstanceAs (Decidable ((env.schema.type? name).isSome = true))
  | .field owner name =>
      decidable_of_iff ((env.schema.fieldNamed owner name).isOk = true) (by
        cases hfound : env.schema.fieldNamed owner name <;> simp [Env.Has, hfound, Except.isOk,
          Except.toBool])
  | .fragment name => inferInstanceAs (Decidable ((env.fragments.find? name).isSome = true))

/-- The look-up comes out the same in both environments: an outline, a field, or definitions that
    are the same but for what is hidden. -/
def Lookup.Agrees (hidden : Address → Prop) (env env' : Env) : Lookup → Prop
  | type name => env'.schema.outline? name = env.schema.outline? name
  | field owner name => env'.schema.fieldNamed owner name = env.schema.fieldNamed owner name
  | fragment name =>
      Option.Rel (Fragment.SameOutside hidden name) (env.fragments.find? name)
        (env'.fragments.find? name)

/-- What is looked up where a selection is visited. The name of a type is no field, and the type of a
    spread is that of the definition found for it. -/
def Visit.lookups (fragments : FragmentTable) (v : Visit) : List Lookup :=
  match v.selection with
  | .leaf name _ => if name = typenameField then [] else [.field v.frame.type name]
  | .branch name _ _ => if name = typenameField then [] else [.field v.frame.type name]
  | .fragment condition _ => [.type (conditionAt condition v.frame.type), .type v.frame.type]
  | .spread name =>
      .fragment name ::
        match fragments.find? name with
        | none => []
        | some definition => [.type definition.condition, .type v.frame.type]
  | .other _ => []

end SelectionMask
