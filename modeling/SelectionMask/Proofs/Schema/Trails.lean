import SelectionMask.Proofs.Document.Segments

set_option autoImplicit false

/-! # Fields followed through a schema

From a type one can follow fields one after the other: each is a field of the object type at hand,
and the next one is looked up at its named type. `Schema.Trail` is such a way, and may ask more of
each field, also with regard to the fields after it. The fields of a way determine the types on it,
which is why ways that end only at leaf types are never prefixes of each other. -/

namespace SelectionMask

namespace Schema

/-- The fields can be followed from the type on, and each fits the ones after it. -/
inductive Trail (s : Schema) (fits : FieldDef → List Name → Prop) : Name → List Name → Prop
  | nil {type : Name} : Trail s fits type []
  | cons {type field : Name} {definition : FieldDef} {rest : List Name} :
      field ≠ typenameField → s.fieldNamed type field = .ok definition → fits definition rest →
      Trail s fits definition.namedType rest → Trail s fits type (field :: rest)

/-- The fields can be followed from the type on: each is a field of the object type at hand, other
    than the name of the type, and the next type is the field's named type. -/
def Follows (s : Schema) : Name → List Name → Prop :=
  s.Trail fun _ _ => True

/-- There is a type of the name whose values have no fields to select. -/
def IsLeaf (s : Schema) (name : Name) : Prop :=
  ∃ t ∈ s.type? name, t.kind = .scalar ∨ t.kind = .enum

instance (s : Schema) (name : Name) : Decidable (s.IsLeaf name) :=
  inferInstanceAs (Decidable (∃ t ∈ s.type? name, t.kind = .scalar ∨ t.kind = .enum))

/-- The field is of a leaf type exactly if it is the last one. -/
def EndsAtLeaf (s : Schema) (definition : FieldDef) (rest : List Name) : Prop :=
  rest = [] ↔ s.IsLeaf definition.namedType

variable {s : Schema} {fits : FieldDef → List Name → Prop} {type field : Name}
  {definition : FieldDef} {fields rest : List Name}

theorem trail_cons_iff (hfield : s.fieldNamed type field = .ok definition) :
    s.Trail fits type (field :: rest) ↔
      field ≠ typenameField ∧ fits definition rest ∧ s.Trail fits definition.namedType rest := by
  constructor
  · intro h
    cases h with
    | cons hname hfound hfits hrest =>
        obtain rfl := Except.ok.inj (hfield.symm.trans hfound)
        exact ⟨hname, hfits, hrest⟩
  · rintro ⟨hname, hfits, hrest⟩
    exact .cons hname hfield hfits hrest

theorem Trail.dotFree (hdots : s.FieldsDotFree) (h : s.Trail fits type fields) :
    ∀ field ∈ fields, DotFree field := by
  induction h with
  | nil => exact fun _ hmem => absurd hmem List.not_mem_nil
  | cons _ hfield _ _ ih =>
      intro field hmem
      rcases List.mem_cons.1 hmem with rfl | hmem
      · exact hdots.of_fieldNamed hfield
      · exact ih field hmem

/-- **A way to a leaf type goes no further.** The longer way would pass the field of that type. -/
theorem Trail.eq_nil_of_append (hfields : fields ≠ []) (h : s.Trail s.EndsAtLeaf type fields)
    (happend : s.Trail s.EndsAtLeaf type (fields ++ rest)) : rest = [] := by
  induction h with
  | nil => exact absurd rfl hfields
  | @cons type field definition below _ hfield hfits _ ih =>
      -- The longer way finds the same field here, and goes on at the same type.
      obtain ⟨-, hfits', hbelow'⟩ := (trail_cons_iff hfield).1 happend
      by_cases hbelow : below = []
      · subst hbelow
        have hleaf : s.IsLeaf definition.namedType := hfits.1 rfl
        exact hfits'.2 hleaf
      · exact ih hbelow hbelow'

end Schema

end SelectionMask
