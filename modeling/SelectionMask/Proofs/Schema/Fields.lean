import SelectionMask.Schema.Lookup

set_option autoImplicit false

/-! # The fields that a look-up can find

A field that is found belongs to a declared type or to one of the types in which a schema describes
itself. So what holds of all declared fields, and of the fields of those few types, holds of every
field that is found: `Schema.of_fieldNamed`. -/

namespace SelectionMask

namespace Schema

variable {s : Schema}

theorem of_fieldNamed {p : FieldDef → Prop} (hdeclared : ∀ t ∈ s.types, ∀ f ∈ t.fields, p f)
    (hbuiltin : ∀ t ∈ introspectionTypes, ∀ f ∈ t.fields, p f) {type name : Name} {f : FieldDef}
    (h : s.fieldNamed type name = .ok f) : p f := by
  obtain ⟨t, htype, -, hfield⟩ := fieldNamed_eq_ok_iff.1 h
  have hf : f ∈ t.fields := NamedType.mem_fields_of_field? hfield
  rcases List.mem_append.1 (List.mem_of_find?_eq_some htype) with ht | ht
  · exact hdeclared t ht f hf
  · -- The built-in scalars have no fields.
    rcases List.mem_append.1 ht with ht | ht
    · rcases List.mem_append.1 ht with ht | ht
      · obtain ⟨name, -, rfl⟩ := List.mem_map.1 ht
        exact absurd hf List.not_mem_nil
      · obtain ⟨name, -, rfl⟩ := List.mem_map.1 ht
        exact absurd hf List.not_mem_nil
    · exact hbuiltin t ht f hf

/-! ## Types of fields -/

/-- There is a type for each field of a declared type. -/
def FieldTypesExist (s : Schema) : Prop :=
  ∀ t ∈ s.types, ∀ f ∈ t.fields, (s.type? f.namedType).isSome

instance (s : Schema) : Decidable s.FieldTypesExist :=
  inferInstanceAs (Decidable (∀ t ∈ s.types, ∀ f ∈ t.fields, (s.type? f.namedType).isSome))

theorem isSome_type?_of_mem {t : NamedType} (h : t ∈ s.allTypes) : (s.type? t.name).isSome :=
  List.find?_isSome.2 ⟨t, h, beq_self_eq_true t.name⟩

/-- The types in which a schema describes itself are closed: their fields are of these types or of
    scalars that every schema has. -/
theorem introspection_closed :
    ∀ t ∈ introspectionTypes, ∀ f ∈ t.fields,
      f.namedType ∈ standingScalars ++ introspectionTypes.map NamedType.name := by
  decide +kernel

theorem isSome_type?_of_builtin {name : Name}
    (h : name ∈ standingScalars ++ introspectionTypes.map NamedType.name) :
    (s.type? name).isSome := by
  rcases List.mem_append.1 h with h | h
  · have hmem : NamedType.plainScalar name ∈ s.builtins :=
      List.mem_append_left _ (List.mem_append_left _ (List.mem_map_of_mem h))
    exact isSome_type?_of_mem (List.mem_append_right _ hmem)
  · obtain ⟨t, ht, rfl⟩ := List.mem_map.1 h
    exact isSome_type?_of_mem (List.mem_append_right _ (List.mem_append_right _ ht))

theorem FieldTypesExist.of_fieldNamed (h : s.FieldTypesExist) {type name : Name} {f : FieldDef}
    (hf : s.fieldNamed type name = .ok f) : (s.type? f.namedType).isSome := by
  refine Schema.of_fieldNamed (p := fun f => (s.type? f.namedType).isSome) h ?_ hf
  intro t ht f hf
  exact isSome_type?_of_builtin (introspection_closed t ht f hf)

end Schema

end SelectionMask
