import SelectionMask.Schema.Lookup

set_option autoImplicit false

/-! # Schemas without wrappers

What is selected below a field is read at its named type, whatever list brackets and non-null marks
stand around that. So two schemas are as good as the same if they are equal once these are taken off
all fields. The built-in types then are the same, since only named types decide which of them there
are, and each look-up comes to the same but for wrappers: `Schema.type?_unwrapped_congr`,
`Schema.fieldNamed_of_unwrapped`. -/

namespace SelectionMask

/-! ## Fields -/

/-- The field with nothing around its named type. -/
def FieldDef.unwrapped (f : FieldDef) : FieldDef :=
  { f with type := .named f.namedType }

namespace FieldDef

variable {f g : FieldDef}

@[simp] theorem name_unwrapped (f : FieldDef) : f.unwrapped.name = f.name := rfl

@[simp] theorem namedType_unwrapped (f : FieldDef) : f.unwrapped.namedType = f.namedType := rfl

theorem name_eq_of_unwrapped (h : f.unwrapped = g.unwrapped) : f.name = g.name := by
  rw [← name_unwrapped f, h, name_unwrapped]

theorem namedType_eq_of_unwrapped (h : f.unwrapped = g.unwrapped) :
    f.namedType = g.namedType := by
  rw [← namedType_unwrapped f, h, namedType_unwrapped]

end FieldDef

/-! ## Types -/

/-- What makes up the type, with nothing around the named types of its fields. -/
def TypeShape.unwrapped : TypeShape → TypeShape
  | object fields interfaces => object (fields.map FieldDef.unwrapped) interfaces
  | interface fields => interface (fields.map FieldDef.unwrapped)
  | shape => shape

/-- The type with nothing around the named types of its fields. -/
def NamedType.unwrapped (t : NamedType) : NamedType :=
  { t with shape := t.shape.unwrapped }

namespace NamedType

variable {t u : NamedType}

@[simp] theorem metadata_unwrapped (t : NamedType) : t.unwrapped.metadata = t.metadata := rfl

@[simp] theorem kind_unwrapped (t : NamedType) : t.unwrapped.kind = t.kind := by
  obtain ⟨name, shape, metadata⟩ := t
  cases shape <;> rfl

@[simp] theorem fields_unwrapped (t : NamedType) :
    t.unwrapped.fields = t.fields.map FieldDef.unwrapped := by
  obtain ⟨name, shape, metadata⟩ := t
  cases shape <;> rfl

@[simp] theorem isObject_unwrapped (t : NamedType) : t.unwrapped.isObject = t.isObject := by
  simp only [isObject, kind_unwrapped]

@[simp] theorem isAbstract_unwrapped (t : NamedType) : t.unwrapped.isAbstract = t.isAbstract := by
  simp only [isAbstract, kind_unwrapped]

theorem field?_unwrapped (t : NamedType) (name : Name) :
    t.unwrapped.field? name = (t.field? name).map FieldDef.unwrapped := by
  rw [field?, fields_unwrapped, List.find?_map]
  rfl

theorem kind_eq_of_unwrapped (h : t.unwrapped = u.unwrapped) : t.kind = u.kind := by
  rw [← kind_unwrapped t, h, kind_unwrapped]

theorem isObject_eq_of_unwrapped (h : t.unwrapped = u.unwrapped) : t.isObject = u.isObject := by
  rw [← isObject_unwrapped t, h, isObject_unwrapped]

theorem isAbstract_eq_of_unwrapped (h : t.unwrapped = u.unwrapped) :
    t.isAbstract = u.isAbstract := by
  rw [← isAbstract_unwrapped t, h, isAbstract_unwrapped]

theorem metadata_eq_of_unwrapped (h : t.unwrapped = u.unwrapped) : t.metadata = u.metadata := by
  rw [← metadata_unwrapped t, h, metadata_unwrapped]

end NamedType

/-! ## Schemas -/

/-- The schema with nothing around the named types of its fields. -/
def Schema.unwrapped (s : Schema) : Schema :=
  ⟨s.types.map NamedType.unwrapped⟩

namespace Schema

variable {s s' : Schema}

theorem refersTo_unwrapped (s : Schema) (name : Name) :
    s.unwrapped.refersTo name = s.refersTo name := by
  simp [refersTo, unwrapped, List.any_map, Function.comp_def]

theorem builtins_unwrapped (s : Schema) : s.unwrapped.builtins = s.builtins := by
  have hrefers : s.unwrapped.refersTo = s.refersTo := funext (refersTo_unwrapped s)
  rw [builtins, builtins, hrefers]

/-- A look-up in all types, the wrappers being taken off afterwards. The built-in types keep theirs
    in a schema without wrappers. -/
theorem map_type?_unwrapped (s : Schema) (name : Name) :
    (s.type? name).map NamedType.unwrapped
      = (s.unwrapped.types ++ s.unwrapped.builtins.map NamedType.unwrapped).find?
          fun t => t.name == name := by
  have htypes : s.unwrapped.types ++ s.unwrapped.builtins.map NamedType.unwrapped
      = s.allTypes.map NamedType.unwrapped := by
    rw [builtins_unwrapped, allTypes, List.map_append]
    rfl
  rw [htypes, List.find?_map]
  rfl

theorem type?_unwrapped_congr (h : s.unwrapped = s'.unwrapped) (name : Name) :
    (s.type? name).map NamedType.unwrapped = (s'.type? name).map NamedType.unwrapped := by
  rw [map_type?_unwrapped, map_type?_unwrapped, h]

/-- A type that is found in one of the schemas is found in the other one. -/
theorem exists_type?_of_unwrapped (h : s.unwrapped = s'.unwrapped) {name : Name} {t : NamedType}
    (ht : s.type? name = some t) :
    ∃ t', s'.type? name = some t' ∧ t.unwrapped = t'.unwrapped := by
  have hsame := type?_unwrapped_congr h name
  rw [ht] at hsame
  obtain ⟨t', ht', heq⟩ := Option.map_eq_some_iff.1 hsame.symm
  exact ⟨t', ht', heq.symm⟩

theorem type?_eq_none_of_unwrapped (h : s.unwrapped = s'.unwrapped) {name : Name}
    (ht : s.type? name = none) : s'.type? name = none := by
  have hsame := type?_unwrapped_congr h name
  rw [ht] at hsame
  exact Option.map_eq_none_iff.1 hsame.symm

/-- A field is found in neither schema, for the same reason, or in both of them, the same but for
    wrappers. -/
theorem fieldNamed_of_unwrapped (h : s.unwrapped = s'.unwrapped) (type name : Name) :
    (∃ error, s.fieldNamed type name = .error error ∧ s'.fieldNamed type name = .error error) ∨
      ∃ f f', s.fieldNamed type name = .ok f ∧ s'.fieldNamed type name = .ok f' ∧
        f.unwrapped = f'.unwrapped := by
  cases ht : s.type? type with
  | none =>
      have ht' := type?_eq_none_of_unwrapped h ht
      exact .inl ⟨.unknownType type, by simp [fieldNamed, objectNamed, ht],
        by simp [fieldNamed, objectNamed, ht']⟩
  | some t =>
      obtain ⟨t', ht', heq⟩ := exists_type?_of_unwrapped h ht
      have hkind : t.kind = t'.kind := NamedType.kind_eq_of_unwrapped heq
      have hsame : t.isObject = t'.isObject := NamedType.isObject_eq_of_unwrapped heq
      have hfield : (t.field? name).map FieldDef.unwrapped
          = (t'.field? name).map FieldDef.unwrapped := by
        rw [← NamedType.field?_unwrapped, heq, NamedType.field?_unwrapped]
      cases hobject : t.isObject with
      | false =>
          exact .inl ⟨.notAnObjectType type t.kind, by simp [fieldNamed, objectNamed, ht, hobject],
            by simp [fieldNamed, objectNamed, ht', ← hsame, hobject, hkind]⟩
      | true =>
          cases hf : t.field? name with
          | none =>
              rw [hf] at hfield
              have hf' : t'.field? name = none := Option.map_eq_none_iff.1 hfield.symm
              exact .inl ⟨.unknownField type name,
                by simp [fieldNamed, objectNamed, ht, hobject, hf],
                by simp [fieldNamed, objectNamed, ht', ← hsame, hobject, hf']⟩
          | some f =>
              rw [hf] at hfield
              obtain ⟨f', hf', hunwrapped⟩ := Option.map_eq_some_iff.1 hfield.symm
              exact .inr ⟨f, f', fieldNamed_eq_ok_iff.2 ⟨t, ht, hobject, hf⟩,
                fieldNamed_eq_ok_iff.2 ⟨t', ht', hsame ▸ hobject, hf'⟩, hunwrapped.symm⟩

end Schema

end SelectionMask
