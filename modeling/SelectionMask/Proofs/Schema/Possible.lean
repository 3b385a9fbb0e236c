import SelectionMask.Schema.Lookup

set_option autoImplicit false

/-! # Possible types

The values of an interface are of the object types that list it, those of a union of its members,
and those of an object type are of this type. These object types are the possible types of the
other. A schema implements its interfaces if each object type has the fields of the interfaces that
it lists, with types that fit; then a field of a type is one of all its possible types. -/

namespace SelectionMask

namespace NamedType

variable {t : NamedType}

/-- A union has no fields. -/
theorem field?_eq_none_of_mem_members {object : Name} (h : object ∈ t.members) (name : Name) :
    t.field? name = none := by
  obtain ⟨_, shape, _⟩ := t
  cases shape <;> simp_all [members, field?, fields]

/-- Only object types list interfaces. -/
theorem isObject_of_mem_interfaces {interface : Name} (h : interface ∈ t.interfaces) :
    t.isObject = true := by
  obtain ⟨_, shape, _⟩ := t
  cases shape <;> simp_all [interfaces, isObject, kind]

end NamedType

namespace Schema

variable {s : Schema} {name : Name}

/-- There is an object type of the name. -/
def IsObject (s : Schema) (name : Name) : Prop :=
  ∃ t, s.type? name = some t ∧ t.isObject = true

theorem isObject_iff {t : NamedType} (h : s.type? name = some t) :
    s.IsObject name ↔ t.isObject = true := by
  simp [IsObject, h]

instance (s : Schema) (name : Name) : Decidable (s.IsObject name) :=
  decidable_of_iff ((s.type? name).any NamedType.isObject = true) (by
    cases h : s.type? name <;> simp [IsObject, h])

/-- The second type is a possible type of the first one. -/
inductive Possible (s : Schema) : Name → Name → Prop
  | object {object : Name} : s.IsObject object → Possible s object object
  | implementer {interface object : Name} {t u : NamedType} :
      s.type? interface = some t → t.kind = .interface → s.type? object = some u →
      interface ∈ u.interfaces → Possible s interface object
  | member {union object : Name} {t : NamedType} :
      s.type? union = some t → object ∈ t.members → s.IsObject object → Possible s union object

theorem possible_iff {abstract object : Name} :
    s.Possible abstract object ↔
      (abstract = object ∧ s.IsObject object) ∨
      (∃ t ∈ s.type? abstract, t.kind = .interface ∧ ∃ u ∈ s.type? object, abstract ∈ u.interfaces) ∨
      ∃ t ∈ s.type? abstract, object ∈ t.members ∧ s.IsObject object := by
  constructor
  · rintro (hobject | ⟨ht, hkind, hu, hlists⟩ | ⟨ht, hmember, hobject⟩)
    · exact .inl ⟨rfl, hobject⟩
    · exact .inr (.inl ⟨_, ht, hkind, _, hu, hlists⟩)
    · exact .inr (.inr ⟨_, ht, hmember, hobject⟩)
  · rintro (⟨rfl, hobject⟩ | ⟨t, ht, hkind, u, hu, hlists⟩ | ⟨t, ht, hmember, hobject⟩)
    · exact .object hobject
    · exact .implementer ht hkind hu hlists
    · exact .member ht hmember hobject

instance (s : Schema) (abstract object : Name) : Decidable (s.Possible abstract object) :=
  decidable_of_iff _ possible_iff.symm

/-- What is meant for the first type can be read at the second one: if this is an object type, it is
    a possible type of the first. -/
def Fits (s : Schema) (type object : Name) : Prop :=
  s.IsObject object → s.Possible type object

instance (s : Schema) (type object : Name) : Decidable (s.Fits type object) :=
  inferInstanceAs (Decidable (s.IsObject object → s.Possible type object))

theorem fits_refl (s : Schema) (name : Name) : s.Fits name name :=
  .object

/-- Each object type has the fields of the interfaces that it lists, with types that fit. -/
def ImplementsInterfaces (s : Schema) : Prop :=
  ∀ t ∈ s.allTypes, s.type? t.name = some t → ∀ interface ∈ t.interfaces,
    ∀ u ∈ s.type? interface, u.kind = .interface → ∀ f ∈ u.fields, u.field? f.name = some f →
      ∃ g ∈ t.field? f.name, s.Fits f.namedType g.namedType

instance (s : Schema) : Decidable s.ImplementsInterfaces :=
  inferInstanceAs (Decidable (∀ t ∈ s.allTypes, s.type? t.name = some t →
    ∀ interface ∈ t.interfaces, ∀ u ∈ s.type? interface, u.kind = .interface →
      ∀ f ∈ u.fields, u.field? f.name = some f →
        ∃ g ∈ t.field? f.name, s.Fits f.namedType g.namedType))

/-- The field of a name as the type defines it, whatever kind of type it is. -/
def fieldOf? (s : Schema) (type name : Name) : Option FieldDef :=
  (s.type? type).bind fun t => t.field? name

/-- **A field of a type is found at each of its possible types**, with a type that fits. -/
theorem ImplementsInterfaces.fieldNamed (h : s.ImplementsInterfaces) {type object : Name}
    (hpossible : s.Possible type object) {f : FieldDef} (hf : s.fieldOf? type name = some f) :
    ∃ g, s.fieldNamed object name = .ok g ∧ s.Fits f.namedType g.namedType := by
  cases hpossible with
  | object hobject =>
      obtain ⟨t, ht, hkind⟩ := hobject
      have hfield : t.field? name = some f := by simpa [fieldOf?, ht] using hf
      exact ⟨f, fieldNamed_eq_ok_iff.2 ⟨t, ht, hkind, hfield⟩, s.fits_refl _⟩
  | @implementer _ t u ht hkind hu hlists =>
      have hfield : t.field? name = some f := by simpa [fieldOf?, ht] using hf
      obtain rfl := NamedType.name_of_field? hfield
      obtain rfl := name_of_type? hu
      obtain ⟨g, hg, hfits⟩ := h u (List.mem_of_find?_eq_some hu) hu _ hlists t ht hkind f
        (NamedType.mem_fields_of_field? hfield) hfield
      exact ⟨g, fieldNamed_eq_ok_iff.2 ⟨u, hu, NamedType.isObject_of_mem_interfaces hlists, hg⟩, hfits⟩
  | member ht hmember _ =>
      simp [fieldOf?, ht, NamedType.field?_eq_none_of_mem_members hmember] at hf

end Schema

end SelectionMask
