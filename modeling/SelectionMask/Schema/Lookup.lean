import SelectionMask.MaskError
import SelectionMask.Schema.Builtin

set_option autoImplicit false

/-! # Looking up types and fields

A declared type wins over a built-in one of the same name. The look-ups that can fail say why:
`Schema.typeNamed` when there is no such type, `Schema.objectNamed` also when the type is of another
kind, `Schema.fieldNamed` also when the object type has no such field. -/

namespace SelectionMask

namespace Schema

/-- All types, the declared ones first. -/
def allTypes (s : Schema) : List NamedType :=
  s.types ++ s.builtins

/-- The type of a name. -/
def type? (s : Schema) (name : Name) : Option NamedType :=
  s.allTypes.find? fun t => t.name == name

/-- A type that is found has the name it was looked up by. -/
theorem name_of_type? {s : Schema} {name : Name} {t : NamedType}
    (h : s.type? name = some t) : t.name = name := by
  simpa using List.find?_some h

/-- The type of a name, which has to exist. -/
def typeNamed (s : Schema) (name : Name) : Except MaskError NamedType :=
  match s.type? name with
  | some t => .ok t
  | none => .error (.unknownType name)

/-- The object type of a name. -/
def objectNamed (s : Schema) (name : Name) : Except MaskError NamedType :=
  match s.type? name with
  | some t => if t.isObject then .ok t else .error (.notAnObjectType name t.kind)
  | none => .error (.unknownType name)

/-- The field of an object type, both of which have to exist. -/
def fieldNamed (s : Schema) (type name : Name) : Except MaskError FieldDef :=
  match s.objectNamed type with
  | .error e => .error e
  | .ok t =>
      match t.field? name with
      | some f => .ok f
      | none => .error (.unknownField type name)

theorem typeNamed_eq_ok_iff {s : Schema} {name : Name} {t : NamedType} :
    s.typeNamed name = .ok t ↔ s.type? name = some t := by
  unfold typeNamed
  cases s.type? name <;> simp

theorem typeNamed_eq_error_iff {s : Schema} {name : Name} {e : MaskError} :
    s.typeNamed name = .error e ↔ s.type? name = none ∧ e = .unknownType name := by
  unfold typeNamed
  cases s.type? name <;> simp [eq_comm]

/-- A look-up finds a field exactly if the type is an object type that has it. -/
theorem fieldNamed_eq_ok_iff {s : Schema} {type name : Name} {f : FieldDef} :
    s.fieldNamed type name = .ok f ↔
      ∃ t, s.type? type = some t ∧ t.isObject = true ∧ t.field? name = some f := by
  unfold fieldNamed objectNamed
  cases s.type? type with
  | none => simp
  | some t =>
      cases ho : t.isObject
      · simp [ho]
      · cases hf : t.field? name <;> simp [ho, hf]

theorem name_of_fieldNamed {s : Schema} {type name : Name} {f : FieldDef}
    (h : s.fieldNamed type name = .ok f) : f.name = name := by
  obtain ⟨t, -, -, hfield⟩ := fieldNamed_eq_ok_iff.1 h
  exact NamedType.name_of_field? hfield

end Schema

end SelectionMask
