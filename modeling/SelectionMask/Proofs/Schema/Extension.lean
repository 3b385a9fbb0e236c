import Mathlib.Tactic.MkIffOfInductiveProp
import SelectionMask.Schema.Lookup

set_option autoImplicit false

/-! # Larger schemas

A schema extends another one if every type of the other is still found, of the same kind and with the
same metadata, and with all the fields it had. It may have more types, and its types more fields.
This is said of built-in types as well: a larger schema may not declare one of them anew as something
else, but it may have more of them, since it may refer to more scalars. -/

namespace SelectionMask

namespace NamedType

/-- The kind and the metadata are the same, and each field that is found stays what it is. -/
@[mk_iff]
structure KeptIn (t larger : NamedType) : Prop where
  kind : larger.kind = t.kind
  metadata : larger.metadata = t.metadata
  fields : ∀ f ∈ t.fields, larger.field? f.name = t.field? f.name

instance (t larger : NamedType) : Decidable (t.KeptIn larger) :=
  decidable_of_iff _ (keptIn_iff t larger).symm

namespace KeptIn

variable {t larger : NamedType} (h : t.KeptIn larger)
include h

theorem isObject : larger.isObject = t.isObject := by
  rw [NamedType.isObject, NamedType.isObject, h.kind]

theorem isAbstract : larger.isAbstract = t.isAbstract := by
  rw [NamedType.isAbstract, NamedType.isAbstract, h.kind]

theorem field? {name : Name} {f : FieldDef} (hf : t.field? name = some f) :
    larger.field? name = some f := by
  have hname := h.fields f (mem_fields_of_field? hf)
  rwa [name_of_field? hf, hf] at hname

end KeptIn

end NamedType

namespace Schema

/-- Every type of the schema is kept in the larger one. -/
def Extends (larger s : Schema) : Prop :=
  ∀ name t, s.type? name = some t → ∃ t', larger.type? name = some t' ∧ t.KeptIn t'

theorem extends_iff {larger s : Schema} :
    larger.Extends s ↔ ∀ t ∈ s.allTypes, s.type? t.name = some t →
      (larger.type? t.name).any (fun t' => t.KeptIn t') = true := by
  constructor
  · intro h t _ htype
    obtain ⟨t', hfound, hkept⟩ := h t.name t htype
    simpa [hfound] using hkept
  · intro h name t htype
    obtain rfl := name_of_type? htype
    have hkept := h t (List.mem_of_find?_eq_some htype) htype
    simpa [Option.any_eq_true] using hkept

instance (larger s : Schema) : Decidable (larger.Extends s) :=
  decidable_of_iff _ extends_iff.symm

/-- A field that is found is found in the larger schema as well. -/
theorem Extends.fieldNamed {larger s : Schema} (h : larger.Extends s) {type name : Name}
    {f : FieldDef} (hf : s.fieldNamed type name = .ok f) : larger.fieldNamed type name = .ok f := by
  obtain ⟨t, htype, hobject, hfield⟩ := fieldNamed_eq_ok_iff.1 hf
  obtain ⟨t', hfound, hkept⟩ := h type t htype
  exact fieldNamed_eq_ok_iff.2
    ⟨t', hfound, hkept.isObject.trans hobject, hkept.field? hfield⟩

end Schema

end SelectionMask
