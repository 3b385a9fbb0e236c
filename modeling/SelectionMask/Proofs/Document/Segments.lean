import SelectionMask.Proofs.Document.Chains
import SelectionMask.Proofs.Schema.Fields

set_option autoImplicit false

/-! # Segments of a path

A path is the names of its fields with dots between them. As long as no name has a dot of its own
the names can be read off the path again: `segments_dotted`. -/

namespace SelectionMask

/-- The name has no dot in it. -/
def DotFree (name : Name) : Prop :=
  '.' ∉ name.toList

instance (name : Name) : Decidable (DotFree name) :=
  inferInstanceAs (Decidable ('.' ∉ name.toList))

/-- The parts of a path between its dots. -/
def segments (path : String) : List Name :=
  (path.toList.splitOn '.').map String.ofList

/-- A path falls into the names that it was made of. -/
theorem segments_dotted {fields : List Name} (hne : fields ≠ [])
    (hdots : ∀ field ∈ fields, DotFree field) : segments (dotted fields) = fields := by
  have htexts : (dotted fields).toList = ['.'].intercalate (fields.map String.toList) :=
    String.toList_intercalate
  have hfree : ∀ text ∈ fields.map String.toList, '.' ∉ text := by
    intro text htext
    obtain ⟨field, hfield, rfl⟩ := List.mem_map.1 htext
    exact hdots field hfield
  rw [segments, htexts, List.splitOn_intercalate '.' hfree (by simpa using hne), List.map_map]
  simp

/-- A dot between two paths parts their segments. -/
theorem segments_joinPath (path rest : String) :
    segments (joinPath path rest) = segments path ++ segments rest := by
  have htext : (joinPath path rest).toList = path.toList ++ '.' :: rest.toList := by
    simp [joinPath, String.toList_append]
  rw [segments, htext, List.splitOn_append_cons_self, List.map_append]
  rfl

/-- A name without a dot is a segment of its own in front of a path. -/
theorem segments_joinPath_of_dotFree {name : Name} (h : DotFree name) (rest : String) :
    segments (joinPath name rest) = name :: segments rest := by
  have hname : segments (dotted [name]) = [name] := segments_dotted (by simp) (by simpa using h)
  rw [dotted_singleton] at hname
  rw [segments_joinPath, hname, List.singleton_append]

theorem segments_ne_nil (path : String) : segments path ≠ [] := by
  simp [segments, List.splitOn_ne_nil]

theorem dotted_inj {fields fields' : List Name} (hne : fields ≠ []) (hne' : fields' ≠ [])
    (hdots : ∀ field ∈ fields, DotFree field) (hdots' : ∀ field ∈ fields', DotFree field)
    (h : dotted fields = dotted fields') : fields = fields' := by
  rw [← segments_dotted hne hdots, h, segments_dotted hne' hdots']

namespace Schema

variable {s : Schema}

/-- No field of a declared type has a dot in its name. -/
def FieldsDotFree (s : Schema) : Prop :=
  ∀ t ∈ s.types, ∀ f ∈ t.fields, DotFree f.name

instance (s : Schema) : Decidable s.FieldsDotFree :=
  inferInstanceAs (Decidable (∀ t ∈ s.types, ∀ f ∈ t.fields, DotFree f.name))

theorem introspection_dotFree :
    ∀ t ∈ introspectionTypes, ∀ f ∈ t.fields, DotFree f.name := by
  decide +kernel

theorem FieldsDotFree.of_fieldNamed (h : s.FieldsDotFree) {type name : Name} {f : FieldDef}
    (hfield : s.fieldNamed type name = .ok f) : DotFree name := by
  rw [← name_of_fieldNamed hfield]
  exact Schema.of_fieldNamed (p := fun f => DotFree f.name) h introspection_dotFree
    hfield

end Schema

end SelectionMask
