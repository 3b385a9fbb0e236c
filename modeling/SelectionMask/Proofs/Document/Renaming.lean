import Mathlib.Data.List.Basic
import SelectionMask.Proofs.Document.Segments
import SelectionMask.Walk.Basic

set_option autoImplicit false

/-! # Renaming the paths of a query

A naming gives each field of each type any number of names. It renames a path field by field: the
fields are looked up one after the other as the path goes through the schema, and each is replaced
by one of its names. `Renames` is that relation. With at most one name for each field a path has at
most one renaming, which `renamePath` computes.

`Renamed` relates a list of paths to what becomes of it. It is kept by everything that a walk does
with its paths: a field is put in front of them on one side and its names on the other. -/

namespace SelectionMask

/-- The names of a field, from the type that has it and its definition. -/
abbrev Naming := Name → FieldDef → Option (OneOrMany String)

namespace Naming

/-- The naming as the only hook. -/
def hooks (naming : Naming) : Hooks :=
  ⟨some fun site => .ok (naming site.parentType site.field), none, none⟩

/-- The names as a list; a field that is dropped has none. -/
def names (naming : Naming) (type : Name) (field : FieldDef) : List String :=
  ((naming type field).map OneOrMany.toList).getD []

/-- No field that can be found has two names. -/
def AtMostOne (naming : Naming) (schema : Schema) : Prop :=
  ∀ type name field, schema.fieldNamed type name = .ok field →
    (naming.names type field).length ≤ 1

end Naming

/-- The fields, looked up from the type on, each have the name at the same position. -/
inductive Renames (schema : Schema) (naming : Naming) : Name → List Name → List String → Prop
  | nil {type : Name} : Renames schema naming type [] []
  | cons {type field : Name} {definition : FieldDef} {name : String} {fields : List Name}
      {names : List String} :
      schema.fieldNamed type field = .ok definition → name ∈ naming.names type definition →
      Renames schema naming definition.namedType fields names →
      Renames schema naming type (field :: fields) (name :: names)

/-- The first name of each field, looked up from the type on. None if some field has no name. -/
def renaming? (schema : Schema) (naming : Naming) : Name → List Name → Option (List String)
  | _, [] => some []
  | type, field :: fields =>
      match schema.fieldNamed type field with
      | .error _ => none
      | .ok definition =>
          (naming.names type definition).head?.bind fun name =>
            (renaming? schema naming definition.namedType fields).map (name :: ·)

/-- The path with each of its segments renamed. None if some segment has no name. -/
def renamePath (schema : Schema) (naming : Naming) (type : Name) (path : String) :
    Option String :=
  (renaming? schema naming type (segments path)).map dotted

section

variable {schema : Schema} {naming : Naming} {type field : Name} {definition : FieldDef}
  {fields : List Name} {names : List String}

theorem renames_nil_iff : Renames schema naming type [] names ↔ names = [] := by
  constructor
  · intro h
    cases h
    rfl
  · rintro rfl
    exact .nil

theorem renames_cons_iff (hfield : schema.fieldNamed type field = .ok definition) :
    Renames schema naming type (field :: fields) names ↔
      ∃ name rest, names = name :: rest ∧ name ∈ naming.names type definition ∧
        Renames schema naming definition.namedType fields rest := by
  constructor
  · intro h
    cases h with
    | cons hfield' hname hrest =>
        obtain rfl := Except.ok.inj (hfield.symm.trans hfield')
        exact ⟨_, _, rfl, hname, hrest⟩
  · rintro ⟨name, rest, rfl, hname, hrest⟩
    exact .cons hfield hname hrest

theorem Renames.names_ne_nil (h : Renames schema naming type fields names) (hne : fields ≠ []) :
    names ≠ [] := by
  cases h with
  | nil => exact absurd rfl hne
  | cons _ _ _ => exact List.cons_ne_nil _ _

/-- Fields that can be looked up one after the other have no dots in a schema without dots. -/
theorem Renames.dotFree (h : Renames schema naming type fields names)
    (hdots : schema.FieldsDotFree) : ∀ field ∈ fields, DotFree field := by
  induction h with
  | nil => exact fun _ hmem => absurd hmem List.not_mem_nil
  | cons hfield _ _ ih =>
      intro field hmem
      rcases List.mem_cons.1 hmem with rfl | hmem
      · exact hdots.of_fieldNamed hfield
      · exact ih field hmem

theorem renaming?_cons (hfield : schema.fieldNamed type field = .ok definition) :
    renaming? schema naming type (field :: fields) =
      (naming.names type definition).head?.bind fun name =>
        (renaming? schema naming definition.namedType fields).map (name :: ·) := by
  rw [renaming?, hfield]

/-- A field without a name suppresses what is below it. -/
theorem renaming?_cons_of_nil (hfield : schema.fieldNamed type field = .ok definition)
    (hnames : naming.names type definition = []) :
    renaming? schema naming type (field :: fields) = none := by
  rw [renaming?_cons hfield, hnames]
  rfl

theorem renaming?_cons_of_singleton (hfield : schema.fieldNamed type field = .ok definition)
    {name : String} (hnames : naming.names type definition = [name]) :
    renaming? schema naming type (field :: fields)
      = (renaming? schema naming definition.namedType fields).map (name :: ·) := by
  rw [renaming?_cons hfield, hnames]
  rfl

theorem length_of_renaming? (h : renaming? schema naming type fields = some names) :
    names.length = fields.length := by
  induction fields generalizing type names with
  | nil =>
      obtain rfl := Option.some.inj h
      rfl
  | cons field rest ih =>
      cases hfield : schema.fieldNamed type field with
      | error error =>
          rw [renaming?, hfield] at h
          cases h
      | ok definition =>
          rw [renaming?_cons hfield] at h
          obtain ⟨name, -, h⟩ := Option.bind_eq_some_iff.1 h
          obtain ⟨below, hbelow, rfl⟩ := Option.map_eq_some_iff.1 h
          rw [List.length_cons, List.length_cons, ih hbelow]

/-- The one name of a field in front of what the rest of the path becomes. -/
theorem dotted_renaming?_cons (hfield : schema.fieldNamed type field = .ok definition)
    {name : String} (hnames : naming.names type definition = [name]) (hne : fields ≠ []) :
    (renaming? schema naming type (field :: fields)).map dotted =
      ((renaming? schema naming definition.namedType fields).map dotted).map (joinPath name) := by
  rw [renaming?_cons_of_singleton hfield hnames]
  cases hrest : renaming? schema naming definition.namedType fields with
  | none => rfl
  | some names =>
      have hlength : names.length = fields.length := length_of_renaming? hrest
      have hnames : names ≠ [] := by
        rintro rfl
        exact hne (List.length_eq_zero_iff.1 hlength.symm)
      exact congrArg some (dotted_cons hnames)

end

/-! ## What becomes of a list of paths -/

/-- The second list is what becomes of the first: each path stands for fields, and the second list
    holds all renamings of these. With at most one name for each field it holds them in turn. -/
def Renamed (schema : Schema) (naming : Naming) (type : Name) (plain renamed : List String) :
    Prop :=
  ∃ chains : List (List Name),
    chains.map dotted = plain ∧
    (∀ fields ∈ chains, fields ≠ [] ∧ ∀ field ∈ fields, DotFree field) ∧
    (∀ path, path ∈ renamed ↔
      ∃ fields ∈ chains, ∃ names, Renames schema naming type fields names ∧ dotted names = path) ∧
    (naming.AtMostOne schema →
      renamed = chains.filterMap fun fields => (renaming? schema naming type fields).map dotted)

section Renamed

variable {schema : Schema} {naming : Naming} {type field : Name} {definition : FieldDef}
  {plain renamed : List String}

theorem renamed_nil : Renamed schema naming type [] [] :=
  ⟨[], rfl, by simp, by simp, fun _ => rfl⟩

theorem Renamed.append {others othersRenamed : List String}
    (h : Renamed schema naming type plain renamed)
    (hothers : Renamed schema naming type others othersRenamed) :
    Renamed schema naming type (plain ++ others) (renamed ++ othersRenamed) := by
  obtain ⟨chains, rfl, hchains, hmem, hone⟩ := h
  obtain ⟨later, rfl, hlater, hmem', hone'⟩ := hothers
  refine ⟨chains ++ later, List.map_append, ?_, ?_, ?_⟩
  · intro fields hfields
    rcases List.mem_append.1 hfields with hfields | hfields
    · exact hchains fields hfields
    · exact hlater fields hfields
  · intro path
    rw [List.mem_append, hmem, hmem']
    simp only [List.mem_append, or_and_right, exists_or]
  · intro honce
    rw [hone honce, hone' honce, List.filterMap_append]

/-- A field that ends its path. -/
theorem renamed_leaf (hfield : schema.fieldNamed type field = .ok definition)
    (hdots : DotFree field) :
    Renamed schema naming type [field] (naming.names type definition) := by
  refine ⟨[[field]], by simp, by simpa using hdots, ?_, ?_⟩
  · intro path
    constructor
    · intro hname
      exact ⟨[field], List.mem_singleton_self _, [path], .cons hfield hname .nil,
        dotted_singleton path⟩
    · rintro ⟨_, hfields, names, hrenames, rfl⟩
      obtain rfl := List.mem_singleton.1 hfields
      obtain ⟨name, rest, rfl, hname, hrest⟩ := (renames_cons_iff hfield).1 hrenames
      obtain rfl := renames_nil_iff.1 hrest
      rwa [dotted_singleton]
  · intro honce
    have hlength := honce type field definition hfield
    rcases hnames : naming.names type definition with _ | ⟨name, _ | ⟨other, rest⟩⟩
    · simp [renaming?_cons_of_nil hfield hnames]
    · have hrenaming : renaming? schema naming type [field] = some [name] :=
        renaming?_cons_of_singleton hfield hnames
      simp [hrenaming]
    · simp [hnames] at hlength

/-- A field and its names in front of the paths below it. -/
theorem Renamed.cons_field (hfield : schema.fieldNamed type field = .ok definition)
    (hdots : DotFree field) (h : Renamed schema naming definition.namedType plain renamed) :
    Renamed schema naming type (plain.map (joinPath field))
      (joinAll (naming.names type definition) renamed) := by
  obtain ⟨chains, rfl, hchains, hmem, hone⟩ := h
  have hcons : ∀ fields ∈ chains, dotted (field :: fields) = joinPath field (dotted fields) :=
    fun fields hfields => dotted_cons (hchains fields hfields).1
  refine ⟨chains.map (field :: ·), ?_, ?_, ?_, ?_⟩
  · rw [List.map_map, List.map_map]
    exact List.map_congr_left hcons
  · intro fields hfields
    obtain ⟨below, hbelow, rfl⟩ := List.mem_map.1 hfields
    refine ⟨List.cons_ne_nil _ _, fun name hname => ?_⟩
    rcases List.mem_cons.1 hname with rfl | hname
    · exact hdots
    · exact (hchains below hbelow).2 name hname
  · intro path
    rw [mem_joinAll_iff]
    constructor
    · rintro ⟨name, hname, rest, hrest, rfl⟩
      obtain ⟨fields, hfields, names, hrenames, rfl⟩ := (hmem rest).1 hrest
      refine ⟨field :: fields, List.mem_map_of_mem hfields, name :: names,
        .cons hfield hname hrenames, ?_⟩
      exact dotted_cons (hrenames.names_ne_nil (hchains fields hfields).1)
    · rintro ⟨_, hmap, names, hrenames, rfl⟩
      obtain ⟨fields, hfields, rfl⟩ := List.mem_map.1 hmap
      obtain ⟨name, rest, rfl, hname, hrest⟩ := (renames_cons_iff hfield).1 hrenames
      refine ⟨name, hname, dotted rest, (hmem _).2 ⟨fields, hfields, rest, hrest, rfl⟩, ?_⟩
      exact dotted_cons (hrest.names_ne_nil (hchains fields hfields).1)
  · intro honce
    have hlength := honce type field definition hfield
    rw [hone honce, List.filterMap_map]
    rcases hnames : naming.names type definition with _ | ⟨name, _ | ⟨other, rest⟩⟩
    · symm
      refine List.filterMap_eq_nil_iff.2 fun fields _ => ?_
      rw [Function.comp_apply, renaming?_cons_of_nil hfield hnames, Option.map_none]
    · rw [joinAll_singleton, List.map_filterMap]
      refine List.filterMap_congr fun fields hfields => ?_
      exact (dotted_renaming?_cons hfield hnames (hchains fields hfields).1).symm
    · simp [hnames] at hlength

end Renamed

end SelectionMask
