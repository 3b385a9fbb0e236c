import SelectionMask.Hooks.Metadata
import SelectionMask.Proofs.Document.Chains

set_option autoImplicit false

/-! # What the metadata makes of a query

The mask that the metadata of a schema describes, said without any walk. A field adds the paths that
its metadata adds, and stands under each of the names that its metadata gives it; without metadata,
or with the names left out or cleared, nothing stands under it. A member of an abstract type stands
under its segment, if it has one. `MetadataPath` is the derivation of one path from a selection that
is read at a type. -/

namespace SelectionMask

/-! ## Entries of the metadata -/

/-- The metadata of the field adds the path. -/
def FieldDef.Adds (f : FieldDef) (path : String) : Prop :=
  ∃ m series, f.metadata = some m ∧ m.extraPaths = some series ∧ path ∈ series.elements id

/-- The metadata of the field gives it the name. -/
def FieldDef.GoesBy (f : FieldDef) (name : String) : Prop :=
  ∃ m names, f.metadata = some m ∧ m.maskNames = .given names ∧ name ∈ names.toList

/-- The type stands under the segment as a member: the one its metadata gives, or its name in snake
    case if the metadata leaves it out. -/
def NamedType.StandsUnder (t : NamedType) (segment : String) : Prop :=
  (t.metadata = none ∨ ∃ m, t.metadata = some m ∧ m.segment = .unset) ∧ segment = snakeCase t.name ∨
    ∃ m, t.metadata = some m ∧ m.segment = .given segment

theorem FieldDef.mem_metadataExtraPaths_iff (f : FieldDef) (path : String) :
    path ∈ f.metadataExtraPaths ↔ f.Adds path := by
  unfold metadataExtraPaths Adds FieldMetadata.extraPathList
  cases f.metadata with
  | none => simp
  | some m => cases hextra : m.extraPaths <;> simp [hextra]

theorem FieldDef.mem_metadataNames_iff (f : FieldDef) (name : String) :
    (∃ names, f.metadataNames = some names ∧ name ∈ names.toList) ↔ f.GoesBy name := by
  unfold metadataNames GoesBy Entry.value?
  cases f.metadata with
  | none => simp
  | some m => cases hnames : m.maskNames <;> simp [hnames]

theorem memberSegment_eq_some_iff {t : NamedType} {segment : String} :
    memberSegment t.name t.metadata = some segment ↔ t.StandsUnder segment := by
  unfold memberSegment NamedType.StandsUnder
  cases t.metadata with
  | none => simp [eq_comm]
  | some m => cases hsegment : m.segment <;> simp [hsegment, eq_comm]

/-! ## Derivations -/

/-- A path that the metadata makes of a selection, read at a type. -/
inductive MetadataPath (schema : Schema) (fragments : FragmentTable) :
    Name → Selection → String → Prop
  | extra {type name : Name} {s : Selection} {definition : FieldDef} {path : String} :
      s.fieldName? = some name → name ≠ typenameField →
      schema.fieldNamed type name = .ok definition → definition.Adds path →
      MetadataPath schema fragments type s path
  | leaf {type name : Name} {aliasName : Option String} {definition : FieldDef} {segment : String} :
      name ≠ typenameField → schema.fieldNamed type name = .ok definition →
      definition.GoesBy segment →
      MetadataPath schema fragments type (.leaf name aliasName) segment
  | branch {type name : Name} {aliasName : Option String} {below : List Selection}
      {definition : FieldDef} {segment : String} {s : Selection} {path : String} :
      name ≠ typenameField → schema.fieldNamed type name = .ok definition →
      definition.GoesBy segment → s ∈ below →
      MetadataPath schema fragments definition.namedType s path →
      MetadataPath schema fragments type (.branch name aliasName below) (joinPath segment path)
  | fragment {type : Name} {condition : Option Name} {body : List Selection} {s : Selection}
      {path : String} :
      schema.Enters (conditionAt condition type) type → s ∈ body →
      MetadataPath schema fragments type s path →
      MetadataPath schema fragments type (.fragment condition body) path
  | spread {type name : Name} {definition : Fragment} {s : Selection} {path : String} :
      fragments.find? name = some definition → schema.Enters definition.condition type →
      s ∈ definition.selections → MetadataPath schema fragments type s path →
      MetadataPath schema fragments type (.spread name) path
  | member {type condition : Name} {body : List Selection} {t : NamedType} {segment : String}
      {s : Selection} {path : String} :
      schema.IsAbstract type → condition ≠ type → schema.type? condition = some t →
      t.StandsUnder segment → s ∈ body → MetadataPath schema fragments condition s path →
      MetadataPath schema fragments type (.fragment (some condition) body) (joinPath segment path)
  | spreadMember {type name : Name} {definition : Fragment} {t : NamedType} {segment : String}
      {s : Selection} {path : String} :
      fragments.find? name = some definition → schema.IsAbstract type →
      definition.condition ≠ type → schema.type? definition.condition = some t →
      t.StandsUnder segment → s ∈ definition.selections →
      MetadataPath schema fragments definition.condition s path →
      MetadataPath schema fragments type (.spread name) (joinPath segment path)

/-- A path made of one of the selections. -/
def MetadataPaths (schema : Schema) (fragments : FragmentTable) (type : Name)
    (ss : List Selection) (path : String) : Prop :=
  ∃ s ∈ ss, MetadataPath schema fragments type s path

/-- A path made of a fragment with the given condition and selections. -/
def BodyPath (schema : Schema) (fragments : FragmentTable) (type condition : Name)
    (body : List Selection) (path : String) : Prop :=
  schema.Enters condition type ∧ MetadataPaths schema fragments type body path ∨
    schema.IsAbstract type ∧ condition ≠ type ∧
      ∃ t segment rest, schema.type? condition = some t ∧ t.StandsUnder segment ∧
        MetadataPaths schema fragments condition body rest ∧ path = joinPath segment rest

section

variable {schema : Schema} {fragments : FragmentTable} {type : Name} {path : String}

theorem metadataPath_leaf_iff {name : Name} {aliasName : Option String} :
    MetadataPath schema fragments type (.leaf name aliasName) path ↔
      name ≠ typenameField ∧ ∃ definition, schema.fieldNamed type name = .ok definition ∧
        (definition.Adds path ∨ definition.GoesBy path) := by
  constructor
  · intro h
    cases h with
    | extra hs hname hfield hadds =>
        obtain rfl := Option.some.inj hs
        exact ⟨hname, _, hfield, .inl hadds⟩
    | leaf hname hfield hgoes => exact ⟨hname, _, hfield, .inr hgoes⟩
  · rintro ⟨hname, definition, hfield, hadds | hgoes⟩
    · exact .extra rfl hname hfield hadds
    · exact .leaf hname hfield hgoes

theorem metadataPath_branch_iff {name : Name} {aliasName : Option String}
    {below : List Selection} :
    MetadataPath schema fragments type (.branch name aliasName below) path ↔
      name ≠ typenameField ∧ ∃ definition, schema.fieldNamed type name = .ok definition ∧
        (definition.Adds path ∨ ∃ segment rest, definition.GoesBy segment ∧
          MetadataPaths schema fragments definition.namedType below rest ∧
          path = joinPath segment rest) := by
  constructor
  · intro h
    cases h with
    | extra hs hname hfield hadds =>
        obtain rfl := Option.some.inj hs
        exact ⟨hname, _, hfield, .inl hadds⟩
    | branch hname hfield hgoes hs hpath =>
        exact ⟨hname, _, hfield, .inr ⟨_, _, hgoes, ⟨_, hs, hpath⟩, rfl⟩⟩
  · rintro ⟨hname, definition, hfield, hadds | ⟨segment, rest, hgoes, ⟨s, hs, hpath⟩, rfl⟩⟩
    · exact .extra rfl hname hfield hadds
    · exact .branch hname hfield hgoes hs hpath

theorem metadataPath_fragment_iff {condition : Option Name} {body : List Selection} :
    MetadataPath schema fragments type (.fragment condition body) path ↔
      BodyPath schema fragments type (conditionAt condition type) body path := by
  constructor
  · intro h
    cases h with
    | extra hs => cases hs
    | fragment henters hs hpath => exact .inl ⟨henters, _, hs, hpath⟩
    | member habstract hother ht hsegment hs hpath =>
        exact .inr ⟨habstract, hother, _, _, _, ht, hsegment, ⟨_, hs, hpath⟩, rfl⟩
  · rintro (⟨henters, s, hs, hpath⟩ |
      ⟨habstract, hother, t, segment, rest, ht, hsegment, ⟨s, hs, hpath⟩, rfl⟩)
    · exact .fragment henters hs hpath
    · cases condition with
      | none => exact absurd rfl hother
      | some condition => exact .member habstract hother ht hsegment hs hpath

theorem metadataPath_spread_iff {name : Name} :
    MetadataPath schema fragments type (.spread name) path ↔
      ∃ definition, fragments.find? name = some definition ∧
        BodyPath schema fragments type definition.condition definition.selections path := by
  constructor
  · intro h
    cases h with
    | extra hs => cases hs
    | spread hfind henters hs hpath => exact ⟨_, hfind, .inl ⟨henters, _, hs, hpath⟩⟩
    | spreadMember hfind habstract hother ht hsegment hs hpath =>
        exact ⟨_, hfind,
          .inr ⟨habstract, hother, _, _, _, ht, hsegment, ⟨_, hs, hpath⟩, rfl⟩⟩
  · rintro ⟨definition, hfind, ⟨henters, s, hs, hpath⟩ |
      ⟨habstract, hother, t, segment, rest, ht, hsegment, ⟨s, hs, hpath⟩, rfl⟩⟩
    · exact .spread hfind henters hs hpath
    · exact .spreadMember hfind habstract hother ht hsegment hs hpath

end

end SelectionMask
