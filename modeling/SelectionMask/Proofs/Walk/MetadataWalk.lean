import SelectionMask.Proofs.Document.MetadataPaths
import SelectionMask.Proofs.Walk.Roots

set_option autoImplicit false

/-! # The walk with the hooks of the metadata

With the three hooks that read the metadata of the schema, a walk that returns has found exactly the
paths that the metadata makes of its selections. Each step of the walk is a rule of `MetadataPath`,
and a step that is not taken (a field that is dropped, a member without a segment) is one that no
rule allows. -/

namespace SelectionMask

namespace Walk

variable {schema : Schema} {fragments : FragmentTable} {descend : Descend} {names : List Name}
  {paths : List String}

/-- Every deeper walk that returns has found the paths that the metadata makes of its selections. -/
def FindsMetadata (schema : Schema) (fragments : FragmentTable) : Descend → Prop :=
  Meets fun frame _ ss paths =>
    ∀ path, path ∈ paths ↔ MetadataPaths schema fragments frame.type ss path

/-! ## Members -/

theorem returns_memberPaths_iff (hd : descend.Restores) {n : Narrowing} {node : Address}
    {ss : List Selection} :
    (memberPaths descend n node ss).Returns names paths ↔
      (descend ⟨n.concreteType, some n.field⟩ node ss).Returns names paths := by
  rw [Returns, outcome_memberPaths hd, Returns]

/-- A member under its segment returns its own paths under it, and nothing without one. -/
theorem returns_follow_underSegment_iff {members : Walk (List String)} (hm : members.Restores)
    {segment? : Option String} :
    ((Strategy.underSegment segment?).follow members).Returns names paths ↔
      segment? = none ∧ paths = [] ∨ ∃ segment below, segment? = some segment ∧
        members.Returns names below ∧ paths = below.map (joinPath segment) := by
  cases segment? with
  | none => simp [Strategy.underSegment, eq_comm]
  | some segment =>
      rw [Strategy.underSegment, Strategy.follow_ask, hm.returns_bind_iff]
      simp [eq_comm]

theorem returns_narrow_memberSegments_iff (hd : descend.Restores) {n : Narrowing}
    {node : Address} {ss : List Selection} :
    (narrow descend Hooks.memberSegments n node ss).Returns names paths ↔
      n.segment = none ∧ paths = [] ∨ ∃ segment below, n.segment = some segment ∧
        (descend ⟨n.concreteType, some n.field⟩ node ss).Returns names below ∧
        paths = below.map (joinPath segment) := by
  have hfollow : (narrow descend Hooks.memberSegments n node ss).Returns names paths ↔
      ((Strategy.underSegment n.segment).follow (memberPaths descend n node ss)).Returns names
        paths := Iff.rfl
  rw [hfollow, returns_follow_underSegment_iff (restores_memberPaths hd n node ss)]
  simp only [returns_memberPaths_iff hd]

theorem segment_eq_some_iff {type condition : Name} {target : NamedType} {field : FieldDef}
    (htarget : schema.type? condition = some target) {segment : String} :
    Narrowing.segment ⟨type, condition, target.metadata, field⟩ = some segment
      ↔ target.StandsUnder segment := by
  rw [Narrowing.segment, ← memberSegment_eq_some_iff, Schema.name_of_type? htarget]

/-! ## Steps -/

/-- A field returns the paths that its metadata adds, and those below it under each of its names. -/
theorem returns_field_ofMetadata_iff (hd : descend.Restores) {type : Name} {node : Address}
    {name : Name} {aliasName : Option String} {ss : Option (List Selection)} :
    (field ⟨schema, fragments, .ofMetadata⟩ descend type node name aliasName ss).Returns names
        paths ↔
      name = typenameField ∧ paths = [] ∨
      name ≠ typenameField ∧ ∃ definition, schema.fieldNamed type name = .ok definition ∧
        (definition.metadataNames = none ∧ paths = definition.metadataExtraPaths ∨
          ∃ given below, definition.metadataNames = some given ∧
            (pathsBelow descend definition node given.toList ss).Returns names below ∧
            paths = definition.metadataExtraPaths ++ below) := by
  rw [returns_field_iff hd]
  refine or_congr_right (and_congr_right fun _ => exists_congr fun definition => ?_)
  have hextra : Hooks.ofMetadata.extraPathsAt ⟨type, definition, aliasName⟩
      = .ok definition.metadataExtraPaths := rfl
  have hnames : Hooks.ofMetadata.namesAt ⟨type, definition, aliasName⟩
      = .ok (definition.metadataNames.map OneOrMany.toList) := rfl
  rw [hextra, hnames]
  cases definition.metadataNames <;> simp

/-- The paths of a fragment. -/
theorem mem_of_returns_enterFragment (hd : descend.Restores)
    (hfinds : FindsMetadata schema fragments descend) {frame : Frame} {condition : Name}
    {node : Address} {ss : List Selection}
    (h : (enterFragment ⟨schema, fragments, .ofMetadata⟩ descend frame condition node ss).Returns
      names paths) (path : String) :
    path ∈ paths ↔ BodyPath schema fragments frame.type condition ss path := by
  obtain ⟨target, current, htarget, hcurrent, hcases⟩ := returns_enterFragment_iff.1 h
  rw [BodyPath, Schema.isAbstract_iff hcurrent]
  rcases hcases with ⟨henters, hpaths⟩ | ⟨hskips, hconcrete, rfl⟩ | ⟨hskips, habstract, hmember⟩
  · rw [hfinds hpaths path]
    constructor
    · intro hpath
      exact .inl ⟨henters, hpath⟩
    · rintro (⟨-, hpath⟩ | ⟨habstract, hother, -⟩)
      · exact hpath
      · have hsame := henters.eq_of_isAbstract ((Schema.isAbstract_iff hcurrent).2 habstract)
        exact absurd hsame hother
  · simp [hskips, hconcrete]
  · have hother : condition ≠ frame.type := fun hsame => hskips (.inl hsame)
    rcases hmember with ⟨hunset, -⟩ | ⟨hook, field, hhook, -, hpaths⟩
    · exact absurd hunset (by simp [Hooks.ofMetadata])
    · obtain rfl : Hooks.memberSegments = hook := Option.some.inj hhook
      simp only [hskips, false_and, habstract, hother, ne_eq, not_false_eq_true, true_and,
        false_or, htarget, Option.some.injEq]
      rcases (returns_narrow_memberSegments_iff hd).1 hpaths with
        ⟨hnone, rfl⟩ | ⟨segment, below, hsome, hbelow, rfl⟩
      · have hcleared : ∀ segment, ¬ target.StandsUnder segment := by
          intro segment hsegment
          rw [← segment_eq_some_iff htarget, hnone] at hsegment
          cases hsegment
        simp [hcleared]
      · have hsegment : ∀ segment', target.StandsUnder segment' ↔ segment = segment' := by
          intro segment'
          rw [← segment_eq_some_iff htarget, hsome, Option.some.injEq]
        have hfound := hfinds hbelow
        simp [hsegment, ← hfound, eq_comm]

/-- The paths of one selection. -/
theorem mem_of_returns_pathsOf (hd : descend.Restores)
    (hfinds : FindsMetadata schema fragments descend) {frame : Frame} {node : Address}
    {s : Selection}
    (h : (pathsOf ⟨schema, fragments, .ofMetadata⟩ descend frame node s).Returns names paths)
    (path : String) : path ∈ paths ↔ MetadataPath schema fragments frame.type s path := by
  cases s with
  | leaf name aliasName =>
      rw [metadataPath_leaf_iff]
      rcases (returns_field_ofMetadata_iff hd).1 h with
        ⟨hname, rfl⟩ | ⟨hname, definition, hfield, hpaths⟩
      · simp [hname]
      · have hadds := definition.mem_metadataExtraPaths_iff path
        have hgoes := definition.mem_metadataNames_iff path
        rcases hpaths with ⟨hnone, rfl⟩ | ⟨given, below, hgiven, hbelow, rfl⟩
        · simp [hname, hfield, hadds, ← hgoes, hnone]
        · obtain rfl : given.toList = below := returns_pure_iff.1 hbelow
          simp [hname, hfield, hadds, ← hgoes, hgiven]
  | branch name aliasName below =>
      rw [metadataPath_branch_iff]
      rcases (returns_field_ofMetadata_iff hd).1 h with
        ⟨hname, rfl⟩ | ⟨hname, definition, hfield, hpaths⟩
      · simp [hname]
      · have hadds := definition.mem_metadataExtraPaths_iff path
        have hgoes := definition.mem_metadataNames_iff
        rcases hpaths with ⟨hnone, rfl⟩ | ⟨given, joined, hgiven, hjoined, rfl⟩
        · simp [hname, hfield, hadds, ← hgoes, hnone]
        · obtain ⟨found, hfound, rfl⟩ := (returns_pathsBelow_iff hd).1 hjoined
          simp [hname, hfield, hadds, ← hgoes, hgiven, ← hfinds hfound, mem_joinAll_iff]
  | fragment condition body =>
      rw [metadataPath_fragment_iff]
      exact mem_of_returns_enterFragment hd hfinds h path
  | spread fragment =>
      obtain ⟨definition, hfind, -, hpaths⟩ := returns_spread_iff.1 h
      rw [metadataPath_spread_iff, mem_of_returns_enterFragment hd hfinds hpaths path]
      simp [hfind]
  | other kind => exact absurd h (not_returns_fail _ _)

/-! ## Whole walks -/

theorem findsMetadata_selections :
    FindsMetadata schema fragments (selections ⟨schema, fragments, .ofMetadata⟩) := by
  refine meets_selections ?_ ?_
  · intro frame index path
    simp [MetadataPaths]
  · intro descend hd hfinds frame node names index s rest found others hfound hothers path
    rw [List.mem_append, mem_of_returns_pathsOf hd hfinds hfound path, hothers path]
    simp [MetadataPaths]

theorem mem_of_returns_rootPaths {type : Name} {index : Nat} {roots : List RootNode}
    (h : (rootPaths ⟨schema, fragments, .ofMetadata⟩ type index roots).Returns names paths)
    (path : String) :
    path ∈ paths ↔ ∃ root ∈ roots, MetadataPaths schema fragments type root.selections path := by
  induction roots generalizing index paths with
  | nil =>
      obtain rfl := returns_rootPaths_nil_iff.1 h
      simp
  | cons root rest ih =>
      obtain ⟨found, others, hfound, hothers, rfl⟩ := returns_rootPaths_cons_iff.1 h
      have hroot := findsMetadata_selections hfound path
      rw [List.mem_append, hroot, ih hothers]
      simp

end Walk

/-! ## The mask -/

/-- **The hooks of the metadata give what the metadata says.** A mask that is computed with them
    holds exactly the paths that the metadata makes of the root nodes. -/
theorem mem_maskPaths_ofMetadata_iff {schema : Schema} {fragments : FragmentTable} {type : Name}
    {roots : List RootNode} {paths : List String}
    (h : (maskPaths type roots fragments schema (some .ofMetadata)).outcome = .ok paths)
    (path : String) :
    path ∈ paths ↔
      ∃ root ∈ roots, MetadataPaths schema fragments type root.selections path := by
  obtain ⟨-, found, hfound, rfl⟩ := maskPaths_eq_ok_iff.1 h
  rw [List.mem_eraseDups]
  exact Walk.mem_of_returns_rootPaths hfound path

/-- A query with a field that goes by two names and adds the characters of a text, one that is
    cleared but adds a path all the same, and three members of a union: one under the segment made
    from its name, one without a segment, one under a segment of its own. -/
theorem mem_maskPaths_ofMetadata_iff_of_members :
    let goesBy := fun names : List String => some ⟨.given (.many names), none, []⟩
    let schema : Schema :=
      ⟨[⟨"Query", .object
          [⟨"pet", .named "Pet",
              some ⟨.given (.many ["pet", "old_pet"]), some (.spelled "xy"), []⟩⟩,
            ⟨"owner", .named "Pet", some ⟨.cleared, some (.listed ["owner_id"]), []⟩⟩] [], none⟩,
        ⟨"Pet", .union ["SmallDog", "Cat", "Bird"], none⟩,
        ⟨"SmallDog", .object [⟨"name", .named "String", goesBy ["name"]⟩] [], none⟩,
        ⟨"Cat", .object [⟨"name", .named "String", goesBy ["name"]⟩] [], some ⟨.cleared, []⟩⟩,
        ⟨"Bird", .object [⟨"name", .named "String", goesBy ["name"]⟩] [], some ⟨.given "b", []⟩⟩]⟩
    let fragments : FragmentTable := .ofList [("Bird", ⟨"Bird", [.leaf "name" none]⟩)]
    let members : List Selection :=
      [.fragment (some "SmallDog") [.leaf "name" none], .fragment (some "Cat") [.leaf "name" none],
        .spread "Bird"]
    let roots : List RootNode :=
      [.operation [.branch "pet" none members, .branch "owner" none members]]
    let paths := ["x", "y", "pet.small_dog.name", "pet.b.name", "old_pet.small_dog.name",
      "old_pet.b.name", "owner_id"]
    (maskPaths "Query" roots fragments schema (some .ofMetadata)).outcome = .ok paths ∧
      ∀ path, path ∈ paths ↔
        ∃ root ∈ roots, MetadataPaths schema fragments "Query" root.selections path :=
  ⟨rfl, mem_maskPaths_ofMetadata_iff rfl⟩

end SelectionMask
