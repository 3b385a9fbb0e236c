import SelectionMask.Proofs.Document.Renaming
import SelectionMask.Proofs.Walk.Roots

set_option autoImplicit false

/-! # The walk with a naming

A naming changes what a field is called and nothing else. So a walk with a naming goes wherever the
walk without hooks goes, except below a field that it drops, and returns whenever that one returns;
and what it returns is what becomes of the other's paths. -/

namespace SelectionMask

namespace Walk

variable {schema : Schema} {fragments : FragmentTable} {naming : Naming}
  {descend descend' : Descend} {names : List Name} {paths : List String}

/-- Whenever the deeper walk returns, the other one returns what becomes of its paths. -/
def RenamesBelow (schema : Schema) (naming : Naming) (descend descend' : Descend) : Prop :=
  ∀ ⦃frame node ss names paths⦄, (descend frame node ss).Returns names paths →
    ∃ renamed, (descend' frame node ss).Returns names renamed ∧
      Renamed schema naming frame.type paths renamed

/-! ## Fields -/

/-- A field that is found returns what is returned below its names. One without any name is dropped,
    so nothing may come of it there either. -/
theorem returns_field_naming (hd : descend.Restores) {type name : Name} {definition : FieldDef}
    (hname : name ≠ typenameField) (hfield : schema.fieldNamed type name = .ok definition)
    {node : Address} {aliasName : Option String} {ss : Option (List Selection)}
    (below : List String → List String) (hnone : below [] = [])
    (hbelow : ∀ given, (pathsBelow descend definition node given ss).Returns names (below given)) :
    (field ⟨schema, fragments, naming.hooks⟩ descend type node name aliasName ss).Returns names
      (below (naming.names type definition)) := by
  refine (returns_field_iff hd).2 (.inr ⟨hname, definition, [], _, hfield, rfl, rfl, ?_⟩)
  unfold Naming.names
  cases naming type definition with
  | none => exact .inl ⟨rfl, hnone⟩
  | some given => exact .inr ⟨given.toList, _, rfl, hbelow given.toList, rfl⟩

theorem returns_typename (env : Env) {type : Name} {node : Address} {aliasName : Option String}
    {ss : Option (List Selection)} :
    (field env descend type node typenameField aliasName ss).Returns names [] := by
  rw [field, if_pos rfl, returns_pure_iff]

/-! ## Fragments -/

/-- A fragment is read in place by both walks, or ignored by both. -/
theorem renames_enterFragment (hrenames : RenamesBelow schema naming descend descend')
    {frame : Frame} {condition : Name} {node : Address} {ss : List Selection}
    (h : (enterFragment ⟨schema, fragments, .unset⟩ descend frame condition node ss).Returns names
      paths) :
    ∃ renamed,
      (enterFragment ⟨schema, fragments, naming.hooks⟩ descend' frame condition node ss).Returns
        names renamed ∧ Renamed schema naming frame.type paths renamed := by
  obtain ⟨target, current, htarget, hcurrent, ⟨henters, hpaths⟩ | ⟨hskips, rfl⟩⟩ :=
    (returns_enterFragment_iff_of_plain rfl).1 h
  · obtain ⟨renamed, hrenamed, hrelated⟩ := hrenames hpaths
    refine ⟨renamed, (returns_enterFragment_iff_of_plain rfl).2 ?_, hrelated⟩
    exact ⟨target, current, htarget, hcurrent, .inl ⟨henters, hrenamed⟩⟩
  · refine ⟨[], (returns_enterFragment_iff_of_plain rfl).2 ?_, renamed_nil⟩
    exact ⟨target, current, htarget, hcurrent, .inr ⟨hskips, rfl⟩⟩

/-! ## Selections -/

theorem renames_pathsOf (hdots : schema.FieldsDotFree) (hd : descend.Restores)
    (hd' : descend'.Restores) (hrenames : RenamesBelow schema naming descend descend')
    {frame : Frame} {node : Address} {s : Selection}
    (h : (pathsOf ⟨schema, fragments, .unset⟩ descend frame node s).Returns names paths) :
    ∃ renamed,
      (pathsOf ⟨schema, fragments, naming.hooks⟩ descend' frame node s).Returns names renamed ∧
        Renamed schema naming frame.type paths renamed := by
  cases s with
  | leaf name aliasName =>
      rcases returns_field_unset_iff.1 h with ⟨rfl, rfl⟩ | ⟨hname, definition, hfield, hpaths⟩
      · exact ⟨[], returns_typename _, renamed_nil⟩
      · obtain rfl : [name] = paths := returns_pure_iff.1 hpaths
        refine ⟨naming.names frame.type definition, ?_,
          renamed_leaf hfield (hdots.of_fieldNamed hfield)⟩
        exact returns_field_naming hd' hname hfield id rfl fun _ => returns_pure_iff.2 rfl
  | branch name aliasName below =>
      rcases returns_field_unset_iff.1 h with ⟨rfl, rfl⟩ | ⟨hname, definition, hfield, hpaths⟩
      · exact ⟨[], returns_typename _, renamed_nil⟩
      · obtain ⟨found, hfound, rfl⟩ := (returns_pathsBelow_iff hd).1 hpaths
        obtain ⟨renamed, hrenamed, hrelated⟩ := hrenames hfound
        refine ⟨joinAll (naming.names frame.type definition) renamed, ?_, ?_⟩
        · exact returns_field_naming hd' hname hfield (joinAll · renamed) rfl fun given =>
            (returns_pathsBelow_iff hd').2 ⟨renamed, hrenamed, rfl⟩
        · rw [joinAll_singleton]
          exact hrelated.cons_field hfield (hdots.of_fieldNamed hfield)
  | fragment condition body => exact renames_enterFragment hrenames h
  | spread fragment =>
      obtain ⟨definition, hfind, hfresh, hpaths⟩ := returns_spread_iff.1 h
      obtain ⟨renamed, hrenamed, hrelated⟩ := renames_enterFragment hrenames hpaths
      exact ⟨renamed, returns_spread_iff.2 ⟨definition, hfind, hfresh, hrenamed⟩, hrelated⟩
  | other kind => exact absurd h (not_returns_fail _ _)

theorem renames_selectionsFrom (hdots : schema.FieldsDotFree) (hd : descend.Restores)
    (hd' : descend'.Restores) (hrenames : RenamesBelow schema naming descend descend')
    {frame : Frame} {node : Address} {index : Nat} {ss : List Selection}
    (h : (selectionsFrom ⟨schema, fragments, .unset⟩ descend frame node index ss).Returns names
      paths) :
    ∃ renamed,
      (selectionsFrom ⟨schema, fragments, naming.hooks⟩ descend' frame node index ss).Returns names
        renamed ∧ Renamed schema naming frame.type paths renamed := by
  induction ss generalizing index paths with
  | nil =>
      obtain rfl := returns_selectionsFrom_nil_iff.1 h
      exact ⟨[], returns_selectionsFrom_nil_iff.2 rfl, renamed_nil⟩
  | cons s rest ih =>
      obtain ⟨found, others, hfound, hothers, rfl⟩ := (returns_selectionsFrom_cons_iff hd).1 h
      obtain ⟨renamed, hrenamed, hrelated⟩ := renames_pathsOf hdots hd hd' hrenames hfound
      obtain ⟨later, hlater, hrelated'⟩ := ih hothers
      refine ⟨renamed ++ later, ?_, hrelated.append hrelated'⟩
      exact (returns_selectionsFrom_cons_iff hd').2 ⟨renamed, later, hrenamed, hlater, rfl⟩

/-! ## Whole walks -/

theorem renamesBelow_selectionsUpTo (hdots : schema.FieldsDotFree) (depth : Nat) :
    RenamesBelow schema naming (selectionsUpTo ⟨schema, fragments, .unset⟩ depth)
      (selectionsUpTo ⟨schema, fragments, naming.hooks⟩ depth) := by
  induction depth with
  | zero => exact fun _ _ _ _ _ h => absurd h (not_returns_fail _ _)
  | succ depth ih =>
      exact fun _ _ _ _ _ h => renames_selectionsFrom hdots (restores_selectionsUpTo _ depth)
        (restores_selectionsUpTo _ depth) ih h

theorem renamesBelow_selections (naming : Naming) (hdots : schema.FieldsDotFree) :
    RenamesBelow schema naming (selections ⟨schema, fragments, .unset⟩)
      (selections ⟨schema, fragments, naming.hooks⟩) :=
  fun _ _ _ _ _ h => renamesBelow_selectionsUpTo hdots _ h

theorem renames_rootPaths (naming : Naming) (hdots : schema.FieldsDotFree) {type : Name}
    {index : Nat} {roots : List RootNode}
    (h : (rootPaths ⟨schema, fragments, .unset⟩ type index roots).Returns names paths) :
    ∃ renamed, (rootPaths ⟨schema, fragments, naming.hooks⟩ type index roots).Returns names renamed
      ∧ Renamed schema naming type paths renamed := by
  induction roots generalizing index paths with
  | nil =>
      obtain rfl := returns_rootPaths_nil_iff.1 h
      exact ⟨[], returns_rootPaths_nil_iff.2 rfl, renamed_nil⟩
  | cons root rest ih =>
      obtain ⟨found, others, hfound, hothers, rfl⟩ := returns_rootPaths_cons_iff.1 h
      obtain ⟨renamed, hrenamed, hrelated⟩ := renamesBelow_selections naming hdots hfound
      obtain ⟨later, hlater, hrelated'⟩ := ih hothers
      refine ⟨renamed ++ later, ?_, hrelated.append hrelated'⟩
      exact returns_rootPaths_cons_iff.2 ⟨renamed, later, hrenamed, hlater, rfl⟩

end Walk

/-! ## The mask -/

/-- **Renaming commutes with walking.** If a mask can be computed without hooks, in a schema whose
    fields have no dots in their names, it can be computed with any naming, and holds exactly the
    renamings of its paths. With at most one name for each field it is the list of the paths that
    have a renaming, each renamed, with later occurrences erased. -/
theorem maskPaths_renamed {schema : Schema} {fragments : FragmentTable} {type : Name}
    {roots : List RootNode} {paths : List String} (hdots : schema.FieldsDotFree)
    (h : (maskPaths type roots fragments schema none).outcome = .ok paths) (naming : Naming) :
    ∃ renamed, (maskPaths type roots fragments schema (some naming.hooks)).outcome = .ok renamed ∧
      (∀ path, path ∈ renamed ↔ ∃ fields names, fields ≠ [] ∧ dotted fields ∈ paths ∧
        Renames schema naming type fields names ∧ dotted names = path) ∧
      (naming.AtMostOne schema →
        renamed = (paths.filterMap (renamePath schema naming type)).eraseDups) := by
  obtain ⟨htype, found, hfound, rfl⟩ := maskPaths_eq_ok_iff.1 h
  obtain ⟨renamed, hrenamed, chains, rfl, hchains, hmem, hone⟩ :=
    Walk.renames_rootPaths naming hdots hfound
  refine ⟨renamed.eraseDups, maskPaths_eq_ok_iff.2 ⟨htype, renamed, hrenamed, rfl⟩, ?_, ?_⟩
  · intro path
    simp only [List.mem_eraseDups, hmem, List.mem_map]
    constructor
    · rintro ⟨fields, hfields, names, hrenames, rfl⟩
      exact ⟨fields, names, (hchains fields hfields).1, ⟨fields, hfields, rfl⟩, hrenames, rfl⟩
    · rintro ⟨fields, names, hne, ⟨chain, hchain, hpath⟩, hrenames, rfl⟩
      -- The path can be split in one way only.
      obtain rfl : chain = fields := dotted_inj (hchains chain hchain).1 hne
        (hchains chain hchain).2 (hrenames.dotFree hdots) hpath
      exact ⟨chain, hchain, names, hrenames, rfl⟩
  · intro honce
    have hpaths : ∀ fields ∈ chains, renamePath schema naming type (dotted fields)
        = (renaming? schema naming type fields).map dotted := by
      intro fields hfields
      rw [renamePath, segments_dotted (hchains fields hfields).1 (hchains fields hfields).2]
    rw [hone honce, List.filterMap_eq_flatMap_toList _ (List.eraseDups _),
      OrderedSet.eraseDups_flatMap_eraseDups, ← List.filterMap_eq_flatMap_toList,
      List.filterMap_map]
    congr 1
    exact List.filterMap_congr fun fields hfields => (hpaths fields hfields).symm

/-- A naming that drops one field and gives two fields the same name, one of them only at one
    type. -/
theorem maskPaths_renamed_of_query :
    let schema : Schema :=
      ⟨[⟨"Query", .object [⟨"user", .named "User", none⟩, ⟨"id", .named "ID", none⟩,
            ⟨"key", .named "ID", none⟩] [], none⟩,
        ⟨"User", .object [⟨"id", .named "ID", none⟩, ⟨"secret", .named "ID", none⟩] [], none⟩]⟩
    let naming : Naming := fun type field =>
      if field.name = "secret" then none
      else if type = "Query" ∧ field.name = "id" then some (.one "key")
      else some (.one field.name)
    let roots : List RootNode :=
      [.operation [.branch "user" none [.leaf "id" none, .leaf "secret" none],
        .leaf "id" (some "key"), .leaf "key" none]]
    let paths := ["user.id", "user.secret", "id", "key"]
    schema.FieldsDotFree ∧ naming.AtMostOne schema ∧
      (maskPaths "Query" roots ∅ schema none).outcome = .ok paths ∧
      ∃ renamed, (maskPaths "Query" roots ∅ schema (some naming.hooks)).outcome = .ok renamed ∧
        (∀ path, path ∈ renamed ↔ ∃ fields names, fields ≠ [] ∧ dotted fields ∈ paths ∧
          Renames schema naming "Query" fields names ∧ dotted names = path) ∧
        renamed = ["user.id", "key"] := by
  intro schema naming roots paths
  have hdots : schema.FieldsDotFree := by decide
  have honce : naming.AtMostOne schema := by
    intro type name field _
    simp only [naming, Naming.names]
    split
    · simp
    · split <;> simp
  have hplain : (maskPaths "Query" roots ∅ schema none).outcome = .ok paths := rfl
  obtain ⟨renamed, houtcome, hmem, hlist⟩ := maskPaths_renamed hdots hplain naming
  exact ⟨hdots, honce, hplain, renamed, houtcome, hmem, hlist honce⟩

end SelectionMask
