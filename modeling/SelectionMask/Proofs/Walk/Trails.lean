import SelectionMask.Proofs.Schema.Trails
import SelectionMask.Proofs.Walk.Roots

set_option autoImplicit false

/-! # The paths of a walk followed through the schema

Without hooks, every path of a walk is that of a way through the schema: a walk looks each field up
where it stands, and fragments, whatever they are on, leave it there. What a walk visits on the way
is in its events. So whatever is known of the fields that are visited is known of the fields of each
path: `maskPaths_trails`. -/

namespace SelectionMask

/-- Whether the selection is a field without a selection set. -/
def Selection.isLeaf : Selection → Bool
  | leaf _ _ => true
  | _ => false

/-- The field that is visited, if it is one that can be found, fits the fields that may come after
    it: none if it has no selection set, and else some. -/
def Visit.Fits (schema : Schema) (fits : FieldDef → List Name → Prop) (v : Visit) : Prop :=
  ∀ name definition rest, v.selection.fieldName? = some name → name ≠ typenameField →
    schema.fieldNamed v.frame.type name = .ok definition →
    (rest = [] ↔ v.selection.isLeaf) → fits definition rest

/-- Each path is that of a way through the schema from the type on. -/
def ListsTrails (schema : Schema) (fits : FieldDef → List Name → Prop) (type : Name)
    (paths : List String) : Prop :=
  ∀ path ∈ paths, ∃ fields, fields ≠ [] ∧ schema.Trail fits type fields ∧ dotted fields = path

section ListsTrails

variable {schema : Schema} {fits : FieldDef → List Name → Prop} {type name : Name}
  {definition : FieldDef} {paths others : List String}

theorem listsTrails_nil : ListsTrails schema fits type [] :=
  fun _ h => absurd h List.not_mem_nil

theorem ListsTrails.append (h : ListsTrails schema fits type paths)
    (hothers : ListsTrails schema fits type others) :
    ListsTrails schema fits type (paths ++ others) := by
  intro path hpath
  rcases List.mem_append.1 hpath with hpath | hpath
  · exact h path hpath
  · exact hothers path hpath

theorem listsTrails_leaf (hname : name ≠ typenameField)
    (hfield : schema.fieldNamed type name = .ok definition) (hfits : fits definition []) :
    ListsTrails schema fits type [name] := by
  intro path hpath
  obtain rfl := List.mem_singleton.1 hpath
  exact ⟨[path], by simp, .cons hname hfield hfits .nil, dotted_singleton path⟩

theorem ListsTrails.cons_field (h : ListsTrails schema fits definition.namedType paths)
    (hname : name ≠ typenameField) (hfield : schema.fieldNamed type name = .ok definition)
    (hfits : ∀ rest, rest ≠ [] → fits definition rest) :
    ListsTrails schema fits type (paths.map (joinPath name)) := by
  intro path hpath
  obtain ⟨below, hbelow, rfl⟩ := List.mem_map.1 hpath
  obtain ⟨fields, hne, htrail, rfl⟩ := h below hbelow
  exact ⟨name :: fields, by simp, .cons hname hfield (hfits fields hne) htrail, dotted_cons hne⟩

end ListsTrails

namespace Walk

variable {schema : Schema} {fragments : FragmentTable} {fits : FieldDef → List Name → Prop}
  {descend : Descend} {frame : Frame} {node : Address} {names : List Name} {type : Name}

/-- If the walk returns, and all fields that it has visited fit, its paths are those of ways through
    the schema from the type on. -/
def Tracks (schema : Schema) (fits : FieldDef → List Name → Prop) (type : Name) (names : List Name)
    (w : Walk (List String)) : Prop :=
  ∀ paths, w.Returns names paths → (∀ v ∈ visitsOf (w.run names).events, v.Fits schema fits) →
    ListsTrails schema fits type paths

/-- Every deeper walk does so from the type that it starts at. -/
def TracksBelow (schema : Schema) (fits : FieldDef → List Name → Prop) (descend : Descend) :
    Prop :=
  ∀ frame node names ss, Tracks schema fits frame.type names (descend frame node ss)

/-! ## Selections -/

theorem tracks_enterFragment (hbelow : TracksBelow schema fits descend) (condition : Name)
    (ss : List Selection) :
    Tracks schema fits frame.type names
      (enterFragment ⟨schema, fragments, .unset⟩ descend frame condition node ss) := by
  intro paths hreturns hvisits
  obtain ⟨target, current, htarget, hcurrent, ⟨henters, hpaths⟩ | ⟨-, rfl⟩⟩ :=
    (returns_enterFragment_iff_of_plain rfl).1 hreturns
  · rw [enterFragment_of_enters htarget hcurrent henters] at hvisits
    exact hbelow frame node names ss paths hpaths hvisits
  · exact listsTrails_nil

/-- The visit of a selection says what the first field of its paths fits. -/
theorem tracks_pathsOf (hd : descend.Restores) (hbelow : TracksBelow schema fits descend)
    {s : Selection} (hfits : Visit.Fits schema fits ⟨frame, names, node, s⟩) :
    Tracks schema fits frame.type names
      (pathsOf ⟨schema, fragments, .unset⟩ descend frame node s) := by
  intro paths hreturns hvisits
  cases s with
  | leaf name aliasName =>
      rcases returns_field_unset_iff.1 hreturns with
        ⟨-, rfl⟩ | ⟨hname, definition, hfield, hpaths⟩
      · exact listsTrails_nil
      · obtain rfl : [name] = paths := returns_pure_iff.1 hpaths
        exact listsTrails_leaf hname hfield (hfits name definition [] rfl hname hfield (by simp
          [Selection.isLeaf]))
  | branch name aliasName below =>
      rcases returns_field_unset_iff.1 hreturns with
        ⟨-, rfl⟩ | ⟨hname, definition, hfield, hpaths⟩
      · exact listsTrails_nil
      · obtain ⟨found, hfound, rfl⟩ := (returns_pathsBelow_iff hd).1 hpaths
        -- What is visited below the field is among what is visited at it.
        have hinside : ∀ v ∈ visitsOf ((descend ⟨definition.namedType, some definition⟩ node
            below).run names).events, v.Fits schema fits := by
          intro v hv
          refine hvisits v ?_
          rw [pathsOf, field_unset_of_found hname hfield, pathsBelow,
            (hd _ _ _).visits_bind hfound]
          exact List.mem_append_left _ hv
        rw [joinAll_singleton]
        refine (hbelow _ node names below found hfound hinside).cons_field hname hfield ?_
        intro rest hrest
        exact hfits name definition rest rfl hname hfield (by simp [Selection.isLeaf, hrest])
  | fragment condition body => exact tracks_enterFragment hbelow _ body paths hreturns hvisits
  | spread fragment =>
      obtain ⟨definition, hfind, hmem, hpaths⟩ := returns_spread_iff.1 hreturns
      -- The definition is read at the same type, inside one more expansion.
      rw [pathsOf, run_spread_of_notMem hfind hmem] at hvisits
      exact tracks_enterFragment hbelow _ _ paths hpaths hvisits
  | other kind => exact absurd hreturns (not_returns_fail _ _)

theorem tracks_selectionsFrom (hd : descend.Restores) (hbelow : TracksBelow schema fits descend)
    (ss : List Selection) (index : Nat) :
    Tracks schema fits frame.type names
      (selectionsFrom ⟨schema, fragments, .unset⟩ descend frame node index ss) := by
  induction ss generalizing index with
  | nil =>
      intro paths hreturns _
      obtain rfl := returns_selectionsFrom_nil_iff.1 hreturns
      exact listsTrails_nil
  | cons s rest ih =>
      intro paths hreturns hvisits
      obtain ⟨found, others, hfound, hothers, rfl⟩ :=
        (returns_selectionsFrom_cons_iff hd).1 hreturns
      have hselection : (selection ⟨schema, fragments, .unset⟩ descend frame (node.child index)
          s).Returns names found := returns_visit_bind_iff.2 hfound
      rw [selectionsFrom_cons, (restores_selection hd _ _ _).visits_bind hselection,
        (restores_selectionsFrom hd _ _ _ _).visits_bind hothers] at hvisits
      -- The visit of the selection comes first, then what is visited below it.
      obtain ⟨hfirst, hrest⟩ := List.forall_mem_append.1 hvisits
      obtain ⟨hvisit, hinside⟩ := List.forall_mem_cons.1 hfirst
      have hrest' := (List.forall_mem_append.1 hrest).1
      exact (tracks_pathsOf hd hbelow hvisit found hfound hinside).append
        (ih (index + 1) others hothers hrest')

/-! ## Whole walks -/

theorem tracksBelow_selectionsUpTo (depth : Nat) :
    TracksBelow schema fits (selectionsUpTo ⟨schema, fragments, .unset⟩ depth) := by
  induction depth with
  | zero => exact fun _ _ _ _ _ h _ => absurd h (not_returns_fail _ _)
  | succ depth ih =>
      exact fun _ _ _ ss => tracks_selectionsFrom (restores_selectionsUpTo _ depth) ih ss 0

theorem tracksBelow_selections :
    TracksBelow schema fits (selections ⟨schema, fragments, .unset⟩) :=
  fun frame node names ss => tracksBelow_selectionsUpTo _ frame node names ss

theorem tracks_rootPaths (roots : List RootNode) (index : Nat) :
    Tracks schema fits type names
      (rootPaths ⟨schema, fragments, .unset⟩ type index roots) := by
  induction roots generalizing index with
  | nil =>
      intro paths hreturns _
      obtain rfl := returns_rootPaths_nil_iff.1 hreturns
      exact listsTrails_nil
  | cons root rest ih =>
      intro paths hreturns hvisits
      obtain ⟨found, others, hfound, hothers, rfl⟩ := returns_rootPaths_cons_iff.1 hreturns
      rw [rootPaths, (restores_selections _ _ _ _).visits_bind hfound,
        (restores_rootPaths _ type rest (index + 1)).visits_bind hothers] at hvisits
      obtain ⟨hroot, hrest⟩ := List.forall_mem_append.1 hvisits
      have hrest' := (List.forall_mem_append.1 hrest).1
      exact (tracksBelow_selections _ _ _ _ found hfound hroot).append
        (ih (index + 1) others hothers hrest')

end Walk

/-! ## The mask -/

/-- **The paths of a mask can be followed through the schema**, and what fits the fields that were
    visited fits the fields of each path. -/
theorem maskPaths_trails {schema : Schema} {fragments : FragmentTable} {type : Name}
    {roots : List RootNode} {paths : List String} {fits : FieldDef → List Name → Prop}
    (h : (maskPaths type roots fragments schema none).outcome = .ok paths)
    (hvisits : ∀ v ∈ visitsOf (maskPaths type roots fragments schema none).events,
      v.Fits schema fits) :
    ListsTrails schema fits type paths := by
  obtain ⟨⟨t, htype⟩, found, hfound, rfl⟩ := maskPaths_eq_ok_iff.1 h
  rw [(observed_maskPaths htype fragments none roots).2] at hvisits
  have htrails : ListsTrails schema fits type found :=
    Walk.tracks_rootPaths roots 0 found hfound hvisits
  exact fun path hpath => htrails path (List.mem_eraseDups.1 hpath)

end SelectionMask
