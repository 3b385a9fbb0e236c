import SelectionMask.Proofs.Document.Rearrangement
import SelectionMask.Proofs.Walk.Depth
import SelectionMask.Proofs.Walk.FoundPaths

set_option autoImplicit false

/-! # Walks of rearranged queries

Two walks of a query and of the same query arranged in another way find the same set of paths, or
both fail. One step is enough to see this: if all deeper walks find the same however their
selections are arranged, and find together what they find apart, then so do the walks of selections
that are one level higher. Definitions of fragments may be arranged in another way, too: a spread
leads each walk to the definition in its own table. -/

namespace SelectionMask

namespace Walk

variable {schema : Schema} {fragments fragments' : FragmentTable} {hooks : Hooks}
  {descend descend' : Descend} {names : List Name}

/-- Two deeper walks find the same in selections that are arranged in another way, wherever these
    stand, and find in two lists of selections together what they find in each. -/
structure FindsAlike (descend descend' : Descend) : Prop where
  same : ∀ {ss others}, Selection.Rearranged ss others → ∀ frame names node node',
    (descend frame node ss).found names = (descend' frame node' others).found names
  append : ∀ ss others frame names node node' node'',
    (descend frame node (ss ++ others)).found names
      = (descend frame node' ss).found names ⊔ (descend frame node'' others).found names

/-! ## One selection -/

section

variable (hhooks : hooks.IgnoreArrangement) (hd : descend.Restores) (hd' : descend'.Restores)
include hhooks hd hd'

/-- A field finds the same under another alias if the same is found below it. -/
theorem found_field_congr {type name : Name} {node node' : Address}
    {aliasName other : Option String} {ss ss' : Option (List Selection)}
    (hbelow : ∀ definition given, (pathsBelow descend definition node given ss).found names
      = (pathsBelow descend' definition node' given ss').found names) :
    (field ⟨schema, fragments, hooks⟩ descend type node name aliasName ss).found names
      = (field ⟨schema, fragments', hooks⟩ descend' type node' name other ss').found names := by
  by_cases hname : name = typenameField
  · subst hname
    rw [found_typename, found_typename]
  · cases hfield : schema.fieldNamed type name with
    | error error => rw [found_field_of_error hname hfield, found_field_of_error hname hfield]
    | ok definition =>
        rw [found_field hd hname hfield, found_field hd' hname hfield,
          hhooks.aliases.fieldSet_eq type definition aliasName other]
        simp only [hbelow]

variable (halike : FindsAlike descend descend')
include halike

/-- A fragment finds the same in both walks, also if it is left to the hook for members. -/
theorem found_enterFragment_congr {ss others : List Selection}
    (hss : Selection.Rearranged ss others) (frame : Frame) (condition : Name)
    (node node' : Address) :
    (enterFragment ⟨schema, fragments, hooks⟩ descend frame condition node ss).found names
      = (enterFragment ⟨schema, fragments', hooks⟩ descend' frame condition node' others).found
          names := by
  cases htarget : schema.type? condition with
  | none =>
      rw [enterFragment_of_unknown htarget, enterFragment_of_unknown htarget]
      rfl
  | some target =>
      cases hcurrent : schema.type? frame.type with
      | none =>
          rw [enterFragment_of_unknown_current htarget hcurrent,
            enterFragment_of_unknown_current htarget hcurrent]
          rfl
      | some current =>
          by_cases henters : schema.Enters condition frame.type
          · rw [enterFragment_of_enters htarget hcurrent henters,
              enterFragment_of_enters htarget hcurrent henters]
            exact halike.same hss frame names node node'
          · by_cases habstract : current.isAbstract
            · have hother : condition ≠ frame.type := fun hsame => henters (.inl hsame)
              rw [enterFragment_of_narrows htarget hcurrent habstract hother,
                enterFragment_of_narrows htarget hcurrent habstract hother]
              dsimp only
              cases hhook : hooks.narrowing with
              | none => rfl
              | some hook =>
                  cases frame.enclosing with
                  | none => rfl
                  | some field =>
                      -- The hook sees nothing of the member but what is found in it.
                      rw [found_narrow hd, found_narrow hd']
                      exact Strategy.pathSet_against (hhooks.catches hook hhook _)
                        (hhooks.sets hook hhook _) (halike.same hss _ names node node')
            · rw [enterFragment_of_unrelated htarget hcurrent habstract henters,
                enterFragment_of_unrelated htarget hcurrent habstract henters]

theorem found_branch_congr {below others : List Selection}
    (h : Selection.Rearranged below others) (frame : Frame) (node node' : Address) (name : Name)
    (aliasName other : Option String) :
    (pathsOf ⟨schema, fragments, hooks⟩ descend frame node (.branch name aliasName below)).found
        names
      = (pathsOf ⟨schema, fragments', hooks⟩ descend' frame node'
          (.branch name other others)).found names := by
  refine found_field_congr hhooks hd hd' fun definition given => ?_
  rw [found_pathsBelow hd, found_pathsBelow hd', halike.same h _ names node node']

/-- One selection finds the same in both walks, wherever it stands. -/
theorem found_pathsOf_congr (hfragments : fragments.Rearranged fragments') (frame : Frame)
    (node node' : Address) (s : Selection) :
    (pathsOf ⟨schema, fragments, hooks⟩ descend frame node s).found names
      = (pathsOf ⟨schema, fragments', hooks⟩ descend' frame node' s).found names := by
  cases s with
  | leaf name aliasName => exact found_field_congr hhooks hd hd' fun _ _ => rfl
  | branch name aliasName below =>
      exact found_branch_congr hhooks hd hd' halike (.refl below) frame node node' name _ _
  | fragment condition body =>
      exact found_enterFragment_congr hhooks hd hd' halike (.refl body) frame _ node node'
  | spread name =>
      cases hfind : fragments.find? name with
      | none =>
          have hfind' := hfragments.find?_eq_none hfind
          rw [pathsOf, pathsOf, found_spread_of_undefined hfind, found_spread_of_undefined hfind']
      | some definition =>
          obtain ⟨definition', hfind', hcondition, hselections⟩ := hfragments.find?_eq_some hfind
          by_cases hmem : name ∈ names
          · rw [pathsOf, pathsOf, found_spread_of_mem hfind hmem, found_spread_of_mem hfind' hmem]
          · rw [pathsOf, pathsOf, found_spread_of_notMem hfind hmem,
              found_spread_of_notMem hfind' hmem, hcondition]
            exact found_enterFragment_congr hhooks hd hd' halike hselections frame _ _ _
  | other kind => rfl

/-- The selections of a field find the same in two fields of its name. -/
theorem found_branch_split (frame : Frame) (node node' : Address) (name : Name)
    (aliasName first second : Option String) (below others : List Selection) :
    (pathsOf ⟨schema, fragments, hooks⟩ descend frame node
        (.branch name aliasName (below ++ others))).found names
      = (pathsOf ⟨schema, fragments', hooks⟩ descend' frame node'
            (.branch name first below)).found names
        ⊔ (pathsOf ⟨schema, fragments', hooks⟩ descend' frame node'
            (.branch name second others)).found names := by
  have hbelow := fun frame => halike.append below others frame names node node node
  rw [found_branch_append hd hbelow,
    found_branch_congr hhooks hd hd' halike (.refl below) frame node node' name _ first,
    found_branch_congr hhooks hd hd' halike (.refl others) frame node node' name _ second]

/-! ## Selection sets -/

/-- **One step**: if deeper walks find the same, so do the walks of selections above them. -/
theorem FindsAlike.selectionsFrom (hfragments : fragments.Rearranged fragments') :
    FindsAlike
      (fun frame node ss => selectionsFrom ⟨schema, fragments, hooks⟩ descend frame node 0 ss)
      (fun frame node ss =>
        selectionsFrom ⟨schema, fragments', hooks⟩ descend' frame node 0 ss) := by
  -- What each selection finds is the same in both walks, so it matters in neither where it stands.
  let inside (frame : Frame) (names : List Name) (s : Selection) : WithTop (Set String) :=
    (pathsOf ⟨schema, fragments', hooks⟩ descend' frame .single s).found names
  have hfirst : ∀ frame names node s,
      (pathsOf ⟨schema, fragments, hooks⟩ descend frame node s).found names
        = inside frame names s :=
    fun frame names node s =>
      found_pathsOf_congr hhooks hd hd' halike hfragments frame node .single s
  have hsecond : ∀ frame names node s,
      (pathsOf ⟨schema, fragments', hooks⟩ descend' frame node s).found names
        = inside frame names s := by
    intro frame names node s
    rw [← hfirst frame names .single s]
    exact (found_pathsOf_congr hhooks hd hd' halike hfragments frame .single node s).symm
  constructor
  · intro ss others hss frame names node node'
    rw [found_selectionsFrom hd (hfirst frame names),
      found_selectionsFrom hd' (hsecond frame names)]
    refine hss.joined_eq ?_ ?_ ?_
    · intro name aliasName first second below others
      rw [← hfirst frame names .single]
      exact found_branch_split hhooks hd hd' halike frame _ _ name aliasName first second below
        others
    · intro name aliasName below others hbelow
      rw [← hfirst frame names .single]
      exact found_branch_congr hhooks hd hd' halike hbelow frame _ _ name aliasName aliasName
    · intro condition body others hbody
      rw [← hfirst frame names .single]
      exact found_enterFragment_congr hhooks hd hd' halike hbody frame _ _ _
  · intro ss others frame names node node' node''
    rw [found_selectionsFrom hd (hfirst frame names), found_selectionsFrom hd (hfirst frame names),
      found_selectionsFrom hd (hfirst frame names), joined_append]

end

/-! ## Whole walks -/

/-- Two walks of the same depth find the same, by induction on that depth. -/
theorem findsAlike_selectionsUpTo (hhooks : hooks.IgnoreArrangement)
    (hfragments : fragments.Rearranged fragments') (depth : Nat) :
    FindsAlike (selectionsUpTo ⟨schema, fragments, hooks⟩ depth)
      (selectionsUpTo ⟨schema, fragments', hooks⟩ depth) := by
  induction depth with
  | zero => exact ⟨fun _ _ _ _ _ => rfl, fun _ _ _ _ _ _ _ => rfl⟩
  | succ depth ih =>
      exact .selectionsFrom hhooks (restores_selectionsUpTo _ depth)
        (restores_selectionsUpTo _ depth) ih hfragments

/-- A bound that is large enough shows in nothing that is found. -/
theorem found_selectionsUpTo {env : Env} {depth : Nat} {ss : List Selection}
    (h : depthBound env.fragments names ss ≤ depth) (frame : Frame) (node : Address) :
    (selectionsUpTo env depth frame node ss).found names
      = (selections env frame node ss).found names := by
  have halike := alike_selectionsUpTo env depth _ names ss h (Nat.le_refl _) frame node
  have hrun := (halike.run_eq (restores_selectionsUpTo env _ _ _ _)
    (restores_selectionsUpTo env _ _ _ _)).1
  rw [found, hrun, found, run_selections]

theorem found_selections_rearranged (hhooks : hooks.IgnoreArrangement)
    (hfragments : fragments.Rearranged fragments') {ss others : List Selection}
    (h : Selection.Rearranged ss others) (frame : Frame) (node node' : Address) :
    (selections ⟨schema, fragments, hooks⟩ frame node ss).found names
      = (selections ⟨schema, fragments', hooks⟩ frame node' others).found names := by
  -- Go deep enough for both of them.
  let depth := max (depthBound fragments names ss) (depthBound fragments' names others)
  have hdepth : depthBound fragments names ss ≤ depth := Nat.le_max_left _ _
  have hdepth' : depthBound fragments' names others ≤ depth := Nat.le_max_right _ _
  rw [← found_selectionsUpTo hdepth, ← found_selectionsUpTo hdepth']
  exact (findsAlike_selectionsUpTo hhooks hfragments depth).same h frame names node node'

theorem found_rootPaths_rearranged (hhooks : hooks.IgnoreArrangement)
    (hfragments : fragments.Rearranged fragments') {roots others : List RootNode}
    (h : RootNode.Rearranged roots others) (type : Name) (index index' : Nat) :
    (rootPaths ⟨schema, fragments, hooks⟩ type index roots).found names
      = (rootPaths ⟨schema, fragments', hooks⟩ type index' others).found names := by
  let inside (root : RootNode) : WithTop (Set String) :=
    (selections ⟨schema, fragments', hooks⟩ ⟨type, none⟩ .single root.selections).found names
  have hsame : ∀ {table : FragmentTable}, table.Rearranged fragments' →
      ∀ {ss others}, Selection.Rearranged ss others → ∀ node,
        (selections ⟨schema, table, hooks⟩ ⟨type, none⟩ node ss).found names
          = (selections ⟨schema, fragments', hooks⟩ ⟨type, none⟩ .single others).found names :=
    fun htable _ _ hss node => found_selections_rearranged hhooks htable hss _ node .single
  have hfirst : ∀ node (root : RootNode),
      (selections ⟨schema, fragments, hooks⟩ ⟨type, none⟩ node root.selections).found names
        = inside root :=
    fun node root => hsame hfragments (.refl root.selections) node
  have hsecond : ∀ node (root : RootNode),
      (selections ⟨schema, fragments', hooks⟩ ⟨type, none⟩ node root.selections).found names
        = inside root :=
    fun node root => hsame (.refl fragments') (.refl root.selections) node
  obtain ⟨between, hperm, hroots⟩ := h
  calc (rootPaths ⟨schema, fragments, hooks⟩ type index roots).found names
      = joined inside roots := found_rootPaths hfirst index roots
    _ = joined inside between := joined_perm inside hperm
    _ = joined inside others := joined_eq_of_forall₂ inside <|
        hroots.imp fun _ _ hroot => hsame (.refl fragments') hroot .single
    _ = (rootPaths ⟨schema, fragments', hooks⟩ type index' others).found names :=
        (found_rootPaths hsecond index' others).symm

end Walk

/-! ## The mask -/

theorem samePaths_maskPaths {schema : Schema} {fragments fragments' : FragmentTable}
    {roots roots' : List RootNode} {hooks : Option Hooks}
    (hhooks : (hooks.getD .unset).IgnoreArrangement) (hfragments : fragments.Rearranged fragments')
    (hroots : RootNode.Rearranged roots roots') (type : Name) :
    SamePaths (maskPaths type roots fragments schema hooks).outcome
      (maskPaths type roots' fragments' schema hooks).outcome := by
  rw [samePaths_iff]
  cases htype : schema.type? type with
  | none => rw [outcome_maskPaths_of_unknown htype, outcome_maskPaths_of_unknown htype]
  | some t =>
      rw [outcome_maskPaths htype, outcome_maskPaths htype, pathSet_map_eraseDups,
        pathSet_map_eraseDups]
      exact Walk.found_rootPaths_rearranged hhooks hfragments hroots type 0 0

end SelectionMask
