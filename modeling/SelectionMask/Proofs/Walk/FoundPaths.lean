import SelectionMask.Proofs.Document.Rearrangement
import SelectionMask.Proofs.Hooks.PathSets
import SelectionMask.Proofs.Walk.Roots

set_option autoImplicit false

/-! # The set of paths that a walk finds

`Walk.found` is what a walk comes to as a set of paths, failure being the greatest set. Walks in
turn find the join of what each finds, so the equations of this module name what a step finds in
terms of the steps below it, without any order. -/

namespace SelectionMask

namespace Walk

variable {env : Env} {descend : Descend} {names : List Name}

/-- The set of the paths that the walk comes to. -/
def found (w : Walk (List String)) (names : List Name) : WithTop (Set String) :=
  pathSet (w.run names).outcome

@[simp] theorem found_pure_nil : (pure [] : Walk (List String)).found names = ⊥ :=
  pathSet_ok_nil

@[simp] theorem found_fail (failure : Failure) :
    (fail failure : Walk (List String)).found names = ⊤ := rfl

/-- Two walks in turn. -/
theorem found_append {w w' : Walk (List String)} (hw : w.Restores) (hw' : w'.Restores) :
    (w >>= fun paths => w' >>= fun others => pure (paths ++ others)).found names
      = w.found names ⊔ w'.found names := by
  rw [found, hw.outcome_bind, found]
  cases (w.run names).outcome with
  | error failure => rfl
  | ok paths =>
      have hothers : ((w' >>= fun others => pure (paths ++ others)).run names).outcome
          = (w'.run names).outcome.map (paths ++ ·) := by
        rw [hw'.outcome_bind]
        cases (w'.run names).outcome <;> rfl
      change pathSet ((w' >>= fun others => pure (paths ++ others)).run names).outcome = _
      rw [hothers, pathSet_map_append]
      rfl

/-! ## Fields -/

theorem found_pathsBelow (hd : descend.Restores) (definition : FieldDef) (node : Address)
    (given : List String) (ss : List Selection) :
    (pathsBelow descend definition node given (some ss)).found names
      = ((descend ⟨definition.namedType, some definition⟩ node ss).found names).map
          (Set.image2 joinPath {name | name ∈ given}) := by
  have houtcome : ((pathsBelow descend definition node given (some ss)).run names).outcome
      = ((descend ⟨definition.namedType, some definition⟩ node ss).run names).outcome.map
          (joinAll given) := by
    rw [pathsBelow, (hd _ _ _).outcome_bind]
    cases ((descend ⟨definition.namedType, some definition⟩ node ss).run names).outcome <;> rfl
  rw [found, houtcome, pathSet_map_joinAll]
  rfl

/-- A field finds what its hooks say of what is found below it. -/
theorem found_field (hd : descend.Restores) {type name : Name} {definition : FieldDef}
    (hname : name ≠ typenameField) (hfield : env.schema.fieldNamed type name = .ok definition)
    (node : Address) (aliasName : Option String) (ss : Option (List Selection)) :
    (field env descend type node name aliasName ss).found names
      = env.hooks.fieldSet ⟨type, definition, aliasName⟩ fun given =>
          (pathsBelow descend definition node given ss).found names := by
  rw [found, outcome_field_of_found hd hname hfield, Hooks.fieldSet]
  -- An error of either hook is greater than all sets, whichever of the two is asked first.
  cases env.hooks.extraPathsAt ⟨type, definition, aliasName⟩ with
  | error text => rfl
  | ok extra =>
      rcases env.hooks.namesAt ⟨type, definition, aliasName⟩ with text | _ | given
      · exact (sup_top_eq _).symm
      · exact (sup_bot_eq _).symm
      · exact pathSet_map_append extra _

theorem found_typename {type : Name} {node : Address} {aliasName : Option String}
    {ss : Option (List Selection)} :
    (field env descend type node typenameField aliasName ss).found names = ⊥ := by
  rw [field, if_pos rfl, found_pure_nil]

theorem found_field_of_error {type name : Name} {error : MaskError} (hname : name ≠ typenameField)
    (hfield : env.schema.fieldNamed type name = .error error) (node : Address)
    (aliasName : Option String) (ss : Option (List Selection)) :
    (field env descend type node name aliasName ss).found names = ⊤ := by
  rw [field_of_error hname hfield, found_fail]

/-- A field finds in two lists of selections together what it finds in each, if the walk below it
    does. -/
theorem found_branch_append (hd : descend.Restores) {frame : Frame} {node : Address}
    {below others : List Selection}
    (h : ∀ frame, (descend frame node (below ++ others)).found names
      = (descend frame node below).found names ⊔ (descend frame node others).found names)
    {name : Name} {aliasName : Option String} :
    (pathsOf env descend frame node (.branch name aliasName (below ++ others))).found names
      = (pathsOf env descend frame node (.branch name aliasName below)).found names
        ⊔ (pathsOf env descend frame node (.branch name aliasName others)).found names := by
  rw [pathsOf, pathsOf, pathsOf]
  by_cases hname : name = typenameField
  · subst hname
    rw [found_typename, found_typename, found_typename, sup_idem]
  · cases hfield : env.schema.fieldNamed frame.type name with
    | error error =>
        rw [found_field_of_error hname hfield, found_field_of_error hname hfield, top_sup_eq]
    | ok definition =>
        rw [found_field hd hname hfield, found_field hd hname hfield,
          found_field hd hname hfield, ← Hooks.fieldSet_sup]
        congr 1
        funext given
        rw [found_pathsBelow hd, found_pathsBelow hd, found_pathsBelow hd, ← map_image2_sup, h]

/-! ## Fragments -/

/-- What a hook for members finds is settled by what one request finds. -/
theorem found_narrow (hd : descend.Restores) (hook : NarrowingHook) (n : Narrowing)
    (node : Address) (ss : List Selection) :
    (narrow descend hook n node ss).found names
      = pathSet ((hook n).against ((descend ⟨n.concreteType, some n.field⟩ node ss).run
          names).outcome).1 := by
  have hmembers : ((memberPaths descend n node ss).run names).outcome
      = ((descend ⟨n.concreteType, some n.field⟩ node ss).run names).outcome := by
    rw [memberPaths, (hd _ _ _).outcome_bind]
    cases ((descend ⟨n.concreteType, some n.field⟩ node ss).run names).outcome <;> rfl
  rw [found, run_narrow hd, ← hmembers]

theorem found_spread_of_undefined {name : Name} (h : env.fragments.find? name = none)
    (frame : Frame) (node : Address) :
    (spread env descend frame node name).found names = ⊤ := by
  rw [spread_of_undefined h, found_fail]

theorem found_spread_of_mem {name : Name} {definition : Fragment}
    (h : env.fragments.find? name = some definition) (hmem : name ∈ names) (frame : Frame)
    (node : Address) : (spread env descend frame node name).found names = ⊤ := by
  rw [found, run_spread_of_mem h hmem]
  rfl

theorem found_spread_of_notMem {name : Name} {definition : Fragment}
    (h : env.fragments.find? name = some definition) (hmem : name ∉ names) (frame : Frame)
    (node : Address) :
    (spread env descend frame node name).found names
      = (enterFragment env descend frame definition.condition (.definition name)
          definition.selections).found (names ++ [name]) := by
  rw [found, run_spread_of_notMem h hmem]
  rfl

/-! ## Selection sets -/

theorem found_selectionsFrom_cons (hd : descend.Restores) (frame : Frame) (node : Address)
    (index : Nat) (s : Selection) (rest : List Selection) :
    (selectionsFrom env descend frame node index (s :: rest)).found names
      = (pathsOf env descend frame (node.child index) s).found names
        ⊔ (selectionsFrom env descend frame node (index + 1) rest).found names := by
  -- The visit that is recorded first finds nothing.
  have hvisit : (selection env descend frame (node.child index) s).found names
      = (pathsOf env descend frame (node.child index) s).found names := rfl
  rw [selectionsFrom_cons, found_append (restores_selection hd _ _ _)
    (restores_selectionsFrom hd _ _ _ _), hvisit]

/-- Selections find what each of them finds, if it does not matter where they stand. -/
theorem found_selectionsFrom (hd : descend.Restores) {frame : Frame}
    {inside : Selection → WithTop (Set String)}
    (h : ∀ node s, (pathsOf env descend frame node s).found names = inside s) (node : Address)
    (index : Nat) (ss : List Selection) :
    (selectionsFrom env descend frame node index ss).found names = joined inside ss := by
  induction ss generalizing index with
  | nil => exact found_pure_nil
  | cons s rest ih => rw [found_selectionsFrom_cons hd, h, ih, joined_cons]

/-! ## Root nodes -/

/-- Root nodes find what each of them finds, if it does not matter where they stand. -/
theorem found_rootPaths {type : Name} {inside : RootNode → WithTop (Set String)}
    (h : ∀ node (root : RootNode),
      (selections env ⟨type, none⟩ node root.selections).found names = inside root)
    (index : Nat) (roots : List RootNode) :
    (rootPaths env type index roots).found names = joined inside roots := by
  induction roots generalizing index with
  | nil => exact found_pure_nil
  | cons root rest ih =>
      rw [rootPaths, found_append (restores_selections env _ _ _)
        (restores_rootPaths env type rest (index + 1)), h, ih, joined_cons]

end Walk

end SelectionMask
