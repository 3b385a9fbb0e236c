import SelectionMask.Proofs.Walk.Enclosing
import SelectionMask.Proofs.Walk.Roots

set_option autoImplicit false

/-! # The mask of a field and the mask of its selections

A resolver may compute the mask of a child field from the child's own type and selections, or read
it off the mask of the parent. `maskPaths_field` says that the two agree. The walk below a field
differs from one that starts at the field's type in two ways only: it has an enclosing field, and
its repetitions are erased together with all others at the end. -/

namespace SelectionMask

namespace Walk

variable {env : Env} {names : List Name} {type name : Name} {definition : FieldDef}

/-! ## A single selection -/

theorem outcome_selections_singleton (env : Env) (frame : Frame) (node : Address) (s : Selection)
    (names : List Name) :
    ((selections env frame node [s]).run names).outcome
      = ((pathsOf env (selections env) frame (node.child 0) s).run names).outcome := by
  rw [selections_eq, outcome_selectionsFrom_cons (restores_selections env)]
  cases ((pathsOf env (selections env) frame (node.child 0) s).run names).outcome with
  | error failure => rfl
  | ok paths => exact congrArg Except.ok (List.append_nil paths)

/-! ## Visits -/

theorem visits_extraPathsOf (site : FieldSite) (node : Address) :
    visitsOf ((extraPathsOf env site node).run names).events = [] := by
  unfold extraPathsOf
  cases env.hooks.extraPaths with
  | none => rfl
  | some hook =>
      change visitsOf (.hook (.extraPathsAsked site node) :: ((hooked (hook site)).run
        names).events) = []
      cases hook site <;> rfl

theorem visits_namesOf (site : FieldSite) (node : Address) :
    visitsOf ((namesOf env site node).run names).events = [] := by
  unfold namesOf
  cases env.hooks.fieldNames with
  | none => rfl
  | some hook =>
      change visitsOf (.hook (.fieldNamesAsked site node) :: ((hooked (hook site) >>= fun given =>
        pure (given.map OneOrMany.toList)).run names).events) = []
      cases hook site <;> rfl

/-- A field that is dropped is not looked into. -/
theorem visits_field_of_dropped {descend : Descend} {aliasName : Option String}
    {extra : List String} (hname : name ≠ typenameField)
    (hfield : env.schema.fieldNamed type name = .ok definition)
    (hextra : env.hooks.extraPathsAt ⟨type, definition, aliasName⟩ = .ok extra)
    (hgiven : env.hooks.namesAt ⟨type, definition, aliasName⟩ = .ok none) (node : Address)
    (ss : Option (List Selection)) :
    visitsOf ((field env descend type node name aliasName ss).run names).events = [] := by
  rw [field_of_found hname hfield,
    (restores_extraPathsOf _ node).visits_bind (returns_extraPathsOf_iff.2 hextra),
    (restores_namesOf _ node).visits_bind (returns_namesOf_iff.2 hgiven),
    visits_extraPathsOf, visits_namesOf]
  rfl

theorem visits_selections_singleton {frame : Frame} {node : Address} {s : Selection}
    {paths : List String}
    (h : (pathsOf env (selections env) frame (node.child 0) s).Returns names paths) :
    visitsOf ((selections env frame node [s]).run names).events
      = ⟨frame, names, node.child 0, s⟩
        :: visitsOf ((pathsOf env (selections env) frame (node.child 0) s).run names).events := by
  have hd := restores_selections env
  have hselection : (selection env (selections env) frame (node.child 0) s).Returns names paths :=
    returns_visit_bind_iff.2 h
  have hvisit : (visit frame (node.child 0) s).Returns names () := rfl
  rw [selections_eq, selectionsFrom_cons, (restores_selection hd _ _ _).visits_bind hselection,
    selection, (restores_visit _ _ _).visits_bind hvisit]
  exact List.append_nil _

/-- The mask of one node visits what is walked from its selections. -/
theorem visits_maskPaths_singleton {schema : Schema} {fragments : FragmentTable}
    {hooks : Option Hooks} {root : RootNode} {t : NamedType}
    (htype : schema.type? type = some t) :
    visitsOf (maskPaths type [root] fragments schema hooks).events
      = visitsOf ((selections ⟨schema, fragments, hooks.getD .unset⟩ ⟨type, none⟩ (.root 0)
          root.selections).run []).events := by
  rw [(observed_maskPaths htype fragments hooks [root]).2, rootPaths_singleton]

end Walk

/-! ## Erasing repetitions -/

/-- Repetitions can be erased before names are put in front, too. -/
theorem eraseDups_append_joinAll (added names paths : List String) :
    (added ++ joinAll names paths.eraseDups).eraseDups
      = (added ++ joinAll names paths).eraseDups := by
  have hjoined : (joinAll names paths.eraseDups).eraseDups = (joinAll names paths).eraseDups :=
    OrderedSet.eraseDups_flatMap_congr fun name _ =>
      OrderedSet.eraseDups_map_eraseDups (joinPath name) paths
  rw [OrderedSet.eraseDups_append_eq, hjoined, ← OrderedSet.eraseDups_append_eq]

/-! ## The mask of a field -/

section

variable {schema : Schema} {fragments : FragmentTable} {hooks : Option Hooks} {type name : Name}
  {definition : FieldDef} {aliasName : Option String} {root : RootNode} {below : List Selection}

/-- What the mask of a single field comes to. -/
theorem outcome_maskPaths_field (hname : name ≠ typenameField)
    (hfield : schema.fieldNamed type name = .ok definition)
    (hroot : root.selections = [.branch name aliasName below]) :
    (maskPaths type [root] fragments schema hooks).outcome = (do
      let added ← ((hooks.getD .unset).extraPathsAt ⟨type, definition, aliasName⟩).mapError .refused
      let given ← ((hooks.getD .unset).namesAt ⟨type, definition, aliasName⟩).mapError .refused
      match given with
      | none => return added.eraseDups
      | some given =>
          ((Walk.selections ⟨schema, fragments, hooks.getD .unset⟩
            ⟨definition.namedType, some definition⟩ ((Address.root 0).child 0) below).run
              []).outcome.map fun paths => (added ++ joinAll given paths).eraseDups) := by
  have hd := Walk.restores_selections ⟨schema, fragments, hooks.getD .unset⟩
  obtain ⟨t, htype, -, -⟩ := Schema.fieldNamed_eq_ok_iff.1 hfield
  rw [outcome_maskPaths htype, Walk.outcome_rootPaths_singleton, hroot,
    Walk.outcome_selections_singleton, Walk.pathsOf, Walk.outcome_field_of_found hd hname hfield]
  cases (hooks.getD .unset).extraPathsAt ⟨type, definition, aliasName⟩ with
  | error text => rfl
  | ok added =>
      rcases (hooks.getD .unset).namesAt ⟨type, definition, aliasName⟩ with text | _ | given
      · rfl
      · rfl
      · have hbelow := (hd ⟨definition.namedType, some definition⟩ ((Address.root 0).child 0)
          below).outcome_bind (fun paths => pure (joinAll given paths)) []
        change (((Walk.pathsBelow _ definition _ given (some below)).run []).outcome.map
          (added ++ ·)).map List.eraseDups = _
        rw [Walk.pathsBelow, hbelow]
        cases ((Walk.selections _ _ _ below).run []).outcome <;> rfl

/-- Without hooks for fields, it is what is walked below the field, under the field's name. -/
theorem outcome_maskPaths_field_of_plain (hextra : (hooks.getD .unset).extraPaths = none)
    (hnames : (hooks.getD .unset).fieldNames = none) (hname : name ≠ typenameField)
    (hfield : schema.fieldNamed type name = .ok definition)
    (hroot : root.selections = [.branch name aliasName below]) :
    (maskPaths type [root] fragments schema hooks).outcome
      = ((Walk.selections ⟨schema, fragments, hooks.getD .unset⟩
          ⟨definition.namedType, some definition⟩ ((Address.root 0).child 0) below).run
            []).outcome.map fun paths => (paths.map (joinPath name)).eraseDups := by
  obtain rfl : definition.name = name := Schema.name_of_fieldNamed hfield
  have hadded : (hooks.getD .unset).extraPathsAt ⟨type, definition, aliasName⟩ = .ok [] := by
    rw [Hooks.extraPathsAt, hextra]
  have hgiven : (hooks.getD .unset).namesAt ⟨type, definition, aliasName⟩
      = .ok (some [definition.name]) := by
    rw [Hooks.namesAt, hnames]
  rw [outcome_maskPaths_field hname hfield hroot, hadded, hgiven]
  change Except.map (fun paths => ([] ++ joinAll [definition.name] paths).eraseDups) _ = _
  simp only [List.nil_append, joinAll_singleton]

/-- The field is dropped: what is added to it is left, and nothing else is visited. -/
theorem maskPaths_of_dropped (hname : name ≠ typenameField)
    (hfield : schema.fieldNamed type name = .ok definition)
    (hroot : root.selections = [.branch name aliasName below]) {extra : List String}
    (hextra : (hooks.getD .unset).extraPathsAt ⟨type, definition, aliasName⟩ = .ok extra)
    (hgiven : (hooks.getD .unset).namesAt ⟨type, definition, aliasName⟩ = .ok none) :
    (maskPaths type [root] fragments schema hooks).outcome = .ok extra.eraseDups ∧
      visitsOf (maskPaths type [root] fragments schema hooks).events
        = [⟨⟨type, none⟩, [], (Address.root 0).child 0, .branch name aliasName below⟩] := by
  constructor
  · rw [outcome_maskPaths_field hname hfield hroot, hextra, hgiven]
    rfl
  · let env : Env := ⟨schema, fragments, hooks.getD .unset⟩
    have hd := Walk.restores_selections env
    obtain ⟨t, htype, -, -⟩ := Schema.fieldNamed_eq_ok_iff.1 hfield
    have hpaths : (Walk.pathsOf env (Walk.selections env) ⟨type, none⟩ ((Address.root 0).child 0)
        (.branch name aliasName below)).Returns [] extra :=
      (Walk.returns_field_iff hd).2
        (.inr ⟨hname, definition, extra, none, hfield, hextra, hgiven, .inl ⟨rfl, rfl⟩⟩)
    rw [Walk.visits_maskPaths_singleton htype, hroot, Walk.visits_selections_singleton hpaths]
    exact congrArg _ (Walk.visits_field_of_dropped hname hfield hextra hgiven _ _)

/-- What is walked below a field comes to the same as from a root node at the field's type, but for
    the node that is blamed. -/
theorem outcome_below_field {target : NamedType}
    (htarget : schema.type? definition.namedType = some target)
    (hconcrete : target.isAbstract = false) (ss : List Selection) :
    let env : Env := ⟨schema, fragments, hooks.getD .unset⟩
    ((Walk.selections env ⟨definition.namedType, some definition⟩ ((Address.root 0).child 0) ss).run
        []).outcome.mapError Failure.unplaced
      = ((Walk.selections env ⟨definition.namedType, none⟩ (.root 0) ss).run
          []).outcome.mapError Failure.unplaced := by
  intro env
  have hplain : ¬ schema.IsAbstract definition.namedType :=
    Schema.not_isAbstract_of_concrete htarget hconcrete
  exact Walk.outcome_selections_of_concrete hplain _ _ _ _ [] ss

/-- The field has names: the mask of the selections stands under each of them. -/
theorem maskPaths_of_named {target : NamedType} (hname : name ≠ typenameField)
    (hfield : schema.fieldNamed type name = .ok definition)
    (htarget : schema.type? definition.namedType = some target)
    (hconcrete : target.isAbstract = false) {root' : RootNode}
    (hroot : root.selections = [.branch name aliasName root'.selections])
    {extra names : List String}
    (hextra : (hooks.getD .unset).extraPathsAt ⟨type, definition, aliasName⟩ = .ok extra)
    (hgiven : (hooks.getD .unset).namesAt ⟨type, definition, aliasName⟩ = .ok (some names)) :
    let parent := maskPaths type [root] fragments schema hooks
    let child := maskPaths definition.namedType [root'] fragments schema hooks
    (∀ failure, child.outcome = .error failure → ∃ blaming,
      parent.outcome = .error blaming ∧ blaming.unplaced = failure.unplaced) ∧
    ∀ paths, child.outcome = .ok paths →
      parent.outcome = .ok (extra ++ joinAll names paths).eraseDups := by
  intro parent child
  let env : Env := ⟨schema, fragments, hooks.getD .unset⟩
  let nested := ((Walk.selections env ⟨definition.namedType, some definition⟩
    ((Address.root 0).child 0) root'.selections).run []).outcome
  let plain := ((Walk.selections env ⟨definition.namedType, none⟩ (.root 0)
    root'.selections).run []).outcome
  have hsame : nested.mapError Failure.unplaced = plain.mapError Failure.unplaced :=
    outcome_below_field htarget hconcrete root'.selections
  have hparent : parent.outcome
      = nested.map fun paths => (extra ++ joinAll names paths).eraseDups := by
    rw [outcome_maskPaths_field hname hfield hroot, hextra, hgiven]
    rfl
  have hchild : child.outcome = plain.map List.eraseDups := by
    rw [outcome_maskPaths htarget, Walk.outcome_rootPaths_singleton]
  rw [hparent, hchild]
  rcases nested with blaming | paths <;> rcases plain with failure | paths'
  · have hunplaced : blaming.unplaced = failure.unplaced := Except.error.inj hsame
    constructor
    · intro failure' hfailure
      obtain rfl : failure = failure' := Except.error.inj hfailure
      exact ⟨blaming, rfl, hunplaced⟩
    · intro paths hpaths
      cases hpaths
  · cases hsame
  · cases hsame
  · obtain rfl : paths = paths' := Except.ok.inj hsame
    constructor
    · intro failure hfailure
      cases hfailure
    · intro found hfound
      obtain rfl : paths.eraseDups = found := Except.ok.inj hfound
      exact congrArg Except.ok (eraseDups_append_joinAll extra names paths).symm

/-- At a type that is not abstract a walk does the same whatever field encloses it. -/
theorem collect_of_concrete {current : Name} (hcurrent : ¬ schema.IsAbstract current)
    (enclosing enclosing' : Option FieldDef) (expanding : List Name) (node : RootNode) :
    let env : Env := ⟨schema, fragments, hooks.getD .unset⟩
    let run := env.collect ⟨current, enclosing⟩ expanding node
    let run' := env.collect ⟨current, enclosing'⟩ expanding node
    run.outcome = run'.outcome ∧ run.expanding = run'.expanding ∧
      run.events.map Event.unenclosed = run'.events.map Event.unenclosed := by
  intro env run run'
  have hd := Walk.restores_selections env
  have hbelow : Walk.MatchesBelow .unenclosed Eq env (Walk.selections env) :=
    Walk.matchesBelow_selections Comparison.unenclosed_overlooks rfl
  have hframe : Frame.Matches schema ⟨current, enclosing⟩ ⟨current, enclosing'⟩ :=
    .of_concrete hcurrent enclosing enclosing'
  obtain ⟨houtcome, hevents⟩ := hbelow hframe (Eq.refl Address.single) expanding node.selections
  exact ⟨Comparison.outcome_unenclosed_iff.1 houtcome,
    (hd _ _ _ expanding).trans (hd _ _ _ expanding).symm, hevents⟩

/-- **The mask of a field agrees with the mask of its selections** at the field's type, which is not
    abstract. A field that is dropped leaves the paths added to it, and its selections are not
    visited. One with names fails as the selections do, but for the node that is blamed, and else
    lists the added paths and then, under each name in turn, the mask of the selections, with later
    occurrences erased. A hook that refuses the field is what the mask fails with. And at any type
    that is not abstract a walk does the same whatever field encloses it. -/
theorem maskPaths_field {target : NamedType} (hname : name ≠ typenameField)
    (hfield : schema.fieldNamed type name = .ok definition)
    (htarget : schema.type? definition.namedType = some target)
    (hconcrete : target.isAbstract = false) {root' : RootNode}
    (hroot : root.selections = [.branch name aliasName root'.selections]) :
    let added := (hooks.getD .unset).extraPathsAt ⟨type, definition, aliasName⟩
    let given := (hooks.getD .unset).namesAt ⟨type, definition, aliasName⟩
    let parent := maskPaths type [root] fragments schema hooks
    let child := maskPaths definition.namedType [root'] fragments schema hooks
    (∀ extra, added = .ok extra → given = .ok none →
      parent.outcome = .ok extra.eraseDups ∧
        visitsOf parent.events = [⟨⟨type, none⟩, [], (Address.root 0).child 0,
          .branch name aliasName root'.selections⟩]) ∧
    (∀ extra names, added = .ok extra → given = .ok (some names) →
      (∀ failure, child.outcome = .error failure → ∃ blaming,
        parent.outcome = .error blaming ∧ blaming.unplaced = failure.unplaced) ∧
      ∀ paths, child.outcome = .ok paths →
        parent.outcome = .ok (extra ++ names.flatMap fun n => paths.map (joinPath n)).eraseDups) ∧
    (∀ text, (added = .error text ∨ (∃ extra, added = .ok extra) ∧ given = .error text) →
      parent.outcome = .error (.refused text)) ∧
    ∀ current, ¬ schema.IsAbstract current → ∀ enclosing enclosing' expanding node,
      let env : Env := ⟨schema, fragments, hooks.getD .unset⟩
      let run := env.collect ⟨current, enclosing⟩ expanding node
      let run' := env.collect ⟨current, enclosing'⟩ expanding node
      run.outcome = run'.outcome ∧ run.expanding = run'.expanding ∧
        run.events.map Event.unenclosed = run'.events.map Event.unenclosed := by
  refine ⟨?_, ?_, ?_, ?_⟩
  · intro extra hextra hgiven
    exact maskPaths_of_dropped hname hfield hroot hextra hgiven
  · intro extra names hextra hgiven
    exact maskPaths_of_named hname hfield htarget hconcrete hroot hextra hgiven
  · rintro text (hextra | ⟨⟨extra, hextra⟩, hgiven⟩)
    · rw [outcome_maskPaths_field hname hfield hroot, hextra]
      rfl
    · rw [outcome_maskPaths_field hname hfield hroot, hextra, hgiven]
      rfl
  · intro current hcurrent enclosing enclosing' expanding node
    exact collect_of_concrete hcurrent enclosing enclosing' expanding node

end

/-- A field that goes by two names and adds a path which its selections give once more, below it a
    fragment on an interface and a repeated leaf. -/
theorem maskPaths_field_of_user :
    let definition : FieldDef := ⟨"user", .named "User", none⟩
    let user : NamedType :=
      ⟨"User", .object [⟨"id", .named "ID", none⟩, ⟨"name", .named "ID", none⟩] ["Node"], none⟩
    let schema : Schema :=
      ⟨[⟨"Query", .object [definition] [], none⟩, user,
        ⟨"Node", .interface [⟨"id", .named "ID", none⟩], none⟩]⟩
    let fragments : FragmentTable := .ofList [("Names", ⟨"Node", [.leaf "name" none]⟩)]
    let hooks : Hooks :=
      ⟨some fun site => .ok (some (if site.field.name = "user" then .many ["u", "person"]
          else .one site.field.name)),
        some fun site => .ok (if site.field.name = "user" then ["note", "u.id"] else []), none⟩
    let below : List Selection := [.leaf "id" none, .spread "Names", .leaf "id" (some "key")]
    let parent := maskPaths "Query" [.operation [.branch "user" none below]] fragments schema hooks
    let child := maskPaths "User" [.fragment none below] fragments schema hooks
    "user" ≠ typenameField ∧ schema.fieldNamed "Query" "user" = .ok definition ∧
      schema.type? "User" = some user ∧ user.isAbstract = false ∧
      child.outcome = .ok ["id", "name"] ∧
      parent.outcome = .ok ["note", "u.id", "u.name", "person.id", "person.name"] := by
  intro definition user schema fragments hooks below parent child
  have hname : "user" ≠ typenameField := by decide
  have hfield : schema.fieldNamed "Query" "user" = .ok definition := rfl
  have huser : schema.type? definition.namedType = some user := rfl
  have hroot : (RootNode.operation [.branch "user" none below]).selections
      = [.branch "user" none (RootNode.fragment none below).selections] := rfl
  have hextra : ((some hooks).getD .unset).extraPathsAt ⟨"Query", definition, none⟩
      = .ok ["note", "u.id"] := rfl
  have hgiven : ((some hooks).getD .unset).namesAt ⟨"Query", definition, none⟩
      = .ok (some ["u", "person"]) := rfl
  have hchild : child.outcome = .ok ["id", "name"] := rfl
  refine ⟨hname, hfield, huser, rfl, hchild, ?_⟩
  exact ((maskPaths_field hname hfield huser rfl hroot).2.1 _ _ hextra hgiven).2 _ hchild

end SelectionMask
