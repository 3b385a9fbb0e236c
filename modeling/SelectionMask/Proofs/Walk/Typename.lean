import SelectionMask.Proofs.Document.Typename
import SelectionMask.Proofs.Walk.Flattening
import SelectionMask.Proofs.Walk.Sources

set_option autoImplicit false

/-! # `__typename` leaves no trace

A field that asks for the name of the type is given no paths, before anything is looked up for it and
before any hook is called. So it makes no difference where such fields stand, not even at a type where
every other field is an error, or below a fragment whose errors a hook catches. The selections
behind one have other positions, which is all that can be told.

The walk of a query is compared with that of the query without `__typename`, by induction on the depth
bound of the first one (`Walk.typenameBelow`). Two queries that are the same but for `__typename` are
the same query without it. -/

namespace SelectionMask

namespace Walk

variable {schema : Schema} {fragments fragments' : FragmentTable} {hooks : Hooks} {frame : Frame}
  {node : Address} {names : List Name}

/-! ## One selection -/

theorem pathsOf_of_typename {s : Selection} (h : s.IsTypename) (env : Env) (descend : Descend)
    (frame : Frame) (node : Address) : pathsOf env descend frame node s = return [] := by
  cases s with
  | leaf name aliasName =>
      obtain rfl : name = typenameField := Option.some.inj h
      rw [pathsOf, field, if_pos rfl]
  | branch name aliasName below =>
      obtain rfl : name = typenameField := Option.some.inj h
      rw [pathsOf, field, if_pos rfl]
  | _ => cases h

theorem sameUpTo_withoutTypename (s : Selection) :
    s.SameUpTo (fun below below' => below' = Selection.withoutTypenameAll below)
      s.withoutTypename := by
  cases s with
  | leaf name aliasName => exact .leaf
  | branch name aliasName below => exact .branch rfl
  | spread name => exact .spread
  | fragment condition body => exact .fragment rfl
  | other kind => exact .other

/-- One level deeper, all that has a smaller bound is shadowed by what is left without
    `__typename`, wherever that stands. -/
def TypenameBelow (schema : Schema) (fragments fragments' : FragmentTable) (hooks : Hooks)
    (bound : Nat) : Prop :=
  ∀ names frame node node' ss, depthBound fragments names ss < bound →
    Shadows .unplaced (fun _ => True) (fun _ => True) names names
      (selections ⟨schema, fragments, hooks⟩ frame node ss)
      (selections ⟨schema, fragments', hooks⟩ frame node' (Selection.withoutTypenameAll ss))

section

variable
  (htable : ∀ name, fragments'.find? name = (fragments.find? name).map Fragment.withoutTypename)
include htable

/-- A selection that is kept, given that all with a smaller bound are shadowed. -/
theorem shadows_pathsOf_withoutTypename {ss : List Selection}
    (hbelow : TypenameBelow schema fragments fragments' hooks (depthBound fragments names ss))
    {s : Selection} (hs : s ∈ ss) (node node' : Address) :
    Shadows .unplaced (fun _ => True) (fun _ => True) names names
      (pathsOf ⟨schema, fragments, hooks⟩ (selections ⟨schema, fragments, hooks⟩) frame node s)
      (pathsOf ⟨schema, fragments', hooks⟩ (selections ⟨schema, fragments', hooks⟩) frame node'
        s.withoutTypename) := by
  have hd := restores_selections ⟨schema, fragments, hooks⟩
  have hd' := restores_selections ⟨schema, fragments', hooks⟩
  have hp := Comparison.unplaced_samePlace
  refine shadows_pathsOf (sameUpTo_withoutTypename s) (hp _ _) hd hd' (.inl fun _ _ => trivial) ?_
    fun name => ?_
  · rintro inner below _ hdepth rfl
    exact hbelow _ inner _ _ below (depthBound_inside_lt hs hdepth)
  · let related (definition definition' : Fragment) := definition' = definition.withoutTypename
    have hrelated : Option.Rel related (fragments.find? name) (fragments'.find? name) := by
      rw [htable name]
      cases fragments.find? name with
      | none => exact .none
      | some definition => exact .some rfl
    refine shadows_spread (hp _ _) (fun _ => hrelated) ?_
    rintro definition _ hfind hmem rfl
    refine shadows_enterFragment (hp _ _) hd hd' (.inl fun _ _ => trivial) (fun _ => rfl)
      (fun _ => rfl) fun inner _ => ?_
    exact hbelow _ inner _ _ _ (depthBound_definition_lt hfind hmem)

/-! ## Selection sets -/

/-- Selections, given that all with a smaller bound are shadowed. The positions of the two walks
    drift apart at each `__typename`. -/
theorem shadows_selectionsFrom_withoutTypename {ss : List Selection}
    (hbelow : TypenameBelow schema fragments fragments' hooks (depthBound fragments names ss))
    {rest : List Selection} (hrest : rest ⊆ ss) (node node' : Address) (index index' : Nat) :
    Shadows .unplaced (fun _ => True) (fun _ => True) names names
      (selectionsFrom ⟨schema, fragments, hooks⟩ (selections ⟨schema, fragments, hooks⟩) frame node
        index rest)
      (selectionsFrom ⟨schema, fragments', hooks⟩ (selections ⟨schema, fragments', hooks⟩) frame
        node' index' (Selection.withoutTypenameAll rest)) := by
  have hd := restores_selections ⟨schema, fragments, hooks⟩
  have hd' := restores_selections ⟨schema, fragments', hooks⟩
  induction rest generalizing index index' with
  | nil => exact (alike_pure _).shadows
  | cons s rest ih =>
      obtain ⟨hs, hrest⟩ := List.cons_subset.1 hrest
      by_cases htypename : s.IsTypename
      · -- Its visit is overlooked, and nothing is added to what the others come to.
        rw [Selection.withoutTypenameAll_cons_of_typename htypename, selectionsFrom_cons, selection,
          bind_assoc, pathsOf_of_typename htypename]
        refine shadows_visit_left ⟨rfl, rfl⟩ fun _ => ?_
        simpa using ih hrest (index + 1) index'
      · rw [Selection.withoutTypenameAll_cons htypename]
        exact shadows_selectionsFrom_cons hd hd' ⟨rfl, rfl⟩
          (fun _ => shadows_pathsOf_withoutTypename htable hbelow hs _ _) (ih hrest _ _)

/-- **A walk is the same without `__typename`**, by induction on its depth bound. -/
theorem typenameBelow (bound : Nat) : TypenameBelow schema fragments fragments' hooks bound := by
  induction bound with
  | zero => exact fun _ _ _ _ _ hlt => absurd hlt (Nat.not_lt_zero _)
  | succ bound ih =>
      intro names frame node node' ss hlt
      have hbelow : TypenameBelow schema fragments fragments' hooks
          (depthBound fragments names ss) :=
        fun names' frame' inner inner' below hless =>
          ih names' frame' inner inner' below (by omega)
      rw [selections_eq, selections_eq]
      exact shadows_selectionsFrom_withoutTypename htable hbelow (List.Subset.refl ss) _ _ _ _

/-! ## Whole computations -/

theorem shadows_mergeRoots_withoutTypename (type : Name) (roots : List RootNode) (index : Nat)
    (found : OrderedSet String) :
    Shadows .unplaced (fun _ => True) (fun _ => True) [] []
      (mergeRoots ⟨schema, fragments, hooks⟩ type index roots found)
      (mergeRoots ⟨schema, fragments', hooks⟩ type index (roots.map RootNode.withoutTypename)
        found) := by
  induction roots generalizing index found with
  | nil => exact (alike_pure _).shadows
  | cons root rest ih =>
      rw [List.map_cons, mergeRoots, mergeRoots, RootNode.selections_withoutTypename]
      refine (typenameBelow htable _ _ _ _ _ _ (Nat.lt_succ_self _)).bind
        (restores_selections _ _ _ _) (restores_selections _ _ _ _) fun paths _ => ?_
      exact ih (index + 1) (found.update paths)

end

end Walk

/-- A computation comes to the same without `__typename` in the nodes and in the definitions. -/
theorem maskPaths_withoutTypename {fragments fragments' : FragmentTable}
    (htable : ∀ name, fragments'.find? name = (fragments.find? name).map Fragment.withoutTypename)
    (schema : Schema) (hooks : Option Hooks) (type : Name) (roots : List RootNode) :
    (maskPaths type roots fragments schema hooks).SameUnplaced
      (maskPaths type (roots.map RootNode.withoutTypename) fragments' schema hooks) := by
  have hmask : Walk.Shadows .unplaced (fun _ => True) (fun _ => True) [] []
      (Walk.mask ⟨schema, fragments, hooks.getD .unset⟩ type roots)
      (Walk.mask ⟨schema, fragments', hooks.getD .unset⟩ type
        (roots.map RootNode.withoutTypename)) :=
    Walk.shadows_mask (List.length_map _).symm (fun _ => Iff.rfl)
      (Walk.shadows_mergeRoots_withoutTypename htable type roots 0 .empty)
  obtain ⟨houtcome, htrace, hlog⟩ := hmask ⟨fun _ _ => trivial, fun _ _ => trivial⟩
  exact ⟨(Comparison.outcome_unplaced_iff.1 houtcome).symm, htrace.symm, hlog.symm⟩

/-- **`__typename` is invisible.** Let the nodes and the definitions of fragments of two computations
    be the same but for `__typename`, asked for wherever in them, under whatever aliases and with
    whatever below it. Then the computations come to the same paths, or to the same failure but for
    the node it blames, after the same hook calls and answers but for their nodes, and with the same
    notes. And no hook for fields is called for a field of this name, even if the schema has one. -/
theorem maskPaths_overlooks_typename {fragments fragments' : FragmentTable}
    {roots roots' : List RootNode} (hfragments : fragments.SameButTypename fragments')
    (hroots : roots.map RootNode.withoutTypename = roots'.map RootNode.withoutTypename)
    (schema : Schema) (hooks : Option Hooks) (type : Name) :
    let report := maskPaths type roots fragments schema hooks
    report.SameUnplaced (maskPaths type roots' fragments' schema hooks) ∧
      ∀ site node,
        (.extraPathsAsked site node ∈ traceOf report.events ∨
          .fieldNamesAsked site node ∈ traceOf report.events) →
        site.field.name ≠ typenameField := by
  intro report
  constructor
  · have hwithout := maskPaths_withoutTypename fragments.find?_withoutTypename schema hooks type
      roots
    have hwithout' : (maskPaths type roots' fragments' schema hooks).SameUnplaced
        (maskPaths type (roots'.map RootNode.withoutTypename) fragments.withoutTypename schema
          hooks) := by
      refine maskPaths_withoutTypename (fun name => ?_) schema hooks type roots'
      rw [fragments.find?_withoutTypename, hfragments name]
    exact hwithout.trans (hroots ▸ hwithout'.symm)
  · exact fun site node hcall => (Walk.field_of_mem_traceOf hcall).1

/-- `__typename` at object types, at a union, inside a member whose error the hook catches, and in a
    definition; once with selections of its own, which no type has. The schema defines it, too. -/
theorem maskPaths_overlooks_typename_of_union :
    let schema : Schema :=
      ⟨[⟨"Query", .object [⟨"found", .named "Found", none⟩, ⟨"__typename", .named "ID", none⟩] [],
          none⟩,
        ⟨"Found", .union ["User", "Photo"], none⟩,
        ⟨"User", .object [⟨"id", .named "ID", none⟩] [], none⟩,
        ⟨"Photo", .object [⟨"id", .named "ID", none⟩, ⟨"__typename", .named "ID", none⟩] [], none⟩,
        ⟨"ID", .scalar, none⟩]⟩
    let hooks : Option Hooks :=
      some (HookRules.hooks ⟨some (.table [] .own), some (.table [] []), some .guarded⟩)
    let odd : Selection := .branch "__typename" (some "odd") [.leaf "nonsense" none, .other "name"]
    let fragments : FragmentTable :=
      .ofList [("Ids", ⟨"Photo", [odd, .leaf "id" none, .leaf "__typename" none]⟩)]
    let fragments' : FragmentTable := .ofList [("Ids", ⟨"Photo", [.leaf "id" none]⟩)]
    let roots : List RootNode :=
      [.operation [odd, .branch "found" none [.leaf "__typename" none,
        .fragment (some "User") [.leaf "__typename" none, .leaf "missing" none], .spread "Ids"]]]
    let roots' : List RootNode :=
      [.operation [.branch "found" none [.fragment (some "User") [.leaf "missing" none],
        .spread "Ids", odd]]]
    let report := maskPaths "Query" roots fragments schema hooks
    fragments.SameButTypename fragments' ∧
      roots.map RootNode.withoutTypename = roots'.map RootNode.withoutTypename ∧
      report.outcome = .ok ["found.!UnknownFieldError: User.missing is not found", "found.id"] ∧
      report.SameUnplaced (maskPaths "Query" roots' fragments' schema hooks) ∧
      ∀ site node,
        (.extraPathsAsked site node ∈ traceOf report.events ∨
          .fieldNamesAsked site node ∈ traceOf report.events) →
        site.field.name ≠ typenameField := by
  intro schema hooks odd fragments fragments' roots roots' report
  have hfragments : fragments.SameButTypename fragments' := by
    intro name
    simp only [fragments, fragments', FragmentTable.ofList, List.foldl_cons, List.foldl_nil,
      FragmentTable.find?_insert]
    split <;> rfl
  have hroots : roots.map RootNode.withoutTypename = roots'.map RootNode.withoutTypename := by
    rfl
  exact ⟨hfragments, hroots, by decide +kernel,
    maskPaths_overlooks_typename hfragments hroots schema hooks "Query"⟩

end SelectionMask
