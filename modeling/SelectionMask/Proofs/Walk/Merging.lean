import SelectionMask.Proofs.Walk.Enclosing
import SelectionMask.Proofs.Walk.Roots

set_option autoImplicit false

/-! # Root nodes are merged like one selection set

A walk of selections that stand one after the other is the walk of the first ones and then of the
others, and so it is with root nodes. A computation of two lists of root nodes is therefore that of
the first list, and then, if it does not fail, that of the second one: `maskPaths_merges_roots`.

Where the selections stand shows only in the addresses that are reported. So it does not matter
either whether they are spread over several root nodes or stand in a single one. -/

namespace SelectionMask

namespace Walk

variable {env : Env} {names : List Name}

/-! ## One after the other -/

theorem selectionsFrom_append (env : Env) (descend : Descend) (frame : Frame) (node : Address)
    (index : Nat) (ss others : List Selection) :
    selectionsFrom env descend frame node index (ss ++ others) = (do
      let found ← selectionsFrom env descend frame node index ss
      let later ← selectionsFrom env descend frame node (index + ss.length) others
      return found ++ later) := by
  induction ss generalizing index with
  | nil => simp
  | cons s rest ih =>
      rw [List.cons_append, selectionsFrom_cons, selectionsFrom_cons, ih]
      simp only [bind_assoc, pure_bind, List.append_assoc, List.length_cons, Nat.add_assoc,
        Nat.add_comm 1]

theorem rootPaths_append (env : Env) (type : Name) (index : Nat) (roots others : List RootNode) :
    rootPaths env type index (roots ++ others) = (do
      let found ← rootPaths env type index roots
      let later ← rootPaths env type (index + roots.length) others
      return found ++ later) := by
  induction roots generalizing index with
  | nil => simp [rootPaths]
  | cons root rest ih =>
      rw [List.cons_append, rootPaths, rootPaths, ih]
      simp only [bind_assoc, pure_bind, List.append_assoc, List.length_cons, Nat.add_assoc,
        Nat.add_comm 1]

/-- What is done with the value at the end leaves no event. -/
theorem events_bind_pure {α β : Type} (w : Walk α) (f : α → β) :
    ((w >>= fun a => pure (f a)).run names).events = (w.run names).events := by
  rw [run_bind]
  rcases w.run names with ⟨failure | a, left, events⟩
  · rfl
  · exact List.append_nil events

/-! ## Elsewhere -/

/-- The same selections at other positions of another node. -/
theorem alike_selectionsFrom_elsewhere (frame : Frame) (node node' : Address) (index index' : Nat)
    (ss : List Selection) :
    Alike .unplaced names names (selectionsFrom env (selections env) frame node index ss)
      (selectionsFrom env (selections env) frame node' index' ss) := by
  have hd := restores_selections env
  have hbelow : MatchesBelow .unplaced (fun _ _ => True) env (selections env) :=
    matchesBelow_selections Comparison.unplaced_overlooks rfl
  induction ss generalizing index index' with
  | nil => exact alike_pure _
  | cons s rest ih =>
      refine alike_selectionsFrom_cons hd hd ⟨rfl, rfl⟩ ?_ (ih _ _)
      exact hbelow.pathsOf Comparison.unplaced_overlooks hd (.refl _ frame) trivial s

theorem alike_selections_elsewhere (frame : Frame) (node node' : Address) (ss : List Selection) :
    Alike .unplaced names names (selections env frame node ss)
      (selections env frame node' ss) := by
  rw [selections_eq, selections_eq]
  exact alike_selectionsFrom_elsewhere frame node node' 0 0 ss

/-- The same root nodes, counted from another index. -/
theorem alike_rootPaths_elsewhere (type : Name) (index index' : Nat) (roots : List RootNode) :
    Alike .unplaced names names (rootPaths env type index roots)
      (rootPaths env type index' roots) := by
  induction roots generalizing index index' with
  | nil => exact alike_pure _
  | cons root rest ih =>
      refine (alike_selections_elsewhere _ _ _ root.selections).bind (restores_selections env _ _ _)
        (restores_selections env _ _ _) fun found => ?_
      exact (ih _ _).bind (restores_rootPaths env type rest _) (restores_rootPaths env type rest _)
        fun later => alike_pure _

/-- **The selections of root nodes in a single node.** -/
theorem alike_rootPaths_joined (type : Name) (node : Address) (index index' : Nat)
    (roots : List RootNode) :
    Alike .unplaced names names (rootPaths env type index roots)
      (selectionsFrom env (selections env) ⟨type, none⟩ node index'
        (roots.flatMap RootNode.selections)) := by
  have hd := restores_selections env
  induction roots generalizing index index' with
  | nil => exact alike_pure _
  | cons root rest ih =>
      rw [rootPaths, List.flatMap_cons, selectionsFrom_append, selections_eq]
      refine (alike_selectionsFrom_elsewhere _ _ _ _ _ root.selections).bind
        (restores_selectionsFrom hd _ _ _ _) (restores_selectionsFrom hd _ _ _ _) fun found => ?_
      exact (ih _ _).bind (restores_rootPaths env type rest _)
        (restores_selectionsFrom hd _ _ _ _) fun later => alike_pure _

end Walk

/-! ## The mask -/

section

variable {schema : Schema} {fragments : FragmentTable} {type : Name} {hooks : Option Hooks}

/-- At a type that does not exist, no root node is looked at. -/
theorem maskPaths_of_unknown (htype : schema.type? type = none) (roots roots' : List RootNode) :
    maskPaths type roots fragments schema hooks = maskPaths type roots' fragments schema hooks := by
  have hunknown : ∀ nodes, Walk.mask ⟨schema, fragments, hooks.getD .unset⟩ type nodes
      = Walk.fail (.mask (.unknownType type) none) := fun nodes => by
    rw [Walk.mask, Schema.typeNamed_eq_error_iff.2 ⟨htype, rfl⟩]
    rfl
  rw [maskPaths, maskPaths, Env.mask, Env.mask, hunknown, hunknown]

/-- If the first root nodes fail, nothing else is looked at. -/
theorem maskPaths_append_of_error {roots : List RootNode} {failure : Failure}
    (h : (maskPaths type roots fragments schema hooks).outcome = .error failure)
    (others : List RootNode) :
    let report := maskPaths type roots fragments schema hooks
    let both := maskPaths type (roots ++ others) fragments schema hooks
    both.outcome = .error failure ∧ traceOf both.events = traceOf report.events ∧
      visitsOf both.events = visitsOf report.events := by
  intro report both
  let env : Env := ⟨schema, fragments, hooks.getD .unset⟩
  cases htype : schema.type? type with
  | none =>
      have hsame : both = report := maskPaths_of_unknown htype (roots ++ others) roots
      exact ⟨hsame ▸ h, hsame ▸ rfl, hsame ▸ rfl⟩
  | some t =>
      obtain ⟨htrace, hvisits⟩ := observed_maskPaths htype fragments hooks roots
      obtain ⟨htrace', hvisits'⟩ := observed_maskPaths htype fragments hooks (roots ++ others)
      have hrun : (Walk.rootPaths env type 0 (roots ++ others)).run []
          = (Walk.rootPaths env type 0 roots).run [] := by
        rw [outcome_maskPaths htype] at h
        rw [Walk.rootPaths_append]
        change ((Walk.rootPaths env type 0 roots).run []).outcome.map _ = _ at h
        rcases hfirst : (Walk.rootPaths env type 0 roots).run [] with
          ⟨failure' | paths, left, events⟩
        · exact Walk.run_bind_of_error hfirst
        · rw [hfirst] at h
          cases h
      refine ⟨?_, ?_, ?_⟩
      · rw [← h, outcome_maskPaths htype, outcome_maskPaths htype, hrun]
      · rw [htrace', htrace, hrun]
      · rw [hvisits', hvisits, hrun]

/-- If the first root nodes have a mask, what is new in the mask of the others is added to it. -/
theorem maskPaths_append_of_ok {roots : List RootNode} {paths : List String}
    (h : (maskPaths type roots fragments schema hooks).outcome = .ok paths)
    (others : List RootNode) :
    let report := maskPaths type roots fragments schema hooks
    let later := maskPaths type others fragments schema hooks
    let both := maskPaths type (roots ++ others) fragments schema hooks
    both.outcome.mapError Failure.unplaced
        = (later.outcome.mapError Failure.unplaced).map
            (fun more => paths ++ more.filter (· ∉ paths)) ∧
      (traceOf both.events).map HookEvent.unplaced
        = (traceOf report.events ++ traceOf later.events).map HookEvent.unplaced := by
  intro report later both
  let env : Env := ⟨schema, fragments, hooks.getD .unset⟩
  obtain ⟨⟨t, htype⟩, found, hfound, rfl⟩ := maskPaths_eq_ok_iff.1 h
  have hroots := Walk.restores_rootPaths env type roots 0
  have hothers := Walk.restores_rootPaths env type others roots.length
  -- The other root nodes are counted from another index than by themselves.
  obtain ⟨houtcome, hevents, -⟩ : Run.Alike .unplaced
      ((Walk.rootPaths env type roots.length others).run [])
      ((Walk.rootPaths env type 0 others).run []) :=
    Walk.alike_rootPaths_elsewhere type roots.length 0 others
  have hboth : Walk.rootPaths env type 0 (roots ++ others) = (do
      let found ← Walk.rootPaths env type 0 roots
      let more ← Walk.rootPaths env type roots.length others
      return found ++ more) := by
    rw [Walk.rootPaths_append, Nat.zero_add]
  constructor
  · have hadded : both.outcome = (((Walk.rootPaths env type roots.length others).run
        []).outcome.map (found ++ ·)).map List.eraseDups := by
      rw [outcome_maskPaths htype]
      change ((Walk.rootPaths env type 0 (roots ++ others)).run []).outcome.map _ = _
      rw [hboth, hroots.outcome_bind]
      rw [hfound]
      exact congrArg (Except.map _) (hothers.outcome_bind _ [])
    have hlater : later.outcome
        = ((Walk.rootPaths env type 0 others).run []).outcome.map List.eraseDups :=
      outcome_maskPaths htype
    rw [hadded, hlater, mapError_map, mapError_map, mapError_map,
      Comparison.outcome_unplaced_iff.1 houtcome]
    cases ((Walk.rootPaths env type 0 others).run []).outcome with
    | error failure => rfl
    | ok more => exact congrArg Except.ok (OrderedSet.eraseDups_append_eq found more)
  · have htrace : ∀ nodes, traceOf (maskPaths type nodes fragments schema hooks).events
        = traceOf ((Walk.rootPaths env type 0 nodes).run []).events :=
      fun nodes => (observed_maskPaths htype fragments hooks nodes).1
    rw [htrace, htrace, htrace, hboth, hroots.events_bind hfound, Walk.events_bind_pure,
      traceOf_append, List.map_append, hevents, List.map_append]

/-- The selections of all root nodes in one node have the same mask. -/
theorem maskPaths_joined (roots : List RootNode) {root : RootNode}
    (h : root.selections = roots.flatMap RootNode.selections) :
    let report := maskPaths type roots fragments schema hooks
    let single := maskPaths type [root] fragments schema hooks
    single.outcome.mapError Failure.unplaced = report.outcome.mapError Failure.unplaced ∧
      (traceOf single.events).map HookEvent.unplaced
        = (traceOf report.events).map HookEvent.unplaced := by
  intro report single
  cases htype : schema.type? type with
  | none =>
      have hsame : single = report := maskPaths_of_unknown htype [root] roots
      exact ⟨hsame ▸ rfl, hsame ▸ rfl⟩
  | some t =>
      let env : Env := ⟨schema, fragments, hooks.getD .unset⟩
      obtain ⟨houtcome, hevents, -⟩ : Run.Alike .unplaced
          ((Walk.rootPaths env type 0 roots).run [])
          ((Walk.rootPaths env type 0 [root]).run []) := by
        rw [Walk.rootPaths_singleton, Walk.selections_eq, h]
        exact Walk.alike_rootPaths_joined type (.root 0) 0 0 roots
      constructor
      · rw [outcome_maskPaths htype, outcome_maskPaths htype, mapError_map, mapError_map,
          Comparison.outcome_unplaced_iff.1 houtcome]
      · rw [(observed_maskPaths htype fragments hooks [root]).1,
          (observed_maskPaths htype fragments hooks roots).1, hevents]

end

/-- **Root nodes are merged like one selection set.** If a list of root nodes fails, then so does
    every longer one, with the same failure and after the same hook calls, and what is added to it
    is not looked at. If it has a mask, that of a longer list begins with it and goes on with what
    is new in the mask of the others, or fails as these do but for the node to blame, and the hooks
    are called as for the two in turn. And a single node with the selections of all of them comes to
    the same mask or failure after the same hook calls, the nodes apart. -/
theorem maskPaths_merges_roots (schema : Schema) (fragments : FragmentTable) (hooks : Option Hooks)
    (type : Name) (roots others : List RootNode) :
    let report := maskPaths type roots fragments schema hooks
    let later := maskPaths type others fragments schema hooks
    let both := maskPaths type (roots ++ others) fragments schema hooks
    (∀ failure, report.outcome = .error failure →
      both.outcome = .error failure ∧ traceOf both.events = traceOf report.events ∧
        visitsOf both.events = visitsOf report.events) ∧
    (∀ paths, report.outcome = .ok paths →
      (∀ more, later.outcome = .ok more →
        both.outcome = .ok (paths ++ more.filter (· ∉ paths))) ∧
      (∀ failure, later.outcome = .error failure → ∃ blaming,
        both.outcome = .error blaming ∧ blaming.unplaced = failure.unplaced) ∧
      (traceOf both.events).map HookEvent.unplaced
        = (traceOf report.events ++ traceOf later.events).map HookEvent.unplaced) ∧
    ∀ root : RootNode, root.selections = roots.flatMap RootNode.selections →
      let single := maskPaths type [root] fragments schema hooks
      single.outcome.mapError Failure.unplaced = report.outcome.mapError Failure.unplaced ∧
        (traceOf single.events).map HookEvent.unplaced
          = (traceOf report.events).map HookEvent.unplaced := by
  intro report later both
  refine ⟨fun failure hfailure => maskPaths_append_of_error hfailure others, ?_,
    fun root hroot => maskPaths_joined roots hroot⟩
  intro paths hpaths
  obtain ⟨houtcome, htrace⟩ := maskPaths_append_of_ok hpaths others
  change both.outcome.mapError _ = (later.outcome.mapError _).map _ at houtcome
  refine ⟨fun more hmore => ?_, fun failure hfailure => ?_, htrace⟩
  · rw [hmore] at houtcome
    exact mapError_eq_ok_iff.1 houtcome
  · rw [hfailure] at houtcome
    cases hboth : both.outcome with
    | ok found => rw [hboth] at houtcome; cases houtcome
    | error blaming =>
        rw [hboth] at houtcome
        exact ⟨blaming, rfl, Except.error.inj houtcome⟩

/-- Two nodes that share a path and give a field two names, and a node that fails. -/
theorem maskPaths_merges_roots_of_shared :
    let schema : Schema :=
      ⟨[⟨"Query", .object [⟨"id", .named "ID", none⟩, ⟨"user", .named "User", none⟩] [], none⟩,
        ⟨"User", .object [⟨"id", .named "ID", none⟩, ⟨"name", .named "ID", none⟩] [], none⟩]⟩
    let hooks : Hooks := HookRules.hooks
      ⟨some (.table [("name", .value (some (.many ["name", "title"])))] .own), none, none⟩
    let fragments : FragmentTable := .ofList [("Name", ⟨"User", [.leaf "name" none]⟩)]
    let roots : List RootNode :=
      [.field "a" none [.branch "user" none [.spread "Name"]], .operation [.leaf "id" none]]
    let others : List RootNode :=
      [.field "a" none [.leaf "id" (some "key"), .branch "user" none [.leaf "id" none,
        .leaf "name" none]]]
    let failing : List RootNode := [.operation [.leaf "id" none, .leaf "name" none]]
    let mask (nodes : List RootNode) :=
      (maskPaths "Query" nodes fragments schema (some hooks)).outcome
    mask roots = .ok ["user.name", "user.title", "id"] ∧
      mask others = .ok ["id", "user.id", "user.name", "user.title"] ∧
      mask (roots ++ others) = .ok ["user.name", "user.title", "id", "user.id"] ∧
      mask failing = .error (.mask (.unknownField "Query" "name") (some ⟨.root 0, [1]⟩)) ∧
      mask (failing ++ others)
        = .error (.mask (.unknownField "Query" "name") (some ⟨.root 0, [1]⟩)) ∧
      mask [.operation [.branch "user" none [.spread "Name"], .leaf "id" none]]
        = .ok ["user.name", "user.title", "id"] := by
  intro schema hooks fragments roots others failing mask
  have hroots : mask roots = .ok ["user.name", "user.title", "id"] := by decide +kernel
  have hothers : mask others = .ok ["id", "user.id", "user.name", "user.title"] := by
    decide +kernel
  have hfailing : mask failing
      = .error (.mask (.unknownField "Query" "name") (some ⟨.root 0, [1]⟩)) := by
    decide +kernel
  obtain ⟨-, hboth, hjoined⟩ :=
    maskPaths_merges_roots schema fragments (some hooks) "Query" roots others
  obtain ⟨hcut, -, -⟩ :=
    maskPaths_merges_roots schema fragments (some hooks) "Query" failing others
  have hsingle := (hjoined (.operation [.branch "user" none [.spread "Name"], .leaf "id" none])
    rfl).1
  refine ⟨hroots, hothers, (hboth _ hroots).1 _ hothers, hfailing, (hcut _ hfailing).1, ?_⟩
  exact mapError_eq_ok_iff.1 (hsingle.trans (congrArg (Except.mapError _) hroots))

end SelectionMask
