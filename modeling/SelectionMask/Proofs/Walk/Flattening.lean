import SelectionMask.Proofs.Document.Flattening
import SelectionMask.Proofs.Walk.Merging
import SelectionMask.Proofs.Walk.Shadows

set_option autoImplicit false

/-! # Fragments read in place can be flattened

A fragment without a condition, on the very type it stands at, or on an abstract type where the type
at hand is none, is read in place: its selections are walked at the same place in the schema as what
stands around it. So it comes to the same if they are put where it stands, but for the addresses.

This holds of a single walk (`Walk.collect_nested`), and of a whole computation in which fragments at
given addresses are flattened, if each of them is read in place whenever it is visited. The latter is
by induction on the depth bound of the walk that is not flattened (`Walk.flattenedBelow`), and on how
the other selections come from its own. -/

namespace SelectionMask

/-! ## Runs that are the same but for nodes -/

/-- Two runs with the same value or the same failure, the same hook calls and answers and the same
    notes, but for the nodes; and the same fragments are being expanded when they end. -/
structure Run.SameUnplaced {α : Type} (r r' : Run α) : Prop where
  outcome : r'.outcome.mapError Failure.unplaced = r.outcome.mapError Failure.unplaced
  expanding : r'.expanding = r.expanding
  trace : (traceOf r'.events).map HookEvent.unplaced = (traceOf r.events).map HookEvent.unplaced
  log : logOf r'.events = logOf r.events

theorem Run.SameUnplaced.trans {α : Type} {r r' r'' : Run α} (h : r.SameUnplaced r')
    (h' : r'.SameUnplaced r'') : r.SameUnplaced r'' :=
  ⟨h'.outcome.trans h.outcome, h'.expanding.trans h.expanding, h'.trace.trans h.trace,
    h'.log.trans h.log⟩

/-- Two reports with the same paths or the same failure, the same trace of the hooks and the same
    log, but for the nodes. -/
structure Report.SameUnplaced (r r' : Report) : Prop where
  outcome : r'.outcome.mapError Failure.unplaced = r.outcome.mapError Failure.unplaced
  trace : (traceOf r'.events).map HookEvent.unplaced = (traceOf r.events).map HookEvent.unplaced
  log : logOf r'.events = logOf r.events

theorem Report.SameUnplaced.symm {r r' : Report} (h : r.SameUnplaced r') : r'.SameUnplaced r :=
  ⟨h.outcome.symm, h.trace.symm, h.log.symm⟩

theorem Report.SameUnplaced.trans {r r' r'' : Report} (h : r.SameUnplaced r')
    (h' : r'.SameUnplaced r'') : r.SameUnplaced r'' :=
  ⟨h'.outcome.trans h.outcome, h'.trace.trans h.trace, h'.log.trans h.log⟩

/-! ## Transparent fragments -/

/-- At the type, which exists, a fragment with the condition is read in place. -/
def Schema.Transparent (s : Schema) (condition : Option Name) (type : Name) : Prop :=
  (s.type? type).isSome ∧ s.Enters (conditionAt condition type) type

instance (s : Schema) (condition : Option Name) (type : Name) :
    Decidable (s.Transparent condition type) :=
  inferInstanceAs (Decidable ((s.type? type).isSome ∧ s.Enters (conditionAt condition type) type))

/-- If the visit is of a fragment, that is read in place. -/
def Visit.Transparent (schema : Schema) (v : Visit) : Prop :=
  match v.selection with
  | .fragment condition _ => schema.Transparent condition v.frame.type
  | _ => True

instance (schema : Schema) (v : Visit) : Decidable (v.Transparent schema) := by
  unfold Visit.Transparent
  split <;> infer_instance

namespace Walk

variable {C : Comparison} {I : Visit → Prop} {E : Failure → Prop} {names names' : List Name}

theorem pathsOf_of_transparent {env : Env} {frame : Frame} {condition : Option Name}
    (h : env.schema.Transparent condition frame.type) (descend : Descend) (node : Address)
    (body : List Selection) :
    pathsOf env descend frame node (.fragment condition body) = descend frame node body := by
  obtain ⟨htype, henters⟩ := h
  obtain ⟨current, hcurrent⟩ := Option.isSome_iff_exists.1 htype
  obtain ⟨target, htarget⟩ :
      ∃ target, env.schema.type? (conditionAt condition frame.type) = some target := by
    rcases henters with hsame | ⟨⟨target, htarget, -⟩, -⟩
    · rw [hsame]
      exact ⟨current, hcurrent⟩
    · exact ⟨target, htarget⟩
  exact enterFragment_of_enters htarget hcurrent henters node body

/-- A fragment that is flattened, in front of other selections. -/
theorem shadows_flattened {env env' : Env} {descend descend' : Descend} {frame : Frame}
    {node node' : Address} {index index' : Nat} {condition : Option Name}
    {body body' rest rest' : List Selection} (hd : descend.Restores) (hd' : descend'.Restores)
    (htransparent : I ⟨frame, names, node.child index, .fragment condition body⟩ →
      env.schema.Transparent condition frame.type)
    (hbody : Shadows .unplaced I E names names (descend frame (node.child index) body)
      (selectionsFrom env' descend' frame node' index' body'))
    (hrest : Shadows .unplaced I E names names
      (selectionsFrom env descend frame node (index + 1) rest)
      (selectionsFrom env' descend' frame node' (index' + body'.length) rest')) :
    Shadows .unplaced I E names names
      (selectionsFrom env descend frame node index (.fragment condition body :: rest))
      (selectionsFrom env' descend' frame node' index' (body' ++ rest')) := by
  have hfirst : Shadows .unplaced I E names names
      (selection env descend frame (node.child index) (.fragment condition body))
      (selectionsFrom env' descend' frame node' index' body') := by
    refine shadows_visit_left ⟨rfl, rfl⟩ fun hv => ?_
    rw [pathsOf_of_transparent (htransparent hv)]
    exact hbody
  rw [selectionsFrom_cons, selectionsFrom_append]
  refine hfirst.bind (restores_selection hd _ _ _) (restores_selectionsFrom hd' _ _ _ _)
    fun _ _ => ?_
  exact hrest.bind (restores_selectionsFrom hd _ _ _ _) (restores_selectionsFrom hd' _ _ _ _)
    fun _ _ => (alike_pure _).shadows

/-! ## One walk -/

section

variable {env : Env} {frame : Frame}

theorem alike_flattened {condition : Option Name}
    (h : env.schema.Transparent condition frame.type) (node : Address) (index : Nat)
    (body post : List Selection) :
    Alike .unplaced names names
      (selectionsFrom env (selections env) frame node index (.fragment condition body :: post))
      (selectionsFrom env (selections env) frame node index (body ++ post)) := by
  have hd := restores_selections env
  have hshadows : Shadows .unplaced (fun _ => True) (fun _ => True) names names
      (selectionsFrom env (selections env) frame node index (.fragment condition body :: post))
      (selectionsFrom env (selections env) frame node index (body ++ post)) := by
    refine shadows_flattened hd hd (fun _ => h) ?_ ?_
    · rw [selections_eq]
      exact (alike_selectionsFrom_elsewhere _ _ _ _ _ body).shadows
    · exact (alike_selectionsFrom_elsewhere _ _ _ _ _ post).shadows
  exact hshadows ⟨fun _ _ => trivial, fun _ _ => trivial⟩

theorem collect_flattened {condition : Option Name}
    (h : env.schema.Transparent condition frame.type) (expanding : List Name) (root : RootNode)
    (pre body post : List Selection) :
    (env.collect frame expanding
        (root.withSelections (pre ++ [.fragment condition body] ++ post))).SameUnplaced
      (env.collect frame expanding (root.withSelections (pre ++ body ++ post))) := by
  have hd := restores_selections env
  have halike : Alike .unplaced expanding expanding
      (selections env frame .single (pre ++ [.fragment condition body] ++ post))
      (selections env frame .single (pre ++ body ++ post)) := by
    rw [selections_eq, selections_eq, List.append_assoc, List.append_assoc,
      selectionsFrom_append _ _ _ _ _ pre, selectionsFrom_append _ _ _ _ _ pre]
    refine (alike_selectionsFrom_elsewhere _ _ _ _ _ pre).bind (restores_selectionsFrom hd _ _ _ _)
      (restores_selectionsFrom hd _ _ _ _) fun found => ?_
    exact (alike_flattened h _ _ body post).bind (restores_selectionsFrom hd _ _ _ _)
      (restores_selectionsFrom hd _ _ _ _) fun later => alike_pure _
  unfold Env.collect
  rw [RootNode.selections_withSelections, RootNode.selections_withSelections]
  exact ⟨(Comparison.outcome_unplaced_iff.1 halike.outcome).symm,
    (hd _ _ _ expanding).trans (hd _ _ _ expanding).symm, halike.events.1.symm,
    halike.events.2.symm⟩

/-- Fragments in one another, each of which is read in place. The induction takes off the outermost
    one first. -/
theorem collect_nested {conditions : List (Option Name)}
    (h : ∀ condition ∈ conditions, env.schema.Transparent condition frame.type)
    (expanding : List Name) (root : RootNode) (pre body post : List Selection) :
    (env.collect frame expanding
        (root.withSelections (pre ++ Selection.nested conditions body ++ post))).SameUnplaced
      (env.collect frame expanding (root.withSelections (pre ++ body ++ post))) := by
  induction conditions with
  | nil => exact ⟨rfl, rfl, rfl, rfl⟩
  | cons condition conditions ih =>
      obtain ⟨hcondition, hconditions⟩ := List.forall_mem_cons.1 h
      exact (collect_flattened hcondition expanding root pre _ post).trans (ih hconditions)

end

/-! ## Whole computations -/

section

variable {schema : Schema} {fragments fragments' : FragmentTable} {hooks : Hooks}
  {flat : Address → Prop} {frame : Frame} {node : Address}

/-- What has to be known of the visits: what may be flattened is read in place. -/
def FlatTransparent (schema : Schema) (flat : Address → Prop) (v : Visit) : Prop :=
  flat v.node → v.Transparent schema

/-- One level deeper, all that has a smaller bound is shadowed by what is flattened, wherever that
    stands. -/
def FlattenedBelow (schema : Schema) (fragments fragments' : FragmentTable) (hooks : Hooks)
    (flat : Address → Prop) (bound : Nat) : Prop :=
  ∀ names frame node node' index' ss ss', depthBound fragments names ss < bound →
    Selection.Flattens flat node 0 ss ss' →
    Shadows .unplaced (FlatTransparent schema flat) (fun _ => True) names names
      (selections ⟨schema, fragments, hooks⟩ frame node ss)
      (selectionsFrom ⟨schema, fragments', hooks⟩ (selections ⟨schema, fragments', hooks⟩) frame
        node' index' ss')

theorem FlattenedBelow.selections {bound : Nat}
    (h : FlattenedBelow schema fragments fragments' hooks flat bound) {ss ss' : List Selection}
    (hlt : depthBound fragments names ss < bound) (hflattens : Selection.Flattens flat node 0 ss ss')
    (frame : Frame) (node' : Address) :
    Shadows .unplaced (FlatTransparent schema flat) (fun _ => True) names names
      (selections ⟨schema, fragments, hooks⟩ frame node ss)
      (selections ⟨schema, fragments', hooks⟩ frame node' ss') := by
  rw [selections_eq ⟨schema, fragments', hooks⟩]
  exact h names frame node node' 0 ss ss' hlt hflattens

/-- A selection that is not flattened itself, given that all with a smaller bound are shadowed. -/
theorem shadows_pathsOf_flattened (htable : fragments.Flattens flat fragments')
    {ss : List Selection}
    (hbelow : FlattenedBelow schema fragments fragments' hooks flat (depthBound fragments names ss))
    {s s' : Selection} (hs : s ∈ ss) (hsame : s.SameUpTo (Selection.Flattens flat node 0) s')
    (node' : Address) :
    Shadows .unplaced (FlatTransparent schema flat) (fun _ => True) names names
      (pathsOf ⟨schema, fragments, hooks⟩ (selections ⟨schema, fragments, hooks⟩) frame node s)
      (pathsOf ⟨schema, fragments', hooks⟩ (selections ⟨schema, fragments', hooks⟩) frame node'
        s') := by
  have hd := restores_selections ⟨schema, fragments, hooks⟩
  have hd' := restores_selections ⟨schema, fragments', hooks⟩
  have hp := Comparison.unplaced_samePlace
  refine shadows_pathsOf hsame (hp _ _) hd hd' (.inl fun _ _ => trivial) ?_ fun name => ?_
  · intro inner below below' hdepth hflattens
    exact hbelow.selections (depthBound_inside_lt hs hdepth) hflattens inner node'
  · refine shadows_spread (hp _ _) (fun _ => htable _) ?_
    rintro definition definition' hfind hmem ⟨hcondition, hbody⟩
    rw [← hcondition]
    refine shadows_enterFragment (hp _ _) hd hd' (.inl fun _ _ => trivial) (fun _ => rfl)
      (fun _ => rfl) fun inner _ => ?_
    exact hbelow.selections (depthBound_definition_lt hfind hmem) hbody inner _

/-- Selections, given that all with a smaller bound are shadowed. The induction is on how they are
    flattened. -/
theorem shadows_selectionsFrom_flattened (htable : fragments.Flattens flat fragments')
    {ss : List Selection}
    (hbelow : FlattenedBelow schema fragments fragments' hooks flat (depthBound fragments names ss))
    {index : Nat} {rest rest' : List Selection}
    (hflattens : Selection.Flattens flat node index rest rest') (hrest : rest ⊆ ss)
    (node' : Address) (index' : Nat) :
    Shadows .unplaced (FlatTransparent schema flat) (fun _ => True) names names
      (selectionsFrom ⟨schema, fragments, hooks⟩ (selections ⟨schema, fragments, hooks⟩) frame node
        index rest)
      (selectionsFrom ⟨schema, fragments', hooks⟩ (selections ⟨schema, fragments', hooks⟩) frame
        node' index' rest') := by
  have hd := restores_selections ⟨schema, fragments, hooks⟩
  have hd' := restores_selections ⟨schema, fragments', hooks⟩
  induction hflattens generalizing index' with
  | nil => exact (alike_pure _).shadows
  | leaf _ ih =>
      obtain ⟨hs, hrest⟩ := List.cons_subset.1 hrest
      exact shadows_selectionsFrom_cons hd hd' ⟨rfl, rfl⟩
        (fun _ => shadows_pathsOf_flattened htable hbelow hs .leaf _) (ih hrest _)
  | branch hbranch _ _ ih =>
      obtain ⟨hs, hrest⟩ := List.cons_subset.1 hrest
      exact shadows_selectionsFrom_cons hd hd' ⟨rfl, rfl⟩
        (fun _ => shadows_pathsOf_flattened htable hbelow hs (.branch hbranch) _) (ih hrest _)
  | spread _ ih =>
      obtain ⟨hs, hrest⟩ := List.cons_subset.1 hrest
      exact shadows_selectionsFrom_cons hd hd' ⟨rfl, rfl⟩
        (fun _ => shadows_pathsOf_flattened htable hbelow hs .spread _) (ih hrest _)
  | fragment hbody _ _ ih =>
      obtain ⟨hs, hrest⟩ := List.cons_subset.1 hrest
      exact shadows_selectionsFrom_cons hd hd' ⟨rfl, rfl⟩
        (fun _ => shadows_pathsOf_flattened htable hbelow hs (.fragment hbody) _) (ih hrest _)
  | flattened hflat hbody _ _ ih =>
      obtain ⟨hs, hrest⟩ := List.cons_subset.1 hrest
      refine shadows_flattened hd hd' (fun hv => hv hflat) ?_ (ih hrest _)
      exact hbelow names frame _ _ _ _ _ (depthBound_fragment_lt hs) hbody
  | other _ ih =>
      obtain ⟨hs, hrest⟩ := List.cons_subset.1 hrest
      exact shadows_selectionsFrom_cons hd hd' ⟨rfl, rfl⟩
        (fun _ => shadows_pathsOf_flattened htable hbelow hs .other _) (ih hrest _)

/-- **A walk is the same when it is flattened**, by induction on its depth bound. -/
theorem flattenedBelow (htable : fragments.Flattens flat fragments') (bound : Nat) :
    FlattenedBelow schema fragments fragments' hooks flat bound := by
  induction bound with
  | zero => exact fun _ _ _ _ _ _ _ hlt => absurd hlt (Nat.not_lt_zero _)
  | succ bound ih =>
      intro names frame node node' index' ss ss' hlt hflattens
      have hbelow : FlattenedBelow schema fragments fragments' hooks flat
          (depthBound fragments names ss) :=
        fun names' frame' inner inner' position below below' hless =>
          ih names' frame' inner inner' position below below' (by omega)
      rw [selections_eq]
      exact shadows_selectionsFrom_flattened htable hbelow hflattens (List.Subset.refl ss) _ _

theorem shadows_mergeRoots_flattened (htable : fragments.Flattens flat fragments') (type : Name)
    {index : Nat} {roots roots' : List RootNode}
    (hroots : RootNode.Flattens flat index roots roots') (found : OrderedSet String) :
    Shadows .unplaced (FlatTransparent schema flat) (fun _ => True) [] []
      (mergeRoots ⟨schema, fragments, hooks⟩ type index roots found)
      (mergeRoots ⟨schema, fragments', hooks⟩ type index roots' found) := by
  induction hroots generalizing found with
  | nil => exact (alike_pure _).shadows
  | cons hroot _ ih =>
      refine ((flattenedBelow htable _).selections (Nat.lt_succ_self _) hroot _ _).bind
        (restores_selections _ _ _ _) (restores_selections _ _ _ _) fun paths _ => ?_
      exact ih (found.update paths)

end

end Walk

/-! ## Transparent fragments -/

/-- **Transparent fragments can be flattened.** Let a fragment be transparent at a type that exists:
    it has no condition, or is on that very type, or is on an abstract type while that type is none.

    A walk at the type comes to the same whether its selections hold the fragment or, in its place,
    what stands in it: the same list of paths, repetitions kept, or the same failure but for the
    node it blames, after the same hook calls and answers but for their nodes, and with the same
    notes. So it does with any chain of transparent fragments in one another.

    A whole computation comes to the same, in this sense, if fragments at any addresses of the nodes
    and of the definitions of named fragments are flattened, provided that each of them is
    transparent whenever it is visited. -/
theorem transparent_fragments_flatten :
    (∀ (env : Env) (frame : Frame) (condition : Option Name),
      env.schema.Transparent condition frame.type →
        ∀ (expanding : List Name) (root : RootNode) (pre body post : List Selection),
          (env.collect frame expanding
              (root.withSelections (pre ++ [.fragment condition body] ++ post))).SameUnplaced
            (env.collect frame expanding (root.withSelections (pre ++ body ++ post)))) ∧
    (∀ (env : Env) (frame : Frame) (conditions : List (Option Name)),
      (∀ condition ∈ conditions, env.schema.Transparent condition frame.type) →
        ∀ (expanding : List Name) (root : RootNode) (pre body post : List Selection),
          (env.collect frame expanding
              (root.withSelections (pre ++ Selection.nested conditions body ++ post))).SameUnplaced
            (env.collect frame expanding (root.withSelections (pre ++ body ++ post)))) ∧
    ∀ (flat : Address → Prop) (fragments fragments' : FragmentTable),
      fragments.Flattens flat fragments' →
        ∀ roots roots' : List RootNode, RootNode.Flattens flat 0 roots roots' →
          ∀ (schema : Schema) (hooks : Option Hooks) (type : Name),
            (∀ v ∈ visitsOf (maskPaths type roots fragments schema hooks).events,
              flat v.node → v.Transparent schema) →
            (maskPaths type roots fragments schema hooks).SameUnplaced
              (maskPaths type roots' fragments' schema hooks) := by
  refine ⟨fun env frame condition h => Walk.collect_flattened h,
    fun env frame conditions h => Walk.collect_nested h, ?_⟩
  intro flat fragments fragments' htable roots roots' hroots schema hooks type hvisits
  have hmask : Walk.Shadows .unplaced (Walk.FlatTransparent schema flat) (fun _ => True) [] []
      (Walk.mask ⟨schema, fragments, hooks.getD .unset⟩ type roots)
      (Walk.mask ⟨schema, fragments', hooks.getD .unset⟩ type roots') :=
    Walk.shadows_mask hroots.length_eq (fun _ => Iff.rfl)
      (Walk.shadows_mergeRoots_flattened htable type hroots .empty)
  obtain ⟨houtcome, htrace, hlog⟩ := hmask ⟨hvisits, fun _ _ => trivial⟩
  exact ⟨(Comparison.outcome_unplaced_iff.1 houtcome).symm, htrace.symm, hlog.symm⟩

/-- A fragment on an interface with one on the type itself inside it, and a fragment without condition
    in a definition that the query spreads next to them. -/
theorem transparent_fragments_flatten_of_query :
    let schema : Schema :=
      ⟨[⟨"Query", .object [⟨"user", .named "User", none⟩] [], none⟩,
        ⟨"Node", .interface [⟨"id", .named "ID", none⟩], none⟩,
        ⟨"User", .object [⟨"id", .named "ID", none⟩, ⟨"name", .named "ID", none⟩] ["Node"],
          none⟩]⟩
    let env : Env := ⟨schema, ∅, .unset⟩
    let frame : Frame := ⟨"User", none⟩
    let conditions : List (Option Name) := [some "Node", none, some "User"]
    let body : List Selection := [.leaf "id" none, .leaf "name" none]
    let inner : List Selection := [.leaf "id" none, .fragment (some "User") [.leaf "name" none]]
    let flat (node : Address) : Prop :=
      node ∈ [⟨.root 0, [0, 0]⟩, ⟨.root 0, [0, 0, 1]⟩, ⟨.definition "Parts", [0]⟩]
    let table (ss : List Selection) : FragmentTable := .ofList [("Parts", ⟨"Node", ss⟩)]
    let query (ss : List Selection) : List RootNode :=
      [.operation [.branch "user" none (ss ++ [.spread "Parts"])]]
    let report := maskPaths "Query" (query [.fragment (some "Node") inner])
      (table [.fragment none body]) schema none
    env.schema.Transparent (some "Node") frame.type ∧
      (∀ condition ∈ conditions, env.schema.Transparent condition frame.type) ∧
      (table [.fragment none body]).Flattens flat (table body) ∧
      RootNode.Flattens flat 0 (query [.fragment (some "Node") inner]) (query body) ∧
      (∀ v ∈ visitsOf report.events, flat v.node → v.Transparent schema) ∧
      report.outcome = .ok ["user.id", "user.name"] ∧
      (env.collect frame [] (.operation ([] ++ [.fragment (some "Node") body] ++ body))).SameUnplaced
        (env.collect frame [] (.operation ([] ++ body ++ body))) ∧
      (env.collect frame []
          (.operation ([] ++ Selection.nested conditions body ++ body))).SameUnplaced
        (env.collect frame [] (.operation ([] ++ body ++ body))) ∧
      report.SameUnplaced (maskPaths "Query" (query body) (table body) schema none) := by
  intro schema env frame conditions body inner flat table query report
  have hnode : env.schema.Transparent (some "Node") frame.type := by decide +kernel
  have hconditions : ∀ condition ∈ conditions, env.schema.Transparent condition frame.type := by
    decide +kernel
  have htable : (table [.fragment none body]).Flattens flat (table body) := by
    refine FragmentTable.Flattens.empty.insert ⟨rfl, ?_⟩
    exact .flattened (by decide) (.leaf (.leaf .nil)) .nil
  have hroots : RootNode.Flattens flat 0 (query [.fragment (some "Node") inner]) (query body) := by
    have hinner : Selection.Flattens flat ⟨.root 0, [0, 0]⟩ 0 inner body :=
      .leaf (.flattened (by decide) (.leaf .nil) .nil)
    have hbelow : Selection.Flattens flat ⟨.root 0, [0]⟩ 0
        [.fragment (some "Node") inner, .spread "Parts"] (body ++ [.spread "Parts"]) :=
      .flattened (by decide) hinner (.spread .nil)
    exact .cons (.branch hbelow .nil) .nil
  have hvisits : ∀ v ∈ visitsOf report.events, flat v.node → v.Transparent schema := by
    decide +kernel
  obtain ⟨hsingle, hchain, hmask⟩ := transparent_fragments_flatten
  exact ⟨hnode, hconditions, htable, hroots, hvisits, by decide +kernel,
    hsingle env frame _ hnode [] (.operation []) [] body body,
    hchain env frame _ hconditions [] (.operation []) [] body body,
    hmask flat _ _ htable _ _ hroots schema none "Query" hvisits⟩

end SelectionMask
