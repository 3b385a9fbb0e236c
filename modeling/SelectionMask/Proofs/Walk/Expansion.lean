import SelectionMask.Proofs.Walk.Mirrors

set_option autoImplicit false

/-! # What the fragments being expanded can change

A walk asks for the fragments that are being expanded at one place only: a spread of one of them is
a cycle, which the walk fails with. So a walk that starts with fewer of them does the same as long
as the other one does not end in a cycle, and in which order or how often they are listed makes no
difference at all.

`Walk.Relaxes` says of two lists of names what a walk has to know of them. It is kept where both get
the same name put last, so the induction on the depth bound carries it through all spreads. A hook
that goes on after a cycle would hide it, and is left out where it matters. -/

namespace SelectionMask

/-- A fragment is spread inside its own expansion. -/
def Failure.IsCycle : Failure → Prop
  | mask (.fragmentCycle _) _ => True
  | _ => False

/-- Two runs with the same outcome, the same hook calls and answers and the same notes. -/
structure Run.SameObserved {α : Type} (r r' : Run α) : Prop where
  outcome : r'.outcome = r.outcome
  trace : traceOf r'.events = traceOf r.events
  log : logOf r'.events = logOf r.events

namespace Walk

variable {E : Failure → Prop} {names names' : List Name}

/-! ## Two lists of names -/

/-- The names of the second list are among those of the first, and nothing but a cycle that is not
    allowed keeps a name from being on both. -/
structure Relaxes (E : Failure → Prop) (names names' : List Name) : Prop where
  subset : names' ⊆ names
  back : ∀ name ∈ names, (∃ blamed, E (.mask (.fragmentCycle name) blamed)) → name ∈ names'

theorem Relaxes.concat (h : Relaxes E names names') (name : Name) :
    Relaxes E (names ++ [name]) (names' ++ [name]) where
  subset := List.append_subset.2
    ⟨List.subset_append_of_subset_left _ h.subset, List.subset_append_right _ _⟩
  back other hother hallowed := by
    rcases List.mem_append.1 hother with hmem | hlast
    · exact List.mem_append_left _ (h.back other hmem hallowed)
    · exact List.mem_append_right _ hlast

section

variable {schema : Schema} {fragments : FragmentTable} {hooks : Hooks} {frame : Frame}
  {node : Address}

/-! ## Selections -/

/-- A spread from either list, given that the definition is shadowed where it is entered. -/
theorem shadows_spread_relaxed {I : Visit → Prop} {descend : Descend}
    (h : Relaxes E names names') {name : Name}
    (hbody : ∀ definition, fragments.find? name = some definition → name ∉ names →
      Shadows .observed I E (names ++ [name]) (names' ++ [name])
        (enterFragment ⟨schema, fragments, hooks⟩ descend frame definition.condition
          (.definition name) definition.selections)
        (enterFragment ⟨schema, fragments, hooks⟩ descend frame definition.condition
          (.definition name) definition.selections)) :
    Shadows .observed I E names names' (spread ⟨schema, fragments, hooks⟩ descend frame node name)
      (spread ⟨schema, fragments, hooks⟩ descend frame node name) := by
  cases hfind : fragments.find? name with
  | none =>
      rw [spread_of_undefined hfind]
      exact (alike_fail (Comparison.failure_refl _ (by simp))).shadows
  | some definition =>
      by_cases hmem : name ∈ names
      · intro hkeeps
        -- The walk ends in a cycle, so that must be allowed.
        have hcycle : E (.mask (.fragmentCycle name) (some node)) :=
          hkeeps.failure _ (congrArg Run.outcome (run_spread_of_mem hfind hmem _ _ _))
        have hmem' : name ∈ names' := h.back name hmem ⟨_, hcycle⟩
        exact Alike.congr (run_spread_of_mem hfind hmem _ _ _)
          (run_spread_of_mem hfind hmem' _ _ _)
          (alike_fail (Comparison.failure_refl _ (by simp)))
      · have hmem' : name ∉ names' := fun hname => hmem (h.subset hname)
        exact Shadows.congr (run_spread_of_notMem hfind hmem _ _ _)
          (run_spread_of_notMem hfind hmem' _ _ _) (Shadows.within (hbody definition hfind hmem))

/-- One level deeper, all that has a smaller bound is shadowed by itself from relaxed names. -/
def RelaxedBelow (schema : Schema) (fragments : FragmentTable) (hooks : Hooks)
    (E : Failure → Prop) (bound : Nat) : Prop :=
  ∀ names names' frame node ss, Relaxes E names names' → depthBound fragments names ss < bound →
    Shadows .observed (fun _ => True) E names names'
      (selections ⟨schema, fragments, hooks⟩ frame node ss)
      (selections ⟨schema, fragments, hooks⟩ frame node ss)

variable (hcatch : (∀ error blamed, E (.mask error blamed)) ∨ hooks.NeverCatch)
  (h : Relaxes E names names')
include hcatch h

/-- One selection: what is walked below it has a smaller bound. -/
theorem shadows_pathsOf_relaxed {ss : List Selection}
    (hbelow : RelaxedBelow schema fragments hooks E (depthBound fragments names ss)) {s : Selection}
    (hs : s ∈ ss) :
    Shadows .observed (fun _ => True) E names names'
      (pathsOf ⟨schema, fragments, hooks⟩ (selections ⟨schema, fragments, hooks⟩) frame node s)
      (pathsOf ⟨schema, fragments, hooks⟩ (selections ⟨schema, fragments, hooks⟩) frame node s) := by
  have hd := restores_selections ⟨schema, fragments, hooks⟩
  refine shadows_pathsOf (.refl s) (.refl _ node) hd hd hcatch ?_ fun name => ?_
  · rintro inner below _ hdepth rfl
    exact hbelow _ _ inner node below h (depthBound_inside_lt hs hdepth)
  · refine shadows_spread_relaxed h fun definition hfind hmem => ?_
    refine shadows_enterFragment (.refl _ _) hd hd hcatch (fun _ => rfl) (fun _ => rfl)
      fun inner _ => ?_
    exact hbelow _ _ inner _ _ (h.concat name) (depthBound_definition_lt hfind hmem)

theorem shadows_selectionsFrom_relaxed {ss : List Selection}
    (hbelow : RelaxedBelow schema fragments hooks E (depthBound fragments names ss)) {index : Nat}
    {rest : List Selection} (hrest : rest ⊆ ss) :
    Shadows .observed (fun _ => True) E names names'
      (selectionsFrom ⟨schema, fragments, hooks⟩ (selections ⟨schema, fragments, hooks⟩) frame node
        index rest)
      (selectionsFrom ⟨schema, fragments, hooks⟩ (selections ⟨schema, fragments, hooks⟩) frame node
        index rest) := by
  have hd := restores_selections ⟨schema, fragments, hooks⟩
  induction rest generalizing index with
  | nil => exact (alike_pure _).shadows
  | cons s rest ih =>
      obtain ⟨hs, hrest⟩ := List.cons_subset.1 hrest
      exact shadows_selectionsFrom_cons hd hd ⟨rfl, rfl⟩
        (fun _ => shadows_pathsOf_relaxed hcatch h hbelow hs) (ih hrest)

end

/-- **A walk does the same from relaxed names**, by induction on its depth bound. -/
theorem shadows_selections_relaxed {env : Env} (h : Relaxes E names names')
    (hcatch : (∀ error blamed, E (.mask error blamed)) ∨ env.hooks.NeverCatch) (frame : Frame)
    (node : Address) (ss : List Selection) :
    Shadows .observed (fun _ => True) E names names' (selections env frame node ss)
      (selections env frame node ss) := by
  obtain ⟨schema, fragments, hooks⟩ := env
  suffices hbound : ∀ bound, RelaxedBelow schema fragments hooks E bound from
    hbound _ names names' frame node ss h (Nat.lt_succ_self _)
  intro bound
  induction bound with
  | zero => exact fun _ _ _ _ _ _ hlt => absurd hlt (Nat.not_lt_zero _)
  | succ bound ih =>
      intro names names' frame node ss h hlt
      have hbelow : RelaxedBelow schema fragments hooks E (depthBound fragments names ss) :=
        fun others others' frame' node' below hothers hless =>
          ih others others' frame' node' below hothers (by omega)
      rw [selections_eq]
      exact shadows_selectionsFrom_relaxed hcatch h hbelow (List.Subset.refl ss)

end Walk

/-! ## Walks of a node -/

theorem Env.collect_relaxed {env : Env} {E : Failure → Prop} {names names' : List Name}
    (h : Walk.Relaxes E names names')
    (hcatch : (∀ error blamed, E (.mask error blamed)) ∨ env.hooks.NeverCatch) {frame : Frame}
    {root : RootNode}
    (hfailure : ∀ failure, (env.collect frame names root).outcome = .error failure → E failure) :
    (env.collect frame names root).SameObserved (env.collect frame names' root) := by
  obtain ⟨ho, htrace, hlog⟩ := Walk.shadows_selections_relaxed h hcatch frame .single
    root.selections ⟨fun _ _ => trivial, hfailure⟩
  exact ⟨(Comparison.eq_of_outcome_observed ho).symm, htrace.symm, hlog.symm⟩

/-- **The fragments being expanded can only cause cycles.** Let no hook catch errors. If a walk of a
    node comes to paths or to a failure that is no cycle while some fragments are being expanded,
    then it comes to the same, after the same hook calls and answers and with the same notes, while
    only some of them are. And whatever hooks do, only the set of the fragments being expanded
    counts, not their order nor how often they are listed. -/
theorem expanding_only_causes_cycles (env : Env) (frame : Frame) (root : RootNode)
    (expanding others : List Name) :
    (others ⊆ expanding → env.hooks.NeverCatch →
      (∀ failure, (env.collect frame expanding root).outcome = .error failure →
        ¬ failure.IsCycle) →
      (env.collect frame expanding root).SameObserved (env.collect frame others root)) ∧
    ((∀ name, name ∈ others ↔ name ∈ expanding) →
      (env.collect frame expanding root).SameObserved (env.collect frame others root)) := by
  constructor
  · intro hsub hcatch hfailure
    have hrelaxes : Walk.Relaxes (fun failure => ¬ failure.IsCycle) expanding others :=
      ⟨hsub, fun _ _ ⟨_, hcycle⟩ => absurd trivial hcycle⟩
    exact Env.collect_relaxed hrelaxes (.inr hcatch) hfailure
  · intro hsame
    have hrelaxes : Walk.Relaxes (fun _ => True) expanding others :=
      ⟨fun name => (hsame name).1, fun name hname _ => (hsame name).2 hname⟩
    exact Env.collect_relaxed hrelaxes (.inl fun _ _ => trivial) fun _ _ => trivial

/-- A fragment that spreads another one inside a member, with others being expanded. One of these is
    spread as well, but where the walk does not come to. -/
theorem expanding_only_causes_cycles_of_members :
    let schema : Schema :=
      ⟨[⟨"Query", .object [⟨"node", .named "Node", none⟩] [], none⟩,
        ⟨"Node", .interface [⟨"id", .named "ID", none⟩], none⟩,
        ⟨"User", .object [⟨"id", .named "ID", none⟩] ["Node"], none⟩]⟩
    let hooks : Hooks := HookRules.hooks ⟨none, none, some (.segments ⟨[], .own⟩)⟩
    let fragments : FragmentTable := .ofList
      [("Nodes", ⟨"Query", [.branch "node" none
        [.fragment (some "User") [.spread "Ids", .fragment (some "Query") [.spread "Outer"]]]]⟩),
        ("Ids", ⟨"User", [.leaf "id" none]⟩), ("Outer", ⟨"Query", [.spread "Nodes"]⟩)]
    let env : Env := ⟨schema, fragments, hooks⟩
    let root : RootNode := .operation [.spread "Nodes"]
    let collect := fun expanding => env.collect ⟨"Query", none⟩ expanding root
    hooks.NeverCatch ∧ ["Outer"] ⊆ ["Other", "Outer", "Other"] ∧
      (collect ["Other", "Outer", "Other"]).outcome = .ok ["node.user.id"] ∧
      (collect ["Other", "Outer", "Other"]).SameObserved (collect ["Outer"]) ∧
      (∀ name, name ∈ ["Nodes", "Other"] ↔ name ∈ ["Other", "Other", "Nodes"]) ∧
      (collect ["Other", "Other", "Nodes"]).SameObserved (collect ["Nodes", "Other"]) := by
  intro schema hooks fragments env root collect
  have hcatch : hooks.NeverCatch := HookRules.neverCatch _ (by simp) (by simp)
  have hsub : ["Outer"] ⊆ ["Other", "Outer", "Other"] := by decide
  have hpaths : (collect ["Other", "Outer", "Other"]).outcome = .ok ["node.user.id"] := by
    decide +kernel
  have hfailure : ∀ failure, (collect ["Other", "Outer", "Other"]).outcome = .error failure →
      ¬ failure.IsCycle := by
    simp [hpaths]
  have hset : ∀ name, name ∈ ["Nodes", "Other"] ↔ name ∈ ["Other", "Other", "Nodes"] := by
    simp [or_comm]
  have hfewer := (expanding_only_causes_cycles env ⟨"Query", none⟩ root _ _).1 hsub hcatch hfailure
  have hlisted := (expanding_only_causes_cycles env ⟨"Query", none⟩ root _ _).2 hset
  exact ⟨hcatch, hsub, hpaths, hfewer, hset, hlisted⟩

end SelectionMask
