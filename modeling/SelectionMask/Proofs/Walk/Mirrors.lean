import SelectionMask.Proofs.Walk.Depth
import SelectionMask.Proofs.Walk.Shadows

set_option autoImplicit false

/-! # Walks that cannot tell two environments apart

`Env.Mirrors` collects what has to be known of the visits of a walk so that the same walk in another
environment does the same: what they look up comes out the same, and where a selection is hidden it
is not read. The selections and the definitions of fragments may differ in hidden places.

By induction on the depth bound, a whole walk is then shadowed (`Env.Mirrors.shadows_selections`),
and so is a whole computation of a mask (`Env.Mirrors.shadows_mask`), up to the visits themselves:
these show the selections, and with them what is hidden. -/

namespace SelectionMask

open Walk

/-! ## What is observed -/

namespace Comparison

/-- The same values or failures, hook calls and answers, and notes. Visits are overlooked. -/
def observed : Comparison where
  failure := finished.failure
  events es es' := traceOf es = traceOf es' ∧ logOf es = logOf es'
  failure_refl := finished.failure_refl
  events_refl _ := ⟨rfl, rfl⟩
  events_append h h' := by
    simp only [traceOf_append, logOf_append, h.1, h.2, h'.1, h'.2, and_self]
  maskError?_eq := finished.maskError?_eq

theorem eq_of_outcome_observed {α : Type} {o o' : Except Failure α} (h : observed.outcome o o') :
    o = o' := by
  cases o <;> cases o'
  · exact congrArg Except.error h.1
  · exact h.elim
  · exact h.elim
  · exact congrArg Except.ok h

end Comparison

/-- Two reports with the same paths or the same failure, the same trace of the hooks and the same
    log. -/
structure Report.SameObserved (r r' : Report) : Prop where
  outcome : r'.outcome = r.outcome
  trace : traceOf r'.events = traceOf r.events
  log : logOf r'.events = logOf r.events

/-! ## Look-ups of a visit -/

namespace Visit

variable {fragments : FragmentTable} {v : Visit} {name : Name}

theorem mem_lookups_field (hs : v.selection.fieldName? = some name) (hname : name ≠ typenameField) :
    .field v.frame.type name ∈ v.lookups fragments := by
  obtain ⟨frame, names, node, s⟩ := v
  cases s <;> cases hs <;> simp [lookups, hname]

theorem mem_lookups_condition {condition : Option Name} {body : List Selection}
    (hs : v.selection = .fragment condition body) :
    .type (conditionAt condition v.frame.type) ∈ v.lookups fragments := by
  simp [lookups, hs]

theorem mem_lookups_spread (hs : v.selection = .spread name) :
    .fragment name ∈ v.lookups fragments := by
  simp [lookups, hs]

theorem mem_lookups_definition (hs : v.selection = .spread name) {definition : Fragment}
    (hfind : fragments.find? name = some definition) :
    .type definition.condition ∈ v.lookups fragments := by
  simp [lookups, hs, hfind]

/-- Whatever fragment is entered, the type at hand is looked up. -/
theorem mem_lookups_current (hs : (∃ condition body, v.selection = .fragment condition body) ∨
      ∃ name definition, v.selection = .spread name ∧ fragments.find? name = some definition) :
    .type v.frame.type ∈ v.lookups fragments := by
  rcases hs with ⟨condition, body, hs⟩ | ⟨name, definition, hs, hfind⟩
  · simp [lookups, hs]
  · simp [lookups, hs, hfind]

end Visit

/-! ## Environments that are the same for a walk -/

/-- What has to be known of the visits of a walk for the same walk in another environment to do the
    same. -/
structure Env.Mirrors (hidden : Address → Prop) (I : Visit → Prop) (E : Failure → Prop)
    (env env' : Env) : Prop where
  hooks : env'.hooks = env.hooks
  /-- What is hidden is not read. -/
  skipped : ∀ {v}, I v → hidden v.node → v.Skipped env
  /-- What is looked up comes out the same if it is found, or if the walk may fail at all. -/
  agrees : ∀ {v l}, I v → l ∈ v.lookups env.fragments → env.Has l ∨ (∃ failure, E failure) →
    l.Agrees hidden env env'
  /-- No failure escapes the condition by being caught. -/
  catches : (∀ error blamed, E (.mask error blamed)) ∨ env.hooks.NeverCatch

namespace Env.Mirrors

variable {hidden : Address → Prop} {I : Visit → Prop} {E : Failure → Prop} {env env' : Env}
  {v : Visit} {name : Name}

section

variable (h : env.Mirrors hidden I E env')
include h

theorem fieldNamed_eq (hv : I v) (hs : v.selection.fieldName? = some name)
    (hname : name ≠ typenameField)
    (hallowed : ∀ error, env.schema.fieldNamed v.frame.type name = .error error →
      E (.mask error (some v.node))) :
    env'.schema.fieldNamed v.frame.type name = env.schema.fieldNamed v.frame.type name := by
  refine h.agrees hv (Visit.mem_lookups_field hs hname) ?_
  cases hfield : env.schema.fieldNamed v.frame.type name with
  | ok definition => exact .inl ⟨definition, hfield⟩
  | error error => exact .inr ⟨_, hallowed error hfield⟩

theorem outline?_eq (failure : Failure) (hv : I v) (hl : .type name ∈ v.lookups env.fragments)
    (hallowed : env.schema.type? name = none → E failure) :
    env'.schema.outline? name = env.schema.outline? name := by
  refine h.agrees hv hl ?_
  cases htype : env.schema.type? name with
  | none => exact .inr ⟨failure, hallowed htype⟩
  | some t => exact .inl (by simp [Env.Has, htype])

theorem find?_rel (failure : Failure) (hv : I v) (hs : v.selection = .spread name)
    (hallowed : env.fragments.find? name = none → E failure) :
    Option.Rel (Fragment.SameOutside hidden name) (env.fragments.find? name)
      (env'.fragments.find? name) := by
  refine h.agrees hv (Visit.mem_lookups_spread hs) ?_
  cases hfind : env.fragments.find? name with
  | none => exact .inr ⟨failure, hallowed hfind⟩
  | some definition => exact .inl (by simp [Env.Has, hfind])

end

/-! ## Selections -/

/-- One level deeper, all that has a smaller bound is shadowed. -/
def ShadowsBelow (hidden : Address → Prop) (I : Visit → Prop) (E : Failure → Prop) (env env' : Env)
    (bound : Nat) : Prop :=
  ∀ names frame node ss ss', depthBound env.fragments names ss < bound →
    Selection.SameOutside hidden node 0 ss ss' →
    Shadows .observed I E names names (selections env frame node ss) (selections env' frame node ss')

variable {frame : Frame} {names : List Name} {node : Address}

section

variable (h : env.Mirrors hidden I E env')
include h

/-- A field, given that what stands below it is shadowed if it is read. -/
theorem shadows_field {s : Selection} (hv : I ⟨frame, names, node, s⟩)
    (hs : s.fieldName? = some name) {aliasName : Option String}
    {ss ss' : Option (List Selection)}
    (hbelow : name ≠ typenameField → ∀ definition extra given,
      env.schema.fieldNamed frame.type name = .ok definition →
      env.hooks.extraPathsAt ⟨frame.type, definition, aliasName⟩ = .ok extra →
      env.hooks.namesAt ⟨frame.type, definition, aliasName⟩ = .ok (some given) →
      Shadows .observed I E names names (pathsBelow (selections env) definition node given ss)
        (pathsBelow (selections env') definition node given ss')) :
    Shadows .observed I E names names
      (field env (selections env) frame.type node name aliasName ss)
      (field env' (selections env') frame.type node name aliasName ss') := by
  have hd := restores_selections env
  have hd' := restores_selections env'
  have hfield := fun hname => h.fieldNamed_eq hv hs hname
  have hhooks := h.hooks
  obtain ⟨schema, fragments, hooks⟩ := env
  obtain ⟨schema', fragments', _⟩ := env'
  obtain rfl := hhooks
  exact Walk.shadows_field (.refl _ _) hd hd' hfield hbelow

/-- The fragment that a visit meets, in place or where it is defined, given that its selections are
    shadowed wherever they are read. -/
theorem shadows_enterFragment {s : Selection} (hv : I ⟨frame, names, node, s⟩) {condition : Name}
    (hcondition : .type condition ∈ Visit.lookups env.fragments ⟨frame, names, node, s⟩)
    (hcurrent : .type frame.type ∈ Visit.lookups env.fragments ⟨frame, names, node, s⟩)
    {inside : List Name} {place : Address} {ss ss' : List Selection}
    (hbelow : ∀ inner, frame.Reads env condition inner →
      Shadows .observed I E inside inside (selections env inner place ss)
        (selections env' inner place ss')) :
    Shadows .observed I E inside inside
      (enterFragment env (selections env) frame condition place ss)
      (enterFragment env' (selections env') frame condition place ss') := by
  have hd := restores_selections env
  have hd' := restores_selections env'
  have htarget := h.outline?_eq (.mask (.unknownType condition) (some place)) hv hcondition
  have htype := h.outline?_eq (.mask (.unknownType frame.type) (some place)) hv hcurrent
  have hcatch := h.catches
  have hhooks := h.hooks
  obtain ⟨schema, fragments, hooks⟩ := env
  obtain ⟨schema', fragments', _⟩ := env'
  obtain rfl := hhooks
  exact Walk.shadows_enterFragment (.refl _ _) hd hd' hcatch htarget htype hbelow

theorem shadows_branch {aliasName : Option String} {below below' : List Selection}
    (hv : I ⟨frame, names, node, .branch name aliasName below⟩)
    (hbelow : ∀ inner, Shadows .observed I E names names (selections env inner node below)
      (selections env' inner node below')) :
    Shadows .observed I E names names
      (field env (selections env) frame.type node name aliasName (some below))
      (field env' (selections env') frame.type node name aliasName (some below')) := by
  refine h.shadows_field hv rfl fun _ definition _ given _ _ _ => ?_
  exact shadows_pathsBelow (hbelow _) (restores_selections env) (restores_selections env') given

theorem shadows_fragment {condition : Option Name} {body body' : List Selection}
    (hv : I ⟨frame, names, node, .fragment condition body⟩)
    (hbelow : ∀ inner, frame.Reads env (conditionAt condition frame.type) inner →
      Shadows .observed I E names names (selections env inner node body)
        (selections env' inner node body')) :
    Shadows .observed I E names names
      (enterFragment env (selections env) frame (conditionAt condition frame.type) node body)
      (enterFragment env' (selections env') frame (conditionAt condition frame.type) node body') :=
  h.shadows_enterFragment hv (Visit.mem_lookups_condition rfl)
    (Visit.mem_lookups_current (.inl ⟨condition, body, rfl⟩)) hbelow

/-- A spread of a fragment, whose definition has a smaller bound than the selections at hand. -/
theorem shadows_spread {ss : List Selection}
    (hbelow : ShadowsBelow hidden I E env env' (depthBound env.fragments names ss))
    (hv : I ⟨frame, names, node, .spread name⟩) :
    Shadows .observed I E names names (spread env (selections env) frame node name)
      (spread env' (selections env') frame node name) := by
  have hfind := h.find?_rel (.mask (.unknownFragment name) (some node)) hv rfl
  have hbody : ∀ definition definition', env.fragments.find? name = some definition →
      name ∉ names → Fragment.SameOutside hidden name definition definition' →
      Shadows .observed I E (names ++ [name]) (names ++ [name])
        (enterFragment env (selections env) frame definition.condition (.definition name)
          definition.selections)
        (enterFragment env' (selections env') frame definition'.condition (.definition name)
          definition'.selections) := by
    rintro definition definition' hdefinition hmem ⟨hcondition, hsame⟩
    rw [← hcondition]
    refine h.shadows_enterFragment hv (Visit.mem_lookups_definition rfl hdefinition)
      (Visit.mem_lookups_current (.inr ⟨name, definition, rfl, hdefinition⟩)) fun inner _ => ?_
    exact hbelow _ inner _ _ _ (depthBound_definition_lt hdefinition hmem) hsame
  have hhooks := h.hooks
  obtain ⟨schema, fragments, hooks⟩ := env
  obtain ⟨schema', fragments', _⟩ := env'
  obtain rfl := hhooks
  exact Walk.shadows_spread (.refl _ _) hfind hbody

/-- A hidden selection: what stands in it is read on neither side. -/
theorem shadows_skipped {s s' : Selection} (hbare : s.bare = s'.bare)
    (hv : I ⟨frame, names, node, s⟩) (hhidden : hidden node) :
    Shadows .observed I E names names (pathsOf env (selections env) frame node s)
      (pathsOf env' (selections env') frame node s') := by
  have hskipped : Visit.Skipped env ⟨frame, names, node, s⟩ := h.skipped hv hhidden
  have hfield : ∀ {name aliasName} {ss ss' : Option (List Selection)},
      s.bare = .leaf name aliasName → s.fieldName? = some name →
      Shadows .observed I E names names
        (field env (selections env) frame.type node name aliasName ss)
        (field env' (selections env') frame.type node name aliasName ss') := by
    intro name aliasName ss ss' hleaf hs
    refine h.shadows_field hv hs fun hname definition extra given hfound hextra hgiven => ?_
    cases hskipped.drops hleaf hname definition hfound extra hextra _ hgiven
  cases s with
  | leaf | branch =>
      cases s' with
      | leaf | branch =>
          obtain ⟨rfl, rfl⟩ := Selection.leaf.inj hbare
          exact hfield rfl rfl
      | _ => cases hbare
  | fragment condition body =>
      cases s' with
      | fragment =>
          obtain ⟨rfl, -⟩ := Selection.fragment.inj hbare
          exact h.shadows_fragment hv fun inner hreads => absurd hreads (hskipped.not_reads inner)
      | _ => cases hbare
  | spread name => exact absurd hskipped Visit.not_skipped_spread
  | other kind => exact absurd hskipped Visit.not_skipped_other

/-- Selections that are the same outside of hidden places, given that all with a smaller bound are
    shadowed. The induction is on how they are the same. -/
theorem shadows_selectionsFrom {ss : List Selection}
    (hbelow : ShadowsBelow hidden I E env env' (depthBound env.fragments names ss)) {index : Nat}
    {rest rest' : List Selection} (hsame : Selection.SameOutside hidden node index rest rest')
    (hrest : rest ⊆ ss) :
    Shadows .observed I E names names
      (selectionsFrom env (selections env) frame node index rest)
      (selectionsFrom env' (selections env') frame node index rest') := by
  have hd := restores_selections env
  have hd' := restores_selections env'
  induction hsame with
  | nil => exact (alike_pure _).shadows
  | leaf _ ih =>
      refine shadows_selectionsFrom_cons hd hd' ⟨rfl, rfl⟩ (fun hv => ?_)
        (ih (List.cons_subset.1 hrest).2)
      exact h.shadows_field hv rfl fun _ _ _ _ _ _ _ => (alike_pure _).shadows
  | branch hbody _ _ ih =>
      obtain ⟨hs, hrest⟩ := List.cons_subset.1 hrest
      refine shadows_selectionsFrom_cons hd hd' ⟨rfl, rfl⟩ (fun hv => ?_) (ih hrest)
      exact h.shadows_branch hv fun inner =>
        hbelow _ inner _ _ _ (depthBound_branch_lt hs) hbody
  | spread _ ih =>
      refine shadows_selectionsFrom_cons hd hd' ⟨rfl, rfl⟩ (fun hv => ?_)
        (ih (List.cons_subset.1 hrest).2)
      exact h.shadows_spread hbelow hv
  | fragment hbody _ _ ih =>
      obtain ⟨hs, hrest⟩ := List.cons_subset.1 hrest
      refine shadows_selectionsFrom_cons hd hd' ⟨rfl, rfl⟩ (fun hv => ?_) (ih hrest)
      exact h.shadows_fragment hv fun inner _ =>
        hbelow _ inner _ _ _ (depthBound_fragment_lt hs) hbody
  | other _ ih =>
      refine shadows_selectionsFrom_cons hd hd' ⟨rfl, rfl⟩ (fun _ => ?_)
        (ih (List.cons_subset.1 hrest).2)
      exact (alike_fail (Comparison.failure_refl _ (by simp))).shadows
  | hidden hhidden hbare _ ih =>
      refine shadows_selectionsFrom_cons hd hd' ⟨rfl, rfl⟩ (fun hv => ?_)
        (ih (List.cons_subset.1 hrest).2)
      exact h.shadows_skipped hbare hv hhidden

/-- **A walk is the same in a mirroring environment**, by induction on its depth bound. -/
theorem shadows_selections (names : List Name) (frame : Frame) (node : Address)
    {ss ss' : List Selection} (hsame : Selection.SameOutside hidden node 0 ss ss') :
    Shadows .observed I E names names (selections env frame node ss)
      (selections env' frame node ss') := by
  suffices hbound : ∀ bound, ShadowsBelow hidden I E env env' bound from
    hbound _ names frame node ss ss' (Nat.lt_succ_self _) hsame
  intro bound
  induction bound with
  | zero => exact fun _ _ _ _ _ hlt => absurd hlt (Nat.not_lt_zero _)
  | succ bound ih =>
      intro names frame node ss ss' hlt hsame
      have hbelow : ShadowsBelow hidden I E env env' (depthBound env.fragments names ss) :=
        fun names' frame' node' below below' hless =>
          ih names' frame' node' below below' (by omega)
      rw [selections_eq, selections_eq]
      exact h.shadows_selectionsFrom hbelow hsame (List.Subset.refl ss)

/-! ## Root nodes -/

theorem shadows_mergeRoots {index : Nat} {roots roots' : List RootNode}
    (hroots : RootNode.SameOutside hidden index roots roots') (type : Name)
    (found : OrderedSet String) :
    Shadows .observed I E [] [] (mergeRoots env type index roots found)
      (mergeRoots env' type index roots' found) := by
  induction hroots generalizing found with
  | nil => exact (alike_pure _).shadows
  | cons hroot _ ih =>
      refine (h.shadows_selections [] ⟨type, none⟩ _ hroot).bind (restores_selections env _ _ _)
        (restores_selections env' _ _ _) fun paths _ => ?_
      exact ih (found.update paths)

/-- **A computation is the same in a mirroring environment**, if the type that it starts at is there
    in both or in neither. -/
theorem shadows_mask {type : Name} {roots roots' : List RootNode}
    (hroots : RootNode.SameOutside hidden 0 roots roots')
    (htype : (env.schema.type? type = none → E (.mask (.unknownType type) none)) →
      env'.schema.outline? type = env.schema.outline? type) :
    Shadows .observed I E [] [] (Walk.mask env type roots) (Walk.mask env' type roots') := by
  refine Walk.shadows_mask hroots.length_eq (fun hallowed => ?_)
    (h.shadows_mergeRoots hroots type .empty)
  have houtline := htype hallowed
  exact ⟨Schema.type?_eq_none_of_outline? houtline, Schema.type?_eq_none_of_outline? houtline.symm⟩

theorem sameObserved {type : Name} {roots roots' : List RootNode}
    (hroots : RootNode.SameOutside hidden 0 roots roots')
    (htype : (env.schema.type? type = none → E (.mask (.unknownType type) none)) →
      env'.schema.outline? type = env.schema.outline? type)
    (hvisits : ∀ v ∈ visitsOf (env.mask type roots).events, I v)
    (hfailure : ∀ failure, (env.mask type roots).outcome = .error failure → E failure) :
    (env.mask type roots).SameObserved (env'.mask type roots') := by
  obtain ⟨ho, htrace, hlog⟩ := h.shadows_mask hroots htype ⟨hvisits, hfailure⟩
  exact ⟨(Comparison.eq_of_outcome_observed ho).symm, htrace.symm, hlog.symm⟩

end

end Env.Mirrors

namespace FragmentTable

variable {hidden : Address → Prop} {fragments fragments' : FragmentTable}

/-- A walk that skips whatever is hidden cannot tell tables apart that differ only there. -/
theorem SameOutside.mirrors (h : fragments.SameOutside hidden fragments') (schema : Schema)
    (hooks : Hooks) :
    Env.Mirrors hidden (fun v => hidden v.node → v.Skipped ⟨schema, fragments, hooks⟩)
      (fun _ => True) ⟨schema, fragments, hooks⟩ ⟨schema, fragments', hooks⟩ where
  hooks := rfl
  skipped := id
  agrees {_ l} _ _ _ := by
    cases l with
    | type name => rfl
    | field owner name => rfl
    | fragment name => exact h name
  catches := .inl fun _ _ => trivial

/-- A table counts only by the definitions that are found in it. -/
theorem sameObserved_of_find?_eq (h : ∀ name, fragments.find? name = fragments'.find? name)
    (type : Name) (roots : List RootNode) (schema : Schema) (hooks : Option Hooks) :
    (maskPaths type roots fragments schema hooks).SameObserved
      (maskPaths type roots fragments' schema hooks) := by
  have hsame : fragments.SameOutside (fun _ => False) fragments' := by
    intro name
    rw [h name]
    exact SameOutside.refl _ fragments' name
  exact (hsame.mirrors schema _).sameObserved (.refl _ 0 roots) (fun _ => rfl)
    (fun _ _ => False.elim) fun _ _ => trivial

end FragmentTable

end SelectionMask
