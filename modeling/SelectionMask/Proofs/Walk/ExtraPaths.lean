import SelectionMask.Proofs.Hooks.Supplements
import SelectionMask.Proofs.Walk.Roots

set_option autoImplicit false

/-! # Extra paths only add

The hook for extra paths is called before anything else is done about a field, and what it gives is
put in front of the paths of the field. So a walk with the hook takes the steps of the walk without
it, fails where that one fails, and comes to the same list with extra paths put in behind the names
and segments on the way up.

`Walk.Supplements` says this of two walks. What counts as an extra path is given from outside and has
to include all that the hook gives at its calls in the second walk; in the end it is just that. -/

namespace SelectionMask

variable {α β γ δ : Type}

/-- Related values, or the same failure. -/
def RelatedOutcomes (related : α → β → Prop) : Except Failure α → Except Failure β → Prop
  | .ok a, .ok b => related a b
  | .error failure, .error failure' => failure = failure'
  | _, _ => False

namespace RelatedOutcomes

variable {related : α → β → Prop} {related' : γ → δ → Prop} {o : Except Failure α}
  {o' : Except Failure β}

theorem error_iff (h : RelatedOutcomes related o o') (failure : Failure) :
    o' = .error failure ↔ o = .error failure := by
  cases o <;> cases o'
  · obtain rfl : _ = _ := h
    simp
  · exact h.elim
  · exact h.elim
  · simp

theorem exists_ok (h : RelatedOutcomes related o o') {a : α} (ho : o = .ok a) :
    ∃ b, o' = .ok b ∧ related a b := by
  obtain rfl := ho
  cases o' with
  | error failure => exact h.elim
  | ok b => exact ⟨b, rfl, h⟩

theorem map (h : RelatedOutcomes related o o') {f : α → γ} {g : β → δ}
    (hmap : ∀ a b, related a b → related' (f a) (g b)) :
    RelatedOutcomes related' (o.map f) (o'.map g) := by
  cases o <;> cases o'
  · exact h
  · exact h.elim
  · exact h.elim
  · exact hmap _ _ h

/-- Values that are equal whenever they are related. -/
theorem eq {o o' : Except Failure α} {related : α → α → Prop} (h : RelatedOutcomes related o o')
    (heq : ∀ a b, related a b → a = b) : o' = o := by
  cases o <;> cases o'
  · exact congrArg Except.error h.symm
  · exact h.elim
  · exact h.elim
  · exact congrArg Except.ok (heq _ _ h).symm

end RelatedOutcomes

/-- The text is among those that the hook gives at one of its calls. -/
def GivenAmong (hook : ExtraHook) (events : List Event) (extra : String) : Prop :=
  ∃ site node given, .extraPathsAsked site node ∈ traceOf events ∧ hook site = .ok given ∧
    extra ∈ given

theorem GivenAmong.append_left {hook : ExtraHook} {events : List Event} {extra : String}
    (h : GivenAmong hook events extra) (later : List Event) :
    GivenAmong hook (events ++ later) extra := by
  obtain ⟨site, node, given, hcall, hgiven, hextra⟩ := h
  refine ⟨site, node, given, ?_, hgiven, hextra⟩
  rw [traceOf_append]
  exact List.mem_append_left _ hcall

theorem GivenAmong.append_right {hook : ExtraHook} {events : List Event} {extra : String}
    (h : GivenAmong hook events extra) (earlier : List Event) :
    GivenAmong hook (earlier ++ events) extra := by
  obtain ⟨site, node, given, hcall, hgiven, hextra⟩ := h
  refine ⟨site, node, given, ?_, hgiven, hextra⟩
  rw [traceOf_append]
  exact List.mem_append_right _ hcall

/-- The environment with another hook for extra paths, or without one. -/
def Env.withExtraPaths (env : Env) (hook : Option ExtraHook) : Env :=
  { env with hooks := env.hooks.change (.extraPaths hook) }

namespace Walk

variable {hook : ExtraHook} {extras : String → Prop} {names : List Name}

/-- The second walk fails just like the first one, or their values are related, provided that all
    texts which the hook gives in the second walk count as extra paths. -/
def Supplements (hook : ExtraHook) (extras : String → Prop) (related : α → β → Prop)
    (names : List Name) (w : Walk α) (w' : Walk β) : Prop :=
  (∀ extra, GivenAmong hook (w'.run names).events extra → extras extra) →
    RelatedOutcomes related (w.run names).outcome (w'.run names).outcome

/-! ## Single steps -/

section

variable {related : α → β → Prop} {related' : γ → δ → Prop}

theorem supplements_pure {a : α} {b : β} (h : related a b) :
    Supplements hook extras related names (pure a) (pure b) :=
  fun _ => h

theorem supplements_fail (failure : Failure) :
    Supplements hook extras related names (fail failure) (fail failure) :=
  fun _ => rfl

theorem supplements_hooked (given : Except String α) :
    Supplements hook extras Eq names (hooked given) (hooked given) := by
  cases given with
  | ok a => exact supplements_pure rfl
  | error text => exact supplements_fail _

/-- Only what the walks do from the given names is compared. -/
theorem Supplements.congr {v w : Walk α} {v' w' : Walk β} (hv : w.run names = v.run names)
    (hv' : w'.run names = v'.run names) (h : Supplements hook extras related names v v') :
    Supplements hook extras related names w w' := by
  unfold Supplements
  rw [hv, hv']
  exact h

/-- What the hook gives in a sequence it gives in one of its parts. -/
theorem Supplements.bind {w : Walk α} {w' : Walk β} {f : α → Walk γ} {f' : β → Walk δ}
    (h : Supplements hook extras related names w w') (hw : w.Restores) (hw' : w'.Restores)
    (hf : ∀ a b, related a b → Supplements hook extras related' names (f a) (f' b)) :
    Supplements hook extras related' names (w >>= f) (w' >>= f') := by
  intro hgiven
  rw [hw.outcome_bind, hw'.outcome_bind]
  rcases hrun : w'.run names with ⟨failure' | b, left, events⟩
  · have hfirst := h fun extra hextra => hgiven extra <| by
      rw [run_bind_of_error hrun]
      rwa [hrun] at hextra
    rw [hrun] at hfirst
    rw [(hfirst.error_iff failure').1 rfl]
    rfl
  · obtain rfl : left = names := by simpa [hrun] using hw' names
    rw [run_bind_of_ok hrun] at hgiven
    have hfirst := h fun extra hextra => hgiven extra <| by
      rw [hrun] at hextra
      exact hextra.append_left _
    rw [hrun] at hfirst
    cases houtcome : (w.run left).outcome with
    | error failure =>
        rw [houtcome] at hfirst
        exact hfirst.elim
    | ok a =>
        rw [houtcome] at hfirst
        exact hf a b hfirst fun extra hextra => hgiven extra (hextra.append_right _)

theorem supplements_emit_bind {e e' : Event} {f : Unit → Walk γ} {f' : Unit → Walk δ}
    (hf : Supplements hook extras related' names (f ()) (f' ())) :
    Supplements hook extras related' names (emit e >>= f) (emit e' >>= f') := by
  have hevents : Supplements hook extras (fun _ _ => True) names (emit e) (emit e') :=
    fun _ => trivial
  exact hevents.bind (restores_emit e) (restores_emit e') fun _ _ _ => hf

theorem Supplements.within {body : Walk α} {body' : Walk β} {name : Name}
    (h : Supplements hook extras related (names ++ [name]) body body') :
    Supplements hook extras related names (within name body) (within name body') :=
  h

/-- Errors of the query are caught on both sides or on neither. -/
theorem Supplements.caught {w : Walk α} {w' : Walk β}
    (h : Supplements hook extras related names w w') :
    Supplements hook extras
      (fun r r' => (∃ a b, r = .ok a ∧ r' = .ok b ∧ related a b) ∨
        ∃ error, r = .error error ∧ r' = .error error)
      names w.caught w'.caught := by
  intro hgiven
  have hrelated := h hgiven
  rw [run_caught, run_caught]
  rcases hrun : (w.run names).outcome with failure | a <;>
    rcases hrun' : (w'.run names).outcome with failure' | b <;> rw [hrun, hrun'] at hrelated
  · obtain rfl : failure = failure' := hrelated
    cases failure with
    | mask error blamed => exact .inr ⟨error, rfl, rfl⟩
    | _ => exact rfl
  · exact hrelated.elim
  · exact hrelated.elim
  · exact .inl ⟨a, b, rfl, rfl, hrelated⟩

end

/-- The strategies are followed step by step, the members being supplemented at every request. -/
theorem Supplements.follow {members members' : Walk (List String)}
    (h : Supplements hook extras (Supplemented extras) names members members')
    (hm : members.Restores) (hm' : members'.Restores) {s s' : Strategy}
    (hs : s.Supplements extras s') :
    Supplements hook extras (Supplemented extras) names (s.follow members)
      (s'.follow members') := by
  induction hs with
  | answer hpaths => exact supplements_pure hpaths
  | refuse => exact supplements_fail _
  | ask _ ih => exact h.bind hm hm' ih
  | attempt _ _ ihn ihh =>
      rw [Strategy.follow_attempt, Strategy.follow_attempt]
      refine h.caught.bind hm.caught hm'.caught ?_
      rintro _ _ (⟨paths, paths', rfl, rfl, hpaths⟩ | ⟨error, rfl, rfl⟩)
      · exact ihn paths paths' hpaths
      · exact ihh error

/-! ## Fields and fragments -/

section

variable {env : Env} {descend descend' : Descend} {node : Address}

/-- The deeper walks are supplemented. -/
def SupplementsBelow (hook : ExtraHook) (extras : String → Prop) (descend descend' : Descend) :
    Prop :=
  ∀ names frame node ss, Supplements hook extras (Supplemented extras) names
    (descend frame node ss) (descend' frame node ss)

/-- The only step at which the walks differ. -/
theorem supplements_extraPathsOf (hgives : ∀ site, ∃ given, hook site = .ok given)
    (site : FieldSite) (node : Address) :
    Supplements hook extras (fun extra extra' => extra = [] ∧ ∀ path ∈ extra', extras path) names
      (extraPathsOf (env.withExtraPaths none) site node)
      (extraPathsOf (env.withExtraPaths (some hook)) site node) := by
  intro hgiven
  obtain ⟨given, hsite⟩ := hgives site
  have hrun : (extraPathsOf (env.withExtraPaths (some hook)) site node).run names
      = ⟨.ok given, names, [.hook (.extraPathsAsked site node)]⟩ := by
    change (emit _ >>= fun _ => hooked (hook site)).run names = _
    rw [hsite]
    rfl
  rw [hrun] at hgiven ⊢
  exact ⟨rfl, fun path hpath => hgiven path ⟨site, node, given, List.mem_cons_self, hsite, hpath⟩⟩

theorem supplements_namesOf (site : FieldSite) (node : Address) :
    Supplements hook extras Eq names (namesOf (env.withExtraPaths none) site node)
      (namesOf (env.withExtraPaths (some hook)) site node) := by
  change Supplements hook extras Eq names (namesOf env site node) (namesOf env site node)
  unfold namesOf
  cases env.hooks.fieldNames with
  | none => exact supplements_pure rfl
  | some nameHook =>
      refine supplements_emit_bind ?_
      refine (supplements_hooked _).bind (restores_hooked _) (restores_hooked _) ?_
      rintro given _ rfl
      exact supplements_pure rfl

theorem supplements_pathsBelow (hd : descend.Restores) (hd' : descend'.Restores)
    (hbelow : SupplementsBelow hook extras descend descend') (definition : FieldDef)
    (node : Address) (given : List String) (ss : Option (List Selection)) :
    Supplements hook extras (Supplemented extras) names
      (pathsBelow descend definition node given ss)
      (pathsBelow descend' definition node given ss) := by
  cases ss with
  | none => exact supplements_pure (.refl extras given)
  | some ss =>
      refine (hbelow names _ node ss).bind (hd _ _ _) (hd' _ _ _) fun below below' hpaths => ?_
      exact supplements_pure (hpaths.joinAll given)

theorem supplements_field (hgives : ∀ site, ∃ given, hook site = .ok given) (hd : descend.Restores)
    (hd' : descend'.Restores) (hbelow : SupplementsBelow hook extras descend descend')
    (type : Name) (node : Address) (name : Name) (aliasName : Option String)
    (ss : Option (List Selection)) :
    Supplements hook extras (Supplemented extras) names
      (field (env.withExtraPaths none) descend type node name aliasName ss)
      (field (env.withExtraPaths (some hook)) descend' type node name aliasName ss) := by
  by_cases hname : name = typenameField
  · rw [field, field, if_pos hname, if_pos hname]
    exact supplements_pure .nil
  · cases hfound : env.schema.fieldNamed type name with
    | error error =>
        have hfailed (given : Option ExtraHook) :
            (env.withExtraPaths given).schema.fieldNamed type name = .error error := hfound
        rw [field_of_error hname (hfailed none), field_of_error hname (hfailed (some hook))]
        exact supplements_fail _
    | ok definition =>
        have hdefined (given : Option ExtraHook) :
            (env.withExtraPaths given).schema.fieldNamed type name = .ok definition := hfound
        rw [field_of_found hname (hdefined none), field_of_found hname (hdefined (some hook))]
        refine (supplements_extraPathsOf hgives _ node).bind (restores_extraPathsOf _ _)
          (restores_extraPathsOf _ _) ?_
        rintro _ extra' ⟨rfl, hextra⟩
        refine (supplements_namesOf _ node).bind (restores_namesOf _ _) (restores_namesOf _ _) ?_
        rintro given _ rfl
        cases given with
        | none =>
            have hadded : Supplemented extras [] (extra' ++ []) := .extra_append hextra .nil
            rw [List.append_nil] at hadded
            exact supplements_emit_bind (supplements_pure hadded)
        | some given =>
            refine (supplements_pathsBelow hd hd' hbelow definition node given ss).bind
              (restores_pathsBelow hd _ _ _ _) (restores_pathsBelow hd' _ _ _ _)
              fun paths paths' hpaths => ?_
            exact supplements_pure (.extra_append hextra hpaths)

theorem supplements_narrow (hd : descend.Restores) (hd' : descend'.Restores)
    (hbelow : SupplementsBelow hook extras descend descend') {members : NarrowingHook}
    {n : Narrowing} (hadditive : (members n).Additive) (node : Address) (ss : List Selection) :
    Supplements hook extras (Supplemented extras) names (narrow descend members n node ss)
      (narrow descend' members n node ss) := by
  refine supplements_emit_bind ?_
  refine Supplements.follow ?_ (restores_memberPaths hd n node ss)
    (restores_memberPaths hd' n node ss) (hadditive extras)
  refine (hbelow names _ node ss).bind (hd _ _ _) (hd' _ _ _) fun paths paths' hpaths => ?_
  exact supplements_emit_bind (supplements_pure hpaths)

theorem supplements_enterFragment (hadditive : env.hooks.Additive) (hd : descend.Restores)
    (hd' : descend'.Restores) (hbelow : SupplementsBelow hook extras descend descend')
    (frame : Frame) (condition : Name) (node : Address) (ss : List Selection) :
    Supplements hook extras (Supplemented extras) names
      (enterFragment (env.withExtraPaths none) descend frame condition node ss)
      (enterFragment (env.withExtraPaths (some hook)) descend' frame condition node ss) := by
  cases htarget : env.schema.type? condition with
  | none =>
      have hnone (given : Option ExtraHook) :
          (env.withExtraPaths given).schema.type? condition = none := htarget
      rw [enterFragment_of_unknown (hnone none), enterFragment_of_unknown (hnone (some hook))]
      exact supplements_fail _
  | some target =>
      have hsome (given : Option ExtraHook) :
          (env.withExtraPaths given).schema.type? condition = some target := htarget
      cases hcurrent : env.schema.type? frame.type with
      | none =>
          rw [enterFragment_of_unknown_current (hsome none) hcurrent,
            enterFragment_of_unknown_current (hsome (some hook)) hcurrent]
          exact supplements_fail _
      | some current =>
          rw [enterFragment_of_known (hsome none) hcurrent,
            enterFragment_of_known (hsome (some hook)) hcurrent]
          split
          · split
            · exact hbelow names frame node ss
            · cases hmembers : env.hooks.narrowing with
              | none =>
                  have hunset (given : Option ExtraHook) :
                      (env.withExtraPaths given).hooks.narrowing = none := hmembers
                  rw [hunset none, hunset (some hook)]
                  exact supplements_emit_bind (supplements_pure .nil)
              | some members =>
                  have hset (given : Option ExtraHook) :
                      (env.withExtraPaths given).hooks.narrowing = some members := hmembers
                  rw [hset none, hset (some hook)]
                  cases frame.enclosing with
                  | none => exact supplements_fail _
                  | some definition =>
                      exact supplements_narrow hd hd' hbelow (hadditive members hmembers _) node ss
          · split
            · exact supplements_emit_bind (supplements_pure .nil)
            · exact hbelow names frame node ss

/-! ## Selections -/

theorem supplements_pathsOf (hgives : ∀ site, ∃ given, hook site = .ok given)
    (hadditive : env.hooks.Additive) (hd : descend.Restores) (hd' : descend'.Restores)
    (hbelow : SupplementsBelow hook extras descend descend') (frame : Frame) (node : Address)
    (s : Selection) :
    Supplements hook extras (Supplemented extras) names
      (pathsOf (env.withExtraPaths none) descend frame node s)
      (pathsOf (env.withExtraPaths (some hook)) descend' frame node s) := by
  cases s with
  | leaf name aliasName => exact supplements_field hgives hd hd' hbelow _ node name aliasName none
  | branch name aliasName below =>
      exact supplements_field hgives hd hd' hbelow _ node name aliasName (some below)
  | fragment condition body =>
      exact supplements_enterFragment hadditive hd hd' hbelow frame _ node body
  | spread name =>
      cases hfind : env.fragments.find? name with
      | none =>
          have hnone (given : Option ExtraHook) :
              (env.withExtraPaths given).fragments.find? name = none := hfind
          rw [pathsOf, pathsOf, spread_of_undefined (hnone none),
            spread_of_undefined (hnone (some hook))]
          exact supplements_fail _
      | some definition =>
          have hsome (given : Option ExtraHook) :
              (env.withExtraPaths given).fragments.find? name = some definition := hfind
          by_cases hmem : name ∈ names
          · refine Supplements.congr (run_spread_of_mem (hsome none) hmem _ _ _)
              (run_spread_of_mem (hsome (some hook)) hmem _ _ _) ?_
            exact supplements_fail _
          · refine Supplements.congr (run_spread_of_notMem (hsome none) hmem _ _ _)
              (run_spread_of_notMem (hsome (some hook)) hmem _ _ _) (Supplements.within ?_)
            exact supplements_enterFragment hadditive hd hd' hbelow frame _ _ definition.selections
  | other kind => exact supplements_fail _

theorem supplements_selectionsFrom (hgives : ∀ site, ∃ given, hook site = .ok given)
    (hadditive : env.hooks.Additive) (hd : descend.Restores) (hd' : descend'.Restores)
    (hbelow : SupplementsBelow hook extras descend descend') (frame : Frame) (node : Address)
    (index : Nat) (ss : List Selection) :
    Supplements hook extras (Supplemented extras) names
      (selectionsFrom (env.withExtraPaths none) descend frame node index ss)
      (selectionsFrom (env.withExtraPaths (some hook)) descend' frame node index ss) := by
  induction ss generalizing index with
  | nil => exact supplements_pure .nil
  | cons s rest ih =>
      have hvisit : Supplements hook extras (fun _ _ => True) names
          (visit frame (node.child index) s) (visit frame (node.child index) s) :=
        fun _ => trivial
      have hfirst := hvisit.bind (restores_visit _ _ _) (restores_visit _ _ _) fun _ _ _ =>
        supplements_pathsOf hgives hadditive hd hd' hbelow frame (node.child index) s
      rw [selectionsFrom_cons, selectionsFrom_cons]
      refine hfirst.bind (restores_selection hd _ _ _) (restores_selection hd' _ _ _)
        fun paths paths' hpaths => ?_
      refine (ih (index + 1)).bind (restores_selectionsFrom hd _ _ _ _)
        (restores_selectionsFrom hd' _ _ _ _) fun others others' hothers => ?_
      exact supplements_pure (hpaths.append hothers)

end

/-! ## Whole walks -/

section

variable {env : Env} (hgives : ∀ site, ∃ given, hook site = .ok given)
  (hadditive : env.hooks.Additive)
include hgives hadditive

theorem supplementsBelow_selectionsUpTo (depth : Nat) :
    SupplementsBelow hook extras (selectionsUpTo (env.withExtraPaths none) depth)
      (selectionsUpTo (env.withExtraPaths (some hook)) depth) := by
  induction depth with
  | zero => exact fun _ _ _ _ => supplements_fail _
  | succ depth ih =>
      exact fun _ frame node ss => supplements_selectionsFrom hgives hadditive
        (restores_selectionsUpTo _ depth) (restores_selectionsUpTo _ depth) ih frame node 0 ss

/-- **A walk is supplemented by the hook for extra paths**, and by nothing else. -/
theorem supplementsBelow_selections :
    SupplementsBelow hook extras (selections (env.withExtraPaths none))
      (selections (env.withExtraPaths (some hook))) :=
  fun names frame node ss =>
    -- The bound does not depend on the hooks.
    supplementsBelow_selectionsUpTo hgives hadditive (depthBound env.fragments names ss) names frame
      node ss

theorem supplements_rootPaths (type : Name) (index : Nat) (roots : List RootNode) :
    Supplements hook extras (Supplemented extras) names
      (rootPaths (env.withExtraPaths none) type index roots)
      (rootPaths (env.withExtraPaths (some hook)) type index roots) := by
  induction roots generalizing index with
  | nil => exact supplements_pure .nil
  | cons root rest ih =>
      refine (supplementsBelow_selections hgives hadditive names _ _ root.selections).bind
        (restores_selections _ _ _ _) (restores_selections _ _ _ _) fun paths paths' hpaths => ?_
      refine (ih (index + 1)).bind (restores_rootPaths _ type rest _)
        (restores_rootPaths _ type rest _) fun others others' hothers => ?_
      exact supplements_pure (hpaths.append hothers)

end

end Walk

/-! ## Lists and masks -/

section

variable {env : Env} {hook : ExtraHook} (hgives : ∀ site, ∃ given, hook site = .ok given)
  (hadditive : env.hooks.Additive)
include hgives hadditive

theorem Env.collect_supplemented (frame : Frame) (expanding : List Name) (root : RootNode) :
    let plain := (env.withExtraPaths none).collect frame expanding root
    let hooked := (env.withExtraPaths (some hook)).collect frame expanding root
    RelatedOutcomes (Supplemented (GivenAmong hook hooked.events)) plain.outcome hooked.outcome :=
  Walk.supplementsBelow_selections hgives hadditive expanding frame .single root.selections
    fun _ => id

/-- A mask is supplemented before later occurrences are erased. -/
theorem Env.mask_supplemented (type : Name) (roots : List RootNode) :
    let plain := (env.withExtraPaths none).mask type roots
    let hooked := (env.withExtraPaths (some hook)).mask type roots
    RelatedOutcomes
      (fun paths paths' => ∃ found found',
        Supplemented (GivenAmong hook hooked.events) found found' ∧
          paths = found.eraseDups ∧ paths' = found'.eraseDups)
      plain.outcome hooked.outcome := by
  intro plain hooked
  have hplain : plain = maskPaths type roots env.fragments env.schema
      (some (env.withExtraPaths none).hooks) := rfl
  have hhooked : hooked = maskPaths type roots env.fragments env.schema
      (some (env.withExtraPaths (some hook)).hooks) := rfl
  cases htype : env.schema.type? type with
  | none =>
      rw [hplain, hhooked, outcome_maskPaths_of_unknown htype, outcome_maskPaths_of_unknown htype]
      exact rfl
  | some t =>
      have hcalls := (observed_maskPaths htype env.fragments
        (some (env.withExtraPaths (some hook)).hooks) roots).1
      have hroots := Walk.supplements_rootPaths hgives hadditive type 0 roots fun extra hextra =>
        show GivenAmong hook hooked.events extra by rwa [GivenAmong, hhooked, hcalls]
      rw [hplain, hhooked, outcome_maskPaths htype, outcome_maskPaths htype]
      exact hroots.map fun found found' hfound => ⟨found, found', hfound, rfl, rfl⟩

end

/-- A hook that gives nothing has given nothing among any events. -/
theorem not_givenAmong_of_nothing {hook : ExtraHook} (h : ∀ site, hook site = .ok [])
    (events : List Event) (extra : String) : ¬ GivenAmong hook events extra := by
  rintro ⟨site, node, given, -, hgiven, hextra⟩
  obtain rfl := Except.ok.inj ((h site).symm.trans hgiven)
  exact List.not_mem_nil hextra

/-- **Extra paths only add.** Take a hook for extra paths that never refuses, and any other hooks of
    which the one for members answers with additive strategies, as all rules do.

    A walk with the hook fails exactly if it fails without it, with the same failure, which blames
    the same node. If it does not fail, the list of paths without the hook is a part of the list with
    it, in the same order, and each path that only the latter has is a text that the hook gave at
    one of its calls, behind a prefix that is empty or ends in a dot. A computation of a mask fails
    in the same cases too, and the set of its paths can only grow, by such paths. A hook that always
    gives nothing changes neither. -/
theorem extra_paths_only_add :
    (∀ rules : HookRules, rules.hooks.Additive) ∧
    ∀ (env : Env) (hook : ExtraHook), env.hooks.Additive →
      (∀ site, ∃ given, hook site = .ok given) →
      (∀ (frame : Frame) (expanding : List Name) (root : RootNode),
        let plain := (env.withExtraPaths none).collect frame expanding root
        let hooked := (env.withExtraPaths (some hook)).collect frame expanding root
        hooked.expanding = plain.expanding ∧
          (∀ failure, hooked.outcome = .error failure ↔ plain.outcome = .error failure) ∧
          (∀ paths, plain.outcome = .ok paths → ∃ paths', hooked.outcome = .ok paths' ∧
            paths.Sublist paths' ∧ ∀ path ∈ paths', path ∉ paths →
              IsSupplement (GivenAmong hook hooked.events) path) ∧
          ((∀ site, hook site = .ok []) → hooked.outcome = plain.outcome)) ∧
      ∀ (type : Name) (roots : List RootNode),
        let plain := (env.withExtraPaths none).mask type roots
        let hooked := (env.withExtraPaths (some hook)).mask type roots
        (∀ failure, hooked.outcome = .error failure ↔ plain.outcome = .error failure) ∧
          (∀ paths, plain.outcome = .ok paths → ∃ paths', hooked.outcome = .ok paths' ∧
            paths ⊆ paths' ∧ ∀ path ∈ paths', path ∉ paths →
              IsSupplement (GivenAmong hook hooked.events) path) ∧
          ((∀ site, hook site = .ok []) → hooked.outcome = plain.outcome) := by
  refine ⟨HookRules.additive, fun env hook hadditive hgives => ⟨?_, ?_⟩⟩
  · intro frame expanding root plain hooked
    have hrelated := Env.collect_supplemented hgives hadditive frame expanding root
    have hplain := Walk.restores_selections (env.withExtraPaths none) frame .single root.selections
    have hhooked := Walk.restores_selections (env.withExtraPaths (some hook)) frame .single
      root.selections
    refine ⟨(hhooked expanding).trans (hplain expanding).symm, hrelated.error_iff, ?_, ?_⟩
    · intro paths hpaths
      obtain ⟨paths', hpaths', hsupplemented⟩ := hrelated.exists_ok hpaths
      refine ⟨paths', hpaths', hsupplemented.sublist, fun path hpath hnew => ?_⟩
      exact (hsupplemented.mem hpath).resolve_left hnew
    · intro hnothing
      exact hrelated.eq fun _ _ h => h.eq_of_none (not_givenAmong_of_nothing hnothing _)
  · intro type roots plain hooked
    have hrelated := Env.mask_supplemented hgives hadditive type roots
    refine ⟨hrelated.error_iff, ?_, ?_⟩
    · intro paths hpaths
      obtain ⟨_, hpaths', found, found', hfound, rfl, rfl⟩ := hrelated.exists_ok hpaths
      refine ⟨_, hpaths', fun path hpath => ?_, fun path hpath hnew => ?_⟩
      · exact List.mem_eraseDups.2 (hfound.sublist.subset (List.mem_eraseDups.1 hpath))
      · refine (hfound.mem (List.mem_eraseDups.1 hpath)).resolve_left fun hold => ?_
        exact hnew (List.mem_eraseDups.2 hold)
    · intro hnothing
      refine hrelated.eq ?_
      rintro _ _ ⟨found, found', hfound, rfl, rfl⟩
      rw [hfound.eq_of_none (not_givenAmong_of_nothing hnothing _)]

/-- Extra paths below a field with two names and below a member whose error is caught, and a hook
    that gives nothing. -/
theorem extra_paths_only_add_of_members :
    let schema : Schema :=
      ⟨[⟨"Query", .object [⟨"node", .named "Node", none⟩] [], none⟩,
        ⟨"Node", .interface [⟨"id", .named "ID", none⟩], none⟩,
        ⟨"User", .object [⟨"id", .named "ID", none⟩] ["Node"], none⟩,
        ⟨"Photo", .object [⟨"size", .named "ID", none⟩] ["Node"], none⟩]⟩
    let rules : HookRules :=
      ⟨some (.table [("node", .value (some (.many ["a", "b"])))] .own), none, some .guarded⟩
    let env : Env := ⟨schema, ∅, rules.hooks⟩
    let hook : ExtraHook := fun site =>
      .ok (if site.field.name = "id" then ["etag"] else if site.field.name = "node" then ["all"]
        else [])
    let nothing : ExtraHook := fun _ => .ok []
    let root : RootNode :=
      .operation [.branch "node" none [.fragment (some "User") [.leaf "id" none],
        .fragment (some "Photo") [.leaf "size" none, .leaf "id" none]]]
    let plain := (env.withExtraPaths none).collect ⟨"Query", none⟩ [] root
    let hooked := (env.withExtraPaths (some hook)).collect ⟨"Query", none⟩ [] root
    let mask := (env.withExtraPaths none).mask "Query" [root]
    let shown := "!UnknownFieldError: Photo.id is not found"
    let paths := ["a.id", "a." ++ shown, "b.id", "b." ++ shown]
    let paths' := ["all", "a.etag", "a.id", "a." ++ shown, "b.etag", "b.id", "b." ++ shown]
    env.hooks.Additive ∧ (∀ site, ∃ given, hook site = .ok given) ∧ plain.outcome = .ok paths ∧
      hooked.outcome = .ok paths' ∧ paths.Sublist paths' ∧
      (∀ path ∈ paths', path ∉ paths → IsSupplement (GivenAmong hook hooked.events) path) ∧
      (∀ site, nothing site = .ok []) ∧
      ((env.withExtraPaths (some nothing)).mask "Query" [root]).outcome = mask.outcome := by
  intro schema rules env hook nothing root plain hooked mask shown paths paths'
  obtain ⟨hrules, hadds⟩ := extra_paths_only_add
  have hgives : ∀ site, ∃ given, hook site = .ok given := fun _ => ⟨_, rfl⟩
  have hnothing : ∀ site, nothing site = .ok [] := fun _ => rfl
  have hplain : plain.outcome = .ok paths := by decide +kernel
  have hhooked : hooked.outcome = .ok paths' := by decide +kernel
  obtain ⟨hcollect, -⟩ := hadds env hook (hrules rules) hgives
  obtain ⟨-, hmask⟩ := hadds env nothing (hrules rules) fun site => ⟨[], hnothing site⟩
  obtain ⟨found, hfound, hsublist, hnew⟩ := (hcollect _ [] root).2.2.1 paths hplain
  obtain rfl : found = paths' := Except.ok.inj (hfound.symm.trans hhooked)
  exact ⟨hrules rules, hgives, hplain, hhooked, hsublist, hnew, hnothing,
    (hmask "Query" [root]).2.2 hnothing⟩

end SelectionMask
