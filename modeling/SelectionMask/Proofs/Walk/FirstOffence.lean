import SelectionMask.Proofs.Document.Offences
import SelectionMask.Proofs.Schema.Fields
import SelectionMask.Proofs.Walk.Depth
import SelectionMask.Proofs.Walk.Roots

set_option autoImplicit false

/-! # A walk without hooks fails at the first offence

With no hook set, nothing is caught and nothing but the query can be wrong. So a walk succeeds
exactly if nothing that it reaches is wrong, and else it fails as the first wrong selection says
that it meets from left to right and down. `Verdict` says this of an outcome, and each step keeps
it: what a step looks at first stands to the left of what it looks at next. -/

namespace SelectionMask

/-- The outcome is right for what is reached: a success if nothing is wrong with it, else the
    failure of what comes first among all that is wrong. -/
def Verdict (schema : Schema) (fragments : FragmentTable) (reached : List Nat → Visit → Prop)
    {α : Type} : Except Failure α → Prop
  | .ok _ => ∀ place w, reached place w → ¬ w.IsOffending schema fragments
  | .error failure => ∃ place w, reached place w ∧ w.Offends schema fragments failure ∧
      ∀ place' w', reached place' w' → place' < place → ¬ w'.IsOffending schema fragments

namespace Walk

variable {α β : Type} {schema : Schema} {fragments : FragmentTable} {names : List Name}
  {reached reached' : List Nat → Visit → Prop}

/-- The walk comes to the right outcome, unless it is cut short. -/
def Judges (schema : Schema) (fragments : FragmentTable) (reached : List Nat → Visit → Prop)
    (names : List Name) (w : Walk α) : Prop :=
  (w.run names).outcome ≠ .error .exhausted →
    Verdict schema fragments reached (w.run names).outcome

/-! ## Verdicts in sequence -/

theorem judges_pure (h : ∀ place w, reached place w → ¬ w.IsOffending schema fragments) (a : α) :
    Judges schema fragments reached names (pure a) :=
  fun _ => h

theorem judges_fail {v : Visit} {failure : Failure} (hv : reached [] v)
    (h : v.Offends schema fragments failure) :
    Judges schema fragments reached names (fail failure : Walk α) :=
  fun _ => ⟨[], v, hv, h, fun _ _ _ hlt => absurd hlt (List.not_lt_nil _)⟩

/-- Only what is wrong has to be reached alike. -/
theorem Judges.congr {w : Walk α} (h : Judges schema fragments reached names w)
    (hiff : ∀ place v, v.IsOffending schema fragments → (reached place v ↔ reached' place v)) :
    Judges schema fragments reached' names w := by
  intro hcut
  have hverdict := h hcut
  cases houtcome : (w.run names).outcome with
  | ok a =>
      rw [houtcome] at hverdict
      intro place v hv hoffending
      exact hverdict place v ((hiff place v hoffending).2 hv) hoffending
  | error failure =>
      rw [houtcome] at hverdict
      obtain ⟨place, v, hv, hoffends, hfirst⟩ := hverdict
      refine ⟨place, v, (hiff place v ⟨failure, hoffends⟩).1 hv, hoffends, ?_⟩
      intro place' v' hv' hlt hoffending
      exact hfirst place' v' ((hiff place' v' hoffending).2 hv') hlt hoffending

/-- What is reached one position further down. -/
theorem Judges.cons_place {w : Walk α} (h : Judges schema fragments reached names w) (index : Nat) :
    Judges schema fragments (fun place v => ∃ rest, place = index :: rest ∧ reached rest v) names
      w := by
  intro hcut
  have hverdict := h hcut
  cases houtcome : (w.run names).outcome with
  | ok a =>
      rw [houtcome] at hverdict
      rintro _ v ⟨rest, rfl, hv⟩
      exact hverdict rest v hv
  | error failure =>
      rw [houtcome] at hverdict
      obtain ⟨rest, v, hv, hoffends, hfirst⟩ := hverdict
      refine ⟨index :: rest, v, ⟨rest, rfl, hv⟩, hoffends, ?_⟩
      rintro _ v' ⟨rest', rfl, hv'⟩ hlt
      exact hfirst rest' v' hv' (by simpa [List.cons_lt_cons_iff] using hlt)

/-- Two walks in turn, the first of which reaches only what stands to the left. -/
theorem Judges.bind {w : Walk α} {f : α → Walk β} (hw : w.Restores)
    (h : Judges schema fragments reached names w)
    (h' : ∀ a, Judges schema fragments reached' names (f a))
    (hleft : ∀ place v place' v', reached place v → reached' place' v' → place < place') :
    Judges schema fragments (fun place v => reached place v ∨ reached' place v) names
      (w >>= f) := by
  intro hcut
  rw [hw.outcome_bind] at hcut ⊢
  cases houtcome : (w.run names).outcome with
  | error failure =>
      rw [houtcome] at hcut
      have hne : failure ≠ .exhausted := by
        rintro rfl
        exact hcut rfl
      have hverdict := h (by simpa [houtcome] using hne)
      rw [houtcome] at hverdict
      obtain ⟨place, v, hv, hoffends, hfirst⟩ := hverdict
      refine ⟨place, v, .inl hv, hoffends, ?_⟩
      rintro place' v' (hv' | hv') hlt
      · exact hfirst place' v' hv' hlt
      · exact absurd hlt (List.lt_asymm (hleft place v place' v' hv hv'))
  | ok a =>
      rw [houtcome] at hcut
      have hfine := h (by simp [houtcome])
      rw [houtcome] at hfine
      have hnext := h' a hcut
      change Verdict schema fragments _ ((f a).run names).outcome
      -- Nothing is wrong with what the first walk reaches, so the second one decides.
      cases houtcome' : ((f a).run names).outcome with
      | ok b =>
          rw [houtcome'] at hnext
          rintro place v (hv | hv)
          · exact hfine place v hv
          · exact hnext place v hv
      | error failure =>
          rw [houtcome'] at hnext
          obtain ⟨place, v, hv, hoffends, hfirst⟩ := hnext
          refine ⟨place, v, .inr hv, hoffends, ?_⟩
          rintro place' v' (hv' | hv') hlt
          · exact hfine place' v' hv'
          · exact hfirst place' v' hv' hlt

/-- What follows reaches nothing and cannot fail. -/
theorem Judges.bind_nothing {w : Walk α} (hw : w.Restores)
    (h : Judges schema fragments reached names w) {f : α → Walk β}
    (hf : ∀ a, Judges schema fragments (fun _ _ => False) names (f a)) :
    Judges schema fragments reached names (w >>= f) := by
  refine (h.bind hw hf ?_).congr ?_
  · exact fun _ _ _ _ _ hv => hv.elim
  · exact fun place v _ => or_iff_left not_false

theorem judges_pure_nothing (a : α) :
    Judges schema fragments (fun _ _ => False) names (pure a) :=
  judges_pure (fun _ _ hv => hv.elim) a

/-! ## Fields and fragments -/

variable {descend : Descend} {frame : Frame} {node : Address} {name : Name}

/-- Nothing is wrong with a field that is found, or that asks for the name of the type. -/
theorem not_isOffending_field {s : Selection} (hs : s.fieldName? = some name)
    (h : name = typenameField ∨ ∃ definition, schema.fieldNamed frame.type name = .ok definition) :
    ¬ Visit.IsOffending schema fragments ⟨frame, names, node, s⟩ := by
  rintro ⟨failure, hoffends⟩
  have hfound : ∀ other, s.fieldName? = some other → other ≠ typenameField →
      ∃ t, schema.type? frame.type = some t ∧ t.isObject = true ∧ t.field? other ≠ none := by
    intro other hother hne
    obtain rfl : name = other := Option.some.inj (hs.symm.trans hother)
    obtain ⟨definition, hdefinition⟩ := h.resolve_left hne
    obtain ⟨t, ht, hobject, hfield⟩ := Schema.fieldNamed_eq_ok_iff.1 hdefinition
    exact ⟨t, ht, hobject, by simp [hfield]⟩
  cases hoffends with
  | notAnObject hother hne ht hobject =>
      obtain ⟨t', ht', hobject', -⟩ := hfound _ hother hne
      obtain rfl := Option.some.inj (ht.symm.trans ht')
      simp [hobject] at hobject'
  | unknownField hother hne ht hobject hnone =>
      obtain ⟨t', ht', -, hsome⟩ := hfound _ hother hne
      obtain rfl := Option.some.inj (ht.symm.trans ht')
      exact hsome hnone
  | unexpected => cases hs
  | unknownFragment _ => cases hs
  | cycle _ _ => cases hs
  | unknownCondition _ => cases hs
  | unknownSpreadCondition _ _ _ => cases hs

/-- A field, given what is reached below it. -/
theorem judges_field {s : Selection} {aliasName : Option String} {ss : Option (List Selection)}
    {below : FieldDef → List Nat → Visit → Prop} (hs : s.fieldName? = some name)
    (hcurrent : (schema.type? frame.type).isSome)
    (hreached : ∀ place w, reached place w ↔ place = [] ∧ w = ⟨frame, names, node, s⟩ ∨
      name ≠ typenameField ∧ ∃ definition, schema.fieldNamed frame.type name = .ok definition ∧
        below definition place w)
    (hbelow : ∀ definition, schema.fieldNamed frame.type name = .ok definition →
      Judges schema fragments (below definition) names
        (pathsBelow descend definition node [name] ss)) :
    Judges schema fragments reached names
      (field ⟨schema, fragments, .unset⟩ descend frame.type node name aliasName ss) := by
  by_cases hname : name = typenameField
  · rw [field, if_pos hname]
    refine judges_pure (fun place w hw => ?_) _
    rcases (hreached place w).1 hw with ⟨-, rfl⟩ | ⟨hne, -⟩
    · exact not_isOffending_field hs (.inl hname)
    · exact absurd hname hne
  · cases hfield : schema.fieldNamed frame.type name with
    | error error =>
        rw [field_of_error hname hfield]
        exact judges_fail ((hreached [] _).2 (.inl ⟨rfl, rfl⟩))
          (offends_of_fieldNamed hs hname hcurrent hfield)
    | ok definition =>
        rw [field_unset_of_found hname hfield]
        refine (hbelow definition hfield).congr fun place w hoffending => ?_
        rw [hreached]
        constructor
        · exact fun hw => .inr ⟨hname, definition, hfield, hw⟩
        · rintro (⟨-, rfl⟩ | ⟨-, definition', hfield', hw⟩)
          · exact absurd hoffending (not_isOffending_field hs (.inr ⟨definition, hfield⟩))
          · obtain rfl := Except.ok.inj (hfield.symm.trans hfield')
            exact hw

/-- Every deeper walk at a type that exists comes to the right outcome. -/
def JudgesBelow (schema : Schema) (fragments : FragmentTable) (descend : Descend) : Prop :=
  ∀ {frame} node names ss, (schema.type? frame.type).isSome →
    Judges schema fragments (SelectionsReach schema fragments frame names node 0 ss) names
      (descend frame node ss)

/-- A fragment, inside the expansions that its selections are read in. What it stands for is a
    visit of its own, of the fragment or of a spread of it. -/
theorem judges_enterFragment {v : Visit} {condition : Name} {ss : List Selection}
    (hbelow : JudgesBelow schema fragments descend) (hcurrent : (schema.type? frame.type).isSome)
    (hunknown : schema.type? condition = none →
      v.Offends schema fragments (.mask (.unknownType condition) (some node)))
    (hknown : (schema.type? condition).isSome → ¬ v.IsOffending schema fragments)
    (hreached : ∀ place w, reached place w ↔ place = [] ∧ w = v ∨
      schema.Enters condition frame.type ∧
        SelectionsReach schema fragments frame names node 0 ss place w) :
    Judges schema fragments reached names
      (enterFragment ⟨schema, fragments, .unset⟩ descend frame condition node ss) := by
  cases htarget : schema.type? condition with
  | none =>
      rw [enterFragment_of_unknown htarget]
      exact judges_fail ((hreached [] v).2 (.inl ⟨rfl, rfl⟩)) (hunknown htarget)
  | some target =>
      have hfine : ¬ v.IsOffending schema fragments := hknown (by simp [htarget])
      obtain ⟨current, htype⟩ := Option.isSome_iff_exists.1 hcurrent
      by_cases henters : schema.Enters condition frame.type
      · rw [enterFragment_of_enters htarget htype henters]
        refine (hbelow node names ss hcurrent).congr fun place w hoffending => ?_
        rw [hreached]
        constructor
        · exact fun hw => .inr ⟨henters, hw⟩
        · rintro (⟨-, rfl⟩ | ⟨-, hw⟩)
          · exact absurd hoffending hfine
          · exact hw
      · rw [enterFragment_of_skips rfl htarget htype henters]
        intro _ place w hw
        rcases (hreached place w).1 hw with ⟨-, rfl⟩ | ⟨henters', -⟩
        · exact hfine
        · exact absurd henters' henters

/-! ## Selections -/

theorem judges_spread (hbelow : JudgesBelow schema fragments descend)
    (hcurrent : (schema.type? frame.type).isSome) :
    Judges schema fragments (Reaches schema fragments ⟨frame, names, node, .spread name⟩) names
      (spread ⟨schema, fragments, .unset⟩ descend frame node name) := by
  cases hfind : fragments.find? name with
  | none =>
      rw [spread_of_undefined hfind]
      exact judges_fail .here (.unknownFragment hfind)
  | some definition =>
      by_cases hmem : name ∈ names
      · unfold Judges
        rw [run_spread_of_mem hfind hmem]
        exact judges_fail .here (.cycle hfind hmem)
      · unfold Judges
        rw [run_spread_of_notMem hfind hmem]
        -- What is reached in the definition is reached inside its expansion.
        change Judges schema fragments _ (names ++ [name]) (enterFragment _ descend frame
          definition.condition (.definition name) definition.selections)
        refine judges_enterFragment hbelow hcurrent (v := ⟨frame, names, node, .spread name⟩)
          (.unknownSpreadCondition hfind hmem) (fun hknown => ?_) (fun place w => ?_)
        · rintro ⟨failure, hoffends⟩
          cases hoffends with
          | notAnObject hs => cases hs
          | unknownField hs => cases hs
          | unknownFragment hnone => simp [hfind] at hnone
          | cycle _ hmem' => exact hmem hmem'
          | unknownSpreadCondition hfind' _ hnone =>
              obtain rfl := Option.some.inj (hfind.symm.trans hfind')
              simp [hnone] at hknown
        · rw [reaches_spread_iff]
          simp [hfind]

/-- One selection, at a type that exists. -/
theorem judges_pathsOf (htypes : schema.FieldTypesExist) (hd : descend.Restores)
    (hbelow : JudgesBelow schema fragments descend) (hcurrent : (schema.type? frame.type).isSome)
    (s : Selection) :
    Judges schema fragments (Reaches schema fragments ⟨frame, names, node, s⟩) names
      (pathsOf ⟨schema, fragments, .unset⟩ descend frame node s) := by
  cases s with
  | leaf name aliasName =>
      have hnothing : ∀ definition, schema.fieldNamed frame.type name = .ok definition →
          Judges schema fragments (fun _ _ => False) names
            (pathsBelow descend definition node [name] none) :=
        fun definition _ => judges_pure_nothing [name]
      refine judges_field (s := .leaf name aliasName) rfl hcurrent (fun place w => ?_) hnothing
      rw [reaches_leaf_iff]
      simp
  | branch name aliasName below =>
      refine judges_field (s := .branch name aliasName below) rfl hcurrent
        (fun place w => reaches_branch_iff) ?_
      intro definition hfield
      have hdeeper : Judges schema fragments _ names
          (descend ⟨definition.namedType, some definition⟩ node below) :=
        hbelow node names below (htypes.of_fieldNamed hfield)
      exact hdeeper.bind_nothing (hd _ _ _) fun paths => judges_pure_nothing _
  | spread name => exact judges_spread hbelow hcurrent
  | fragment condition body =>
      refine judges_enterFragment hbelow hcurrent ?_ ?_ (fun place w => reaches_fragment_iff)
      · intro hnone
        cases condition with
        | none =>
            rw [conditionAt_none] at hnone
            simp [hnone] at hcurrent
        | some condition => exact .unknownCondition hnone
      · rintro hknown ⟨failure, hoffends⟩
        cases hoffends with
        | notAnObject hs => cases hs
        | unknownField hs => cases hs
        | unknownCondition hnone =>
            rw [conditionAt_some] at hknown
            simp [hnone] at hknown
  | other kind => exact judges_fail .here .unexpected

/-- Selections in turn, at a type that exists. -/
theorem judges_selectionsFrom (htypes : schema.FieldTypesExist) (hd : descend.Restores)
    (hbelow : JudgesBelow schema fragments descend) (hcurrent : (schema.type? frame.type).isSome)
    (index : Nat) (ss : List Selection) :
    Judges schema fragments (SelectionsReach schema fragments frame names node index ss) names
      (selectionsFrom ⟨schema, fragments, .unset⟩ descend frame node index ss) := by
  induction ss generalizing index with
  | nil => exact judges_pure (fun _ _ hw => absurd hw not_reachedAmong_nil) _
  | cons s rest ih =>
      have hfirst : Judges schema fragments (Reaches schema fragments
          ⟨frame, names, node.child index, s⟩) names
          (selection ⟨schema, fragments, .unset⟩ descend frame (node.child index) s) :=
        judges_pathsOf htypes hd hbelow hcurrent s
      rw [selectionsFrom_cons]
      refine ((hfirst.cons_place index).bind (restores_selection hd _ _ _)
        (fun paths => (ih (index + 1)).bind_nothing (restores_selectionsFrom hd _ _ _ _)
          fun others => judges_pure_nothing _) ?_).congr
        fun place w _ => selectionsReach_cons_iff.symm
      rintro _ v place' v' ⟨place, rfl, -⟩ hlater
      exact hlater.cons_lt

theorem judgesBelow_selectionsUpTo (htypes : schema.FieldTypesExist) (depth : Nat) :
    JudgesBelow schema fragments (selectionsUpTo ⟨schema, fragments, .unset⟩ depth) := by
  induction depth with
  | zero => exact fun _ _ _ _ hcut => absurd rfl hcut
  | succ depth ih =>
      intro frame node names ss hcurrent
      exact judges_selectionsFrom htypes (restores_selectionsUpTo _ depth) ih hcurrent 0 ss

/-! ## Root nodes -/

theorem judges_mergeRoots (htypes : schema.FieldTypesExist) {type : Name}
    (hcurrent : (schema.type? type).isSome) (index : Nat) (roots : List RootNode)
    (found : OrderedSet String) :
    Judges schema fragments (RootsReach schema fragments type index roots) []
      (mergeRoots ⟨schema, fragments, .unset⟩ type index roots found) := by
  induction roots generalizing index found with
  | nil => exact judges_pure (fun _ _ hw => absurd hw not_reachedAmong_nil) _
  | cons root rest ih =>
      have hfirst : Judges schema fragments
          (SelectionsReach schema fragments ⟨type, none⟩ [] (.root index) 0 root.selections) []
          (selections ⟨schema, fragments, .unset⟩ ⟨type, none⟩ (.root index) root.selections) :=
        judgesBelow_selectionsUpTo htypes _ _ [] _ hcurrent
      refine ((hfirst.cons_place index).bind (restores_selections _ _ _ _)
        (fun paths => ih (index + 1) (found.update paths)) ?_).congr
        fun place w _ => rootsReach_cons_iff.symm
      rintro _ v place' v' ⟨place, rfl, -⟩ hlater
      exact hlater.cons_lt

theorem judges_mask (htypes : schema.FieldTypesExist) {type : Name}
    (hcurrent : (schema.type? type).isSome) (roots : List RootNode) :
    Judges schema fragments (RootsReach schema fragments type 0 roots) []
      (mask ⟨schema, fragments, .unset⟩ type roots) := by
  obtain ⟨t, ht⟩ := Option.isSome_iff_exists.1 hcurrent
  have hfound : Judges schema fragments (RootsReach schema fragments type 0 roots) []
      (mergeRoots ⟨schema, fragments, .unset⟩ type 0 roots .empty >>= fun found => do
        note (.computed found.size type)
        return found.toList) :=
    (judges_mergeRoots htypes hcurrent 0 roots .empty).bind_nothing
      (restores_mergeRoots type roots 0 _) fun found _ _ _ hv => hv.elim
  -- The look-up of the type succeeds, and a note changes no outcome.
  rw [mask, Schema.typeNamed_eq_ok_iff.2 ht]
  exact hfound

end Walk

/-! ## The mask -/

/-- **When a mask without hooks fails, and with what.** Let there be a type for each field. Then
    there is a mask exactly if its type exists and nothing is wrong with any selection within reach
    of the root nodes. If there is none although the type exists, the failure is that of a selection
    within reach which is wrong, whose only failure it is, and before which, from left to right and
    down, nothing within reach is wrong. -/
theorem maskPaths_fails_at_first_offence {schema : Schema} (htypes : schema.FieldTypesExist)
    (fragments : FragmentTable) (type : Name) (roots : List RootNode) :
    let outcome := (maskPaths type roots fragments schema none).outcome
    let reached := RootsReach schema fragments type 0 roots
    ((∃ paths, outcome = .ok paths) ↔
      (schema.type? type).isSome ∧ ∀ place v, reached place v → ¬ v.IsOffending schema fragments) ∧
    ((schema.type? type).isSome → ∀ failure, outcome = .error failure →
      ∃ place v, reached place v ∧
        (∀ other, v.Offends schema fragments other ↔ other = failure) ∧
        ∀ place' v', reached place' v' → place' < place → ¬ v'.IsOffending schema fragments) ∧
    (schema.type? type = none → outcome = .error (.mask (.unknownType type) none)) := by
  intro outcome reached
  have hmissing : schema.type? type = none → outcome = .error (.mask (.unknownType type) none) :=
    outcome_maskPaths_of_unknown
  have hverdict : (schema.type? type).isSome → Verdict schema fragments reached outcome := by
    intro hcurrent
    exact Walk.judges_mask htypes hcurrent roots (Walk.mask_not_exhausted _ type roots)
  refine ⟨⟨?_, ?_⟩, ?_, hmissing⟩
  · rintro ⟨paths, hpaths⟩
    have hcurrent : (schema.type? type).isSome := by
      rw [Option.isSome_iff_ne_none]
      intro hnone
      simp [hmissing hnone] at hpaths
    have hfine := hverdict hcurrent
    rw [hpaths] at hfine
    exact ⟨hcurrent, hfine⟩
  · rintro ⟨hcurrent, hfine⟩
    have hjudged := hverdict hcurrent
    cases houtcome : outcome with
    | ok paths => exact ⟨paths, rfl⟩
    | error failure =>
        rw [houtcome] at hjudged
        obtain ⟨place, v, hv, hoffends, -⟩ := hjudged
        exact absurd ⟨failure, hoffends⟩ (hfine place v hv)
  · intro hcurrent failure hfailure
    have hjudged := hverdict hcurrent
    rw [hfailure] at hjudged
    obtain ⟨place, v, hv, hoffends, hfirst⟩ := hjudged
    refine ⟨place, v, hv, fun other => ?_, hfirst⟩
    constructor
    · intro hother
      exact hother.unique hoffends
    · rintro rfl
      exact hoffends

/-- A query that spreads a fragment inside itself, behind a fragment on an unrelated type that holds
    an unknown field and before an unknown fragment. -/
theorem maskPaths_fails_at_first_offence_of_cycle :
    let schema : Schema :=
      ⟨[⟨"Query", .object [⟨"user", .named "User", none⟩, ⟨"id", .named "ID", none⟩] [], none⟩,
        ⟨"User", .object [⟨"id", .named "ID", none⟩, ⟨"friend", .named "User", none⟩] [], none⟩]⟩
    let fragments : FragmentTable :=
      .ofList [("Friends", ⟨"User", [.branch "friend" none [.spread "Friends"]]⟩)]
    let roots : List RootNode :=
      [.operation [.fragment (some "User") [.leaf "missing" none],
        .branch "user" none [.spread "Friends", .spread "Missing"]]]
    let outcome := (maskPaths "Query" roots fragments schema none).outcome
    let reached := RootsReach schema fragments "Query" 0 roots
    schema.FieldTypesExist ∧
    ((∃ paths, outcome = .ok paths) ↔ (schema.type? "Query").isSome ∧
      ∀ place v, reached place v → ¬ v.IsOffending schema fragments) ∧
    outcome = .error (.mask (.fragmentCycle "Friends") (some ⟨.definition "Friends", [0, 0]⟩)) ∧
    ∃ place v, reached place v ∧ v.Offends schema fragments
      (.mask (.fragmentCycle "Friends") (some ⟨.definition "Friends", [0, 0]⟩)) := by
  intro schema fragments roots outcome reached
  have htypes : schema.FieldTypesExist := by decide +kernel
  have hfailure : outcome =
      .error (.mask (.fragmentCycle "Friends") (some ⟨.definition "Friends", [0, 0]⟩)) := by rfl
  obtain ⟨hiff, hfirst, -⟩ := maskPaths_fails_at_first_offence htypes fragments "Query" roots
  obtain ⟨place, v, hv, hoffends, -⟩ := hfirst (by rfl) _ hfailure
  exact ⟨htypes, hiff, hfailure, place, v, hv, (hoffends _).2 rfl⟩

end SelectionMask
