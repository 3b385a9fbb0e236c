import SelectionMask.Proofs.Walk.Steps

set_option autoImplicit false

/-! # What a walk returns

`Walk.Returns` says that a walk succeeds with a value while given fragments are being expanded. A
sequence of walks returns what its parts return one after the other, all with the same fragments
being expanded, since each part puts them back. -/

namespace SelectionMask

variable {α β : Type}

namespace Walk

/-- The walk succeeds with the value. -/
def Returns (w : Walk α) (names : List Name) (a : α) : Prop :=
  (w.run names).outcome = .ok a

/-! ## Single steps -/

variable {names : List Name}

@[simp] theorem returns_pure_iff {a b : α} : (pure a : Walk α).Returns names b ↔ a = b := by
  simp [Returns]

@[simp] theorem not_returns_fail (failure : Failure) (a : α) :
    ¬ (fail failure : Walk α).Returns names a := by
  simp [Returns]

@[simp] theorem returns_blaming_iff {node : Option Address} {found : Except MaskError α} {a : α} :
    (blaming node found).Returns names a ↔ found = .ok a := by
  cases found <;> simp

@[simp] theorem returns_within_iff {name : Name} {body : Walk α} {a : α} :
    (within name body).Returns names a ↔ body.Returns (names ++ [name]) a := Iff.rfl

theorem Restores.returns_bind_iff {w : Walk α} (hw : w.Restores) {f : α → Walk β} {b : β} :
    (w >>= f).Returns names b ↔ ∃ a, w.Returns names a ∧ (f a).Returns names b := by
  have hnames := hw names
  unfold Returns
  rw [run_bind]
  rcases hrun : w.run names with ⟨failure | a, left, events⟩ <;> rw [hrun] at hnames
  · simp
  · obtain rfl : left = names := hnames
    simp [Run.after]

/-- In a sequence that gets past its first part, all of that happens and then what follows. -/
theorem Restores.events_bind {w : Walk α} (hw : w.Restores) {f : α → Walk β} {a : α}
    (h : w.Returns names a) :
    ((w >>= f).run names).events = (w.run names).events ++ ((f a).run names).events := by
  have hnames := hw names
  unfold Returns at h
  rcases hrun : w.run names with ⟨outcome, left, events⟩
  rw [hrun] at hnames h
  obtain rfl : left = names := hnames
  obtain rfl : outcome = .ok a := h
  rw [run_bind_of_ok hrun, Run.after]

theorem Restores.visits_bind {w : Walk α} (hw : w.Restores) {f : α → Walk β} {a : α}
    (h : w.Returns names a) :
    visitsOf ((w >>= f).run names).events
      = visitsOf (w.run names).events ++ visitsOf ((f a).run names).events := by
  rw [hw.events_bind h, visitsOf_append]

@[simp] theorem returns_note_bind_iff {n : Note} {f : Unit → Walk β} {b : β} :
    (note n >>= f).Returns names b ↔ (f ()).Returns names b := Iff.rfl

@[simp] theorem returns_visit_bind_iff {frame : Frame} {node : Address} {s : Selection}
    {f : Unit → Walk β} {b : β} :
    (visit frame node s >>= f).Returns names b ↔ (f ()).Returns names b := Iff.rfl

/-! ## Walks of selections -/

variable {env : Env} {descend : Descend} {paths : List String}

theorem returns_pathsBelow_iff (hd : descend.Restores) {field : FieldDef} {node : Address}
    {given : List String} {ss : List Selection} :
    (pathsBelow descend field node given (some ss)).Returns names paths ↔
      ∃ below, (descend ⟨field.namedType, some field⟩ node ss).Returns names below
        ∧ joinAll given below = paths := by
  rw [pathsBelow, (hd _ _ _).returns_bind_iff]
  simp only [returns_pure_iff]

theorem returns_extraPathsOf_iff {site : FieldSite} {node : Address} {extra : List String} :
    (extraPathsOf env site node).Returns names extra
      ↔ env.hooks.extraPathsAt site = .ok extra := by
  rw [Returns, outcome_extraPathsOf, mapError_eq_ok_iff]

theorem returns_namesOf_iff {site : FieldSite} {node : Address} {given : Option (List String)} :
    (namesOf env site node).Returns names given ↔ env.hooks.namesAt site = .ok given := by
  rw [Returns, outcome_namesOf, mapError_eq_ok_iff]

/-- A field returns what its hooks add, and the paths below it unless they drop it. -/
theorem returns_field_iff (hd : descend.Restores) {type : Name} {node : Address} {name : Name}
    {aliasName : Option String} {ss : Option (List Selection)} :
    (field env descend type node name aliasName ss).Returns names paths ↔
      name = typenameField ∧ paths = [] ∨
      name ≠ typenameField ∧ ∃ definition extra given,
        env.schema.fieldNamed type name = .ok definition ∧
        env.hooks.extraPathsAt ⟨type, definition, aliasName⟩ = .ok extra ∧
        env.hooks.namesAt ⟨type, definition, aliasName⟩ = .ok given ∧
        (given = none ∧ paths = extra ∨ ∃ ns below, given = some ns ∧
          (pathsBelow descend definition node ns ss).Returns names below ∧
          paths = extra ++ below) := by
  by_cases hname : name = typenameField
  · rw [field, if_pos hname]
    simp [hname, eq_comm]
  · cases hfield : env.schema.fieldNamed type name with
    | error error =>
        rw [field_of_error hname hfield]
        simp [hname]
    | ok definition =>
        rw [field_of_found hname hfield, (restores_extraPathsOf _ _).returns_bind_iff]
        simp only [returns_extraPathsOf_iff, (restores_namesOf _ _).returns_bind_iff,
          returns_namesOf_iff, hname, false_and, false_or, ne_eq, not_false_eq_true, true_and,
          Except.ok.injEq]
        constructor
        · rintro ⟨extra, hextra, given, hgiven, hreturns⟩
          cases given with
          | none =>
              have hpaths : (pure extra : Walk (List String)).Returns names paths := hreturns
              obtain rfl := returns_pure_iff.1 hpaths
              exact ⟨definition, extra, none, rfl, hextra, hgiven, .inl ⟨rfl, rfl⟩⟩
          | some ns =>
              obtain ⟨below, hbelow, hpaths⟩ :=
                (restores_pathsBelow hd _ _ _ _).returns_bind_iff.1 hreturns
              exact ⟨definition, extra, some ns, rfl, hextra, hgiven,
                .inr ⟨ns, below, rfl, hbelow, (returns_pure_iff.1 hpaths).symm⟩⟩
        · rintro ⟨_, extra, given, rfl, hextra, hgiven, ⟨rfl, rfl⟩ | ⟨ns, below, rfl, hbelow, rfl⟩⟩
          · exact ⟨paths, hextra, none, hgiven, rfl⟩
          · exact ⟨extra, hextra, some ns, hgiven,
              (restores_pathsBelow hd _ _ _ _).returns_bind_iff.2
                ⟨below, hbelow, returns_pure_iff.2 rfl⟩⟩

/-- Without hooks a field returns the paths below its own name. -/
theorem returns_field_unset_iff {schema : Schema} {fragments : FragmentTable} {type : Name}
    {node : Address} {name : Name} {aliasName : Option String} {ss : Option (List Selection)} :
    (field ⟨schema, fragments, .unset⟩ descend type node name aliasName ss).Returns names paths ↔
      name = typenameField ∧ paths = [] ∨
      name ≠ typenameField ∧ ∃ definition, schema.fieldNamed type name = .ok definition ∧
        (pathsBelow descend definition node [name] ss).Returns names paths := by
  by_cases hname : name = typenameField
  · rw [field, if_pos hname]
    simp [hname, eq_comm]
  · cases hfield : schema.fieldNamed type name with
    | error error =>
        rw [field_of_error hname hfield]
        simp [hname]
    | ok definition =>
        rw [field_unset_of_found hname hfield]
        simp [hname]

theorem returns_ignored_iff {n : Note} :
    (note n >>= fun _ => pure []).Returns names paths ↔ paths = [] := by
  rw [returns_note_bind_iff, returns_pure_iff, eq_comm]

/-- A fragment returns what it does in place, or nothing, or what the hook makes of a member. -/
theorem returns_enterFragment_iff {frame : Frame} {condition : Name} {node : Address}
    {ss : List Selection} :
    (enterFragment env descend frame condition node ss).Returns names paths ↔
      ∃ target current, env.schema.type? condition = some target ∧
        env.schema.type? frame.type = some current ∧
        (env.schema.Enters condition frame.type ∧ (descend frame node ss).Returns names paths ∨
          ¬ env.schema.Enters condition frame.type ∧ ¬ current.isAbstract ∧ paths = [] ∨
          ¬ env.schema.Enters condition frame.type ∧ current.isAbstract ∧
            (env.hooks.narrowing = none ∧ paths = [] ∨
              ∃ hook field, env.hooks.narrowing = some hook ∧ frame.enclosing = some field ∧
                (narrow descend hook ⟨frame.type, condition, target.metadata, field⟩ node
                  ss).Returns names paths)) := by
  cases htarget : env.schema.type? condition with
  | none =>
      rw [enterFragment_of_unknown htarget]
      simp
  | some target =>
      cases hcurrent : env.schema.type? frame.type with
      | none =>
          rw [enterFragment_of_unknown_current htarget hcurrent]
          simp
      | some current =>
          have hfound : ∀ p : NamedType → NamedType → Prop,
              (∃ t c, some target = some t ∧ some current = some c ∧ p t c) ↔ p target current := by
            simp
          rw [hfound]
          by_cases henters : env.schema.Enters condition frame.type
          · rw [enterFragment_of_enters htarget hcurrent henters]
            simp [henters]
          · by_cases habstract : current.isAbstract
            · have hother : condition ≠ frame.type := fun hsame => henters (.inl hsame)
              rw [enterFragment_of_narrows htarget hcurrent habstract hother]
              simp only [henters, habstract, false_and, false_or, not_false_eq_true, not_true,
                true_and]
              cases env.hooks.narrowing with
              | none =>
                  change (note _ >>= fun _ => pure []).Returns names paths ↔ _
                  rw [returns_ignored_iff]
                  simp
              | some hook => cases frame.enclosing <;> simp
            · rw [enterFragment_of_unrelated htarget hcurrent habstract henters,
                returns_ignored_iff]
              simp [henters, habstract]

/-- Without a hook for members, a fragment is read in place or ignored. -/
theorem returns_enterFragment_iff_of_plain (hplain : env.hooks.narrowing = none) {frame : Frame}
    {condition : Name} {node : Address} {ss : List Selection} :
    (enterFragment env descend frame condition node ss).Returns names paths ↔
      ∃ target current, env.schema.type? condition = some target ∧
        env.schema.type? frame.type = some current ∧
        (env.schema.Enters condition frame.type ∧ (descend frame node ss).Returns names paths ∨
          ¬ env.schema.Enters condition frame.type ∧ paths = []) := by
  rw [returns_enterFragment_iff]
  refine exists_congr fun target => exists_congr fun current => ?_
  refine and_congr_right fun _ => and_congr_right fun _ => or_congr_right ?_
  by_cases habstract : current.isAbstract <;> simp [hplain, habstract]

/-- A spread returns only if its fragment is defined and is not being expanded yet. -/
theorem returns_spread_iff {frame : Frame} {node : Address} {fragment : Name} :
    (spread env descend frame node fragment).Returns names paths ↔
      ∃ definition, env.fragments.find? fragment = some definition ∧ fragment ∉ names ∧
        (enterFragment env descend frame definition.condition (.definition fragment)
          definition.selections).Returns (names ++ [fragment]) paths := by
  cases hfind : env.fragments.find? fragment with
  | none => simp [spread_of_undefined hfind]
  | some definition =>
      by_cases hmem : fragment ∈ names
      · simp [Returns, run_spread_of_mem hfind hmem, hmem]
      · rw [Returns, run_spread_of_notMem hfind hmem]
        change (within fragment _).Returns names paths ↔ _
        rw [returns_within_iff]
        simp [hmem]

theorem returns_selectionsFrom_nil_iff {frame : Frame} {node : Address} {index : Nat} :
    (selectionsFrom env descend frame node index []).Returns names paths ↔ paths = [] := by
  rw [selectionsFrom_nil, returns_pure_iff, eq_comm]

theorem returns_selectionsFrom_cons_iff (hd : descend.Restores) {frame : Frame} {node : Address}
    {index : Nat} {s : Selection} {rest : List Selection} :
    (selectionsFrom env descend frame node index (s :: rest)).Returns names paths ↔
      ∃ found others, (pathsOf env descend frame (node.child index) s).Returns names found
        ∧ (selectionsFrom env descend frame node (index + 1) rest).Returns names others
        ∧ paths = found ++ others := by
  rw [selectionsFrom_cons, (restores_selection hd _ _ _).returns_bind_iff]
  simp only [selection, returns_visit_bind_iff,
    (restores_selectionsFrom hd _ _ _ _).returns_bind_iff, returns_pure_iff]
  constructor
  · rintro ⟨found, hfound, others, hothers, rfl⟩
    exact ⟨found, others, hfound, hothers, rfl⟩
  · rintro ⟨found, others, hfound, hothers, rfl⟩
    exact ⟨found, hfound, others, hothers, rfl⟩

/-- Two lists of selections one after the other. -/
theorem returns_selectionsFrom_append_iff (hd : descend.Restores) {frame : Frame} {node : Address}
    {index : Nat} {ss others : List Selection} :
    (selectionsFrom env descend frame node index (ss ++ others)).Returns names paths ↔
      ∃ found later, (selectionsFrom env descend frame node index ss).Returns names found
        ∧ (selectionsFrom env descend frame node (index + ss.length) others).Returns names later
        ∧ paths = found ++ later := by
  induction ss generalizing index paths with
  | nil => simp
  | cons s rest ih =>
      simp only [List.cons_append, returns_selectionsFrom_cons_iff hd, ih, List.length_cons,
        Nat.add_assoc, Nat.add_comm 1]
      constructor
      · rintro ⟨found, _, hfound, ⟨between, later, hbetween, hlater, rfl⟩, rfl⟩
        exact ⟨found ++ between, later, ⟨found, between, hfound, hbetween, rfl⟩, hlater,
          (List.append_assoc _ _ _).symm⟩
      · rintro ⟨_, later, ⟨found, between, hfound, hbetween, rfl⟩, hlater, rfl⟩
        exact ⟨found, between ++ later, hfound, ⟨between, later, hbetween, hlater, rfl⟩,
          List.append_assoc _ _ _⟩

/-! ## Induction along a walk -/

/-- What a deeper walk returns, if it returns, is right for its selections. The specification is
    about selections that are the rest of a list, from a given position on. -/
def Meets (spec : Frame → Nat → List Selection → List String → Prop) (descend : Descend) : Prop :=
  ∀ ⦃frame node ss names paths⦄, (descend frame node ss).Returns names paths →
    spec frame 0 ss paths

variable {spec : Frame → Nat → List Selection → List String → Prop}

/-- **What each selection keeps, a whole walk keeps.** It is enough to see that one selection in
    front of others is right if the others are and all deeper walks are. -/
theorem meets_selections (hnil : ∀ frame index, spec frame index [] [])
    (hcons : ∀ descend : Descend, descend.Restores → Meets spec descend →
      ∀ ⦃frame node names index s rest found others⦄,
        (pathsOf env descend frame node s).Returns names found →
        spec frame (index + 1) rest others → spec frame index (s :: rest) (found ++ others)) :
    Meets spec (selections env) := by
  have hupTo : ∀ depth, Meets spec (selectionsUpTo env depth) := by
    intro depth
    induction depth with
    | zero => exact fun _ _ _ _ _ h => absurd h (not_returns_fail _ _)
    | succ depth ih =>
        have hd := restores_selectionsUpTo env depth
        have hlist : ∀ {frame node index ss names paths},
            (selectionsFrom env (selectionsUpTo env depth) frame node index ss).Returns names
              paths → spec frame index ss paths := by
          intro frame node index ss names paths h
          induction ss generalizing index paths with
          | nil =>
              obtain rfl := returns_selectionsFrom_nil_iff.1 h
              exact hnil frame index
          | cons s rest ihrest =>
              obtain ⟨found, others, hfound, hothers, rfl⟩ :=
                (returns_selectionsFrom_cons_iff hd).1 h
              exact hcons _ hd ih hfound (ihrest hothers)
        exact fun _ _ _ _ _ h => hlist h
  exact fun _ _ _ _ _ h => hupTo _ h

/-! ## Whole computations -/

theorem returns_mergeRoots_nil_iff {type : Name} {index : Nat} {found final : OrderedSet String} :
    (mergeRoots env type index [] found).Returns names final ↔ found = final := by
  rw [mergeRoots, returns_pure_iff]

theorem returns_mergeRoots_cons_iff {type : Name} {index : Nat} {root : RootNode}
    {rest : List RootNode} {found final : OrderedSet String} :
    (mergeRoots env type index (root :: rest) found).Returns names final ↔
      ∃ paths, (selections env ⟨type, none⟩ (.root index) root.selections).Returns names paths
        ∧ (mergeRoots env type (index + 1) rest (found.update paths)).Returns names final := by
  rw [mergeRoots, (restores_selections env _ _ _).returns_bind_iff]

theorem returns_mask_iff {type : Name} {roots : List RootNode} :
    (mask env type roots).Returns names paths ↔
      ∃ t, env.schema.typeNamed type = .ok t ∧
        ∃ found, (mergeRoots env type 0 roots .empty).Returns names found
          ∧ found.toList = paths := by
  rw [mask, (restores_blaming _ _).returns_bind_iff]
  simp only [returns_blaming_iff, returns_note_bind_iff,
    (restores_mergeRoots type roots 0 _).returns_bind_iff, returns_pure_iff]

end Walk

end SelectionMask
