import SelectionMask.Proofs.Document.Chains
import SelectionMask.Proofs.Walk.Restoration

set_option autoImplicit false

/-! # Single steps of a walk

What a field and a fragment come to, one equation for each thing they can do. `Walk.field` and
`Walk.enterFragment` are opened here and nowhere below; what a step leads to one level deeper is
still the walk `descend`, about which nothing is assumed. -/

namespace SelectionMask

namespace Hooks

/-- What the hook for extra paths gives for a field: nothing if it is not set. -/
def extraPathsAt (hooks : Hooks) (site : FieldSite) : Except String (List String) :=
  match hooks.extraPaths with
  | none => .ok []
  | some hook => hook site

/-- The names that the hook gives for a field, or none if it drops the field. The field's own name
    if the hook is not set. -/
def namesAt (hooks : Hooks) (site : FieldSite) : Except String (Option (List String)) :=
  match hooks.fieldNames with
  | none => .ok (some [site.field.name])
  | some hook => (hook site).map (Option.map OneOrMany.toList)

end Hooks

/-- What an error is turned into makes no difference to a success. -/
theorem mapError_eq_ok_iff {ε ε' α : Type} {f : ε → ε'} {r : Except ε α} {a : α} :
    r.mapError f = .ok a ↔ r = .ok a := by
  cases r with
  | error e => exact ⟨nofun, nofun⟩
  | ok b =>
      change (.ok b : Except ε' α) = .ok a ↔ _
      rw [Except.ok.injEq, Except.ok.injEq]

/-- The success of a result and its failure are changed independently. -/
theorem mapError_map {ε ε' α β : Type} (f : α → β) (g : ε → ε') (r : Except ε α) :
    (r.map f).mapError g = (r.mapError g).map f := by
  cases r <;> rfl

namespace Walk

variable {α β : Type} {env : Env} {descend : Descend} {names : List Name}

/-- What a sequence comes to depends on what its parts come to, and on nothing else. -/
theorem Restores.outcome_bind {w : Walk α} (hw : w.Restores) (f : α → Walk β) (names : List Name) :
    ((w >>= f).run names).outcome
      = (w.run names).outcome >>= fun a => ((f a).run names).outcome := by
  have hnames := hw names
  rw [run_bind]
  rcases hrun : w.run names with ⟨failure | a, left, events⟩ <;> rw [hrun] at hnames
  · rfl
  · obtain rfl : left = names := hnames
    rfl

/-! ## Fields -/

theorem outcome_extraPathsOf (site : FieldSite) (node : Address) :
    ((extraPathsOf env site node).run names).outcome
      = (env.hooks.extraPathsAt site).mapError .refused := by
  unfold extraPathsOf Hooks.extraPathsAt
  cases env.hooks.extraPaths with
  | none => rfl
  | some hook =>
      change ((hooked (hook site)).run names).outcome = (hook site).mapError Failure.refused
      cases hook site <;> rfl

theorem outcome_namesOf (site : FieldSite) (node : Address) :
    ((namesOf env site node).run names).outcome
      = (env.hooks.namesAt site).mapError .refused := by
  unfold namesOf Hooks.namesAt
  cases env.hooks.fieldNames with
  | none => rfl
  | some hook =>
      change ((hooked (hook site) >>= fun given => pure (given.map OneOrMany.toList)).run
        names).outcome = ((hook site).map (Option.map OneOrMany.toList)).mapError Failure.refused
      cases hook site <;> rfl

theorem field_of_error {type name : Name} {error : MaskError} (hname : name ≠ typenameField)
    (hfield : env.schema.fieldNamed type name = .error error) (node : Address)
    (aliasName : Option String) (ss : Option (List Selection)) :
    field env descend type node name aliasName ss = fail (.mask error (some node)) := by
  rw [field, if_neg hname, hfield]
  rfl

theorem field_of_found {type name : Name} {definition : FieldDef} (hname : name ≠ typenameField)
    (hfield : env.schema.fieldNamed type name = .ok definition) (node : Address)
    (aliasName : Option String) (ss : Option (List Selection)) :
    field env descend type node name aliasName ss = (do
      let extra ← extraPathsOf env ⟨type, definition, aliasName⟩ node
      match ← namesOf env ⟨type, definition, aliasName⟩ node with
      | none =>
          note (.skipped type name)
          return extra
      | some given => return extra ++ (← pathsBelow descend definition node given ss)) := by
  rw [field, if_neg hname, hfield]
  rfl

/-- What a field comes to: its hooks are asked in turn, and what is below it counts only if it has
    names. -/
theorem outcome_field_of_found (hd : descend.Restores) {type name : Name} {definition : FieldDef}
    (hname : name ≠ typenameField) (hfield : env.schema.fieldNamed type name = .ok definition)
    (node : Address) (aliasName : Option String) (ss : Option (List Selection)) :
    ((field env descend type node name aliasName ss).run names).outcome = (do
      let extra ← (env.hooks.extraPathsAt ⟨type, definition, aliasName⟩).mapError .refused
      let given ← (env.hooks.namesAt ⟨type, definition, aliasName⟩).mapError .refused
      match given with
      | none => return extra
      | some given =>
          ((pathsBelow descend definition node given ss).run names).outcome.map (extra ++ ·)) := by
  rw [field_of_found hname hfield, (restores_extraPathsOf _ _).outcome_bind, outcome_extraPathsOf]
  congr 1
  funext extra
  rw [(restores_namesOf _ _).outcome_bind, outcome_namesOf]
  congr 1
  funext given
  cases given with
  | none => rfl
  | some given =>
      exact (restores_pathsBelow hd definition node given ss).outcome_bind _ names

theorem field_unset_of_found {schema : Schema} {fragments : FragmentTable} {type name : Name}
    {definition : FieldDef} (hname : name ≠ typenameField)
    (hfield : schema.fieldNamed type name = .ok definition) (node : Address)
    (aliasName : Option String) (ss : Option (List Selection)) :
    field ⟨schema, fragments, .unset⟩ descend type node name aliasName ss
      = pathsBelow descend definition node [name] ss := by
  rw [field, if_neg hname, hfield]
  simp [extraPathsOf, namesOf, Hooks.unset, Schema.name_of_fieldNamed hfield]

/-! ## Fragments -/

section

variable {frame : Frame} {condition : Name} {target current : NamedType}

theorem enterFragment_of_unknown (htarget : env.schema.type? condition = none) (node : Address)
    (ss : List Selection) :
    enterFragment env descend frame condition node ss
      = fail (.mask (.unknownType condition) (some node)) := by
  rw [enterFragment, Schema.typeNamed_eq_error_iff.2 ⟨htarget, rfl⟩]
  rfl

theorem enterFragment_of_unknown_current (htarget : env.schema.type? condition = some target)
    (hcurrent : env.schema.type? frame.type = none) (node : Address) (ss : List Selection) :
    enterFragment env descend frame condition node ss
      = fail (.mask (.unknownType frame.type) (some node)) := by
  rw [enterFragment, Schema.typeNamed_eq_ok_iff.2 htarget,
    Schema.typeNamed_eq_error_iff.2 ⟨hcurrent, rfl⟩]
  rfl

/-- A fragment on a type that is known, at a type that is known. -/
theorem enterFragment_of_known (htarget : env.schema.type? condition = some target)
    (hcurrent : env.schema.type? frame.type = some current) (node : Address)
    (ss : List Selection) :
    enterFragment env descend frame condition node ss =
      if current.isAbstract then
        if condition = frame.type then descend frame node ss
        else
          match env.hooks.narrowing with
          | none => do
              note (.ignoredNarrowing condition frame.type)
              return []
          | some hook =>
              match frame.enclosing with
              | none => fail (.noEnclosingField condition frame.type)
              | some field =>
                  narrow descend hook ⟨frame.type, condition, target.metadata, field⟩ node ss
      else if condition ≠ frame.type ∧ target.isAbstract = false then do
        note (.ignoredUnrelated condition frame.type)
        return []
      else descend frame node ss := by
  rw [enterFragment, Schema.typeNamed_eq_ok_iff.2 htarget, Schema.typeNamed_eq_ok_iff.2 hcurrent]
  rfl

/-- A fragment that is read in place. -/
theorem enterFragment_of_enters (htarget : env.schema.type? condition = some target)
    (hcurrent : env.schema.type? frame.type = some current)
    (henters : env.schema.Enters condition frame.type) (node : Address) (ss : List Selection) :
    enterFragment env descend frame condition node ss = descend frame node ss := by
  rw [enterFragment_of_known htarget hcurrent]
  rw [Schema.Enters, Schema.isAbstract_iff htarget, Schema.isAbstract_iff hcurrent] at henters
  rcases henters with hsame | ⟨habstract, hconcrete⟩
  · simp [hsame]
  · rw [if_neg hconcrete, if_neg (fun h => by simp [habstract] at h)]

/-- A fragment on a concrete type, at another one. -/
theorem enterFragment_of_unrelated (htarget : env.schema.type? condition = some target)
    (hcurrent : env.schema.type? frame.type = some current) (hconcrete : ¬ current.isAbstract)
    (hskips : ¬ env.schema.Enters condition frame.type) (node : Address) (ss : List Selection) :
    enterFragment env descend frame condition node ss = (do
      note (.ignoredUnrelated condition frame.type)
      return []) := by
  rw [Schema.Enters, Schema.isAbstract_iff htarget, Schema.isAbstract_iff hcurrent] at hskips
  obtain ⟨hother, hskips⟩ := not_or.1 hskips
  have hunrelated : target.isAbstract = false := by
    simpa using fun habstract => hskips ⟨habstract, hconcrete⟩
  rw [enterFragment_of_known htarget hcurrent, if_neg hconcrete, if_pos ⟨hother, hunrelated⟩]

/-- A fragment on another type than the abstract one it stands at. -/
theorem enterFragment_of_narrows (htarget : env.schema.type? condition = some target)
    (hcurrent : env.schema.type? frame.type = some current) (habstract : current.isAbstract)
    (hother : condition ≠ frame.type) (node : Address) (ss : List Selection) :
    enterFragment env descend frame condition node ss =
      match env.hooks.narrowing with
      | none => do
          note (.ignoredNarrowing condition frame.type)
          return []
      | some hook =>
          match frame.enclosing with
          | none => fail (.noEnclosingField condition frame.type)
          | some field =>
              narrow descend hook ⟨frame.type, condition, target.metadata, field⟩ node ss := by
  rw [enterFragment_of_known htarget hcurrent, if_pos habstract, if_neg hother]

/-- Without a hook for members, a fragment that is not read in place is ignored. -/
theorem enterFragment_of_skips (hplain : env.hooks.narrowing = none)
    (htarget : env.schema.type? condition = some target)
    (hcurrent : env.schema.type? frame.type = some current)
    (hskips : ¬ env.schema.Enters condition frame.type) (node : Address) (ss : List Selection) :
    enterFragment env descend frame condition node ss = (do
      note (if current.isAbstract then .ignoredNarrowing condition frame.type
        else .ignoredUnrelated condition frame.type)
      return []) := by
  by_cases habstract : current.isAbstract
  · have hother : condition ≠ frame.type := fun hsame => hskips (.inl hsame)
    rw [enterFragment_of_narrows htarget hcurrent habstract hother, hplain, if_pos habstract]
  · rw [enterFragment_of_unrelated htarget hcurrent habstract hskips, if_neg habstract]

end

/-- A member comes to what is walked from it. -/
theorem outcome_memberPaths (hd : descend.Restores) (n : Narrowing) (node : Address)
    (ss : List Selection) :
    ((memberPaths descend n node ss).run names).outcome
      = ((descend ⟨n.concreteType, some n.field⟩ node ss).run names).outcome := by
  rw [memberPaths, (hd _ _ _).outcome_bind]
  cases ((descend ⟨n.concreteType, some n.field⟩ node ss).run names).outcome <;> rfl

/-! ## Selections -/

/-- What selections come to: the first of them, and then the others. -/
theorem outcome_selectionsFrom_cons (hd : descend.Restores) (frame : Frame) (node : Address)
    (index : Nat) (s : Selection) (rest : List Selection) :
    ((selectionsFrom env descend frame node index (s :: rest)).run names).outcome = (do
      let paths ← ((pathsOf env descend frame (node.child index) s).run names).outcome
      ((selectionsFrom env descend frame node (index + 1) rest).run names).outcome.map
        (paths ++ ·)) := by
  rw [selectionsFrom_cons, (restores_selection hd _ _ _).outcome_bind]
  -- The visit that is recorded first changes no outcome.
  change ((pathsOf env descend frame (node.child index) s).run names).outcome >>= _ = _
  congr 1
  funext paths
  exact (restores_selectionsFrom hd _ _ _ _).outcome_bind _ names

end Walk

end SelectionMask
