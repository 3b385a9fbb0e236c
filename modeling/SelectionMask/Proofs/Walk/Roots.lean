import SelectionMask.Proofs.OrderedSet.FirstOccurrence
import SelectionMask.Proofs.Walk.Returns

set_option autoImplicit false

/-! # Root nodes in turn

A mask is built up in an ordered set while the root nodes are walked one after the other. It comes
to the same to walk them all first, keep every repetition, and erase the later occurrences at the
end: `Walk.rootPaths` is that walk, and `outcome_maskPaths` says that the mask is its list with
later occurrences erased. -/

namespace SelectionMask

namespace Walk

variable {env : Env} {names : List Name} {paths : List String}

/-- The paths of the root nodes in turn, repetitions kept. The first node has the given index. -/
def rootPaths (env : Env) (type : Name) : Nat → List RootNode → Walk (List String)
  | _, [] => return []
  | index, root :: rest => do
      let paths ← selections env ⟨type, none⟩ (.root index) root.selections
      return paths ++ (← rootPaths env type (index + 1) rest)

theorem restores_rootPaths (env : Env) (type : Name) (roots : List RootNode) (index : Nat) :
    (rootPaths env type index roots).Restores := by
  induction roots generalizing index with
  | nil => exact restores_pure _
  | cons root rest ih =>
      exact (restores_selections env _ _ _).bind fun _ => (ih (index + 1)).bind fun _ =>
        restores_pure _

/-- Adding the paths of each node as it is walked, or those of all nodes at the end. -/
theorem mergeRoots_eq (type : Name) (roots : List RootNode) (index : Nat)
    (found : OrderedSet String) :
    mergeRoots env type index roots found
      = rootPaths env type index roots >>= fun paths => pure (found.update paths) := by
  induction roots generalizing index found with
  | nil => rfl
  | cons root rest ih =>
      rw [mergeRoots, rootPaths, bind_assoc]
      congr 1
      funext paths
      rw [ih, bind_assoc]
      congr 1
      funext others
      rw [pure_bind, OrderedSet.update_append]

theorem rootPaths_singleton (env : Env) (type : Name) (index : Nat) (root : RootNode) :
    rootPaths env type index [root]
      = selections env ⟨type, none⟩ (.root index) root.selections := by
  simp [rootPaths]

/-- What a single root node comes to. -/
theorem outcome_rootPaths_singleton (env : Env) (type : Name) (index : Nat) (root : RootNode) :
    ((rootPaths env type index [root]).run names).outcome
      = ((selections env ⟨type, none⟩ (.root index) root.selections).run names).outcome := by
  rw [rootPaths_singleton]

theorem returns_rootPaths_nil_iff {type : Name} {index : Nat} :
    (rootPaths env type index []).Returns names paths ↔ paths = [] := by
  rw [rootPaths, returns_pure_iff, eq_comm]

theorem returns_rootPaths_cons_iff {type : Name} {index : Nat} {root : RootNode}
    {rest : List RootNode} :
    (rootPaths env type index (root :: rest)).Returns names paths ↔
      ∃ found others,
        (selections env ⟨type, none⟩ (.root index) root.selections).Returns names found ∧
        (rootPaths env type (index + 1) rest).Returns names others ∧ paths = found ++ others := by
  rw [rootPaths, (restores_selections env _ _ _).returns_bind_iff]
  simp only [(restores_rootPaths env type rest (index + 1)).returns_bind_iff, returns_pure_iff]
  constructor
  · rintro ⟨found, hfound, others, hothers, rfl⟩
    exact ⟨found, others, hfound, hothers, rfl⟩
  · rintro ⟨found, others, hfound, hothers, rfl⟩
    exact ⟨found, hfound, others, hothers, rfl⟩

end Walk

/-! ## The mask -/

variable {schema : Schema} {fragments : FragmentTable} {type : Name} {roots : List RootNode}
  {hooks : Option Hooks}

theorem outcome_maskPaths_of_unknown (h : schema.type? type = none) :
    (maskPaths type roots fragments schema hooks).outcome
      = .error (.mask (.unknownType type) none) := by
  change ((Walk.mask ⟨schema, fragments, hooks.getD .unset⟩ type roots).run []).outcome = _
  rw [Walk.mask, Schema.typeNamed_eq_error_iff.2 ⟨h, rfl⟩]
  rfl

/-- **A mask is the list of all paths, with later occurrences erased.** -/
theorem outcome_maskPaths {t : NamedType} (h : schema.type? type = some t) :
    (maskPaths type roots fragments schema hooks).outcome
      = ((Walk.rootPaths ⟨schema, fragments, hooks.getD .unset⟩ type 0 roots).run
          []).outcome.map List.eraseDups := by
  have hfound : ∀ env : Env, ((Walk.mergeRoots env type 0 roots .empty >>= fun found => do
      Walk.note (.computed found.size type)
      return found.toList).run []).outcome
        = ((Walk.rootPaths env type 0 roots).run []).outcome.map List.eraseDups := by
    intro env
    rw [Walk.mergeRoots_eq, bind_assoc, (Walk.restores_rootPaths env type roots 0).outcome_bind]
    cases ((Walk.rootPaths env type 0 roots).run []).outcome with
    | error failure => rfl
    | ok paths => exact congrArg Except.ok (OrderedSet.toList_ofList paths)
  -- The look-up of the type succeeds, and a note changes no outcome.
  change ((Walk.mask ⟨schema, fragments, hooks.getD .unset⟩ type roots).run []).outcome = _
  rw [Walk.mask, Schema.typeNamed_eq_ok_iff.2 h]
  exact hfound _

/-- A computation calls the hooks that its root nodes call, and visits what they visit. -/
theorem observed_maskPaths {t : NamedType} (htype : schema.type? type = some t)
    (fragments : FragmentTable) (hooks : Option Hooks) (roots : List RootNode) :
    let report := maskPaths type roots fragments schema hooks
    let run := (Walk.rootPaths ⟨schema, fragments, hooks.getD .unset⟩ type 0 roots).run []
    traceOf report.events = traceOf run.events ∧ visitsOf report.events = visitsOf run.events := by
  intro report run
  let env : Env := ⟨schema, fragments, hooks.getD .unset⟩
  -- Before and after the root nodes there is at most a note.
  have hmerged : ∃ closing : List Note,
      ((Walk.mergeRoots env type 0 roots .empty >>= fun found => do
        Walk.note (.computed found.size type)
        return found.toList).run []).events
        = ((Walk.rootPaths env type 0 roots).run []).events ++ closing.map .note := by
    rw [Walk.mergeRoots_eq, bind_assoc, Walk.run_bind]
    rcases (Walk.rootPaths env type 0 roots).run [] with ⟨failure | paths, left, events⟩
    · exact ⟨[], (List.append_nil events).symm⟩
    · exact ⟨[.computed (OrderedSet.empty.update paths).size type], rfl⟩
  obtain ⟨closing, hclosing⟩ := hmerged
  have hevents : report.events
      = [.note (.computing type roots.length)] ++ (run.events ++ closing.map .note) := by
    change ((Walk.mask env type roots).run []).events = _
    rw [Walk.mask, Schema.typeNamed_eq_ok_iff.2 htype]
    exact congrArg ([Event.note (.computing type roots.length)] ++ ·) hclosing
  have htrace : ∀ notes : List Note, traceOf (notes.map .note) = [] := fun notes => by
    simp [traceOf, Event.hook?]
  have hvisits : ∀ notes : List Note, visitsOf (notes.map .note) = [] := fun notes => by
    simp [visitsOf, Event.visit?]
  rw [hevents, traceOf_append, traceOf_append, visitsOf_append, visitsOf_append, htrace, hvisits,
    List.append_nil, List.append_nil]
  exact ⟨rfl, rfl⟩

theorem maskPaths_eq_ok_iff {paths : List String} :
    (maskPaths type roots fragments schema hooks).outcome = .ok paths ↔
      (∃ t, schema.type? type = some t) ∧ ∃ found,
        (Walk.rootPaths ⟨schema, fragments, hooks.getD .unset⟩ type 0 roots).Returns [] found ∧
        found.eraseDups = paths := by
  cases htype : schema.type? type with
  | none =>
      rw [outcome_maskPaths_of_unknown htype]
      simp
  | some t =>
      rw [outcome_maskPaths htype]
      simp only [Walk.Returns]
      cases ((Walk.rootPaths ⟨schema, fragments, hooks.getD .unset⟩ type 0 roots).run
        []).outcome <;> simp [Except.map]

end SelectionMask
