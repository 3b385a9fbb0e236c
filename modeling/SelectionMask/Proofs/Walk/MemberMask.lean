import SelectionMask.Proofs.Walk.ChildMask
import SelectionMask.Proofs.Walk.Visits

set_option autoImplicit false

/-! # The members of a field and their own masks

The fragments below a field of abstract type are left to the narrowing hook. A hook that puts each
member under a segment reads the member's selections where they stand, with the field around them.
`maskPaths_members` says that it finds there what a computation finds that starts at the member, and
that a member without a segment is not looked into.

`Member.given` is what a member comes to if the walk starts at it. The selections of the field come
to what their members come to in turn (`Walk.outcome_selections_members`); everything else is about
lists. -/

namespace SelectionMask

/-! ## Results in turn -/

section

variable {ε α β : Type} {f : α → Except ε β}

theorem mapM_eq_ok {g : α → β} {as : List α} (h : ∀ a ∈ as, f a = .ok (g a)) :
    as.mapM f = .ok (as.map g) := by
  induction as with
  | nil => rfl
  | cons a rest ih =>
      rw [List.mapM_cons, h a List.mem_cons_self, ih fun b hb => h b (List.mem_cons_of_mem a hb)]
      rfl

/-- The first error is what all of it comes to. -/
theorem mapM_eq_error {before after : List α} {a : α} {e : ε}
    (hbefore : ∀ b ∈ before, ∃ c, f b = .ok c) (h : f a = .error e) :
    (before ++ a :: after).mapM f = .error e := by
  induction before with
  | nil =>
      rw [List.nil_append, List.mapM_cons, h]
      rfl
  | cons b rest ih =>
      obtain ⟨c, hc⟩ := hbefore b List.mem_cons_self
      have hrest := ih fun d hd => hbefore d (List.mem_cons_of_mem b hd)
      rw [List.cons_append, List.mapM_cons, hc, hrest]
      rfl

end

/-! ## Members -/

/-- A segment for each type, or none, from its name and metadata. -/
abbrev TypeSegments := Name → Option TypeMetadata → Option String

/-- Each member under the segment of its type. -/
def TypeSegments.hook (segments : TypeSegments) : NarrowingHook :=
  Hooks.underSegments fun n => .ok (segments n.concreteType n.concreteMetadata)

/-- That hook for members, and no other. -/
def Hooks.ofSegments (segments : TypeSegments) : Hooks :=
  ⟨none, none, some segments.hook⟩

/-- A type that is not abstract, and a root node whose selections are read at it. -/
structure Member (schema : Schema) where
  type : NamedType
  root : RootNode
  found : schema.type? type.name = some type
  concrete : type.isAbstract = false

namespace Member

variable {schema : Schema} (fragments : FragmentTable) (segments : TypeSegments)
  (m : Member schema)

/-- The selections as a fragment on the type. -/
def fragment : Selection :=
  .fragment (some m.type.name) m.root.selections

/-- The segment of the type. -/
def segment? : Option String :=
  segments m.type.name m.type.metadata

/-- The mask of the member alone. -/
def mask : Except Failure (List String) :=
  (maskPaths m.type.name [m.root] fragments schema (some (.ofSegments segments))).outcome

/-- The paths that a walk finds from the member alone, repetitions kept. The failure it may end with
    instead blames no node. -/
def paths : Except Failure (List String) :=
  ((Walk.selections ⟨schema, fragments, .ofSegments segments⟩ ⟨m.type.name, none⟩ (.root 0)
    m.root.selections).run []).outcome.mapError Failure.unplaced

/-- What the member gives under its segment, and nothing without one. -/
def given : Except Failure (List String) :=
  (m.segment? segments).elim (.ok []) fun segment =>
    (m.paths fragments segments).map (List.map (joinPath segment))

theorem not_isAbstract : ¬ schema.IsAbstract m.type.name :=
  Schema.not_isAbstract_of_concrete m.found m.concrete

/-- The member narrows any abstract type. -/
theorem not_enters {type : Name} (habstract : schema.IsAbstract type) :
    ¬ schema.Enters m.type.name type := by
  intro henters
  have hsame := henters.eq_of_isAbstract habstract
  exact m.not_isAbstract (hsame ▸ habstract)

/-- The mask is what the walk finds, with later occurrences erased. -/
theorem mask_eq :
    (m.mask fragments segments).mapError Failure.unplaced
      = (m.paths fragments segments).map List.eraseDups := by
  rw [mask, outcome_maskPaths m.found, Walk.outcome_rootPaths_singleton, mapError_map]
  rfl

variable {fragments segments m}

theorem given_of_error {failure : Failure} (hsegment : (m.segment? segments).isSome)
    (h : m.mask fragments segments = .error failure) :
    m.given fragments segments = .error failure.unplaced := by
  have heq := m.mask_eq fragments segments
  obtain ⟨segment, hsegment⟩ := Option.isSome_iff_exists.1 hsegment
  rw [h] at heq
  rw [given, hsegment]
  rcases hfound : m.paths fragments segments with failure' | found <;> rw [hfound] at heq
  · exact heq.symm
  · cases heq

/-- A member whose mask is known, or that has no segment, gives the mask but for repetitions. -/
theorem exists_given {paths : List String}
    (h : (m.segment? segments).isSome → m.mask fragments segments = .ok paths) :
    ∃ found : List String, m.given fragments segments = .ok found ∧
      found.eraseDups = ((m.segment? segments).elim [] fun segment =>
        paths.map (joinPath segment)).eraseDups := by
  rw [given]
  cases hsegment : m.segment? segments with
  | none => exact ⟨[], rfl, rfl⟩
  | some segment =>
      have heq := m.mask_eq fragments segments
      rw [h (by rw [hsegment]; rfl)] at heq
      rcases hfound : m.paths fragments segments with failure | found <;> rw [hfound] at heq
      · cases heq
      · obtain rfl : paths = found.eraseDups := Except.ok.inj heq
        exact ⟨found.map (joinPath segment), rfl,
          (OrderedSet.eraseDups_map_eraseDups (joinPath segment) found).symm⟩

end Member

/-! ## Addresses -/

namespace Address

variable {address node : Address}

/-- The address is that of something in the node, at whatever depth. -/
def IsBelow (address node : Address) : Prop :=
  ∃ index rest, address = ⟨node.origin, node.steps ++ index :: rest⟩

theorem isBelow_child (node : Address) (index : Nat) : (node.child index).IsBelow node :=
  ⟨index, [], rfl⟩

theorem IsBelow.child (h : address.IsBelow node) (index : Nat) :
    (address.child index).IsBelow node := by
  obtain ⟨first, rest, rfl⟩ := h
  exact ⟨first, rest ++ [index], by simp [Address.child]⟩

theorem IsBelow.origin_eq (h : address.IsBelow node) : address.origin = node.origin := by
  obtain ⟨first, rest, rfl⟩ := h
  rfl

/-- An address stands below at most one selection of a node. -/
theorem IsBelow.index_eq {index index' : Nat} (h : address.IsBelow (node.child index))
    (h' : address.IsBelow (node.child index')) : index = index' := by
  obtain ⟨first, rest, rfl⟩ := h
  obtain ⟨first', rest', hsteps⟩ := h'
  simp only [Address.child, Address.mk.injEq, List.append_assoc, List.append_cancel_left_eq,
    List.singleton_append, List.cons.injEq] at hsteps
  exact hsteps.2.1

/-- A selection of a node is not below another one. -/
theorem not_child_isBelow_child (node : Address) (index index' : Nat) :
    ¬ (node.child index).IsBelow (node.child index') := by
  rintro ⟨first, rest, hsteps⟩
  have hlength := congrArg (fun address => address.steps.length) hsteps
  simp [Address.child] at hlength

end Address

namespace Walk

variable {descend : Descend} {names : List Name} {node : Address}

/-! ## What a member comes to in a walk -/

theorem outcome_narrow_underSegment (hd : descend.Restores) {hook : NarrowingHook} {n : Narrowing}
    {segment? : Option String} (hhook : hook n = .underSegment segment?) (ss : List Selection) :
    ((narrow descend hook n node ss).run names).outcome
      = segment?.elim (.ok []) fun segment =>
          ((descend ⟨n.concreteType, some n.field⟩ node ss).run names).outcome.map
            (List.map (joinPath segment)) := by
  rw [run_narrow hd, hhook]
  cases segment? with
  | none => rfl
  | some segment =>
      rw [← outcome_memberPaths hd]
      change ((Strategy.underSegment (some segment)).against
        ((memberPaths descend n node ss).run names).outcome).1 = _
      cases ((memberPaths descend n node ss).run names).outcome <;> rfl

section

variable {schema : Schema} {fragments : FragmentTable} {segments : TypeSegments} {type : Name}

/-- At an abstract type a member is left to the hook. -/
theorem pathsOf_member (habstract : schema.IsAbstract type) (field : FieldDef) (m : Member schema) :
    pathsOf ⟨schema, fragments, .ofSegments segments⟩ descend ⟨type, some field⟩ node m.fragment
      = narrow descend segments.hook ⟨type, m.type.name, m.type.metadata, field⟩ node
          m.root.selections := by
  obtain ⟨current, hcurrent, hcurrentAbstract⟩ := habstract
  have hother : m.type.name ≠ type :=
    fun hsame => m.not_enters ⟨current, hcurrent, hcurrentAbstract⟩ (.inl hsame)
  rw [Member.fragment, pathsOf, conditionAt_some,
    enterFragment_of_narrows m.found hcurrent hcurrentAbstract hother]
  rfl

/-- One member comes to what it gives, although it has a field around it. -/
theorem outcome_pathsOf_member (habstract : schema.IsAbstract type) (field : FieldDef)
    (m : Member schema) :
    let env : Env := ⟨schema, fragments, .ofSegments segments⟩
    ((pathsOf env (selections env) ⟨type, some field⟩ node m.fragment).run
        []).outcome.mapError Failure.unplaced
      = m.given fragments segments := by
  intro env
  have hd := restores_selections env
  have hbelow : ((selections env ⟨m.type.name, some field⟩ node m.root.selections).run
      []).outcome.mapError Failure.unplaced = m.paths fragments segments :=
    outcome_selections_of_concrete m.not_isAbstract _ _ _ _ [] m.root.selections
  have hhook : segments.hook ⟨type, m.type.name, m.type.metadata, field⟩
      = .underSegment (m.segment? segments) := rfl
  rw [pathsOf_member habstract field m, outcome_narrow_underSegment hd hhook, Member.given]
  cases m.segment? segments with
  | none => rfl
  | some segment =>
      rw [Option.elim, Option.elim, mapError_map, hbelow]

/-- **The members of a field come to what each of them gives**, in turn. -/
theorem outcome_selections_members (habstract : schema.IsAbstract type) (field : FieldDef)
    (node : Address) (members : List (Member schema)) :
    let env : Env := ⟨schema, fragments, .ofSegments segments⟩
    ((selections env ⟨type, some field⟩ node (members.map Member.fragment)).run
        []).outcome.mapError Failure.unplaced
      = (members.mapM (Member.given fragments segments)).map List.flatten := by
  intro env
  have hd := restores_selections env
  rw [selections_eq]
  generalize (0 : Nat) = index
  induction members generalizing index with
  | nil => rfl
  | cons m rest ih =>
      rw [List.map_cons, outcome_selectionsFrom_cons hd, List.mapM_cons,
        ← outcome_pathsOf_member habstract field m]
      cases ((pathsOf env (selections env) ⟨type, some field⟩ (node.child index) m.fragment).run
          []).outcome with
      | error failure => rfl
      | ok paths =>
          change Except.mapError _ (Except.map (paths ++ ·) _) = _
          rw [mapError_map, ih]
          cases rest.mapM (Member.given fragments segments) <;> rfl

/-- Without a hook all members are ignored. -/
theorem returns_selections_members_unset (habstract : schema.IsAbstract type)
    (enclosing : Option FieldDef) (members : List (Member schema)) :
    (selections ⟨schema, fragments, .unset⟩ ⟨type, enclosing⟩ node
      (members.map Member.fragment)).Returns names [] := by
  obtain ⟨current, hcurrent, -⟩ := id habstract
  rw [selections_eq]
  generalize (0 : Nat) = index
  induction members generalizing index with
  | nil => rfl
  | cons m rest ih =>
      have hm : (enterFragment ⟨schema, fragments, .unset⟩ (selections ⟨schema, fragments, .unset⟩)
          ⟨type, enclosing⟩ m.type.name (node.child index) m.root.selections).Returns names [] :=
        (returns_enterFragment_iff_of_plain rfl).2
          ⟨m.type, current, m.found, hcurrent, .inr ⟨m.not_enters habstract, rfl⟩⟩
      exact (returns_selectionsFrom_cons_iff (restores_selections _)).2
        ⟨[], [], hm, ih (index + 1), rfl⟩

/-! ## What is visited -/

/-- What a walk visits from a node on stands below the node, or in the definition of a fragment. -/
theorem below_invariant (env : Env) (node : Address) :
    Visit.Invariant env
      (fun v => v.node.IsBelow node ∨ ∃ name, v.node.origin = .definition name) fun _ => True where
  step := by
    intro v w h hleads
    cases hleads with
    | branch _ _ _ _ => exact h.imp (·.child _) id
    | fragment _ _ => exact h.imp (·.child _) id
    | spread _ _ _ _ => exact .inr ⟨_, rfl⟩
  exhausted := trivial

/-- A member that has no segment is not looked into. -/
theorem keeps_selections_members (habstract : schema.IsAbstract type) (field : FieldDef)
    {node : Address} (hnode : ∀ name, node.origin ≠ .definition name)
    {members : List (Member schema)} {index : Nat} {m : Member schema}
    (hm : members[index]? = some m) (hsegment : m.segment? segments = none) :
    let env : Env := ⟨schema, fragments, .ofSegments segments⟩
    Keeps env (fun v => ¬ v.node.IsBelow (node.child index)) (fun _ => True) names
      (selections env ⟨type, some field⟩ node (members.map Member.fragment)) := by
  intro env
  have hd := restores_selections env
  rw [selections_eq]
  refine keeps_each hd fun position s hs => ?_
  obtain ⟨other, hother, rfl⟩ : ∃ other, members[position]? = some other ∧ other.fragment = s := by
    simpa using hs
  rw [Nat.zero_add]
  refine keeps_selection (Address.not_child_isBelow_child node position index) ?_
  rw [pathsOf_member habstract field other]
  by_cases hposition : position = index
  · -- The hook answers at once.
    obtain rfl : other = m := Option.some.inj (hother.symm.trans (hposition ▸ hm))
    have hanswer : segments.hook ⟨type, other.type.name, other.type.metadata, field⟩
        = .answer [] :=
      congrArg Strategy.underSegment hsegment
    rw [narrow, hanswer]
    exact keeps_emit_bind rfl (keeps_pure [])
  · -- Any other member is walked from another position.
    have hbelow : Keeps env (fun v => v.node.IsBelow (node.child position) ∨
        ∃ name, v.node.origin = .definition name) (fun _ => True) names
        (selections env ⟨other.type.name, some field⟩ (node.child position)
          other.root.selections) :=
      (below_invariant env (node.child position)).below_selections fun below _ _ =>
        .inl (Address.isBelow_child _ below)
    refine keeps_narrow (fun _ => .inl trivial) hd _ _
      ⟨fun v hv hinside => ?_, fun _ _ => .inl (.inl trivial)⟩
    rcases hbelow.visits v hv with hother | ⟨name, hdefinition⟩
    · exact hposition (hother.index_eq hinside)
    · exact hnode name (hinside.origin_eq.symm.trans hdefinition)

end

end Walk

/-! ## The mask -/

section

variable {schema : Schema} (fragments : FragmentTable) (segments : TypeSegments) {type name : Name}
  {definition : FieldDef} {aliasName : Option String} {root : RootNode}
  {members : List (Member schema)}

/-- What the mask of the field comes to. -/
theorem outcome_maskPaths_members (hname : name ≠ typenameField)
    (hfield : schema.fieldNamed type name = .ok definition)
    (habstract : schema.IsAbstract definition.namedType)
    (hroot : root.selections = [.branch name aliasName (members.map Member.fragment)]) :
    (maskPaths type [root] fragments schema
        (some (.ofSegments segments))).outcome.mapError Failure.unplaced
      = (members.mapM (Member.given fragments segments)).map fun paths =>
          (paths.flatten.map (joinPath name)).eraseDups := by
  rw [outcome_maskPaths_field_of_plain rfl rfl hname hfield hroot, mapError_map]
  change Except.map _ (Except.mapError _ ((Walk.selections ⟨schema, fragments, .ofSegments segments⟩
    _ _ _).run []).outcome) = _
  rw [Walk.outcome_selections_members habstract]
  cases members.mapM (Member.given fragments segments) <;> rfl

/-- The first member that fails is what the mask of the field fails with. -/
theorem maskPaths_members_of_error (hname : name ≠ typenameField)
    (hfield : schema.fieldNamed type name = .ok definition)
    (habstract : schema.IsAbstract definition.namedType) {before after : List (Member schema)}
    {m : Member schema} {failure : Failure}
    (hroot : root.selections
      = [.branch name aliasName ((before ++ m :: after).map Member.fragment)])
    (hbefore : ∀ m' ∈ before, (m'.segment? segments).isSome →
      ∃ paths, m'.mask fragments segments = .ok paths)
    (hsegment : (m.segment? segments).isSome) (hm : m.mask fragments segments = .error failure) :
    ∃ blaming,
      (maskPaths type [root] fragments schema (some (.ofSegments segments))).outcome
        = .error blaming ∧ blaming.unplaced = failure.unplaced := by
  have hreport := outcome_maskPaths_members fragments segments hname hfield habstract hroot
  choose! pathsOf hpaths using hbefore
  have hgiven : ∀ m' ∈ before, ∃ found, m'.given fragments segments = .ok found := by
    intro m' hm'
    obtain ⟨found, hfound, -⟩ := Member.exists_given (hpaths m' hm')
    exact ⟨found, hfound⟩
  rw [mapM_eq_error hgiven (Member.given_of_error hsegment hm)] at hreport
  rcases houtcome : (maskPaths type [root] fragments schema
    (some (.ofSegments segments))).outcome with blaming | paths <;> rw [houtcome] at hreport
  · exact ⟨blaming, rfl, Except.error.inj hreport⟩
  · cases hreport

/-- If no member fails, the mask of the field has the masks of the members. -/
theorem maskPaths_members_of_ok (hname : name ≠ typenameField)
    (hfield : schema.fieldNamed type name = .ok definition)
    (habstract : schema.IsAbstract definition.namedType)
    (hroot : root.selections = [.branch name aliasName (members.map Member.fragment)])
    {pathsOf : Member schema → List String}
    (hpaths : ∀ m ∈ members, (m.segment? segments).isSome →
      m.mask fragments segments = .ok (pathsOf m)) :
    (maskPaths type [root] fragments schema (some (.ofSegments segments))).outcome
      = .ok (members.flatMap fun m => (m.segment? segments).elim [] fun segment =>
          (pathsOf m).map fun path => joinPath name (joinPath segment path)).eraseDups := by
  have hreport := outcome_maskPaths_members fragments segments hname hfield habstract hroot
  have hgiven := fun m hm => Member.exists_given (hpaths m hm)
  choose! found hfound hsame using hgiven
  rw [mapM_eq_ok hfound] at hreport
  refine (mapError_eq_ok_iff.1 hreport).trans (congrArg Except.ok ?_)
  -- The name of the field is put in front of repetitions, too.
  change ((members.map found).flatten.map (joinPath name)).eraseDups = _
  rw [← List.flatMap_def, List.map_flatMap]
  refine OrderedSet.eraseDups_flatMap_congr fun m hm => ?_
  rw [← OrderedSet.eraseDups_map_eraseDups, hsame m hm, OrderedSet.eraseDups_map_eraseDups]
  cases m.segment? segments with
  | none => rfl
  | some segment => exact congrArg List.eraseDups (List.map_map ..)

/-- The field without a hook for its members. -/
theorem outcome_maskPaths_members_unset (hname : name ≠ typenameField)
    (hfield : schema.fieldNamed type name = .ok definition)
    (habstract : schema.IsAbstract definition.namedType)
    (hroot : root.selections = [.branch name aliasName (members.map Member.fragment)]) :
    (maskPaths type [root] fragments schema none).outcome = .ok [] := by
  have hbelow : ((Walk.selections ⟨schema, fragments, .unset⟩
      ⟨definition.namedType, some definition⟩ ((Address.root 0).child 0)
      (members.map Member.fragment)).run []).outcome = .ok [] :=
    Walk.returns_selections_members_unset habstract _ members
  rw [outcome_maskPaths_field_of_plain rfl rfl hname hfield hroot]
  exact congrArg (Except.map _) hbelow

/-- Nothing is visited below a member that has no segment. -/
theorem not_isBelow_of_mem_visits (hfield : schema.fieldNamed type name = .ok definition)
    (habstract : schema.IsAbstract definition.namedType)
    (hroot : root.selections = [.branch name aliasName (members.map Member.fragment)])
    {index : Nat} {m : Member schema} (hm : members[index]? = some m)
    (hsegment : m.segment? segments = none) {v : Visit}
    (hv : v ∈ visitsOf (maskPaths type [root] fragments schema
      (some (.ofSegments segments))).events) :
    ¬ v.node.IsBelow (((Address.root 0).child 0).child index) := by
  let env : Env := ⟨schema, fragments, .ofSegments segments⟩
  have hd := Walk.restores_selections env
  obtain ⟨t, htype, -, -⟩ := Schema.fieldNamed_eq_ok_iff.1 hfield
  let keeps (w : Walk (List String)) : Prop :=
    w.Keeps env (fun v => ¬ v.node.IsBelow (((Address.root 0).child 0).child index)) (fun _ => True)
      []
  have hmembers : keeps (Walk.selections env ⟨definition.namedType, some definition⟩
      ((Address.root 0).child 0) (members.map Member.fragment)) :=
    Walk.keeps_selections_members habstract definition
      (by simp [Address.child, Address.root]) hm hsegment
  have hkeeps : keeps (Walk.selections env ⟨type, none⟩ (.root 0) root.selections) := by
    rw [hroot, Walk.selections_eq]
    refine Walk.keeps_each hd fun position s hs => ?_
    obtain ⟨rfl, rfl⟩ :
        position = 0 ∧ s = .branch name aliasName (members.map Member.fragment) := by
      cases position with
      | zero => exact ⟨rfl, (Option.some.inj hs).symm⟩
      | succ position => cases hs
    refine Walk.keeps_selection ?_ ?_
    · rintro ⟨first, rest, hsteps⟩
      simp [Address.child, Address.root] at hsteps
    · refine Walk.keeps_field (fun _ => .inl trivial) hd (fun _ _ _ => .inl trivial) ?_
      intro _ definition' given hfield' _
      obtain rfl : definition = definition' := Except.ok.inj (hfield.symm.trans hfield')
      exact (hmembers.mono fun _ => .inl).bind (hd _ _ _) fun _ _ => Walk.keeps_pure _
  rw [Walk.visits_maskPaths_singleton htype] at hv
  exact hkeeps.visits v hv

/-- **The mask of a field of abstract type is put together from the masks of its members**, when the
    hook puts each of them under a segment. It fails with what the first member fails with that has
    a segment, but for the node that is blamed, and else lists in turn, under the field and the
    segment, the masks of these members, with later occurrences erased. A member without a segment
    is not looked into. Without the hook there is nothing. -/
theorem maskPaths_members (hname : name ≠ typenameField)
    (hfield : schema.fieldNamed type name = .ok definition)
    (habstract : schema.IsAbstract definition.namedType)
    (hroot : root.selections = [.branch name aliasName (members.map Member.fragment)]) :
    let report := maskPaths type [root] fragments schema (some (.ofSegments segments))
    let mask := Member.mask fragments segments
    (∀ before m after failure, members = before ++ m :: after →
      (∀ m' ∈ before, (m'.segment? segments).isSome → ∃ paths, mask m' = .ok paths) →
      (m.segment? segments).isSome → mask m = .error failure →
      ∃ blaming, report.outcome = .error blaming ∧ blaming.unplaced = failure.unplaced) ∧
    (∀ pathsOf : Member schema → List String,
      (∀ m ∈ members, (m.segment? segments).isSome → mask m = .ok (pathsOf m)) →
      report.outcome = .ok (members.flatMap fun m => (m.segment? segments).elim [] fun segment =>
        (pathsOf m).map fun path => joinPath name (joinPath segment path)).eraseDups) ∧
    (∀ index m, members[index]? = some m → m.segment? segments = none →
      ∀ v ∈ visitsOf report.events,
        ¬ v.node.IsBelow (((Address.root 0).child 0).child index)) ∧
    (maskPaths type [root] fragments schema none).outcome = .ok [] := by
  refine ⟨?_, ?_, ?_, ?_⟩
  · rintro before m after failure rfl hbefore hsegment hm
    exact maskPaths_members_of_error fragments segments hname hfield habstract hroot hbefore
      hsegment hm
  · intro pathsOf hpaths
    exact maskPaths_members_of_ok fragments segments hname hfield habstract hroot hpaths
  · intro index m hm hsegment v hv
    exact not_isBelow_of_mem_visits fragments segments hfield habstract hroot hm hsegment hv
  · exact outcome_maskPaths_members_unset fragments hname hfield habstract hroot

end

/-- A user that leads to a bot, a post without a segment and another bot. The post has no votes, and
    neither has the bot when it is asked for them. -/
theorem maskPaths_members_of_union :
    let definition : FieldDef := ⟨"hit", .named "Hit", none⟩
    let id : FieldDef := ⟨"id", .named "ID", none⟩
    let user : NamedType := ⟨"User", .object [id, ⟨"latest", .named "Hit", none⟩] [], none⟩
    let post : NamedType := ⟨"Post", .object [id] [], none⟩
    let bot : NamedType := ⟨"Bot", .object [id] [], none⟩
    let schema : Schema :=
      ⟨[⟨"Query", .object [definition] [], none⟩, ⟨"Hit", .union ["User", "Post", "Bot"], none⟩,
        user, post, bot]⟩
    let segments : TypeSegments := fun name _ =>
      if name = "Post" then none else some (if name = "User" then "user" else "bot")
    let mask (botBody : List Selection) :=
      maskPaths "Query" [.operation [.branch "hit" none
        [.fragment (some "User")
          [.leaf "id" none, .branch "latest" none [.fragment (some "Bot") [.leaf "id" none]]],
        .fragment (some "Post") [.leaf "votes" none],
        .fragment (some "Bot") botBody]]] (.ofList []) schema (some (.ofSegments segments))
    "hit" ≠ typenameField ∧ schema.fieldNamed "Query" "hit" = .ok definition ∧
      schema.IsAbstract "Hit" ∧
      (mask [.leaf "id" none]).outcome
        = .ok ["hit.user.id", "hit.user.latest.bot.id", "hit.bot.id"] ∧
      (∀ v ∈ visitsOf (mask [.leaf "id" none]).events, ¬ v.node.IsBelow ⟨.root 0, [0, 1]⟩) ∧
      ∃ blaming, (mask [.leaf "votes" none]).outcome = .error blaming ∧
        blaming.unplaced = .mask (.unknownField "Bot" "votes") none := by
  intro definition id user post bot schema segments mask
  have hname : "hit" ≠ typenameField := by decide
  have hfield : schema.fieldNamed "Query" "hit" = .ok definition := rfl
  have habstract : schema.IsAbstract definition.namedType := by decide
  let users : Member schema :=
    ⟨user, .operation [.leaf "id" none,
      .branch "latest" none [.fragment (some "Bot") [.leaf "id" none]]], rfl, rfl⟩
  let posts : Member schema := ⟨post, .operation [.leaf "votes" none], rfl, rfl⟩
  let bots (body : List Selection) : Member schema := ⟨bot, .operation body, rfl, rfl⟩
  let body (last : List Selection) := [users, posts, bots last].map Member.fragment
  have hmask (last : List Selection) := maskPaths_members .empty segments hname hfield habstract
    (show (RootNode.operation [.branch "hit" none (body last)]).selections = _ from rfl)
  obtain ⟨-, hreturns, hvisits, -⟩ := hmask [.leaf "id" none]
  obtain ⟨hfails, -⟩ := hmask [.leaf "votes" none]
  have hposts : posts.segment? segments = none := by decide
  have husers : users.mask .empty segments = .ok ["id", "latest.bot.id"] := by decide +kernel
  have hbots : (bots [.leaf "id" none]).mask .empty segments = .ok ["id"] := by decide +kernel
  have hlacks : (bots [.leaf "votes" none]).mask .empty segments
      = .error (.mask (.unknownField "Bot" "votes") (some ⟨.root 0, [0]⟩)) := by decide +kernel
  have hnil : ∀ {p : Member schema → Prop}, ∀ m ∈ ([] : List (Member schema)), p m :=
    fun m hm => absurd hm List.not_mem_nil
  refine ⟨hname, hfield, habstract, ?_, hvisits 1 posts rfl hposts, ?_⟩
  · let pathsOf (m : Member schema) := if m.type = user then ["id", "latest.bot.id"] else ["id"]
    refine (hreturns pathsOf ?_).trans (by decide +kernel)
    simp only [List.forall_mem_cons]
    refine ⟨fun _ => ?_, fun h => ?_, fun _ => ?_, hnil⟩
    · exact husers.trans (by decide +kernel)
    · rw [hposts] at h
      cases h
    · exact hbots.trans (by decide +kernel)
  · refine hfails [users, posts] _ [] _ rfl ?_ rfl hlacks
    simp only [List.forall_mem_cons]
    refine ⟨fun _ => ⟨_, husers⟩, fun h => ?_, hnil⟩
    rw [hposts] at h
    cases h

end SelectionMask
