import SelectionMask.Proofs.Document.Hidden
import SelectionMask.Proofs.Walk.Visits

set_option autoImplicit false

/-! # Where events come from

What happens in a run has its source in what has happened before. A selection is visited because it
stands in a root node, or because the walk goes on to it from a visit that it has made; the
selections of a narrowed member only after the hook has been asked about the member. And hooks are
called only for a selection that is being visited. `Event.Arises` says this of one event, given those
before it, and `Walk.mask_accounted` that it holds of all events of a computation, whatever the
hooks do and whichever errors they catch.

So a property of events that passes on from the earlier ones to the next holds of a whole run
(`AllAfter.forall_mem`). -/

namespace SelectionMask

theorem mem_visitsOf_iff {v : Visit} {events : List Event} :
    v ∈ visitsOf events ↔ .visit v ∈ events := by
  rw [visitsOf, List.mem_filterMap]
  constructor
  · rintro ⟨e, he, hv⟩
    cases e <;> cases hv
    exact he
  · exact fun hv => ⟨_, hv, rfl⟩

theorem mem_traceOf_iff {event : HookEvent} {events : List Event} :
    event ∈ traceOf events ↔ .hook event ∈ events := by
  rw [traceOf, List.mem_filterMap]
  constructor
  · rintro ⟨e, he, hevent⟩
    cases e <;> cases hevent
    exact he
  · exact fun hevent => ⟨_, hevent, rfl⟩

/-! ## Calls of hooks -/

/-- What a hook for members is told where a fragment narrows the type at hand. -/
structure Narrowing.StandsAt (schema : Schema) (frame : Frame) (n : Narrowing) : Prop where
  type : n.abstractType = frame.type
  abstract : schema.IsAbstract n.abstractType
  other : n.concreteType ≠ n.abstractType
  member : ∃ target, schema.type? n.concreteType = some target ∧
    n.concreteMetadata = target.metadata
  field : frame.enclosing = some n.field

/-- Where a selection is visited, a fragment narrows the type at hand: the selection itself, or the
    definition that it spreads. The address is that of the fragment. -/
inductive Visit.Narrows (env : Env) (v : Visit) (n : Narrowing) : Address → Prop
  | fragment {body : List Selection} :
      v.selection = .fragment (some n.concreteType) body → n.StandsAt env.schema v.frame →
      Narrows env v n v.node
  | spread {name : Name} {definition : Fragment} :
      v.selection = .spread name → env.fragments.find? name = some definition →
      definition.condition = n.concreteType → n.StandsAt env.schema v.frame →
      Narrows env v n (.definition name)

/-- The place in which the member's selections are read. -/
theorem Narrowing.StandsAt.opens {env : Env} {frame : Frame} {n : Narrowing}
    (h : n.StandsAt env.schema frame) (hhook : env.hooks.narrowing.isSome) :
    frame.Opens env n.concreteType ⟨n.concreteType, some n.field⟩ := by
  obtain ⟨hook, hhook⟩ := Option.isSome_iff_exists.1 hhook
  obtain ⟨target, htarget, -⟩ := h.member
  exact .member hhook (h.type ▸ h.abstract) (h.type ▸ h.other) (by simp [htarget]) h.field

theorem Visit.Narrows.standsAt {env : Env} {v : Visit} {n : Narrowing} {node : Address}
    (h : v.Narrows env n node) : n.StandsAt env.schema v.frame := by
  cases h with
  | fragment _ hstands => exact hstands
  | spread _ _ _ hstands => exact hstands

/-- A hook may be called, or answered, where a selection is visited. -/
inductive Visit.Calls (env : Env) (v : Visit) : HookEvent → Prop
  | extraPaths {name : Name} {aliasName : Option String} {definition : FieldDef} :
      v.selection.bare = .leaf name aliasName → name ≠ typenameField →
      env.schema.fieldNamed v.frame.type name = .ok definition →
      Calls env v (.extraPathsAsked ⟨v.frame.type, definition, aliasName⟩ v.node)
  | fieldNames {name : Name} {aliasName : Option String} {definition : FieldDef} :
      v.selection.bare = .leaf name aliasName → name ≠ typenameField →
      env.schema.fieldNamed v.frame.type name = .ok definition →
      Calls env v (.fieldNamesAsked ⟨v.frame.type, definition, aliasName⟩ v.node)
  | narrowing {n : Narrowing} {node : Address} :
      v.Narrows env n node → Calls env v (.narrowingAsked n node)
  | members {n : Narrowing} {node : Address} {paths : List String} :
      v.Narrows env n node → Calls env v (.membersAnswered node paths)

/-! ## Sources -/

/-- The event has a source among the earlier ones, or it is the visit of a selection that stands in
    a root node. -/
inductive Event.Arises (env : Env) (type : Name) (roots : List RootNode) (earlier : List Event) :
    Event → Prop
  | root {index position : Nat} {root : RootNode} {s : Selection} :
      roots[index]? = some root → root.selections[position]? = some s →
      Arises env type roots earlier
        (.visit ⟨⟨type, none⟩, [], (Address.root index).child position, s⟩)
  /-- From a field. -/
  | below {v w : Visit} {name : Name} :
      .visit v ∈ earlier → v.Leads env w → v.selection.fieldName? = some name →
      Arises env type roots earlier (.visit w)
  /-- From a fragment that is read in place. -/
  | inPlace {v w : Visit} :
      .visit v ∈ earlier → v.Leads env w → w.frame = v.frame →
      Arises env type roots earlier (.visit w)
  /-- From a fragment that a hook has been asked about. -/
  | member {v w : Visit} {n : Narrowing} {node : Address} :
      .visit v ∈ earlier → v.Leads env w → v.Narrows env n node →
      .hook (.narrowingAsked n node) ∈ earlier → w.frame = ⟨n.concreteType, some n.field⟩ →
      Arises env type roots earlier (.visit w)
  | hook {v : Visit} {event : HookEvent} :
      .visit v ∈ earlier → v.Calls env event → Arises env type roots earlier (.hook event)
  | note {n : Note} : Arises env type roots earlier (.note n)

/-- A visit is that of a selection in a root node, or a step from an earlier one leads there. -/
theorem Event.Arises.root_or_leads {env : Env} {type : Name} {roots : List RootNode}
    {earlier : List Event} {w : Visit} (h : Event.Arises env type roots earlier (.visit w)) :
    (∃ index root position s, roots[index]? = some root ∧ root.selections[position]? = some s ∧
      w = ⟨⟨type, none⟩, [], (Address.root index).child position, s⟩) ∨
    ∃ v, .visit v ∈ earlier ∧ v.Leads env w := by
  cases h with
  | root hroot hs => exact .inl ⟨_, _, _, _, hroot, hs, rfl⟩
  | below hv hleads _ => exact .inr ⟨_, hv, hleads⟩
  | inPlace hv hleads _ => exact .inr ⟨_, hv, hleads⟩
  | member hv hleads _ _ _ => exact .inr ⟨_, hv, hleads⟩

/-- Each of the events has a property that depends on those before it. -/
def AllAfter (P : List Event → Event → Prop) : List Event → List Event → Prop
  | _, [] => True
  | earlier, e :: rest => P earlier e ∧ AllAfter P (earlier ++ [e]) rest

section

variable {P : List Event → Event → Prop} {earlier events later : List Event}

theorem allAfter_append_iff :
    AllAfter P earlier (events ++ later) ↔
      AllAfter P earlier events ∧ AllAfter P (earlier ++ events) later := by
  induction events generalizing earlier with
  | nil => simp [AllAfter]
  | cons e rest ih =>
      rw [List.cons_append, AllAfter, AllAfter, ih, and_assoc, List.append_assoc]
      rfl

/-- **What passes on from the earlier events to the next one holds of all events.** -/
theorem AllAfter.forall_mem (h : AllAfter P earlier events) {Q : Event → Prop}
    (hearlier : ∀ e ∈ earlier, Q e)
    (hstep : ∀ before e, before ⊆ earlier ++ events → (∀ other ∈ before, Q other) → P before e →
      Q e) :
    ∀ e ∈ events, Q e := by
  induction events generalizing earlier with
  | nil => exact fun e he => absurd he List.not_mem_nil
  | cons e rest ih =>
      obtain ⟨he, hrest⟩ := h
      have hfirst : Q e := hstep earlier e (List.subset_append_left _ _) hearlier he
      have hsplit : earlier ++ [e] ++ rest = earlier ++ e :: rest := List.append_cons _ _ _ |>.symm
      refine List.forall_mem_cons.2 ⟨hfirst, ih hrest ?_ ?_⟩
      · intro other hother
        rcases List.mem_append.1 hother with hother | hother
        · exact hearlier other hother
        · exact List.mem_singleton.1 hother ▸ hfirst
      · rwa [hsplit]

end

namespace Walk

variable {α β : Type} {P : List Event → Event → Prop} {before : List Event} {names : List Name}

/-- Each event that the walk leaves has the property after the given events, and whatever else there
    may be. -/
def Accounted (P : List Event → Event → Prop) (before : List Event) (names : List Name)
    (w : Walk α) : Prop :=
  ∀ earlier, before ⊆ earlier → AllAfter P earlier (w.run names).events

/-! ## Single steps -/

theorem accounted_pure (a : α) : Accounted P before names (pure a) :=
  fun _ _ => trivial

theorem accounted_fail (failure : Failure) : Accounted P before names (fail failure : Walk α) :=
  fun _ _ => trivial

theorem accounted_hooked (given : Except String α) : Accounted P before names (hooked given) := by
  cases given with
  | ok a => exact accounted_pure a
  | error text => exact accounted_fail _

theorem accounted_blaming (node : Option Address) (found : Except MaskError α) :
    Accounted P before names (blaming node found) := by
  cases found with
  | ok a => exact accounted_pure a
  | error error => exact accounted_fail _

theorem Accounted.bind {w : Walk α} {f : α → Walk β} (h : Accounted P before names w)
    (hw : w.Restores) (hf : ∀ a, w.Returns names a → Accounted P before names (f a)) :
    Accounted P before names (w >>= f) := by
  intro earlier hearlier
  have hfirst := h earlier hearlier
  have hnames := hw names
  rcases hrun : w.run names with ⟨failure | a, left, events⟩ <;> rw [hrun] at hfirst hnames
  · rw [run_bind_of_error hrun]
    exact hfirst
  · obtain rfl : left = names := hnames
    rw [run_bind_of_ok hrun]
    refine allAfter_append_iff.2 ⟨hfirst, hf a (congrArg Run.outcome hrun) _ ?_⟩
    exact List.subset_append_of_subset_left events hearlier

/-- An event, which counts among the given ones from then on. -/
theorem accounted_emit_bind {e : Event} {f : Unit → Walk β}
    (he : ∀ earlier, before ⊆ earlier → P earlier e)
    (hf : Accounted P (e :: before) names (f ())) : Accounted P before names (emit e >>= f) := by
  intro earlier hearlier
  refine ⟨he earlier hearlier, hf (earlier ++ [e]) ?_⟩
  refine List.cons_subset.2 ⟨List.mem_append_right earlier List.mem_cons_self, ?_⟩
  exact List.subset_append_of_subset_left [e] hearlier

theorem Accounted.mono {before' : List Event} {w : Walk α} (h : Accounted P before names w)
    (hsub : before ⊆ before') : Accounted P before' names w :=
  fun earlier hearlier => h earlier (List.Subset.trans hsub hearlier)

theorem Accounted.caught {w : Walk α} (h : Accounted P before names w) :
    Accounted P before names w.caught := h

theorem Accounted.follow {members : Walk (List String)} (h : Accounted P before names members)
    (hm : members.Restores) (s : Strategy) : Accounted P before names (s.follow members) := by
  induction s with
  | answer paths => exact accounted_pure paths
  | refuse text => exact accounted_fail _
  | ask next ih => exact h.bind hm fun paths _ => ih paths
  | attempt next handle ihn ihh =>
      rw [Strategy.follow_attempt]
      refine h.caught.bind hm.caught fun result _ => ?_
      cases result with
      | ok paths => exact ihn paths
      | error error => exact ihh error

/-! ## Selections -/

section

variable {env : Env} {type : Name} {roots : List RootNode} {descend : Descend} {frame : Frame}
  {node : Address} {s : Selection}

theorem accounted_note_bind {n : Note} {f : Unit → Walk β}
    (hf : Accounted (Event.Arises env type roots) before names (f ())) :
    Accounted (Event.Arises env type roots) before names (note n >>= f) :=
  accounted_emit_bind (fun _ _ => .note) (hf.mono (List.subset_cons_self _ _))

/-- A call of a hook at a selection that has been visited. -/
theorem accounted_call_bind {v : Visit} {event : HookEvent} {f : Unit → Walk β}
    (hv : .visit v ∈ before) (hcalls : v.Calls env event)
    (hf : Accounted (Event.Arises env type roots) (.hook event :: before) names (f ())) :
    Accounted (Event.Arises env type roots) before names (emit (.hook event) >>= f) :=
  accounted_emit_bind (fun _ hearlier => .hook (hearlier hv) hcalls) hf

theorem accounted_field (hd : descend.Restores) {name : Name} {aliasName : Option String}
    {ss : Option (List Selection)} (hv : .visit ⟨frame, names, node, s⟩ ∈ before)
    (hs : s.bare = .leaf name aliasName)
    (hbelow : name ≠ typenameField → ∀ definition given,
      env.schema.fieldNamed frame.type name = .ok definition →
      env.hooks.namesAt ⟨frame.type, definition, aliasName⟩ = .ok (some given) →
      Accounted (Event.Arises env type roots) before names
        (pathsBelow descend definition node given ss)) :
    Accounted (Event.Arises env type roots) before names
      (field env descend frame.type node name aliasName ss) := by
  by_cases hname : name = typenameField
  · rw [field, if_pos hname]
    exact accounted_pure _
  · cases hfield : env.schema.fieldNamed frame.type name with
    | error error =>
        rw [field_of_error hname hfield]
        exact accounted_fail _
    | ok definition =>
        have hextra : Accounted (Event.Arises env type roots) before names
            (extraPathsOf env ⟨frame.type, definition, aliasName⟩ node) := by
          unfold extraPathsOf
          cases env.hooks.extraPaths with
          | none => exact accounted_pure _
          | some hook =>
              exact accounted_call_bind hv (.extraPaths hs hname hfield) (accounted_hooked _)
        have hnames : Accounted (Event.Arises env type roots) before names
            (namesOf env ⟨frame.type, definition, aliasName⟩ node) := by
          unfold namesOf
          cases env.hooks.fieldNames with
          | none => exact accounted_pure _
          | some hook =>
              refine accounted_call_bind hv (.fieldNames hs hname hfield) ?_
              exact (accounted_hooked _).bind (restores_hooked _) fun _ _ => accounted_pure _
        rw [field_of_found hname hfield]
        refine hextra.bind (restores_extraPathsOf _ _) fun extra _ => ?_
        refine hnames.bind (restores_namesOf _ _) fun given hgiven => ?_
        cases given with
        | none => exact accounted_note_bind (accounted_pure _)
        | some given =>
            have hpaths := hbelow hname definition given hfield (returns_namesOf_iff.1 hgiven)
            exact hpaths.bind (restores_pathsBelow hd _ _ _ _) fun _ _ => accounted_pure _

/-- A fragment on a type, given the visit that it is entered from and what is walked further down:
    in place, or as a member once the hook has been asked. -/
theorem accounted_enterFragment (hd : descend.Restores) {v : Visit} (hv : .visit v ∈ before)
    {condition : Name} {ss : List Selection}
    (hnarrows : ∀ n : Narrowing, n.concreteType = condition → n.StandsAt env.schema frame →
      v.Narrows env n node)
    (hinPlace : env.schema.Enters condition frame.type →
      Accounted (Event.Arises env type roots) before names (descend frame node ss))
    (hmember : ∀ n : Narrowing, n.concreteType = condition → n.StandsAt env.schema frame →
      env.hooks.narrowing.isSome →
      Accounted (Event.Arises env type roots) (.hook (.narrowingAsked n node) :: before) names
        (descend ⟨n.concreteType, some n.field⟩ node ss)) :
    Accounted (Event.Arises env type roots) before names
      (enterFragment env descend frame condition node ss) := by
  cases htarget : env.schema.type? condition with
  | none =>
      rw [enterFragment_of_unknown htarget]
      exact accounted_fail _
  | some target =>
      cases htype : env.schema.type? frame.type with
      | none =>
          rw [enterFragment_of_unknown_current htarget htype]
          exact accounted_fail _
      | some current =>
          by_cases henters : env.schema.Enters condition frame.type
          · rw [enterFragment_of_enters htarget htype henters]
            exact hinPlace henters
          · by_cases habstract : current.isAbstract
            · have hother : condition ≠ frame.type := fun hsame => henters (.inl hsame)
              rw [enterFragment_of_narrows htarget htype habstract hother]
              cases hhook : env.hooks.narrowing with
              | none => exact accounted_note_bind (accounted_pure _)
              | some hook =>
                  cases hfield : frame.enclosing with
                  | none => exact accounted_fail _
                  | some field =>
                      let n : Narrowing := ⟨frame.type, condition, target.metadata, field⟩
                      have hstands : n.StandsAt env.schema frame :=
                        ⟨rfl, (Schema.isAbstract_iff htype).2 habstract, hother,
                          ⟨target, htarget, rfl⟩, hfield⟩
                      have hcalled := hnarrows n rfl hstands
                      have hmembers : Accounted (Event.Arises env type roots)
                          (.hook (.narrowingAsked n node) :: before) names
                          (memberPaths descend n node ss) := by
                        refine (hmember n rfl hstands (by simp [hhook])).bind (hd _ _ _)
                          fun paths _ => ?_
                        exact accounted_call_bind (List.mem_cons_of_mem _ hv) (.members hcalled)
                          (accounted_pure _)
                      exact accounted_call_bind hv (.narrowing hcalled)
                        (hmembers.follow (restores_memberPaths hd n node ss) (hook n))
            · rw [enterFragment_of_unrelated htarget htype habstract henters]
              exact accounted_note_bind (accounted_pure _)

/-- Every deeper walk is accounted for, if the visits that it starts with are. -/
def AccountedBelow (env : Env) (type : Name) (roots : List RootNode) (descend : Descend) : Prop :=
  ∀ ⦃before frame node names ss⦄,
    (∀ index s, ss[index]? = some s → ∀ earlier, before ⊆ earlier →
      Event.Arises env type roots earlier (.visit ⟨frame, names, node.child index, s⟩)) →
    Accounted (Event.Arises env type roots) before names (descend frame node ss)

/-- The selections of a fragment, wherever they are read: from the visit that the fragment is entered
    from, the walk may go on to each of them. -/
theorem accounted_body (hd : descend.Restores) (hbelow : AccountedBelow env type roots descend)
    {v : Visit} (hv : .visit v ∈ before) {condition : Name} {ss : List Selection}
    (hnarrows : ∀ n : Narrowing, n.concreteType = condition → n.StandsAt env.schema v.frame →
      v.Narrows env n node)
    (hleads : ∀ {inner index t}, v.frame.Opens env condition inner → ss[index]? = some t →
      v.Leads env ⟨inner, names, node.child index, t⟩) :
    Accounted (Event.Arises env type roots) before names
      (enterFragment env descend v.frame condition node ss) := by
  refine accounted_enterFragment hd hv hnarrows (fun henters => ?_)
    fun n hcondition hstands hhook => ?_
  · refine hbelow fun index t ht earlier hearlier => ?_
    exact .inPlace (hearlier hv) (hleads (.inPlace henters) ht) rfl
  · refine hbelow fun index t ht earlier hearlier => ?_
    exact .member (hearlier (List.mem_cons_of_mem _ hv))
      (hleads (hcondition ▸ hstands.opens hhook) ht) (hnarrows n hcondition hstands)
      (hearlier List.mem_cons_self) rfl

/-- A spread, given its definition, which is read with one more name on the list of what is being
    expanded. -/
theorem accounted_spread {name : Name}
    (hbody : ∀ definition, env.fragments.find? name = some definition → name ∉ names →
      Accounted (Event.Arises env type roots) before (names ++ [name])
        (enterFragment env descend frame definition.condition (.definition name)
          definition.selections)) :
    Accounted (Event.Arises env type roots) before names (spread env descend frame node name) := by
  cases hfind : env.fragments.find? name with
  | none =>
      rw [spread_of_undefined hfind]
      exact accounted_fail _
  | some definition =>
      intro earlier hearlier
      by_cases hmem : name ∈ names
      · rw [run_spread_of_mem hfind hmem]
        exact trivial
      · rw [run_spread_of_notMem hfind hmem]
        exact hbody definition hfind hmem earlier hearlier

/-- **All that happens at a visited selection and below it is accounted for.** -/
theorem accounted_pathsOf (hd : descend.Restores)
    (hbelow : AccountedBelow env type roots descend) (v : Visit) (hv : .visit v ∈ before) :
    Accounted (Event.Arises env type roots) before v.expanding
      (pathsOf env descend v.frame v.node v.selection) := by
  obtain ⟨frame, names, node, s⟩ := v
  cases s with
  | leaf name aliasName => exact accounted_field hd hv rfl fun _ _ _ _ _ => accounted_pure _
  | branch name aliasName below =>
      refine accounted_field hd hv rfl fun hname definition given hfield hgiven => ?_
      refine (hbelow fun index t ht earlier hearlier => ?_).bind (hd _ _ _)
        fun _ _ => accounted_pure _
      exact .below (hearlier hv) (.branch hname hfield hgiven ht) rfl
  | fragment condition body =>
      -- A fragment without a condition is on the very type at hand, so it narrows nothing.
      have hnarrows : ∀ n : Narrowing, n.concreteType = conditionAt condition frame.type →
          n.StandsAt env.schema frame →
          Visit.Narrows env ⟨frame, names, node, .fragment condition body⟩ n node := by
        intro n hcondition hstands
        cases condition with
        | none => exact absurd (hcondition.trans hstands.type.symm) hstands.other
        | some condition =>
            obtain rfl : n.concreteType = condition := hcondition
            exact .fragment rfl hstands
      exact accounted_body hd hbelow hv hnarrows fun hopens ht => .fragment hopens ht
  | spread name =>
      refine accounted_spread fun definition hfind hfresh => ?_
      have hnarrows : ∀ n : Narrowing, n.concreteType = definition.condition →
          n.StandsAt env.schema frame →
          Visit.Narrows env ⟨frame, names, node, .spread name⟩ n (.definition name) :=
        fun n hcondition hstands => .spread rfl hfind hcondition.symm hstands
      exact accounted_body hd hbelow hv hnarrows fun hopens ht => .spread hfind hfresh hopens ht
  | other kind => exact accounted_fail _

/-- A selection whose visit is recorded first. -/
theorem accounted_selection (hd : descend.Restores)
    (hbelow : AccountedBelow env type roots descend)
    (hs : ∀ earlier, before ⊆ earlier →
      Event.Arises env type roots earlier (.visit ⟨frame, names, node, s⟩)) :
    Accounted (Event.Arises env type roots) before names (selection env descend frame node s) := by
  have hpaths : Accounted (Event.Arises env type roots)
      (.visit ⟨frame, names, node, s⟩ :: before) names (pathsOf env descend frame node s) :=
    accounted_pathsOf hd hbelow ⟨frame, names, node, s⟩ List.mem_cons_self
  intro earlier hearlier
  refine ⟨hs earlier hearlier, hpaths (earlier ++ [.visit ⟨frame, names, node, s⟩]) ?_⟩
  refine List.cons_subset.2 ⟨List.mem_append_right earlier List.mem_cons_self, ?_⟩
  exact List.subset_append_of_subset_left _ hearlier

theorem accounted_selectionsFrom (hd : descend.Restores)
    (hbelow : AccountedBelow env type roots descend) {index : Nat} {ss : List Selection}
    (h : ∀ offset s, ss[offset]? = some s → ∀ earlier, before ⊆ earlier →
      Event.Arises env type roots earlier
        (.visit ⟨frame, names, node.child (index + offset), s⟩)) :
    Accounted (Event.Arises env type roots) before names
      (selectionsFrom env descend frame node index ss) := by
  induction ss generalizing index with
  | nil => exact accounted_pure _
  | cons s rest ih =>
      have hrest : Accounted (Event.Arises env type roots) before names
          (selectionsFrom env descend frame node (index + 1) rest) := by
        refine ih fun offset t ht => ?_
        have hoffset : index + 1 + offset = index + (offset + 1) := by omega
        exact hoffset ▸ h (offset + 1) t ht
      rw [selectionsFrom_cons]
      refine (accounted_selection hd hbelow (h 0 s rfl)).bind (restores_selection hd _ _ _)
        fun _ _ => ?_
      exact hrest.bind (restores_selectionsFrom hd _ _ _ _) fun _ _ => accounted_pure _

/-! ## Whole runs -/

theorem accountedBelow_selectionsUpTo (env : Env) (type : Name) (roots : List RootNode)
    (depth : Nat) : AccountedBelow env type roots (selectionsUpTo env depth) := by
  induction depth with
  | zero => exact fun _ _ _ _ _ _ => accounted_fail _
  | succ depth ih =>
      intro before frame node names ss h
      refine accounted_selectionsFrom (restores_selectionsUpTo env depth) ih fun index s hs => ?_
      rw [Nat.zero_add]
      exact h index s hs

theorem accountedBelow_selections (env : Env) (type : Name) (roots : List RootNode) :
    AccountedBelow env type roots (selections env) :=
  fun _ _ _ names ss h =>
    accountedBelow_selectionsUpTo env type roots (depthBound env.fragments names ss) h

theorem accounted_mergeRoots {index : Nat} {rest : List RootNode} {found : OrderedSet String}
    (h : ∀ offset root, rest[offset]? = some root → roots[index + offset]? = some root) :
    Accounted (Event.Arises env type roots) before [] (mergeRoots env type index rest found) := by
  induction rest generalizing index found with
  | nil => exact accounted_pure _
  | cons root rest ih =>
      have hroot : Accounted (Event.Arises env type roots) before []
          (selections env ⟨type, none⟩ (.root index) root.selections) :=
        accountedBelow_selections env type roots fun position s hs _ _ =>
          .root (h 0 root rfl) hs
      refine hroot.bind (restores_selections env _ _ _) fun paths _ => ih fun offset other hother => ?_
      have hoffset : index + 1 + offset = index + (offset + 1) := by omega
      exact hoffset ▸ h (offset + 1) other hother

/-- **Everything that happens in a computation has a source in it.** -/
theorem mask_accounted (env : Env) (type : Name) (roots : List RootNode) :
    AllAfter (Event.Arises env type roots) [] (env.mask type roots).events := by
  have hmerged : Accounted (Event.Arises env type roots) [] []
      (mergeRoots env type 0 roots .empty) :=
    accounted_mergeRoots fun offset root hroot => by rwa [Nat.zero_add]
  have hmask : Accounted (Event.Arises env type roots) [] [] (mask env type roots) := by
    refine (accounted_blaming _ _).bind (restores_blaming _ _) fun _ _ => ?_
    refine accounted_note_bind (hmerged.bind (restores_mergeRoots type roots 0 _) fun _ _ => ?_)
    exact accounted_note_bind (accounted_pure _)
  exact hmask [] (List.Subset.refl _)

/-- **What holds of the selections of root nodes and is kept by each step from a visit of the run holds
    of all its visits.** -/
theorem forall_mem_visitsOf {I : Visit → Prop}
    (hroot : ∀ index root, roots[index]? = some root → ∀ position s,
      root.selections[position]? = some s →
      I ⟨⟨type, none⟩, [], (Address.root index).child position, s⟩)
    (hstep : ∀ v ∈ visitsOf (env.mask type roots).events, ∀ w, I v → v.Leads env w → I w) :
    ∀ v ∈ visitsOf (env.mask type roots).events, I v := by
  suffices hall : ∀ e ∈ (env.mask type roots).events, ∀ v, e = .visit v → I v from
    fun v hv => hall _ (mem_visitsOf_iff.1 hv) v rfl
  refine (mask_accounted env type roots).forall_mem (fun _ hother => absurd hother List.not_mem_nil)
    fun before e hbefore hearlier harises w hw => ?_
  subst hw
  rcases harises.root_or_leads with ⟨index, root, position, s, hfound, hs, rfl⟩ | ⟨v, hv, hleads⟩
  · exact hroot index root hfound position s hs
  · exact hstep v (mem_visitsOf_iff.2 (hbefore hv)) w (hearlier _ hv v rfl) hleads

/-- Hooks are called only where a selection is visited. -/
theorem exists_visit_of_mem_traceOf {event : HookEvent}
    (h : event ∈ traceOf (env.mask type roots).events) :
    ∃ v ∈ visitsOf (env.mask type roots).events, v.Calls env event := by
  suffices hall : ∀ e ∈ (env.mask type roots).events, ∀ event, e = .hook event →
      ∃ v ∈ visitsOf (env.mask type roots).events, v.Calls env event from
    hall _ (mem_traceOf_iff.1 h) event rfl
  refine (mask_accounted env type roots).forall_mem (fun _ hother => absurd hother List.not_mem_nil)
    fun before e hbefore _ harises event hevent => ?_
  subst hevent
  cases harises with
  | hook hv hcalls => exact ⟨_, mem_visitsOf_iff.2 (hbefore hv), hcalls⟩

/-- The hooks for fields are called only for fields that the schema has, and never for
    `__typename`. -/
theorem field_of_mem_traceOf {site : FieldSite} {node : Address}
    (h : .extraPathsAsked site node ∈ traceOf (env.mask type roots).events ∨
      .fieldNamesAsked site node ∈ traceOf (env.mask type roots).events) :
    site.field.name ≠ typenameField ∧
      env.schema.fieldNamed site.parentType site.field.name = .ok site.field := by
  rcases h with hcall | hcall
  · obtain ⟨v, -, hcalls⟩ := exists_visit_of_mem_traceOf hcall
    cases hcalls with
    | extraPaths _ hname hfound =>
        obtain rfl := Schema.name_of_fieldNamed hfound
        exact ⟨hname, hfound⟩
  · obtain ⟨v, -, hcalls⟩ := exists_visit_of_mem_traceOf hcall
    cases hcalls with
    | fieldNames _ hname hfound =>
        obtain rfl := Schema.name_of_fieldNamed hfound
        exact ⟨hname, hfound⟩

end

end Walk

end SelectionMask
