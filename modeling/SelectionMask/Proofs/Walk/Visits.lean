import SelectionMask.Proofs.Document.Offences
import SelectionMask.Proofs.Walk.Returns

set_option autoImplicit false

/-! # What a run visits, and what it can fail with

A walk as a system that takes steps: `Visit.Leads` says from which visited selection it goes on to
which other one, and `Visit.Fails` what it can fail with at a visited selection, what is walked
further down apart. Hooks decide which of these steps are taken, how often, and which failures are
caught, but none of them adds a step or an error of the query.

So what holds of the first visits of a run and is kept by each step holds of all its visits, and the
run fails only with what one of its visits fails with (`Walk.Keeps`). `Visit.Invariant` is such a
property, and `Visit.Invariant.keeps_mask` says this of a whole computation. -/

namespace SelectionMask

/-! ## Steps -/

/-- The place in which the selections of a fragment on a type are read: the fragment's own place, or
    that of a member of the abstract type at hand. -/
inductive Frame.Opens (env : Env) (frame : Frame) (condition : Name) : Frame → Prop
  | inPlace : env.schema.Enters condition frame.type → Opens env frame condition frame
  | member {hook : NarrowingHook} {field : FieldDef} :
      env.hooks.narrowing = some hook → env.schema.IsAbstract frame.type →
      condition ≠ frame.type → (env.schema.type? condition).isSome →
      frame.enclosing = some field → Opens env frame condition ⟨condition, some field⟩

/-- From a visited selection the walk may go on to another one, right below it. -/
inductive Visit.Leads (env : Env) : Visit → Visit → Prop
  | branch {frame : Frame} {names : List Name} {node : Address} {name : Name}
      {aliasName : Option String} {below : List Selection} {definition : FieldDef}
      {given : List String} {index : Nat} {s : Selection} :
      name ≠ typenameField → env.schema.fieldNamed frame.type name = .ok definition →
      env.hooks.namesAt ⟨frame.type, definition, aliasName⟩ = .ok (some given) →
      below[index]? = some s →
      Leads env ⟨frame, names, node, .branch name aliasName below⟩
        ⟨⟨definition.namedType, some definition⟩, names, node.child index, s⟩
  | fragment {frame inner : Frame} {names : List Name} {node : Address} {condition : Option Name}
      {body : List Selection} {index : Nat} {s : Selection} :
      frame.Opens env (conditionAt condition frame.type) inner → body[index]? = some s →
      Leads env ⟨frame, names, node, .fragment condition body⟩
        ⟨inner, names, node.child index, s⟩
  | spread {frame inner : Frame} {names : List Name} {node : Address} {name : Name}
      {definition : Fragment} {index : Nat} {s : Selection} :
      env.fragments.find? name = some definition → name ∉ names →
      frame.Opens env definition.condition inner → definition.selections[index]? = some s →
      Leads env ⟨frame, names, node, .spread name⟩
        ⟨inner, names ++ [name], (Address.definition name).child index, s⟩

/-- A visited selection can make the walk fail, where it stands and not further down. -/
inductive Visit.Fails (env : Env) (v : Visit) : Failure → Prop
  | offends {failure : Failure} :
      v.Offends env.schema env.fragments failure → Fails env v failure
  | unknownCurrent {blamed : Option Address} :
      env.schema.type? v.frame.type = none →
      Fails env v (.mask (.unknownType v.frame.type) blamed)
  | noEnclosingField {condition : Name} :
      env.hooks.narrowing.isSome → env.schema.IsAbstract v.frame.type → v.frame.enclosing = none →
      Fails env v (.noEnclosingField condition v.frame.type)
  | refused {text : String} : Fails env v (.refused text)

/-- A field that is not found is an offence, unless there is no type to look it up at. -/
theorem Visit.fails_of_fieldNamed {env : Env} {v : Visit} {name : Name} {error : MaskError}
    (hs : v.selection.fieldName? = some name) (hname : name ≠ typenameField)
    (hfield : env.schema.fieldNamed v.frame.type name = .error error) :
    v.Fails env (.mask error (some v.node)) := by
  cases hcurrent : env.schema.type? v.frame.type with
  | none =>
      have hunknown : error = .unknownType v.frame.type := by
        simpa [Schema.fieldNamed, Schema.objectNamed, hcurrent, eq_comm] using hfield
      exact hunknown ▸ .unknownCurrent hcurrent
  | some t =>
      refine .offends (offends_of_fieldNamed hs hname ?_ hfield)
      simp [hcurrent]

/-- What holds of visits is kept by every step. The failures that are told apart from those of visits
    include being cut short: no run is (`Walk.mask_not_exhausted`), but a bounded one may be. -/
structure Visit.Invariant (env : Env) (I : Visit → Prop) (E : Failure → Prop) : Prop where
  step : ∀ {v w}, I v → v.Leads env w → I w
  exhausted : E .exhausted

namespace Walk

variable {α β : Type} {env : Env} {I : Visit → Prop} {E : Failure → Prop} {names : List Name}

/-- The walk makes only visits of which something holds. If it fails, then with a failure of a given
    kind or with what one of its visits fails with. -/
structure Keeps (env : Env) (I : Visit → Prop) (E : Failure → Prop) (names : List Name)
    (w : Walk α) : Prop where
  visits : ∀ v ∈ visitsOf (w.run names).events, I v
  failure : ∀ f, (w.run names).outcome = .error f →
    E f ∨ ∃ v ∈ visitsOf (w.run names).events, v.Fails env f

/-- A failure is of the given kind, if those of the visits are. -/
theorem Keeps.of_failure {w : Walk α} (h : Keeps env I E names w)
    (hfails : ∀ {v failure}, I v → v.Fails env failure → E failure) {failure : Failure}
    (hfailure : (w.run names).outcome = .error failure) : E failure := by
  rcases h.failure failure hfailure with hE | ⟨v, hv, hvisit⟩
  · exact hE
  · exact hfails (h.visits v hv) hvisit

/-! ## Single steps -/

theorem Keeps.mono {E' : Failure → Prop} {w : Walk α} (h : Keeps env I E names w)
    (hE : ∀ f, E f → E' f) : Keeps env I E' names w where
  visits := h.visits
  failure f hf := (h.failure f hf).imp_left (hE f)

theorem keeps_pure (a : α) : Keeps env I E names (pure a) :=
  ⟨fun _ h => absurd h List.not_mem_nil, nofun⟩

theorem keeps_fail {f : Failure} (h : E f) : Keeps env I E names (fail f : Walk α) where
  visits _ h := absurd h List.not_mem_nil
  failure f' hf' := by
    obtain rfl : f = f' := Except.error.inj hf'
    exact .inl h

theorem keeps_hooked (h : ∀ text, E (.refused text)) (given : Except String α) :
    Keeps env I E names (hooked given) := by
  cases given with
  | ok a => exact keeps_pure a
  | error text => exact keeps_fail (h text)

theorem Keeps.bind {w : Walk α} {f : α → Walk β} (h : Keeps env I E names w) (hw : w.Restores)
    (hf : ∀ a, w.Returns names a → Keeps env I E names (f a)) : Keeps env I E names (w >>= f) := by
  obtain ⟨hvisits, hfailure⟩ := h
  have hnames := hw names
  rcases hrun : w.run names with ⟨failure | a, left, events⟩ <;>
    rw [hrun] at hvisits hfailure hnames
  · refine ⟨?_, ?_⟩ <;> rw [run_bind_of_error hrun]
    · exact hvisits
    · exact fun f hf => hfailure f (by rw [← Except.error.inj hf])
  · obtain rfl : left = names := hnames
    have hnext := hf a (congrArg Run.outcome hrun)
    refine ⟨?_, ?_⟩ <;> rw [run_bind_of_ok hrun]
    · intro v hv
      rw [Run.after, visitsOf_append, List.mem_append] at hv
      exact hv.elim (hvisits v) (hnext.visits v)
    · intro f hf
      refine (hnext.failure f hf).imp_right ?_
      rintro ⟨v, hv, hfails⟩
      refine ⟨v, ?_, hfails⟩
      rw [Run.after, visitsOf_append]
      exact List.mem_append_right _ hv

/-- An event that is no visit. -/
theorem keeps_emit_bind {event : Event} (hevent : event.visit? = none) {f : Unit → Walk β}
    (hf : Keeps env I E names (f ())) : Keeps env I E names (emit event >>= f) := by
  have hemit : Keeps env I E names (emit event) := by
    refine ⟨fun v hv => ?_, nofun⟩
    simp [visitsOf, hevent] at hv
  exact hemit.bind (restores_emit event) fun _ _ => hf

theorem keeps_note_bind (n : Note) {f : Unit → Walk β} (hf : Keeps env I E names (f ())) :
    Keeps env I E names (note n >>= f) :=
  keeps_emit_bind rfl hf

/-- A failure that is caught is none; any other is still there. -/
theorem Keeps.caught {w : Walk α} (h : Keeps env I E names w) : Keeps env I E names w.caught where
  visits := h.visits
  failure f hf := by
    refine h.failure f ?_
    rw [run_caught] at hf
    cases houtcome : (w.run names).outcome with
    | ok a => simp [houtcome, settle] at hf
    | error failure =>
        rw [houtcome] at hf
        cases failure <;> simp_all [settle]

theorem Keeps.follow {members : Walk (List String)} (h : Keeps env I E names members)
    (hm : members.Restores) (hrefused : ∀ text, E (.refused text)) (s : Strategy) :
    Keeps env I E names (s.follow members) := by
  induction s with
  | answer paths => exact keeps_pure paths
  | refuse text => exact keeps_fail (hrefused text)
  | ask next ih => exact h.bind hm fun paths _ => ih paths
  | attempt next handle ihn ihh =>
      rw [Strategy.follow_attempt]
      refine h.caught.bind hm.caught fun result _ => ?_
      cases result with
      | ok paths => exact ihn paths
      | error error => exact ihh error

/-! ## Selections -/

variable {descend : Descend} {frame : Frame} {node : Address}

theorem keeps_extraPathsOf (hrefused : ∀ text, E (.refused text)) (site : FieldSite) :
    Keeps env I E names (extraPathsOf env site node) := by
  unfold extraPathsOf
  cases env.hooks.extraPaths with
  | none => exact keeps_pure _
  | some hook => exact keeps_emit_bind rfl (keeps_hooked hrefused _)

theorem keeps_namesOf (hrefused : ∀ text, E (.refused text)) (site : FieldSite) :
    Keeps env I E names (namesOf env site node) := by
  unfold namesOf
  cases env.hooks.fieldNames with
  | none => exact keeps_pure _
  | some hook =>
      refine keeps_emit_bind rfl ((keeps_hooked hrefused _).bind (restores_hooked _) ?_)
      exact fun _ _ => keeps_pure _

theorem keeps_field (hrefused : ∀ text, E (.refused text)) {type name : Name}
    {aliasName : Option String} {ss : Option (List Selection)} (hd : descend.Restores)
    (herror : name ≠ typenameField → ∀ error, env.schema.fieldNamed type name = .error error →
      E (.mask error (some node)))
    (hbelow : name ≠ typenameField → ∀ definition given,
      env.schema.fieldNamed type name = .ok definition →
      env.hooks.namesAt ⟨type, definition, aliasName⟩ = .ok (some given) →
      Keeps env I E names (pathsBelow descend definition node given ss)) :
    Keeps env I E names (field env descend type node name aliasName ss) := by
  by_cases hname : name = typenameField
  · rw [field, if_pos hname]
    exact keeps_pure _
  · cases hfield : env.schema.fieldNamed type name with
    | error error =>
        rw [field_of_error hname hfield]
        exact keeps_fail (herror hname error hfield)
    | ok definition =>
        rw [field_of_found hname hfield]
        refine (keeps_extraPathsOf hrefused _).bind (restores_extraPathsOf _ _) fun extra _ => ?_
        refine (keeps_namesOf hrefused _).bind (restores_namesOf _ _) fun given hgiven => ?_
        cases given with
        | none => exact keeps_note_bind _ (keeps_pure _)
        | some given =>
            have hpaths := hbelow hname definition given hfield (returns_namesOf_iff.1 hgiven)
            exact hpaths.bind (restores_pathsBelow hd _ _ _ _) fun _ _ => keeps_pure _

theorem keeps_narrow (hrefused : ∀ text, E (.refused text)) (hd : descend.Restores)
    (hook : NarrowingHook) (n : Narrowing) {ss : List Selection}
    (h : Keeps env I E names (descend ⟨n.concreteType, some n.field⟩ node ss)) :
    Keeps env I E names (narrow descend hook n node ss) := by
  have hmembers : Keeps env I E names (memberPaths descend n node ss) :=
    h.bind (hd _ _ _) fun _ _ => keeps_emit_bind rfl (keeps_pure _)
  exact keeps_emit_bind rfl
    (hmembers.follow (restores_memberPaths hd n node ss) hrefused (hook n))

/-- A fragment, given what it can fail with and the places in which its selections can be read. -/
theorem keeps_enterFragment (hrefused : ∀ text, E (.refused text)) (hd : descend.Restores)
    {condition : Name} {ss : List Selection}
    (hunknown : env.schema.type? condition = none →
      E (.mask (.unknownType condition) (some node)))
    (hcurrent : env.schema.type? frame.type = none →
      E (.mask (.unknownType frame.type) (some node)))
    (henclosing : env.hooks.narrowing.isSome → env.schema.IsAbstract frame.type →
      frame.enclosing = none → E (.noEnclosingField condition frame.type))
    (hbelow : ∀ inner, frame.Opens env condition inner →
      Keeps env I E names (descend inner node ss)) :
    Keeps env I E names (enterFragment env descend frame condition node ss) := by
  cases htarget : env.schema.type? condition with
  | none =>
      rw [enterFragment_of_unknown htarget]
      exact keeps_fail (hunknown htarget)
  | some target =>
      cases htype : env.schema.type? frame.type with
      | none =>
          rw [enterFragment_of_unknown_current htarget htype]
          exact keeps_fail (hcurrent htype)
      | some current =>
          by_cases henters : env.schema.Enters condition frame.type
          · rw [enterFragment_of_enters htarget htype henters]
            exact hbelow frame (.inPlace henters)
          · by_cases habstract : current.isAbstract
            · have hother : condition ≠ frame.type := fun hsame => henters (.inl hsame)
              have hcurrent := (Schema.isAbstract_iff htype).2 habstract
              rw [enterFragment_of_narrows htarget htype habstract hother]
              cases hhook : env.hooks.narrowing with
              | none => exact keeps_note_bind _ (keeps_pure _)
              | some hook =>
                  cases hfield : frame.enclosing with
                  | none => exact keeps_fail (henclosing (by simp [hhook]) hcurrent hfield)
                  | some field =>
                      refine keeps_narrow hrefused hd hook _ (hbelow _ ?_)
                      exact .member hhook hcurrent hother (by simp [htarget]) hfield
            · rw [enterFragment_of_unrelated htarget htype habstract henters]
              exact keeps_note_bind _ (keeps_pure _)

/-- A spread, given what it can fail with. Its definition is read with one more name on the list of
    what is being expanded. -/
theorem keeps_spread {name : Name}
    (hundefined : env.fragments.find? name = none →
      E (.mask (.unknownFragment name) (some node)))
    (hcycle : ∀ definition, env.fragments.find? name = some definition → name ∈ names →
      E (.mask (.fragmentCycle name) (some node)))
    (hbody : ∀ definition, env.fragments.find? name = some definition → name ∉ names →
      Keeps env I E (names ++ [name]) (enterFragment env descend frame definition.condition
        (.definition name) definition.selections)) :
    Keeps env I E names (spread env descend frame node name) := by
  cases hfind : env.fragments.find? name with
  | none =>
      rw [spread_of_undefined hfind]
      exact keeps_fail (hundefined hfind)
  | some definition =>
      by_cases hmem : name ∈ names
      · have hfails : Keeps env I E names
            (fail (.mask (.fragmentCycle name) (some node)) : Walk (List String)) :=
          keeps_fail (hcycle definition hfind hmem)
        have hrun := run_spread_of_mem hfind hmem descend frame node
        exact ⟨fun v hv => hfails.visits v (hrun ▸ hv),
          fun f hf => hrun ▸ hfails.failure f (hrun ▸ hf)⟩
      · have hinside := hbody definition hfind hmem
        have hrun := run_spread_of_notMem hfind hmem descend frame node
        refine ⟨fun v hv => hinside.visits v (by rwa [hrun] at hv), fun f hf => ?_⟩
        rw [hrun] at hf ⊢
        exact hinside.failure f hf

/-- Selections in turn. -/
theorem keeps_each (hd : descend.Restores) {index : Nat} {ss : List Selection}
    (h : ∀ offset s, ss[offset]? = some s →
      Keeps env I E names (selection env descend frame (node.child (index + offset)) s)) :
    Keeps env I E names (selectionsFrom env descend frame node index ss) := by
  induction ss generalizing index with
  | nil => exact keeps_pure _
  | cons s rest ih =>
      have hfirst : Keeps env I E names (selection env descend frame (node.child index) s) := h 0 s rfl
      have hrest : Keeps env I E names (selectionsFrom env descend frame node (index + 1) rest) := by
        refine ih fun offset t ht => ?_
        have hoffset : index + 1 + offset = index + (offset + 1) := by omega
        exact hoffset ▸ h (offset + 1) t ht
      rw [selectionsFrom_cons]
      exact hfirst.bind (restores_selection hd _ _ _) fun _ _ =>
        hrest.bind (restores_selectionsFrom hd _ _ _ _) fun _ _ => keeps_pure _

/-- A selection whose visit is recorded first, so that it may fail with what this visit fails with. -/
theorem keeps_selection {s : Selection} (hs : I ⟨frame, names, node, s⟩)
    (h : Keeps env I (fun f => E f ∨ Visit.Fails env ⟨frame, names, node, s⟩ f) names
      (pathsOf env descend frame node s)) :
    Keeps env I E names (selection env descend frame node s) where
  visits v hv := by
    rcases List.mem_cons.1 hv with rfl | hv
    · exact hs
    · exact h.visits v hv
  failure f hf := by
    rcases h.failure f hf with (hE | hfails) | ⟨v, hv, hfails⟩
    · exact .inl hE
    · exact .inr ⟨_, List.mem_cons_self, hfails⟩
    · exact .inr ⟨v, List.mem_cons_of_mem _ hv, hfails⟩

/-- At a type that does not exist, nothing is visited. -/
theorem keeps_mask_of_unknown {type : Name} (htype : env.schema.type? type = none)
    (h : E (.mask (.unknownType type) none)) (roots : List RootNode) :
    Keeps env I E [] (mask env type roots) := by
  rw [mask, Schema.typeNamed_eq_error_iff.2 ⟨htype, rfl⟩]
  exact keeps_fail h

end Walk

namespace Visit.Invariant

open Walk

variable {env : Env} {I : Visit → Prop} {E : Failure → Prop} {descend : Descend}

/-- Every deeper walk keeps the invariant, if the selections that it starts with have it. -/
def Below (env : Env) (I : Visit → Prop) (E : Failure → Prop) (descend : Descend) : Prop :=
  ∀ ⦃frame node names ss⦄,
    (∀ index s, ss[index]? = some s → I ⟨frame, names, node.child index, s⟩) →
    Keeps env I E names (descend frame node ss)

variable (hI : Invariant env I E)
include hI

/-- **One selection keeps the invariant**, with all that is walked below it. -/
theorem keeps_pathsOf (hd : descend.Restores) (hbelow : Below env I E descend) {v : Visit}
    (hv : I v) : Keeps env I (fun f => E f ∨ v.Fails env f) v.expanding
      (pathsOf env descend v.frame v.node v.selection) := by
  have hrefused : ∀ text, E (.refused text) ∨ v.Fails env (.refused text) := fun _ => .inr .refused
  obtain ⟨frame, names, node, s⟩ := v
  let here : Visit := ⟨frame, names, node, s⟩
  have hdeeper : ∀ {inner other names below},
      (∀ index t, below[index]? = some t → I ⟨inner, names, other.child index, t⟩) →
      Keeps env I (fun f => E f ∨ here.Fails env f) names (descend inner other below) :=
    fun h => (hbelow h).mono fun _ => .inl
  have hmissing : ∀ {name error}, s.fieldName? = some name → name ≠ typenameField →
      env.schema.fieldNamed frame.type name = .error error →
      here.Fails env (.mask error (some node)) :=
    fun hs hname hfield => fails_of_fieldNamed (v := here) hs hname hfield
  cases s with
  | leaf name aliasName =>
      exact keeps_field hrefused hd (fun hname _ hfield => .inr (hmissing rfl hname hfield))
        fun _ _ _ _ _ => keeps_pure _
  | branch name aliasName below =>
      refine keeps_field hrefused hd (fun hname _ hfield => .inr (hmissing rfl hname hfield)) ?_
      intro hname definition given hfield hgiven
      refine (hdeeper fun index t ht => ?_).bind (hd _ _ _) fun _ _ => keeps_pure _
      exact hI.step hv (.branch hname hfield hgiven ht)
  | fragment condition body =>
      refine keeps_enterFragment hrefused hd ?_ (fun hnone => .inr (.unknownCurrent hnone))
        (fun hhook habstract hnone => .inr (.noEnclosingField hhook habstract hnone)) ?_
      · intro hnone
        cases condition with
        | none => exact .inr (.unknownCurrent hnone)
        | some condition => exact .inr (.offends (.unknownCondition hnone))
      · exact fun inner hopens => hdeeper fun index t ht => hI.step hv (.fragment hopens ht)
  | spread name =>
      refine keeps_spread (fun hnone => .inr (.offends (.unknownFragment hnone)))
        (fun definition hfind hmem => .inr (.offends (.cycle hfind hmem))) ?_
      intro definition hfind hfresh
      refine keeps_enterFragment hrefused hd ?_ (fun hnone => .inr (.unknownCurrent hnone))
        (fun hhook habstract hnone => .inr (.noEnclosingField hhook habstract hnone)) ?_
      · exact fun hnone => .inr (.offends (.unknownSpreadCondition hfind hfresh hnone))
      · exact fun inner hopens =>
          hdeeper fun index t ht => hI.step hv (.spread hfind hfresh hopens ht)
  | other kind => exact keeps_fail (.inr (.offends .unexpected))

theorem keeps_selectionsFrom (hd : descend.Restores) (hbelow : Below env I E descend)
    {frame : Frame} {node : Address} {names : List Name} {index : Nat} {ss : List Selection}
    (h : ∀ offset s, ss[offset]? = some s → I ⟨frame, names, node.child (index + offset), s⟩) :
    Keeps env I E names (selectionsFrom env descend frame node index ss) :=
  keeps_each hd fun offset s hs =>
    keeps_selection (h offset s hs) (hI.keeps_pathsOf hd hbelow (h offset s hs))

/-! ## Whole runs -/

theorem below_selectionsUpTo (depth : Nat) : Below env I E (selectionsUpTo env depth) := by
  induction depth with
  | zero => exact fun _ _ _ _ _ => keeps_fail hI.exhausted
  | succ depth ih =>
      intro frame node names ss h
      refine hI.keeps_selectionsFrom (restores_selectionsUpTo env depth) ih fun index s hs => ?_
      rw [Nat.zero_add]
      exact h index s hs

theorem below_selections : Below env I E (selections env) := by
  intro frame node names ss h
  have hrun := hI.below_selectionsUpTo (depthBound env.fragments names ss) h
  exact ⟨hrun.visits, hrun.failure⟩

theorem keeps_mergeRoots {type : Name} {index : Nat} {roots : List RootNode}
    {found : OrderedSet String}
    (h : ∀ offset root, roots[offset]? = some root → ∀ position s,
      root.selections[position]? = some s →
      I ⟨⟨type, none⟩, [], (Address.root (index + offset)).child position, s⟩) :
    Keeps env I E [] (mergeRoots env type index roots found) := by
  induction roots generalizing index found with
  | nil => exact keeps_pure _
  | cons root rest ih =>
      have hroot : Keeps env I E [] (selections env ⟨type, none⟩ (.root index) root.selections) :=
        hI.below_selections fun position s hs => h 0 root rfl position s hs
      refine hroot.bind (restores_selections env _ _ _) fun paths _ => ?_
      refine ih fun offset other hother position s hs => ?_
      have hoffset : index + 1 + offset = index + (offset + 1) := by omega
      exact hoffset ▸ h (offset + 1) other hother position s hs

/-- At a type that exists, the visits begin with the selections of the root nodes. -/
theorem keeps_mask_of_known {type : Name} {t : NamedType} (htype : env.schema.type? type = some t)
    {roots : List RootNode}
    (h : ∀ index root, roots[index]? = some root → ∀ position s,
      root.selections[position]? = some s →
      I ⟨⟨type, none⟩, [], (Address.root index).child position, s⟩) :
    Keeps env I E [] (mask env type roots) := by
  have hmerged : Keeps env I E [] (mergeRoots env type 0 roots .empty) := by
    refine hI.keeps_mergeRoots fun index root hroot position s hs => ?_
    rw [Nat.zero_add]
    exact h index root hroot position s hs
  have hfound : Keeps env I E [] (mergeRoots env type 0 roots .empty >>= fun found => do
      note (.computed found.size type)
      return found.toList) :=
    hmerged.bind (restores_mergeRoots type roots 0 _) fun _ _ =>
      keeps_note_bind _ (keeps_pure _)
  rw [mask, Schema.typeNamed_eq_ok_iff.2 htype]
  refine Keeps.bind (keeps_pure t) (restores_pure t) fun _ _ => ?_
  exact keeps_note_bind _ hfound

/-- **What holds at first and is kept by each step holds of all visits of a run**, and the run fails
    with what one of its visits fails with. -/
theorem keeps_mask {type : Name} {roots : List RootNode}
    (hunknown : env.schema.type? type = none → E (.mask (.unknownType type) none))
    (h : ∀ index root, roots[index]? = some root → ∀ position s,
      root.selections[position]? = some s →
      I ⟨⟨type, none⟩, [], (Address.root index).child position, s⟩) :
    Keeps env I E [] (mask env type roots) := by
  cases htype : env.schema.type? type with
  | none => exact keeps_mask_of_unknown htype (hunknown htype) roots
  | some t => exact hI.keeps_mask_of_known htype h

end Visit.Invariant

/-- **A computation fails only with what one of its visits fails with**, unless there is no type to
    start at or it is cut short. -/
theorem Walk.exists_visit_of_failure {env : Env} {type : Name} {roots : List RootNode}
    {failure : Failure} (hfailure : (env.mask type roots).outcome = .error failure) :
    failure = .exhausted ∨ failure = .mask (.unknownType type) none ∨
      ∃ v ∈ visitsOf (env.mask type roots).events, v.Fails env failure := by
  have hI : Visit.Invariant env (fun _ => True)
      (fun f => f = .exhausted ∨ f = .mask (.unknownType type) none) := ⟨fun _ _ => trivial, .inl rfl⟩
  have hrun : Walk.Keeps env (fun _ => True)
      (fun f => f = .exhausted ∨ f = .mask (.unknownType type) none) []
      (Walk.mask env type roots) :=
    hI.keeps_mask (fun _ => .inr rfl) fun _ _ _ _ _ _ => trivial
  exact or_assoc.1 (hrun.failure failure hfailure)

end SelectionMask
