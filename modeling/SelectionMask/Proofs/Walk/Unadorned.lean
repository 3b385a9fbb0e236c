import SelectionMask.Proofs.Document.Unaliased
import SelectionMask.Proofs.Hooks.Blind
import SelectionMask.Proofs.Walk.Enclosing

set_option autoImplicit false

/-! # Aliases and wrappers do not matter

`Env.Resembles` relates two environments that are the same but for aliases in the definitions of
fragments and for wrappers in the schema, with hooks that are blind to both. From selections that
are the same but for aliases, walks in the two of them do the same: they come to the same paths or
the same failure, and their journals differ only in the aliases and wrappers that are shown.

Wrappers also show in the field that encloses a walk, which the narrowing hook is told of. So the two
walks stand at places that are the same but for wrappers (`Frame.unwrapped`). -/

namespace SelectionMask

open Walk

/-- The place, with nothing around the named type of the enclosing field. -/
def Frame.unwrapped (frame : Frame) : Frame :=
  { frame with enclosing := frame.enclosing.map FieldDef.unwrapped }

theorem Frame.type_eq_of_unwrapped {frame frame' : Frame}
    (h : frame.unwrapped = frame'.unwrapped) : frame.type = frame'.type :=
  (Frame.mk.inj h).1

theorem Frame.enclosing_eq_of_unwrapped {frame frame' : Frame}
    (h : frame.unwrapped = frame'.unwrapped) :
    frame.enclosing.map FieldDef.unwrapped = frame'.enclosing.map FieldDef.unwrapped :=
  (Frame.mk.inj h).2

namespace Comparison

/-- The same values or failures, and the same hook calls, answers and notes but for aliases and
    wrappers. -/
def unadorned : Comparison where
  failure := Eq
  events es es' :=
    (traceOf es).map HookEvent.unadorned = (traceOf es').map HookEvent.unadorned
      ∧ logOf es = logOf es'
  failure_refl := unenclosed.failure_refl
  events_refl _ := ⟨rfl, rfl⟩
  events_append h h' := by
    simp only [traceOf_append, logOf_append, List.map_append, h.1, h.2, h'.1, h'.2, and_self]
  maskError?_eq := unenclosed.maskError?_eq

theorem unadorned_hook {event event' : HookEvent} (h : event.unadorned = event'.unadorned) :
    unadorned.events [.hook event] [.hook event'] := by
  refine ⟨?_, rfl⟩
  change [event.unadorned] = [event'.unadorned]
  rw [h]

theorem outcome_unadorned_iff {α : Type} {r r' : Except Failure α} :
    unadorned.outcome r r' ↔ r = r' :=
  outcome_unenclosed_iff

end Comparison

/-- Two environments that are the same but for aliases and wrappers, with hooks that see neither. -/
structure Env.Resembles (env env' : Env) : Prop where
  schema : env.schema.unwrapped = env'.schema.unwrapped
  fragments : env.fragments.SameUnaliased env'.fragments
  hooks : env.hooks = env'.hooks
  blind : env.hooks.Blind

namespace Env.Resembles

variable {env env' : Env} {descend descend' : Descend} {names : List Name} {node : Address}

section

variable (h : env.Resembles env')
include h

/-! ## Fields -/

theorem alike_extraPathsOf {site site' : FieldSite} (hsite : site.unadorned = site'.unadorned) :
    Alike .unadorned names names (extraPathsOf env site node) (extraPathsOf env' site' node) := by
  unfold extraPathsOf
  rw [← h.hooks]
  cases hhook : env.hooks.extraPaths with
  | none => exact alike_pure _
  | some hook =>
      dsimp only
      rw [h.blind.extraPaths_eq hhook hsite]
      refine alike_emit_bind (Comparison.unadorned_hook ?_) (alike_hooked _)
      exact congrArg (HookEvent.extraPathsAsked · node) hsite

theorem alike_namesOf {site site' : FieldSite} (hsite : site.unadorned = site'.unadorned) :
    Alike .unadorned names names (namesOf env site node) (namesOf env' site' node) := by
  unfold namesOf
  rw [← h.hooks]
  cases hhook : env.hooks.fieldNames with
  | none =>
      have hname : site.field.name = site'.field.name :=
        FieldDef.name_eq_of_unwrapped (congrArg FieldSite.field hsite)
      dsimp only
      rw [hname]
      exact alike_pure _
  | some hook =>
      dsimp only
      rw [h.blind.fieldNames_eq hhook hsite]
      refine alike_emit_bind (Comparison.unadorned_hook ?_) ?_
      · exact congrArg (HookEvent.fieldNamesAsked · node) hsite
      · exact (alike_hooked _).bind (restores_hooked _) (restores_hooked _) fun _ => alike_pure _

/-- A field under two aliases, given that what stands below it is walked alike. -/
theorem alike_field (hd : descend.Restores) (hd' : descend'.Restores) (type name : Name)
    (aliasName aliasName' : Option String) {ss ss' : Option (List Selection)}
    (hbelow : ∀ definition definition' : FieldDef, definition.unwrapped = definition'.unwrapped →
      ∀ given, Alike .unadorned names names (pathsBelow descend definition node given ss)
        (pathsBelow descend' definition' node given ss')) :
    Alike .unadorned names names (field env descend type node name aliasName ss)
      (field env' descend' type node name aliasName' ss') := by
  by_cases hname : name = typenameField
  · rw [field, field, if_pos hname, if_pos hname]
    exact alike_pure _
  · obtain ⟨error, hfound, hfound'⟩ | ⟨definition, definition', hfound, hfound', hdefinition⟩ :=
      Schema.fieldNamed_of_unwrapped h.schema type name
    · rw [field_of_error hname hfound, field_of_error hname hfound']
      exact alike_fail rfl
    · have hsite : FieldSite.unadorned ⟨type, definition, aliasName⟩
          = FieldSite.unadorned ⟨type, definition', aliasName'⟩ :=
        congrArg (FieldSite.mk type · none) hdefinition
      rw [field_of_found hname hfound, field_of_found hname hfound']
      refine (h.alike_extraPathsOf hsite).bind (restores_extraPathsOf _ _)
        (restores_extraPathsOf _ _) fun extra => ?_
      refine (h.alike_namesOf hsite).bind (restores_namesOf _ _) (restores_namesOf _ _)
        fun given => ?_
      cases given with
      | none => exact alike_note_bind _ (alike_pure _)
      | some given =>
          exact (hbelow _ _ hdefinition given).bind (restores_pathsBelow hd _ _ _ _)
            (restores_pathsBelow hd' _ _ _ _) fun _ => alike_pure _

/-! ## Fragments -/

/-- A member, about which the hook is told the same but for wrappers. -/
theorem alike_narrow (hd : descend.Restores) (hd' : descend'.Restores) {hook : NarrowingHook}
    (hhook : env.hooks.narrowing = some hook) {n n' : Narrowing}
    (hn : n.unadorned = n'.unadorned) {ss ss' : List Selection}
    (hbelow : Alike .unadorned names names (descend ⟨n.concreteType, some n.field⟩ node ss)
      (descend' ⟨n'.concreteType, some n'.field⟩ node ss')) :
    Alike .unadorned names names (narrow descend hook n node ss)
      (narrow descend' hook n' node ss') := by
  unfold narrow
  rw [h.blind.narrowing_eq hhook hn]
  refine alike_emit_bind (Comparison.unadorned_hook ?_) ?_
  · exact congrArg (HookEvent.narrowingAsked · node) hn
  · refine Alike.follow ?_ (restores_memberPaths hd n node ss)
      (restores_memberPaths hd' n' node ss') (hook n')
    refine hbelow.bind (hd _ _ _) (hd' _ _ _) fun paths => ?_
    exact alike_emit_bind (Comparison.events_refl _ _) (alike_pure _)

/-- A fragment at the same place but for wrappers, given that its selections are walked alike
    wherever they are read. -/
theorem alike_enterFragment (hd : descend.Restores) (hd' : descend'.Restores) {frame frame' : Frame}
    (hframe : frame.unwrapped = frame'.unwrapped) (condition : Name) {ss ss' : List Selection}
    (hbelow : ∀ inner inner' : Frame, inner.unwrapped = inner'.unwrapped →
      Alike .unadorned names names (descend inner node ss) (descend' inner' node ss')) :
    Alike .unadorned names names (enterFragment env descend frame condition node ss)
      (enterFragment env' descend' frame' condition node ss') := by
  have htype := Frame.type_eq_of_unwrapped hframe
  cases htarget : env.schema.type? condition with
  | none =>
      rw [enterFragment_of_unknown htarget,
        enterFragment_of_unknown (Schema.type?_eq_none_of_unwrapped h.schema htarget)]
      exact alike_fail rfl
  | some target =>
      obtain ⟨target', htarget', hsame⟩ := Schema.exists_type?_of_unwrapped h.schema htarget
      cases hcurrent : env.schema.type? frame.type with
      | none =>
          have hcurrent' := Schema.type?_eq_none_of_unwrapped h.schema hcurrent
          rw [enterFragment_of_unknown_current htarget hcurrent,
            enterFragment_of_unknown_current htarget' (htype ▸ hcurrent'), htype]
          exact alike_fail rfl
      | some current =>
          obtain ⟨current', hcurrent', hkind⟩ :=
            Schema.exists_type?_of_unwrapped h.schema hcurrent
          rw [enterFragment_of_known htarget hcurrent,
            enterFragment_of_known htarget' (htype ▸ hcurrent'),
            ← NamedType.isAbstract_eq_of_unwrapped hkind,
            ← NamedType.isAbstract_eq_of_unwrapped hsame,
            ← NamedType.metadata_eq_of_unwrapped hsame, ← h.hooks, ← htype]
          split
          · split
            · exact hbelow frame frame' hframe
            · cases hhook : env.hooks.narrowing with
              | none => exact alike_note_bind _ (alike_pure _)
              | some hook =>
                  have henclosing := Frame.enclosing_eq_of_unwrapped hframe
                  cases hfield : frame.enclosing with
                  | none =>
                      rw [hfield] at henclosing
                      rw [Option.map_eq_none_iff.1 henclosing.symm]
                      exact alike_fail rfl
                  | some field =>
                      rw [hfield] at henclosing
                      obtain ⟨field', hfield', hfields⟩ :=
                        Option.map_eq_some_iff.1 henclosing.symm
                      rw [hfield']
                      refine h.alike_narrow hd hd' hhook ?_ (hbelow _ _ ?_)
                      · exact congrArg (Narrowing.mk _ _ _) hfields.symm
                      · exact congrArg (Frame.mk _ <| some ·) hfields.symm
          · split
            · exact alike_note_bind _ (alike_pure _)
            · exact hbelow frame frame' hframe

/-! ## Selections -/

/-- One level deeper, all that has a smaller bound is walked alike. -/
def AlikeBelow (env env' : Env) (bound : Nat) : Prop :=
  ∀ names frame frame' node ss ss', depthBound env.fragments names ss < bound →
    frame.unwrapped = frame'.unwrapped → Selection.unaliasedAll ss = Selection.unaliasedAll ss' →
    Alike .unadorned names names (selections env frame node ss) (selections env' frame' node ss')

variable {frame frame' : Frame} {ss : List Selection}

/-- A spread of a fragment, whose definition has a smaller bound than the selections at hand. -/
theorem alike_spread (hbelow : AlikeBelow env env' (depthBound env.fragments names ss))
    (hframe : frame.unwrapped = frame'.unwrapped) (name : Name) :
    Alike .unadorned names names (spread env (selections env) frame node name)
      (spread env' (selections env') frame' node name) := by
  have hsame := h.fragments name
  cases hfind : env.fragments.find? name with
  | none =>
      rw [hfind] at hsame
      rw [spread_of_undefined hfind, spread_of_undefined (Option.map_eq_none_iff.1 hsame.symm)]
      exact alike_fail rfl
  | some definition =>
      rw [hfind] at hsame
      obtain ⟨definition', hfind', hdefinition⟩ := Option.map_eq_some_iff.1 hsame.symm
      obtain ⟨hcondition, hselections⟩ := Fragment.mk.inj hdefinition
      by_cases hmem : name ∈ names
      · refine Alike.congr (run_spread_of_mem hfind hmem _ _ _)
          (run_spread_of_mem hfind' hmem _ _ _) ?_
        exact alike_fail rfl
      · refine Alike.congr (run_spread_of_notMem hfind hmem _ _ _)
          (run_spread_of_notMem hfind' hmem _ _ _) (Alike.within ?_)
        rw [hcondition]
        refine h.alike_enterFragment (restores_selections env) (restores_selections env') hframe _
          fun inner inner' hinner => ?_
        exact hbelow _ inner inner' _ _ _ (depthBound_definition_lt hfind hmem) hinner
          hselections.symm

theorem alike_pathsOf (hbelow : AlikeBelow env env' (depthBound env.fragments names ss))
    (hframe : frame.unwrapped = frame'.unwrapped) {s s' : Selection} (hs : s ∈ ss)
    (hsame : s.unaliased = s'.unaliased) :
    Alike .unadorned names names (pathsOf env (selections env) frame node s)
      (pathsOf env' (selections env') frame' node s') := by
  have hd := restores_selections env
  have hd' := restores_selections env'
  have htype := Frame.type_eq_of_unwrapped hframe
  -- Without aliases both are of one kind, and equal but for what stands in them.
  cases s with
  | leaf name aliasName =>
      cases s' with
      | leaf name' aliasName' =>
          obtain ⟨rfl, -⟩ := Selection.leaf.inj hsame
          rw [pathsOf, pathsOf, htype]
          exact h.alike_field hd hd' _ name _ _ fun _ _ _ _ => alike_pure _
      | _ => cases hsame
  | branch name aliasName below =>
      cases s' with
      | branch name' aliasName' below' =>
          obtain ⟨rfl, -, hselections⟩ := Selection.branch.inj hsame
          rw [pathsOf, pathsOf, htype]
          refine h.alike_field hd hd' _ name _ _ fun definition definition' hdefinition given => ?_
          have hinner : Frame.unwrapped ⟨definition.namedType, some definition⟩
              = Frame.unwrapped ⟨definition'.namedType, some definition'⟩ := by
            rw [Frame.unwrapped, Frame.unwrapped, FieldDef.namedType_eq_of_unwrapped hdefinition,
              Option.map_some, Option.map_some, hdefinition]
          have hpaths := hbelow names _ _ node below below' (depthBound_branch_lt hs) hinner
            hselections
          exact hpaths.bind (hd _ _ _) (hd' _ _ _) fun _ => alike_pure _
      | _ => cases hsame
  | fragment condition body =>
      cases s' with
      | fragment condition' body' =>
          obtain ⟨rfl, hbody⟩ := Selection.fragment.inj hsame
          rw [pathsOf, pathsOf, ← htype]
          refine h.alike_enterFragment hd hd' hframe _ fun inner inner' hinner => ?_
          exact hbelow names inner inner' node body body' (depthBound_fragment_lt hs) hinner hbody
      | _ => cases hsame
  | spread name =>
      cases s' with
      | spread name' =>
          obtain rfl := Selection.spread.inj hsame
          exact h.alike_spread hbelow hframe name
      | _ => cases hsame
  | other kind =>
      cases s' with
      | other kind' =>
          obtain rfl := Selection.other.inj hsame
          exact alike_fail rfl
      | _ => cases hsame

theorem alike_selectionsFrom (hbelow : AlikeBelow env env' (depthBound env.fragments names ss))
    (hframe : frame.unwrapped = frame'.unwrapped) (index : Nat) {rest rest' : List Selection}
    (hrest : rest ⊆ ss) (hsame : Selection.unaliasedAll rest = Selection.unaliasedAll rest') :
    Alike .unadorned names names (selectionsFrom env (selections env) frame node index rest)
      (selectionsFrom env' (selections env') frame' node index rest') := by
  induction rest generalizing index rest' with
  | nil =>
      cases rest' with
      | nil => exact alike_pure _
      | cons s' rest' => cases hsame
  | cons s rest ih =>
      cases rest' with
      | nil => cases hsame
      | cons s' rest' =>
          obtain ⟨hs, hrest⟩ := List.cons_subset.1 hrest
          obtain ⟨hfirst, hothers⟩ := List.cons.inj hsame
          exact alike_selectionsFrom_cons (restores_selections env) (restores_selections env')
            ⟨rfl, rfl⟩ (h.alike_pathsOf hbelow hframe hs hfirst) (ih (index + 1) hrest hothers)

/-- **Walks that resemble each other do the same**, by induction on the depth bound of the first
    one. -/
theorem alike_selections (names : List Name) (hframe : frame.unwrapped = frame'.unwrapped)
    (node : Address) {ss ss' : List Selection}
    (hsame : Selection.unaliasedAll ss = Selection.unaliasedAll ss') :
    Alike .unadorned names names (selections env frame node ss)
      (selections env' frame' node ss') := by
  suffices hbound : ∀ bound, AlikeBelow env env' bound from
    hbound _ names frame frame' node ss ss' (Nat.lt_succ_self _) hframe hsame
  intro bound
  induction bound with
  | zero => exact fun _ _ _ _ _ _ hlt => absurd hlt (Nat.not_lt_zero _)
  | succ bound ih =>
      intro names frame frame' node ss ss' hlt hframe hsame
      have hbelow : AlikeBelow env env' (depthBound env.fragments names ss) :=
        fun names' inner inner' node' below below' hless =>
          ih names' inner inner' node' below below' (by omega)
      rw [selections_eq, selections_eq]
      exact h.alike_selectionsFrom hbelow hframe 0 (List.Subset.refl ss) hsame

/-! ## Root nodes -/

theorem alikeRoots (type : Name) {roots roots' : List RootNode}
    (hroots : roots.map RootNode.unaliased = roots'.map RootNode.unaliased) :
    AlikeRoots .unadorned [] [] env env' type roots roots' := by
  induction roots generalizing roots' with
  | nil =>
      cases roots' with
      | nil => exact .nil
      | cons root' rest' => cases hroots
  | cons root rest ih =>
      cases roots' with
      | nil => cases hroots
      | cons root' rest' =>
          obtain ⟨hroot, hrest⟩ := List.cons.inj hroots
          refine .cons (fun index => ?_) (ih hrest)
          exact h.alike_selections [] rfl _ (RootNode.selections_eq_of_unaliased hroot)

theorem alike_mask (type : Name) {roots roots' : List RootNode}
    (hroots : roots.map RootNode.unaliased = roots'.map RootNode.unaliased) :
    Alike .unadorned [] [] (Walk.mask env type roots) (Walk.mask env' type roots') :=
  alike_mask_of_type? (h.alikeRoots type hroots)
    ⟨Schema.type?_eq_none_of_unwrapped h.schema, Schema.type?_eq_none_of_unwrapped h.schema.symm⟩

end

end Env.Resembles

/-! ## The mask -/

/-- **Aliases and wrappers do not matter.** Blind to both are all hooks that rules describe, but for
    tables that fall back on the alias. With hooks that are blind, two computations of the same query
    but for its aliases, in its nodes as in its fragments, in the same schema but for what stands
    around the named types of its fields, come to the same paths or to the same failure, which
    blames the same node; they leave the same notes, and the same trace of the hooks but for the
    aliases and wrappers in it. -/
theorem maskPaths_overlooks_adornments :
    (∀ rules : HookRules, (∀ entries, rules.fieldNames ≠ some (.table entries .aliasOrOwn)) →
      rules.hooks.Blind) ∧
    ∀ (schema schema' : Schema), schema.unwrapped = schema'.unwrapped →
      ∀ (fragments fragments' : FragmentTable), fragments.SameUnaliased fragments' →
      ∀ (roots roots' : List RootNode),
        roots.map RootNode.unaliased = roots'.map RootNode.unaliased →
      ∀ hooks : Option Hooks, (hooks.getD .unset).Blind → ∀ type : Name,
        let report := maskPaths type roots fragments schema hooks
        let report' := maskPaths type roots' fragments' schema' hooks
        report'.outcome = report.outcome ∧ logOf report'.events = logOf report.events ∧
          (traceOf report'.events).map HookEvent.unadorned
            = (traceOf report.events).map HookEvent.unadorned := by
  refine ⟨fun rules => HookRules.blind, ?_⟩
  intro schema schema' hschema fragments fragments' hfragments roots roots' hroots hooks hblind type
    report report'
  have hresembles : Env.Resembles ⟨schema, fragments, hooks.getD .unset⟩
      ⟨schema', fragments', hooks.getD .unset⟩ := ⟨hschema, hfragments, rfl, hblind⟩
  obtain ⟨houtcome, htrace, hlog⟩ := hresembles.alike_mask type hroots
  exact ⟨(Comparison.outcome_unadorned_iff.1 houtcome).symm, hlog.symm, htrace.symm⟩

/-- Other aliases everywhere, and lists of lists in place of plain types. -/
theorem maskPaths_overlooks_adornments_of_query :
    let rules : HookRules :=
      ⟨some (.table [("secret", .value none)] .qualified), some (.table [("id", .value ["all"])] []),
        some .members⟩
    let schema (around : TypeRef → TypeRef) : Schema :=
      ⟨[⟨"Query", .object [⟨"node", around (.named "Node"), none⟩] [], none⟩,
        ⟨"Node", .interface [⟨"id", around (.named "ID"), none⟩], none⟩,
        ⟨"User", .object [⟨"id", around (.named "ID"), none⟩,
          ⟨"secret", around (.named "ID"), none⟩] ["Node"], none⟩]⟩
    let fragments (label : Option String) : FragmentTable :=
      .ofList [("Parts", ⟨"User", [.leaf "secret" label]⟩)]
    let roots (label : Option String) : List RootNode :=
      [.field "query" label [.branch "node" label
        [.fragment (some "User") [.leaf "id" label, .spread "Parts"]]]]
    let nested (t : TypeRef) : TypeRef := .nonNull (.list (.list (.nonNull t)))
    let report := maskPaths "Query" (roots none) (fragments none) (schema id) (some rules.hooks)
    let report' := maskPaths "Query" (roots (some "x")) (fragments (some "x")) (schema nested)
      (some rules.hooks)
    (schema id).unwrapped = (schema nested).unwrapped ∧
      (fragments none).SameUnaliased (fragments (some "x")) ∧
      (roots none).map RootNode.unaliased = (roots (some "x")).map RootNode.unaliased ∧
      rules.hooks.Blind ∧
      report.outcome = .ok ["Query.node.all", "Query.node.User.id"] ∧
      report'.outcome = report.outcome ∧ logOf report'.events = logOf report.events ∧
        (traceOf report'.events).map HookEvent.unadorned
          = (traceOf report.events).map HookEvent.unadorned := by
  intro rules schema fragments roots nested report report'
  have hschema : (schema id).unwrapped = (schema nested).unwrapped := rfl
  have hfragments : (fragments none).SameUnaliased (fragments (some "x")) := by
    intro name
    simp only [fragments, FragmentTable.ofList, List.foldl_cons, List.foldl_nil,
      FragmentTable.find?_insert]
    split <;> rfl
  have hroots : (roots none).map RootNode.unaliased = (roots (some "x")).map RootNode.unaliased :=
    rfl
  have hblind : rules.hooks.Blind :=
    maskPaths_overlooks_adornments.1 rules fun entries => by simp [rules]
  exact ⟨hschema, hfragments, hroots, hblind, by decide +kernel,
    maskPaths_overlooks_adornments.2 _ _ hschema _ _ hfragments _ _ hroots (some rules.hooks) hblind
      "Query"⟩

end SelectionMask
