import Mathlib.Data.List.Forall2
import SelectionMask.Proofs.Walk.Restoration

set_option autoImplicit false

/-! # Comparing two walks

Many statements about walks say that two of them do the same, up to something that does not matter:
the bound on their depth, the fragments being expanded, the addresses of the nodes. A `Comparison`
says which failures and which events count as the same, and `Walk.Alike` that two walks, each from
names of its own, come to the same values, failures and events in that sense.

The lemmas follow the steps of a walk. What is compared enters only where two selections are walked
one level deeper, so a proof about whole walks has to deal with spreads and selection lists alone.
Going on after a first step needs that both sides put the names back. -/

namespace SelectionMask

variable {α β : Type}

/-- Which failures and which events of two walks count as the same. -/
structure Comparison where
  failure : Failure → Failure → Prop
  events : List Event → List Event → Prop
  /-- A walk that is given enough depth is like itself. -/
  failure_refl : ∀ {f}, f ≠ .exhausted → failure f f
  events_refl : ∀ es, events es es
  events_append : ∀ {es es' later later'}, events es es' → events later later' →
    events (es ++ later) (es' ++ later')
  /-- Who catches a failure cannot tell it from one that counts as the same. -/
  maskError?_eq : ∀ {f f'}, failure f f' → f.maskError? = f'.maskError?

/-- The event at another node. -/
def HookEvent.atNode (node : Address) : HookEvent → HookEvent
  | extraPathsAsked site _ => extraPathsAsked site node
  | fieldNamesAsked site _ => fieldNamesAsked site node
  | narrowingAsked n _ => narrowingAsked n node
  | membersAnswered _ paths => membersAnswered node paths

namespace Comparison

/-- The same value, or failures that count as the same. -/
def outcome (C : Comparison) : Except Failure α → Except Failure α → Prop
  | .ok a, .ok b => a = b
  | .error f, .error f' => C.failure f f'
  | _, _ => False

/-- It does not matter which of the two nodes something happens at. -/
structure SamePlace (C : Comparison) (node node' : Address) : Prop where
  blamed : ∀ error, C.failure (.mask error (some node)) (.mask error (some node'))
  hook : ∀ event : HookEvent, C.events [.hook (event.atNode node)] [.hook (event.atNode node')]

theorem SamePlace.refl (C : Comparison) (node : Address) : C.SamePlace node node :=
  ⟨fun _ => C.failure_refl (by simp), fun _ => C.events_refl _⟩

end Comparison

/-- Two runs with the same outcome and the same events. -/
structure Run.Alike (C : Comparison) (r r' : Run α) : Prop where
  outcome : C.outcome r.outcome r'.outcome
  events : C.events r.events r'.events

namespace Walk

/-- Two walks that do the same, each from its own names. -/
def Alike (C : Comparison) (names names' : List Name) (w w' : Walk α) : Prop :=
  Run.Alike C (w.run names) (w'.run names')

variable {C : Comparison} {names names' : List Name}

/-- Only what the walks do from the given names is compared. -/
theorem Alike.congr {v v' w w' : Walk α} (hv : w.run names = v.run names)
    (hv' : w'.run names' = v'.run names') (h : Alike C names names' v v') :
    Alike C names names' w w' := by
  unfold Alike
  rw [hv, hv']
  exact h

/-! ## Single steps -/

theorem alike_pure (a : α) : Alike C names names' (pure a) (pure a) :=
  ⟨rfl, C.events_refl []⟩

theorem alike_fail {f f' : Failure} (h : C.failure f f') :
    Alike C names names' (fail f : Walk α) (fail f') :=
  ⟨h, C.events_refl []⟩

theorem alike_hooked (given : Except String α) :
    Alike C names names' (hooked given) (hooked given) := by
  cases given with
  | ok a => exact alike_pure a
  | error text => exact alike_fail (C.failure_refl (by simp))

/-- What follows has to be alike only for the value that the first parts come to. -/
theorem Alike.bind_of_outcome {w w' : Walk α} {f f' : α → Walk β} (h : Alike C names names' w w')
    (hw : w.Restores) (hw' : w'.Restores)
    (hf : ∀ a, (w.run names).outcome = .ok a → Alike C names names' (f a) (f' a)) :
    Alike C names names' (w >>= f) (w' >>= f') := by
  obtain ⟨ho, he⟩ := h
  have hnames := hw names
  have hnames' := hw' names'
  unfold Alike
  rw [run_bind, run_bind]
  rcases hrun : w.run names with ⟨_ | a, left, events⟩ <;>
    rcases hrun' : w'.run names' with ⟨_ | a', left', events'⟩ <;>
    rw [hrun] at ho he hnames <;> rw [hrun'] at ho he hnames'
  · exact ⟨ho, he⟩
  · exact ho.elim
  · exact ho.elim
  · -- Both sides have put their names back, so the second steps start where the first ones did.
    obtain rfl : a = a' := ho
    obtain rfl : left = names := hnames
    obtain rfl : left' = names' := hnames'
    have hnext := hf a (congrArg Run.outcome hrun)
    exact ⟨hnext.outcome, C.events_append he hnext.events⟩

theorem Alike.bind {w w' : Walk α} {f f' : α → Walk β} (h : Alike C names names' w w')
    (hw : w.Restores) (hw' : w'.Restores) (hf : ∀ a, Alike C names names' (f a) (f' a)) :
    Alike C names names' (w >>= f) (w' >>= f') :=
  h.bind_of_outcome hw hw' fun a _ => hf a

theorem alike_emit_bind {e e' : Event} {f f' : Unit → Walk β} (h : C.events [e] [e'])
    (hf : Alike C names names' (f ()) (f' ())) :
    Alike C names names' (emit e >>= f) (emit e' >>= f') :=
  Alike.bind ⟨rfl, h⟩ (restores_emit e) (restores_emit e') fun _ => hf

theorem alike_note_bind (n : Note) {f f' : Unit → Walk β}
    (hf : Alike C names names' (f ()) (f' ())) :
    Alike C names names' (note n >>= f) (note n >>= f') :=
  alike_emit_bind (C.events_refl _) hf

/-- A look-up comes out the same on both sides; its error may blame another node. -/
theorem alike_blaming_bind {node node' : Option Address} (found : Except MaskError α)
    {f f' : α → Walk β} (h : ∀ error, C.failure (.mask error node) (.mask error node'))
    (hf : ∀ a, Alike C names names' (f a) (f' a)) :
    Alike C names names' (blaming node found >>= f) (blaming node' found >>= f') := by
  refine Alike.bind ?_ (restores_blaming node found) (restores_blaming node' found) hf
  cases found with
  | ok a => exact alike_pure a
  | error error => exact alike_fail (h error)

/-- A walk inside an expansion is compared by its body. -/
theorem Alike.within_left {body w' : Walk α} {name : Name}
    (h : Alike C (names ++ [name]) names' body w') :
    Alike C names names' (within name body) w' :=
  ⟨h.outcome, h.events⟩

theorem Alike.within {body body' : Walk α} {name : Name}
    (h : Alike C (names ++ [name]) (names' ++ [name]) body body') :
    Alike C names names' (within name body) (within name body') :=
  ⟨h.outcome, h.events⟩

theorem Alike.caught {w w' : Walk α} (h : Alike C names names' w w') :
    Alike C names names' w.caught w'.caught := by
  obtain ⟨ho, he⟩ := h
  refine ⟨?_, he⟩
  rw [run_caught, run_caught]
  rcases hrun : w.run names with ⟨f | a, left, events⟩ <;>
    rcases hrun' : w'.run names' with ⟨f' | a', left', events'⟩ <;> rw [hrun, hrun'] at ho
  · have hf := C.maskError?_eq ho
    cases f <;> cases f' <;> simp_all [Failure.maskError?, settle, Comparison.outcome]
  · exact ho.elim
  · exact ho.elim
  · obtain rfl : a = a' := ho
    rfl

theorem Alike.follow {members members' : Walk (List String)}
    (h : Alike C names names' members members') (hm : members.Restores) (hm' : members'.Restores)
    (s : Strategy) : Alike C names names' (s.follow members) (s.follow members') := by
  induction s with
  | answer paths => exact alike_pure paths
  | refuse text => exact alike_fail (C.failure_refl (by simp))
  | ask next ih => exact h.bind hm hm' ih
  | attempt next handle ihn ihh =>
      rw [Strategy.follow_attempt, Strategy.follow_attempt]
      refine h.caught.bind hm.caught hm'.caught fun result => ?_
      cases result with
      | ok paths => exact ihn paths
      | error error => exact ihh error

/-! ## Fields and fragments -/

section

variable {env : Env} {descend descend' : Descend} {node node' : Address}

theorem alike_extraPathsOf (hp : C.SamePlace node node') (site : FieldSite) :
    Alike C names names' (extraPathsOf env site node) (extraPathsOf env site node') := by
  unfold extraPathsOf
  cases env.hooks.extraPaths with
  | none => exact alike_pure _
  | some hook =>
      exact alike_emit_bind (hp.hook (.extraPathsAsked site node)) (alike_hooked _)

theorem alike_namesOf (hp : C.SamePlace node node') (site : FieldSite) :
    Alike C names names' (namesOf env site node) (namesOf env site node') := by
  unfold namesOf
  cases env.hooks.fieldNames with
  | none => exact alike_pure _
  | some hook =>
      refine alike_emit_bind (hp.hook (.fieldNamesAsked site node)) ?_
      exact (alike_hooked _).bind (restores_hooked _) (restores_hooked _) fun _ => alike_pure _

/-- The paths below a field are alike if the walks of its selections are. -/
theorem alike_pathsBelow {definition : FieldDef} {ss ss' : List Selection}
    (h : Alike C names names' (descend ⟨definition.namedType, some definition⟩ node ss)
      (descend' ⟨definition.namedType, some definition⟩ node' ss'))
    (hd : descend.Restores) (hd' : descend'.Restores) (below : List String) :
    Alike C names names' (pathsBelow descend definition node below (some ss))
      (pathsBelow descend' definition node' below (some ss')) :=
  h.bind (hd _ _ _) (hd' _ _ _) fun _ => alike_pure _

theorem alike_field (hp : C.SamePlace node node') (hd : descend.Restores)
    (hd' : descend'.Restores) (type name : Name) (aliasName : Option String)
    {ss ss' : Option (List Selection)}
    (h : ∀ definition below, Alike C names names' (pathsBelow descend definition node below ss)
      (pathsBelow descend' definition node' below ss')) :
    Alike C names names' (field env descend type node name aliasName ss)
      (field env descend' type node' name aliasName ss') := by
  unfold field
  split
  · exact alike_pure _
  · refine alike_blaming_bind _ hp.blamed fun definition => ?_
    refine (alike_extraPathsOf hp _).bind (restores_extraPathsOf _ _) (restores_extraPathsOf _ _)
      fun extra => ?_
    refine (alike_namesOf hp _).bind (restores_namesOf _ _) (restores_namesOf _ _) fun below => ?_
    cases below with
    | none => exact alike_note_bind _ (alike_pure _)
    | some below =>
        exact (h definition below).bind (restores_pathsBelow hd _ _ _ _)
          (restores_pathsBelow hd' _ _ _ _) fun _ => alike_pure _

theorem alike_narrow {ss ss' : List Selection} (hp : C.SamePlace node node')
    (hd : descend.Restores) (hd' : descend'.Restores)
    (h : ∀ frame, Alike C names names' (descend frame node ss) (descend' frame node' ss'))
    (hook : NarrowingHook) (n : Narrowing) :
    Alike C names names' (narrow descend hook n node ss) (narrow descend' hook n node' ss') := by
  refine alike_emit_bind (hp.hook (.narrowingAsked n node)) ?_
  refine Alike.follow ?_ (restores_memberPaths hd n node ss) (restores_memberPaths hd' n node' ss')
    (hook n)
  refine (h _).bind (hd _ _ _) (hd' _ _ _) fun paths => ?_
  exact alike_emit_bind (hp.hook (.membersAnswered node paths)) (alike_pure _)

/-- Fragments on one type are alike if the walks of their selections are, at whatever type these
    come to be read. -/
theorem alike_enterFragment {ss ss' : List Selection} (hp : C.SamePlace node node')
    (hd : descend.Restores) (hd' : descend'.Restores)
    (h : ∀ frame, Alike C names names' (descend frame node ss) (descend' frame node' ss'))
    (frame : Frame) (condition : Name) :
    Alike C names names' (enterFragment env descend frame condition node ss)
      (enterFragment env descend' frame condition node' ss') := by
  unfold enterFragment
  refine alike_blaming_bind _ hp.blamed fun target => ?_
  refine alike_blaming_bind _ hp.blamed fun current => ?_
  split
  · split
    · exact h frame
    · split
      · exact alike_note_bind _ (alike_pure _)
      · split
        · exact alike_fail (C.failure_refl (by simp))
        · exact alike_narrow hp hd hd' h _ _
  · split
    · exact alike_note_bind _ (alike_pure _)
    · exact h frame

/-! ## Selection sets -/

/-- Selection lists are compared one selection at a time. -/
theorem alike_selectionsFrom_cons {env' : Env} {frame frame' : Frame} {index index' : Nat}
    {s s' : Selection} {rest rest' : List Selection} (hd : descend.Restores)
    (hd' : descend'.Restores)
    (hvisit : C.events [.visit ⟨frame, names, node.child index, s⟩]
      [.visit ⟨frame', names', node'.child index', s'⟩])
    (hs : Alike C names names' (pathsOf env descend frame (node.child index) s)
      (pathsOf env' descend' frame' (node'.child index') s'))
    (hrest : Alike C names names' (selectionsFrom env descend frame node (index + 1) rest)
      (selectionsFrom env' descend' frame' node' (index' + 1) rest')) :
    Alike C names names' (selectionsFrom env descend frame node index (s :: rest))
      (selectionsFrom env' descend' frame' node' index' (s' :: rest')) := by
  have hfirst : Alike C names names' (selection env descend frame (node.child index) s)
      (selection env' descend' frame' (node'.child index') s') :=
    Alike.bind ⟨rfl, hvisit⟩ (restores_visit _ _ _) (restores_visit _ _ _) fun _ => hs
  rw [selectionsFrom_cons, selectionsFrom_cons]
  refine hfirst.bind (restores_selection hd _ _ _) (restores_selection hd' _ _ _) fun paths => ?_
  exact hrest.bind (restores_selectionsFrom hd _ _ _ _) (restores_selectionsFrom hd' _ _ _ _)
    fun others => alike_pure _

/-- With the same fragments being expanded, a spread is a cycle on both sides or on neither. -/
theorem alike_spread {frame frame' : Frame} (hp : C.SamePlace node node') (fragment : Name)
    (h : ∀ definition, env.fragments.find? fragment = some definition → fragment ∉ names →
      Alike C (names ++ [fragment]) (names ++ [fragment])
        (enterFragment env descend frame definition.condition (.definition fragment)
          definition.selections)
        (enterFragment env descend' frame' definition.condition (.definition fragment)
          definition.selections)) :
    Alike C names names (spread env descend frame node fragment)
      (spread env descend' frame' node' fragment) := by
  cases hfind : env.fragments.find? fragment with
  | none =>
      rw [spread_of_undefined hfind, spread_of_undefined hfind]
      exact alike_fail (hp.blamed _)
  | some definition =>
      by_cases hmem : fragment ∈ names
      · refine Alike.congr (run_spread_of_mem hfind hmem _ _ _)
          (run_spread_of_mem hfind hmem _ _ _) ?_
        exact alike_fail (hp.blamed _)
      · refine Alike.congr (run_spread_of_notMem hfind hmem _ _ _)
          (run_spread_of_notMem hfind hmem _ _ _) (Alike.within ?_)
        exact h definition hfind hmem

end

/-! ## Root nodes -/

/-- The root nodes of two computations, each walked alike in its turn. -/
def AlikeRoots (C : Comparison) (names names' : List Name) (env env' : Env) (type : Name) :
    List RootNode → List RootNode → Prop :=
  List.Forall₂ fun root root' => ∀ index,
    Alike C names names' (selections env ⟨type, none⟩ (.root index) root.selections)
      (selections env' ⟨type, none⟩ (.root index) root'.selections)

theorem alike_mergeRoots {env env' : Env} {type : Name} {roots roots' : List RootNode}
    (h : AlikeRoots C names names' env env' type roots roots') (index : Nat)
    (found : OrderedSet String) :
    Alike C names names' (mergeRoots env type index roots found)
      (mergeRoots env' type index roots' found) := by
  induction h generalizing index found with
  | nil => exact alike_pure _
  | cons hroot _ ih =>
      exact (hroot index).bind (restores_selections env _ _ _) (restores_selections env' _ _ _)
        fun paths => ih (index + 1) (found.update paths)

/-- Computations from nodes that are walked alike, if the type is there on both sides or on
    neither. -/
theorem alike_mask_of_type? {env env' : Env} {type : Name} {roots roots' : List RootNode}
    (h : AlikeRoots C names names' env env' type roots roots')
    (htype : env.schema.type? type = none ↔ env'.schema.type? type = none) :
    Alike C names names' (mask env type roots) (mask env' type roots') := by
  unfold mask
  cases hfound : env.schema.type? type with
  | none =>
      rw [Schema.typeNamed_eq_error_iff.2 ⟨hfound, rfl⟩,
        Schema.typeNamed_eq_error_iff.2 ⟨htype.1 hfound, rfl⟩]
      exact alike_fail (C.failure_refl (by simp))
  | some t =>
      obtain ⟨t', hfound'⟩ : ∃ t', env'.schema.type? type = some t' :=
        Option.ne_none_iff_exists'.1 fun hnone => by simp [htype.2 hnone] at hfound
      rw [Schema.typeNamed_eq_ok_iff.2 hfound, Schema.typeNamed_eq_ok_iff.2 hfound',
        List.Forall₂.length_eq h, blaming_ok, blaming_ok, pure_bind, pure_bind]
      refine alike_note_bind _ ?_
      refine (alike_mergeRoots h 0 .empty).bind (restores_mergeRoots type roots 0 _)
        (restores_mergeRoots type roots' 0 _) fun found => ?_
      exact alike_note_bind _ (alike_pure _)

theorem alike_mask {env env' : Env} {type : Name} {roots roots' : List RootNode}
    (h : AlikeRoots C names names' env env' type roots roots')
    (hschema : env.schema = env'.schema) :
    Alike C names names' (mask env type roots) (mask env' type roots') :=
  alike_mask_of_type? h (by rw [hschema])

end Walk

end SelectionMask
