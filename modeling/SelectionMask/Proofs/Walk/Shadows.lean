import SelectionMask.Proofs.Hooks.PathSets
import SelectionMask.Proofs.Walk.Comparison
import SelectionMask.Proofs.Walk.Lookups
import SelectionMask.Proofs.Walk.Unread
import SelectionMask.Proofs.Walk.Visits

set_option autoImplicit false

/-! # One walk after the model of another

Often two walks do the same only because of what the first one happens to do: it succeeds, or it
never looks below some selection. `Walk.Shadows` is likeness on such a condition (`Walk.Confined`):
all visits of the first walk, and its failure if it has one, are of a given kind. The condition of a
sequence passes to its parts (`Walk.Confined.of_bind`), so that shadowing is put together step by
step as likeness is, and each step may use what the condition says of it.

The two walks may be in different environments. What a step has to find the same in both is among
its assumptions, and so is what stands below it, as far as it is read at all. -/

namespace SelectionMask

variable {α β : Type}

/-- The same selection, but for what stands in it: that is related. -/
inductive Selection.SameUpTo (inside : List Selection → List Selection → Prop) :
    Selection → Selection → Prop
  | leaf {name : Name} {aliasName : Option String} :
      SameUpTo inside (.leaf name aliasName) (.leaf name aliasName)
  | branch {name : Name} {aliasName : Option String} {below below' : List Selection} :
      inside below below' → SameUpTo inside (.branch name aliasName below)
        (.branch name aliasName below')
  | spread {name : Name} : SameUpTo inside (.spread name) (.spread name)
  | fragment {condition : Option Name} {body body' : List Selection} :
      inside body body' → SameUpTo inside (.fragment condition body) (.fragment condition body')
  | other {kind : String} : SameUpTo inside (.other kind) (.other kind)

theorem Selection.SameUpTo.refl (s : Selection) : s.SameUpTo Eq s := by
  cases s with
  | leaf name aliasName => exact .leaf
  | branch name aliasName below => exact .branch rfl
  | spread name => exact .spread
  | fragment condition body => exact .fragment rfl
  | other kind => exact .other

namespace Walk

variable {C : Comparison} {I : Visit → Prop} {E : Failure → Prop} {names names' : List Name}

/-! ## Conditions of sequences -/

/-- The walk makes only visits, and fails only with failures, of which something holds. -/
structure Confined (I : Visit → Prop) (E : Failure → Prop) (names : List Name) (w : Walk α) :
    Prop where
  visits : ∀ v ∈ visitsOf (w.run names).events, I v
  failure : ∀ f, (w.run names).outcome = .error f → E f

/-- What holds of a sequence holds of its parts. -/
theorem Confined.of_bind {w : Walk α} {f : α → Walk β} (h : Confined I E names (w >>= f))
    (hw : w.Restores) :
    Confined I E names w ∧ ∀ a, w.Returns names a → Confined I E names (f a) := by
  obtain ⟨hvisits, hfailure⟩ := h
  have hnames := hw names
  rcases hrun : w.run names with ⟨failure | a, left, events⟩ <;> rw [hrun] at hnames
  · rw [run_bind_of_error hrun] at hvisits hfailure
    have hallowed : ∀ other, (w.run names).outcome = .error other → E other := by
      intro other hother
      rw [hrun] at hother
      exact hfailure other (congrArg Except.error (Except.error.inj hother))
    exact ⟨⟨by rwa [hrun], hallowed⟩, fun a ha => by simp [Returns, hrun] at ha⟩
  · obtain rfl : left = names := hnames
    rw [run_bind_of_ok hrun] at hvisits hfailure
    have hsplit : ∀ v, v ∈ visitsOf events ∨ v ∈ visitsOf ((f a).run left).events → I v := by
      intro v hv
      refine hvisits v ?_
      rwa [Run.after, visitsOf_append, List.mem_append]
    refine ⟨⟨?_, by simp [hrun]⟩, fun b hb => ?_⟩
    · rw [hrun]
      exact fun v hv => hsplit v (.inl hv)
    · obtain rfl : a = b := by simpa [Returns, hrun] using hb
      exact ⟨fun v hv => hsplit v (.inr hv), hfailure⟩

/-- A failure that is caught is not seen outside, unless all errors of the query are allowed. -/
theorem Confined.of_caught {w : Walk α} (hall : ∀ error blamed, E (.mask error blamed))
    (h : Confined I E names w.caught) : Confined I E names w where
  visits := h.visits
  failure f hf := by
    cases f with
    | mask error blamed => exact hall error blamed
    | _ => exact h.failure _ (by rw [run_caught, hf]; rfl)

/-! ## Single steps -/

/-- The second walk does what the first one does, provided that the first one makes only visits, and
    fails only with failures, of which something holds. -/
def Shadows (C : Comparison) (I : Visit → Prop) (E : Failure → Prop) (names names' : List Name)
    (w w' : Walk α) : Prop :=
  Confined I E names w → Alike C names names' w w'

theorem Alike.shadows {w w' : Walk α} (h : Alike C names names' w w') :
    Shadows C I E names names' w w' :=
  fun _ => h

/-- Only what the walks do from the given names is compared. -/
theorem Shadows.congr {v v' w w' : Walk α} (hv : w.run names = v.run names)
    (hv' : w'.run names' = v'.run names') (h : Shadows C I E names names' v v') :
    Shadows C I E names names' w w' := by
  intro hconfined
  refine Alike.congr hv hv' (h ⟨?_, ?_⟩)
  · exact hv ▸ hconfined.visits
  · exact hv ▸ hconfined.failure

theorem Shadows.bind {w w' : Walk α} {f f' : α → Walk β} (h : Shadows C I E names names' w w')
    (hw : w.Restores) (hw' : w'.Restores)
    (hf : ∀ a, w.Returns names a → Shadows C I E names names' (f a) (f' a)) :
    Shadows C I E names names' (w >>= f) (w' >>= f') := by
  intro hconfined
  obtain ⟨hfirst, hrest⟩ := hconfined.of_bind hw
  exact (h hfirst).bind_of_outcome hw hw' fun a ha => hf a ha (hrest a ha)

theorem shadows_emit_bind {e e' : Event} {f f' : Unit → Walk β} (h : C.events [e] [e'])
    (hf : Shadows C I E names names' (f ()) (f' ())) :
    Shadows C I E names names' (emit e >>= f) (emit e' >>= f') :=
  Shadows.bind (Alike.shadows ⟨rfl, h⟩) (restores_emit e) (restores_emit e') fun _ _ => hf

/-- What is said of visits may be used from the visit on. -/
theorem shadows_visit_bind {frame frame' : Frame} {node node' : Address} {s s' : Selection}
    {f f' : Unit → Walk β}
    (h : C.events [.visit ⟨frame, names, node, s⟩] [.visit ⟨frame', names', node', s'⟩])
    (hf : I ⟨frame, names, node, s⟩ → Shadows C I E names names' (f ()) (f' ())) :
    Shadows C I E names names' (visit frame node s >>= f) (visit frame' node' s' >>= f') := by
  intro hconfined
  have hv : I ⟨frame, names, node, s⟩ := hconfined.visits _ List.mem_cons_self
  have hrest : Confined I E names (f ()) :=
    (hconfined.of_bind (restores_visit frame node s)).2 () rfl
  exact Alike.bind ⟨rfl, h⟩ (restores_visit _ _ _) (restores_visit _ _ _) fun _ => hf hv hrest

/-- A visit that is overlooked. -/
theorem shadows_visit_left {frame : Frame} {node : Address} {s : Selection}
    {f : Unit → Walk β} {w' : Walk β} (h : C.events [.visit ⟨frame, names, node, s⟩] [])
    (hf : I ⟨frame, names, node, s⟩ → Shadows C I E names names' (f ()) w') :
    Shadows C I E names names' (visit frame node s >>= f) w' := by
  intro hconfined
  have hv : I ⟨frame, names, node, s⟩ := hconfined.visits _ List.mem_cons_self
  have hrest : Confined I E names (f ()) :=
    (hconfined.of_bind (restores_visit frame node s)).2 () rfl
  have halike : Alike C names names' (visit frame node s >>= f) (pure () >>= fun _ => w') :=
    Alike.bind ⟨rfl, h⟩ (restores_visit _ _ _) (restores_pure ()) fun _ => hf hv hrest
  rwa [pure_bind] at halike

theorem Shadows.within {body body' : Walk α} {name : Name}
    (h : Shadows C I E (names ++ [name]) (names' ++ [name]) body body') :
    Shadows C I E names names' (within name body) (within name body') :=
  fun hconfined => (h ⟨hconfined.visits, hconfined.failure⟩).within

theorem Shadows.caught (hall : ∀ error blamed, E (.mask error blamed)) {w w' : Walk α}
    (h : Shadows C I E names names' w w') : Shadows C I E names names' w.caught w'.caught :=
  fun hconfined => (h (hconfined.of_caught hall)).caught

/-- Following a strategy, given that the member's paths are shadowed if they are asked for at all. A
    strategy that catches errors would hide them from the condition. -/
theorem Shadows.follow {members members' : Walk (List String)} {s : Strategy}
    (h : s.Asks → Shadows C I E names names' members members') (hm : members.Restores)
    (hm' : members'.Restores) (hcatch : (∀ error blamed, E (.mask error blamed)) ∨ s.NeverCatches) :
    Shadows C I E names names' (s.follow members) (s.follow members') := by
  -- Once the strategy has asked, the members are shadowed for all its later requests.
  have hasked : Shadows C I E names names' members members' → ∀ t : Strategy,
      ((∀ error blamed, E (.mask error blamed)) ∨ t.NeverCatches) →
      Shadows C I E names names' (t.follow members) (t.follow members') := by
    intro hmembers t hcatch
    induction t with
    | answer paths => exact (alike_pure paths).shadows
    | refuse text => exact (alike_fail (C.failure_refl (by simp))).shadows
    | ask next ih =>
        exact hmembers.bind hm hm' fun paths _ => ih paths (hcatch.imp_right fun hnext => hnext paths)
    | attempt next handle ihn ihh =>
        have hall := hcatch.resolve_right id
        rw [Strategy.follow_attempt, Strategy.follow_attempt]
        refine (hmembers.caught hall).bind hm.caught hm'.caught fun result _ => ?_
        cases result with
        | ok paths => exact ihn paths (.inl hall)
        | error error => exact ihh error (.inl hall)
  cases s with
  | answer paths => exact (alike_pure paths).shadows
  | refuse text => exact (alike_fail (C.failure_refl (by simp))).shadows
  | ask next => exact hasked (h trivial) _ hcatch
  | attempt next handle => exact hasked (h trivial) _ hcatch

/-! ## Fields and fragments -/

section

variable {schema schema' : Schema} {fragments fragments' : FragmentTable} {hooks : Hooks}
  {descend descend' : Descend} {node node' : Address}

/-- A field that is found the same, given that what stands below it is shadowed if it is read. -/
theorem shadows_field (hp : C.SamePlace node node') (hd : descend.Restores)
    (hd' : descend'.Restores) {type name : Name} {aliasName : Option String}
    {ss ss' : Option (List Selection)}
    (hfield : name ≠ typenameField →
      (∀ error, schema.fieldNamed type name = .error error → E (.mask error (some node))) →
      schema'.fieldNamed type name = schema.fieldNamed type name)
    (hbelow : name ≠ typenameField → ∀ definition extra given,
      schema.fieldNamed type name = .ok definition →
      hooks.extraPathsAt ⟨type, definition, aliasName⟩ = .ok extra →
      hooks.namesAt ⟨type, definition, aliasName⟩ = .ok (some given) →
      Shadows C I E names names' (pathsBelow descend definition node given ss)
        (pathsBelow descend' definition node' given ss')) :
    Shadows C I E names names'
      (field ⟨schema, fragments, hooks⟩ descend type node name aliasName ss)
      (field ⟨schema', fragments', hooks⟩ descend' type node' name aliasName ss') := by
  by_cases hname : name = typenameField
  · rw [field, field, if_pos hname, if_pos hname]
    exact (alike_pure _).shadows
  · specialize hfield hname
    cases hfound : schema.fieldNamed type name with
    | error error =>
        rw [field_of_error hname hfound]
        intro hconfined
        have hallowed : E (.mask error (some node)) := hconfined.failure _ rfl
        have hfound' : schema'.fieldNamed type name = .error error :=
          (hfield fun other hother => by
            obtain rfl := Except.error.inj (hfound.symm.trans hother)
            exact hallowed).trans hfound
        rw [field_of_error hname hfound']
        exact alike_fail (hp.blamed error)
    | ok definition =>
        have hfound' : schema'.fieldNamed type name = .ok definition :=
          (hfield fun _ hother => by simp [hfound] at hother).trans hfound
        rw [field_of_found hname hfound, field_of_found hname hfound']
        have hextras : Alike C names names'
            (extraPathsOf ⟨schema, fragments, hooks⟩ ⟨type, definition, aliasName⟩ node)
            (extraPathsOf ⟨schema', fragments', hooks⟩ ⟨type, definition, aliasName⟩ node') :=
          alike_extraPathsOf hp _
        have hnames : Alike C names names'
            (namesOf ⟨schema, fragments, hooks⟩ ⟨type, definition, aliasName⟩ node)
            (namesOf ⟨schema', fragments', hooks⟩ ⟨type, definition, aliasName⟩ node') :=
          alike_namesOf hp _
        refine hextras.shadows.bind (restores_extraPathsOf _ _) (restores_extraPathsOf _ _) ?_
        intro extra hextra
        refine hnames.shadows.bind (restores_namesOf _ _) (restores_namesOf _ _) ?_
        intro given hgiven
        cases given with
        | none => exact shadows_emit_bind (C.events_refl _) (alike_pure _).shadows
        | some given =>
            have hpaths := hbelow hname definition extra given hfound
              (returns_extraPathsOf_iff.1 hextra) (returns_namesOf_iff.1 hgiven)
            exact hpaths.bind (restores_pathsBelow hd _ _ _ _) (restores_pathsBelow hd' _ _ _ _)
              fun _ _ => (alike_pure _).shadows

/-- The paths below a field are shadowed if its selections are. -/
theorem shadows_pathsBelow {definition : FieldDef} {ss ss' : List Selection}
    (h : Shadows C I E names names' (descend ⟨definition.namedType, some definition⟩ node ss)
      (descend' ⟨definition.namedType, some definition⟩ node' ss'))
    (hd : descend.Restores) (hd' : descend'.Restores) (given : List String) :
    Shadows C I E names names' (pathsBelow descend definition node given (some ss))
      (pathsBelow descend' definition node' given (some ss')) :=
  h.bind (hd _ _ _) (hd' _ _ _) fun _ _ => (alike_pure _).shadows

theorem shadows_narrow {ss ss' : List Selection} (hp : C.SamePlace node node')
    (hd : descend.Restores) (hd' : descend'.Restores) {hook : NarrowingHook} {n : Narrowing}
    (hcatch : (∀ error blamed, E (.mask error blamed)) ∨ (hook n).NeverCatches)
    (h : (hook n).Asks → Shadows C I E names names'
      (descend ⟨n.concreteType, some n.field⟩ node ss)
      (descend' ⟨n.concreteType, some n.field⟩ node' ss')) :
    Shadows C I E names names' (narrow descend hook n node ss)
      (narrow descend' hook n node' ss') := by
  refine shadows_emit_bind (hp.hook (.narrowingAsked n node)) ?_
  refine Shadows.follow (fun hasks => ?_) (restores_memberPaths hd n node ss)
    (restores_memberPaths hd' n node' ss') hcatch
  refine (h hasks).bind (hd _ _ _) (hd' _ _ _) fun paths _ => ?_
  exact shadows_emit_bind (hp.hook (.membersAnswered node paths)) (alike_pure _).shadows

/-- A fragment at types with the same outlines, given that its selections are shadowed wherever they
    are read. -/
theorem shadows_enterFragment {ss ss' : List Selection} {frame : Frame} {condition : Name}
    (hp : C.SamePlace node node') (hd : descend.Restores) (hd' : descend'.Restores)
    (hcatch : (∀ error blamed, E (.mask error blamed)) ∨ hooks.NeverCatch)
    (htarget : (schema.type? condition = none →
        E (.mask (.unknownType condition) (some node))) →
      schema'.outline? condition = schema.outline? condition)
    (hcurrent : (schema.type? frame.type = none →
        E (.mask (.unknownType frame.type) (some node))) →
      schema'.outline? frame.type = schema.outline? frame.type)
    (hbelow : ∀ inner, frame.Reads ⟨schema, fragments, hooks⟩ condition inner →
      Shadows C I E names names' (descend inner node ss) (descend' inner node' ss')) :
    Shadows C I E names names'
      (enterFragment ⟨schema, fragments, hooks⟩ descend frame condition node ss)
      (enterFragment ⟨schema', fragments', hooks⟩ descend' frame condition node' ss') := by
  cases hfound : schema.type? condition with
  | none =>
      rw [enterFragment_of_unknown hfound]
      intro hconfined
      have hsame := htarget fun _ => hconfined.failure _ rfl
      rw [enterFragment_of_unknown (Schema.type?_eq_none_of_outline? hsame hfound)]
      exact alike_fail (hp.blamed _)
  | some target =>
      have hsame := htarget fun hnone => by simp [hfound] at hnone
      obtain ⟨target', hfound', -, hmetadata⟩ := Schema.type?_eq_some_of_outline? hsame hfound
      cases htype : schema.type? frame.type with
      | none =>
          rw [enterFragment_of_unknown_current hfound htype]
          intro hconfined
          have hsame' := hcurrent fun _ => hconfined.failure _ rfl
          rw [enterFragment_of_unknown_current hfound'
            (Schema.type?_eq_none_of_outline? hsame' htype)]
          exact alike_fail (hp.blamed _)
      | some current =>
          have hsame' := hcurrent fun hnone => by simp [htype] at hnone
          obtain ⟨current', htype', habstract', -⟩ := Schema.type?_eq_some_of_outline? hsame' htype
          have henters' := Schema.enters_congr hsame hsame'
          by_cases henters : schema.Enters condition frame.type
          · rw [enterFragment_of_enters hfound htype henters,
              enterFragment_of_enters hfound' htype' (henters'.2 henters)]
            exact hbelow frame (.inPlace henters)
          · have hskips' := mt henters'.1 henters
            by_cases habstract : current.isAbstract
            · have hother : condition ≠ frame.type := fun hsame => henters (.inl hsame)
              rw [enterFragment_of_narrows hfound htype habstract hother,
                enterFragment_of_narrows hfound' htype' (habstract'.trans habstract) hother,
                hmetadata]
              dsimp only
              cases hhook : hooks.narrowing with
              | none => exact shadows_emit_bind (C.events_refl _) (alike_pure _).shadows
              | some hook =>
                  cases hfield : frame.enclosing with
                  | none => exact (alike_fail (C.failure_refl (by simp))).shadows
                  | some field =>
                      refine shadows_narrow hp hd hd' ?_ fun hasks => hbelow _ ?_
                      · exact hcatch.imp_right fun hnever => hnever hook hhook _
                      · exact .member hhook ((Schema.isAbstract_iff htype).2 habstract) hfound
                          hfield hasks
            · rw [enterFragment_of_unrelated hfound htype habstract henters,
                enterFragment_of_unrelated hfound' htype' (by rwa [habstract']) hskips']
              exact shadows_emit_bind (C.events_refl _) (alike_pure _).shadows

/-- A spread of a fragment whose definitions are related, given that related definitions are
    shadowed. -/
theorem shadows_spread {frame : Frame} {related : Fragment → Fragment → Prop} {name : Name}
    (hp : C.SamePlace node node')
    (hfind : (fragments.find? name = none → E (.mask (.unknownFragment name) (some node))) →
      Option.Rel related (fragments.find? name) (fragments'.find? name))
    (h : ∀ definition definition', fragments.find? name = some definition → name ∉ names →
      related definition definition' →
      Shadows C I E (names ++ [name]) (names ++ [name])
        (enterFragment ⟨schema, fragments, hooks⟩ descend frame definition.condition
          (.definition name) definition.selections)
        (enterFragment ⟨schema', fragments', hooks⟩ descend' frame definition'.condition
          (.definition name) definition'.selections)) :
    Shadows C I E names names (spread ⟨schema, fragments, hooks⟩ descend frame node name)
      (spread ⟨schema', fragments', hooks⟩ descend' frame node' name) := by
  cases hfound : fragments.find? name with
  | none =>
      rw [spread_of_undefined hfound]
      intro hconfined
      have hsame := hfind fun _ => hconfined.failure _ rfl
      rw [hfound] at hsame
      cases hfound' : fragments'.find? name with
      | some definition' => simp [hfound'] at hsame
      | none =>
          rw [spread_of_undefined hfound']
          exact alike_fail (hp.blamed _)
  | some definition =>
      have hsame := hfind fun hnone => by simp [hfound] at hnone
      rw [hfound] at hsame
      cases hfound' : fragments'.find? name with
      | none => simp [hfound'] at hsame
      | some definition' =>
          rw [hfound'] at hsame
          by_cases hmem : name ∈ names
          · refine Shadows.congr (run_spread_of_mem hfound hmem _ _ _)
              (run_spread_of_mem hfound' hmem _ _ _) ?_
            exact (alike_fail (hp.blamed _)).shadows
          · refine Shadows.congr (run_spread_of_notMem hfound hmem _ _ _)
              (run_spread_of_notMem hfound' hmem _ _ _) (Shadows.within ?_)
            exact h definition definition' hfound hmem (by simpa using hsame)

/-- Two selections that are the same but for what stands in them, given that spreads and whatever is
    less deep are shadowed. -/
theorem shadows_pathsOf {frame : Frame} {s s' : Selection}
    {inside : List Selection → List Selection → Prop} (hs : s.SameUpTo inside s')
    (hp : C.SamePlace node node') (hd : descend.Restores) (hd' : descend'.Restores)
    (hcatch : (∀ error blamed, E (.mask error blamed)) ∨ hooks.NeverCatch)
    (hbelow : ∀ inner below below', Selection.depthOf below < s.depth → inside below below' →
      Shadows C I E names names' (descend inner node below) (descend' inner node' below'))
    (hspread : ∀ name, Shadows C I E names names'
      (spread ⟨schema, fragments, hooks⟩ descend frame node name)
      (spread ⟨schema, fragments', hooks⟩ descend' frame node' name)) :
    Shadows C I E names names' (pathsOf ⟨schema, fragments, hooks⟩ descend frame node s)
      (pathsOf ⟨schema, fragments', hooks⟩ descend' frame node' s') := by
  have hdepth : ∀ ss : List Selection, Selection.depthOf ss < 1 + Selection.depthOf ss := by omega
  cases hs with
  | leaf =>
      exact shadows_field hp hd hd' (fun _ _ => rfl) fun _ _ _ _ _ _ _ => (alike_pure _).shadows
  | @branch _ _ below below' hinside =>
      refine shadows_field hp hd hd' (fun _ _ => rfl) fun _ definition _ given _ _ _ => ?_
      exact shadows_pathsBelow (hbelow _ below below' (hdepth below) hinside) hd hd' given
  | spread => exact hspread _
  | @fragment _ body body' hinside =>
      exact shadows_enterFragment hp hd hd' hcatch (fun _ => rfl) (fun _ => rfl) fun inner _ =>
        hbelow inner body body' (hdepth body) hinside
  | other => exact (alike_fail (C.failure_refl (by simp))).shadows

end

/-- Selection lists are compared one selection at a time. What is said of visits may be used for
    each. -/
theorem shadows_selectionsFrom_cons {env env' : Env} {descend descend' : Descend}
    {frame frame' : Frame} {node node' : Address} {index index' : Nat} {s s' : Selection}
    {rest rest' : List Selection} (hd : descend.Restores) (hd' : descend'.Restores)
    (hvisit : C.events [.visit ⟨frame, names, node.child index, s⟩]
      [.visit ⟨frame', names', node'.child index', s'⟩])
    (hs : I ⟨frame, names, node.child index, s⟩ → Shadows C I E names names'
      (pathsOf env descend frame (node.child index) s)
      (pathsOf env' descend' frame' (node'.child index') s'))
    (hrest : Shadows C I E names names' (selectionsFrom env descend frame node (index + 1) rest)
      (selectionsFrom env' descend' frame' node' (index' + 1) rest')) :
    Shadows C I E names names' (selectionsFrom env descend frame node index (s :: rest))
      (selectionsFrom env' descend' frame' node' index' (s' :: rest')) := by
  have hfirst : Shadows C I E names names' (selection env descend frame (node.child index) s)
      (selection env' descend' frame' (node'.child index') s') :=
    shadows_visit_bind hvisit hs
  rw [selectionsFrom_cons, selectionsFrom_cons]
  refine hfirst.bind (restores_selection hd _ _ _) (restores_selection hd' _ _ _) fun _ _ => ?_
  exact hrest.bind (restores_selectionsFrom hd _ _ _ _) (restores_selectionsFrom hd' _ _ _ _)
    fun _ _ => (alike_pure _).shadows

/-- Whole computations, given that the root nodes are shadowed, if the type that they start at is
    there in both environments or in neither. -/
theorem shadows_mask {env env' : Env} {type : Name} {roots roots' : List RootNode}
    (hlength : roots.length = roots'.length)
    (htype : (env.schema.type? type = none → E (.mask (.unknownType type) none)) →
      (env.schema.type? type = none ↔ env'.schema.type? type = none))
    (hroots : Shadows C I E names names' (mergeRoots env type 0 roots .empty)
      (mergeRoots env' type 0 roots' .empty)) :
    Shadows C I E names names' (mask env type roots) (mask env' type roots') := by
  unfold mask
  cases hfound : env.schema.type? type with
  | none =>
      rw [Schema.typeNamed_eq_error_iff.2 ⟨hfound, rfl⟩]
      intro hconfined
      have hfound' := (htype fun _ => hconfined.failure _ rfl).1 hfound
      rw [Schema.typeNamed_eq_error_iff.2 ⟨hfound', rfl⟩]
      exact alike_fail (C.failure_refl (by simp))
  | some t =>
      have hsome := htype fun hnone => by simp [hfound] at hnone
      obtain ⟨t', hfound'⟩ : ∃ t', env'.schema.type? type = some t' :=
        Option.ne_none_iff_exists'.1 fun hnone => by simp [hsome.2 hnone] at hfound
      rw [Schema.typeNamed_eq_ok_iff.2 hfound, Schema.typeNamed_eq_ok_iff.2 hfound', hlength,
        blaming_ok, blaming_ok, pure_bind, pure_bind]
      refine shadows_emit_bind (C.events_refl _) ?_
      refine hroots.bind (restores_mergeRoots type roots 0 _) (restores_mergeRoots type roots' 0 _)
        fun found _ => ?_
      exact shadows_emit_bind (C.events_refl _) (alike_pure _).shadows

end Walk

end SelectionMask
