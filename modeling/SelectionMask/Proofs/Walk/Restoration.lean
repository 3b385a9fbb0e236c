import SelectionMask.Extraction
import SelectionMask.Hooks.Rules

set_option autoImplicit false

/-! # Restoration of the fragments being expanded

The names of the fragments being expanded are one list that every step of a walk shares. A spread
puts a name on it for the time of its body, and a hook may catch an error that was raised with any
number of names on it. `Walk.Restores` says that a walk ends with the list it began with, however it
ends; each step keeps it, so every walk has it.

What a hook sees of the walk is therefore the same each time it asks for a member's own paths.
`Strategy.against` is what a strategy comes to when each request gets one and the same answer, and
`Walk.run_follow` says that following a strategy is just that. -/

namespace SelectionMask

variable {α β : Type}

namespace Walk

/-- The walk ends with the names it began with, whether it succeeds or fails. -/
def Restores (w : Walk α) : Prop :=
  ∀ names, (w.run names).expanding = names

/-! ## Single steps -/

theorem restores_pure (a : α) : (pure a : Walk α).Restores := fun _ => rfl

theorem restores_fail (failure : Failure) : (fail failure : Walk α).Restores := fun _ => rfl

theorem restores_emit (event : Event) : (emit event).Restores := fun _ => rfl

theorem restores_visit (frame : Frame) (node : Address) (s : Selection) :
    (visit frame node s).Restores := fun _ => rfl

theorem restores_expanding : expanding.Restores := fun _ => rfl

theorem restores_blaming (node : Option Address) (found : Except MaskError α) :
    (blaming node found).Restores := by
  cases found with
  | ok a => exact restores_pure a
  | error error => exact restores_fail _

theorem restores_hooked (given : Except String α) : (hooked given).Restores := by
  cases given with
  | ok a => exact restores_pure a
  | error text => exact restores_fail _

theorem Restores.bind {w : Walk α} {f : α → Walk β} (hw : w.Restores)
    (hf : ∀ a, (f a).Restores) : (w >>= f).Restores := by
  intro names
  have hnames := hw names
  rw [run_bind]
  rcases hrun : w.run names with ⟨_ | a, left, events⟩ <;> rw [hrun] at hnames
  · exact hnames
  · exact (hf a left).trans hnames

theorem Restores.caught {w : Walk α} (hw : w.Restores) : w.caught.Restores := hw

/-- The name a spread puts last is the one it takes off, because its body puts back all others. -/
theorem Restores.within {body : Walk α} (hb : body.Restores) (name : Name) :
    (within name body).Restores := by
  intro names
  rw [run_within, hb, List.dropLast_concat]

theorem Restores.follow {members : Walk (List String)} (hm : members.Restores) (s : Strategy) :
    (s.follow members).Restores := by
  induction s with
  | answer paths => exact restores_pure paths
  | refuse text => exact restores_fail _
  | ask next ih => exact hm.bind ih
  | attempt next handle ihn ihh =>
      rw [Strategy.follow_attempt]
      refine hm.caught.bind fun result => ?_
      cases result with
      | ok paths => exact ihn paths
      | error error => exact ihh error

end Walk

/-- Every deeper walk puts the names back. -/
def Descend.Restores (descend : Descend) : Prop :=
  ∀ frame node ss, (descend frame node ss).Restores

namespace Walk

variable {env : Env} {descend : Descend}

/-! ## Fields and fragments -/

theorem restores_extraPathsOf (site : FieldSite) (node : Address) :
    (extraPathsOf env site node).Restores := by
  unfold extraPathsOf
  cases env.hooks.extraPaths with
  | none => exact restores_pure _
  | some hook => exact (restores_emit _).bind fun _ => restores_hooked _

theorem restores_namesOf (site : FieldSite) (node : Address) :
    (namesOf env site node).Restores := by
  unfold namesOf
  cases env.hooks.fieldNames with
  | none => exact restores_pure _
  | some hook =>
      exact (restores_emit _).bind fun _ => (restores_hooked _).bind fun _ => restores_pure _

theorem restores_pathsBelow (hd : descend.Restores) (field : FieldDef) (node : Address)
    (names : List String) (ss : Option (List Selection)) :
    (pathsBelow descend field node names ss).Restores := by
  cases ss with
  | none => exact restores_pure _
  | some ss => exact (hd _ node ss).bind fun _ => restores_pure _

theorem restores_field (hd : descend.Restores) (type : Name) (node : Address) (name : Name)
    (aliasName : Option String) (ss : Option (List Selection)) :
    (field env descend type node name aliasName ss).Restores := by
  unfold field
  split
  · exact restores_pure _
  · refine (restores_blaming _ _).bind fun definition => ?_
    refine (restores_extraPathsOf _ node).bind fun extra => ?_
    refine (restores_namesOf _ node).bind fun names => ?_
    cases names with
    | none => exact (restores_emit _).bind fun _ => restores_pure _
    | some names =>
        exact (restores_pathsBelow hd definition node names ss).bind fun _ => restores_pure _

theorem restores_memberPaths (hd : descend.Restores) (n : Narrowing) (node : Address)
    (ss : List Selection) : (memberPaths descend n node ss).Restores :=
  (hd _ node ss).bind fun _ => (restores_emit _).bind fun _ => restores_pure _

theorem restores_narrow (hd : descend.Restores) (hook : NarrowingHook) (n : Narrowing)
    (node : Address) (ss : List Selection) : (narrow descend hook n node ss).Restores :=
  (restores_emit _).bind fun _ => (restores_memberPaths hd n node ss).follow (hook n)

theorem restores_enterFragment (hd : descend.Restores) (frame : Frame) (condition : Name)
    (node : Address) (ss : List Selection) :
    (enterFragment env descend frame condition node ss).Restores := by
  unfold enterFragment
  refine (restores_blaming _ _).bind fun target => (restores_blaming _ _).bind fun current => ?_
  split
  · split
    · exact hd frame node ss
    · split
      · exact (restores_emit _).bind fun _ => restores_pure _
      · split
        · exact restores_fail _
        · exact restores_narrow hd _ _ node ss
  · split
    · exact (restores_emit _).bind fun _ => restores_pure _
    · exact hd frame node ss

theorem restores_spread (hd : descend.Restores) (frame : Frame) (node : Address)
    (fragment : Name) : (spread env descend frame node fragment).Restores := by
  unfold spread
  split
  · exact restores_fail _
  · refine restores_expanding.bind fun names => ?_
    split
    · exact restores_fail _
    · exact (restores_enterFragment hd frame _ _ _).within fragment

/-! ## Selection sets -/

theorem restores_selection (hd : descend.Restores) (frame : Frame) (node : Address)
    (s : Selection) : (selection env descend frame node s).Restores := by
  refine (restores_visit frame node s).bind fun _ => ?_
  cases s with
  | leaf name aliasName => exact restores_field hd _ node name aliasName none
  | branch name aliasName ss => exact restores_field hd _ node name aliasName (some ss)
  | spread fragment => exact restores_spread hd frame node fragment
  | fragment condition ss => exact restores_enterFragment hd frame _ node ss
  | other kind => exact restores_fail _

theorem restores_selectionsFrom (hd : descend.Restores) (frame : Frame) (node : Address)
    (ss : List Selection) (index : Nat) :
    (selectionsFrom env descend frame node index ss).Restores := by
  induction ss generalizing index with
  | nil => exact restores_pure _
  | cons s rest ih =>
      exact (restores_selection hd frame _ s).bind fun _ =>
        (ih (index + 1)).bind fun _ => restores_pure _

theorem restores_selectionsUpTo (env : Env) (depth : Nat) :
    (selectionsUpTo env depth).Restores := by
  induction depth with
  | zero => exact fun _ _ _ => restores_fail _
  | succ depth ih => exact fun frame node ss => restores_selectionsFrom ih frame node ss 0

/-- **A walk puts the names back**, at whatever depth it ends. -/
theorem restores_selections (env : Env) : (selections env).Restores :=
  fun frame node ss names => restores_selectionsUpTo env _ frame node ss names

theorem restores_mergeRoots (type : Name) (nodes : List RootNode) (index : Nat)
    (found : OrderedSet String) : (mergeRoots env type index nodes found).Restores := by
  induction nodes generalizing index found with
  | nil => exact restores_pure _
  | cons node rest ih =>
      exact (restores_selections env _ _ _).bind fun paths => ih (index + 1) (found.update paths)

end Walk

/-! ## Requests of a hook -/

namespace Strategy

/-- What the strategy comes to when every request meets the same outcome, and how many requests it
    makes. -/
def against (met : Except Failure (List String)) : Strategy → Except Failure (List String) × Nat
  | answer paths => (.ok paths, 0)
  | refuse text => (.error (.refused text), 0)
  | ask next =>
      match met with
      | .ok paths => let r := (next paths).against met; (r.1, r.2 + 1)
      | .error failure => (.error failure, 1)
  | attempt next handle =>
      match met with
      | .ok paths => let r := (next paths).against met; (r.1, r.2 + 1)
      | .error (.mask error _) => let r := (handle error).against met; (r.1, r.2 + 1)
      | .error failure => (.error failure, 1)

/-- Two strategies in turn: the second is played only if the first one answers. -/
theorem against_bind (met : Except Failure (List String)) (s : Strategy)
    (k : List String → Strategy) :
    ((s.bind k).against met).1 = (s.against met).1 >>= fun paths => ((k paths).against met).1 := by
  induction s with
  | answer paths => rfl
  | refuse text => rfl
  | ask next ih =>
      cases met with
      | ok paths => exact ih paths
      | error failure => rfl
  | attempt next handle ihn ihh =>
      cases met with
      | ok paths => exact ihn paths
      | error failure =>
          cases failure with
          | mask error blamed => exact ihh error
          | _ => rfl

/-- Both strategies of a pair meet the same outcome, so the second one is no surprise. -/
theorem against_append (met : Except Failure (List String)) (s t : Strategy) :
    ((s ++ t).against met).1
      = (do
          let paths ← (s.against met).1
          let others ← (t.against met).1
          return paths ++ others) := by
  change ((s.bind fun paths => t.bind fun others => answer (paths ++ others)).against met).1 = _
  rw [against_bind]
  congr 1
  funext paths
  rw [against_bind]
  rfl

end Strategy

namespace Walk

/-- **All requests of a hook meet the same outcome.** Following a strategy from given names comes to
    what the strategy comes to against the outcome of a single request, leaves the events of that
    request once for each time it is made, and puts the names back. -/
theorem run_follow {members : Walk (List String)} (hm : members.Restores) (s : Strategy)
    (names : List Name) :
    (s.follow members).run names =
      ⟨(s.against (members.run names).outcome).1, names,
        (List.replicate (s.against (members.run names).outcome).2
          (members.run names).events).flatten⟩ := by
  have hnames := hm names
  rcases hrun : members.run names with ⟨met, left, events⟩
  rw [hrun] at hnames
  -- The request has put the names back, so the next one runs just as it did.
  obtain rfl : left = names := hnames
  induction s with
  | answer paths => rfl
  | refuse text => rfl
  | ask next ih =>
      rw [Strategy.follow_ask, run_bind, hrun]
      cases met with
      | ok paths => simp [Strategy.against, ih paths, Run.after, List.replicate_succ]
      | error failure => simp [Strategy.against]
  | attempt next handle ihn ihh =>
      rw [Strategy.follow_attempt, run_bind, run_caught, hrun]
      cases met with
      | ok paths =>
          simp [settle, Strategy.against, Strategy.resume, ihn paths, Run.after,
            List.replicate_succ]
      | error failure =>
          cases failure with
          | mask error blamed =>
              simp [settle, Strategy.against, Strategy.resume, ihh error, Run.after,
                List.replicate_succ]
          | _ => simp [settle, Strategy.against]

theorem run_narrow {descend : Descend} (hd : descend.Restores) (hook : NarrowingHook)
    (n : Narrowing) (node : Address) (ss : List Selection) (names : List Name) :
    (narrow descend hook n node ss).run names =
      let request := (memberPaths descend n node ss).run names
      let met := (hook n).against request.outcome
      ⟨met.1, names,
        .hook (.narrowingAsked n node) :: (List.replicate met.2 request.events).flatten⟩ := by
  have hasked : (emit (.hook (.narrowingAsked n node))).run names =
      ⟨.ok (), names, [.hook (.narrowingAsked n node)]⟩ := rfl
  rw [narrow, run_bind_of_ok hasked, run_follow (restores_memberPaths hd n node ss)]
  rfl

/-- Asked twice, a guarded request gives the same paths again, or fails as it did once. -/
theorem against_guardedTwice (met : Except Failure (List String)) :
    ((Strategy.guarded ++ Strategy.guarded).against met).1
      = (Strategy.guarded.against met).1.map fun paths => paths ++ paths := by
  rw [Strategy.against_append]
  cases (Strategy.guarded.against met).1 <;> rfl

/-- A member's own paths, and once more under a segment, come from one list of paths. -/
theorem against_membersAndSegments (met : Except Failure (List String)) (rule : SegmentRule)
    (n : Narrowing) :
    (((NarrowingRule.membersAndSegments rule).hook n).against met).1
      = met >>= fun paths =>
          match rule.segment n with
          | .ok segment? =>
              .ok (paths ++ segment?.elim [] fun segment => paths.map (joinPath segment))
          | .error text => .error (.refused text) := by
  change ((Strategy.members ++ Hooks.underSegments rule.segment n).against met).1 = _
  rw [Strategy.against_append]
  unfold Hooks.underSegments
  cases met with
  | error failure => rfl
  | ok paths =>
      rcases rule.segment n with text | _ | segment
      · rfl
      · rfl
      · rfl

/-- **The fragments being expanded are always restored.** Whatever a walk ends with, the names are
    what they were at its start, and so they are after each request that a hook makes on the way,
    at any depth. Hence a hook call is settled by a single request: all its requests meet the same
    outcome and leave the same events. A hook that guards two requests gives the same paths twice;
    one that gives the member's paths plainly and under a segment gives the same paths in both. -/
theorem expanding_restored (env : Env) :
    (∀ frame names node, (env.collect frame names node).expanding = names) ∧
    ∀ depth n node ss names,
      let request := (memberPaths (selectionsUpTo env depth) n node ss).run names
      let call := fun hook => (narrow (selectionsUpTo env depth) hook n node ss).run names
      request.expanding = names ∧
      (∀ hook : NarrowingHook,
        let met := (hook n).against request.outcome
        call hook =
          ⟨met.1, names,
            .hook (.narrowingAsked n node) :: (List.replicate met.2 request.events).flatten⟩) ∧
      (call NarrowingRule.guardedTwice.hook).outcome
        = (call NarrowingRule.guarded.hook).outcome.map (fun paths => paths ++ paths) ∧
      ∀ rule : SegmentRule,
        (call (NarrowingRule.membersAndSegments rule).hook).outcome
          = request.outcome >>= fun paths =>
              match rule.segment n with
              | .ok segment? =>
                  .ok (paths ++ segment?.elim [] fun segment => paths.map (joinPath segment))
              | .error text => .error (.refused text) := by
  refine ⟨fun frame names node => restores_selections env _ _ _ names, ?_⟩
  intro depth n node ss names request call
  have hd := restores_selectionsUpTo env depth
  have hcall : ∀ hook, (call hook).outcome = ((hook n).against request.outcome).1 := by
    intro hook
    exact congrArg Run.outcome (run_narrow hd hook n node ss names)
  refine ⟨restores_memberPaths hd n node ss names, ?_, ?_, ?_⟩
  · intro hook
    exact run_narrow hd hook n node ss names
  · rw [hcall, hcall]
    exact against_guardedTwice request.outcome
  · intro rule
    rw [hcall]
    exact against_membersAndSegments request.outcome rule n

end Walk

end SelectionMask
