import SelectionMask.Proofs.Walk.Inlining
import SelectionMask.Proofs.Walk.Steps

set_option autoImplicit false

/-! # The enclosing field

A walk keeps the innermost field that its selections stand in, but only a fragment that narrows an
abstract type asks for it. At a type that is not abstract it may be any field or none: a fragment
read in place keeps the type, and below a field it is that field which encloses what comes next. So
walks of the same selections from places that match in this sense do the same
(`Walk.matchesBelow_selections`).

What may differ besides is up to the comparison: `Comparison.Overlooks` says that it does not see
the enclosing field of a visit, and which nodes it cannot tell apart. -/

namespace SelectionMask

/-! ## Comparisons that overlook the enclosing field -/

/-- The comparison does not see which field encloses a visit, nor which of two nodes something
    happens at, if the nodes are the same in the given sense. -/
structure Comparison.Overlooks (C : Comparison) (same : Address → Address → Prop) : Prop where
  refl : ∀ node, same node node
  child : ∀ {node node'} index, same node node' → same (node.child index) (node'.child index)
  place : ∀ {node node'}, same node node' → C.SamePlace node node'
  visit : ∀ {node node' type} enclosing enclosing' names s, same node node' →
    C.events [.visit ⟨⟨type, enclosing⟩, names, node, s⟩]
      [.visit ⟨⟨type, enclosing'⟩, names, node', s⟩]

/-- The event without the enclosing field, if it is a visit. -/
def Event.unenclosed : Event → Event
  | visit v => visit { v with frame := ⟨v.frame.type, none⟩ }
  | event => event

namespace Comparison

theorem unplaced_overlooks : unplaced.Overlooks fun _ _ => True where
  refl _ := trivial
  child _ _ := trivial
  place _ := unplaced_samePlace _ _
  visit _ _ _ _ _ := ⟨rfl, rfl⟩

/-- The very same, nodes included, but for the fields that enclose the visits. -/
def unenclosed : Comparison where
  failure := Eq
  events es es' := es.map Event.unenclosed = es'.map Event.unenclosed
  failure_refl _ := rfl
  events_refl _ := rfl
  events_append h h' := by rw [List.map_append, List.map_append, h, h']
  maskError?_eq h := by rw [h]

theorem unenclosed_overlooks : unenclosed.Overlooks Eq where
  refl _ := rfl
  child _ h := by rw [h]
  place := by
    rintro node _ rfl
    exact SamePlace.refl _ node
  visit := by
    rintro node _ type enclosing enclosing' names s rfl
    rfl

theorem outcome_unplaced_iff {α : Type} {r r' : Except Failure α} :
    unplaced.outcome r r' ↔ r.mapError Failure.unplaced = r'.mapError Failure.unplaced := by
  rcases r with f | a <;> rcases r' with f' | a'
  · exact ⟨congrArg Except.error, Except.error.inj⟩
  · exact ⟨nofun, nofun⟩
  · exact ⟨nofun, nofun⟩
  · exact ⟨congrArg Except.ok, Except.ok.inj⟩

theorem outcome_unenclosed_iff {α : Type} {r r' : Except Failure α} :
    unenclosed.outcome r r' ↔ r = r' := by
  cases r <;> cases r' <;> simp [outcome, unenclosed]

end Comparison

/-- The same place in the schema, but for the enclosing field of a type that is not abstract. -/
structure Frame.Matches (schema : Schema) (frame frame' : Frame) : Prop where
  type : frame.type = frame'.type
  enclosing : schema.IsAbstract frame.type → frame.enclosing = frame'.enclosing

namespace Frame.Matches

variable {schema : Schema} {frame frame' : Frame}

theorem refl (schema : Schema) (frame : Frame) : frame.Matches schema frame :=
  ⟨rfl, fun _ => rfl⟩

theorem eq_of_isAbstract (h : frame.Matches schema frame')
    (habstract : schema.IsAbstract frame.type) : frame = frame' := by
  cases frame
  cases frame'
  cases h.type
  cases h.enclosing habstract
  rfl

theorem of_concrete {type : Name} (h : ¬ schema.IsAbstract type)
    (enclosing enclosing' : Option FieldDef) :
    Frame.Matches schema ⟨type, enclosing⟩ ⟨type, enclosing'⟩ :=
  ⟨rfl, fun habstract => absurd habstract h⟩

end Frame.Matches

namespace Walk

variable {C : Comparison} {same : Address → Address → Prop} {env : Env} {descend : Descend}
  {names : List Name} {frame frame' : Frame} {node node' : Address}

/-! ## Steps -/

/-- Deeper walks from matching places are alike. -/
def MatchesBelow (C : Comparison) (same : Address → Address → Prop) (env : Env)
    (descend : Descend) : Prop :=
  ∀ ⦃frame frame'⦄, frame.Matches env.schema frame' → ∀ ⦃node node'⦄, same node node' →
    ∀ names ss, Alike C names names (descend frame node ss) (descend frame' node' ss)

theorem MatchesBelow.enterFragment (hbelow : MatchesBelow C same env descend)
    (hover : C.Overlooks same) (hd : descend.Restores) (hframe : frame.Matches env.schema frame')
    (hnode : same node node') (condition : Name) (ss : List Selection) :
    Alike C names names (enterFragment env descend frame condition node ss)
      (enterFragment env descend frame' condition node' ss) := by
  have hp := hover.place hnode
  by_cases habstract : env.schema.IsAbstract frame.type
  · -- Here the enclosing field may be asked for, but it is the same.
    obtain rfl := hframe.eq_of_isAbstract habstract
    exact alike_enterFragment hp hd hd
      (fun inner => hbelow (.refl _ inner) hnode names ss) frame condition
  · have htype := hframe.type
    cases htarget : env.schema.type? condition with
    | none =>
        rw [enterFragment_of_unknown htarget, enterFragment_of_unknown htarget]
        exact alike_fail (hp.blamed _)
    | some target =>
        cases hcurrent : env.schema.type? frame.type with
        | none =>
            rw [enterFragment_of_unknown_current htarget hcurrent,
              enterFragment_of_unknown_current htarget (htype ▸ hcurrent), htype]
            exact alike_fail (hp.blamed _)
        | some current =>
            rw [Schema.isAbstract_iff hcurrent] at habstract
            by_cases henters : env.schema.Enters condition frame.type
            · rw [enterFragment_of_enters htarget hcurrent henters,
                enterFragment_of_enters htarget (htype ▸ hcurrent) (htype ▸ henters)]
              exact hbelow hframe hnode names ss
            · rw [enterFragment_of_unrelated htarget hcurrent habstract henters,
                enterFragment_of_unrelated htarget (htype ▸ hcurrent) habstract (htype ▸ henters),
                htype]
              exact alike_note_bind _ (alike_pure _)

theorem MatchesBelow.pathsOf (hbelow : MatchesBelow C same env descend)
    (hover : C.Overlooks same) (hd : descend.Restores) (hframe : frame.Matches env.schema frame')
    (hnode : same node node') (s : Selection) :
    Alike C names names (pathsOf env descend frame node s)
      (pathsOf env descend frame' node' s) := by
  have hp := hover.place hnode
  cases s with
  | leaf name aliasName =>
      rw [Walk.pathsOf, Walk.pathsOf, hframe.type]
      exact alike_field hp hd hd _ name aliasName fun _ _ => alike_pure _
  | branch name aliasName below =>
      rw [Walk.pathsOf, Walk.pathsOf, hframe.type]
      refine alike_field hp hd hd _ name aliasName fun definition found => ?_
      -- From here on the field itself encloses what is walked, on both sides.
      exact alike_pathsBelow (hbelow (.refl _ _) hnode names below) hd hd found
  | fragment condition body =>
      rw [Walk.pathsOf, Walk.pathsOf, ← hframe.type]
      exact hbelow.enterFragment hover hd hframe hnode _ body
  | spread fragment =>
      refine alike_spread hp fragment fun definition _ _ => ?_
      exact hbelow.enterFragment hover hd hframe (hover.refl _) _ definition.selections
  | other kind => exact alike_fail (C.failure_refl (by simp))

theorem MatchesBelow.selectionsFrom (hbelow : MatchesBelow C same env descend)
    (hover : C.Overlooks same) (hd : descend.Restores) (hframe : frame.Matches env.schema frame')
    (hnode : same node node') (index : Nat) (ss : List Selection) :
    Alike C names names (selectionsFrom env descend frame node index ss)
      (selectionsFrom env descend frame' node' index ss) := by
  induction ss generalizing index with
  | nil => exact alike_pure _
  | cons s rest ih =>
      obtain ⟨type, enclosing⟩ := frame
      obtain ⟨_, enclosing'⟩ := frame'
      obtain rfl := hframe.type
      have hchild := hover.child index hnode
      exact alike_selectionsFrom_cons hd hd (hover.visit enclosing enclosing' names s hchild)
        (hbelow.pathsOf hover hd hframe hchild s) (ih (index + 1))

/-! ## Whole walks -/

theorem matchesBelow_selectionsUpTo (hover : C.Overlooks same) (depth : Nat)
    (hcut : C.failure .exhausted .exhausted) :
    MatchesBelow C same env (selectionsUpTo env depth) := by
  induction depth with
  | zero => exact fun _ _ _ _ _ _ names ss => alike_fail hcut
  | succ depth ih =>
      exact fun _ _ hframe _ _ hnode _ ss =>
        ih.selectionsFrom hover (restores_selectionsUpTo env depth) hframe hnode 0 ss

/-- Walks of the same selections from matching places are alike. -/
theorem matchesBelow_selections (hover : C.Overlooks same)
    (hcut : C.failure .exhausted .exhausted) : MatchesBelow C same env (selections env) :=
  fun _ _ hframe _ _ hnode names ss =>
    matchesBelow_selectionsUpTo hover (depthBound env.fragments names ss) hcut hframe hnode names ss

/-- At a type that is not abstract, neither the enclosing field nor the node makes a difference to
    what a walk comes to, but for the node that is blamed. -/
theorem outcome_selections_of_concrete {type : Name} (h : ¬ env.schema.IsAbstract type)
    (enclosing enclosing' : Option FieldDef) (node node' : Address) (names : List Name)
    (ss : List Selection) :
    ((selections env ⟨type, enclosing⟩ node ss).run names).outcome.mapError Failure.unplaced
      = ((selections env ⟨type, enclosing'⟩ node' ss).run names).outcome.mapError
          Failure.unplaced := by
  have hbelow : MatchesBelow .unplaced (fun _ _ => True) env (selections env) :=
    matchesBelow_selections Comparison.unplaced_overlooks rfl
  have hframe : Frame.Matches env.schema ⟨type, enclosing⟩ ⟨type, enclosing'⟩ :=
    .of_concrete h enclosing enclosing'
  have halike : Alike .unplaced names names (selections env ⟨type, enclosing⟩ node ss)
      (selections env ⟨type, enclosing'⟩ node' ss) := hbelow hframe trivial names ss
  exact Comparison.outcome_unplaced_iff.1 halike.outcome

end Walk

end SelectionMask
