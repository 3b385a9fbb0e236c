import SelectionMask.Hooks.Rules
import SelectionMask.Walk.Basic

set_option autoImplicit false

/-! # Lists with extra paths put in

An extra path is added as it is, and on the way up it gets the names of the fields and the segments
of the members that it stands below. So what is added to a list is an extra path behind a prefix, and
`Supplemented` relates a list of paths to the same one with such paths put in anywhere.

A strategy is additive if it makes no more of that: played with supplemented answers it takes the
same steps and ends with a supplemented list. Strategies that put segments in front, repeat, drop or
replace a member's paths are, and so are those that show an error in their place. -/

namespace SelectionMask

variable {extras extras' : String → Prop} {paths paths' others others' : List String}

/-! ## Paths behind prefixes -/

/-- What can stand in front of an extra path: nothing, or a text that ends in a dot. -/
def IsPrefix (start : String) : Prop :=
  start = "" ∨ ∃ text, start = text ++ "."

/-- The path is an extra one behind a prefix. -/
def IsSupplement (extras : String → Prop) (path : String) : Prop :=
  ∃ start extra, IsPrefix start ∧ extras extra ∧ path = start ++ extra

theorem IsPrefix.joinPath {start : String} (h : IsPrefix start) (segment : String) :
    IsPrefix (joinPath segment start) := by
  rcases h with rfl | ⟨text, rfl⟩
  · exact .inr ⟨segment, by simp [SelectionMask.joinPath]⟩
  · exact .inr ⟨SelectionMask.joinPath segment text, by
      simp [SelectionMask.joinPath, String.append_assoc]⟩

theorem IsSupplement.of_extra {extra : String} (h : extras extra) : IsSupplement extras extra :=
  ⟨"", extra, .inl rfl, h, String.empty_append.symm⟩

theorem IsSupplement.joinPath {path : String} (h : IsSupplement extras path) (segment : String) :
    IsSupplement extras (joinPath segment path) := by
  obtain ⟨start, extra, hstart, hextra, rfl⟩ := h
  refine ⟨SelectionMask.joinPath segment start, extra, hstart.joinPath segment, hextra, ?_⟩
  simp [SelectionMask.joinPath, String.append_assoc]

/-! ## Supplemented lists -/

/-- The second list is the first one with extra paths behind prefixes put in. -/
inductive Supplemented (extras : String → Prop) : List String → List String → Prop
  | nil : Supplemented extras [] []
  | keep {path : String} {paths paths' : List String} :
      Supplemented extras paths paths' → Supplemented extras (path :: paths) (path :: paths')
  | add {path : String} {paths paths' : List String} :
      IsSupplement extras path → Supplemented extras paths paths' →
      Supplemented extras paths (path :: paths')

namespace Supplemented

theorem refl (extras : String → Prop) (paths : List String) : Supplemented extras paths paths := by
  induction paths with
  | nil => exact .nil
  | cons path rest ih => exact .keep ih

theorem append (h : Supplemented extras paths paths') (hothers : Supplemented extras others others') :
    Supplemented extras (paths ++ others) (paths' ++ others') := by
  induction h with
  | nil => exact hothers
  | keep _ ih => exact .keep ih
  | add hpath _ ih => exact .add hpath ih

/-- Extra paths as they are, in front of what is there. -/
theorem extra_append {added : List String} (hadded : ∀ extra ∈ added, extras extra)
    (h : Supplemented extras paths paths') : Supplemented extras paths (added ++ paths') := by
  induction added with
  | nil => exact h
  | cons extra rest ih =>
      obtain ⟨hextra, hrest⟩ := List.forall_mem_cons.1 hadded
      exact .add (.of_extra hextra) (ih hrest)

theorem map_joinPath (h : Supplemented extras paths paths') (segment : String) :
    Supplemented extras (paths.map (joinPath segment)) (paths'.map (joinPath segment)) := by
  induction h with
  | nil => exact .nil
  | keep _ ih => exact .keep ih
  | add hpath _ ih => exact .add (hpath.joinPath segment) ih

theorem joinAll (h : Supplemented extras paths paths') (names : List String) :
    Supplemented extras (joinAll names paths) (joinAll names paths') := by
  induction names with
  | nil => exact .nil
  | cons name rest ih => exact (h.map_joinPath name).append ih

theorem sublist (h : Supplemented extras paths paths') : paths.Sublist paths' := by
  induction h with
  | nil => exact .slnil
  | keep _ ih => exact ih.cons_cons _
  | add _ _ ih => exact ih.cons _

/-- Whatever is new is an extra path behind a prefix. -/
theorem mem (h : Supplemented extras paths paths') {path : String} (hpath : path ∈ paths') :
    path ∈ paths ∨ IsSupplement extras path := by
  induction h with
  | nil => exact .inl hpath
  | keep _ ih =>
      rcases List.mem_cons.1 hpath with rfl | hrest
      · exact .inl List.mem_cons_self
      · exact (ih hrest).imp_left (List.mem_cons_of_mem _)
  | add hadded _ ih =>
      rcases List.mem_cons.1 hpath with rfl | hrest
      · exact .inr hadded
      · exact ih hrest

/-- Nothing is put in if there are no extra paths. -/
theorem eq_of_none (h : Supplemented extras paths paths') (hnone : ∀ extra, ¬ extras extra) :
    paths = paths' := by
  induction h with
  | nil => rfl
  | keep _ ih => rw [ih]
  | add hadded _ _ =>
      obtain ⟨_, extra, -, hextra, -⟩ := hadded
      exact absurd hextra (hnone extra)

end Supplemented

/-! ## Additive strategies -/

namespace Strategy

/-- The second strategy takes the steps of the first one, given supplemented answers, and ends with a
    supplemented list or with the same refusal. -/
inductive Supplements (extras : String → Prop) : Strategy → Strategy → Prop
  | answer {paths paths' : List String} :
      Supplemented extras paths paths' → Supplements extras (answer paths) (answer paths')
  | refuse {text : String} : Supplements extras (refuse text) (refuse text)
  | ask {next next' : List String → Strategy} :
      (∀ paths paths', Supplemented extras paths paths' →
        Supplements extras (next paths) (next' paths')) →
      Supplements extras (ask next) (ask next')
  | attempt {next next' : List String → Strategy} {handle handle' : MaskError → Strategy} :
      (∀ paths paths', Supplemented extras paths paths' →
        Supplements extras (next paths) (next' paths')) →
      (∀ error, Supplements extras (handle error) (handle' error)) →
      Supplements extras (attempt next handle) (attempt next' handle')

/-- Extra paths among the answers do nothing but reappear in the result, behind prefixes. -/
def Additive (s : Strategy) : Prop :=
  ∀ extras, s.Supplements extras s

theorem Supplements.bind {s s' : Strategy} (h : s.Supplements extras s')
    {k k' : List String → Strategy}
    (hk : ∀ paths paths', Supplemented extras paths paths' →
      (k paths).Supplements extras (k' paths')) :
    (s.bind k).Supplements extras (s'.bind k') := by
  induction h with
  | answer hpaths => exact hk _ _ hpaths
  | refuse => exact .refuse
  | ask _ ih => exact .ask ih
  | attempt _ _ ihn ihh => exact .attempt ihn ihh

theorem Additive.append {s t : Strategy} (hs : s.Additive) (ht : t.Additive) : (s ++ t).Additive :=
  fun extras => (hs extras).bind fun _ _ hpaths => (ht extras).bind fun _ _ hothers =>
    .answer (hpaths.append hothers)

theorem additive_answer (paths : List String) : (answer paths).Additive :=
  fun extras => .answer (.refl extras paths)

theorem additive_refuse (text : String) : (refuse text).Additive :=
  fun _ => .refuse

theorem additive_members : members.Additive :=
  fun _ => .ask fun _ _ => .answer

theorem additive_underSegment (segment : Option String) : (underSegment segment).Additive := by
  cases segment with
  | none => exact additive_answer []
  | some segment => exact fun _ => .ask fun _ _ h => .answer (h.map_joinPath segment)

/-- What is shown for an error depends on the error alone. -/
theorem additive_guarded : guarded.Additive :=
  fun extras => .attempt (fun _ _ => .answer) fun _ => additive_answer _ extras

end Strategy

/-- The hook for members answers with additive strategies. -/
def Hooks.Additive (hooks : Hooks) : Prop :=
  ∀ hook ∈ hooks.narrowing, ∀ n, (hook n).Additive

/-- All strategies that rules describe are additive. -/
theorem NarrowingRule.additive (rule : NarrowingRule) (n : Narrowing) : (rule.hook n).Additive := by
  have hsegments : ∀ rule : SegmentRule, (Hooks.underSegments rule.segment n).Additive := by
    intro rule
    unfold Hooks.underSegments
    cases rule.segment n with
    | error text => exact Strategy.additive_refuse text
    | ok segment => exact Strategy.additive_underSegment segment
  cases rule with
  | segments rule => exact hsegments rule
  | members => exact Strategy.additive_members
  | constant paths => exact Strategy.additive_answer paths
  | membersAndSegments rule => exact Strategy.additive_members.append (hsegments rule)
  | guarded => exact Strategy.additive_guarded
  | guardedTwice => exact Strategy.additive_guarded.append Strategy.additive_guarded
  | refuse text => exact Strategy.additive_refuse text

theorem HookRules.additive (rules : HookRules) : rules.hooks.Additive := by
  intro hook hhook n
  obtain ⟨rule, -, rfl⟩ := Option.map_eq_some_iff.1 hhook
  exact rule.additive n

end SelectionMask
