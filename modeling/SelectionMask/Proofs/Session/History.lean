import Mathlib.Data.List.Induction
import SelectionMask.Proofs.Walk.Mirrors
import SelectionMask.Session

set_option autoImplicit false

/-! # What a session answers, from its history

The state of a session is said without running it: each hook and each fragment is as the last of the
earlier steps left it that says anything about it, or as it was at the start. So `lastSettled` reads
the state off the history (`Session.see_after`), and the answer to a computation is that of a
computation on its own, with everything given (`Session.compute_standalone`). -/

namespace SelectionMask

/-! ## Hooks by their kind -/

/-- A hook of the kind. -/
def HookKind.Hook : HookKind → Type
  | fieldNames => NameHook
  | extraPaths => ExtraHook
  | narrowing => NarrowingHook

namespace Hooks

/-- The hook of the kind, if it is set. -/
def ofKind (hooks : Hooks) : (kind : HookKind) → Option kind.Hook
  | .fieldNames => hooks.fieldNames
  | .extraPaths => hooks.extraPaths
  | .narrowing => hooks.narrowing

/-- The hooks with a given hook, or none, of each kind. -/
def assemble (hook : (kind : HookKind) → Option kind.Hook) : Hooks :=
  ⟨hook .fieldNames, hook .extraPaths, hook .narrowing⟩

theorem assemble_ofKind (hooks : Hooks) : assemble hooks.ofKind = hooks := rfl

end Hooks

/-- The hook of the kind that the change sets or takes away, if it is a change of this kind. -/
def HookChange.ofKind : HookChange → (kind : HookKind) → Option (Option kind.Hook)
  | fieldNames hook, .fieldNames => some hook
  | extraPaths hook, .extraPaths => some hook
  | narrowing hook, .narrowing => some hook
  | _, _ => none

theorem Hooks.ofKind_change (hooks : Hooks) (change : HookChange) (kind : HookKind) :
    (hooks.change change).ofKind kind = (change.ofKind kind).getD (hooks.ofKind kind) := by
  cases change <;> cases kind <;> rfl

/-! ## What a step settles -/

namespace SessionStep

/-- Whether the step asks for a mask. -/
def isCompute : SessionStep → Bool
  | compute _ _ _ => true
  | _ => false

/-- The hook of the kind after the step, if the step says anything about it. A new extractor says
    something about all of them. -/
def settlesHook (kind : HookKind) : SessionStep → Option (Option kind.Hook)
  | setHook change => change.ofKind kind
  | newExtractor hooks => some ((hooks.getD .unset).ofKind kind)
  | _ => none

/-- The definition of the name after the step, if the step says anything about it. -/
def settlesFragment (name : Name) : SessionStep → Option (Option Fragment)
  | setFragment other fragment => if other = name then some (some fragment) else none
  | eraseFragment other => if other = name then some none else none
  | _ => none

end SessionStep

/-- What the last of the steps that settle something makes of it, or what it is at the start if there
    is no such step. -/
def lastSettled {α : Type} (settles : SessionStep → Option α) (start : α)
    (steps : List SessionStep) : α :=
  (steps.reverse.findSome? settles).getD start

theorem lastSettled_concat {α : Type} (settles : SessionStep → Option α) (start : α)
    (steps : List SessionStep) (st : SessionStep) :
    lastSettled settles start (steps ++ [st])
      = (settles st).getD (lastSettled settles start steps) := by
  rw [lastSettled, List.reverse_append]
  cases h : settles st <;> simp [h, lastSettled]

/-- The hooks after the steps, from the options of the first extractor. -/
def hooksAfter (hooks : Option Hooks) (steps : List SessionStep) : Hooks :=
  .assemble fun kind =>
    lastSettled (SessionStep.settlesHook kind) ((hooks.getD .unset).ofKind kind) steps

/-- The table has the definitions that are left after the steps. -/
def FragmentTable.IsAfter (table fragments : FragmentTable) (steps : List SessionStep) : Prop :=
  ∀ name, table.find? name
    = lastSettled (SessionStep.settlesFragment name) (fragments.find? name) steps

namespace Session

variable {schema : Schema} {session : Session}

theorem after_concat (session : Session) (steps : List SessionStep) (st : SessionStep) :
    session.after (steps ++ [st]) = (session.after steps).step st :=
  List.foldl_concat ..

/-- **The state is what the last steps left**, as far as it can be seen step by step. -/
theorem see_after {α : Type} (see : Session → α) {settles : SessionStep → Option α}
    (h : ∀ session st, see (session.step st) = (settles st).getD (see session))
    (session : Session) (steps : List SessionStep) :
    see (session.after steps) = lastSettled settles (see session) steps := by
  induction steps using List.reverseRecOn with
  | nil => rfl
  | append_singleton steps st ih => rw [after_concat, h, ih, lastSettled_concat]

theorem hooks_after (hooks : Option Hooks) (fragments : FragmentTable)
    (steps : List SessionStep) :
    ((start hooks fragments).after steps).extractor.hooks = hooksAfter hooks steps := by
  rw [← Hooks.assemble_ofKind (((start hooks fragments).after steps).extractor.hooks), hooksAfter]
  congr 1
  funext kind
  refine see_after (fun session => session.extractor.hooks.ofKind kind) ?_
    (start hooks fragments) steps
  intro session st
  cases st with
  | setHook change => exact Hooks.ofKind_change _ change kind
  | _ => rfl

theorem fragments_after (hooks : Option Hooks) (fragments : FragmentTable)
    (steps : List SessionStep) :
    ((start hooks fragments).after steps).fragments.IsAfter fragments steps := by
  intro name
  refine see_after (fun session => session.fragments.find? name) ?_ (start hooks fragments) steps
  intro session st
  cases st with
  | setFragment other fragment =>
      refine (session.fragments.find?_insert other name fragment).trans ?_
      by_cases hname : other = name <;> simp [SessionStep.settlesFragment, hname]
  | eraseFragment other =>
      refine (session.fragments.find?_erase other name).trans ?_
      by_cases hname : other = name <;> simp [SessionStep.settlesFragment, hname]
  | _ => rfl

/-! ## Answers -/

/-- Each step is answered by the session as it is after the steps before. -/
theorem getElem?_run (schema : Schema) (session : Session) (steps : List SessionStep)
    (index : Nat) :
    (session.run schema steps)[index]?
      = steps[index]?.map fun st => (session.after (steps.take index)).answer schema st := by
  induction steps generalizing session index with
  | nil => rfl
  | cons st rest ih =>
      cases index with
      | zero => rfl
      | succ index => exact ih (session.step st) index

/-- A computation leaves no trace in the state. -/
theorem after_filter (session : Session) (steps : List SessionStep) :
    session.after (steps.filter fun st => !st.isCompute) = session.after steps := by
  induction steps using List.reverseRecOn with
  | nil => rfl
  | append_singleton steps st ih =>
      rw [List.filter_append, after_concat, ← ih]
      cases st with
      | compute entrance type nodes => simp [SessionStep.isCompute, step]
      | _ => exact after_concat ..

/-- All ways to ask for a mask come to the same. -/
theorem answer_compute (schema : Schema) (session : Session) (entrance : Entrance) (type : Name)
    (nodes : List RootNode) :
    session.answer schema (.compute entrance type nodes) = .report
      (maskPaths type nodes session.fragments schema (some session.extractor.hooks)) := by
  cases entrance <;> rfl

/-- **A session keeps no hidden state.** Whichever way a session is asked for a mask, it answers with
    a report, and this is the report of a computation on its own: with each hook as it was last set
    since the extractor was made, or as that extractor was given it, and with each fragment as the
    last step about it left it, or as it was at the start. There is such a table of fragments, and
    it does not matter which one is taken. So the answer to a step of any kind depends only on the
    steps before it that are no computations: these may be taken out, repeated or put in anywhere,
    whether they succeed or fail. -/
theorem compute_standalone (schema : Schema) (hooks : Option Hooks) (fragments : FragmentTable) :
    let answers (steps : List SessionStep) := (start hooks fragments).run schema steps
    (∀ steps index entrance type nodes, steps[index]? = some (.compute entrance type nodes) →
      let before := steps.take index
      ∃ report, (answers steps)[index]? = some (.report report) ∧
        (∃ table : FragmentTable, table.IsAfter fragments before) ∧
        ∀ table : FragmentTable, table.IsAfter fragments before →
          (maskPaths type nodes table schema (some (hooksAfter hooks before))).SameObserved
            report) ∧
    ∀ steps steps' index index', steps[index]? = steps'[index']? →
      (steps.take index).filter (fun st => !st.isCompute)
        = (steps'.take index').filter (fun st => !st.isCompute) →
      (answers steps)[index]? = (answers steps')[index']? := by
  intro answers
  constructor
  · intro steps index entrance type nodes hstep before
    let session := (start hooks fragments).after before
    have hafter : session.fragments.IsAfter fragments before :=
      fragments_after hooks fragments before
    have hhooks : session.extractor.hooks = hooksAfter hooks before :=
      hooks_after hooks fragments before
    refine ⟨maskPaths type nodes session.fragments schema (some session.extractor.hooks), ?_,
      ⟨session.fragments, hafter⟩, fun table htable => ?_⟩
    · rw [getElem?_run, hstep]
      exact congrArg some (answer_compute schema session entrance type nodes)
    · rw [hhooks]
      exact FragmentTable.sameObserved_of_find?_eq
        (fun name => (htable name).trans (hafter name).symm) type nodes schema _
  · intro steps steps' index index' hstep hbefore
    rw [getElem?_run, getElem?_run, hstep, ← after_filter _ (steps.take index), hbefore,
      after_filter]

/-- A computation that fails for want of a fragment, one under a hook for names, and one through a new
    extractor, which has lost the hook but not the fragment. Without the first two of them the last
    one is answered alike. -/
theorem compute_standalone_of_steps :
    let schema : Schema := ⟨[⟨"Query", .object [⟨"id", .named "ID", none⟩] [], none⟩]⟩
    let parts : Fragment := ⟨"Query", [.leaf "id" none]⟩
    let roots : List RootNode := [.operation [.spread "Parts"]]
    let change : HookChange := .fieldNames (some fun _ => .ok (some (.one "key")))
    let steps : List SessionStep :=
      [.compute .extractor "Query" roots, .setFragment "Parts" parts, .setHook change,
        .compute .direct "Query" roots, .newExtractor none, .compute .resolveInfo "Query" roots]
    let others : List SessionStep :=
      [.setFragment "Parts" parts, .setHook change, .newExtractor none,
        .compute .resolveInfo "Query" roots]
    let answers (steps : List SessionStep) := (start none ∅).run schema steps
    steps[5]? = some (.compute .resolveInfo "Query" roots) ∧
      hooksAfter none (steps.take 5) = .unset ∧
      (FragmentTable.ofList [("Parts", parts)]).IsAfter ∅ (steps.take 5) ∧
      (∃ report, (answers steps)[5]? = some (.report report) ∧ report.outcome = .ok ["id"]) ∧
      (answers steps)[5]? = (answers others)[3]? := by
  intro schema parts roots change steps others answers
  have hstep : steps[5]? = some (.compute .resolveInfo "Query" roots) := rfl
  have htable : (FragmentTable.ofList [("Parts", parts)]).IsAfter ∅ (steps.take 5) := by
    intro name
    refine (FragmentTable.find?_insert .empty "Parts" name parts).trans ?_
    by_cases hname : "Parts" = name
    · subst hname
      rfl
    · rw [if_neg hname]
      simp only [lastSettled, steps, List.take, List.reverse_cons, List.reverse_nil,
        List.nil_append, List.cons_append, List.findSome?, SessionStep.settlesFragment, if_neg hname]
      rfl
  obtain ⟨hstandalone, hremoved⟩ := compute_standalone schema none ∅
  obtain ⟨report, hreport, -, hsame⟩ := hstandalone steps 5 _ _ _ hstep
  refine ⟨hstep, rfl, htable, ⟨report, hreport, ?_⟩, hremoved steps others 5 3 rfl rfl⟩
  exact (hsame _ htable).outcome.trans rfl

end Session

end SelectionMask
