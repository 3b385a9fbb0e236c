import SelectionMask.Proofs.Document.Spreads
import SelectionMask.Proofs.Walk.Depth
import SelectionMask.Proofs.Walk.Visits

set_option autoImplicit false

/-! # Mistakes of the calling program

Two failures are nobody's fault but the caller's: a selection of no known kind, and a fragment that
narrows an abstract type which no field yields. The second one can only happen where the computation
starts. A visit without an enclosing field stands at the type that the computation starts at, since
all that goes on elsewhere goes through a field (`anchored_invariant`).

So a caller who hands over proper selections (`Selection.isProper`), and starts at a type that is
not abstract or sets no hook for members, gets no failure of this kind. -/

namespace SelectionMask

/-! ## Proper selections -/

namespace Selection

mutual

/-- The selection is a field, a spread or a fragment, and so is everything that stands in it. -/
def isProper : Selection → Bool
  | leaf _ _ => true
  | branch _ _ selections => areProper selections
  | spread _ => true
  | fragment _ selections => areProper selections
  | other _ => false

/-- All of the selections are proper. -/
def areProper : List Selection → Bool
  | [] => true
  | s :: rest => s.isProper && areProper rest

end

theorem isProper_of_getElem? {ss : List Selection} (h : areProper ss) {index : Nat} {s : Selection}
    (hs : ss[index]? = some s) : s.isProper := by
  induction ss generalizing index with
  | nil => simp at hs
  | cons t rest ih =>
      obtain ⟨ht, hrest⟩ : t.isProper ∧ areProper rest := by simpa [areProper] using h
      cases index with
      | zero =>
          obtain rfl : t = s := by simpa using hs
          exact ht
      | succ index => exact ih hrest (by simpa using hs)

end Selection

open Selection (areProper isProper_of_getElem?)

variable {env : Env} {v w : Visit}

/-! ## What each step keeps -/

/-- A visit without an enclosing field stands at the type. -/
def Visit.Anchored (type : Name) (v : Visit) : Prop :=
  v.frame.enclosing = none → v.frame.type = type

/-- The failure is an error of the query, the refusal of a hook, or a mistake of the caller, of
    which there is one only at the type: a narrowing without an enclosing field, if the type is
    abstract and a hook for members is set. -/
inductive Failure.Expected (env : Env) (type : Name) : Failure → Prop
  | mask {error : MaskError} {blamed : Option Address} :
      (∀ text, error ≠ .general text) → Expected env type (.mask error blamed)
  | refused {text : String} : Expected env type (.refused text)
  | unexpectedSelection {kind : String} : Expected env type (.unexpectedSelection kind)
  | noEnclosingField {condition : Name} :
      env.schema.IsAbstract type → env.hooks.narrowing.isSome →
      Expected env type (.noEnclosingField condition type)
  | exhausted : Expected env type .exhausted

/-- A place that a fragment opens has an enclosing field, or it is the fragment's own place. -/
theorem Frame.Opens.anchored {type : Name} {frame inner : Frame} {condition : Name}
    (hopens : frame.Opens env condition inner) (h : frame.enclosing = none → frame.type = type) :
    inner.enclosing = none → inner.type = type := by
  cases hopens with
  | inPlace _ => exact h
  | member _ _ _ _ _ => exact nofun

theorem Visit.Anchored.leads {type : Name} (h : v.Anchored type) (hleads : v.Leads env w) :
    w.Anchored type := by
  cases hleads with
  | branch _ _ _ _ => exact nofun
  | fragment hopens _ => exact hopens.anchored h
  | spread _ _ hopens _ => exact hopens.anchored h

theorem Visit.Anchored.expected {type : Name} (h : v.Anchored type) {failure : Failure}
    (hfails : v.Fails env failure) : failure.Expected env type := by
  cases hfails with
  | offends hoffends => cases hoffends <;> first | exact .unexpectedSelection | exact .mask nofun
  | unknownCurrent _ => exact .mask nofun
  | noEnclosingField hhook habstract hnone =>
      rw [h hnone] at habstract ⊢
      exact .noEnclosingField habstract hhook
  | refused => exact .refused

/-- **Only where the computation starts is there no enclosing field.** -/
theorem anchored_invariant (env : Env) (type : Name) :
    Visit.Invariant env (Visit.Anchored type) (Failure.Expected env type) where
  step h hleads := h.leads hleads
  exhausted := .exhausted

/-- A proper selection does not fail as an unexpected one. -/
theorem Visit.Fails.ne_unexpectedSelection {failure : Failure} (hfails : v.Fails env failure)
    (h : v.selection.isProper) (kind : String) : failure ≠ .unexpectedSelection kind := by
  rintro rfl
  cases hfails with
  | offends hoffends => cases hoffends with | unexpected => cases h

/-- In a proper query only proper selections are visited. -/
theorem proper_invariant
    (hfragments : ∀ entry ∈ env.fragments.entries, areProper entry.2.selections) :
    Visit.Invariant env (fun v => v.selection.isProper)
      fun failure => ∀ kind, failure ≠ .unexpectedSelection kind where
  step := by
    intro v w h hleads
    cases hleads with
    | branch _ _ _ hs => exact isProper_of_getElem? h hs
    | fragment _ hs => exact isProper_of_getElem? h hs
    | spread hfind _ _ hs =>
        have hdefinition := hfragments _ (FragmentTable.mem_entries_of_find? hfind)
        exact isProper_of_getElem? hdefinition hs
  exhausted := nofun

/-! ## The mask -/

/-- **Proper callers meet no programming errors.** Whatever is selected and whatever hooks are set,
    a selection that no field encloses is read at the type that the computation starts at. So a
    fragment narrows an abstract type without an enclosing field only if that type is abstract and a
    hook for members is set, and the message names the type. If it is not abstract, or no hook for
    members is set, and all selections of the root nodes and the fragments are proper, then a
    computation fails with nothing but the five errors of the query and the refusals of hooks. -/
theorem maskPaths_misused_at_root (schema : Schema) (fragments : FragmentTable)
    (hooks : Option Hooks) (type : Name) (roots : List RootNode) :
    let report := maskPaths type roots fragments schema hooks
    let narrowing := (hooks.getD .unset).narrowing
    (∀ v ∈ visitsOf report.events, v.frame.enclosing = none → v.frame.type = type) ∧
    (∀ condition current, report.outcome = .error (.noEnclosingField condition current) →
      schema.IsAbstract type ∧ narrowing.isSome ∧ current = type ∧
        (Failure.noEnclosingField condition current).message
          = "programming error: fragment on " ++ condition ++ " narrows abstract type " ++ type
            ++ " without an enclosing field") ∧
    ((¬ schema.IsAbstract type ∨ narrowing = none) →
      (∀ root ∈ roots, areProper root.selections) →
      (∀ entry ∈ fragments.entries, areProper entry.2.selections) →
      ∀ failure, report.outcome = .error failure →
        (∃ error blamed, failure = .mask error blamed ∧ ∀ text, error ≠ .general text) ∨
          ∃ text, failure = .refused text) := by
  intro report narrowing
  let env : Env := ⟨schema, fragments, hooks.getD .unset⟩
  have hrun : Walk.Keeps env (Visit.Anchored type) (Failure.Expected env type) []
      (Walk.mask env type roots) :=
    (anchored_invariant env type).keeps_mask (fun _ => .mask nofun) fun _ _ _ _ _ _ _ => rfl
  refine ⟨hrun.visits, fun condition current hfailure => ?_, ?_⟩
  · cases hrun.of_failure (·.expected) hfailure with
    | noEnclosingField habstract hhook => exact ⟨habstract, hhook, rfl, rfl⟩
  · intro hsafe hroots hfragments failure hfailure
    have hI : Visit.Invariant env (fun v => v.selection.isProper)
        (fun failure => ∀ kind, failure ≠ .unexpectedSelection kind) :=
      proper_invariant hfragments
    have hproper : Walk.Keeps env (fun v => v.selection.isProper)
        (fun failure => ∀ kind, failure ≠ .unexpectedSelection kind) []
        (Walk.mask env type roots) :=
      hI.keeps_mask (fun _ => nofun) fun index root hroot position s hs =>
        isProper_of_getElem? (hroots root (List.mem_of_getElem? hroot)) hs
    cases hrun.of_failure (·.expected) hfailure with
    | mask herror => exact .inl ⟨_, _, rfl, herror⟩
    | refused => exact .inr ⟨_, rfl⟩
    | @unexpectedSelection kind =>
        have hother : ∀ kind', Failure.unexpectedSelection kind ≠ .unexpectedSelection kind' :=
          hproper.of_failure (fun h hfails => hfails.ne_unexpectedSelection h) hfailure
        exact absurd rfl (hother kind)
    | noEnclosingField habstract hhook =>
        rcases hsafe with hconcrete | hnone
        · exact absurd habstract hconcrete
        · change narrowing.isSome at hhook
          rw [hnone] at hhook
          cases hhook
    | exhausted => exact absurd hfailure (Walk.mask_not_exhausted env type roots)

/-- A member of an interface that the computation starts at, and one below a field, which lacks what
    is selected. -/
theorem maskPaths_misused_at_root_of_interface :
    let schema : Schema :=
      ⟨[⟨"Query", .object [⟨"node", .named "Node", none⟩] [], none⟩,
        ⟨"Node", .interface [⟨"id", .named "ID", none⟩], none⟩,
        ⟨"User", .object [⟨"id", .named "ID", none⟩] ["Node"], none⟩]⟩
    let fragments : FragmentTable := .ofList [("Parts", ⟨"User", [.leaf "name" none]⟩)]
    let hooks : Hooks := ⟨none, none, some NarrowingRule.members.hook⟩
    let mask (type : Name) (s : Selection) :=
      (maskPaths type [.operation [s]] fragments schema (some hooks)).outcome
    let roots : List RootNode := [.operation [.branch "node" none [.spread "Parts"]]]
    mask "Node" (.spread "Parts") = .error (.noEnclosingField "User" "Node") ∧
      schema.IsAbstract "Node" ∧ hooks.narrowing.isSome ∧ ¬ schema.IsAbstract "Query" ∧
      (∀ root ∈ roots, areProper root.selections) ∧
      (∀ entry ∈ fragments.entries, areProper entry.2.selections) ∧
      ∃ failure, mask "Query" (.branch "node" none [.spread "Parts"]) = .error failure ∧
        ((∃ error blamed, failure = .mask error blamed ∧ ∀ text, error ≠ .general text) ∨
          ∃ text, failure = .refused text) := by
  intro schema fragments hooks mask roots
  have hmisused : mask "Node" (.spread "Parts") = .error (.noEnclosingField "User" "Node") := by
    decide +kernel
  have hlacks : mask "Query" (.branch "node" none [.spread "Parts"])
      = .error (.mask (.unknownField "User" "name") (some ⟨.definition "Parts", [0]⟩)) := by
    decide +kernel
  have hconcrete : ¬ schema.IsAbstract "Query" := by decide +kernel
  have hroots : ∀ root ∈ roots, areProper root.selections := by decide +kernel
  have hfragments : ∀ entry ∈ fragments.entries, areProper entry.2.selections := by
    decide +kernel
  obtain ⟨-, hat, -⟩ :=
    maskPaths_misused_at_root schema fragments (some hooks) "Node" [.operation [.spread "Parts"]]
  obtain ⟨-, -, hproper⟩ := maskPaths_misused_at_root schema fragments (some hooks) "Query" roots
  obtain ⟨habstract, hhook, -⟩ := hat _ _ hmisused
  exact ⟨hmisused, habstract, hhook, hconcrete, hroots, hfragments, _, hlacks,
    hproper (.inl hconcrete) hroots hfragments _ hlacks⟩

end SelectionMask
