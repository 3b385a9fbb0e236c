import SelectionMask.Proofs.Schema.Fields
import SelectionMask.Proofs.Walk.Nesting

set_option autoImplicit false

/-! # Blame is always right

An error of the query names the node to blame. `MaskError.Blames` says what that node should be for
each error, and what should be the matter with the schema or the fragments then: a field that is not
found blames a selection of that field, an unknown type the fragment that is on it.

Two things that every visit of a run has are enough for it. The selection stands at the address that
is reported for it, and the type that it is read at exists: the type that a computation starts at is
looked up first, and from there on only types are entered that fields have, or that were looked up
for a fragment. So no error is ever about the type at hand. -/

namespace SelectionMask

/-- The selection that stands at an address of the root nodes or of the fragments. -/
def Address.selection? (fragments : FragmentTable) (roots : List RootNode) (address : Address) :
    Option Selection :=
  Selection.at? (address.origin.selections fragments roots) address.steps

/-- What an error says is so, and the node to blame for it is this one. -/
inductive MaskError.Blames (schema : Schema) (fragments : FragmentTable) (type : Name)
    (roots : List RootNode) : MaskError → Option Address → Prop
  /-- The type that the computation starts at does not exist. No node is to blame. -/
  | root : schema.type? type = none → Blames schema fragments type roots (.unknownType type) none
  /-- A fragment is on a type that does not exist. -/
  | fragment {node : Address} {condition : Name} {body : List Selection} :
      node.selection? fragments roots = some (.fragment (some condition) body) →
      schema.type? condition = none →
      Blames schema fragments type roots (.unknownType condition) (some node)
  /-- The definition of a fragment is on a type that does not exist. -/
  | definition {name : Name} {definition : Fragment} :
      fragments.find? name = some definition → schema.type? definition.condition = none →
      Blames schema fragments type roots (.unknownType definition.condition)
        (some (.definition name))
  /-- A field is selected at a type of another kind. -/
  | notAnObject {node : Address} {s : Selection} {name owner : Name} {t : NamedType} :
      node.selection? fragments roots = some s → s.fieldName? = some name →
      name ≠ typenameField → schema.type? owner = some t → t.kind ≠ .object →
      Blames schema fragments type roots (.notAnObjectType owner t.kind) (some node)
  /-- A field is selected that the object type does not have. -/
  | unknownField {node : Address} {s : Selection} {name owner : Name} {t : NamedType} :
      node.selection? fragments roots = some s → s.fieldName? = some name →
      name ≠ typenameField → schema.type? owner = some t → t.kind = .object →
      t.field? name = none →
      Blames schema fragments type roots (.unknownField owner name) (some node)
  /-- A fragment is spread that is not defined. -/
  | unknownFragment {node : Address} {name : Name} :
      node.selection? fragments roots = some (.spread name) → fragments.find? name = none →
      Blames schema fragments type roots (.unknownFragment name) (some node)
  /-- A fragment is spread that is defined. -/
  | cycle {node : Address} {name : Name} :
      node.selection? fragments roots = some (.spread name) → (fragments.find? name).isSome →
      Blames schema fragments type roots (.fragmentCycle name) (some node)

/-- The failure is no error of the query, or blames the right node for it. -/
def Failure.BlamesRightly (schema : Schema) (fragments : FragmentTable) (type : Name)
    (roots : List RootNode) (f : Failure) : Prop :=
  ∀ error blamed, f = .mask error blamed → error.Blames schema fragments type roots blamed

/-- The selection is well placed, and the type that it is read at exists. -/
structure Visit.Grounded (schema : Schema) (fragments : FragmentTable) (roots : List RootNode)
    (v : Visit) : Prop where
  placed : v.WellPlaced fragments roots
  current : (schema.type? v.frame.type).isSome

variable {env : Env} {type : Name} {roots : List RootNode} {v w : Visit}

/-! ## Steps -/

/-- A fragment is read at a type that exists, if it stands at one. -/
theorem Frame.Opens.isSome_type? {frame inner : Frame} {condition : Name}
    (h : frame.Opens env condition inner) (hcurrent : (env.schema.type? frame.type).isSome) :
    (env.schema.type? inner.type).isSome := by
  cases h with
  | inPlace _ => exact hcurrent
  | member _ _ _ htarget _ => exact htarget

/-- **Each step goes on at a type that exists.** -/
theorem Visit.Grounded.leads (hclosed : env.schema.FieldTypesExist)
    (h : v.Grounded env.schema env.fragments roots) (hleads : v.Leads env w) :
    w.Grounded env.schema env.fragments roots where
  placed := h.placed.leads hleads
  current := by
    cases hleads with
    | branch _ hfield _ _ => exact hclosed.of_fieldNamed hfield
    | fragment hopens _ => exact hopens.isSome_type? h.current
    | spread _ _ hopens _ => exact hopens.isSome_type? h.current

/-- Whatever fails at a visit blames rightly. -/
theorem Visit.Grounded.blamesRightly (h : v.Grounded env.schema env.fragments roots)
    {failure : Failure} (hfails : v.Fails env failure) :
    failure.BlamesRightly env.schema env.fragments type roots := by
  rintro error blamed rfl
  have hfound : v.node.selection? env.fragments roots = some v.selection := h.placed.inside.found
  cases hfails with
  | unknownCurrent hnone =>
      have hcurrent := h.current
      rw [hnone] at hcurrent
      cases hcurrent
  | offends hoffends =>
      cases hoffends with
      | notAnObject hs hname ht hkind =>
          exact .notAnObject hfound hs hname ht (by simpa [NamedType.isObject] using hkind)
      | unknownField hs hname ht hkind hnone =>
          exact .unknownField hfound hs hname ht (by simpa [NamedType.isObject] using hkind) hnone
      | unknownFragment hnone => exact .unknownFragment hfound hnone
      | cycle hfind _ => exact .cycle hfound (by simp [hfind])
      | unknownCondition hnone => exact .fragment hfound hnone
      | unknownSpreadCondition hfind _ hnone => exact .definition hfind hnone

theorem grounded_invariant (hclosed : env.schema.FieldTypesExist) (type : Name)
    (roots : List RootNode) :
    Visit.Invariant env (Visit.Grounded env.schema env.fragments roots)
      (Failure.BlamesRightly env.schema env.fragments type roots) where
  step h hleads := h.leads hclosed hleads
  exhausted := nofun

/-! ## The mask -/

/-- **Blame is always right.** Let the schema have a type for each field. Whatever hooks are set and
    whatever they catch, a computation that ends in an error of the query blames the node that the
    error is about, and what the error says is so. And every selection that is looked at is read at
    a type that exists. -/
theorem maskPaths_blames_rightly {schema : Schema} (hclosed : schema.FieldTypesExist)
    (fragments : FragmentTable) (hooks : Option Hooks) (type : Name) (roots : List RootNode) :
    let report := maskPaths type roots fragments schema hooks
    (∀ error blamed, report.outcome = .error (.mask error blamed) →
      error.Blames schema fragments type roots blamed) ∧
    ∀ v ∈ visitsOf report.events, (schema.type? v.frame.type).isSome := by
  intro report
  let env : Env := ⟨schema, fragments, hooks.getD .unset⟩
  have hI : Visit.Invariant env (Visit.Grounded schema fragments roots)
      (Failure.BlamesRightly schema fragments type roots) :=
    grounded_invariant hclosed type roots
  have hrun : Walk.Keeps env (Visit.Grounded schema fragments roots)
      (Failure.BlamesRightly schema fragments type roots) [] (Walk.mask env type roots) := by
    cases htype : schema.type? type with
    | none =>
        refine Walk.keeps_mask_of_unknown htype ?_ roots
        rintro _ _ ⟨⟩
        exact .root htype
    | some t =>
        refine hI.keeps_mask_of_known htype fun index root hroot position s hs => ?_
        exact ⟨wellPlaced_root hroot hs, by simp [htype]⟩
  exact ⟨fun error blamed hfailure => hrun.of_failure (·.blamesRightly) hfailure error blamed rfl,
    fun v hv => (hrun.visits v hv).current⟩

/-- A member that lacks a field, which the hook for members catches, and then a spread of a fragment
    on a type that does not exist. -/
theorem maskPaths_blames_rightly_of_caught :
    let schema : Schema :=
      ⟨[⟨"Query", .object [⟨"node", .named "Node", none⟩] [], none⟩,
        ⟨"Node", .interface [⟨"id", .named "ID", none⟩], none⟩,
        ⟨"User", .object [⟨"id", .named "ID", none⟩] ["Node"], none⟩]⟩
    let fragments : FragmentTable := .ofList [("Parts", ⟨"Nobody", [.leaf "id" none]⟩)]
    let hooks : Hooks := ⟨none, none, some NarrowingRule.guarded.hook⟩
    let roots : List RootNode :=
      [.operation [.branch "node" none [.fragment (some "User") [.leaf "name" none],
        .fragment none [.spread "Parts"]]]]
    let blamed : Address := .definition "Parts"
    schema.FieldTypesExist ∧
      (maskPaths "Query" roots fragments schema (some hooks)).outcome
        = .error (.mask (.unknownType "Nobody") (some blamed)) ∧
      (MaskError.unknownType "Nobody").Blames schema fragments "Query" roots (some blamed) := by
  intro schema fragments hooks roots blamed
  have hclosed : schema.FieldTypesExist := by decide +kernel
  have hfailure : (maskPaths "Query" roots fragments schema (some hooks)).outcome
      = .error (.mask (.unknownType "Nobody") (some blamed)) := by
    decide +kernel
  obtain ⟨hblames, -⟩ := maskPaths_blames_rightly hclosed fragments (some hooks) "Query" roots
  exact ⟨hclosed, hfailure, hblames _ _ hfailure⟩

end SelectionMask
