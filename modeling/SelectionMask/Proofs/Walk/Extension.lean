import SelectionMask.Proofs.Schema.Extension
import SelectionMask.Proofs.Walk.Mirrors

set_option autoImplicit false

/-! # Larger schemas and more fragments

A walk that succeeds has found all that it looked up. In a larger schema and with more fragments it
finds the same, so it does the same. The other way round, `Report.lookups` are the look-ups of a
whole computation, and a computation does the same in any smaller environment that still has what
they find. Nothing of this depends on what a walk does not find, except where a hook catches the
error: it may then go on to a success that a larger schema does not repeat. -/

namespace SelectionMask

/-- Every definition is kept in the larger table. -/
def FragmentTable.Extends (more table : FragmentTable) : Prop :=
  ∀ name f, table.find? name = some f → more.find? name = some f

theorem FragmentTable.extends_insert {table : FragmentTable} {name : Name}
    (hname : table.find? name = none) (f : Fragment) : (table.insert name f).Extends table := by
  intro other g hother
  have hne : name ≠ other := by
    rintro rfl
    simp [hname] at hother
  rw [find?_insert, if_neg hne, hother]

/-- An environment with the same hooks, a larger schema and more fragments. -/
structure Env.Extends (larger env : Env) : Prop where
  schema : larger.schema.Extends env.schema
  fragments : larger.fragments.Extends env.fragments
  hooks : larger.hooks = env.hooks

/-- What a computation looks up: the type that it starts at, and what its visits look up. -/
def Report.lookups (type : Name) (fragments : FragmentTable) (r : Report) : List Lookup :=
  .type type :: (visitsOf r.events).flatMap (Visit.lookups fragments)

theorem Schema.Extends.outline? {larger s : Schema} (h : larger.Extends s) {name : Name}
    (hname : (s.type? name).isSome) : larger.outline? name = s.outline? name := by
  obtain ⟨t, htype⟩ := Option.isSome_iff_exists.1 hname
  obtain ⟨t', hfound, hkept⟩ := h name t htype
  simp [Schema.outline?, htype, hfound, NamedType.outline, hkept.isAbstract, hkept.metadata]

namespace Env.Extends

variable {larger env : Env} (h : larger.Extends env) {hidden : Address → Prop} {l : Lookup}
include h

/-- What is found comes out the same in both environments, whichever of them comes first. -/
theorem agrees (hl : env.Has l) : l.Agrees hidden env larger ∧ l.Agrees hidden larger env := by
  cases l with
  | type name =>
      have hsame := h.schema.outline? hl
      exact ⟨hsame, hsame.symm⟩
  | field owner name =>
      obtain ⟨definition, hfound⟩ := hl
      have hsame := (h.schema.fieldNamed hfound).trans hfound.symm
      exact ⟨hsame, hsame.symm⟩
  | fragment name =>
      obtain ⟨definition, hfound⟩ := Option.isSome_iff_exists.1 hl
      have hrel : Option.Rel (Fragment.SameOutside hidden name) (some definition)
          (some definition) := .some (.refl hidden name definition)
      simp only [Lookup.Agrees, hfound, h.fragments name definition hfound]
      exact ⟨hrel, hrel⟩

/-- A walk that does not fail, and in which no failure is caught, finds all that it looks up. -/
theorem mirrors (hcatch : env.hooks.NeverCatch) :
    env.Mirrors (fun _ => False) (fun _ => True) (fun _ => False) larger where
  hooks := h.hooks
  skipped _ := False.elim
  agrees _ _ hfound := (h.agrees (hfound.resolve_right fun hfails => hfails.elim fun _ => id)).1
  catches := .inr hcatch

/-- A walk of the larger environment, all of whose look-ups find something in the smaller one. -/
theorem mirrors_back : larger.Mirrors (fun _ => False)
    (fun v => ∀ l ∈ v.lookups larger.fragments, env.Has l) (fun _ => True) env where
  hooks := h.hooks.symm
  skipped _ := False.elim
  agrees hv hl _ := (h.agrees (hv _ hl)).2
  catches := .inl fun _ _ => trivial

/-- A computation that succeeds does the same in the larger environment. -/
theorem sameObserved {type : Name} {roots : List RootNode} (hcatch : env.hooks.NeverCatch)
    {paths : List String} (hpaths : (env.mask type roots).outcome = .ok paths) :
    (env.mask type roots).SameObserved (larger.mask type roots) := by
  have hfails : ∀ failure, (env.mask type roots).outcome ≠ .error failure := by simp [hpaths]
  refine (h.mirrors hcatch).sameObserved (.refl _ 0 roots) ?_ (fun _ _ => trivial) hfails
  intro hnone
  refine h.schema.outline? ?_
  cases htype : env.schema.type? type with
  | none => exact (hnone htype).elim
  | some t => rfl

/-- A computation does the same in a smaller environment that has all that it looks up. -/
theorem sameObserved_back {type : Name} {roots : List RootNode}
    (hused : ∀ l ∈ (larger.mask type roots).lookups type larger.fragments, env.Has l) :
    (larger.mask type roots).SameObserved (env.mask type roots) := by
  obtain ⟨htype, hvisits⟩ := List.forall_mem_cons.1 hused
  refine h.mirrors_back.sameObserved (.refl _ 0 roots) (fun _ => ?_) ?_ fun _ _ => trivial
  · exact (h.schema.outline? htype).symm
  · exact fun v hv l hl => hvisits l (List.mem_flatMap_of_mem hv hl)

end Env.Extends

/-- **A success is stable under extension.** Take a schema and a table of fragments, and a larger
    schema and a larger table: all types, fields and definitions are kept, and there may be more of
    them. If a computation succeeds with the first two and no hook catches errors, it comes to the
    same paths with the larger ones, after the same hook calls and answers and with the same log.
    Read backwards, a computation with the larger ones comes to the same with the smaller ones as
    soon as these still have each type, field and fragment that it looks up: what a run does not use
    can be deleted. -/
theorem maskPaths_extends {schema larger : Schema} (hschema : larger.Extends schema)
    {fragments more : FragmentTable} (hfragments : more.Extends fragments)
    (hooks : Option Hooks) (type : Name) (roots : List RootNode) :
    let report := maskPaths type roots fragments schema hooks
    let report' := maskPaths type roots more larger hooks
    ((hooks.getD .unset).NeverCatch → ∀ paths, report.outcome = .ok paths →
      report'.outcome = .ok paths ∧ report.SameObserved report') ∧
    ((∀ l ∈ report'.lookups type more, Env.Has ⟨schema, fragments, hooks.getD .unset⟩ l) →
      report'.SameObserved report) := by
  intro report report'
  have hextends : Env.Extends ⟨larger, more, hooks.getD .unset⟩
      ⟨schema, fragments, hooks.getD .unset⟩ := ⟨hschema, hfragments, rfl⟩
  refine ⟨fun hcatch paths hpaths => ?_, hextends.sameObserved_back⟩
  have hsame : report.SameObserved report' := hextends.sameObserved hcatch hpaths
  exact ⟨hsame.outcome.trans hpaths, hsame⟩

/-- A larger schema with another type and another field, and with one more fragment. An ignored
    fragment still needs its type. -/
theorem maskPaths_extends_of_query :
    let query : NamedType := ⟨"Query", .object [⟨"node", .named "Node", none⟩] [], none⟩
    let node : NamedType := ⟨"Node", .interface [], none⟩
    let schema : Schema := ⟨[query, node, ⟨"User", .object [⟨"id", .named "ID", none⟩] [], none⟩]⟩
    let larger : Schema :=
      ⟨[⟨"Photo", .object [⟨"size", .named "Int", none⟩] [], none⟩, query, node,
        ⟨"User", .object [⟨"photo", .named "Photo", none⟩, ⟨"id", .named "ID", none⟩] [], none⟩]⟩
    let fragments : FragmentTable :=
      .ofList [("Parts", ⟨"User", [.leaf "id" none, .fragment (some "Query") []]⟩)]
    let more : FragmentTable := fragments.insert "Photos" ⟨"Photo", [.leaf "size" none]⟩
    let hooks : Hooks := HookRules.hooks ⟨none, none, some (.segments ⟨[], .concrete⟩)⟩
    let roots : List RootNode := [.operation [.branch "node" none [.spread "Parts"]]]
    let report := maskPaths "Query" roots fragments schema (some hooks)
    let report' := maskPaths "Query" roots more larger (some hooks)
    larger.Extends schema ∧ more.Extends fragments ∧ hooks.NeverCatch ∧
      report.outcome = .ok ["node.User.id"] ∧
      (∀ l ∈ report'.lookups "Query" more, Env.Has ⟨schema, fragments, hooks⟩ l) ∧
      report'.outcome = .ok ["node.User.id"] ∧
      report.SameObserved report' ∧ report'.SameObserved report := by
  intro query node schema larger fragments more hooks roots report report'
  have hschema : larger.Extends schema := by decide +kernel
  have hfragments : more.Extends fragments := FragmentTable.extends_insert rfl _
  have hcatch : hooks.NeverCatch := HookRules.neverCatch _ (by simp) (by simp)
  have hpaths : report.outcome = .ok ["node.User.id"] := by decide +kernel
  have hused : ∀ l ∈ report'.lookups "Query" more, Env.Has ⟨schema, fragments, hooks⟩ l := by
    decide +kernel
  obtain ⟨hforward, hback⟩ := maskPaths_extends hschema hfragments (some hooks) "Query" roots
  obtain ⟨hpaths', hsame⟩ := hforward hcatch _ hpaths
  exact ⟨hschema, hfragments, hcatch, hpaths, hused, hpaths', hsame, hback hused⟩

end SelectionMask
