import SelectionMask.Proofs.Document.Spreads
import SelectionMask.Proofs.Walk.Depth

set_option autoImplicit false

/-! # Named fragments mean their inlining

`FragmentTable.Inlines` says how selections read once each spread of a defined fragment is written
out as a fragment in place, in the selections and in the bodies put in. On an acyclic table each
list of root nodes has exactly one such inlining (`FragmentTable.exists_inlinesRoots_iff_eq`).

A walk of the inlined selections needs no table and expands nothing, a walk of the original ones
jumps through the table and keeps track of what it expands. They do the same but for the places
where it happens (`FragmentTable.Inlines.alike`): the fragments being expanded are never reached
again from the selections at hand, so the test for a cycle never finds one. -/

namespace SelectionMask

/-! ## Inlining -/

/-- The second selections are the first ones with each spread of a defined fragment written out as a
    fragment on its type. A spread of a fragment that is not defined stays. -/
inductive FragmentTable.Inlines (table : FragmentTable) : List Selection → List Selection → Prop
  | nil : Inlines table [] []
  | leaf {name : Name} {aliasName : Option String} {rest rest' : List Selection} :
      Inlines table rest rest' →
      Inlines table (.leaf name aliasName :: rest) (.leaf name aliasName :: rest')
  | branch {name : Name} {aliasName : Option String} {below below' rest rest' : List Selection} :
      Inlines table below below' → Inlines table rest rest' →
      Inlines table (.branch name aliasName below :: rest) (.branch name aliasName below' :: rest')
  | spread {name : Name} {definition : Fragment} {body rest rest' : List Selection} :
      table.find? name = some definition → Inlines table definition.selections body →
      Inlines table rest rest' →
      Inlines table (.spread name :: rest) (.fragment (some definition.condition) body :: rest')
  | undefined {name : Name} {rest rest' : List Selection} :
      table.find? name = none → Inlines table rest rest' →
      Inlines table (.spread name :: rest) (.spread name :: rest')
  | fragment {condition : Option Name} {below below' rest rest' : List Selection} :
      Inlines table below below' → Inlines table rest rest' →
      Inlines table (.fragment condition below :: rest) (.fragment condition below' :: rest')
  | other {kind : String} {rest rest' : List Selection} :
      Inlines table rest rest' → Inlines table (.other kind :: rest) (.other kind :: rest')

namespace FragmentTable

variable {table : FragmentTable} {names : List Name} {ss ts : List Selection}

theorem Inlines.unique (h : table.Inlines ss ts) {ts' : List Selection}
    (h' : table.Inlines ss ts') : ts = ts' := by
  induction h generalizing ts' with
  | nil => cases h'; rfl
  | leaf _ ih => cases h' with | leaf hrest => rw [ih hrest]
  | branch _ _ ihb ih => cases h' with | branch hbelow hrest => rw [ihb hbelow, ih hrest]
  | fragment _ _ ihb ih => cases h' with | fragment hbelow hrest => rw [ihb hbelow, ih hrest]
  | other _ ih => cases h' with | other hrest => rw [ih hrest]
  | undefined hnone _ ih =>
      cases h' with
      | undefined _ hrest => rw [ih hrest]
      | spread hsome _ _ => simp [hnone] at hsome
  | spread hsome _ _ ihb ih =>
      cases h' with
      | undefined hnone _ => simp [hsome] at hnone
      | spread hsome' hbody hrest =>
          obtain rfl := Option.some.inj (hsome.symm.trans hsome')
          rw [ihb hbody, ih hrest]

/-- Writing out comes to an end: what it meets next has a smaller bound, as for a walk. -/
theorem exists_inlines (hacyclic : table.Acyclic) (bound : Nat)
    (hbound : Walk.depthBound table names ss ≤ bound) (h : table.Unreached names ss) :
    ∃ ts, table.Inlines ss ts := by
  induction bound generalizing names ss with
  | zero =>
      have hpos := Walk.depthBound_pos table names ss
      omega
  | succ bound ih =>
      -- All selections of the list are met with the bound of the whole list.
      suffices hrest : ∀ rest, rest ⊆ ss → table.Unreached names rest →
          ∃ ts, table.Inlines rest ts from hrest ss (List.Subset.refl ss) h
      intro rest hsub hrest
      induction rest with
      | nil => exact ⟨[], .nil⟩
      | cons s rest ihrest =>
          obtain ⟨hs, hsub⟩ := List.cons_subset.1 hsub
          obtain ⟨rest', hrest'⟩ := ihrest hsub (hrest.mono (List.subset_append_right _ _))
          cases s with
          | leaf name aliasName => exact ⟨_, .leaf hrest'⟩
          | branch name aliasName below =>
              have hlt : Walk.depthBound table names below < Walk.depthBound table names ss :=
                Walk.depthBound_branch_lt hs
              obtain ⟨below', hbelow⟩ := ih (by omega) (hrest.mono (List.subset_append_left _ _))
              exact ⟨_, .branch hbelow hrest'⟩
          | fragment condition below =>
              have hlt : Walk.depthBound table names below < Walk.depthBound table names ss :=
                Walk.depthBound_fragment_lt hs
              obtain ⟨below', hbelow⟩ := ih (by omega) (hrest.mono (List.subset_append_left _ _))
              exact ⟨_, .fragment hbelow hrest'⟩
          | other kind => exact ⟨_, .other hrest'⟩
          | spread name =>
              have hname := Selection.mem_spreadNamesOf_spread name rest
              cases hfind : table.find? name with
              | none => exact ⟨_, .undefined hfind hrest'⟩
              | some definition =>
                  have hlt : Walk.depthBound table (names ++ [name]) definition.selections
                      < Walk.depthBound table names ss :=
                    Walk.depthBound_definition_lt hfind (hrest.notMem hname)
                  obtain ⟨body, hbody⟩ := ih (by omega) (hrest.definition hacyclic hname hfind)
                  exact ⟨_, .spread hfind hbody hrest'⟩

end FragmentTable

/-! ## Runs apart from places -/

/-- The failure without the node that it blames. -/
def Failure.unplaced : Failure → Failure
  | mask error _ => mask error none
  | failure => failure

theorem Failure.maskError?_unplaced (f : Failure) : f.unplaced.maskError? = f.maskError? := by
  cases f <;> rfl

/-- The event without the node that it happens at. -/
def HookEvent.unplaced : HookEvent → HookEvent :=
  atNode .single

theorem HookEvent.unplaced_atNode (node : Address) (event : HookEvent) :
    (event.atNode node).unplaced = event.unplaced := by
  cases event <;> rfl

namespace Comparison

/-- The same but for the nodes: the same values or failures, hook calls and answers, and notes. -/
def unplaced : Comparison where
  failure f f' := f.unplaced = f'.unplaced
  events es es' :=
    (traceOf es).map HookEvent.unplaced = (traceOf es').map HookEvent.unplaced
      ∧ logOf es = logOf es'
  failure_refl _ := rfl
  events_refl _ := ⟨rfl, rfl⟩
  events_append h h' := by
    simp only [traceOf_append, logOf_append, List.map_append, h.1, h.2, h'.1, h'.2, and_self]
  maskError?_eq h := by
    rw [← Failure.maskError?_unplaced, h, Failure.maskError?_unplaced]

theorem unplaced_samePlace (node node' : Address) : unplaced.SamePlace node node' where
  blamed _ := rfl
  hook event := by
    refine ⟨?_, rfl⟩
    change [(event.atNode node).unplaced] = [(event.atNode node').unplaced]
    rw [HookEvent.unplaced_atNode, HookEvent.unplaced_atNode]

end Comparison

/-! ## Walking an inlining -/

namespace FragmentTable

open Walk

variable {table : FragmentTable} {names : List Name} {ss ts : List Selection}

/-- **A walk through an acyclic table is a walk of the inlining.** The induction is on the inlining;
    what carries it is that the fragments being expanded are out of reach of the selections. -/
theorem Inlines.alike (schema : Schema) (hooks : Hooks) (hacyclic : table.Acyclic)
    (h : table.Inlines ss ts) (hunreached : table.Unreached names ss) (names' : List Name)
    (frame : Frame) (node node' : Address) (index index' : Nat) :
    Alike .unplaced names names'
      (selectionsFrom ⟨schema, table, hooks⟩ (selections ⟨schema, table, hooks⟩) frame node index
        ss)
      (selectionsFrom ⟨schema, ∅, hooks⟩ (selections ⟨schema, ∅, hooks⟩) frame node' index'
        ts) := by
  have hd := restores_selections ⟨schema, table, hooks⟩
  have hd' := restores_selections ⟨schema, ∅, hooks⟩
  have hp := Comparison.unplaced_samePlace
  induction h generalizing names names' frame node node' index index' with
  | nil => exact alike_pure _
  | leaf _ ih =>
      refine alike_selectionsFrom_cons hd hd' ⟨rfl, rfl⟩ ?_ (ih hunreached _ _ _ _ _ _)
      exact alike_field (hp _ _) hd hd' _ _ _ fun _ _ => alike_pure _
  | branch _ _ ihbelow ih =>
      refine alike_selectionsFrom_cons hd hd' ⟨rfl, rfl⟩ ?_
        (ih (hunreached.mono (List.subset_append_right _ _)) _ _ _ _ _ _)
      refine alike_field (hp _ _) hd hd' _ _ _ fun definition found => ?_
      refine alike_pathsBelow ?_ hd hd' found
      rw [selections_eq, selections_eq]
      exact ihbelow (hunreached.mono (List.subset_append_left _ _)) _ _ _ _ _ _
  | fragment _ _ ihbelow ih =>
      refine alike_selectionsFrom_cons hd hd' ⟨rfl, rfl⟩ ?_
        (ih (hunreached.mono (List.subset_append_right _ _)) _ _ _ _ _ _)
      refine alike_enterFragment (hp _ _) hd hd' (fun inner => ?_) frame _
      rw [selections_eq, selections_eq]
      exact ihbelow (hunreached.mono (List.subset_append_left _ _)) _ _ _ _ _ _
  | other _ ih =>
      refine alike_selectionsFrom_cons hd hd' ⟨rfl, rfl⟩ ?_ (ih hunreached _ _ _ _ _ _)
      exact alike_fail rfl
  | undefined hnone _ ih =>
      refine alike_selectionsFrom_cons hd hd' ⟨rfl, rfl⟩ ?_
        (ih (hunreached.mono (List.subset_append_right _ _)) _ _ _ _ _ _)
      rw [pathsOf, pathsOf, spread_of_undefined hnone, spread_of_undefined (find?_empty _)]
      exact alike_fail rfl
  | @spread name _ _ rest _ hfind _ _ ihbody ih =>
      have hname := Selection.mem_spreadNamesOf_spread name rest
      refine alike_selectionsFrom_cons hd hd' ⟨rfl, rfl⟩ ?_
        (ih (hunreached.mono (List.subset_append_right _ _)) _ _ _ _ _ _)
      -- The fragment is fresh, so its definition is entered just like the body put in for it.
      refine Alike.congr (run_spread_of_notMem hfind (hunreached.notMem hname) _ _ _) rfl
        (Alike.within_left ?_)
      refine alike_enterFragment (hp _ _) hd hd' (fun inner => ?_) frame _
      rw [selections_eq, selections_eq]
      exact ihbody (hunreached.definition hacyclic hname hfind) _ _ _ _ _ _

end FragmentTable

/-! ## Whole computations -/

/-- The same kind of node with other selections. -/
def RootNode.withSelections (root : RootNode) (ss : List Selection) : RootNode :=
  match root with
  | field name aliasName _ => field name aliasName ss
  | fragment condition _ => fragment condition ss
  | definition name condition _ => definition name condition ss
  | operation _ => operation ss

@[simp] theorem RootNode.selections_withSelections (root : RootNode) (ss : List Selection) :
    (root.withSelections ss).selections = ss := by
  cases root <;> rfl

/-- The second node is the first one with its selections inlined. -/
def RootNode.Inlines (table : FragmentTable) (root root' : RootNode) : Prop :=
  ∃ ss, table.Inlines root.selections ss ∧ root' = root.withSelections ss

/-- The second nodes are the first ones with their selections inlined. -/
def FragmentTable.InlinesRoots (table : FragmentTable) (roots roots' : List RootNode) : Prop :=
  List.Forall₂ (RootNode.Inlines table) roots roots'

namespace FragmentTable

open Walk

variable {table : FragmentTable}

/-- With an acyclic table, root nodes have exactly one inlining. -/
theorem exists_inlinesRoots_iff_eq (hacyclic : table.Acyclic) (roots : List RootNode) :
    ∃ inlined, ∀ other, table.InlinesRoots roots other ↔ other = inlined := by
  induction roots with
  | nil => exact ⟨[], fun _ => List.forall₂_nil_left_iff⟩
  | cons root rest ih =>
      obtain ⟨inlined, hinlined⟩ := ih
      obtain ⟨ss, hss⟩ := exists_inlines hacyclic _ (Nat.le_refl _)
        (table.unreached_nil root.selections)
      refine ⟨root.withSelections ss :: inlined, fun other => ?_⟩
      constructor
      · intro h
        obtain ⟨root', rest', ⟨ts, hts, rfl⟩, hrest, rfl⟩ := List.forall₂_cons_left_iff.1 h
        rw [hss.unique hts, (hinlined rest').1 hrest]
      · rintro rfl
        exact .cons ⟨ss, hss, rfl⟩ ((hinlined inlined).2 rfl)

theorem InlinesRoots.alikeRoots (schema : Schema) (hooks : Hooks) (hacyclic : table.Acyclic)
    {roots inlined : List RootNode} (h : table.InlinesRoots roots inlined) (type : Name) :
    AlikeRoots .unplaced [] [] ⟨schema, table, hooks⟩ ⟨schema, ∅, hooks⟩ type roots inlined := by
  refine List.Forall₂.imp ?_ h
  rintro root _ ⟨ss, hss, rfl⟩ index
  rw [RootNode.selections_withSelections, selections_eq, selections_eq]
  exact hss.alike schema hooks hacyclic (table.unreached_nil _) [] _ _ _ 0 0

/-- **Named fragments mean their inlining.** With an acyclic table, the root nodes have one
    inlining, in which each spread of a defined fragment, also in the bodies put in, is a fragment
    on its type with its selections. Computed without any table, its mask is the same list of paths,
    or the same failure but for the node it blames, after the same hook calls and answers but for
    their nodes and with the same notes. So nobody can tell which fragments are being expanded. -/
theorem maskPaths_inlined (hacyclic : table.Acyclic) (schema : Schema) (hooks : Option Hooks)
    (type : Name) (roots : List RootNode) :
    ∃ inlined, (∀ other, table.InlinesRoots roots other ↔ other = inlined) ∧
      let through := maskPaths type roots table schema hooks
      let plain := maskPaths type inlined ∅ schema hooks
      plain.outcome.mapError Failure.unplaced = through.outcome.mapError Failure.unplaced ∧
        (traceOf plain.events).map HookEvent.unplaced
          = (traceOf through.events).map HookEvent.unplaced ∧
        logOf plain.events = logOf through.events := by
  obtain ⟨inlined, hinlined⟩ := exists_inlinesRoots_iff_eq hacyclic roots
  refine ⟨inlined, hinlined, ?_⟩
  intro through plain
  have hroots : AlikeRoots .unplaced [] [] ⟨schema, table, hooks.getD .unset⟩
      ⟨schema, ∅, hooks.getD .unset⟩ type roots inlined :=
    ((hinlined inlined).2 rfl).alikeRoots schema _ hacyclic type
  obtain ⟨ho, he⟩ := alike_mask hroots rfl
  refine ⟨?_, he.1.symm, he.2.symm⟩
  change Comparison.outcome _ through.outcome plain.outcome at ho
  rcases hthrough : through.outcome with f | paths <;>
    rcases hplain : plain.outcome with f' | paths' <;> rw [hthrough, hplain] at ho
  · exact congrArg Except.error ho.symm
  · exact ho.elim
  · exact ho.elim
  · exact congrArg Except.ok ho.symm

/-- A table in which one fragment spreads another, and a query that spreads both below a field of
    abstract type. The hook is asked for each member, and catches that one of them lacks a field. -/
theorem maskPaths_inlined_of_nested :
    let table : FragmentTable :=
      .ofList [("Parts", ⟨"Node", [.fragment (some "User") [.spread "Names"],
          .fragment (some "Photo") [.leaf "name" none]]⟩),
        ("Names", ⟨"User", [.leaf "id" none, .leaf "name" none]⟩)]
    let schema : Schema :=
      ⟨[⟨"Query", .object [⟨"node", .named "Node", none⟩] [], none⟩,
        ⟨"Node", .interface [⟨"id", .named "ID", none⟩], none⟩,
        ⟨"Photo", .object [⟨"id", .named "ID", none⟩] ["Node"], none⟩,
        ⟨"User", .object [⟨"id", .named "ID", none⟩, ⟨"name", .named "ID", none⟩] ["Node"], none⟩]⟩
    let hooks : Hooks := ⟨none, none, some NarrowingRule.guarded.hook⟩
    let roots : List RootNode :=
      [.operation [.branch "node" none [.spread "Parts", .spread "Names"]]]
    let names : Selection := .fragment (some "User") [.leaf "id" none, .leaf "name" none]
    let inlined : List RootNode :=
      [.operation [.branch "node" none
        [.fragment (some "Node") [.fragment (some "User") [names],
          .fragment (some "Photo") [.leaf "name" none]], names]]]
    let through := maskPaths "Query" roots table schema (some hooks)
    let plain := maskPaths "Query" inlined ∅ schema (some hooks)
    let field : FieldDef := ⟨"node", .named "Node", none⟩
    let asked (member : Name) : HookEvent := .narrowingAsked ⟨"Node", member, none, field⟩ .single
    let answered : HookEvent := .membersAnswered .single ["id", "name"]
    table.Acyclic ∧ (∀ other, table.InlinesRoots roots other ↔ other = inlined) ∧
      through.outcome
        = .ok ["node.id", "node.name", "node.!UnknownFieldError: Photo.name is not found"] ∧
      plain.outcome.mapError Failure.unplaced = through.outcome.mapError Failure.unplaced ∧
      (traceOf through.events).map HookEvent.unplaced
        = [asked "User", answered, asked "Photo", asked "User", answered] ∧
      (traceOf plain.events).map HookEvent.unplaced
        = (traceOf through.events).map HookEvent.unplaced ∧
      logOf plain.events = logOf through.events := by
  intro table schema hooks roots names inlined through plain field asked answered
  have hacyclic : table.Acyclic :=
    acyclic_of_rank (fun name => if name = "Parts" then 1 else 0) (by decide +kernel)
  have hfind : table.find? "Names" = some ⟨"User", [.leaf "id" none, .leaf "name" none]⟩ := rfl
  have hnames : table.Inlines [.spread "Names"] [names] := .spread hfind (.leaf (.leaf .nil)) .nil
  have hparts : table.Inlines [.fragment (some "User") [.spread "Names"],
        .fragment (some "Photo") [.leaf "name" none]]
      [.fragment (some "User") [names], .fragment (some "Photo") [.leaf "name" none]] :=
    .fragment hnames (.fragment (.leaf .nil) .nil)
  have hroots : table.InlinesRoots roots inlined :=
    .cons ⟨_, .branch (.spread rfl hparts hnames) .nil, rfl⟩ .nil
  obtain ⟨other, hunique, houtcome, htrace, hlog⟩ :=
    maskPaths_inlined hacyclic schema (some hooks) "Query" roots
  obtain rfl : inlined = other := (hunique inlined).1 hroots
  exact ⟨hacyclic, hunique, by decide +kernel, houtcome, by decide +kernel, htrace, hlog⟩

end FragmentTable

end SelectionMask
