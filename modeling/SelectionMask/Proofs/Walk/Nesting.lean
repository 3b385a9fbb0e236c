import Mathlib.Data.List.Permutation
import SelectionMask.Proofs.Document.Nesting
import SelectionMask.Proofs.Walk.Visits

set_option autoImplicit false

/-! # Fragments nest properly, and only real cycles are reported

At any time of a computation the fragments being expanded nest as the table allows, and the
selection at hand stands in the innermost one. Each step keeps this (`Visit.WellPlaced.leads`), so
all visits of a run have it, whatever its hooks do and whichever errors they catch. A cycle is
reported at a spread of a fragment that is being expanded, and by then the definitions passed on the
way form one. -/

namespace SelectionMask

/-- What is being expanded nests as the table allows, and the selection stands inside it. -/
structure Visit.WellPlaced (fragments : FragmentTable) (roots : List RootNode) (v : Visit) :
    Prop where
  nests : fragments.Nests v.expanding
  inside : v.StandsInside fragments roots

/-- The failure, if it reports a cycle, blames a spread of a fragment inside its own expansion. -/
def Failure.BlamesCycle (fragments : FragmentTable) (roots : List RootNode) (f : Failure) : Prop :=
  ∀ name blamed, f = .mask (.fragmentCycle name) blamed →
    ∃ v : Visit, v.WellPlaced fragments roots ∧ v.selection = .spread name ∧
      name ∈ v.expanding ∧ blamed = some v.node

variable {env : Env} {fragments : FragmentTable} {roots : List RootNode} {v w : Visit}

/-! ## Steps -/

theorem Visit.WellPlaced.nests_concat (h : v.WellPlaced fragments roots) {name : Name}
    (hs : v.selection = .spread name) (hdefined : (fragments.find? name).isSome)
    (hfresh : name ∉ v.expanding) : fragments.Nests (v.expanding ++ [name]) :=
  h.nests.concat hdefined hfresh (h.inside.spreads hs)

/-- **Each step keeps the nesting.** Only a spread changes what is being expanded. -/
theorem Visit.WellPlaced.leads (h : v.WellPlaced env.fragments roots) (hleads : v.Leads env w) :
    w.WellPlaced env.fragments roots := by
  have hbelow : ∀ index s, v.selection.inside[index]? = some s →
      Selection.at? (v.node.origin.selections env.fragments roots) (v.node.steps ++ [index])
        = some s := by
    intro index s hs
    rw [Selection.at?_concat h.inside.found, hs]
  cases hleads with
  | branch _ _ _ hs => exact ⟨h.nests, h.inside.origin, hbelow _ _ hs⟩
  | fragment _ hs => exact ⟨h.nests, h.inside.origin, hbelow _ _ hs⟩
  | @spread _ _ names _ name definition index s hfind hfresh _ hs =>
      refine ⟨h.nests_concat rfl (by simp [hfind]) hfresh, ?_, ?_⟩
      · simp [Address.child, Address.definition]
      · -- From here on addresses count in the definition.
        change Selection.at? (((env.fragments.find? name).map Fragment.selections).getD [])
          [index] = some s
        rw [hfind]
        exact hs

theorem Visit.WellPlaced.blamesCycle (h : v.WellPlaced env.fragments roots) {failure : Failure}
    (hfails : v.Fails env failure) : failure.BlamesCycle env.fragments roots := by
  rintro name blamed rfl
  cases hfails with
  | offends hoffends =>
      cases hoffends with
      | cycle _ hmem => exact ⟨_, h, rfl, hmem, rfl⟩

theorem wellPlaced_invariant (env : Env) (roots : List RootNode) :
    Visit.Invariant env (Visit.WellPlaced env.fragments roots)
      (Failure.BlamesCycle env.fragments roots) where
  step := Visit.WellPlaced.leads
  exhausted := nofun

theorem wellPlaced_root {type : Name} {index : Nat} {root : RootNode}
    (hroot : roots[index]? = some root) {position : Nat} {s : Selection}
    (hs : root.selections[position]? = some s) :
    Visit.WellPlaced fragments roots
      ⟨⟨type, none⟩, [], (Address.root index).child position, s⟩ where
  nests := fragments.nests_nil
  inside := by
    refine ⟨⟨index, rfl⟩, ?_⟩
    change Selection.at? ((roots[index]?.map RootNode.selections).getD []) [position] = some s
    rw [hroot]
    exact hs

/-- Every visit of a computation is well placed, and it ends in no other cycles than those of its
    visits. -/
theorem Walk.keeps_wellPlaced (env : Env) (type : Name) (roots : List RootNode) :
    Walk.Keeps env (Visit.WellPlaced env.fragments roots)
      (Failure.BlamesCycle env.fragments roots) [] (Walk.mask env type roots) :=
  (wellPlaced_invariant env roots).keeps_mask (fun _ => nofun)
    fun _ _ hroot _ _ hs => wellPlaced_root hroot hs

/-! ## Cycles -/

/-- The fragment is defined, and through one or more spreads it comes back to itself. -/
def FragmentTable.IsCyclic (table : FragmentTable) (name : Name) : Prop :=
  (table.find? name).isSome ∧ Relation.TransGen table.Spreads name name

theorem FragmentTable.Acyclic.not_isCyclic {table : FragmentTable} (h : table.Acyclic)
    (name : Name) : ¬ table.IsCyclic name :=
  fun hcyclic => h name hcyclic.2

theorem Failure.BlamesCycle.isCyclic {name : Name} {blamed : Option Address}
    (h : Failure.BlamesCycle fragments roots (.mask (.fragmentCycle name) blamed)) :
    fragments.IsCyclic name := by
  obtain ⟨v, hv, hs, hmem, -⟩ := h name blamed rfl
  exact ⟨hv.nests.defined name hmem, hv.nests.transGen_spreads hmem (hv.inside.spreads hs)⟩

/-! ## The mask -/

/-- What the walk comes to from a visited selection. A hook may catch the failure later. -/
def Visit.outcome (env : Env) (v : Visit) : Except Failure (List String) :=
  ((Walk.pathsOf env (Walk.selections env) v.frame v.node v.selection).run v.expanding).outcome

/-- **Fragments nest properly, and only real cycles are reported.** Whenever a selection is looked
    at, the fragments being expanded are all different and defined, each after the first is spread
    in the definition of the one before, and the selection stands in the definition of the last one,
    or in a root node if there is none. What a spread puts last there nests with the others, and
    nothing else puts anything there. If the walk of a visited selection, or the whole computation,
    ends in a cycle of some fragment, it blames a spread of that fragment inside its own expansion,
    and the fragment is defined and comes back to itself through the table. So with an acyclic table
    no cycle is ever reported, not even to a hook that would catch it. -/
theorem maskPaths_nests_fragments (schema : Schema) (fragments : FragmentTable) (type : Name)
    (roots : List RootNode) (hooks : Option Hooks) :
    let env : Env := ⟨schema, fragments, hooks.getD .unset⟩
    let report := maskPaths type roots fragments schema hooks
    let occurs (outcome : Except Failure (List String)) :=
      outcome = report.outcome ∨ ∃ v ∈ visitsOf report.events, outcome = v.outcome env
    (∀ v ∈ visitsOf report.events, fragments.Nests v.expanding ∧ v.StandsInside fragments roots ∧
      ∀ name, v.selection = .spread name → (fragments.find? name).isSome →
        name ∉ v.expanding → fragments.Nests (v.expanding ++ [name])) ∧
    (∀ name blamed, occurs (.error (.mask (.fragmentCycle name) blamed)) →
      fragments.IsCyclic name ∧ ∃ v : Visit, fragments.Nests v.expanding ∧
        v.StandsInside fragments roots ∧ v.selection = .spread name ∧ name ∈ v.expanding ∧
        blamed = some v.node) ∧
    (fragments.Acyclic →
      ∀ name blamed, ¬ occurs (.error (.mask (.fragmentCycle name) blamed))) := by
  intro env report occurs
  have hI := wellPlaced_invariant env roots
  have hrun : Walk.Keeps env (Visit.WellPlaced fragments roots)
      (Failure.BlamesCycle fragments roots) [] (Walk.mask env type roots) :=
    Walk.keeps_wellPlaced env type roots
  have hvisits : ∀ v ∈ visitsOf report.events, v.WellPlaced fragments roots := hrun.visits
  -- A visited selection has what the walk keeps, so the walk from there keeps it as well.
  have hblames : ∀ failure, occurs (.error failure) → failure.BlamesCycle fragments roots := by
    rintro failure (hwhole | ⟨v, hv, hvisited⟩)
    · exact hrun.of_failure (·.blamesCycle) hwhole.symm
    · have hbelow := hI.keeps_pathsOf (Walk.restores_selections env) hI.below_selections
        (hvisits v hv)
      rcases hbelow.failure failure hvisited.symm with (hblames | hfails) | ⟨w, hw, hfails⟩
      · exact hblames
      · exact (hvisits v hv).blamesCycle hfails
      · exact (hbelow.visits w hw).blamesCycle hfails
  refine ⟨fun v hv => ?_, fun name blamed hcycle => ?_, fun hacyclic name blamed hcycle => ?_⟩
  · have hplaced := hvisits v hv
    exact ⟨hplaced.nests, hplaced.inside, fun name => hplaced.nests_concat⟩
  · have hfailure := hblames _ hcycle
    obtain ⟨v, hv, hs, hmem, hblamed⟩ := hfailure name blamed rfl
    exact ⟨hfailure.isCyclic, v, hv.nests, hv.inside, hs, hmem, hblamed⟩
  · exact hacyclic.not_isCyclic name (hblames _ hcycle).isCyclic

/-- A fragment that spreads itself inside a member of an abstract type, whose hook catches the
    error. It is spread once more beside that, which is no cycle. -/
theorem maskPaths_nests_fragments_of_caught :
    let schema : Schema :=
      ⟨[⟨"Query", .object [⟨"node", .named "Node", none⟩, ⟨"user", .named "User", none⟩] [], none⟩,
        ⟨"Node", .interface [⟨"id", .named "ID", none⟩], none⟩,
        ⟨"User", .object [⟨"id", .named "ID", none⟩, ⟨"node", .named "Node", none⟩] ["Node"],
          none⟩]⟩
    let fragments : FragmentTable :=
      .ofList [("Rest", ⟨"User", [.leaf "id" none,
        .branch "node" none [.fragment (some "User") [.spread "Rest"]]]⟩)]
    let hooks : Hooks := ⟨none, none, some NarrowingRule.guarded.hook⟩
    let roots : List RootNode :=
      [.operation [.branch "user" none [.spread "Rest", .spread "Rest"]]]
    let report := maskPaths "Query" roots fragments schema (some hooks)
    let v : Visit :=
      ⟨⟨"User", some ⟨"node", .named "Node", none⟩⟩, ["Rest"], ⟨.definition "Rest", [1, 0, 0]⟩,
        .spread "Rest"⟩
    report.outcome
        = .ok ["user.id", "user.node.!FragmentCycleError: Fragment Rest spreads itself"] ∧
      v ∈ visitsOf report.events ∧ fragments.Nests v.expanding ∧
      v.outcome ⟨schema, fragments, hooks⟩
        = .error (.mask (.fragmentCycle "Rest") (some ⟨.definition "Rest", [1, 0, 0]⟩)) ∧
      fragments.IsCyclic "Rest" := by
  intro schema fragments hooks roots report v
  have hfifth : (visitsOf report.events)[5]? = some v := by cbv
  have hv : v ∈ visitsOf report.events := List.mem_of_getElem? hfifth
  have houtcome : v.outcome ⟨schema, fragments, hooks⟩
      = .error (.mask (.fragmentCycle "Rest") (some ⟨.definition "Rest", [1, 0, 0]⟩)) := by
    decide +kernel
  have hmask : report.outcome
      = .ok ["user.id", "user.node.!FragmentCycleError: Fragment Rest spreads itself"] := by
    decide +kernel
  obtain ⟨hnests, hcycles, -⟩ :=
    maskPaths_nests_fragments schema fragments "Query" roots (some hooks)
  exact ⟨hmask, hv, (hnests v hv).1, houtcome, (hcycles "Rest" _ (.inr ⟨v, hv, houtcome.symm⟩)).1⟩

end SelectionMask
