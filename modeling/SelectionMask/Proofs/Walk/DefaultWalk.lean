import SelectionMask.Proofs.Document.Chains
import SelectionMask.Proofs.OrderedSet.FirstOccurrence
import SelectionMask.Proofs.Walk.Returns

set_option autoImplicit false

/-! # The walk without hooks

With no hook set, a field goes by its own name and a fragment is read in place or ignored. So what a
walk returns is the list of the paths of all chains from left to right; each step adds to it just
what `Chain` adds to the chains, and the induction is on the depth of the walk. A mask is the set of
that list. -/

namespace SelectionMask

namespace Walk

variable {schema : Schema} {fragments : FragmentTable} {descend : Descend} {names : List Name}
  {paths : List String}

/-! ## Chains enumerated -/

/-- Every deeper walk that returns has enumerated the chains of its selections. -/
def EnumeratesBelow (schema : Schema) (fragments : FragmentTable) : Descend → Prop :=
  Meets fun frame index ss paths =>
    Enumerates (AmongFrom (Chain schema fragments frame.type) index ss) paths

/-- The chains of one selection. -/
theorem enumerates_pathsOf (hd : descend.Restores)
    (henum : EnumeratesBelow schema fragments descend) {frame : Frame} {node : Address}
    {s : Selection}
    (h : (pathsOf ⟨schema, fragments, .unset⟩ descend frame node s).Returns names paths) :
    Enumerates (Chain schema fragments frame.type s) paths := by
  cases s with
  | leaf name aliasName =>
      rcases returns_field_unset_iff.1 h with ⟨hname, rfl⟩ | ⟨hname, definition, -, hpaths⟩
      · exact enumerates_nil fun place fields hchain => (chain_leaf_iff.1 hchain).1 hname
      · obtain rfl : [name] = paths := returns_pure_iff.1 hpaths
        refine (enumerates_leaf name).congr fun place fields => ?_
        simp [chain_leaf_iff, hname]
  | branch name aliasName below =>
      rcases returns_field_unset_iff.1 h with ⟨hname, rfl⟩ | ⟨hname, definition, hfield, hpaths⟩
      · exact enumerates_nil fun place fields hchain => (chain_branch_iff.1 hchain).1 hname
      · obtain ⟨found, hfound, rfl⟩ := (returns_pathsBelow_iff hd).1 hpaths
        have hbelow := (henum hfound).cons_field (fun _ _ => AmongFrom.fields_ne_nil) name
        rw [joinAll_singleton]
        refine hbelow.congr fun place fields => ?_
        simp [chain_branch_iff, hname, hfield]
  | fragment condition body =>
      obtain ⟨_, _, -, -, ⟨henters, hpaths⟩ | ⟨hskips, rfl⟩⟩ :=
        (returns_enterFragment_iff_of_plain rfl).1 h
      · refine (henum hpaths).congr fun place fields => ?_
        simp [chain_fragment_iff, henters]
      · exact enumerates_nil fun place fields hchain => hskips (chain_fragment_iff.1 hchain).1
  | spread fragment =>
      obtain ⟨definition, hfind, -, hpaths⟩ := returns_spread_iff.1 h
      -- What is being expanded has grown, but the chains do not depend on it.
      obtain ⟨_, _, -, -, ⟨henters, hpaths⟩ | ⟨hskips, rfl⟩⟩ :=
        (returns_enterFragment_iff_of_plain rfl).1 hpaths
      · refine (henum hpaths).congr fun place fields => ?_
        simp [chain_spread_iff, hfind, henters]
      · refine enumerates_nil fun place fields hchain => ?_
        obtain ⟨definition', hfind', henters, -⟩ := chain_spread_iff.1 hchain
        obtain rfl := Option.some.inj (hfind.symm.trans hfind')
        exact hskips henters
  | other kind => exact absurd h (not_returns_fail _ _)

theorem enumeratesBelow_selections :
    EnumeratesBelow schema fragments (selections ⟨schema, fragments, .unset⟩) := by
  refine meets_selections ?_ ?_
  · exact fun frame index => enumerates_amongFrom_nil _ _
  · intro descend hd henum frame node names index s rest found others hfound hothers
    exact (enumerates_pathsOf hd henum hfound).amongFrom_cons hothers

/-- The chains of root nodes in turn: their paths are added to what was found before. -/
theorem enumerates_mergeRoots {type : Name} {index : Nat} {roots : List RootNode}
    {found final : OrderedSet String}
    (h : (mergeRoots ⟨schema, fragments, .unset⟩ type index roots found).Returns names final) :
    ∃ paths, final = found.update paths ∧
      Enumerates (AmongFrom (NodeChain schema fragments type) index roots) paths := by
  induction roots generalizing index found with
  | nil =>
      obtain rfl := returns_mergeRoots_nil_iff.1 h
      exact ⟨[], rfl, enumerates_amongFrom_nil _ _⟩
  | cons root rest ih =>
      obtain ⟨paths, hpaths, hrest⟩ := returns_mergeRoots_cons_iff.1 h
      obtain ⟨others, rfl, hothers⟩ := ih hrest
      have hroot : Enumerates (NodeChain schema fragments type root) paths :=
        enumeratesBelow_selections hpaths
      refine ⟨paths ++ others, ?_, hroot.amongFrom_cons hothers⟩
      rw [OrderedSet.update_append]

end Walk

/-! ## The mask -/

/-- **A mask without hooks lists the chains of its query.** A path is in it exactly if it is the
    dotted form of a chain; no path is in it twice; and the paths stand in the order in which a
    walk from left to right and down first reaches them: some chain of a path stands to the left of
    all chains of any later path. -/
theorem maskPaths_lists_chains {schema : Schema} {fragments : FragmentTable} {type : Name}
    {roots : List RootNode} {paths : List String}
    (h : (maskPaths type roots fragments schema none).outcome = .ok paths) :
    (∀ path, path ∈ paths ↔ ∃ place fields, RootChain schema fragments type roots place fields ∧
      fields ≠ [] ∧ dotted fields = path) ∧
    paths.Nodup ∧
    paths.Pairwise fun path later =>
      ∃ place fields, RootChain schema fragments type roots place fields ∧ dotted fields = path ∧
        ∀ place' fields', RootChain schema fragments type roots place' fields' →
          dotted fields' = later → place < place' := by
  obtain ⟨_, -, final, hfinal, rfl⟩ := Walk.returns_mask_iff.1 h
  obtain ⟨_, rfl, found, rfl, hplaces, hfound⟩ := Walk.enumerates_mergeRoots hfinal
  -- The mask is the set of the enumerated paths, which keeps the first occurrence of each.
  change (∀ path, path ∈ OrderedSet.ofList _ ↔ _) ∧ _
  refine ⟨fun path => ?_, OrderedSet.nodup _, ?_⟩
  · rw [OrderedSet.mem_ofList, List.mem_map]
    constructor
    · rintro ⟨⟨place, fields⟩, hentry, rfl⟩
      have hchain := (hfound place fields).1 hentry
      exact ⟨place, fields, hchain, RootChain.fields_ne_nil hchain, rfl⟩
    · rintro ⟨place, fields, hchain, -, rfl⟩
      exact ⟨(place, fields), (hfound place fields).2 hchain, rfl⟩
  · refine (OrderedSet.pairwise_ofList_map _ hplaces).imp ?_
    rintro path later ⟨⟨place, fields⟩, hentry, hpath, hleft⟩
    refine ⟨place, fields, (hfound place fields).1 hentry, hpath, ?_⟩
    intro place' fields' hchain hlater
    exact hleft (place', fields') ((hfound place' fields').2 hchain) hlater

/-- A query with a fragment on an interface, a name of a type, an alias and a repeated path. -/
theorem maskPaths_lists_chains_of_query :
    let schema : Schema :=
      ⟨[⟨"Query", .object [⟨"user", .named "User", none⟩, ⟨"id", .named "ID", none⟩] [], none⟩,
        ⟨"User", .object [⟨"id", .named "ID", none⟩] ["Node"], none⟩,
        ⟨"Node", .interface [⟨"id", .named "ID", none⟩], none⟩]⟩
    let fragments : FragmentTable := .ofList [("Ids", ⟨"Node", [.leaf "id" none]⟩)]
    let roots : List RootNode :=
      [.operation [.branch "user" none [.spread "Ids", .leaf typenameField none],
        .fragment none [.leaf "id" (some "key"), .spread "Ids"]]]
    let paths := ["user.id", "id"]
    (maskPaths "Query" roots fragments schema none).outcome = .ok paths ∧
      (∀ path, path ∈ paths ↔ ∃ place fields,
        RootChain schema fragments "Query" roots place fields ∧ fields ≠ [] ∧
          dotted fields = path) :=
  ⟨rfl, (maskPaths_lists_chains rfl).1⟩

end SelectionMask
