import SelectionMask.Proofs.Walk.Depth
import SelectionMask.Proofs.Walk.Trails

set_option autoImplicit false

/-! # A query rebuilt from its mask

A path of a mask names fields that can be followed through the schema. So it can be written as a
query again, each field in the selection set of the one before, and the mask of all these fields is
the mask that they were taken from. Fragments, aliases and repetitions are gone by then, and no path
depends on them. -/

namespace SelectionMask

/-- The fields as selections, each in the selection set of the one before. The last one has no
    selection set. -/
def nestedFields : List Name → List Selection
  | [] => []
  | [field] => [.leaf field none]
  | field :: next :: rest => [.branch field none (nestedFields (next :: rest))]

/-- The selections of the paths in turn. -/
def rebuiltSelections (paths : List String) : List Selection :=
  paths.flatMap fun path => nestedFields (segments path)

namespace Walk

variable {schema : Schema} {fragments : FragmentTable} {names : List Name}

/-- Fields that can be followed give one path, the way through all of them. -/
theorem returns_nestedFields {type : Name} {fields : List Name} (hne : fields ≠ [])
    (h : schema.Follows type fields) (enclosing : Option FieldDef) (node : Address) (index : Nat) :
    (selectionsFrom ⟨schema, fragments, .unset⟩ (selections ⟨schema, fragments, .unset⟩)
      ⟨type, enclosing⟩ node index (nestedFields fields)).Returns names [dotted fields] := by
  have hd := restores_selections ⟨schema, fragments, .unset⟩
  induction h generalizing enclosing node index with
  | nil => exact absurd rfl hne
  | @cons type field definition rest hname hfield _ _ ih =>
      cases rest with
      | nil =>
          have hleaf : (pathsOf ⟨schema, fragments, .unset⟩ (selections ⟨schema, fragments, .unset⟩)
              ⟨type, enclosing⟩ (node.child index) (.leaf field none)).Returns names [field] :=
            returns_field_unset_iff.2 (.inr ⟨hname, definition, hfield, returns_pure_iff.2 rfl⟩)
          rw [dotted_singleton]
          exact (returns_selectionsFrom_cons_iff hd).2
            ⟨[field], [], hleaf, returns_selectionsFrom_nil_iff.2 rfl, rfl⟩
      | cons next rest =>
          -- The walk below the field starts anew, in the place of the field.
          have hbelow : (selections ⟨schema, fragments, .unset⟩
              ⟨definition.namedType, some definition⟩ (node.child index)
              (nestedFields (next :: rest))).Returns names [dotted (next :: rest)] := by
            rw [selections_eq]
            exact ih (by simp) (some definition) (node.child index) 0
          have hbranch : (pathsOf ⟨schema, fragments, .unset⟩
              (selections ⟨schema, fragments, .unset⟩) ⟨type, enclosing⟩ (node.child index)
              (.branch field none (nestedFields (next :: rest)))).Returns names
                [dotted (field :: next :: rest)] := by
            refine returns_field_unset_iff.2 (.inr ⟨hname, definition, hfield, ?_⟩)
            refine (returns_pathsBelow_iff hd).2 ⟨[dotted (next :: rest)], hbelow, ?_⟩
            rw [joinAll_singleton, List.map_singleton]
            exact congrArg List.singleton (dotted_cons (List.cons_ne_nil next rest)).symm
          exact (returns_selectionsFrom_cons_iff hd).2
            ⟨_, [], hbranch, returns_selectionsFrom_nil_iff.2 rfl, rfl⟩

/-- The selections rebuilt from paths give these paths again. -/
theorem returns_rebuiltSelections {type : Name} {paths : List String}
    (h : ∀ path ∈ paths, schema.Follows type (segments path) ∧ dotted (segments path) = path)
    (enclosing : Option FieldDef) (node : Address) (index : Nat) :
    (selectionsFrom ⟨schema, fragments, .unset⟩ (selections ⟨schema, fragments, .unset⟩)
      ⟨type, enclosing⟩ node index (rebuiltSelections paths)).Returns names paths := by
  have hd := restores_selections ⟨schema, fragments, .unset⟩
  induction paths generalizing index with
  | nil => exact returns_selectionsFrom_nil_iff.2 rfl
  | cons path rest ih =>
      obtain ⟨⟨hfollows, hpath⟩, hrest⟩ := List.forall_mem_cons.1 h
      have hfirst : (selectionsFrom ⟨schema, fragments, .unset⟩
          (selections ⟨schema, fragments, .unset⟩) ⟨type, enclosing⟩ node index
          (nestedFields (segments path))).Returns names [dotted (segments path)] :=
        returns_nestedFields (segments_ne_nil path) hfollows enclosing node index
      rw [hpath] at hfirst
      exact (returns_selectionsFrom_append_iff hd).2
        ⟨[path], rest, hfirst, ih hrest _, rfl⟩

end Walk

/-! ## The mask -/

/-- **Rebuilding a query from its mask gives the mask back.** Every path of a mask without hooks, in
    a schema whose fields have no dots in their names, is its segments with dots between them, and
    these can be followed through the schema from the type on. And a single node that selects, for
    each path in order, these fields inside each other has the very same mask, without any
    fragments. -/
theorem maskPaths_rebuilt {schema : Schema} {fragments : FragmentTable} {type : Name}
    {roots : List RootNode} {paths : List String} (hdots : schema.FieldsDotFree)
    (h : (maskPaths type roots fragments schema none).outcome = .ok paths) :
    (∀ path ∈ paths, schema.Follows type (segments path) ∧ dotted (segments path) = path) ∧
    ∀ root : RootNode, root.selections = rebuiltSelections paths →
      (maskPaths type [root] ∅ schema none).outcome = .ok paths := by
  have htrails : ListsTrails schema (fun _ _ => True) type paths :=
    maskPaths_trails h fun _ _ _ _ _ _ _ _ _ => trivial
  have hpaths : ∀ path ∈ paths,
      schema.Follows type (segments path) ∧ dotted (segments path) = path := by
    intro path hpath
    obtain ⟨fields, hne, htrail, rfl⟩ := htrails path hpath
    rw [segments_dotted hne (htrail.dotFree hdots)]
    exact ⟨htrail, rfl⟩
  refine ⟨hpaths, fun root hroot => ?_⟩
  obtain ⟨htype, found, -, rfl⟩ := maskPaths_eq_ok_iff.1 h
  have hrebuilt : (Walk.rootPaths ⟨schema, ∅, .unset⟩ type 0 [root]).Returns []
      found.eraseDups := by
    rw [Walk.Returns, Walk.outcome_rootPaths_singleton, hroot, Walk.selections_eq]
    exact Walk.returns_rebuiltSelections hpaths none (.root 0) 0
  -- The paths were different from each other already, so none of them is erased.
  have honce : found.eraseDups.eraseDups = found.eraseDups := by
    simpa using OrderedSet.eraseDups_flatMap_eraseDups (fun path => [path]) found
  exact maskPaths_eq_ok_iff.2 ⟨htype, found.eraseDups, hrebuilt, honce⟩

/-- A query with an alias, a repeated path, a name of a type, and fragments on an interface and on
    an unrelated type. -/
theorem maskPaths_rebuilt_of_query :
    let schema : Schema :=
      ⟨[⟨"Query", .object [⟨"user", .named "User", none⟩, ⟨"id", .named "ID", none⟩] [], none⟩,
        ⟨"User", .object [⟨"id", .named "ID", none⟩, ⟨"friend", .named "User", none⟩] ["Node"],
          none⟩,
        ⟨"Node", .interface [⟨"id", .named "ID", none⟩], none⟩]⟩
    let fragments : FragmentTable := .ofList [("Ids", ⟨"Node", [.leaf "id" none]⟩)]
    let roots : List RootNode :=
      [.operation [.branch "user" (some "me") [.leaf typenameField none,
          .branch "friend" none [.spread "Ids", .fragment (some "Query") [.leaf "name" none]]],
        .leaf "id" none],
        .operation [.branch "user" none [.spread "Ids", .branch "friend" none [.spread "Ids"]]]]
    let paths := ["user.friend.id", "id", "user.id"]
    let rebuilt : RootNode := .operation
      [.branch "user" none [.branch "friend" none [.leaf "id" none]], .leaf "id" none,
        .branch "user" none [.leaf "id" none]]
    schema.FieldsDotFree ∧ (maskPaths "Query" roots fragments schema none).outcome = .ok paths ∧
      schema.Follows "Query" ["user", "friend", "id"] ∧
      (maskPaths "Query" [rebuilt] ∅ schema none).outcome = .ok paths := by
  intro schema fragments roots paths rebuilt
  have hdots : schema.FieldsDotFree := by decide
  have hmask : (maskPaths "Query" roots fragments schema none).outcome = .ok paths := rfl
  have hsegments : segments "user.friend.id" = ["user", "friend", "id"] := rfl
  have hrebuilt : rebuilt.selections = rebuiltSelections paths := rfl
  obtain ⟨hpaths, hround⟩ := maskPaths_rebuilt hdots hmask
  exact ⟨hdots, hmask, hsegments ▸ (hpaths "user.friend.id" (by decide)).1, hround rebuilt hrebuilt⟩

end SelectionMask
