import SelectionMask.Proofs.Walk.Trails

set_option autoImplicit false

/-! # Masks of leaf-correct queries are prefix-free

In a query that follows the leaf rule, a field has no selection set exactly if its type has no
fields to select. Then each path of a mask ends where its fields first come to a leaf type. Since
the fields alone determine the types on the way, no path can go on from the end of another one,
wherever in the query the two were found. -/

namespace SelectionMask

/-- The visited selection follows the leaf rule: a field that can be found, other than the name of
    the type, has no selection set exactly if its named type is a scalar or an enum. -/
def Visit.LeafCorrect (schema : Schema) (v : Visit) : Prop :=
  ∀ name ∈ v.selection.fieldName?, name ≠ typenameField →
    ∀ definition ∈ (schema.fieldNamed v.frame.type name).toOption,
      (v.selection.isLeaf ↔ schema.IsLeaf definition.namedType)

instance (schema : Schema) (v : Visit) : Decidable (v.LeafCorrect schema) :=
  inferInstanceAs (Decidable (∀ name ∈ v.selection.fieldName?, name ≠ typenameField →
    ∀ definition ∈ (schema.fieldNamed v.frame.type name).toOption,
      (v.selection.isLeaf ↔ schema.IsLeaf definition.namedType)))

variable {schema : Schema} {type : Name} {paths : List String}

/-- A field that follows the leaf rule is of a leaf type exactly if no field can come after it. -/
theorem Visit.LeafCorrect.fits {v : Visit} (h : v.LeafCorrect schema) :
    v.Fits schema schema.EndsAtLeaf := by
  intro name definition rest hs hname hfield hrest
  have hleaf : v.selection.isLeaf ↔ schema.IsLeaf definition.namedType :=
    h name hs hname definition (by simp [hfield, Except.toOption])
  exact hrest.trans hleaf

/-- Ways that end at the first leaf type that they come to are no prefixes of each other. -/
theorem ListsTrails.ne_joinPath (hdots : schema.FieldsDotFree)
    (h : ListsTrails schema schema.EndsAtLeaf type paths) {path other : String}
    (hpath : path ∈ paths) (hother : other ∈ paths) (rest : String) :
    other ≠ joinPath path rest := by
  intro hjoin
  obtain ⟨fields, hne, htrail, hfields⟩ := h path hpath
  obtain ⟨fields', hne', htrail', hfields'⟩ := h other hother
  -- Without dots in the names, the way of the longer path begins with that of the shorter one.
  have hlonger : fields' = fields ++ segments rest :=
    calc fields'
      _ = segments other := by rw [← hfields', segments_dotted hne' (htrail'.dotFree hdots)]
      _ = segments path ++ segments rest := by rw [hjoin, segments_joinPath]
      _ = fields ++ segments rest := by rw [← hfields, segments_dotted hne (htrail.dotFree hdots)]
  rw [hlonger] at htrail'
  exact segments_ne_nil rest (htrail.eq_nil_of_append hne htrail')

/-- **Masks of leaf-correct queries are prefix-free.** If a mask is computed without hooks, in a
    schema whose fields have no dots in their names, and every field that the walk reaches follows
    the leaf rule, no path of the mask goes on from the end of another one. -/
theorem maskPaths_prefixFree {fragments : FragmentTable} {roots : List RootNode}
    (hdots : schema.FieldsDotFree)
    (h : (maskPaths type roots fragments schema none).outcome = .ok paths)
    (hleaf : ∀ v ∈ visitsOf (maskPaths type roots fragments schema none).events,
      v.LeafCorrect schema) :
    ∀ path ∈ paths, ∀ other ∈ paths, ∀ rest, other ≠ joinPath path rest := by
  intro path hpath other hother rest
  have htrails : ListsTrails schema schema.EndsAtLeaf type paths :=
    maskPaths_trails h fun v hv => (hleaf v hv).fits
  exact htrails.ne_joinPath hdots hpath hother rest

/-- Fields of the same name at different depths and in different root nodes, one of them an enum,
    and a name of a type, which the rule is not about. -/
theorem maskPaths_prefixFree_of_query :
    let schema : Schema :=
      ⟨[⟨"Query", .object [⟨"user", .named "User", none⟩, ⟨"role", .named "Role", none⟩] [], none⟩,
        ⟨"User", .object [⟨"id", .named "ID", none⟩, ⟨"role", .named "Role", none⟩,
          ⟨"user", .named "User", none⟩] ["Node"], none⟩,
        ⟨"Node", .interface [⟨"id", .named "ID", none⟩], none⟩, ⟨"Role", .enum, none⟩]⟩
    let fragments : FragmentTable :=
      .ofList [("Both", ⟨"Node", [.leaf "id" none, .leaf "role" none]⟩)]
    let roots : List RootNode :=
      [.operation [.branch "user" none [.leaf typenameField none, .spread "Both",
          .branch "user" none [.spread "Both"]]],
        .operation [.leaf "role" none, .branch "user" (some "me") [.leaf "role" (some "r")]]]
    let report := maskPaths "Query" roots fragments schema none
    let paths := ["user.id", "user.role", "user.user.id", "user.user.role", "role"]
    schema.FieldsDotFree ∧ report.outcome = .ok paths ∧
      (∀ v ∈ visitsOf report.events, v.LeafCorrect schema) ∧
      ∀ path ∈ paths, ∀ other ∈ paths, ∀ rest, other ≠ joinPath path rest := by
  intro schema fragments roots report paths
  have hdots : schema.FieldsDotFree := by decide
  have hmask : report.outcome = .ok paths := by decide +kernel
  have hleaf : ∀ v ∈ visitsOf report.events, v.LeafCorrect schema := by decide +kernel
  exact ⟨hdots, hmask, hleaf, maskPaths_prefixFree hdots hmask hleaf⟩

end SelectionMask
