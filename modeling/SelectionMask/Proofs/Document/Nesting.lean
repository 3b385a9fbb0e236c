import Mathlib.Data.List.Chain
import SelectionMask.Proofs.Document.Spreads
import SelectionMask.Walk.Visit

set_option autoImplicit false

/-! # Expansions inside each other

What the fragments that are being expanded should look like at any time: each one is defined, none
is expanded inside itself, and each is spread in the definition of the one before it
(`FragmentTable.Nests`). A selection that is looked at meanwhile stands in the definition of the
innermost one, or in a root node if nothing is being expanded (`Visit.StandsInside`).

So a fragment that is spread once more inside its own expansion comes back to itself through the
definitions of the table: `FragmentTable.Nests.transGen_spreads`. -/

namespace SelectionMask

open Selection (spreadNamesOf)

/-! ## Selections by their positions -/

namespace Selection

/-- The selections that stand in the selection set of a selection, if it has one of its own. -/
def inside : Selection → List Selection
  | branch _ _ selections => selections
  | fragment _ selections => selections
  | _ => []

/-- The selection at a list of positions, each in the selection set of the one before. -/
def at? : List Selection → List Nat → Option Selection
  | _, [] => none
  | ss, [index] => ss[index]?
  | ss, index :: step :: rest => ss[index]?.bind fun s => at? s.inside (step :: rest)

/-- One step further down. -/
theorem at?_concat {ss : List Selection} {steps : List Nat} {s : Selection}
    (h : at? ss steps = some s) (index : Nat) : at? ss (steps ++ [index]) = s.inside[index]? := by
  induction steps generalizing ss with
  | nil => cases h
  | cons first rest ih =>
      cases rest with
      | nil =>
          have hs : ss[first]? = some s := h
          change ss[first]?.bind (fun t => at? t.inside [index]) = _
          rw [hs]
          rfl
      | cons step rest =>
          obtain ⟨t, ht, hrest⟩ := Option.bind_eq_some_iff.1 h
          change ss[first]?.bind (fun t => at? t.inside (step :: rest ++ [index])) = _
          rw [ht]
          exact ih hrest

theorem spreadNames_subset_of_mem {s : Selection} {ss : List Selection} (h : s ∈ ss) :
    s.spreadNames ⊆ spreadNamesOf ss := by
  induction ss with
  | nil => exact absurd h List.not_mem_nil
  | cons t rest ih =>
      rw [spreadNamesOf]
      rcases List.mem_cons.1 h with rfl | hrest
      · exact List.subset_append_left _ _
      · exact List.subset_append_of_subset_right _ (ih hrest)

theorem spreadNamesOf_inside_subset (s : Selection) : spreadNamesOf s.inside ⊆ s.spreadNames := by
  cases s with
  | branch name aliasName selections => exact List.Subset.refl _
  | fragment condition selections => exact List.Subset.refl _
  | leaf name aliasName => exact List.Subset.refl _
  | spread name => exact List.nil_subset _
  | other kind => exact List.Subset.refl _

/-- What is spread at some position is spread somewhere inside. -/
theorem spreadNames_subset_of_at? {ss : List Selection} {steps : List Nat} {s : Selection}
    (h : at? ss steps = some s) : s.spreadNames ⊆ spreadNamesOf ss := by
  induction steps generalizing ss with
  | nil => cases h
  | cons first rest ih =>
      cases rest with
      | nil => exact spreadNames_subset_of_mem (List.mem_of_getElem? h)
      | cons step rest =>
          obtain ⟨t, ht, hrest⟩ := Option.bind_eq_some_iff.1 h
          have hinside : s.spreadNames ⊆ spreadNamesOf t.inside := ih hrest
          have ht' : t.spreadNames ⊆ spreadNamesOf ss :=
            spreadNames_subset_of_mem (List.mem_of_getElem? ht)
          exact List.Subset.trans hinside (List.Subset.trans (spreadNamesOf_inside_subset t) ht')

end Selection

/-- The selections that the addresses of an origin count in: those of a root node or a definition,
    if it is there. -/
def Origin.selections (fragments : FragmentTable) (roots : List RootNode) :
    Origin → List Selection
  | root index => (roots[index]?.map RootNode.selections).getD []
  | definition name => ((fragments.find? name).map Fragment.selections).getD []
  | single => []

/-! ## Proper nesting -/

/-- The fragments are expanded inside each other, from the outside in, as the table allows. -/
structure FragmentTable.Nests (table : FragmentTable) (names : List Name) : Prop where
  nodup : names.Nodup
  defined : ∀ name ∈ names, (table.find? name).isSome
  spread : names.IsChain table.Spreads

/-- A selection that is looked at stands in the definition of the innermost fragment that is being
    expanded, or in a root node if there is none. -/
structure Visit.StandsInside (fragments : FragmentTable) (roots : List RootNode) (v : Visit) :
    Prop where
  origin : match v.expanding.getLast? with
    | none => ∃ index, v.node.origin = .root index
    | some name => v.node.origin = .definition name
  found : Selection.at? (v.node.origin.selections fragments roots) v.node.steps = some v.selection

/-- A fragment that is spread where a visit stands is spread in the innermost one. -/
theorem Visit.StandsInside.spreads {fragments : FragmentTable} {roots : List RootNode} {v : Visit}
    (h : v.StandsInside fragments roots) {name : Name} (hs : v.selection = .spread name) :
    ∀ last ∈ v.expanding.getLast?, fragments.Spreads last name := by
  intro last hlast
  obtain ⟨horigin, hfound⟩ := h
  rw [hs] at hfound
  rw [hlast] at horigin
  have hname : name ∈ spreadNamesOf (v.node.origin.selections fragments roots) :=
    Selection.spreadNames_subset_of_at? hfound List.mem_cons_self
  rw [horigin, Origin.selections] at hname
  cases hfind : fragments.find? last with
  | none =>
      rw [hfind] at hname
      exact absurd hname List.not_mem_nil
  | some definition =>
      rw [hfind] at hname
      exact ⟨definition, hfind, hname⟩

namespace FragmentTable

variable {table : FragmentTable} {names : List Name}

theorem nests_nil (table : FragmentTable) : table.Nests [] :=
  ⟨List.nodup_nil, fun _ h => absurd h List.not_mem_nil, List.isChain_nil⟩

/-- One more fragment, which is spread in the innermost one so far. -/
theorem Nests.concat (h : table.Nests names) {name : Name} (hdefined : (table.find? name).isSome)
    (hfresh : name ∉ names) (hspread : ∀ last ∈ names.getLast?, table.Spreads last name) :
    table.Nests (names ++ [name]) where
  nodup := by
    refine List.nodup_append.2 ⟨h.nodup, by simp, ?_⟩
    rintro other hother _ hname rfl
    exact hfresh (List.mem_singleton.1 hname ▸ hother)
  defined := by
    intro other hother
    rcases List.mem_append.1 hother with hother | hother
    · exact h.defined other hother
    · rw [List.mem_singleton.1 hother]
      exact hdefined
  spread := by
    refine h.spread.append (List.isChain_singleton name) fun last hlast first hfirst => ?_
    obtain rfl : name = first := Option.some.inj hfirst
    exact hspread last hlast

/-- From each fragment being expanded the innermost one can be reached, so a spread of the fragment
    in there closes a cycle. -/
theorem Nests.transGen_spreads (h : table.Nests names) {name : Name} (hmem : name ∈ names)
    (hspread : ∀ last ∈ names.getLast?, table.Spreads last name) :
    Relation.TransGen table.Spreads name name := by
  obtain ⟨last, hlast⟩ := Option.ne_none_iff_exists'.1
    (mt List.getLast?_eq_none_iff.1 (List.ne_nil_of_mem hmem))
  have hreach : ∀ other ∈ names, Relation.ReflTransGen table.Spreads other last := by
    refine h.spread.backwards_induction _ _ (fun _ _ hstep => .head hstep) fun hne => ?_
    rw [List.getLast?_eq_some_getLast hne] at hlast
    rw [Option.some.inj hlast]
  exact .tail' (hreach name hmem) (hspread last hlast)

end FragmentTable

end SelectionMask
