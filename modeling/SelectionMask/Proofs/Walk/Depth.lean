import SelectionMask.Proofs.Document.Spreads
import SelectionMask.Proofs.Walk.Comparison

set_option autoImplicit false

/-! # How deep a walk goes

`Walk.selectionsUpTo` fails as soon as selection sets nest deeper than its bound. Here it is shown
that `Walk.depthBound` is never reached: a field or a fragment written in place leads to selections
that are less deep, and a spread leads to a definition that is not being expanded yet, whose depth
is from then on no longer counted (`Walk.depthBound_definition_lt`).

So any two bounds that are large enough give the same run, `Walk.selections` has no bound that
shows, and it satisfies the plain recursion `Walk.selections_eq`, by which later proofs open it. -/

namespace SelectionMask

/-! ## The measure -/

namespace FragmentTable

theorem totalDepth_filter_le (keep : Name × Fragment → Bool) (entries : List (Name × Fragment)) :
    totalDepth (entries.filter keep) ≤ totalDepth entries := by
  induction entries with
  | nil => exact Nat.le_refl _
  | cons entry rest ih =>
      by_cases hkeep : keep entry = true
      · rw [List.filter_cons_of_pos hkeep, totalDepth, totalDepth]
        omega
      · rw [List.filter_cons_of_neg hkeep, totalDepth]
        omega

/-- The depth of a definition that is dropped is no longer counted. -/
theorem totalDepth_filter_add_le (keep : Name × Fragment → Bool) {entry : Name × Fragment}
    {entries : List (Name × Fragment)} (hentry : entry ∈ entries) (hdropped : keep entry = false) :
    totalDepth (entries.filter keep) + entry.2.depth ≤ totalDepth entries := by
  induction entries with
  | nil => simp at hentry
  | cons other rest ih =>
      rcases List.mem_cons.1 hentry with rfl | hrest
      · have hle := totalDepth_filter_le keep rest
        rw [List.filter_cons_of_neg (by simp [hdropped]), totalDepth]
        omega
      · have hle := ih hrest
        by_cases hkeep : keep other = true
        · rw [List.filter_cons_of_pos hkeep, totalDepth, totalDepth]
          omega
        · rw [List.filter_cons_of_neg hkeep, totalDepth]
          omega

end FragmentTable

namespace Walk

variable {fragments : FragmentTable} {names : List Name} {ss : List Selection}

theorem depthBound_pos (fragments : FragmentTable) (names : List Name) (ss : List Selection) :
    0 < depthBound fragments names ss := by
  unfold depthBound
  omega

theorem depthBound_lt_of_depthOf_lt {below : List Selection}
    (h : Selection.depthOf below < Selection.depthOf ss) :
    depthBound fragments names below < depthBound fragments names ss := by
  unfold depthBound
  omega

theorem depthBound_inside_lt {s : Selection} {below : List Selection} (hs : s ∈ ss)
    (h : Selection.depthOf below < s.depth) :
    depthBound fragments names below < depthBound fragments names ss :=
  depthBound_lt_of_depthOf_lt (Nat.lt_of_lt_of_le h (Selection.depth_le_depthOf hs))

theorem depthBound_branch_lt {name : Name} {aliasName : Option String} {below : List Selection}
    (h : .branch name aliasName below ∈ ss) :
    depthBound fragments names below < depthBound fragments names ss := by
  refine depthBound_inside_lt h ?_
  rw [Selection.depth]
  omega

theorem depthBound_fragment_lt {condition : Option Name} {below : List Selection}
    (h : .fragment condition below ∈ ss) :
    depthBound fragments names below < depthBound fragments names ss := by
  refine depthBound_inside_lt h ?_
  rw [Selection.depth]
  omega

/-- A definition is no deeper than what was still counted for it, and from now on it is not
    counted. -/
theorem depthBound_definition_lt {name : Name} {definition : Fragment}
    (hfind : fragments.find? name = some definition) (hname : name ∉ names) :
    depthBound fragments (names ++ [name]) definition.selections
      < depthBound fragments names ss := by
  have hmem : (name, definition) ∈ fragments.entries.filter fun entry => entry.1 ∉ names :=
    List.mem_filter.2 ⟨FragmentTable.mem_entries_of_find? hfind, by simpa using hname⟩
  have htotal := FragmentTable.totalDepth_filter_add_le (fun entry => entry.1 != name) hmem
    (by simp)
  have hfilter : (fragments.entries.filter fun entry => entry.1 ∉ names ++ [name])
      = (fragments.entries.filter fun entry => entry.1 ∉ names).filter
          fun entry => entry.1 != name := by
    rw [List.filter_filter]
    congr 1
    funext entry
    by_cases he : entry.1 = name <;> simp [he]
  unfold depthBound
  rw [hfilter]
  simp only [Fragment.depth] at htotal
  omega

end Walk

/-! ## Enough depth -/

namespace Comparison

/-- The very same run, which is not cut short for lack of depth. -/
def finished : Comparison where
  failure f f' := f = f' ∧ f ≠ .exhausted
  events := Eq
  failure_refl h := ⟨rfl, h⟩
  events_refl _ := rfl
  events_append h h' := by rw [h, h']
  maskError?_eq h := by rw [h.1]

end Comparison

namespace Walk

variable {α : Type} {env : Env}

theorem Alike.run_eq {names : List Name} {w w' : Walk α}
    (h : Alike .finished names names w w') (hw : w.Restores) (hw' : w'.Restores) :
    w.run names = w'.run names ∧ (w.run names).outcome ≠ .error .exhausted := by
  obtain ⟨ho, he⟩ := h
  have hnames := (hw names).trans (hw' names).symm
  rcases hrun : w.run names with ⟨f | a, left, events⟩ <;>
    rcases hrun' : w'.run names with ⟨f' | a', left', events'⟩ <;>
    rw [hrun, hrun'] at ho he hnames
  · obtain ⟨rfl, hf⟩ := ho
    obtain rfl : left = left' := hnames
    obtain rfl : events = events' := he
    exact ⟨rfl, by simpa using hf⟩
  · exact ho.elim
  · exact ho.elim
  · obtain rfl : a = a' := ho
    obtain rfl : left = left' := hnames
    obtain rfl : events = events' := he
    exact ⟨rfl, by simp⟩

/-- Two ways to go on one level deeper that do the same wherever the bound is smaller. -/
def AgreeBelow (env : Env) (bound : Nat) (descend descend' : Descend) : Prop :=
  ∀ names ss, depthBound env.fragments names ss < bound →
    ∀ frame node, Alike .finished names names (descend frame node ss) (descend' frame node ss)

/-- One selection: what is walked below it has a smaller bound. -/
theorem alike_pathsOf_of_agreeBelow {descend descend' : Descend} {names : List Name}
    {ss : List Selection} (hd : descend.Restores) (hd' : descend'.Restores)
    (h : AgreeBelow env (depthBound env.fragments names ss) descend descend') (frame : Frame)
    (node : Address) {s : Selection} (hs : s ∈ ss) :
    Alike .finished names names (pathsOf env descend frame node s)
      (pathsOf env descend' frame node s) := by
  have hp := Comparison.SamePlace.refl .finished
  cases s with
  | leaf name aliasName =>
      exact alike_field (hp node) hd hd' _ name aliasName fun _ _ => alike_pure _
  | branch name aliasName below =>
      refine alike_field (hp node) hd hd' _ name aliasName fun definition found => ?_
      exact alike_pathsBelow (h names below (depthBound_branch_lt hs) _ node) hd hd' found
  | fragment condition below =>
      exact alike_enterFragment (hp node) hd hd'
        (fun frame => h names below (depthBound_fragment_lt hs) frame node) frame _
  | spread fragment =>
      refine alike_spread (hp node) fragment fun definition hfind hmem => ?_
      exact alike_enterFragment (hp _) hd hd'
        (fun frame => h _ _ (depthBound_definition_lt hfind hmem) frame _) frame _
  | other kind => exact alike_fail ⟨rfl, by simp⟩

theorem alike_selectionsFrom_of_agreeBelow {descend descend' : Descend} {names : List Name}
    {ss : List Selection} (hd : descend.Restores) (hd' : descend'.Restores)
    (h : AgreeBelow env (depthBound env.fragments names ss) descend descend') (frame : Frame)
    (node : Address) (index : Nat) {rest : List Selection} (hrest : rest ⊆ ss) :
    Alike .finished names names (selectionsFrom env descend frame node index rest)
      (selectionsFrom env descend' frame node index rest) := by
  induction rest generalizing index with
  | nil => exact alike_pure _
  | cons s rest ih =>
      obtain ⟨hs, hrest⟩ := List.cons_subset.1 hrest
      exact alike_selectionsFrom_cons hd hd' rfl
        (alike_pathsOf_of_agreeBelow hd hd' h frame _ hs) (ih (index + 1) hrest)

/-- Two bounds that are large enough give the same run. -/
theorem alike_selectionsUpTo (env : Env) (depth depth' : Nat) (names : List Name)
    (ss : List Selection) (h : depthBound env.fragments names ss ≤ depth)
    (h' : depthBound env.fragments names ss ≤ depth') (frame : Frame) (node : Address) :
    Alike .finished names names (selectionsUpTo env depth frame node ss)
      (selectionsUpTo env depth' frame node ss) := by
  have hpos := depthBound_pos env.fragments names ss
  induction depth generalizing depth' names ss frame node with
  | zero => omega
  | succ depth ih =>
      obtain _ | depth' := depth'
      · omega
      rw [selectionsUpTo_succ, selectionsUpTo_succ]
      refine alike_selectionsFrom_of_agreeBelow (restores_selectionsUpTo env depth)
        (restores_selectionsUpTo env depth') ?_ frame node 0 (List.Subset.refl ss)
      intro names' below hbelow frame' node'
      exact ih depth' names' below (by omega) (by omega) frame' node'
        (depthBound_pos env.fragments names' below)

theorem agreeBelow_selections (env : Env) {depth bound : Nat} (h : bound ≤ depth + 1) :
    AgreeBelow env bound (selectionsUpTo env depth) (selections env) := by
  intro names ss hbelow frame node
  exact alike_selectionsUpTo env depth _ names ss (by omega) (Nat.le_refl _) frame node

/-- **No bound shows in a walk**: the paths of a selection set are those of its selections, each
    walked below in the same way. -/
theorem selections_eq (env : Env) (frame : Frame) (node : Address) (ss : List Selection) :
    selections env frame node ss = selectionsFrom env (selections env) frame node 0 ss := by
  ext1 names
  have hpos := depthBound_pos env.fragments names ss
  obtain ⟨depth, hdepth⟩ := Nat.exists_eq_succ_of_ne_zero (Nat.ne_of_gt hpos)
  rw [run_selections, hdepth, selectionsUpTo_succ]
  have halike : Alike .finished names names
      (selectionsFrom env (selectionsUpTo env depth) frame node 0 ss)
      (selectionsFrom env (selections env) frame node 0 ss) :=
    alike_selectionsFrom_of_agreeBelow (restores_selectionsUpTo env depth) (restores_selections env)
      (agreeBelow_selections env (by omega)) frame node 0 (List.Subset.refl ss)
  exact (halike.run_eq (restores_selectionsFrom (restores_selectionsUpTo env depth) _ _ _ _)
    (restores_selectionsFrom (restores_selections env) _ _ _ _)).1

/-- A whole computation is not cut short either. -/
theorem mask_not_exhausted (env : Env) (type : Name) (roots : List RootNode) :
    (env.mask type roots).outcome ≠ .error .exhausted := by
  have hroots : AlikeRoots .finished [] [] env env type roots roots :=
    List.forall₂_same.2 fun root _ index =>
      alike_selectionsUpTo env _ _ [] root.selections (Nat.le_refl _) (Nat.le_refl _) _ _
  have ho := (alike_mask hroots rfl).outcome
  intro hexhausted
  change ((mask env type roots).run []).outcome = _ at hexhausted
  rw [hexhausted] at ho
  exact ho.2 rfl

/-- **Every walk ends within its bound.** For any schema, any fragments however they spread each
    other, any hooks and any fragments already being expanded, calls of the walk nest at most as
    deep as `depthBound` says: the depth of the selections at hand, and the depths of the
    definitions that are not being expanded. A walk that may go that deep or deeper is never cut
    short and comes to the same as the walk without a bound, which is its own unfolding. So every
    computation of a mask ends with paths or with a failure that is not lack of depth. -/
theorem walk_within_depthBound :
    (∀ (env : Env) (frame : Frame) (node : Address) (ss : List Selection) (names : List Name)
        (more : Nat),
      let bound := depthBound env.fragments names ss
      let r := (selectionsUpTo env (bound + more) frame node ss).run names
      r.outcome ≠ .error .exhausted ∧ r = (selections env frame node ss).run names) ∧
    (∀ (env : Env) (frame : Frame) (node : Address) (ss : List Selection),
      selections env frame node ss = selectionsFrom env (selections env) frame node 0 ss) ∧
    ∀ (type : Name) (roots : List RootNode) (fragments : FragmentTable) (schema : Schema)
        (hooks : Option Hooks),
      (maskPaths type roots fragments schema hooks).outcome ≠ .error .exhausted := by
  refine ⟨?_, selections_eq, ?_⟩
  · intro env frame node ss names more bound r
    have halike := alike_selectionsUpTo env (bound + more) bound names ss
      (Nat.le_add_right bound more) (Nat.le_refl bound) frame node
    have hrun := halike.run_eq (restores_selectionsUpTo env _ _ _ _)
      (restores_selectionsUpTo env _ _ _ _)
    exact ⟨hrun.2, hrun.1⟩
  · intro type roots fragments schema hooks
    exact mask_not_exhausted _ type roots

end Walk

end SelectionMask
