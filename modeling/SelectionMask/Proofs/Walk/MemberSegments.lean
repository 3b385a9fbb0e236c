import SelectionMask.Proofs.Text.SnakeCase
import SelectionMask.Proofs.Walk.MetadataWalk

set_option autoImplicit false

/-! # Members keep their own paths

Under the hook that reads the metadata, a member whose metadata leaves the segment out stands under its
name in snake case. Names made of capitalised words can be told apart in snake case, and snake case
brings no dot into them, so the first segment of a path tells which member it belongs to. Whatever
two members select, no path of one is then equal to a path of the other, or leads to it. -/

namespace SelectionMask

/-- The selection is a fragment on the type: it is written in place, or its definition is spread. -/
inductive Selection.IsOn (fragments : FragmentTable) (condition : Name) : Selection → Prop
  | fragment {body : List Selection} : IsOn fragments condition (.fragment (some condition) body)
  | spread {name : Name} {definition : Fragment} :
      fragments.find? name = some definition → definition.condition = condition →
      IsOn fragments condition (.spread name)

/-- The metadata of the type, if it has any, leaves the segment out. -/
def Schema.LeavesSegmentOut (s : Schema) (name : Name) : Prop :=
  ∀ t ∈ s.type? name, ∀ m ∈ t.metadata, m.segment = .unset

instance (s : Schema) (name : Name) : Decidable (s.LeavesSegmentOut name) :=
  inferInstanceAs (Decidable (∀ t ∈ s.type? name, ∀ m ∈ t.metadata, m.segment = .unset))

theorem Schema.LeavesSegmentOut.eq_snakeCase {s : Schema} {name : Name} {t : NamedType}
    (h : s.LeavesSegmentOut name) (ht : s.type? name = some t) {segment : String}
    (hsegment : t.StandsUnder segment) : segment = snakeCase name := by
  rcases hsegment with ⟨-, hsegment⟩ | ⟨m, hm, hgiven⟩
  · rw [hsegment, Schema.name_of_type? ht]
  · simp [h t ht m hm] at hgiven

open SnakeCase

namespace Walk

variable {env : Env} {frame : Frame} {node : Address} {names : List Name} {paths : List String}
  {condition : Name}

/-- The paths of a member stand under its name in snake case. -/
theorem under_snakeCase_of_enterFragment {descend : Descend} (hd : descend.Restores)
    (hhook : env.hooks.narrowing = some Hooks.memberSegments)
    (habstract : env.schema.IsAbstract frame.type) (hother : condition ≠ frame.type)
    (hsegment : env.schema.LeavesSegmentOut condition) {ss : List Selection}
    (h : (enterFragment env descend frame condition node ss).Returns names paths) :
    ∀ path ∈ paths, ∃ below, path = joinPath (snakeCase condition) below := by
  obtain ⟨target, current, htarget, hcurrent, hcases⟩ := returns_enterFragment_iff.1 h
  have hskips : ¬env.schema.Enters condition frame.type :=
    fun henters => henters.elim hother fun hconcrete => hconcrete.2 habstract
  have hkind : current.isAbstract = true := (Schema.isAbstract_iff hcurrent).1 habstract
  simp only [hskips, hkind, hhook, false_and, false_or, not_true, not_false_eq_true, true_and,
    reduceCtorEq, Option.some.injEq] at hcases
  obtain ⟨_, field, rfl, -, hnarrow⟩ := hcases
  rcases (returns_narrow_memberSegments_iff hd).1 hnarrow with ⟨-, rfl⟩ | ⟨segment, below, hs, -, rfl⟩
  · simp
  · have hsame := hsegment.eq_snakeCase htarget ((segment_eq_some_iff htarget).1 hs)
    intro path hpath
    obtain ⟨rest, -, rfl⟩ := List.mem_map.1 hpath
    exact ⟨rest, by rw [hsame]⟩

/-- What a fragment on a member contributes. -/
theorem under_snakeCase_of_selection {s : Selection} (hs : s.IsOn env.fragments condition)
    (hhook : env.hooks.narrowing = some Hooks.memberSegments)
    (habstract : env.schema.IsAbstract frame.type) (hother : condition ≠ frame.type)
    (hsegment : env.schema.LeavesSegmentOut condition)
    (h : (selection env (selections env) frame node s).Returns names paths) :
    ∀ path ∈ paths, ∃ below, path = joinPath (snakeCase condition) below := by
  have hd := restores_selections env
  have hpaths : (pathsOf env (selections env) frame node s).Returns names paths := h
  cases hs with
  | fragment => exact under_snakeCase_of_enterFragment hd hhook habstract hother hsegment hpaths
  | spread hfind hcondition =>
      obtain ⟨definition, hfound, -, hbody⟩ := returns_spread_iff.1 hpaths
      obtain rfl := Option.some.inj (hfound.symm.trans hfind)
      subst hcondition
      exact under_snakeCase_of_enterFragment hd hhook habstract hother hsegment hbody

end Walk

/-- **Members keep their own paths.** Let the hook for members read the metadata, whatever the others
    do. At an abstract type, wherever it stands, take fragments on two other types whose names are made
    of capitalised words and whose metadata leaves the segment out. Whatever stands in them: no path
    that the first fragment contributes is equal to a path that the second one contributes, or is one
    with a dot and more behind it. -/
theorem members_keep_paths_apart {env : Env} {frame : Frame} {member other : Name}
    (hhook : env.hooks.narrowing = some Hooks.memberSegments)
    (habstract : env.schema.IsAbstract frame.type) (hne : member ≠ other)
    (hmember : member ≠ frame.type) (hother : other ≠ frame.type)
    (hsegment : env.schema.LeavesSegmentOut member) (hsegment' : env.schema.LeavesSegmentOut other)
    (hwords : CamelCase member) (hwords' : CamelCase other) {s s' : Selection}
    (hs : s.IsOn env.fragments member) (hs' : s'.IsOn env.fragments other) {names names' : List Name}
    {node node' : Address} {paths paths' : List String}
    (hpaths : (Walk.selection env (Walk.selections env) frame node s).Returns names paths)
    (hpaths' : (Walk.selection env (Walk.selections env) frame node' s').Returns names' paths') :
    ∀ path ∈ paths, ∀ path' ∈ paths', path ≠ path' ∧ ∀ rest, path' ≠ joinPath path rest := by
  intro path hpath path' hpath'
  obtain ⟨below, rfl⟩ :=
    Walk.under_snakeCase_of_selection hs hhook habstract hmember hsegment hpaths path hpath
  obtain ⟨below', rfl⟩ :=
    Walk.under_snakeCase_of_selection hs' hhook habstract hother hsegment' hpaths' path' hpath'
  -- The first segments are the names of the members in snake case, which are different.
  have hapart : ∀ later later' : List Name,
      snakeCase member :: later ≠ snakeCase other :: later' := fun later later' hsame =>
    hne (snakeCase_inj hwords hwords' (List.cons.inj hsame).1)
  have hsegments := segments_joinPath_of_dotFree hwords.dotFree.snakeCase below
  have hsegments' := segments_joinPath_of_dotFree hwords'.dotFree.snakeCase below'
  constructor
  · intro hsame
    rw [hsame, hsegments'] at hsegments
    exact hapart _ _ hsegments.symm
  · intro rest hsame
    have hlonger := congrArg segments hsame
    rw [hsegments', segments_joinPath, hsegments] at hlonger
    exact hapart _ _ hlonger.symm

/-- A member whose name begins with that of the other one. One fragment is written in place, the other
    one is spread. -/
theorem members_keep_paths_apart_of_photos :
    let schema : Schema :=
      ⟨[⟨"Query", .object [⟨"found", .named "Found", none⟩] [], none⟩,
        ⟨"Found", .union ["User", "UserPhoto2"], none⟩,
        ⟨"User", .object [⟨"id", .named "ID", none⟩] [], none⟩,
        ⟨"UserPhoto2", .object [⟨"owner", .named "User", none⟩] [], some ⟨.unset, []⟩⟩]⟩
    let fragments : FragmentTable :=
      .ofList [("Photos", ⟨"UserPhoto2", [.branch "owner" none [.leaf "id" none]]⟩)]
    let env : Env := ⟨schema, fragments, ⟨none, none, some Hooks.memberSegments⟩⟩
    let frame : Frame := ⟨"Found", some ⟨"found", .named "Found", none⟩⟩
    let user : Selection := .fragment (some "User") [.leaf "id" none]
    let photo : Selection := .spread "Photos"
    let contributed (s : Selection) (paths : List String) : Prop :=
      (Walk.selection env (Walk.selections env) frame .single s).Returns [] paths
    env.schema.IsAbstract frame.type ∧
      env.schema.LeavesSegmentOut "User" ∧ env.schema.LeavesSegmentOut "UserPhoto2" ∧
      CamelCase "User" ∧ CamelCase "UserPhoto2" ∧
      user.IsOn env.fragments "User" ∧ photo.IsOn env.fragments "UserPhoto2" ∧
      contributed user ["user.id"] ∧ contributed photo ["user_photo2.owner.id"] ∧
      ∀ path ∈ ["user.id"], ∀ path' ∈ ["user_photo2.owner.id"],
        path ≠ path' ∧ ∀ rest, path' ≠ joinPath path rest := by
  intro schema fragments env frame user photo contributed
  have habstract : env.schema.IsAbstract frame.type := by decide +kernel
  have hsegment : env.schema.LeavesSegmentOut "User" := by decide +kernel
  have hsegment' : env.schema.LeavesSegmentOut "UserPhoto2" := by decide +kernel
  have hword : IsCapitalised ['U', 's', 'e', 'r'] := .mk rfl rfl (by simp)
  have hword' : IsCapitalised ['P', 'h', 'o', 't', 'o', '2'] :=
    .mk rfl rfl (by simp)
  have hwords : CamelCase "User" :=
    ⟨[['U', 's', 'e', 'r']], by simp, by simpa using hword, by decide +kernel⟩
  have hwords' : CamelCase "UserPhoto2" :=
    ⟨[['U', 's', 'e', 'r'], ['P', 'h', 'o', 't', 'o', '2']], by simp,
      by simpa using ⟨hword, hword'⟩, by decide +kernel⟩
  have huser : user.IsOn env.fragments "User" := .fragment
  have hfind : env.fragments.find? "Photos"
      = some ⟨"UserPhoto2", [.branch "owner" none [.leaf "id" none]]⟩ := by
    simp [env, fragments, FragmentTable.ofList, FragmentTable.find?_insert]
  have hphoto : photo.IsOn env.fragments "UserPhoto2" := .spread hfind rfl
  have hpaths : contributed user ["user.id"] := by
    unfold contributed Walk.Returns
    decide +kernel
  have hpaths' : contributed photo ["user_photo2.owner.id"] := by
    unfold contributed Walk.Returns
    decide +kernel
  exact ⟨habstract, hsegment, hsegment', hwords, hwords', huser, hphoto, hpaths, hpaths',
    members_keep_paths_apart rfl habstract (by decide) (by decide) (by decide) hsegment hsegment'
      hwords hwords' huser hphoto hpaths hpaths'⟩

end SelectionMask
