import SelectionMask.Proofs.Walk.Mirrors

set_option autoImplicit false

/-! # What is skipped cannot matter

Below the name of a type, a dropped field, an ignored fragment and a fragment whose paths no hook
asks for, a walk reads nothing. So whatever stands there, with unknown fields or fragments or nodes
of no known kind, shows in nothing that a computation comes to. -/

namespace SelectionMask

/-- **What is skipped cannot matter.** Take a query and another one that differs from it only in what
    stands in hidden selections, at any number of places in the root nodes and in the definitions of
    fragments. If the first computation skips a hidden selection whenever it visits one, then both
    come to the same paths or the same failure, which blames the same node, after the same hook calls
    and answers and with the same log. -/
theorem maskPaths_skips {hidden : Address → Prop} {fragments fragments' : FragmentTable}
    (hfragments : fragments.SameOutside hidden fragments') {roots roots' : List RootNode}
    (hroots : RootNode.SameOutside hidden 0 roots roots') (schema : Schema)
    (hooks : Option Hooks) (type : Name)
    (hskipped : ∀ v ∈ visitsOf (maskPaths type roots fragments schema hooks).events,
      hidden v.node → v.Skipped ⟨schema, fragments, hooks.getD .unset⟩) :
    (maskPaths type roots fragments schema hooks).SameObserved
      (maskPaths type roots' fragments' schema hooks) := by
  have hmirrors := hfragments.mirrors schema (hooks.getD .unset)
  exact hmirrors.sameObserved hroots (fun _ => rfl) hskipped fun _ _ => trivial

/-- Nonsense below the name of the type, below a dropped field, in a definition on an unrelated type
    and in a member that the hook gives fixed paths. -/
theorem maskPaths_skips_of_nonsense :
    let schema : Schema :=
      ⟨[⟨"Query", .object [⟨"user", .named "User", none⟩, ⟨"node", .named "Node", none⟩] [], none⟩,
        ⟨"Node", .interface [⟨"id", .named "ID", none⟩], none⟩,
        ⟨"User", .object [⟨"id", .named "ID", none⟩, ⟨"secret", .named "ID", none⟩] ["Node"],
          none⟩]⟩
    let hooks : Hooks := HookRules.hooks
      ⟨some (.table [("secret", .value none)] .own), none, some (.constant ["any"])⟩
    let hidden (node : Address) : Prop :=
      node ∈ [⟨.root 0, [0, 0]⟩, ⟨.root 0, [1, 1]⟩, ⟨.definition "Parts", [1]⟩,
        ⟨.definition "Parts", [2]⟩]
    let table (inside unrelated : List Selection) : FragmentTable :=
      .ofList [("Parts", ⟨"User", [.leaf "id" none, .branch "secret" none inside,
        .fragment (some "Query") unrelated]⟩)]
    let query (s member : Selection) : List RootNode :=
      [.operation [.branch "user" none [s, .spread "Parts"],
        .branch "node" none [.leaf typenameField none, member]]]
    let fragments := table [] [.leaf "user" none]
    let fragments' := table [.spread "Missing", .leaf "who" none] [.other "variable"]
    let roots := query (.leaf typenameField none) (.fragment (some "User") [.leaf "id" none])
    let roots' := query (.branch typenameField none [.other "document"])
      (.fragment (some "User") [.fragment (some "Nobody") []])
    let report := maskPaths "Query" roots fragments schema (some hooks)
    fragments.SameOutside hidden fragments' ∧ RootNode.SameOutside hidden 0 roots roots' ∧
      (∀ v ∈ visitsOf report.events, hidden v.node → v.Skipped ⟨schema, fragments, hooks⟩) ∧
      report.outcome = .ok ["user.id", "node.any"] ∧
      report.SameObserved (maskPaths "Query" roots' fragments' schema (some hooks)) := by
  intro schema hooks hidden table query fragments fragments' roots roots' report
  have hfragments : fragments.SameOutside hidden fragments' := by
    refine (FragmentTable.SameOutside.refl hidden .empty).insert ⟨rfl, ?_⟩
    exact .leaf (.hidden (by decide) rfl (.hidden (by decide) rfl .nil))
  have hroots : RootNode.SameOutside hidden 0 roots roots' := by
    refine .cons (.branch ?_ (.branch ?_ .nil)) .nil
    · exact .hidden (by decide) rfl (.spread .nil)
    · exact .leaf (.hidden (by decide) rfl .nil)
  have hskipped : ∀ v ∈ visitsOf report.events, hidden v.node →
      v.Skipped ⟨schema, fragments, hooks⟩ := by
    decide +kernel
  have hsame := maskPaths_skips hfragments hroots schema (some hooks) "Query" hskipped
  exact ⟨hfragments, hroots, hskipped, by decide +kernel, hsame⟩

end SelectionMask
