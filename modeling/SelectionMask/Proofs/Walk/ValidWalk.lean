import SelectionMask.Proofs.Document.Spreads
import SelectionMask.Proofs.Document.Validity
import SelectionMask.Proofs.Walk.Sources

set_option autoImplicit false

/-! # Walking valid selections

A valid query need not have a mask: a walk without hooks may fail with an unknown field, although
each field is one of the type that it is selected at. For it reads a fragment on an abstract type at
whatever object type it has come to, also where this is no possible type of the fragment's.

That is the only way. As long as no fragment is misapplied, each step of the walk goes on at a type
that fits the one for which the selections are valid (`Visit.Follows.step`), and there all fields are
found. So an unknown field stands below a misapplied fragment
(`maskPaths_unknownField_of_valid`). -/

namespace SelectionMask

variable {schema : Schema} {fragments : FragmentTable} {env : Env} {v w : Visit}

/-- Without a hook all fragments are read in place. -/
theorem Frame.Opens.inPlace_of_plain {frame inner : Frame} {condition : Name}
    (h : frame.Opens env condition inner) (hplain : env.hooks.narrowing = none) :
    inner = frame ∧ env.schema.Enters condition frame.type := by
  cases h with
  | inPlace henters => exact ⟨rfl, henters⟩
  | member hhook => simp [hplain] at hhook

/-- Without a hook, each step of the walk is one of reach. -/
theorem Visit.Leads.reaches (h : v.Leads env w) (hplain : env.hooks.narrowing = none) :
    ∃ index, Reaches env.schema env.fragments v [index] w := by
  cases h with
  | branch hname hfield _ hs => exact ⟨_, .branch hname hfield hs .here⟩
  | fragment hopens hs =>
      obtain ⟨rfl, henters⟩ := hopens.inPlace_of_plain hplain
      exact ⟨_, .fragment henters hs .here⟩
  | spread hfind _ hopens hs =>
      obtain ⟨rfl, henters⟩ := hopens.inPlace_of_plain hplain
      exact ⟨_, .spread hfind henters hs .here⟩

/-- **A step goes on at a type that fits**, unless it enters a misapplied fragment. -/
theorem Visit.Follows.step (himplements : env.schema.ImplementsInterfaces)
    (hplain : env.hooks.narrowing = none) (h : v.Follows env.schema env.fragments)
    (happlied : ¬ v.Misapplied env.schema env.fragments) (hleads : v.Leads env w) :
    w.Follows env.schema env.fragments := by
  obtain ⟨type, hvalid, hfits⟩ := h
  cases hleads with
  | branch hname hfound _ hs =>
      -- The field is one of the object type at hand, where it may have a narrower type.
      obtain ⟨definition, hfield, hbelow⟩ := hvalid.of_branch hname
      obtain ⟨t, ht, hobject, -⟩ := Schema.fieldNamed_eq_ok_iff.1 hfound
      obtain ⟨found, hfound', hnarrower⟩ := himplements.fieldNamed (hfits ⟨t, ht, hobject⟩) hfield
      obtain rfl := Except.ok.inj (hfound'.symm.trans hfound)
      exact ⟨definition.namedType, hbelow.getElem? hs, hnarrower⟩
  | @fragment frame _ _ _ condition _ _ _ hopens hs =>
      obtain ⟨rfl, henters⟩ := hopens.inPlace_of_plain hplain
      refine ⟨_, hvalid.of_fragment.getElem? hs, ?_⟩
      cases condition with
      | none => exact hfits
      | some condition => exact fits_of_enters happlied rfl henters
  | spread hfind _ hopens hs =>
      obtain ⟨rfl, henters⟩ := hopens.inPlace_of_plain hplain
      refine ⟨_, (hvalid.of_spread hfind).getElem? hs, ?_⟩
      exact fits_of_enters happlied (by simp [Selection.condition?, hfind]) henters

/-! ## Whole runs -/

/-- Something stands below a misapplied fragment that is within reach of the root nodes and has been
    visited. -/
def Visit.GoesAstray (schema : Schema) (fragments : FragmentTable) (type : Name)
    (roots : List RootNode) (events : List Event) (w : Visit) : Prop :=
  ∃ place v below, RootsReach schema fragments type 0 roots place v ∧ v ∈ visitsOf events ∧
    v.Misapplied schema fragments ∧ Reaches schema fragments v below w

/-- A selection is within reach of the root nodes, and at a type that fits the one it is valid at or
    below a misapplied fragment. -/
def Visit.Accounted (schema : Schema) (fragments : FragmentTable) (type : Name)
    (roots : List RootNode) (events : List Event) (v : Visit) : Prop :=
  (∃ place, RootsReach schema fragments type 0 roots place v) ∧
    (v.Follows schema fragments ∨ v.GoesAstray schema fragments type roots events)

theorem Visit.Accounted.step {type : Name} {roots : List RootNode} {events : List Event}
    (himplements : schema.ImplementsInterfaces)
    (h : v.Accounted schema fragments type roots events) (hv : v ∈ visitsOf events)
    (hleads : v.Leads ⟨schema, fragments, .unset⟩ w) :
    w.Accounted schema fragments type roots events := by
  obtain ⟨⟨place, hreach⟩, hway⟩ := h
  obtain ⟨index, hstep⟩ := hleads.reaches rfl
  refine ⟨⟨_, hreach.trans hstep⟩, ?_⟩
  rcases hway with hfollows | ⟨place', u, below, hu, hvisited, hmisapplied, hbelow⟩
  · by_cases hmisapplied : v.Misapplied schema fragments
    · exact .inr ⟨place, v, _, hreach, hv, hmisapplied, hstep⟩
    · exact .inl (hfollows.step himplements rfl hmisapplied hleads)
  · exact .inr ⟨place', u, _, hu, hvisited, hmisapplied, hbelow.trans hstep⟩

/-- **All visits of a computation without hooks follow the valid selections or stand below a
    misapplied fragment.** -/
theorem accounted_of_mem_visitsOf (himplements : schema.ImplementsInterfaces) {type : Name}
    {roots : List RootNode}
    (hvalid : ∀ root ∈ roots, ValidAt schema fragments type root.selections) :
    let events := (maskPaths type roots fragments schema none).events
    ∀ v ∈ visitsOf events, v.Accounted schema fragments type roots events := by
  intro events
  refine Walk.forall_mem_visitsOf (fun index root hroot position s hs => ?_)
    fun v hv w h hleads => h.step himplements hv hleads
  have hselections := hvalid root (List.mem_of_getElem? hroot)
  exact ⟨⟨_, rootsReach_of_getElem? hroot hs⟩,
    .inl ⟨type, hselections.getElem? hs, schema.fits_refl type⟩⟩

/-- **An unknown field of a valid query stands below a misapplied fragment.** Let each object type have
    the fields of the interfaces that it lists, with types that fit, and let the selections of the
    root nodes be valid at the type. If no fragment on an interface or a union that a computation
    without hooks visits, in place or by a spread, is met at an object type that is no possible type
    of it, then the computation does not fail with an unknown field. If it does fail so, it has
    visited the field and, on the way there, such a fragment, and the field is selected at the type
    and with the name that the failure tells. -/
theorem maskPaths_unknownField_of_valid (himplements : schema.ImplementsInterfaces) {type : Name}
    {roots : List RootNode}
    (hvalid : ∀ root ∈ roots, ValidAt schema fragments type root.selections) :
    let report := maskPaths type roots fragments schema none
    let reached := RootsReach schema fragments type 0 roots
    ((∀ v ∈ visitsOf report.events, ¬ v.Misapplied schema fragments) →
      ∀ owner name blamed,
        report.outcome ≠ .error (.mask (.unknownField owner name) blamed)) ∧
    ∀ owner name blamed, report.outcome = .error (.mask (.unknownField owner name) blamed) →
      ∃ place v below w, reached place v ∧ v ∈ visitsOf report.events ∧
        v.Misapplied schema fragments ∧ Reaches schema fragments v below w ∧
        w ∈ visitsOf report.events ∧ w.frame.type = owner ∧
        w.selection.fieldName? = some name ∧ blamed = some w.node := by
  intro report reached
  have hastray : ∀ owner name blamed,
      report.outcome = .error (.mask (.unknownField owner name) blamed) →
      ∃ place v below w, reached place v ∧ v ∈ visitsOf report.events ∧
        v.Misapplied schema fragments ∧ Reaches schema fragments v below w ∧
        w ∈ visitsOf report.events ∧ w.frame.type = owner ∧
        w.selection.fieldName? = some name ∧ blamed = some w.node := by
    intro owner name blamed hfailure
    obtain hcut | hunknown | ⟨w, hw, hfails⟩ := Walk.exists_visit_of_failure hfailure
    · cases hcut
    · cases hunknown
    · cases hfails with
      | offends hoffends =>
          have hway := (accounted_of_mem_visitsOf himplements hvalid w hw).2
          obtain ⟨place, v, below, hv, hvisited, hmisapplied, hreach⟩ :=
            hway.resolve_left fun hfollows => hfollows.not_unknownField himplements hoffends
          cases hoffends with
          | unknownField hs =>
              exact ⟨place, v, below, _, hv, hvisited, hmisapplied, hreach, hw, rfl, hs, rfl⟩
  refine ⟨fun happlied owner name blamed hfailure => ?_, hastray⟩
  obtain ⟨place, v, -, -, -, hv, hmisapplied, -⟩ := hastray owner name blamed hfailure
  exact happlied v hv hmisapplied

/-- At a photo, which is a node but has no name: a fragment on nodes, in which one on named things is
    valid, since users are both. The walk reads it at the photo. -/
theorem maskPaths_unknownField_of_valid_of_photo :
    let schema : Schema :=
      ⟨[⟨"Node", .interface [⟨"id", .named "ID", none⟩], none⟩,
        ⟨"Named", .interface [⟨"name", .named "String", none⟩], none⟩,
        ⟨"Photo", .object [⟨"id", .named "ID", none⟩] ["Node"], none⟩,
        ⟨"User", .object [⟨"id", .named "ID", none⟩, ⟨"name", .named "String", none⟩]
          ["Node", "Named"], none⟩]⟩
    let roots : List RootNode :=
      [.operation [.fragment (some "Node") [.spread "Name"]]]
    let fragments : FragmentTable := .ofList [("Name", ⟨"Named", [.leaf "name" none]⟩)]
    let report := maskPaths "Photo" roots fragments schema none
    let blamed : Address := ⟨.definition "Name", [0]⟩
    schema.ImplementsInterfaces ∧
      (∀ root ∈ roots, ValidAt schema fragments "Photo" root.selections) ∧
      report.outcome = .error (.mask (.unknownField "Photo" "name") (some blamed)) ∧
      ∃ place v below w, RootsReach schema fragments "Photo" 0 roots place v ∧
        v ∈ visitsOf report.events ∧ v.Misapplied schema fragments ∧
        Reaches schema fragments v below w ∧ w ∈ visitsOf report.events ∧
        w.frame.type = "Photo" ∧ w.selection.fieldName? = some "name" ∧
        some blamed = some w.node := by
  intro schema roots fragments report blamed
  have himplements : schema.ImplementsInterfaces := by decide +kernel
  have hvalid : ∀ root ∈ roots, ValidAt schema fragments "Photo" root.selections := by
    refine List.forall_mem_singleton.2 ?_
    have hname : ValidAt schema fragments "Named" [.leaf "name" none] :=
      .leaf rfl .nil
    have hspread : ValidAt schema fragments "Node" [.spread "Name"] :=
      .spread "User" rfl (by decide +kernel) (by decide +kernel) hname .nil
    exact .fragment "Photo" (by decide +kernel) (by decide +kernel) hspread .nil
  have hfailure : report.outcome
      = .error (.mask (.unknownField "Photo" "name") (some blamed)) := rfl
  obtain ⟨-, hastray⟩ := maskPaths_unknownField_of_valid himplements hvalid
  exact ⟨himplements, hvalid, hfailure, hastray _ _ _ hfailure⟩

/-- Validity alone does not keep unknown fields away, be the table acyclic and the type an object type:
    not where fragments on interfaces nest, nor where an object type has the fields of an interface
    only by their names. -/
theorem valid_selections_with_unknownField :
    (let schema : Schema :=
      ⟨[⟨"Node", .interface [⟨"id", .named "ID", none⟩], none⟩,
        ⟨"Named", .interface [⟨"name", .named "String", none⟩], none⟩,
        ⟨"Photo", .object [⟨"id", .named "ID", none⟩] ["Node"], none⟩,
        ⟨"User", .object [⟨"id", .named "ID", none⟩, ⟨"name", .named "String", none⟩]
          ["Node", "Named"], none⟩]⟩
    let roots : List RootNode :=
      [.operation [.fragment (some "Node") [.fragment (some "Named") [.leaf "name" none]]]]
    schema.ImplementsInterfaces ∧ (∅ : FragmentTable).Acyclic ∧ schema.IsObject "Photo" ∧
      (∀ root ∈ roots, ValidAt schema ∅ "Photo" root.selections) ∧
      (maskPaths "Photo" roots ∅ schema none).outcome
        = .error (.mask (.unknownField "Photo" "name") (some ⟨.root 0, [0, 0, 0]⟩))) ∧
    (let schema : Schema :=
      ⟨[⟨"Node", .interface [⟨"owner", .named "User", none⟩], none⟩,
        ⟨"User", .object [⟨"name", .named "String", none⟩] [], none⟩,
        ⟨"Album", .object [⟨"size", .named "Int", none⟩] [], none⟩,
        ⟨"Photo", .object [⟨"owner", .named "Album", none⟩] ["Node"], none⟩]⟩
    let roots : List RootNode :=
      [.operation [.fragment (some "Node") [.branch "owner" none [.leaf "name" none]]]]
    (∀ t ∈ schema.types, ∀ interface ∈ t.interfaces, ∀ u ∈ schema.type? interface,
        ∀ f ∈ u.fields, (t.field? f.name).isSome) ∧
      (∅ : FragmentTable).Acyclic ∧ schema.IsObject "Photo" ∧
      (∀ root ∈ roots, ValidAt schema ∅ "Photo" root.selections) ∧
      (maskPaths "Photo" roots ∅ schema none).outcome
        = .error (.mask (.unknownField "Album" "name") (some ⟨.root 0, [0, 0, 0]⟩))) := by
  have hacyclic : (∅ : FragmentTable).Acyclic :=
    FragmentTable.acyclic_of_rank (fun _ => 0) (by decide +kernel)
  constructor
  · intro schema roots
    refine ⟨by decide +kernel, hacyclic, by decide +kernel, ?_, rfl⟩
    refine List.forall_mem_singleton.2 ?_
    have hname : ValidAt schema ∅ "Named" [.leaf "name" none] :=
      .leaf rfl .nil
    have hnamed : ValidAt schema ∅ "Node" [.fragment (some "Named") [.leaf "name" none]] :=
      .fragment "User" (by decide +kernel) (by decide +kernel) hname .nil
    exact .fragment "Photo" (by decide +kernel) (by decide +kernel) hnamed .nil
  · intro schema roots
    refine ⟨by decide +kernel, hacyclic, by decide +kernel, ?_, rfl⟩
    refine List.forall_mem_singleton.2 ?_
    have hname : ValidAt schema ∅ "User" [.leaf "name" none] :=
      .leaf rfl .nil
    have howner : ValidAt schema ∅ "Node" [.branch "owner" none [.leaf "name" none]] :=
      .branch rfl hname .nil
    exact .fragment "Photo" (by decide +kernel) (by decide +kernel) howner .nil

end SelectionMask
