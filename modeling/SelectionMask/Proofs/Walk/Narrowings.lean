import SelectionMask.Proofs.Walk.Blame
import SelectionMask.Proofs.Walk.Sources

set_option autoImplicit false

/-! # What the hook for members is told

The hook is asked about a fragment that narrows an abstract type, and it is told of a field: the one
that the innermost selected field around the fragment stands for. As a rule that field yields the
abstract type. But the walk keeps the field while it reads a member's selections, so where a member
is abstract itself and a fragment inside it narrows it further, the hook is told of the same field
once more, although that yields the type narrowed at first. No field yields the inner type there.

`Visit.Encloses` reads off the query which selected field is the innermost one around a visit, and
`Visit.Yielded` says of all visits what that field has to do with the type at hand: it yields this
type, or the visit stands in the selections of a member about which the hook was told of this very
field. -/

namespace SelectionMask

/-- The fragment or the definition that has the address is on the type. -/
inductive Address.IsOn (fragments : FragmentTable) (roots : List RootNode) : Address → Name → Prop
  | fragment {node : Address} {condition : Name} {body : List Selection} :
      node.selection? fragments roots = some (.fragment (some condition) body) →
      IsOn fragments roots node condition
  | definition {name : Name} {definition : Fragment} :
      fragments.find? name = some definition →
      IsOn fragments roots (.definition name) definition.condition

/-- The visit stands in the selections of a member that the hook has been asked about, with nothing
    but fragments read in place in between. -/
inductive Visit.StandsInMember (env : Env) (events : List Event) (n : Narrowing) : Visit → Prop
  | entered {v w : Visit} {node : Address} :
      v ∈ visitsOf events → v.Narrows env n node → .narrowingAsked n node ∈ traceOf events →
      v.Leads env w → w.frame = ⟨n.concreteType, some n.field⟩ → StandsInMember env events n w
  | inPlace {v w : Visit} :
      StandsInMember env events n v → v.selection.fieldName? = none → v.Leads env w →
      w.frame = v.frame → StandsInMember env events n w

/-- The second visit stands in the selection set of the field visited first, with nothing but
    fragments and spreads in between: no other field is as close around it. -/
inductive Visit.Encloses (env : Env) (events : List Event) (u : Visit) : Visit → Prop
  | field {w : Visit} {name : Name} :
      u ∈ visitsOf events → u.selection.fieldName? = some name → u.Leads env w →
      Encloses env events u w
  | fragment {v w : Visit} :
      Encloses env events u v → v ∈ visitsOf events → v.selection.fieldName? = none →
      v.Leads env w → Encloses env events u w

/-- What is visited is a field with a selection set, and the type at hand has this field of that
    name. -/
def Visit.Selects (schema : Schema) (v : Visit) (field : FieldDef) : Prop :=
  ∃ name aliasName below, v.selection = .branch name aliasName below ∧ name ≠ typenameField ∧
    schema.fieldNamed v.frame.type name = .ok field

/-- A visit with an enclosing field stands below one, and that field yields the type at hand unless
    the visit stands in a member on that type, about which the hook was told of the same field. -/
def Visit.Yielded (env : Env) (events : List Event) (v : Visit) : Prop :=
  ∀ field, v.frame.enclosing = some field →
    (∃ u, Visit.Encloses env events u v) ∧
    (field.namedType = v.frame.type ∨
      ∃ n, v.StandsInMember env events n ∧ n.field = field ∧ n.concreteType = v.frame.type)

variable {env : Env} {events : List Event} {type : Name} {roots : List RootNode} {v w : Visit}

/-! ## Steps -/

theorem Visit.Encloses.mem_visitsOf {u : Visit} (h : u.Encloses env events v) :
    u ∈ visitsOf events := by
  induction h with
  | field hu _ _ => exact hu
  | fragment _ _ _ _ ih => exact ih

/-- From fragment to fragment the enclosing field is kept. -/
theorem Frame.Opens.enclosing_eq {frame inner : Frame} {condition : Name}
    (h : frame.Opens env condition inner) : inner.enclosing = frame.enclosing := by
  cases h with
  | inPlace _ => rfl
  | member _ _ _ _ hfield => exact hfield.symm

theorem Visit.Leads.enclosing_eq (h : v.Leads env w) (hs : v.selection.fieldName? = none) :
    w.frame.enclosing = v.frame.enclosing := by
  cases h with
  | branch _ _ _ _ => cases hs
  | fragment hopens _ => exact hopens.enclosing_eq
  | spread _ _ hopens _ => exact hopens.enclosing_eq

theorem Visit.Leads.selects (h : v.Leads env w) {name : Name}
    (hs : v.selection.fieldName? = some name) :
    ∃ field, w.frame.enclosing = some field ∧ v.Selects env.schema field := by
  cases h with
  | branch hname hfield _ _ => exact ⟨_, rfl, _, _, _, rfl, hname, hfield⟩
  | fragment _ _ => cases hs
  | spread _ _ _ _ => cases hs

/-- **The enclosing field of a visit is the one that is selected right around it.** -/
theorem Visit.Encloses.selects {u : Visit} (h : u.Encloses env events v) {field : FieldDef}
    (hfield : v.frame.enclosing = some field) : u.Selects env.schema field := by
  induction h with
  | field _ hs hleads =>
      obtain ⟨definition, hdefinition, hselects⟩ := hleads.selects hs
      obtain rfl : definition = field := Option.some.inj (hdefinition.symm.trans hfield)
      exact hselects
  | fragment _ _ hs hleads ih => exact ih ((hleads.enclosing_eq hs).symm.trans hfield)

theorem Visit.Narrows.fieldName?_eq_none {n : Narrowing} {node : Address}
    (h : v.Narrows env n node) : v.selection.fieldName? = none := by
  cases h with
  | fragment hs _ => rw [hs]; rfl
  | spread hs _ _ _ => rw [hs]; rfl

/-- Below a field, that field encloses what is visited and yields the type at hand. -/
theorem Visit.Leads.yielded_of_field (h : v.Leads env w) (hv : v ∈ visitsOf events) {name : Name}
    (hs : v.selection.fieldName? = some name) : w.Yielded env events := by
  have hencloses : v.Encloses env events w := .field hv hs h
  cases h with
  | branch _ _ _ _ =>
      rintro _ ⟨⟩
      exact ⟨⟨_, hencloses⟩, .inl rfl⟩
  | fragment _ _ => cases hs
  | spread _ _ _ _ => cases hs

theorem Visit.Yielded.inPlace (h : v.Yielded env events) (hv : v ∈ visitsOf events)
    (hs : v.selection.fieldName? = none) (hleads : v.Leads env w) (hframe : w.frame = v.frame) :
    w.Yielded env events := by
  intro field hfield
  obtain ⟨⟨u, hencloses⟩, hyields⟩ := h field (hframe ▸ hfield)
  refine ⟨⟨u, hencloses.fragment hv hs hleads⟩, hyields.imp (hframe ▸ ·) ?_⟩
  rintro ⟨n, hn, hsame, hmember⟩
  exact ⟨n, hn.inPlace hs hleads hframe, hsame, hframe ▸ hmember⟩

/-- In a member the field is kept. -/
theorem Visit.Yielded.member (h : v.Yielded env events) (hv : v ∈ visitsOf events)
    {n : Narrowing} {node : Address} (hn : v.Narrows env n node)
    (hcall : .narrowingAsked n node ∈ traceOf events) (hleads : v.Leads env w)
    (hframe : w.frame = ⟨n.concreteType, some n.field⟩) : w.Yielded env events := by
  intro field hfield
  rw [hframe] at hfield
  obtain rfl : n.field = field := Option.some.inj hfield
  obtain ⟨⟨u, hencloses⟩, -⟩ := h n.field hn.standsAt.field
  refine ⟨⟨u, hencloses.fragment hv hn.fieldName?_eq_none hleads⟩, ?_⟩
  exact .inr ⟨n, .entered hv hn hcall hleads hframe, rfl, by rw [hframe]⟩

/-! ## Runs -/

/-- **Every visit of a computation with an enclosing field stands below a field that it visits**,
    and at a type that the enclosing field yields, or that the hook was asked about together with
    this field. -/
theorem yielded_of_mem_visitsOf (hv : v ∈ visitsOf (env.mask type roots).events) :
    v.Yielded env (env.mask type roots).events := by
  suffices hall : ∀ e ∈ (env.mask type roots).events, ∀ v, e = .visit v →
      v.Yielded env (env.mask type roots).events from hall _ (mem_visitsOf_iff.1 hv) v rfl
  refine (Walk.mask_accounted env type roots).forall_mem
    (fun _ hother => absurd hother List.not_mem_nil) fun before e hbefore hearlier harises w hw => ?_
  have hvisited : ∀ {v}, .visit v ∈ before → v ∈ visitsOf (env.mask type roots).events :=
    fun hv => mem_visitsOf_iff.2 (hbefore hv)
  subst hw
  cases harises with
  | root _ _ => exact nofun
  | below hv hleads hs => exact hleads.yielded_of_field (hvisited hv) hs
  | @inPlace v _ hv hleads hframe =>
      -- A field of the type that it stands at leads to the same type too.
      cases hs : v.selection.fieldName? with
      | some name => exact hleads.yielded_of_field (hvisited hv) hs
      | none => exact (hearlier _ hv _ rfl).inPlace (hvisited hv) hs hleads hframe
  | member hv hleads hn hcall hframe =>
      exact (hearlier _ hv _ rfl).member (hvisited hv) hn (mem_traceOf_iff.2 (hbefore hcall)) hleads
        hframe

theorem Visit.Narrows.isOn {n : Narrowing} {node : Address} (h : v.Narrows env n node)
    (hplaced : v.WellPlaced env.fragments roots) :
    node.IsOn env.fragments roots n.concreteType := by
  cases h with
  | fragment hs _ =>
      have hfound : v.node.selection? env.fragments roots = some v.selection :=
        hplaced.inside.found
      exact .fragment (hs ▸ hfound)
  | spread _ hfind hcondition _ => exact hcondition ▸ .definition hfind

/-! ## The mask -/

/-- **The hook for members is told of the innermost field around the fragment.** Whenever the hook
    is called, the abstract type is an interface or a union, and the concrete type is another type of
    the schema and the one that the fragment at the node is on. The call is made where the fragment is
    visited, and that visit stands below a field of the query: going up from it through fragments and
    spreads alone, the walk comes from a selected field, and the field that the hook is told of is
    the one of that name at the type where it was selected. This field yields the abstract type,
    unless the fragment stands in the selections of a member on that type, with only fragments read
    in place in between, and the hook was told of the same field when it was asked about that
    member. -/
theorem maskPaths_tells_enclosing_field (schema : Schema) (fragments : FragmentTable)
    (hooks : Option Hooks) (type : Name) (roots : List RootNode) :
    let env : Env := ⟨schema, fragments, hooks.getD .unset⟩
    let report := maskPaths type roots fragments schema hooks
    ∀ n node, .narrowingAsked n node ∈ traceOf report.events →
      schema.IsAbstract n.abstractType ∧ n.concreteType ≠ n.abstractType ∧
      (∃ target, schema.type? n.concreteType = some target ∧
        n.concreteMetadata = target.metadata) ∧
      node.IsOn fragments roots n.concreteType ∧
      ∃ v ∈ visitsOf report.events, v.Narrows env n node ∧
        (∃ u, Visit.Encloses env report.events u v) ∧
        (∀ u, u.Encloses env report.events v → u ∈ visitsOf report.events ∧
          u.node.selection? fragments roots = some u.selection ∧ u.Selects schema n.field) ∧
        (n.field.namedType = n.abstractType ∨
          ∃ outer, v.StandsInMember env report.events outer ∧ outer.field = n.field ∧
            outer.concreteType = n.abstractType) := by
  intro env report n node hcall
  obtain ⟨v, hv, hcalls⟩ : ∃ v ∈ visitsOf report.events, v.Calls env (.narrowingAsked n node) :=
    Walk.exists_visit_of_mem_traceOf hcall
  have hplaced : ∀ v ∈ visitsOf report.events, v.WellPlaced fragments roots :=
    (Walk.keeps_wellPlaced env type roots).visits
  cases hcalls with
  | narrowing hn =>
      have hstands := hn.standsAt
      obtain ⟨hencloses, hyields⟩ := yielded_of_mem_visitsOf hv n.field hstands.field
      rw [← hstands.type] at hyields
      refine ⟨hstands.abstract, hstands.other, hstands.member, hn.isOn (hplaced v hv), v, hv, hn,
        hencloses, fun u hu => ?_, hyields⟩
      have hvisited : u ∈ visitsOf report.events := hu.mem_visitsOf
      exact ⟨hvisited, (hplaced u hvisited).inside.found, hu.selects hstands.field⟩

/-- A member that is abstract and narrowed once more: the hook is told of the outer field twice. -/
theorem narrowing_told_of_outer_field :
    let schema : Schema :=
      ⟨[⟨"Query", .object [⟨"node", .named "Node", none⟩] [], none⟩,
        ⟨"Node", .interface [⟨"id", .named "ID", none⟩], none⟩,
        ⟨"Named", .interface [⟨"name", .named "ID", none⟩], none⟩,
        ⟨"User", .object [⟨"id", .named "ID", none⟩, ⟨"name", .named "ID", none⟩]
          ["Node", "Named"], none⟩]⟩
    let hooks : Hooks := ⟨none, none, some NarrowingRule.members.hook⟩
    let roots : List RootNode :=
      [.operation [.branch "node" none
        [.fragment (some "Named") [.fragment (some "User") [.leaf "name" none]]]]]
    let report := maskPaths "Query" roots ∅ schema (some hooks)
    let field : FieldDef := ⟨"node", .named "Node", none⟩
    let outer : Narrowing := ⟨"Node", "Named", none, field⟩
    let inner : Narrowing := ⟨"Named", "User", none, field⟩
    traceOf report.events =
        [.narrowingAsked outer ⟨.root 0, [0, 0]⟩, .narrowingAsked inner ⟨.root 0, [0, 0, 0]⟩,
          .membersAnswered ⟨.root 0, [0, 0, 0]⟩ ["name"], .membersAnswered ⟨.root 0, [0, 0]⟩ ["name"]] ∧
      ¬ ∀ n node, .narrowingAsked n node ∈ traceOf report.events →
        n.field.namedType = n.abstractType := by
  intro schema hooks roots report field outer inner
  have htrace : traceOf report.events =
      [.narrowingAsked outer ⟨.root 0, [0, 0]⟩, .narrowingAsked inner ⟨.root 0, [0, 0, 0]⟩,
        .membersAnswered ⟨.root 0, [0, 0, 0]⟩ ["name"],
        .membersAnswered ⟨.root 0, [0, 0]⟩ ["name"]] := by
    decide +kernel
  refine ⟨htrace, fun hyields => ?_⟩
  have hinner : inner.field.namedType = inner.abstractType :=
    hyields inner _ (htrace ▸ List.mem_cons_of_mem _ List.mem_cons_self)
  exact absurd hinner (by decide)

end SelectionMask
