import SelectionMask.Hooks.Rules
import SelectionMask.Journal
import SelectionMask.Proofs.Schema.Unwrapped

set_option autoImplicit false

/-! # Hooks that see neither aliases nor wrappers

A field hook is told the alias of the selection and the type of the field with all its wrappers, and
a narrowing hook the type of the enclosing field. Hooks are blind if they make nothing of that. All
rules describe blind hooks, but for tables that fall back on the alias (`HookRules.blind`). -/

namespace SelectionMask

/-- The visit without the alias, and with nothing around the named type of the field. -/
def FieldSite.unadorned (site : FieldSite) : FieldSite :=
  ⟨site.parentType, site.field.unwrapped, none⟩

/-- The fragment, with nothing around the named type of the field it stands in. -/
def Narrowing.unadorned (n : Narrowing) : Narrowing :=
  { n with field := n.field.unwrapped }

/-- The event without alias and wrappers. -/
def HookEvent.unadorned : HookEvent → HookEvent
  | extraPathsAsked site node => extraPathsAsked site.unadorned node
  | fieldNamesAsked site node => fieldNamesAsked site.unadorned node
  | narrowingAsked n node => narrowingAsked n.unadorned node
  | membersAnswered node paths => membersAnswered node paths

/-- The hooks give the same whatever the alias is and whatever stands around the named type of the
    field. -/
structure Hooks.Blind (hooks : Hooks) : Prop where
  fieldNames : ∀ hook ∈ hooks.fieldNames, ∀ site : FieldSite, hook site.unadorned = hook site
  extraPaths : ∀ hook ∈ hooks.extraPaths, ∀ site : FieldSite, hook site.unadorned = hook site
  narrowing : ∀ hook ∈ hooks.narrowing, ∀ n : Narrowing, hook n.unadorned = hook n

namespace Hooks.Blind

variable {hooks : Hooks} {site site' : FieldSite}

theorem extraPaths_eq (h : hooks.Blind) {hook : ExtraHook} (hhook : hooks.extraPaths = some hook)
    (hsite : site.unadorned = site'.unadorned) : hook site = hook site' := by
  rw [← h.extraPaths hook hhook site, hsite, h.extraPaths hook hhook site']

theorem fieldNames_eq (h : hooks.Blind) {hook : NameHook} (hhook : hooks.fieldNames = some hook)
    (hsite : site.unadorned = site'.unadorned) : hook site = hook site' := by
  rw [← h.fieldNames hook hhook site, hsite, h.fieldNames hook hhook site']

theorem narrowing_eq (h : hooks.Blind) {hook : NarrowingHook} {n n' : Narrowing}
    (hhook : hooks.narrowing = some hook) (hn : n.unadorned = n'.unadorned) :
    hook n = hook n' := by
  rw [← h.narrowing hook hhook n, hn, h.narrowing hook hhook n']

end Hooks.Blind

/-! ## Rules -/

theorem NameRule.hook_unadorned {rule : NameRule} (h : ∀ entries, rule ≠ .table entries .aliasOrOwn)
    (site : FieldSite) : rule.hook site.unadorned = rule.hook site := by
  cases rule with
  | metadata => rfl
  | table entries default =>
      cases default with
      | aliasOrOwn => exact absurd rfl (h entries)
      | _ => rfl

theorem ExtraRule.hook_unadorned (rule : ExtraRule) (site : FieldSite) :
    rule.hook site.unadorned = rule.hook site := by
  cases rule <;> rfl

/-- A segment is chosen by the names of the two types and the metadata of the member. -/
theorem SegmentRule.segment_unadorned (rule : SegmentRule) (n : Narrowing) :
    rule.segment n.unadorned = rule.segment n := by
  obtain ⟨entries, default⟩ := rule
  cases default <;> rfl

theorem NarrowingRule.hook_unadorned (rule : NarrowingRule) (n : Narrowing) :
    rule.hook n.unadorned = rule.hook n := by
  cases rule with
  | segments rule | membersAndSegments rule =>
      simp only [hook, Hooks.underSegments, rule.segment_unadorned]
  | _ => rfl

/-- Only a table that falls back on the alias looks at it, and no rule looks at wrappers. -/
theorem HookRules.blind {rules : HookRules}
    (h : ∀ entries, rules.fieldNames ≠ some (.table entries .aliasOrOwn)) :
    rules.hooks.Blind where
  fieldNames hook hhook := by
    obtain ⟨rule, hrule, rfl⟩ := Option.map_eq_some_iff.1 hhook
    exact NameRule.hook_unadorned fun entries heq => h entries (hrule.trans (congrArg some heq))
  extraPaths hook hhook := by
    obtain ⟨rule, -, rfl⟩ := Option.map_eq_some_iff.1 hhook
    exact rule.hook_unadorned
  narrowing hook hhook := by
    obtain ⟨rule, -, rfl⟩ := Option.map_eq_some_iff.1 hhook
    exact rule.hook_unadorned

end SelectionMask
