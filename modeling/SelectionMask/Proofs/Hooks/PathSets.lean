import Mathlib.Order.CompletePartialOrder
import Mathlib.Order.ConditionallyCompleteLattice.Basic
import SelectionMask.Proofs.Walk.Steps

set_option autoImplicit false

/-! # Hooks and sets of paths

What an outcome says once order and repetitions are left aside: `pathSet` is the set of its paths,
with failure on top of all sets. Where paths are put together these sets are joined, and a failure
of any part is a failure of the whole, so it does not matter which part comes first.

A hook for members may do anything with the list of paths that it gets. What it makes of a set is
only determined if it takes the list as a set (`Strategy.TakesSets`), as all hooks described by
rules do, and if no error is hidden from the outcome (`Strategy.NeverCatches`). -/

namespace SelectionMask

/-! ## Sets of paths -/

section

variable {ε ε' : Type}

/-- The set of the paths; a failure is greater than every set. -/
def pathSet : Except ε (List String) → WithTop (Set String)
  | .ok paths => ↑{path | path ∈ paths}
  | .error _ => ⊤

/-- Both outcomes are failures, or both have paths and these are the same, but perhaps in another
    order or repeated. -/
def SamePaths (outcome other : Except ε (List String)) : Prop :=
  (∃ failure failure', outcome = .error failure ∧ other = .error failure') ∨
  ∃ paths paths', outcome = .ok paths ∧ other = .ok paths' ∧ ∀ path, path ∈ paths ↔ path ∈ paths'

@[simp] theorem pathSet_error (e : ε) : pathSet (.error e) = ⊤ := rfl

theorem pathSet_ok (paths : List String) :
    pathSet (.ok paths : Except ε (List String)) = ↑{path | path ∈ paths} := rfl

theorem pathSet_ok_eq_iff {paths paths' : List String} :
    pathSet (.ok paths : Except ε (List String)) = pathSet (.ok paths' : Except ε' (List String)) ↔
      ∀ path, path ∈ paths ↔ path ∈ paths' := by
  rw [pathSet_ok, pathSet_ok, WithTop.coe_inj, Set.ext_iff]
  rfl

@[simp] theorem pathSet_ok_nil : pathSet (.ok [] : Except ε (List String)) = ⊥ := by
  rw [pathSet_ok, ← WithTop.coe_bot, WithTop.coe_inj]
  simp

@[simp] theorem pathSet_mapError (f : ε → ε') (outcome : Except ε (List String)) :
    pathSet (outcome.mapError f) = pathSet outcome := by
  cases outcome <;> rfl

/-- Repetitions make no difference to the set. -/
@[simp] theorem pathSet_map_eraseDups (outcome : Except ε (List String)) :
    pathSet (outcome.map List.eraseDups) = pathSet outcome := by
  cases outcome with
  | error e => rfl
  | ok paths => exact pathSet_ok_eq_iff.2 fun path => List.mem_eraseDups

/-- Paths behind given ones: the sets are joined. -/
theorem pathSet_map_append (paths : List String) (outcome : Except ε (List String)) :
    pathSet (outcome.map (paths ++ ·)) = ↑{path | path ∈ paths} ⊔ pathSet outcome := by
  cases outcome with
  | error e => rfl
  | ok others =>
      have hset : {path | path ∈ paths ++ others}
          = {path | path ∈ paths} ∪ {path | path ∈ others} :=
        Set.ext fun path => List.mem_append
      exact congrArg WithTop.some hset

theorem pathSet_map_joinAll (names : List String) (outcome : Except ε (List String)) :
    pathSet (outcome.map (joinAll names))
      = (pathSet outcome).map (Set.image2 joinPath {name | name ∈ names}) := by
  cases outcome with
  | error e => rfl
  | ok paths =>
      have hset : {path | path ∈ joinAll names paths}
          = Set.image2 joinPath {name | name ∈ names} {path | path ∈ paths} := by
        ext path
        simp [mem_joinAll_iff, Set.mem_image2, eq_comm]
      exact congrArg WithTop.some hset

theorem samePaths_iff {outcome other : Except ε (List String)} :
    SamePaths outcome other ↔ pathSet outcome = pathSet other := by
  cases outcome with
  | error e => cases other <;> simp [SamePaths, pathSet]
  | ok paths =>
      cases other with
      | error e => simp [SamePaths, pathSet]
      | ok paths' => simp [SamePaths, pathSet_ok_eq_iff]

/-- Names stand in front of joined sets as they do in front of each. -/
theorem map_image2_sup (names : Set String) (found others : WithTop (Set String)) :
    (found ⊔ others).map (Set.image2 joinPath names)
      = found.map (Set.image2 joinPath names) ⊔ others.map (Set.image2 joinPath names) := by
  cases found with
  | top => simp
  | coe found =>
      cases others with
      | top => simp
      | coe others => exact congrArg WithTop.some Set.image2_union_right

end

/-! ## Strategies -/

namespace Strategy

/-- The strategy never goes on after an error. -/
def NeverCatches : Strategy → Prop
  | answer _ => True
  | refuse _ => True
  | ask next => ∀ paths, (next paths).NeverCatches
  | attempt _ _ => False

/-- The strategy takes the paths that it gets as a set, and gives a set. -/
def TakesSets (s : Strategy) : Prop :=
  ∀ paths paths', (∀ path, path ∈ paths ↔ path ∈ paths') →
    SamePaths (s.play paths).1 (s.play paths').1

theorem NeverCatches.bind {s : Strategy} (hs : s.NeverCatches) {k : List String → Strategy}
    (hk : ∀ paths, (k paths).NeverCatches) : (s.bind k).NeverCatches := by
  induction s with
  | answer paths => exact hk paths
  | refuse text => exact trivial
  | ask next ih => exact fun paths => ih paths (hs paths)
  | attempt next handle _ _ => exact hs.elim

theorem NeverCatches.append {s t : Strategy} (hs : s.NeverCatches) (ht : t.NeverCatches) :
    (s ++ t).NeverCatches :=
  hs.bind fun _ => ht.bind fun _ => trivial

/-- What a strategy comes to if requests succeed. -/
theorem against_ok (paths : List String) (s : Strategy) :
    (s.against (.ok paths)).1 = (s.play paths).1.mapError .refused := by
  induction s with
  | answer result => rfl
  | refuse text => rfl
  | ask next ih => exact ih paths
  | attempt next handle ih _ => exact ih paths

/-- **What a strategy makes of a set is a set**, if it takes sets and does not catch errors. -/
theorem pathSet_against {s : Strategy} (hcatch : s.NeverCatches) (hset : s.TakesSets)
    {met met' : Except Failure (List String)} (h : pathSet met = pathSet met') :
    pathSet (s.against met).1 = pathSet (s.against met').1 := by
  cases met with
  | ok paths =>
      cases met' with
      | ok paths' =>
          rw [against_ok, against_ok, pathSet_mapError, pathSet_mapError]
          exact samePaths_iff.1 (hset paths paths' (pathSet_ok_eq_iff.1 h))
      | error failure => simp [pathSet_ok] at h
  | error failure =>
      cases met' with
      | ok paths' => simp [pathSet_ok] at h
      | error failure' =>
          -- The first request settles it, and without any the error is not met.
          cases s with
          | answer paths => rfl
          | refuse text => rfl
          | ask next => rfl
          | attempt next handle => exact hcatch.elim

end Strategy

/-! ## Hooks -/

namespace Hooks

/-- The hooks for fields depend on the type and the field, but not on the alias. -/
def IgnoreAliases (hooks : Hooks) : Prop :=
  ∀ type field aliasName other,
    hooks.namesAt ⟨type, field, aliasName⟩ = hooks.namesAt ⟨type, field, other⟩ ∧
    hooks.extraPathsAt ⟨type, field, aliasName⟩ = hooks.extraPathsAt ⟨type, field, other⟩

/-- The hook for members catches no errors. -/
def NeverCatch (hooks : Hooks) : Prop :=
  ∀ hook, hooks.narrowing = some hook → ∀ n, (hook n).NeverCatches

/-- The hook for members takes paths as sets. -/
def TakeSets (hooks : Hooks) : Prop :=
  ∀ hook, hooks.narrowing = some hook → ∀ n, (hook n).TakesSets

/-- The hooks settle which set of paths a query has, however it is arranged. -/
structure IgnoreArrangement (hooks : Hooks) : Prop where
  aliases : hooks.IgnoreAliases
  catches : hooks.NeverCatch
  sets : hooks.TakeSets

/-- What a field finds, given what is found under names: the paths added to it, and the paths under
    its names. -/
def fieldSet (hooks : Hooks) (site : FieldSite) (below : List String → WithTop (Set String)) :
    WithTop (Set String) :=
  pathSet (hooks.extraPathsAt site) ⊔
    match hooks.namesAt site with
    | .error _ => ⊤
    | .ok none => ⊥
    | .ok (some given) => below given

variable {hooks : Hooks}

theorem IgnoreAliases.fieldSet_eq (h : hooks.IgnoreAliases) (type : Name) (field : FieldDef)
    (aliasName other : Option String) (below : List String → WithTop (Set String)) :
    hooks.fieldSet ⟨type, field, aliasName⟩ below = hooks.fieldSet ⟨type, field, other⟩ below := by
  obtain ⟨hnames, hextra⟩ := h type field aliasName other
  rw [fieldSet, fieldSet, hnames, hextra]

/-- A field that finds two sets below it finds what two fields find. -/
theorem fieldSet_sup (site : FieldSite) (below others : List String → WithTop (Set String)) :
    hooks.fieldSet site (fun given => below given ⊔ others given)
      = hooks.fieldSet site below ⊔ hooks.fieldSet site others := by
  rw [fieldSet, fieldSet, fieldSet, ← sup_sup_distrib_left]
  congr 1
  rcases hooks.namesAt site with text | _ | given
  · simp
  · simp
  · rfl

/-! ## Hooks described by rules -/

theorem neverCatches_underSegments (segment : Narrowing → Except String (Option String))
    (n : Narrowing) : (underSegments segment n).NeverCatches := by
  unfold underSegments
  rcases segment n with text | _ | segment
  · exact trivial
  · exact trivial
  · exact fun _ => trivial

theorem takesSets_underSegments (segment : Narrowing → Except String (Option String))
    (n : Narrowing) : (underSegments segment n).TakesSets := by
  intro paths paths' h
  unfold underSegments
  rcases segment n with text | _ | segment
  · exact samePaths_iff.2 rfl
  · exact samePaths_iff.2 rfl
  · exact .inr ⟨_, _, rfl, rfl, fun path => by simp [h]⟩

end Hooks

/-- All hooks for members that rules describe take paths as sets. -/
theorem NarrowingRule.takesSets (rule : NarrowingRule) (n : Narrowing) :
    (rule.hook n).TakesSets := by
  cases rule with
  | segments rule => exact Hooks.takesSets_underSegments rule.segment n
  | members => exact fun paths paths' h => .inr ⟨paths, paths', rfl, rfl, h⟩
  | constant paths => exact fun _ _ _ => samePaths_iff.2 rfl
  | membersAndSegments rule =>
      change (Strategy.members ++ Hooks.underSegments rule.segment n).TakesSets
      unfold Hooks.underSegments
      intro paths paths' h
      rcases rule.segment n with text | _ | segment
      · exact samePaths_iff.2 rfl
      · exact .inr ⟨_, _, rfl, rfl, fun path => by simp [h]⟩
      · exact .inr ⟨_, _, rfl, rfl, fun path => by simp [h]⟩
  | guarded => exact fun paths paths' h => .inr ⟨paths, paths', rfl, rfl, h⟩
  | guardedTwice => exact fun paths paths' h => .inr ⟨_, _, rfl, rfl, fun path => by simp [h]⟩
  | refuse text => exact fun _ _ _ => samePaths_iff.2 rfl

/-- Of the hooks for members that rules describe only the guarded ones catch errors. -/
theorem NarrowingRule.neverCatches {rule : NarrowingRule} (honce : rule ≠ .guarded)
    (htwice : rule ≠ .guardedTwice) (n : Narrowing) : (rule.hook n).NeverCatches := by
  cases rule with
  | segments rule => exact Hooks.neverCatches_underSegments rule.segment n
  | members => exact fun _ => trivial
  | constant paths => exact trivial
  | membersAndSegments rule =>
      have hmembers : Strategy.members.NeverCatches := fun _ => trivial
      exact hmembers.append (Hooks.neverCatches_underSegments rule.segment n)
  | guarded => exact absurd rfl honce
  | guardedTwice => exact absurd rfl htwice
  | refuse text => exact trivial

namespace HookRules

variable (rules : HookRules)

/-- Of the defaults for names only `NameDefault.aliasOrOwn` goes by the alias. -/
theorem ignoreAliases (h : ∀ entries, rules.fieldNames ≠ some (.table entries .aliasOrOwn)) :
    rules.hooks.IgnoreAliases := by
  obtain ⟨fieldNames, extraPaths, narrowing⟩ := rules
  intro type field aliasName other
  constructor
  · rcases fieldNames with _ | _ | ⟨entries, default⟩
    · rfl
    · rfl
    · cases default with
      | aliasOrOwn => exact absurd rfl (h entries)
      | _ => rfl
  · rcases extraPaths with _ | _ | ⟨entries, templates⟩ <;> rfl

theorem takeSets : rules.hooks.TakeSets := by
  intro hook hhook n
  obtain ⟨rule, -, rfl⟩ := Option.map_eq_some_iff.1 hhook
  exact rule.takesSets n

theorem neverCatch (honce : rules.narrowing ≠ some .guarded)
    (htwice : rules.narrowing ≠ some .guardedTwice) : rules.hooks.NeverCatch := by
  intro hook hhook n
  obtain ⟨rule, hrule, rfl⟩ := Option.map_eq_some_iff.1 hhook
  refine NarrowingRule.neverCatches ?_ ?_ n
  · rintro rfl
    exact honce hrule
  · rintro rfl
    exact htwice hrule

end HookRules

end SelectionMask
