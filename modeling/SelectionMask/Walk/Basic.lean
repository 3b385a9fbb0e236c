import SelectionMask.Document.FragmentTable
import SelectionMask.Hooks.Basic
import SelectionMask.Schema.Lookup
import SelectionMask.Walk.Monad

set_option autoImplicit false

/-! # Walking selections

A walk reads a selection set at a type and gives the paths of what is selected, in order and with
repetitions. A field at an object type gives its extra paths and then its names, each in front of
the paths below it. A fragment is entered, ignored, or left to the narrowing hook, as
`Walk.enterFragment` says. A spread is the fragment it names, in the definition's own place, and
must not stand inside its own expansion.

Each step is a function of `descend`, the walk one level deeper; `Walk.selectionsUpTo` ties the knot
with a bound on the depth. `Walk.selections` computes a bound that is always enough: the depth of
the selections at hand, and the depth of each definition that is not being expanded yet, since no
definition is expanded inside itself. -/

namespace SelectionMask

/-- What a walk reads and never changes. -/
structure Env where
  schema : Schema
  fragments : FragmentTable
  hooks : Hooks

/-- The paths of a selection set, given its place in the schema and the address of its node. -/
abbrev Descend := Frame → Address → List Selection → Walk (List String)

/-- Every name in front of every path: the names take turns, each with all the paths. -/
def joinAll (names paths : List String) : List String :=
  names.flatMap fun name => paths.map (joinPath name)

@[simp] theorem joinAll_singleton (name : String) (paths : List String) :
    joinAll [name] paths = paths.map (joinPath name) := by
  simp [joinAll]

theorem mem_joinAll_iff {names paths : List String} {path : String} :
    path ∈ joinAll names paths ↔
      ∃ name ∈ names, ∃ rest ∈ paths, path = joinPath name rest := by
  simp [joinAll, eq_comm]

namespace Strategy

/-- Follow a strategy, given the walk that finds the member's own paths. -/
def follow (members : Walk (List String)) : Strategy → Walk (List String)
  | answer paths => pure paths
  | refuse text => Walk.fail (.refused text)
  | ask next => do
      let paths ← members
      (next paths).follow members
  | attempt next handle =>
      members.caught >>= fun
        | .ok paths => (next paths).follow members
        | .error error => (handle error).follow members

variable (members : Walk (List String))

@[simp] theorem follow_answer (paths : List String) :
    (answer paths).follow members = pure paths := rfl

@[simp] theorem follow_refuse (text : String) :
    (refuse text).follow members = Walk.fail (.refused text) := rfl

@[simp] theorem follow_ask (next : List String → Strategy) :
    (ask next).follow members = members >>= fun paths => (next paths).follow members := rfl

theorem follow_attempt (next : List String → Strategy) (handle : MaskError → Strategy) :
    (attempt next handle).follow members =
      members.caught >>= fun result => (resume next handle result).follow members := by
  rw [follow]
  congr 1
  funext result
  cases result <;> rfl

end Strategy

namespace Walk

/-! ## Fields -/

/-- The paths added next to a field. -/
def extraPathsOf (env : Env) (site : FieldSite) (node : Address) : Walk (List String) :=
  match env.hooks.extraPaths with
  | none => return []
  | some hook => do
      emit (.hook (.extraPathsAsked site node))
      hooked (hook site)

/-- The names of a field, or none if it is dropped. Without a hook a field goes by its own name and
    never by its alias. -/
def namesOf (env : Env) (site : FieldSite) (node : Address) : Walk (Option (List String)) :=
  match env.hooks.fieldNames with
  | none => return some [site.field.name]
  | some hook => do
      emit (.hook (.fieldNamesAsked site node))
      return (← hooked (hook site)).map OneOrMany.toList

/-- The names of a field that has no selection set; else the paths below it under each of them. The
    selections are walked once, at the named type of the field, also if there are no names. -/
def pathsBelow (descend : Descend) (field : FieldDef) (node : Address) (names : List String) :
    Option (List Selection) → Walk (List String)
  | none => return names
  | some selections => do
      let below ← descend ⟨field.namedType, some field⟩ node selections
      return joinAll names below

/-- The paths of a field selection. -/
def field (env : Env) (descend : Descend) (type : Name) (node : Address) (name : Name)
    (aliasName : Option String) (selections : Option (List Selection)) : Walk (List String) :=
  if name = typenameField then
    return []
  else do
    let definition ← blaming (some node) (env.schema.fieldNamed type name)
    let site : FieldSite := ⟨type, definition, aliasName⟩
    let extra ← extraPathsOf env site node
    match ← namesOf env site node with
    | none =>
        note (.skipped type name)
        return extra
    | some names => return extra ++ (← pathsBelow descend definition node names selections)

/-! ## Fragments -/

/-- The member's own paths, as a hook gets them when it asks: those of the member's selections at
    the member's type. -/
def memberPaths (descend : Descend) (narrowing : Narrowing) (node : Address)
    (selections : List Selection) : Walk (List String) := do
  let paths ← descend ⟨narrowing.concreteType, some narrowing.field⟩ node selections
  emit (.hook (.membersAnswered node paths))
  return paths

/-- The paths of a member that narrows an abstract type, as the hook decides. -/
def narrow (descend : Descend) (hook : NarrowingHook) (narrowing : Narrowing) (node : Address)
    (selections : List Selection) : Walk (List String) := do
  emit (.hook (.narrowingAsked narrowing node))
  (hook narrowing).follow (memberPaths descend narrowing node selections)

/-- The paths of a fragment. At an abstract type, a fragment on that very type is read in place, and
    any other is a member left to the narrowing hook, or ignored without one. At any other type, a
    fragment on that type or on an abstract type is read in place, and one on an unrelated type is
    ignored. -/
def enterFragment (env : Env) (descend : Descend) (frame : Frame) (condition : Name)
    (node : Address) (selections : List Selection) : Walk (List String) := do
  let target ← blaming (some node) (env.schema.typeNamed condition)
  let current ← blaming (some node) (env.schema.typeNamed frame.type)
  if current.isAbstract then
    if condition = frame.type then
      descend frame node selections
    else
      match env.hooks.narrowing with
      | none =>
          note (.ignoredNarrowing condition frame.type)
          return []
      | some hook =>
          match frame.enclosing with
          | none => fail (.noEnclosingField condition frame.type)
          | some field =>
              narrow descend hook ⟨frame.type, condition, target.metadata, field⟩ node selections
  else if condition ≠ frame.type ∧ target.isAbstract = false then
    note (.ignoredUnrelated condition frame.type)
    return []
  else
    descend frame node selections

/-- The paths of a spread: those of the fragment it names, in the place of its definition. -/
def spread (env : Env) (descend : Descend) (frame : Frame) (node : Address) (fragment : Name) :
    Walk (List String) := do
  match env.fragments.find? fragment with
  | none => fail (.mask (.unknownFragment fragment) (some node))
  | some definition =>
      if fragment ∈ (← expanding) then
        fail (.mask (.fragmentCycle fragment) (some node))
      else
        within fragment
          (enterFragment env descend frame definition.condition (.definition fragment)
            definition.selections)

theorem spread_of_undefined {env : Env} {fragment : Name}
    (h : env.fragments.find? fragment = none) (descend : Descend) (frame : Frame)
    (node : Address) :
    spread env descend frame node fragment
      = fail (.mask (.unknownFragment fragment) (some node)) := by
  rw [spread, h]

/-- A spread inside its own expansion. -/
theorem run_spread_of_mem {env : Env} {fragment : Name} {definition : Fragment}
    {names : List Name} (h : env.fragments.find? fragment = some definition)
    (hmem : fragment ∈ names) (descend : Descend) (frame : Frame) (node : Address) :
    (spread env descend frame node fragment).run names
      = (fail (.mask (.fragmentCycle fragment) (some node)) : Walk (List String)).run names := by
  rw [spread, h]
  dsimp only
  rw [run_bind_of_ok (run_expanding names), if_pos hmem]
  rfl

/-- A spread of a fragment that is not being expanded yet. -/
theorem run_spread_of_notMem {env : Env} {fragment : Name} {definition : Fragment}
    {names : List Name} (h : env.fragments.find? fragment = some definition)
    (hmem : fragment ∉ names) (descend : Descend) (frame : Frame) (node : Address) :
    (spread env descend frame node fragment).run names
      = (within fragment
          (enterFragment env descend frame definition.condition (.definition fragment)
            definition.selections)).run names := by
  rw [spread, h]
  dsimp only
  rw [run_bind_of_ok (run_expanding names), if_neg hmem]
  rfl

/-! ## Selection sets -/

/-- The paths of one selection, by what it is. -/
def pathsOf (env : Env) (descend : Descend) (frame : Frame) (node : Address) :
    Selection → Walk (List String)
  | .leaf name aliasName => field env descend frame.type node name aliasName none
  | .branch name aliasName selections =>
      field env descend frame.type node name aliasName (some selections)
  | .spread fragment => spread env descend frame node fragment
  | .fragment condition selections =>
      enterFragment env descend frame (conditionAt condition frame.type) node selections
  | .other kind => fail (.unexpectedSelection kind)

/-- The paths of one selection, whose visit is recorded first. -/
def selection (env : Env) (descend : Descend) (frame : Frame) (node : Address) (s : Selection) :
    Walk (List String) := do
  visit frame node s
  pathsOf env descend frame node s

/-- The paths of selections in turn, the first of which stands at a given position of the node. -/
def selectionsFrom (env : Env) (descend : Descend) (frame : Frame) (node : Address) :
    Nat → List Selection → Walk (List String)
  | _, [] => return []
  | index, s :: rest => do
      let paths ← selection env descend frame (node.child index) s
      return paths ++ (← selectionsFrom env descend frame node (index + 1) rest)

/-- The paths of a selection set, within a bound on how deep selection sets nest. -/
def selectionsUpTo (env : Env) : Nat → Descend
  | 0 => fun _ _ _ => fail .exhausted
  | depth + 1 => fun frame node selections =>
      selectionsFrom env (selectionsUpTo env depth) frame node 0 selections

/-- A depth that is enough for the selections while the given fragments are being expanded: their
    own, and that of every definition that may still be expanded. -/
def depthBound (fragments : FragmentTable) (expanding : List Name) (selections : List Selection) :
    Nat :=
  1 + Selection.depthOf selections
    + FragmentTable.totalDepth (fragments.entries.filter fun entry => entry.1 ∉ expanding)

@[simp] theorem selectionsFrom_nil (env : Env) (descend : Descend) (frame : Frame)
    (node : Address) (index : Nat) : selectionsFrom env descend frame node index [] = return [] :=
  rfl

theorem selectionsFrom_cons (env : Env) (descend : Descend) (frame : Frame) (node : Address)
    (index : Nat) (s : Selection) (rest : List Selection) :
    selectionsFrom env descend frame node index (s :: rest) = (do
      let paths ← selection env descend frame (node.child index) s
      let others ← selectionsFrom env descend frame node (index + 1) rest
      return paths ++ others) := rfl

@[simp] theorem selectionsUpTo_zero (env : Env) (frame : Frame) (node : Address)
    (ss : List Selection) : selectionsUpTo env 0 frame node ss = fail .exhausted := rfl

theorem selectionsUpTo_succ (env : Env) (depth : Nat) (frame : Frame) (node : Address)
    (ss : List Selection) :
    selectionsUpTo env (depth + 1) frame node ss =
      selectionsFrom env (selectionsUpTo env depth) frame node 0 ss := rfl

/-- The paths of a selection set. -/
def selections (env : Env) : Descend := fun frame node selections => do
  selectionsUpTo env (depthBound env.fragments (← expanding) selections) frame node selections

@[simp] theorem run_selections (env : Env) (frame : Frame) (node : Address)
    (ss : List Selection) (names : List Name) :
    (selections env frame node ss).run names =
      (selectionsUpTo env (depthBound env.fragments names ss) frame node ss).run names := rfl

end Walk

end SelectionMask
