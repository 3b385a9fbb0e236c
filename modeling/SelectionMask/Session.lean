import SelectionMask.Extraction

set_option autoImplicit false

/-! # Sessions

A session keeps an extractor and a table of fragments and changes them between computations. What a
computation answers depends on the hooks and fragments at that moment and on nothing else that
happened before. -/

namespace SelectionMask

/-- The way in which a mask is asked for. -/
inductive Entrance where
  /-- Everything is given. -/
  | direct
  /-- From what a resolver is told. -/
  | resolveInfo
  /-- Through an extractor. -/
  | extractor
  /-- Through an extractor, from what a resolver is told. -/
  | extractorResolveInfo
deriving DecidableEq, Repr

/-- The mask of the nodes at a type, asked for in one of the ways. -/
def Entrance.maskPaths (entrance : Entrance) (type : Name) (nodes : List RootNode)
    (fragments : FragmentTable) (schema : Schema) (hooks : Option Hooks) : Report :=
  match entrance with
  | direct => SelectionMask.maskPaths type nodes fragments schema hooks
  | resolveInfo => (ResolveInfo.mk nodes fragments schema).maskPaths type hooks
  | extractor => (Extractor.ofHooks hooks).maskPaths type nodes fragments schema
  | extractorResolveInfo =>
      (Extractor.ofHooks hooks).maskPathsOf type ⟨nodes, fragments, schema⟩

/-- One step of a session. -/
inductive SessionStep where
  | compute (entrance : Entrance) (type : Name) (nodes : List RootNode)
  | setHook (change : HookChange)
  /-- Go on with another extractor. -/
  | newExtractor (hooks : Option Hooks)
  | setFragment (name : Name) (fragment : Fragment)
  | eraseFragment (name : Name)

/-- What a session answers to a step. -/
inductive SessionAnswer where
  | report (report : Report)
  /-- The hooks that are set and the fragments that are defined after the step. -/
  | state (hooks : List HookKind) (fragments : List Name)

/-- The hooks and fragments of a session. -/
structure Session where
  extractor : Extractor
  fragments : FragmentTable

namespace Session

/-- The session at the start. -/
def start (hooks : Option Hooks) (fragments : FragmentTable) : Session :=
  ⟨Extractor.ofHooks hooks, fragments⟩

/-- The session after a step. A computation leaves it as it is. -/
def step (session : Session) : SessionStep → Session
  | .compute _ _ _ => session
  | .setHook change => { session with extractor := ⟨session.extractor.hooks.change change⟩ }
  | .newExtractor hooks => { session with extractor := Extractor.ofHooks hooks }
  | .setFragment name fragment =>
      { session with fragments := session.fragments.insert name fragment }
  | .eraseFragment name => { session with fragments := session.fragments.erase name }

/-- What the session shows of its state. -/
def shown (session : Session) : SessionAnswer :=
  .state session.extractor.hooks.present session.fragments.sortedNames

/-- The answer to a step. -/
def answer (schema : Schema) (session : Session) (st : SessionStep) : SessionAnswer :=
  match st with
  | .compute entrance type nodes =>
      .report
        (entrance.maskPaths type nodes session.fragments schema (some session.extractor.hooks))
  | st => (session.step st).shown

/-- The answers to all steps, in turn. -/
def run (schema : Schema) (session : Session) : List SessionStep → List SessionAnswer
  | [] => []
  | st :: rest => session.answer schema st :: run schema (session.step st) rest

/-- The session after all steps. -/
def after (session : Session) (steps : List SessionStep) : Session :=
  steps.foldl step session

end Session

end SelectionMask
