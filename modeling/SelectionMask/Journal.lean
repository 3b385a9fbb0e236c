import SelectionMask.Hooks.Basic
import SelectionMask.Walk.Visit

set_option autoImplicit false

/-! # Journals

What a computation does, in order: the selections it visits, the hooks it calls, the answers it
gives to a hook's requests, and the notes it leaves for a debugging reader. The visits, the trace of
the hooks and the log are three parts of one journal. -/

namespace SelectionMask

/-- A note for a debugging reader. -/
inductive Note where
  /-- A computation begins, with so many root nodes. -/
  | computing (type : Name) (nodes : Nat)
  /-- A computation ends with so many paths. -/
  | computed (paths : Nat) (type : Name)
  /-- A field is dropped because it has no name. -/
  | skipped (type field : Name)
  /-- A fragment narrows an abstract type, and no hook decides about it. -/
  | ignoredNarrowing (fragmentType type : Name)
  /-- A fragment is on another type than the values at hand have. -/
  | ignoredUnrelated (fragmentType type : Name)
deriving DecidableEq, Repr

/-- The text of the note. -/
def Note.message : Note → String
  | computing type nodes =>
      "Computing field mask paths for " ++ type ++ " (" ++ toString nodes ++ " nodes)"
  | computed paths type => "Computed " ++ toString paths ++ " field mask paths for " ++ type
  | skipped type field => "Skipping " ++ type ++ "." ++ field ++ ": no field mask name"
  | ignoredNarrowing fragmentType type =>
      "Ignoring fragment on " ++ fragmentType ++ " inside abstract type " ++ type
  | ignoredUnrelated fragmentType type =>
      "Ignoring fragment on " ++ fragmentType ++ " inside unrelated type " ++ type

/-- A call of a hook, or an answer to a request that a hook makes. -/
inductive HookEvent where
  | extraPathsAsked (site : FieldSite) (node : Address)
  | fieldNamesAsked (site : FieldSite) (node : Address)
  | narrowingAsked (narrowing : Narrowing) (node : Address)
  /-- The member's own paths are handed to the narrowing hook. -/
  | membersAnswered (node : Address) (paths : List String)
deriving DecidableEq, Repr

/-- One entry of the journal. -/
inductive Event where
  | visit (visit : Visit)
  | hook (event : HookEvent)
  | note (note : Note)
deriving Repr

namespace Event

/-- The visit, if the event is one. -/
def visit? : Event → Option Visit
  | visit v => some v
  | _ => none

/-- The call or answer, if the event is one. -/
def hook? : Event → Option HookEvent
  | hook event => some event
  | _ => none

/-- The note, if the event is one. -/
def note? : Event → Option Note
  | note n => some n
  | _ => none

end Event

/-- The visits among the events, in order. -/
def visitsOf (events : List Event) : List Visit :=
  events.filterMap Event.visit?

/-- The hook calls and answers among the events, in order. -/
def traceOf (events : List Event) : List HookEvent :=
  events.filterMap Event.hook?

/-- The notes among the events, in order. -/
def logOf (events : List Event) : List Note :=
  events.filterMap Event.note?

@[simp] theorem visitsOf_append (events later : List Event) :
    visitsOf (events ++ later) = visitsOf events ++ visitsOf later :=
  List.filterMap_append

@[simp] theorem traceOf_append (events later : List Event) :
    traceOf (events ++ later) = traceOf events ++ traceOf later :=
  List.filterMap_append

@[simp] theorem logOf_append (events later : List Event) :
    logOf (events ++ later) = logOf events ++ logOf later :=
  List.filterMap_append

end SelectionMask
