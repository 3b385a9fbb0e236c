import SelectionMask.MaskError

set_option autoImplicit false

/-! # Strategies for narrowed members

A fragment that narrows an abstract type to a member leaves it to a hook what paths the member
gives. The hook answers with a strategy: it may ask for the member's own paths, any finite number of
times, may go on after an error that such a request meets, and ends with paths or with a refusal. A
strategy sees nothing of the walk but the answers to its requests, so it cannot disturb it.

An attempt goes on after every error of the query, and after nothing else. So there is no strategy for
a hook that catches some of these errors and lets others pass, for one that catches the refusals of
other hooks or whatever may go wrong, nor for one that ends with an error of the query itself. -/

namespace SelectionMask

/-- What to do about the paths of a narrowed member. -/
inductive Strategy where
  /-- Give these paths. -/
  | answer (paths : List String)
  /-- Refuse, with a text. -/
  | refuse (text : String)
  /-- Ask for the member's own paths. An error ends the strategy. -/
  | ask (next : List String → Strategy)
  /-- Ask for the member's own paths, and go on also after an error of the query. -/
  | attempt (next : List String → Strategy) (handle : MaskError → Strategy)

/-- Put a segment in front of a path. -/
def joinPath (segment path : String) : String :=
  segment ++ "." ++ path

namespace Strategy

/-- How an attempt goes on after its request. -/
def resume (next : List String → Strategy) (handle : MaskError → Strategy) :
    Except MaskError (List String) → Strategy
  | .ok paths => next paths
  | .error error => handle error

/-- Follow a strategy and go on with the paths it gives. -/
def bind : Strategy → (List String → Strategy) → Strategy
  | answer paths, k => k paths
  | refuse text, _ => refuse text
  | ask next, k => ask fun paths => (next paths).bind k
  | attempt next handle, k =>
      attempt (fun paths => (next paths).bind k) fun error => (handle error).bind k

/-- Follow two strategies in turn and give the paths of both. -/
def append (first second : Strategy) : Strategy :=
  first.bind fun paths => second.bind fun others => answer (paths ++ others)

instance : Append Strategy := ⟨append⟩

/-- Give the member's own paths. -/
def members : Strategy :=
  ask answer

/-- Give the member's own paths, each under a segment. Without a segment the member is left out and
    its paths are never asked for. -/
def underSegment : Option String → Strategy
  | none => answer []
  | some segment => ask fun paths => answer (paths.map (joinPath segment))

/-- Give the member's own paths, or in their place a single entry that shows the error. -/
def guarded : Strategy :=
  attempt answer fun error => answer ["!" ++ error.label ++ ": " ++ error.message]

/-- What the strategy comes to when every request gets the same paths, and how many requests it
    makes. -/
def play (paths : List String) : Strategy → Except String (List String) × Nat
  | answer result => (.ok result, 0)
  | refuse text => (.error text, 0)
  | ask next => let (result, n) := (next paths).play paths; (result, n + 1)
  | attempt next _ => let (result, n) := (next paths).play paths; (result, n + 1)

@[simp] theorem answer_bind (paths : List String) (k : List String → Strategy) :
    (answer paths).bind k = k paths := rfl

@[simp] theorem refuse_bind (text : String) (k : List String → Strategy) :
    (refuse text).bind k = refuse text := rfl

@[simp] theorem ask_bind (next k : List String → Strategy) :
    (ask next).bind k = ask fun paths => (next paths).bind k := rfl

@[simp] theorem attempt_bind (next : List String → Strategy) (handle : MaskError → Strategy)
    (k : List String → Strategy) :
    (attempt next handle).bind k
      = attempt (fun paths => (next paths).bind k) fun error => (handle error).bind k := rfl

end Strategy

end SelectionMask
