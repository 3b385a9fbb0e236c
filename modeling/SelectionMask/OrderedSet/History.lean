import SelectionMask.OrderedSet.Basic
import SelectionMask.Value.Basic

set_option autoImplicit false

/-! # Histories of an ordered set

A history is a list of steps that grow a set or ask it something. `OrderedSet.run` plays it and
shows, after each step, the answer and the elements held; `OrderedStep.given` lists the elements a
step hands over, which is all a later set depends on. -/

namespace SelectionMask

/-- One step in the life of an ordered set. -/
inductive OrderedStep (α : Type) where
  | add (a : α)
  | update (as : List α)
  /-- Update the set with its own elements. -/
  | updateSelf
  /-- Go on with a new set built from the elements of this one. -/
  | copy
  | contains (a : α)
  | nonempty
  | print
deriving Repr

/-- What a step answers. -/
inductive StepAnswer where
  | done
  | truth (b : Bool)
  | printed (text : String)
deriving DecidableEq, Repr

namespace OrderedSet

/-- The printed form of a set, given how an element is written. -/
def render {α : Type} (write : α → String) (s : OrderedSet α) : String :=
  "OrderedSet([" ++ ", ".intercalate (s.toList.map write) ++ "])"

variable {α : Type} [DecidableEq α]

/-- The set after a step. -/
def step (s : OrderedSet α) : OrderedStep α → OrderedSet α
  | .add a => s.add a
  | .update as => s.update as
  | .updateSelf => s.update s.toList
  | .copy => ofList s.toList
  | .contains _ | .nonempty | .print => s

/-- The answer to a step, asked of the set before it. -/
def answer (write : α → String) (s : OrderedSet α) : OrderedStep α → StepAnswer
  | .add _ | .update _ | .updateSelf | .copy => .done
  | .contains a => .truth (decide (a ∈ s))
  | .nonempty => .truth (!s.toList.isEmpty)
  | .print => .printed (s.render write)

/-- Play the steps in order: each answer with the set as it is after the step. -/
def run (write : α → String) (s : OrderedSet α) :
    List (OrderedStep α) → List (StepAnswer × OrderedSet α)
  | [] => []
  | st :: rest => (s.answer write st, s.step st) :: run write (s.step st) rest

/-- The set at the end of a history. -/
def after (s : OrderedSet α) (steps : List (OrderedStep α)) : OrderedSet α :=
  steps.foldl step s

end OrderedSet

/-- The elements that a step hands over to the set. -/
def OrderedStep.given {α : Type} : OrderedStep α → List α
  | add a => [a]
  | update as => as
  | _ => []

end SelectionMask
