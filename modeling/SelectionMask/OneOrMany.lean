set_option autoImplicit false

/-! # One or many

Where a schema or a hook gives names, it may give a single one or a list. A single one counts as
itself and never as its characters; the list form may be empty. -/

namespace SelectionMask

/-- A single thing, or a list of them. -/
inductive OneOrMany (α : Type) where
  | one (a : α)
  | many (as : List α)
deriving DecidableEq, Repr

namespace OneOrMany

variable {α β ε : Type}

/-- The things as a list. -/
def toList : OneOrMany α → List α
  | one a => [a]
  | many as => as

@[simp] theorem toList_one (a : α) : (one a).toList = [a] := rfl

@[simp] theorem toList_many (as : List α) : (many as).toList = as := rfl

/-- Apply a rule to each element, left to right, and join what it gives by one level: a list gives
    its elements, a single result itself. The first failure stops the run. -/
def flatMap (rule : α → Except ε (OneOrMany β)) : List α → Except ε (List β)
  | [] => .ok []
  | a :: as => do
      let first ← rule a
      let others ← flatMap rule as
      return first.toList ++ others

end OneOrMany

end SelectionMask
