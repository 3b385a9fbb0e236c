import SelectionMask.Value.Basic

set_option autoImplicit false

/-! # Element rules

The rules an element of a series may be replaced by. A rule answers with one value or with many;
`ElementRule.expand` replaces every element and joins the answers by one level, so a list inside an
answer stays a list. -/

namespace SelectionMask

/-- What to put in the place of an element. -/
inductive ElementRule where
  /-- The element itself. -/
  | keep
  /-- A text with its ASCII letters in upper case. -/
  | upper
  /-- The element twice. -/
  | double
  /-- A dotted child of the element for each name. -/
  | children (names : List String)
  /-- The parts of a text between its commas. -/
  | parts
  /-- The element followed by each number below the count. -/
  | numbered (count : Nat)
  /-- The empty value. -/
  | nothing
  /-- The element itself, unless it is the refused one. -/
  | refuse (bad : Value)
deriving Repr

namespace ElementRule

/-- What the rule gives for one element. -/
def apply : ElementRule → Value → Except String (OneOrMany Value)
  | keep, e => .ok e.oneOrMany
  | upper, .atom (.text s) => .ok (.one (.text s.toUpper))
  | upper, e => .ok e.oneOrMany
  | double, e => .ok (.many [e, e])
  | children names, e => .ok (.many (names.map fun name => .text (e.shown ++ "." ++ name)))
  | parts, .atom (.text s) =>
      if ',' ∈ s.toList then .ok (.many ((s.splitOn ",").map .text)) else .ok (.one (.text s))
  | parts, e => .ok e.oneOrMany
  | numbered count, e =>
      .ok (.many ((List.range count).map fun k => .text (e.shown ++ toString k)))
  | nothing, _ => .ok (.one (.atom .null))
  | refuse bad, e => if e = bad then .error ("bad element " ++ e.shown) else .ok e.oneOrMany

/-- Replace every element by what the rule gives for it. -/
def expand (rule : ElementRule) (elements : List Value) : Except String (List Value) :=
  OneOrMany.flatMap rule.apply elements

end ElementRule

end SelectionMask
