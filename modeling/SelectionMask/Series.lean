set_option autoImplicit false

/-! # Series

A series of things is written as a list, or as a text that stands for its characters one by one.
Characters are code points: a letter and a combining mark after it are two elements. -/

namespace SelectionMask

/-- The characters of a text, each as a text of its own. -/
def characters (text : String) : List String :=
  text.toList.map String.singleton

/-- A list of things, or a text read character by character. -/
inductive Series (α : Type) where
  | listed (as : List α)
  | spelled (text : String)
deriving DecidableEq, Repr

namespace Series

variable {α : Type}

/-- The elements, given how a single character is seen as one. -/
def elements (ofCharacter : String → α) : Series α → List α
  | listed as => as
  | spelled text => (characters text).map ofCharacter

@[simp] theorem elements_listed (ofCharacter : String → α) (as : List α) :
    (listed as).elements ofCharacter = as := rfl

@[simp] theorem elements_spelled (ofCharacter : String → α) (text : String) :
    (spelled text).elements ofCharacter = (characters text).map ofCharacter := rfl

end Series

end SelectionMask
