set_option autoImplicit false

/-! # Snake case

A name such as `HTTPServer2Go` is broken into words before it is written in lower case:
`http_server2_go`. A *word* is either one lower-case letter or a run of upper-case letters and
digits, and it counts only when an upper-case letter comes next. The name is read from left to
right and each word is followed by an underscore:

* after a lower-case letter the break comes whenever an upper-case letter is next (`aB` gives
  `a_b`);
* a run of upper-case letters and digits is broken once, before its last upper-case letter that is
  not its first character (`ABc` gives `a_bc`, `A1B2` gives `a1_b2`); what stands after the break is
  read afresh.

Names are made of ASCII letters, digits and underscores, so the classes are the ASCII ones. -/

namespace SelectionMask.SnakeCase

/-- Characters that a run of capitals may hold: upper-case letters and digits. -/
def inRun (c : Char) : Bool :=
  c.isUpper || c.isDigit

/-- The position, counted from one, of the last upper-case letter of the run at the front; zero if
    the run has none. -/
def lastUpper : List Char → Nat
  | [] => 0
  | c :: cs =>
      if inRun c then
        match lastUpper cs with
        | 0 => if c.isUpper then 1 else 0
        | n + 1 => n + 2
      else 0

/-- The length of the word at the front, or zero if no break comes after a word that starts here:
    the character after the word has to be an upper-case letter, and a run is taken as far as that
    allows. -/
def wordLength : List Char → Nat
  | [] => 0
  | c :: cs =>
      if c.isLower then
        match cs with
        | [] => 0
        | d :: _ => if d.isUpper then 1 else 0
      else if inRun c then lastUpper cs
      else 0

/-- Copy the characters and put an underscore after each word. The number says how many characters
    of the current word are still to come; at zero a new word is looked for. -/
def breakWords : Nat → List Char → List Char
  | _, [] => []
  | 0, c :: cs =>
      match wordLength (c :: cs) with
      | 0 => c :: breakWords 0 cs
      | 1 => c :: '_' :: breakWords 0 cs
      | n + 2 => c :: breakWords (n + 1) cs
  | 1, c :: cs => c :: '_' :: breakWords 0 cs
  | n + 2, c :: cs => c :: breakWords (n + 1) cs

end SelectionMask.SnakeCase

namespace SelectionMask

/-- The name in snake case. -/
def snakeCase (name : String) : String :=
  String.ofList ((SnakeCase.breakWords 0 name.toList).map Char.toLower)

end SelectionMask
