import SelectionMask.OneOrMany
import SelectionMask.Series
import SelectionMask.Text.Quoted

set_option autoImplicit false

/-! # Values

Plain data: nothing, truth values, whole numbers of any size, texts, lists of values and records,
which hold values under keys. A number and the text of its digits are different values.
`Value.shown` is the bare text of a value, where a text stands for itself; `Value.written` is its
form inside a printed collection, where a text is quoted. -/

namespace SelectionMask

/-- A value without parts. -/
inductive Atom where
  | null
  | bool (b : Bool)
  | int (n : Int)
  | text (s : String)
deriving DecidableEq, Repr, Inhabited

/-- An atom, a list of values, or values under keys. -/
inductive Value where
  | atom (a : Atom)
  | list (vs : List Value)
  | record (entries : List (String × Value))
deriving Repr, Inhabited

namespace Atom

/-- The atom inside a printed collection. -/
def written : Atom → String
  | null => "None"
  | bool true => "True"
  | bool false => "False"
  | int n => toString n
  | text s => quoted s

/-- The bare text of the atom. -/
def shown : Atom → String
  | text s => s
  | a => a.written

end Atom

namespace Value

/-! ## Equality -/

mutual

/-- Values are equal if they are built alike from equal parts. -/
def decEq : (v w : Value) → Decidable (v = w)
  | atom a, atom b => if h : a = b then isTrue (h ▸ rfl) else isFalse fun e => h (atom.inj e)
  | list vs, list ws =>
      match decEqList vs ws with
      | isTrue h => isTrue (h ▸ rfl)
      | isFalse h => isFalse fun e => h (list.inj e)
  | record es, record fs =>
      match decEqEntries es fs with
      | isTrue h => isTrue (h ▸ rfl)
      | isFalse h => isFalse fun e => h (record.inj e)
  | atom _, list _ | atom _, record _ | list _, atom _ | list _, record _ | record _, atom _
  | record _, list _ => isFalse nofun

/-- Lists of values are compared element by element. -/
def decEqList : (vs ws : List Value) → Decidable (vs = ws)
  | [], [] => isTrue rfl
  | [], _ :: _ | _ :: _, [] => isFalse nofun
  | v :: vs, w :: ws =>
      match decEq v w, decEqList vs ws with
      | isTrue h, isTrue hs => isTrue (h ▸ hs ▸ rfl)
      | isFalse h, _ => isFalse fun e => h (List.cons.inj e).1
      | _, isFalse h => isFalse fun e => h (List.cons.inj e).2

/-- Entries are compared in order, each by its key and its value. -/
def decEqEntries : (es fs : List (String × Value)) → Decidable (es = fs)
  | [], [] => isTrue rfl
  | [], _ :: _ | _ :: _, [] => isFalse nofun
  | (k, v) :: es, (l, w) :: fs =>
      match decEq v w, decEqEntries es fs with
      | isTrue h, isTrue hs =>
          if hk : k = l then isTrue (hk ▸ h ▸ hs ▸ rfl)
          else isFalse fun e => hk (Prod.mk.inj (List.cons.inj e).1).1
      | isFalse h, _ => isFalse fun e => h (Prod.mk.inj (List.cons.inj e).1).2
      | _, isFalse h => isFalse fun e => h (List.cons.inj e).2

end

instance : DecidableEq Value := decEq

/-! ## Printing -/

/-- A text as a value. -/
def text (s : String) : Value :=
  .atom (.text s)

mutual

/-- The value inside a printed collection. -/
def written : Value → String
  | .atom a => a.written
  | .list vs => "[" ++ ", ".intercalate (writtenAll vs) ++ "]"
  | .record es => "\x7b" ++ ", ".intercalate (writtenEntries es) ++ "\x7d"

/-- Each value inside a printed collection. -/
def writtenAll : List Value → List String
  | [] => []
  | v :: vs => v.written :: writtenAll vs

/-- Each key with its value, inside a printed collection. -/
def writtenEntries : List (String × Value) → List String
  | [] => []
  | (k, v) :: es => (quoted k ++ ": " ++ v.written) :: writtenEntries es

end

/-- The bare text of the value. -/
def shown : Value → String
  | .atom a => a.shown
  | v => v.written

/-! ## Reading -/

/-- A list stands for its elements, anything else for itself; so a text is a single thing here. -/
def oneOrMany : Value → OneOrMany Value
  | .list vs => .many vs
  | v => .one v

/-- The text that the value is, if it is one. -/
def text? : Value → Option String
  | .atom (.text s) => some s
  | _ => none

/-- The texts that the value lists, if it is a list of texts. -/
def texts? : Value → Option (List String)
  | .list vs => vs.mapM text?
  | _ => none

/-- The value as a text or a list of texts, if it is that. -/
def textOrTexts? : Value → Option (OneOrMany String)
  | .atom (.text s) => some (.one s)
  | v => v.texts?.map .many

/-- The value as a series of texts, if it is a text or a list of texts. -/
def series? : Value → Option (Series String)
  | .atom (.text s) => some (.spelled s)
  | v => v.texts?.map .listed

/-- A text, or texts, as a value. -/
def ofOneOrMany : OneOrMany String → Value
  | .one s => text s
  | .many ss => .list (ss.map text)

/-- A series of texts as a value. -/
def ofSeries : Series String → Value
  | .spelled s => text s
  | .listed ss => .list (ss.map text)

end Value

end SelectionMask
