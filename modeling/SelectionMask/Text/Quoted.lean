import SelectionMask.Text.Printable

set_option autoImplicit false

/-! # Quoted text

How a text is written inside a printed collection: between single quotes, or between double quotes
when that avoids escaping a single quote it holds. The backslash and the quote in use are escaped,
tab, newline and carriage return by a letter, and every other character that is not printable by its
number: two hexadecimal digits after `\x`, four after `\u`, or eight after `\U`, the first of these
that has room. Every other character stands for itself. -/

namespace SelectionMask.Quoted

/-- The single quote. -/
def single : Char := '\x27'

/-- The double quote. -/
def double : Char := '"'

/-- The quote a text is put between: the single one, unless the text holds it and not the other. -/
def mark (cs : List Char) : Char :=
  if single ∈ cs ∧ double ∉ cs then double else single

/-- One hexadecimal digit, in lower case. -/
def hexDigit (n : Nat) : Char :=
  if n < 10 then Char.ofNat (48 + n) else Char.ofNat (87 + n)

/-- The last hexadecimal digits of a number, as many as are asked for, leading zeros included. -/
def hexDigits : Nat → Nat → List Char
  | 0, _ => []
  | width + 1, n => hexDigits width (n / 16) ++ [hexDigit (n % 16)]

/-- A code point by its number, in the shortest form that has room for it. -/
def numbered (n : Nat) : List Char :=
  if n < 0x100 then '\\' :: 'x' :: hexDigits 2 n
  else if n < 0x10000 then '\\' :: 'u' :: hexDigits 4 n
  else '\\' :: 'U' :: hexDigits 8 n

/-- A character between the given quotes. -/
def escape (quote c : Char) : List Char :=
  if c = '\\' then ['\\', '\\']
  else if c = quote then ['\\', c]
  else if c = '\t' then ['\\', 't']
  else if c = '\n' then ['\\', 'n']
  else if c = '\r' then ['\\', 'r']
  else if isPrintable c then [c]
  else numbered c.toNat

/-- A text between its quotes. -/
def encode (cs : List Char) : List Char :=
  mark cs :: cs.flatMap (escape (mark cs)) ++ [mark cs]

end SelectionMask.Quoted

namespace SelectionMask

/-- A text in its quoted form. -/
def quoted (text : String) : String :=
  String.ofList (Quoted.encode text.toList)

end SelectionMask
