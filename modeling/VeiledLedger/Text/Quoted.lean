/-
  VeiledLedger.Text.Quoted — characters and strings as messages show them.

  A quoted text stands between quotation marks. The mark itself and the backslash are
  written with a backslash before them, the common control characters by a letter, and a
  character that would not be seen by its number in hexadecimal digits.
-/

import VeiledLedger.Text.Invisible

namespace VeiledLedger.Text.Quoted

/-- The number of `c` between braces. -/
def byNumber (c : Char) : List Char :=
  '\\' :: 'u' :: '\x7b' :: (Nat.toDigits 16 c.toNat ++ ['\x7d'])

/-- One character of a text quoted by `mark`. -/
def escape (mark c : Char) : List Char :=
  if c = '\x00' then ['\\', '0']
  else if c = '\t' then ['\\', 't']
  else if c = '\r' then ['\\', 'r']
  else if c = '\n' then ['\\', 'n']
  else if c = '\\' ∨ c = mark then ['\\', c]
  else if Invisible.isInvisible c then byNumber c
  else [c]

/-- A character between single marks. -/
def char (c : Char) : String := String.ofList ('\'' :: (escape '\'' c ++ ['\'']))

/-- A string between double marks. -/
def string (s : String) : String := String.ofList ('"' :: (s.toList.flatMap (escape '"') ++ ['"']))

end VeiledLedger.Text.Quoted
