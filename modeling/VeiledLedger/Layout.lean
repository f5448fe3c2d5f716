/-
  VeiledLedger.Layout — declared layouts and the lengths they fix.

  A layout says how a value is laid out in bytes, and its length depends on the layout
  alone: collections and texts are declared with a capacity and always take the room of
  that capacity. `size` counts the bytes without bound; `size?` counts them in 64-bit words
  and gives nothing as soon as some part does not fit a word.
-/

import VeiledLedger.Bytes

namespace VeiledLedger

/-- The widths of whole numbers. -/
inductive Width where
  | one
  | two
  | four
  | eight
  | sixteen
  deriving DecidableEq, Repr

namespace Width

def bytes : Width → Nat
  | one => 1
  | two => 2
  | four => 4
  | eight => 8
  | sixteen => 16

def bits (w : Width) : Nat := 8 * w.bytes

end Width

/-- Characters are written one byte each (the first 256 characters) or in UTF-8. -/
inductive Charset where
  | latin1
  | utf8
  deriving DecidableEq, Repr

inductive Layout where
  | bool
  | unsigned (width : Width)
  | signed (width : Width)
  /-- Exactly `size` bytes, without a count. -/
  | exactBytes (size : Nat)
  /-- A count and room for `capacity` bytes. -/
  | bytes (capacity : Nat)
  | string (charset : Charset) (capacity : Nat)
  /-- A count and room for `capacity` elements. -/
  | list (capacity : Nat) (element : Layout)
  /-- Exactly `count` elements, without a count. -/
  | exactList (count : Nat) (element : Layout)
  /-- A flag and room for the inner value. -/
  | nullable (inner : Layout)
  | struct (fields : List (String × Layout))

/-- The width of a count: the smallest of 1, 2 and 4 bytes that holds the capacity, and 4
    bytes for every larger one. -/
def countWidth (capacity : Nat) : Nat :=
  if capacity ≤ 255 then 1 else if capacity ≤ 65535 then 2 else 4

/-- `n`, if it fits a 64-bit word. -/
def word? (n : Nat) : Option Nat := if n < 2 ^ 64 then some n else none

namespace Layout

mutual

/-- The length in bytes, counted without bound. -/
def size : Layout → Nat
  | .bool => 1
  | .unsigned w => w.bytes
  | .signed w => w.bytes
  | .exactBytes n => n
  | .bytes c => countWidth c + c
  | .string _ c => countWidth c + c
  | .list c e => countWidth c + c * size e
  | .exactList n e => n * size e
  | .nullable e => 1 + size e
  | .struct fs => sizeFields fs

def sizeFields : List (String × Layout) → Nat
  | [] => 0
  | (_, t) :: fs => size t + sizeFields fs

end

mutual

/-- The length in bytes, if it and the lengths of all parts fit a 64-bit word. -/
def size? : Layout → Option Nat
  | .bool => some 1
  | .unsigned w => some w.bytes
  | .signed w => some w.bytes
  | .exactBytes n => word? n
  | .bytes c => word? (countWidth c + c)
  | .string _ c => word? (countWidth c + c)
  | .list c e => do
    let slots ← word? (c * (← size? e))
    word? (slots + countWidth c)
  | .exactList n e => do word? (n * (← size? e))
  | .nullable e => do word? ((← size? e) + 1)
  | .struct fs => sizeFields? fs

def sizeFields? : List (String × Layout) → Option Nat
  | [] => some 0
  | (_, t) :: fs => do
    let first ← size? t
    let rest ← sizeFields? fs
    word? (first + rest)

end

/-- How a layout is called in messages. -/
def name : Layout → String
  | .bool => "bool"
  | .unsigned w => "u" ++ toString w.bits
  | .signed w => "i" ++ toString w.bits
  | .exactBytes n => "bytes[" ++ toString n ++ "]"
  | .bytes c => "bytes<=" ++ toString c
  | .string .latin1 c => "Ascii string<=" ++ toString c
  | .string .utf8 c => "Utf8 string<=" ++ toString c
  | .list c e => "list<=" ++ toString c ++ " of " ++ name e
  | .exactList n e => "list[" ++ toString n ++ "] of " ++ name e
  | .nullable e => "nullable " ++ name e
  | .struct fs => "struct(" ++ toString fs.length ++ " fields)"

end Layout

end VeiledLedger
