/-
  VeiledLedger.Layout.Misfit — why a value or a byte string does not fit a layout.

  A misfit names its place by the steps that lead to it: field names and slot numbers. It is
  raised without a place, and each step is put in front as the failure comes back out.

  Room is asked for before it is filled, and more than an address space has is never given.
  Whoever asks for it breaks down there, with no answer about the value or the bytes.
-/

import VeiledLedger.Bytes
import VeiledLedger.Text.Hex
import VeiledLedger.Text.Quoted

namespace VeiledLedger

/-- What a one-byte flag stands for. -/
inductive Flag where
  | boolean
  | presence
  deriving DecidableEq, Repr

inductive Misfit where
  /-- More elements or bytes than there is room for. -/
  | overCapacity (capacity actual : Nat)
  /-- A text takes more bytes than there is room for. -/
  | overLength (capacity actual : Nat)
  | otherType (expected : String)
  /-- A character beyond the first 256. -/
  | foreignCharacter (c : Char)
  | otherSize (expected actual : Nat)
  | badFlag (flag : Flag) (byte : UInt8)
  /-- A written count is above the capacity. -/
  | badCount (count capacity : Nat)
  | badUtf8
  deriving DecidableEq, Repr

/-- One step from a value to a part of it. -/
inductive PathStep where
  | field (name : String)
  | slot (index : Nat)
  deriving DecidableEq, Repr

namespace PathStep

/-- A field name follows a dot, unless nothing stands before it; a slot number is bracketed. -/
def extend (path : String) : PathStep → String
  | field name => if path = "" then name else path ++ "." ++ name
  | slot i => path ++ "[" ++ toString i ++ "]"

end PathStep

/-- What keeps a value from being written or read. -/
inductive Obstacle where
  | misfit (steps : List PathStep) (cause : Misfit)
  /-- More room was asked for at once than there can be. -/
  | noRoom
  deriving DecidableEq, Repr

inductive LayoutError where
  | misfit (path : String) (cause : Misfit)
  /-- The length of the layout called `layout` does not fit a 64-bit word. -/
  | oversized (layout : String)
  /-- More room was asked for at once than there can be. The one who asks breaks down, so this is
      no answer about the value or the bytes. -/
  | noRoom
  deriving DecidableEq, Repr

namespace Misfit

def here (m : Misfit) : Obstacle := .misfit [] m

def flagName : Flag → String
  | .boolean => "boolean"
  | .presence => "presence"

def message : Misfit → String
  | overCapacity c n => "collection holds " ++ toString n ++ " elements, capacity is " ++ toString c
  | overLength c n => "string encodes to " ++ toString n ++ " bytes, capacity is " ++ toString c
  | otherType t => "value does not match declared type " ++ t
  | foreignCharacter c => "character " ++ Text.Quoted.char c ++ " cannot be encoded as ASCII (ISO-8859-1)"
  | otherSize e n => "expected " ++ toString e ++ " bytes, got " ++ toString n
  | badFlag f x => "invalid " ++ flagName f ++ " byte 0x" ++ Text.Hex.encode [x]
  | badCount n c => "declared length " ++ toString n ++ " exceeds capacity " ++ toString c
  | badUtf8 => "invalid UTF-8"

end Misfit

namespace Obstacle

/-- A misfit moved one step further out. -/
def under (step : PathStep) : Obstacle → Obstacle
  | misfit steps cause => misfit (step :: steps) cause
  | noRoom => noRoom

end Obstacle

/-- `r`, with a misfit moved one step further out. -/
def Except.under {α : Type} (step : PathStep) (r : Except Obstacle α) : Except Obstacle α :=
  r.mapError (Obstacle.under step)

/-- Asks for room for `n` pieces of `width` bytes each. -/
def reserve (n width : Nat) : Except Obstacle Unit := if n * width < 2 ^ 63 then .ok () else .error .noRoom

namespace LayoutError

/-- The obstacle in a value that stands at `path`. -/
def ofObstacle (path : String) : Obstacle → LayoutError
  | .misfit steps cause => .misfit (steps.foldl PathStep.extend path) cause
  | .noRoom => .noRoom

def message : LayoutError → String
  | misfit path cause => path ++ ": " ++ cause.message
  | oversized t => "declared length of " ++ t ++ " overflows"
  | noRoom => "capacity overflow"

/-- What is told as an error, but is none: whoever would tell it has broken down. -/
def breaksDown : LayoutError → Bool
  | noRoom => true
  | _ => false

end LayoutError

end VeiledLedger
