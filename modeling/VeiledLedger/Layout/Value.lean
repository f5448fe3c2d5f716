/-
  VeiledLedger.Layout.Value — values, and the one that fills unused room.

  A number carries its width, so two numbers of different widths are different values. A
  signed number is held as its two's complement bits.
-/

import VeiledLedger.Layout
import VeiledLedger.Layout.Misfit

namespace VeiledLedger

inductive Value where
  | bool (b : Bool)
  | unsigned (width : Width) (n : BitVec width.bits)
  | signed (width : Width) (n : BitVec width.bits)
  | bytes (b : Bytes)
  | string (s : String)
  | list (items : List Value)
  | nullable (value : Option Value)
  | struct (fields : List Value)

namespace Value

def null : Value := .nullable none

/-- The bytes that a list sets aside for each of its elements. -/
def width : Nat := 32

end Value

namespace Layout

mutual

/-- The value in an unused slot, and behind a flag that says nothing follows. Room for copies is
    asked for once there is something to copy. -/
def filler : Layout → Except Obstacle Value
  | .bool => .ok (.bool false)
  | .unsigned w => .ok (.unsigned w 0)
  | .signed w => .ok (.signed w 0)
  | .exactBytes n => do
    reserve n 1
    return .bytes (Bytes.zeros n)
  | .bytes _ => .ok (.bytes [])
  | .string _ _ => .ok (.string "")
  | .list _ _ => .ok (.list [])
  | .exactList n e => do
    let v ← filler e
    reserve n Value.width
    return .list (List.replicate n v)
  | .nullable _ => .ok (.nullable none)
  | .struct fs => do return .struct (← fillerFields fs)

def fillerFields : List (String × Layout) → Except Obstacle (List Value)
  | [] => .ok []
  | (_, t) :: fs => do
    let v ← filler t
    return v :: (← fillerFields fs)

end

end Layout

/-! ## Values as messages show them -/

namespace Value

def commaSeparated (texts : List String) : String := String.intercalate ", " texts

mutual

def render : Value → String
  | .bool b => "Bool(" ++ toString b ++ ")"
  | .unsigned w n => "U" ++ toString w.bits ++ "(" ++ toString n.toNat ++ ")"
  | .signed w n => "I" ++ toString w.bits ++ "(" ++ toString n.toInt ++ ")"
  | .bytes b => "Bytes([" ++ commaSeparated (b.map (fun x => toString x.toNat)) ++ "])"
  | .string s => "String(" ++ Text.Quoted.string s ++ ")"
  | .list items => "List([" ++ commaSeparated (renderAll items) ++ "])"
  | .nullable none => "Nullable(None)"
  | .nullable (some v) => "Nullable(Some(" ++ render v ++ "))"
  | .struct fields => "Struct([" ++ commaSeparated (renderAll fields) ++ "])"

def renderAll : List Value → List String
  | [] => []
  | v :: vs => render v :: renderAll vs

end

end Value

end VeiledLedger
