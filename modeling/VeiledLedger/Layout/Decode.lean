/-
  VeiledLedger.Layout.Decode — reading a value by its layout.

  Reading takes exactly as many bytes as the layout is long. All of a list's slots are read,
  also those behind its count, and the value behind a flag is read before the flag is looked
  at, so filler has to be well formed although its content is dropped.

  A list sets room aside for its elements before it reads the first. For a counted list that is
  room for the count, which has four bytes at most and so is always given.
-/

import VeiledLedger.Layout.Value

namespace VeiledLedger

/-- Takes something off the front of a byte string, or meets a misfit. -/
abbrev Reader := StateT Bytes (Except Obstacle)

namespace Reader

def fail {α : Type} (m : Misfit) : Reader α := fun _ => .error m.here

/-- `r`, as the reading of a part that lies one step further in. -/
def under {α : Type} (step : PathStep) (r : Reader α) : Reader α := fun b => Except.under step (r b)

/-- The next `n` bytes. -/
def take (n : Nat) : Reader Bytes := fun b =>
  let front := b.take n
  if front.length = n then .ok (front, b.drop n) else .error (Misfit.otherSize n b.length).here

/-- Sets room aside for `n` values. -/
def reserve (n : Nat) : Reader Unit := fun b => (VeiledLedger.reserve n Value.width).map fun _ => ((), b)

def number (width : Nat) : Reader Nat := do return Bytes.toNat (← take width)

def flag : Reader Nat := number 1

/-- The count in front of room for `capacity` elements. -/
def count (capacity : Nat) : Reader Nat := do
  let n ← number (countWidth capacity)
  if n ≤ capacity then return n else fail (.badCount n capacity)

/-- Count and content of room for `capacity` bytes; what follows the content is dropped. -/
def room (capacity : Nat) : Reader Bytes := do
  let n ← count capacity
  return (← take capacity).take n

def text (charset : Charset) (b : Bytes) : Reader String :=
  match charset with
  | .latin1 => return String.ofList (b.map (fun x => Char.ofNat x.toNat))
  | .utf8 =>
    match Text.Utf8.decode? b with
    | some s => return s
    | none => fail .badUtf8

/-- `n` values one after another, the first of them in slot `i`. -/
def slots (read : Reader Value) (i : Nat) : Nat → Reader (List Value)
  | 0 => return []
  | n + 1 => do
    let v ← under (.slot i) read
    return v :: (← slots read (i + 1) n)

end Reader

namespace Layout

mutual

/-- The value at the front of a byte string. -/
def read : Layout → Reader Value
  | .bool => do
    let x ← Reader.flag
    if x = 0 then return .bool false
    else if x = 1 then return .bool true
    else Reader.fail (.badFlag .boolean (UInt8.ofNat x))
  | .unsigned w => do return .unsigned w (BitVec.ofNat _ (← Reader.number w.bytes))
  | .signed w => do return .signed w (BitVec.ofNat _ (← Reader.number w.bytes))
  | .exactBytes n => do return .bytes (← Reader.take n)
  | .bytes c => do return .bytes (← Reader.room c)
  | .string charset c => do return .string (← Reader.text charset (← Reader.room c))
  | .list c e => do
    let n ← Reader.count c
    return .list ((← Reader.slots (read e) 0 c).take n)
  | .exactList n e => do
    Reader.reserve n
    return .list (← Reader.slots (read e) 0 n)
  | .nullable e => do
    let x ← Reader.flag
    let v ← read e
    if x = 0 then return .nullable none
    else if x = 1 then return .nullable (some v)
    else Reader.fail (.badFlag .presence (UInt8.ofNat x))
  | .struct fs => do return .struct (← readFields fs)

def readFields : List (String × Layout) → Reader (List Value)
  | [] => return []
  | (field, t) :: fs => do
    let v ← Reader.under (.field field) (read t)
    return v :: (← readFields fs)

end

/-- The value that all of `b` holds. -/
def decode (t : Layout) (b : Bytes) : Except LayoutError Value :=
  match t.size? with
  | none => .error (.oversized t.name)
  | some n =>
    if b.length = n then ((read t b).mapError (LayoutError.ofObstacle "")).map (·.1)
    else .error (.misfit "" (.otherSize n b.length))

end Layout

end VeiledLedger
