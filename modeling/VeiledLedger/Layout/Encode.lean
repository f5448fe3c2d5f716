/-
  VeiledLedger.Layout.Encode — writing a value by its layout.

  Numbers are written most significant byte first and a flag as one byte, 0 or 1. Bytes,
  texts and lists with a capacity are a count, the content, and filler up to the capacity.
  A missing value is flag 0 before the filler of its layout. Fields follow each other in
  declared order. The first part that does not fit, in that order, is the one reported.

  Room for all the bytes is asked for before the value is looked at, and a filler is made where
  it may be needed, also when no slot is unused.
-/

import VeiledLedger.Layout.Value

namespace VeiledLedger

namespace Layout

/-- A count in the width its capacity asks for. A count that needs more room is cut. -/
def writeCount (capacity n : Nat) : Bytes := Bytes.ofNat (countWidth capacity) n

/-- Count, content and zeros up to the capacity. -/
def writeBytes (capacity : Nat) (content : Bytes) : Bytes :=
  writeCount capacity content.length ++ content ++ Bytes.zeros (capacity - content.length)

def encodeLatin1 : List Char → Except Obstacle Bytes
  | [] => .ok []
  | c :: cs =>
    if c.toNat ≤ 255 then (encodeLatin1 cs).map (UInt8.ofNat c.toNat :: ·)
    else .error (Misfit.foreignCharacter c).here

def encodeText (charset : Charset) (s : String) : Except Obstacle Bytes :=
  match charset with
  | .utf8 => .ok (Text.Utf8.encode s)
  | .latin1 => encodeLatin1 s.toList

/-- Writes `vs` one after another, the first of them in slot `i`. -/
def encodeSlots (write : Value → Except Obstacle Bytes) (i : Nat) : List Value → Except Obstacle Bytes
  | [] => .ok []
  | v :: vs => do
    let first ← Except.under (.slot i) (write v)
    let rest ← encodeSlots write (i + 1) vs
    .ok (first ++ rest)

/-- The fillers of layout `e` for the slots from `i` on, `n` of them. -/
def encodeFillers (write : Value → Except Obstacle Bytes) (e : Layout) (i n : Nat) : Except Obstacle Bytes := do
  let v ← filler e
  if n = 0 then .ok []
  else (Except.under (.slot i) (write v)).map (fun b => (List.replicate n b).flatten)

mutual

/-- The bytes of a value, or its first misfit. -/
def encode : Layout → Value → Except Obstacle Bytes
  | .bool, .bool b => .ok [if b then 1 else 0]
  | .unsigned w, .unsigned w' n =>
    if w = w' then .ok (Bytes.ofNat w.bytes n.toNat) else .error (Misfit.otherType (name (.unsigned w))).here
  | .signed w, .signed w' n =>
    if w = w' then .ok (Bytes.ofNat w.bytes n.toNat) else .error (Misfit.otherType (name (.signed w))).here
  | .exactBytes n, .bytes b => if b.length = n then .ok b else .error (Misfit.otherSize n b.length).here
  | .bytes c, .bytes b =>
    if b.length ≤ c then .ok (writeBytes c b) else .error (Misfit.overCapacity c b.length).here
  | .string charset c, .string s => do
    let b ← encodeText charset s
    if b.length ≤ c then .ok (writeBytes c b) else .error (Misfit.overLength c b.length).here
  | .list c e, .list items =>
    if items.length ≤ c then do
      let used ← encodeSlots (encode e) 0 items
      let unused ← encodeFillers (encode e) e items.length (c - items.length)
      .ok (writeCount c items.length ++ used ++ unused)
    else .error (Misfit.overCapacity c items.length).here
  | .exactList n e, .list items =>
    if items.length = n then do
      -- a list that is there has had this room, so it is always given
      reserve n Value.width
      encodeSlots (encode e) 0 items
    else .error (Misfit.otherSize n items.length).here
  | .nullable e, .nullable (some v) => (encode e v).map (1 :: ·)
  | .nullable e, .nullable none => do
    let v ← filler e
    (encode e v).map (0 :: ·)
  | .struct fs, .struct vs =>
    if fs.length = vs.length then encodeFields fs vs else .error (Misfit.otherType (name (.struct fs))).here
  | t, _ => .error (Misfit.otherType (name t)).here

def encodeFields : List (String × Layout) → List Value → Except Obstacle Bytes
  | (field, t) :: fs, v :: vs => do
    let first ← Except.under (.field field) (encode t v)
    let rest ← encodeFields fs vs
    .ok (first ++ rest)
  | _, _ => .ok []

end

/-- Asks for room for all that the layout is long. A length beyond a word cannot be asked for. -/
def reserveAll (t : Layout) : Except Obstacle Unit :=
  match t.size? with
  | none => .error .noRoom
  | some n => reserve n 1

/-- The bytes of a value that messages place at `path`. -/
def encodeAt (path : String) (t : Layout) (v : Value) : Except LayoutError Bytes :=
  (do reserveAll t; encode t v).mapError (LayoutError.ofObstacle path)

end Layout

end VeiledLedger
