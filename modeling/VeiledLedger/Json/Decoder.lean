/-
  VeiledLedger.Json.Decoder — reading JSON by what is expected of it.

  A decoder takes tokens off the front and stops at the first fault. A fault is either of the
  text, which is then no JSON, or of its shape: the text may be JSON, but not of what was
  asked for. Which of the two is met first decides what is told, so a value of the wrong shape
  is read to the end of its first token and no further.

  A structure is an object with its fields in any order, or an array with its fields in
  declared order. Fields that are not known are passed over.
-/

import VeiledLedger.Json.Token

namespace VeiledLedger.Json

inductive Fault where
  | malformed
  | misshapen
  deriving DecidableEq, Repr

abbrev Decoder := StateT (List Token) (Except Fault)

/-- A value without regard to what it is for. A number that is read keeps its value only if it
    is a natural one. -/
inductive Datum where
  | null
  | bool (b : Bool)
  | integer (n : Int)
  | number
  | string (s : String)
  | array (items : List Datum)
  | object (members : List (String × Datum))

namespace Decoder

def fail {α : Type} (f : Fault) : Decoder α := fun _ => .error f

/-- The next token, which stays where it is. -/
def peek : Decoder (Option Token) := fun ts => .ok (ts.head?, ts)

/-- Passes over the next token. -/
def drop : Decoder Unit := fun ts => .ok ((), ts.tail)

/-- The next token is `t`, or the text is no JSON. -/
def expect (t : Token) : Decoder Unit := do
  if (← peek) = some t then drop else fail .malformed

/-- The next value is not what was asked for. -/
def wrong {α : Type} : Decoder α := do
  match ← peek with
  | some .openArray | some .openObject | some .null | some (.bool _) | some (.number (.natural _))
  | some (.number .other) | some (.string (some _)) => fail .misshapen
  | _ => fail .malformed

def string : Decoder String := do
  match ← peek with
  | some (.string (some s)) => do
    drop
    return s
  | _ => wrong

def natural : Decoder Nat := do
  match ← peek with
  | some (.number (.natural n)) => do
    drop
    return n
  | _ => wrong

/-- A string that has to have a meaning. -/
def meaning {α : Type} (f : String → Option α) : Decoder α := do
  match f (← string) with
  | some x => return x
  | none => fail .misshapen

/-! ## Passing over a value -/

/-- What may come next while a value is passed over. -/
inductive Place where
  | value
  | firstItem
  | firstKey
  | key
  | colon
  | next
  /-- The value is over. -/
  | stop
  deriving DecidableEq, Repr

/-- Where a value is followed by what comes next, given the brackets that are still open; they
    are told from the innermost one out, by whether they belong to objects. -/
def afterValue (nest : List Bool) : Place × List Bool := (if nest = [] then .stop else .next, nest)

/-- Where a value begins with this token. -/
def startValue (nest : List Bool) : Token → Option (Place × List Bool)
  | .openArray => some (.firstItem, false :: nest)
  | .openObject => some (.firstKey, true :: nest)
  | .null | .bool _ | .number _ | .string _ => some (afterValue nest)
  | _ => none

/-- Where one token leads to. -/
def advance (place : Place) (nest : List Bool) (t : Token) : Option (Place × List Bool) :=
  match place, t, nest with
  | .value, t, _ => startValue nest t
  | .firstItem, .closeArray, _ :: outer => some (afterValue outer)
  | .firstItem, t, _ => startValue nest t
  | .firstKey, .closeObject, _ :: outer => some (afterValue outer)
  | .firstKey, .string _, _ => some (.colon, nest)
  | .key, .string _, _ => some (.colon, nest)
  | .colon, .colon, _ => some (.value, nest)
  | .next, .comma, isObject :: _ => some (if isObject then .key else .value, nest)
  | .next, .closeObject, true :: outer => some (afterValue outer)
  | .next, .closeArray, false :: outer => some (afterValue outer)
  | _, _, _ => none

/-- Passes over what is left of a value. -/
def skipFrom (place : Place) (nest : List Bool) : List Token → Except Fault (List Token)
  | [] => .error .malformed
  | t :: ts =>
    match advance place nest t with
    | none => .error .malformed
    | some (.stop, _) => .ok ts
    | some (place, nest) => skipFrom place nest ts

def skip : Decoder Unit := fun ts => (skipFrom .value [] ts).map ((), ·)

/-! ## Arrays and objects -/

/-- The items of an array from here on, at most `fuel` of them. -/
def itemsFrom {α : Type} (item : Decoder α) : (fuel : Nat) → (first : Bool) → Decoder (List α)
  | 0, _ => fail .malformed
  | fuel + 1, first => do
    match ← peek with
    | some .closeArray => do
      drop
      return []
    | some .comma =>
      if first then fail .malformed
      else do
        drop
        if (← peek) = some .closeArray then fail .malformed
        let x ← item
        return x :: (← itemsFrom item fuel false)
    | _ =>
      if first then do
        let x ← item
        return x :: (← itemsFrom item fuel false)
      else fail .malformed

/-- The items of an array whose bracket has been passed. -/
def items {α : Type} (item : Decoder α) : Decoder (List α) := fun ts => itemsFrom item (ts.length + 1) true ts

def array {α : Type} (item : Decoder α) : Decoder (List α) := do
  if (← peek) = some .openArray then do
    drop
    items item
  else wrong

/-- The members of an object from here on, at most `fuel` of them; `member` reads the colon and
    the value behind a name. -/
def membersFrom {σ : Type} (member : String → σ → Decoder σ) : (fuel : Nat) → (first : Bool) → σ → Decoder σ
  | 0, _, _ => fail .malformed
  | fuel + 1, first, s => do
    let named : Decoder σ := do
      match ← peek with
      | some (.string (some name)) => do
        drop
        membersFrom member fuel false (← member name s)
      | _ => fail .malformed
    match ← peek with
    | some .closeObject => do
      drop
      return s
    | some .comma =>
      if first then fail .malformed
      else do
        drop
        named
    | _ => if first then named else fail .malformed

/-- The members of an object whose brace has been passed. -/
def members {σ : Type} (member : String → σ → Decoder σ) (s : σ) : Decoder σ := fun ts =>
  membersFrom member (ts.length + 1) true s ts

/-- Any value with at most `room` brackets inside each other. -/
def datum : (room : Nat) → Decoder Datum
  | 0 => scalar
  | room + 1 => do
    match ← peek with
    | some .openArray => do
      drop
      return .array (← items (datum room))
    | some .openObject => do
      drop
      let l ← members (fun name l => do
        expect .colon
        return (name, ← datum room) :: l) []
      return .object l.reverse
    | _ => scalar
where
  scalar : Decoder Datum := do
    match ← peek with
    | some .null => do drop; return .null
    | some (.bool b) => do drop; return .bool b
    | some (.number (.natural n)) => do drop; return .integer n
    | some (.number .other) => do drop; return .number
    | some (.string (some s)) => do drop; return .string s
    | _ => fail .malformed

/-! ## Structures -/

/-- A field of a structure: its name, how it is read, and what stands for it when it is
    missing. -/
structure Field (α : Type) where
  name : String
  read : Decoder α
  fallback : Option α := none

/-- The fields of an array in declared order; fields are missing only at its end. -/
def fieldsInOrder {α : Type} : (first : Bool) → List (Field α) → Decoder (List α)
  | _, [] => do
    expect .closeArray
    return []
  | first, f :: fs => do
    match ← peek with
    | some .closeArray =>
      match f.fallback with
      | some x => return x :: (← fieldsInOrder first fs)
      | none => fail .misshapen
    | some .comma =>
      if first then fail .malformed
      else do
        drop
        if (← peek) = some .closeArray then fail .malformed
        let x ← f.read
        return x :: (← fieldsInOrder false fs)
    | _ =>
      if first then do
        let x ← f.read
        return x :: (← fieldsInOrder false fs)
      else fail .malformed

/-- Puts the value of a named member into its place, unless the place is taken. -/
def fieldNamed {α : Type} (fields : List (Field α)) (name : String) (found : List (Option α)) :
    Decoder (List (Option α)) := do
  match fields.findIdx? (·.name = name) with
  | none => do
    expect .colon
    skip
    return found
  | some i =>
    match found[i]?, fields[i]? with
    | some none, some f => do
      expect .colon
      let x ← f.read
      return found.set i (some x)
    | _, _ => fail .misshapen

/-- The values of the fields, in declared order. -/
def fields {α : Type} (fields : List (Field α)) : Decoder (List α) := do
  match ← peek with
  | some .openArray => do
    drop
    fieldsInOrder true fields
  | some .openObject => do
    drop
    let found ← members (fieldNamed fields) (fields.map (fun _ => none))
    match (List.zipWith (fun (f : Field α) x => x <|> f.fallback) fields found).mapM id with
    | some l => return l
    | none => fail .misshapen
  | _ => wrong

/-- Reads all of a text. -/
def all {α : Type} (r : Decoder α) (text : String) : Except Fault α :=
  match r (tokens text) with
  | .ok (x, []) => .ok x
  | .ok (_, _ :: _) => .error .malformed
  | .error f => .error f

/-- Reads what a text begins with, whatever follows. -/
def leading {α : Type} (r : Decoder α) (text : String) : Except Fault α := (r (tokens text)).map (·.1)

end Decoder

end VeiledLedger.Json
