/-
  VeiledLedger.Json.Token — JSON text cut into tokens.

  A text is cut from the front; where no token begins, the tokens end with `bad`. A string keeps
  no content when one of its escapes stands for no character; such a string may still be passed
  over.
-/

import VeiledLedger.Json.Number

namespace VeiledLedger.Json

inductive Token where
  | openArray
  | closeArray
  | openObject
  | closeObject
  | comma
  | colon
  | null
  | bool (b : Bool)
  | number (n : Number)
  | string (content : Option String)
  | bad
  deriving DecidableEq, Repr

/-! ## Strings -/

def hexDigit? (c : Char) : Option Nat :=
  if c.isDigit then some (c.toNat - 48)
  else if 'a' ≤ c ∧ c ≤ 'f' then some (c.toNat - 87)
  else if 'A' ≤ c ∧ c ≤ 'F' then some (c.toNat - 55)
  else none

def unit? (a b c d : Char) : Option Nat := do
  return ((← hexDigit? a) * 16 + (← hexDigit? b)) * 256 + ((← hexDigit? c) * 16 + (← hexDigit? d))

def isHighUnit (n : Nat) : Bool := 0xD800 ≤ n ∧ n < 0xDC00

def isLowUnit (n : Nat) : Bool := 0xDC00 ≤ n ∧ n < 0xE000

/-- The character of two units. -/
def joinUnits (high low : Nat) : Char := Char.ofNat (0x10000 + (high - 0xD800) * 0x400 + (low - 0xDC00))

def escaped? : Char → Option Char
  | '"' => some '"'
  | '\\' => some '\\'
  | '/' => some '/'
  | 'b' => some '\x08'
  | 'f' => some '\x0c'
  | 'n' => some '\n'
  | 'r' => some '\r'
  | 't' => some '\t'
  | _ => none

/-- What stands in a string: a character, or a 16-bit unit given by its number. -/
inductive Piece where
  | char (c : Char)
  | unit (n : Nat)

/-- The pieces of a string up to its closing mark, and what follows the mark. -/
def pieces? : List Char → Option (List Piece × List Char)
  | '"' :: rest => some ([], rest)
  | '\\' :: 'u' :: a :: b :: c :: d :: rest => do
    let n ← unit? a b c d
    let (ps, rest) ← pieces? rest
    return (.unit n :: ps, rest)
  | '\\' :: c :: rest => do
    let x ← escaped? c
    let (ps, rest) ← pieces? rest
    return (.char x :: ps, rest)
  | c :: rest =>
    if c.toNat < 32 then none
    else do
      let (ps, rest) ← pieces? rest
      return (.char c :: ps, rest)
  | [] => none

/-- The characters of the pieces. A unit that is one half of a pair needs the other half. -/
def characters? : List Piece → Option (List Char)
  | [] => some []
  | .char c :: ps => (characters? ps).map (c :: ·)
  | .unit n :: .unit m :: ps =>
    if isHighUnit n then
      if isLowUnit m then (characters? ps).map (joinUnits n m :: ·) else none
    else if isLowUnit n then none
    else (characters? (.unit m :: ps)).map (Char.ofNat n :: ·)
  | .unit n :: ps =>
    if isHighUnit n || isLowUnit n then none else (characters? ps).map (Char.ofNat n :: ·)

/-- The rest of a string and what follows it. -/
def stringRest (cs : List Char) : Option (Option String × List Char) :=
  (pieces? cs).map (fun (ps, rest) => ((characters? ps).map String.ofList, rest))

/-! ## Tokens -/

def isBlank (c : Char) : Bool := c = ' ' ∨ c = '\n' ∨ c = '\t' ∨ c = '\r'

/-- The rest of a text that begins with `word`. -/
def afterWord? (word : String) (cs : List Char) : Option (List Char) :=
  let w := word.toList
  if w.isPrefixOf cs then some (cs.drop w.length) else none

/-- The token in front of a text that does not begin with a blank. -/
def token? (cs : List Char) : Option (Token × List Char) :=
  match cs with
  | '[' :: rest => some (.openArray, rest)
  | ']' :: rest => some (.closeArray, rest)
  | '\x7b' :: rest => some (.openObject, rest)
  | '\x7d' :: rest => some (.closeObject, rest)
  | ',' :: rest => some (.comma, rest)
  | ':' :: rest => some (.colon, rest)
  | '"' :: rest => (stringRest rest).map (fun (s, rest) => (.string s, rest))
  | 'n' :: _ => (afterWord? "null" cs).map (Token.null, ·)
  | 't' :: _ => (afterWord? "true" cs).map (Token.bool true, ·)
  | 'f' :: _ => (afterWord? "false" cs).map (Token.bool false, ·)
  | _ => (number? cs).map (fun (n, rest) => (.number n, rest))

/-- At most `fuel` tokens. -/
def tokensFrom : (fuel : Nat) → List Char → List Token
  | 0, _ => []
  | fuel + 1, cs =>
    match cs.dropWhile isBlank with
    | [] => []
    | cs =>
      match token? cs with
      | some (t, rest) => t :: tokensFrom fuel rest
      | none => [.bad]

/-- Every token takes at least one character. -/
def tokens (text : String) : List Token := tokensFrom (text.length + 1) text.toList

end VeiledLedger.Json
