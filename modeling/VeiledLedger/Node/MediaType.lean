/-
  VeiledLedger.Node.MediaType — whether a body says that it is JSON.

  A media type has a type, a subtype and parameters. What stands behind the last plus sign of
  the subtype is its suffix and names the format that the subtype is written in.
-/

namespace VeiledLedger.Node

structure MediaType where
  type : String
  subtype : String
  suffix : Option String
  deriving DecidableEq, Repr

namespace MediaType

/-- The characters of names and of plain values. -/
def isTokenChar (c : Char) : Bool := c.isAlphanum || "!#$%&'*+-.^_`|~".toList.contains c

/-- The characters between quotes. -/
def isQuotedChar (c : Char) : Bool := ' ' ≤ c && c ≤ '~'

/-- Splits a non-empty token off the front. -/
def token? (cs : List Char) : Option (List Char × List Char) :=
  match cs.takeWhile isTokenChar with
  | [] => none
  | name => some (name, cs.dropWhile isTokenChar)

/-- The value of a parameter and what follows it. Only at the end of the text may the value be
    empty. Between quotes stands at least one character, which may itself be a quote; blanks may
    stand behind a quoted value. -/
def value? : List Char → Option (List Char)
  | [] => some []
  | '"' :: c :: rest =>
    match rest.dropWhile (fun c => isQuotedChar c && c ≠ '"') with
    | '"' :: rest => if isQuotedChar c then some (rest.dropWhile (· = ' ')) else none
    | _ => none
  | cs => (token? cs).map (·.2)

/-- Whether a list of parameters is well formed, of which `cs` is left; blanks may stand before
    each parameter, and nothing need stand behind the last semicolon. At most `fuel` parameters
    are read. -/
def parametersAreValid : (fuel : Nat) → List Char → Bool
  | 0, cs => cs = []
  | fuel + 1, cs =>
    match cs.dropWhile (· = ' ') with
    | [] => true
    | cs =>
      match token? cs with
      | some (_, '=' :: rest) =>
        match value? rest with
        | some [] => true
        | some (';' :: rest) => parametersAreValid fuel rest
        | _ => false
      | _ => false

/-- A subtype without its suffix, and the suffix. A plus sign at its front is part of it. -/
def splitSuffix (subtype : List Char) : List Char × Option (List Char) :=
  let tail := (subtype.reverse.takeWhile (· ≠ '+')).reverse
  let front := subtype.take (subtype.length - tail.length - 1)
  if front = [] ∨ tail.length = subtype.length then (subtype, none) else (front, some tail)

def lower (cs : List Char) : String := String.ofList (cs.map Char.toLower)

def ofText? (text : String) : Option MediaType := do
  let (type, rest) ← token? text.toList
  match rest with
  | '/' :: rest => do
    let (subtype, rest) ← token? rest
    let (subtype, suffix) := splitSuffix subtype
    let parameters ← match rest with
      | [] => some []
      | ';' :: rest => some rest
      | _ => none
    if parametersAreValid (parameters.length + 1) parameters then
      some ⟨lower type, lower subtype, suffix.map lower⟩
    else none
  | _ => none

def isJson (m : MediaType) : Bool := m.type = "application" && (m.subtype = "json" || m.suffix = some "json")

end MediaType

end VeiledLedger.Node
