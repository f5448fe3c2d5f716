/-
  VeiledLedger.Json.Text — values written as JSON text.

  A value is put down lexeme by lexeme with nothing in between, the members of an object in
  the order they have. In a string only the quotation mark, the backslash and the control
  characters are escaped, the control characters by their short escapes where they have one.
-/

import VeiledLedger.Json.Decoder

namespace VeiledLedger.Json

/-! ## Strings -/

/-- The letter behind the backslash. -/
def shortEscape? : Char → Option Char
  | '"' => some '"'
  | '\\' => some '\\'
  | '\x08' => some 'b'
  | '\x0c' => some 'f'
  | '\n' => some 'n'
  | '\r' => some 'r'
  | '\t' => some 't'
  | _ => none

def escape (c : Char) : List Char :=
  match shortEscape? c with
  | some letter => ['\\', letter]
  | none =>
    if c.toNat < 32 then ['\\', 'u', '0', '0', Nat.digitChar (c.toNat / 16), Nat.digitChar (c.toNat % 16)] else [c]

/-! ## Lexemes -/

inductive Lexeme where
  | openArray
  | closeArray
  | openObject
  | closeObject
  | comma
  | colon
  | null
  | bool (b : Bool)
  | integer (n : Int)
  /-- A number whose value was not kept. -/
  | number
  | string (s : String)

namespace Lexeme

def chars : Lexeme → List Char
  | openArray => ['[']
  | closeArray => [']']
  | openObject => ['\x7b']
  | closeObject => ['\x7d']
  | comma => [',']
  | colon => [':']
  | null => "null".toList
  | bool true => "true".toList
  | bool false => "false".toList
  | integer (.ofNat n) => Nat.toDigits 10 n
  | integer (.negSucc n) => '-' :: Nat.toDigits 10 (n + 1)
  | number => "0.0".toList
  | string s => '"' :: (s.toList.flatMap escape ++ ['"'])

/-- Values or members one after another. -/
def joined : List (List Lexeme) → List Lexeme
  | [] => []
  | [x] => x
  | x :: xs => x ++ comma :: joined xs

end Lexeme

namespace Datum

mutual

def lexemes : Datum → List Lexeme
  | .null => [.null]
  | .bool b => [.bool b]
  | .integer n => [.integer n]
  | .number => [.number]
  | .string s => [.string s]
  | .array items => .openArray :: (Lexeme.joined (itemLexemes items) ++ [.closeArray])
  | .object members => .openObject :: (Lexeme.joined (memberLexemes members) ++ [.closeObject])

def itemLexemes : List Datum → List (List Lexeme)
  | [] => []
  | x :: xs => lexemes x :: itemLexemes xs

def memberLexemes : List (String × Datum) → List (List Lexeme)
  | [] => []
  | (name, x) :: ms => (.string name :: .colon :: lexemes x) :: memberLexemes ms

end

def text (d : Datum) : String := String.ofList (d.lexemes.flatMap Lexeme.chars)

end Datum

end VeiledLedger.Json
