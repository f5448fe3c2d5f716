/-
  VeiledLedger.Argument.Draw — what a setup draws from its seed.

  A draw takes words from a key stream, in order. What does not fit is thrown away and drawn
  again; so many times in a row, however, never happens. A field element is drawn as its
  product with 2^256, a point as its x and the choice between two y.
-/

import VeiledLedger.Argument.Curve
import VeiledLedger.Argument.KeyStream

namespace VeiledLedger.Argument

/-- A key stream and the number of words already taken. -/
structure Source where
  seed : Digest
  taken : Nat

abbrev Draw := StateM Source

namespace Draw

def word : Draw Nat := fun s => ((KeyStream.word s.seed s.taken).toNat, { s with taken := s.taken + 1 })

/-- The number in the next `n` words, the least significant one first. -/
def number : (n : Nat) → Draw Nat
  | 0 => return 0
  | n + 1 => do
    let low ← word
    return low + 2 ^ 32 * (← number n)

/-- Draws until something comes of it. -/
def retry {α : Type} [Inhabited α] (draw : Draw (Option α)) : (attempts : Nat) → Draw α
  | 0 => return default
  | attempts + 1 => do
    match ← draw with
    | some x => return x
    | none => retry draw attempts

def attempts : Nat := 1000

/-- A number of 254 bits, if it is below the modulus. -/
def below? (modulus : Nat) : Draw (Option Nat) := do
  let n := (← number 8) % 2 ^ 254
  return if n < modulus then some n else none

def scalar : Draw Scalar := do
  return Scalar.ofNat (← retry (below? scalarModulus) attempts) * Scalar.inverse (Scalar.ofNat (2 ^ 256))

def base : Draw Base := do
  return Base.ofNat (← retry (below? baseModulus) attempts) * Base.inverse (Base.ofNat (2 ^ 256))

def twist : Draw Twist := do
  let re ← base
  return ⟨re, ← base⟩

/-- The highest bit of a word says whether the greater y is meant. -/
def point? {F : Type} [CoordinateField F] (c : Curve F) (coordinate : Draw F) : Draw (Option (Point F)) := do
  let x ← coordinate
  let greater := 2 ^ 31 ≤ (← word)
  return c.point? x (!greater)

/-- A point in the group of prime order. -/
def point {F : Type} [CoordinateField F] (c : Curve F) (coordinate : Draw F) : Draw (Point F) := do
  return (← retry (point? c coordinate) attempts).times c.cofactor

end Draw

end VeiledLedger.Argument
