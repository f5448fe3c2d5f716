/-
  VeiledLedger.Json.Number — numbers in JSON text.

  Of a number only what the ledger needs is kept: whether it is a natural number of 64 bits, and
  whether it fits a double at all.

  A double is found with one word and one multiplication. Digits enter a significand as long as
  it fits 64 bits; what is dropped of the whole part counts in the exponent. The significand and
  the power of ten are each rounded to a double, and the number fits if their product does. Near
  the greatest double this is stricter or laxer than the value that was written.
-/

namespace VeiledLedger.Json

inductive Number where
  /-- Below 2^64, without a sign, a fraction or an exponent. -/
  | natural (n : Nat)
  | other
  /-- No finite double is found for it. -/
  | outOfRange
  deriving DecidableEq, Repr

/-! ## Doubles -/

/-- The double nearest to a natural number, whatever its size: it has 53 bits, and a tie goes to
    the even neighbour. -/
def nearestDouble (n : Nat) : Nat :=
  let unit := 2 ^ (n.log2 - 52)
  let (q, r) := (n / unit, n % unit)
  let up := unit < 2 * r ∨ unit = 2 * r ∧ q % 2 = 1
  unit * if up then q + 1 else q

/-- From here on a number is rounded to 2^1024, which is no double. -/
def doubleEnd : Nat := 2 ^ 1024 - 2 ^ 970

/-- `significand * 10 ^ exponent`. -/
structure Scaled where
  significand : Nat
  exponent : Int
  deriving DecidableEq, Repr

namespace Scaled

def digitValue (c : Char) : Nat := c.toNat - 48

/-- Takes digits into a significand as long as it fits 64 bits, and gives the digits that are left. -/
def absorb (m : Nat) : List Char → Nat × List Char
  | [] => (m, [])
  | c :: cs =>
    let next := 10 * m + digitValue c
    if next < 2 ^ 64 then absorb next cs else (m, c :: cs)

/-- The number with these digits before and after the point. Digits of the fraction may still
    be taken after some of the whole part were dropped. -/
def ofDigits (whole fraction : List Char) (exponent : Int) : Scaled :=
  let (m, dropped) := absorb 0 whole
  let (m, ignored) := absorb m fraction
  ⟨m, exponent + dropped.length - (fraction.length - ignored.length : Nat)⟩

/-- Zero fits with every exponent, and a negative exponent always does. -/
def fitsDouble (s : Scaled) : Bool :=
  s.significand = 0 || s.exponent < 0 ||
    (s.exponent ≤ 308 && nearestDouble s.significand * nearestDouble (10 ^ s.exponent.toNat) < doubleEnd)

end Scaled

/-! ## Reading -/

/-- The digits in front of a text, at least one. -/
def digits? (cs : List Char) : Option (List Char × List Char) :=
  let ds := cs.takeWhile Char.isDigit
  if ds = [] then none else some (ds, cs.dropWhile Char.isDigit)

/-- The part of a number before the point; a zero stands alone. -/
def wholePart? (cs : List Char) : Option (List Char × List Char) :=
  match digits? cs with
  | some (ds, rest) => if ds.head? = some '0' ∧ ds ≠ ['0'] then none else some (ds, rest)
  | none => none

/-- The digits after a point; none without a point. -/
def fraction? : List Char → Option (List Char × List Char)
  | '.' :: rest => digits? rest
  | cs => some ([], cs)

/-- The absolute value of an exponent. What 64 bits have no room for is dropped: no text has
    enough digits to make up for such an exponent. -/
def magnitude (ds : List Char) : Int := (Scaled.absorb 0 ds).1

/-- The exponent, if there is one. -/
def exponent? : List Char → Option (Option Int × List Char)
  | c :: rest =>
    if c = 'e' ∨ c = 'E' then
      match rest with
      | '-' :: rest => (digits? rest).map (fun (ds, rest) => (some (-magnitude ds), rest))
      | '+' :: rest => (digits? rest).map (fun (ds, rest) => (some (magnitude ds), rest))
      | _ => (digits? rest).map (fun (ds, rest) => (some (magnitude ds), rest))
    else some (none, c :: rest)
  | [] => some (none, [])

def classify (negative : Bool) (whole fraction : List Char) (exponent : Option Int) : Number :=
  match negative, fraction, exponent, Scaled.absorb 0 whole with
  | false, [], none, (n, []) => .natural n
  | _, _, _, _ => if (Scaled.ofDigits whole fraction (exponent.getD 0)).fitsDouble then .other else .outOfRange

/-- The number in front of a text. -/
def number? (cs : List Char) : Option (Number × List Char) := do
  let (negative, cs) := match cs with
    | '-' :: rest => (true, rest)
    | cs => (false, cs)
  let (whole, cs) ← wholePart? cs
  let (fraction, cs) ← fraction? cs
  let (exponent, cs) ← exponent? cs
  return (classify negative whole fraction exponent, cs)

end VeiledLedger.Json
