/-
  VeiledLedger.Argument.Pairing — the pairing of the two groups, as far as verifying needs it.

  The field of the pairing extends `Twist` by a sixth root w of 9 + i. There the second group
  lies on the curve of the first one: (x, y) stands for (x w², y w³). The pairing of p and q is
  the value at p of a function whose zeros and poles are told by a multiple of q, raised to a
  power that takes it to the roots of unity. Factors from the subfield of even powers of w,
  such as vertical lines, do not survive that power, so they are left out.
-/

import VeiledLedger.Argument.Curve

namespace VeiledLedger.Argument

/-- `c0 + c1 w + … + c5 w⁵` with w⁶ = 9 + i. -/
structure Sextic where
  c0 : Twist
  c1 : Twist
  c2 : Twist
  c3 : Twist
  c4 : Twist
  c5 : Twist

namespace Sextic

def zero : Sextic := ⟨⟨0, 0⟩, ⟨0, 0⟩, ⟨0, 0⟩, ⟨0, 0⟩, ⟨0, 0⟩, ⟨0, 0⟩⟩

def one : Sextic := { zero with c0 := ⟨1, 0⟩ }

def add (x y : Sextic) : Sextic :=
  ⟨x.c0.add y.c0, x.c1.add y.c1, x.c2.add y.c2, x.c3.add y.c3, x.c4.add y.c4, x.c5.add y.c5⟩

def scale (s : Twist) (x : Sextic) : Sextic :=
  ⟨s.mul x.c0, s.mul x.c1, s.mul x.c2, s.mul x.c3, s.mul x.c4, s.mul x.c5⟩

/-- `w` times the number. -/
def shift (x : Sextic) : Sextic := ⟨Twist.sixth.mul x.c5, x.c0, x.c1, x.c2, x.c3, x.c4⟩

/-- Cheap if most coefficients of the first number are zero. -/
def mul (x y : Sextic) : Sextic :=
  [x.c5, x.c4, x.c3, x.c2, x.c1, x.c0].foldl
    (fun z c => if c = ⟨0, 0⟩ then z.shift else z.shift.add (y.scale c)) zero

/-- Whether only even powers of w occur. -/
def isEven (x : Sextic) : Bool := x.c1 = ⟨0, 0⟩ && x.c3 = ⟨0, 0⟩ && x.c5 = ⟨0, 0⟩

end Sextic

/-- The line through two points of the second group, at a point of the first one, and the sum
    of the two. -/
def lineAndSum (x y : Base) : Point Twist → Point Twist → Sextic × Point Twist
  | .infinity, r => (.one, r)
  | q, .infinity => (.one, q)
  | .affine x₁ y₁, .affine x₂ y₂ =>
    match Point.slope? x₁ y₁ x₂ y₂ with
    | some m =>
      ({ Sextic.zero with c0 := ⟨y, 0⟩, c1 := m.neg.mul ⟨x, 0⟩, c3 := (m.mul x₁).sub y₁ },
        Point.onLine m x₁ y₁ x₂)
    | none => (.one, .infinity)

/-- Multiplies `f` by a line for each place, and gives the sums of the points on the lines. -/
def multiplyLines (f : Sextic) : List ((Base × Base) × Point Twist × Point Twist) → Sextic × List (Point Twist)
  | [] => (f, [])
  | ((x, y), r, s) :: rest =>
    let (line, sum) := lineAndSum x y r s
    let (f, sums) := multiplyLines (line.mul f) rest
    (f, sum :: sums)

/-- The product of the functions for `n` times each point of the second group, at the places
    given with the points, and these multiples. -/
def lineProduct (pairs : List ((Base × Base) × Point Twist)) (n : Nat) : Sextic × List (Point Twist) :=
  if _h : n ≤ 1 then (.one, pairs.map (·.2))
  else
    let (f, rs) := lineProduct pairs (n / 2)
    let (f, rs) := multiplyLines (f.mul f) (List.zipWith (fun p r => (p.1, r, r)) pairs rs)
    if n % 2 = 1 then multiplyLines f (List.zipWith (fun p r => (p.1, r, p.2)) pairs rs) else (f, rs)
termination_by n
decreasing_by omega

/-- One less than the trace of the first curve. -/
def loopLength : Nat := baseModulus - scalarModulus

/-- A pair with a point at infinity has the pairing one. -/
def finite? : Point Base × Point Twist → Option ((Base × Base) × Point Twist)
  | (.affine x y, q) => some ((x, y), q)
  | (.infinity, _) => none

/-- Whether the product of the pairings is one. The power is (p¹² - 1) / r for the two moduli. Raised
    to (p⁶ + 1) / r, a number becomes one with the remaining power p⁶ - 1 if it is in the subfield. -/
def pairingsCancel (pairs : List (Point Base × Point Twist)) : Bool :=
  let f := (lineProduct (pairs.filterMap finite?) loopLength).1
  (powBy Sextic.mul .one f ((baseModulus ^ 6 + 1) / scalarModulus)).isEven

end VeiledLedger.Argument
