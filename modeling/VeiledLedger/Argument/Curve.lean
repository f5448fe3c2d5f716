/-
  VeiledLedger.Argument.Curve — the two groups of the curve, and points in bytes.

  Both groups are the points of a curve y² = x³ + b with a point at infinity. A point is
  written as its x, least significant byte first, with two flags in the last byte: one says
  that y is the greater of the two possible ones, the other that the point is infinity. What
  is read has to lie on the curve and in the group of prime order.
-/

import VeiledLedger.Argument.Field
import VeiledLedger.Bytes

namespace VeiledLedger.Argument

inductive Point (F : Type) where
  | infinity
  | affine (x y : F)

instance {F : Type} : Inhabited (Point F) := ⟨.infinity⟩

structure Curve (F : Type) where
  b : F
  /-- How many times more points lie on the curve than in the group of prime order. -/
  cofactor : Nat

def firstCurve : Curve Base := ⟨3, 1⟩

/-- Here b is 3 / (9 + i). -/
def secondCurve : Curve Twist := ⟨Twist.mul ⟨3, 0⟩ (Twist.inverse Twist.sixth), 2 * baseModulus - scalarModulus⟩

namespace Point

variable {F : Type} [CoordinateField F]

/-- The third point on the line of slope `m` through two points, turned over. -/
def onLine (m x₁ y₁ x₂ : F) : Point F :=
  let x := m * m - x₁ - x₂
  .affine x (m * (x₁ - x) - y₁)

/-- The slope of the line through two points, of the tangent if they are the same; none if the
    line is vertical. -/
def slope? (x₁ y₁ x₂ y₂ : F) : Option F :=
  if x₁ == x₂ then
    if y₁ == y₂ && !(y₁ == CoordinateField.zero) then
      let xx := x₁ * x₁
      some ((xx + xx + xx) * CoordinateField.inverse (y₁ + y₁))
    else none
  else some ((y₂ - y₁) * CoordinateField.inverse (x₂ - x₁))

def add : Point F → Point F → Point F
  | .infinity, q => q
  | p, .infinity => p
  | .affine x₁ y₁, .affine x₂ y₂ =>
    match slope? x₁ y₁ x₂ y₂ with
    | some m => onLine m x₁ y₁ x₂
    | none => .infinity

def neg : Point F → Point F
  | .infinity => .infinity
  | .affine x y => .affine x (-y)

/-- `n` times the point. -/
def times (n : Nat) (p : Point F) : Point F := powBy add .infinity p n

def isInfinity : Point F → Bool
  | .infinity => true
  | .affine _ _ => false

end Point

namespace Curve

variable {F : Type} [CoordinateField F]

/-- The point with this x whose y is the lower or the greater one, if there is one. -/
def point? (c : Curve F) (x : F) (lower : Bool) : Option (Point F) :=
  (CoordinateField.root? (x * x * x + c.b)).map fun y =>
    .affine x (if CoordinateField.isLower y == lower then y else -y)

/-- Whether a point on the curve is in the group of prime order. -/
def isInGroup (c : Curve F) (p : Point F) : Bool := c.cofactor = 1 || (p.times scalarModulus).isInfinity

end Curve

/-! ## Reading and writing -/

inductive PointFault where
  | tooShort
  | invalid
  /-- Both flags are set. -/
  | badFlags
  deriving DecidableEq, Repr

namespace PointFault

def message : PointFault → String
  | tooShort => "I/O error: Error \x7b kind: UnexpectedEof, message: \"failed to fill whole buffer\" \x7d"
  | invalid => "the input buffer contained invalid data"
  | badFlags => "the call expects empty flags"

end PointFault

/-- Takes something off the front of a byte string. -/
abbrev PointReader := StateT Bytes (Except PointFault)

def fault {α : Type} (e : PointFault) : PointReader α := fun _ => .error e

/-- The number in the next 32 bytes. -/
def readNumber : PointReader Nat := fun b =>
  if b.length < 32 then .error .tooShort else .ok (Bytes.toNatLittle (b.take 32), b.drop 32)

/-- A number that has to be below the modulus. -/
def readBelow (modulus : Nat) : PointReader Nat := do
  let n ← readNumber
  if n < modulus then return n else fault .invalid

def readScalar : PointReader Scalar := do return Scalar.ofNat (← readBelow scalarModulus)

structure PointFlags where
  greater : Bool
  infinity : Bool

/-- A number below the modulus of the base field, under two flags in its highest bits. -/
def readFlagged : PointReader (Base × PointFlags) := do
  let n ← readNumber
  let flags : PointFlags := ⟨2 ^ 255 ≤ n, 2 ^ 254 ≤ n % 2 ^ 255⟩
  if flags.greater && flags.infinity then fault .badFlags
  else
    let x := n % 2 ^ 254
    if x < baseModulus then return (Base.ofNat x, flags) else fault .invalid

def finishPoint {F : Type} [CoordinateField F] (c : Curve F) (x : F) (flags : PointFlags) :
    PointReader (Point F) :=
  if flags.infinity then return .infinity
  else match (c.point? x (!flags.greater)).filter c.isInGroup with
    | some p => return p
    | none => fault .invalid

def readFirst : PointReader (Point Base) := do
  let (x, flags) ← readFlagged
  finishPoint firstCurve x flags

def readSecond : PointReader (Point Twist) := do
  let re ← readBelow baseModulus
  let (im, flags) ← readFlagged
  finishPoint secondCurve ⟨Base.ofNat re, im⟩ flags

def writeScalar (s : Scalar) : Bytes := Bytes.ofNatLittle 32 s.val

def writeFlagged (x : Base) (greater infinity : Bool) : Bytes :=
  Bytes.ofNatLittle 32 (x.val + (if greater then 2 ^ 255 else 0) + (if infinity then 2 ^ 254 else 0))

def writeFirst : Point Base → Bytes
  | .infinity => writeFlagged 0 false true
  | .affine x y => writeFlagged x (!CoordinateField.isLower y) false

def writeSecond : Point Twist → Bytes
  | .infinity => Bytes.zeros 32 ++ writeFlagged 0 false true
  | .affine x y => Bytes.ofNatLittle 32 x.re.val ++ writeFlagged x.im (!CoordinateField.isLower y) false

end VeiledLedger.Argument
