/-
  VeiledLedger.Argument.Field — the fields of the pairing-friendly curve BN254.

  `Scalar` is the field that circuits compute in, `Base` the field of the curve's coordinates,
  and `Twist` its quadratic extension by a root of -1, in which the second group has its
  coordinates.
-/

namespace VeiledLedger.Argument

def scalarModulus : Nat := 21888242871839275222246405745257275088548364400416034343698204186575808495617

def baseModulus : Nat := 21888242871839275222246405745257275088696311157297823662689037894645226208583

-- Zero is the core's own, also beside a library that offers another one.
instance : @NeZero Nat Zero.ofOfNat0 scalarModulus := ⟨Nat.succ_ne_zero _⟩

instance : @NeZero Nat Zero.ofOfNat0 baseModulus := ⟨Nat.succ_ne_zero _⟩

abbrev Scalar := Fin scalarModulus

abbrev Base := Fin baseModulus

/-- `b ^ e` for any multiplication. -/
def powBy {α : Type} (mul : α → α → α) (one b : α) (e : Nat) : α :=
  if _h : e = 0 then one
  else
    let half := powBy mul one b (e / 2)
    let square := mul half half
    if e % 2 = 1 then mul square b else square
termination_by e
decreasing_by omega

/-- Divides until nothing remains. If two numbers are multiples of a third one modulo a fourth, by
    the factors given with them, so is their greatest common divisor, by the factor that comes out. -/
def divideOut (r₀ r₁ : Nat) (s₀ s₁ : Int) : Int :=
  if _h : r₁ = 0 then s₀ else divideOut r₁ (r₀ % r₁) s₁ (s₀ - (r₀ / r₁ : Nat) * s₁)
termination_by r₁
decreasing_by exact Nat.mod_lt _ (Nat.pos_of_ne_zero _h)

/-- The inverse modulo a prime; a multiple of the prime has none and gives zero. -/
def inverseModulo (m x : Nat) : Nat := (divideOut m (x % m) 0 1 % m).toNat

namespace Scalar

def ofNat (n : Nat) : Scalar := Fin.ofNat scalarModulus n

def inverse (x : Scalar) : Scalar := ofNat (inverseModulo scalarModulus x.val)

end Scalar

/-- What a curve needs of the field of its coordinates. -/
class CoordinateField (F : Type) extends Add F, Sub F, Mul F, Neg F, BEq F where
  zero : F
  one : F
  inverse : F → F
  /-- A square root, if there is one. -/
  root? : F → Option F
  /-- The smaller of `x` and `-x` in the order by which signs are told. -/
  isLower : F → Bool

namespace Base

def ofNat (n : Nat) : Base := Fin.ofNat baseModulus n

def inverse (x : Base) : Base := ofNat (inverseModulo baseModulus x.val)

/-- The modulus is 3 modulo 4, so a root is a power. -/
def root? (x : Base) : Option Base :=
  let r := powBy (· * ·) 1 x ((baseModulus + 1) / 4)
  if r * r = x then some r else none

instance : CoordinateField Base where
  zero := 0
  one := 1
  inverse := inverse
  root? := root?
  isLower x := x.val ≤ (-x).val

end Base

/-- `re + im · i` with `i * i = -1`. -/
structure Twist where
  re : Base
  im : Base
  deriving DecidableEq

namespace Twist

def add (x y : Twist) : Twist := ⟨x.re + y.re, x.im + y.im⟩

def sub (x y : Twist) : Twist := ⟨x.re - y.re, x.im - y.im⟩

def neg (x : Twist) : Twist := ⟨-x.re, -x.im⟩

def mul (x y : Twist) : Twist := ⟨x.re * y.re - x.im * y.im, x.re * y.im + x.im * y.re⟩

/-- What has a sixth root only in the next extension. -/
def sixth : Twist := ⟨9, 1⟩

def inverse (x : Twist) : Twist :=
  let n := Base.inverse (x.re * x.re + x.im * x.im)
  ⟨x.re * n, -(x.im * n)⟩

/-- A root of a number of the base field: its root there, or a root of its negative times `i`. -/
def rootOfReal? (x : Base) : Option Twist :=
  match Base.root? x with
  | some r => some ⟨r, 0⟩
  | none => (Base.root? (-x)).map (fun r => ⟨0, r⟩)

/-- The root is found from the norm: its real part squared is half the sum of the real part and
    a root of the norm, for one of the two signs of that root. -/
def root? (x : Twist) : Option Twist :=
  if x.im = 0 then rootOfReal? x.re
  else
    match Base.root? (x.re * x.re + x.im * x.im) with
    | none => none
    | some n =>
      let half := Base.inverse 2
      let real := match Base.root? ((x.re + n) * half) with
        | some r => some r
        | none => Base.root? ((x.re - n) * half)
      match real with
      | none => none
      | some r =>
        let y : Twist := ⟨r, x.im * half * Base.inverse r⟩
        if mul y y = x then some y else none

/-- The imaginary part is compared first. -/
def isLower (x : Twist) : Bool :=
  let y := neg x
  if x.im = y.im then x.re.val ≤ y.re.val else x.im.val ≤ y.im.val

instance : CoordinateField Twist where
  add := add
  sub := sub
  mul := mul
  neg := neg
  beq x y := x = y
  zero := ⟨0, 0⟩
  one := ⟨1, 0⟩
  inverse := inverse
  root? := root?
  isLower := isLower

end Twist

end VeiledLedger.Argument
