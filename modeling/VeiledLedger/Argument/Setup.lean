/-
  VeiledLedger.Argument.Setup — keys, and the argument they make and check.

  The argument is Groth16, of three points. Constraint i becomes the statement that three
  polynomials fulfil a · b = c at the i-th power of a root of unity, and the polynomials are
  looked at in one secret place. A verifier's key keeps of them what belongs to the constant
  and to its inputs: β · a + α · b + c for each, summed up in `statement`.

  A setup that forgets what it has drawn leaves points behind, from which a prover who knows
  the witness can put a proof together. This one is drawn from a seed and forgets nothing. Its
  proofs are the same: the first two points are blinded, so anything may stand there, and
  together with the statement they determine the third.
-/

import VeiledLedger.Argument.Draw
import VeiledLedger.Argument.Pairing
import VeiledLedger.Argument.Proof
import VeiledLedger.Argument.Wiring

namespace VeiledLedger.Argument

/-! ## Places -/

/-- The least power of two that is not below `n`. -/
def domainSize (n : Nat) : Nat := if n ≤ 1 then 1 else 2 ^ ((n - 1).log2 + 1)

/-- A root of unity whose order is `size`, a power of two up to 2^28. -/
def rootOfUnity (size : Nat) : Scalar := powBy (· * ·) 1 5 ((scalarModulus - 1) / size)

/-- The first `n` powers of a number. -/
def powers (x : Scalar) : (n : Nat) → List Scalar
  | 0 => []
  | n + 1 => (List.range n).foldl (fun xs _ => xs.headD 0 * x :: xs) [1] |>.reverse

/-- The inverse of `x` and those of the numbers, none of which is zero; only one inverse is computed. -/
def inversesWith (x : Scalar) : List Scalar → Scalar × List Scalar
  | [] => (Scalar.inverse x, [])
  | y :: ys =>
    let (i, inverses) := inversesWith (x * y) ys
    (i * y, i * x :: inverses)

/-- The values at `place` of the first `n` polynomials that are one at one point of the domain
    and zero at all others. -/
def weights (size n : Nat) (place : Scalar) : List Scalar :=
  let points := powers (rootOfUnity size) n
  let common := (powBy (· * ·) 1 place size - 1) * Scalar.inverse (Scalar.ofNat size)
  List.zipWith (fun x i => common * x * i) points (inversesWith 1 (points.map (place - ·))).2

/-! ## Keys -/

structure Keys where
  alpha : Scalar
  beta : Scalar
  delta : Scalar
  first : Point Base
  second : Point Twist
  statement : Combination

namespace Keys

/-- The sum over the powers; each takes the weights of three constraints. -/
def weighPowers (alpha beta : Scalar) : List Combination → List Scalar → Combination → Combination
  | x :: xs, u :: _ :: v :: ws, sum => weighPowers alpha beta xs ws ((x.scale (beta * u + alpha * (u + v))).add sum)
  | _, _, sum => sum

/-- What the constant and the inputs of a verifier contribute. Behind its constraints the
    domain has a place for the constant and for each input. -/
def weigh (alpha beta : Scalar) (c : Constraints) (ws : List Scalar) : Combination :=
  let sum := weighPowers alpha beta c.powers ws .zero
  match ws.drop (c.count - 1) with
  | u :: one :: rest =>
    let own : Combination := ⟨beta * one, rest.zipIdx.map (fun (w, i) => (i, beta * w))⟩
    ((sum.add (c.difference.scale (beta * u))).add ⟨alpha * u, []⟩).add own
  | _ => sum

/-- A place outside the domain. -/
def drawPlace (size : Nat) : Draw (Option Scalar) := do
  let place ← Draw.scalar
  return if powBy (· * ·) 1 place size = 1 then none else some place

/-- The third number that is drawn scales two parts of the key alike, so nothing depends on it. -/
def draw (shape : CircuitShape) : Draw Keys := do
  let alpha ← Draw.scalar
  let beta ← Draw.scalar
  let _ ← Draw.scalar
  let delta ← Draw.scalar
  let first ← Draw.point firstCurve Draw.base
  let second ← Draw.point secondCurve Draw.twist
  let constraints := Constraints.ofShape shape
  let places := constraints.count + (shape.publicInput + 2)
  let size := domainSize places
  let place ← Draw.retry (drawPlace size) Draw.attempts
  return ⟨alpha, beta, delta, first, second, weigh alpha beta constraints (weights size places place)⟩

def ofSeed (seed : Digest) (shape : CircuitShape) : Keys := ((draw shape).run ⟨seed, 0⟩).1

/-- What the pairing of the first two points has to be, apart from what the third one adds. -/
def claim (k : Keys) (inputs : List Scalar) : Scalar := k.alpha * k.beta + k.statement.value inputs

/-- The proof whose first two points are told by `a` and `b`. -/
def prove (k : Keys) (inputs : List Scalar) (a b : Scalar) : Proof :=
  let c := (a * b - k.claim inputs) * Scalar.inverse k.delta
  ⟨k.first.times a.val, k.second.times b.val, k.first.times c.val⟩

def accepts (k : Keys) (inputs : List Scalar) (p : Proof) : Bool :=
  pairingsCancel [(p.a, p.b), ((k.first.times (k.claim inputs).val).neg, k.second),
    (p.c.neg, k.second.times k.delta.val)]

end Keys

end VeiledLedger.Argument
