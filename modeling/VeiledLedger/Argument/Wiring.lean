/-
  VeiledLedger.Argument.Wiring — the constraints of a circuit, as far as a verifier's key needs them.

  The circuit computes the sponge over its public and private elements. A sum or a multiple of
  wires is a linear combination and costs nothing; only a product makes a new wire and a
  constraint. So a fifth power makes three constraints, x · x = y, y · y = z and z · x = w, and
  a last one, (s - c) · 1 = 0, ties the outcome s to the commitment c. The key needs of all
  combinations only the constant and the inputs that the verifier knows; new wires have
  neither.
-/

import VeiledLedger.Argument.Circuit

namespace VeiledLedger.Argument

/-- A linear combination without its private wires. The inputs of a verifier are told by their
    position. -/
structure Combination where
  constant : Scalar
  inputs : List (Nat × Scalar)

namespace Combination

def zero : Combination := ⟨0, []⟩

def input (i : Nat) : Combination := ⟨0, [(i, 1)]⟩

def add (x y : Combination) : Combination := ⟨x.constant + y.constant, x.inputs ++ y.inputs⟩

def scale (c : Scalar) (x : Combination) : Combination :=
  ⟨c * x.constant, x.inputs.map (fun (i, d) => (i, c * d))⟩

/-- The value for given inputs. -/
def value (x : Combination) (inputs : List Scalar) : Scalar :=
  let inputs := inputs.toArray
  x.inputs.foldl (fun v (i, c) => v + c * inputs.getD i 0) x.constant

end Combination

/-- What the sponge computes with in a circuit. -/
inductive Wire where
  /-- The same in every assignment; it takes no constraint. -/
  | fixed (c : Scalar)
  | varying (x : Combination)

namespace Wire

def add : Wire → Wire → Wire
  | .fixed c, .fixed d => .fixed (c + d)
  | .fixed c, .varying x | .varying x, .fixed c => .varying { x with constant := x.constant + c }
  | .varying x, .varying y => .varying (x.add y)

def scale (c : Scalar) : Wire → Wire
  | .fixed d => .fixed (c * d)
  | .varying x => .varying (x.scale c)

def combination : Wire → Combination
  | .fixed c => ⟨c, []⟩
  | .varying x => x

end Wire

/-- Wiring remembers what was raised to a power, the last one first. -/
abbrev Wiring := StateM (List Combination)

namespace Wiring

def fifth : Wire → Wiring Wire
  | .fixed c => return .fixed (Argument.fifth c)
  | .varying x => do
    modify (x :: ·)
    return .varying .zero

def mix (matrix : List (List Scalar)) (s : List Wire) : List Wire :=
  matrix.map (fun row => (List.zipWith Wire.scale row s).foldl Wire.add (.fixed 0))

def round (matrix : List (List Scalar)) (s : List Wire) (r : Round) : Wiring (List Wire) := do
  let s := List.zipWith (fun x c => x.add (.fixed c)) s r.constants
  let raised := if r.isFull then s else s.take 1
  return mix matrix ((← raised.mapM fifth) ++ s.drop raised.length)

def absorbBlock (p : SpongeParameters) (rounds : List Round) (s block : List Wire) : Wiring (List Wire) :=
  let padded := List.replicate p.capacity (.fixed 0) ++ block ++ List.replicate p.rate (.fixed 0)
  rounds.foldlM (round p.matrix) (List.zipWith Wire.add s padded)

def sponge (p : SpongeParameters) (elements : List Wire) : Wiring Wire := do
  let s ← (p.blocks elements).foldlM (absorbBlock p p.rounds) (List.replicate (p.rate + p.capacity) (.fixed 0))
  return s.getD p.capacity (.fixed 0)

end Wiring

/-- The constraints of a circuit, in order: three for each power, then the last one. -/
structure Constraints where
  /-- What is raised to the fifth power. -/
  powers : List Combination
  /-- What has to be zero. -/
  difference : Combination

namespace Constraints

/-- The commitment is the first of the inputs, and the public elements follow it. -/
def ofShape (shape : CircuitShape) : Constraints :=
  let elements := (List.range shape.publicInput).map (fun i => Wire.varying (.input (i + 1))) ++
    List.replicate shape.witness (.varying .zero)
  let (outcome, powers) := (Wiring.sponge spongeParameters elements).run []
  ⟨powers.reverse, outcome.combination.add ((Combination.input 0).scale (-1))⟩

def count (c : Constraints) : Nat := 3 * c.powers.length + 1

end Constraints

end VeiledLedger.Argument
