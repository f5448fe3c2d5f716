/-
  VeiledLedger.Argument.Sponge — the Poseidon sponge over the scalar field.

  The state has three elements, two of which take input. A permutation has eight full rounds,
  four before and four after 57 partial ones; a round adds constants, raises elements to the
  fifth power (in a partial round the first one only) and multiplies by a matrix. Constants
  and matrix come out of a shift register of 80 bits that is filled with a description of
  the permutation.
-/

import VeiledLedger.Argument.Field
import VeiledLedger.Bytes

namespace VeiledLedger.Argument

structure SpongeParameters where
  rate : Nat
  capacity : Nat
  fullRounds : Nat
  partialRounds : Nat
  power : Nat
  /-- For each round what it adds to each element. -/
  constants : List (List Scalar)
  matrix : List (List Scalar)

/-! ## The shift register -/

namespace Register

/-- Bit `i` of a register held as a number is bit `i` of the number. -/
abbrev Bits := Nat

def bit (s : Bits) (i : Nat) : Nat := (s >>> i) % 2

/-- The bit that is shifted in. -/
def feedback (s : Bits) : Nat := (bit s 62 + bit s 51 + bit s 38 + bit s 23 + bit s 13 + bit s 0) % 2

def shift (s : Bits) : Bits := (s >>> 1) + (feedback s) * 2 ^ 79

/-- The last `width` binary digits of `n`, most significant first. -/
def digits (width n : Nat) : List Nat := (List.range width).map (fun i => n / 2 ^ (width - 1 - i) % 2)

/-- The register before anything is shifted: a prime field, a power as the substitution, the
    numbers of bits, elements, full and partial rounds, and ones. -/
def start (bits elements full partly : Nat) : Bits :=
  let all := [0, 1] ++ [0, 0, 0, 0] ++ digits 12 bits ++ digits 12 elements ++ digits 10 full ++ digits 10 partly ++
    List.replicate 30 1
  all.foldr (fun b s => b + 2 * s) 0

def advance : Nat → Bits → Bits
  | 0, s => s
  | n + 1, s => advance n (shift s)

/-- The next `n` bits that are shifted in; `out` holds those before, the last one first. -/
def stream : (n : Nat) → Bits → (out : List Nat) → List Nat
  | 0, _, out => out.reverse
  | n + 1, s, out => stream n (shift s) (feedback s :: out)

/-- Of each pair of bits only the second one is kept, and only if the first one is set. -/
def shrink (out : List Nat) : List Nat → List Nat
  | a :: b :: rest => shrink (if a = 1 then b :: out else out) rest
  | _ => out.reverse

/-- The numbers of `width` bits, most significant first, that a stream is cut into. -/
def numbers (width : Nat) (bits : List Nat) : List Nat :=
  (Bytes.chunks width bits).map (fun c => c.foldl (fun n b => 2 * n + b) 0)

/-- The next `n` numbers below the modulus, and what follows them. -/
def accept : (n : Nat) → List Nat → List Scalar × List Nat
  | 0, rest => ([], rest)
  | _, [] => ([], [])
  | n + 1, x :: rest =>
    if x < scalarModulus then
      let (xs, rest) := accept n rest
      (Scalar.ofNat x :: xs, rest)
    else accept (n + 1) rest

end Register

/-- The parameters of a permutation with `elements` elements. The register is let run long enough
    for all of them. -/
def SpongeParameters.derive (rate full partly : Nat) : SpongeParameters :=
  let elements := rate + 1
  let register := Register.advance 160 (Register.start 254 elements full partly)
  let numbers := Register.numbers 254 (Register.shrink [] (Register.stream 400000 register []))
  let (constants, rest) := Register.accept (elements * (full + partly)) numbers
  let xs := (rest.take elements).map Scalar.ofNat
  let ys := ((rest.drop elements).take elements).map Scalar.ofNat
  { rate
    capacity := 1
    fullRounds := full
    partialRounds := partly
    power := 5
    constants := Bytes.chunks elements constants
    matrix := xs.map (fun x => ys.map (fun y => Scalar.inverse (x + y))) }

def spongeParameters : SpongeParameters := SpongeParameters.derive 2 8 57

/-! ## The permutation -/

abbrev SpongeState := List Scalar

structure Round where
  /-- Whether every element is raised to the fifth power, or the first one only. -/
  isFull : Bool
  /-- What is added to each element before that. -/
  constants : List Scalar

/-- The rounds of a permutation: the partial ones stand between two halves of the full ones. -/
def SpongeParameters.rounds (p : SpongeParameters) : List Round :=
  let half := p.fullRounds / 2
  p.constants.zipIdx.map (fun (c, i) => ⟨i < half || half + p.partialRounds ≤ i, c⟩)

def fifth (x : Scalar) : Scalar :=
  let square := x * x
  square * square * x

def mix (matrix : List (List Scalar)) (s : SpongeState) : SpongeState :=
  matrix.map (fun row => (List.zipWith (· * ·) row s).foldl (· + ·) 0)

def Round.apply (matrix : List (List Scalar)) (s : SpongeState) (r : Round) : SpongeState :=
  let s := List.zipWith (· + ·) s r.constants
  mix matrix (if r.isFull then s.map fifth else s.modifyHead fifth)

def permute (p : SpongeParameters) (s : SpongeState) : SpongeState := p.rounds.foldl (Round.apply p.matrix) s

/-- Adds the elements to those of the state that take input, and permutes. -/
def absorbBlock (p : SpongeParameters) (s : SpongeState) (block : List Scalar) : SpongeState :=
  permute p (List.zipWith (· + ·) s (List.replicate p.capacity 0 ++ block ++ List.replicate p.rate 0))

/-- What is absorbed at a time, which is one element for each place that takes input. Without
    any element the state is permuted once. -/
def SpongeParameters.blocks {α : Type} (p : SpongeParameters) (elements : List α) : List (List α) :=
  match elements with
  | [] => [[]]
  | _ => Bytes.chunks p.rate elements

/-- Takes in all elements and gives out one. -/
def spongeHash (p : SpongeParameters) (elements : List Scalar) : Scalar :=
  ((p.blocks elements).foldl (absorbBlock p) (List.replicate (p.rate + p.capacity) 0)).getD p.capacity 0

end VeiledLedger.Argument
