/-
  VeiledLedger.Argument.Circuit — what a proof is about.

  Witness and public input are packed into field elements, 31 bytes each, so that every piece
  stays below the modulus. The statement is a commitment: the sponge over the public elements
  and then the witness elements. How large a circuit is depends on the padding alone.
-/

import VeiledLedger.Argument.Sponge
import VeiledLedger.Witness.Format

namespace VeiledLedger.Argument

/-- The number of bytes in a field element. -/
def packSize : Nat := 31

/-- The pieces of a byte string, each read with its least significant byte first. -/
def pack (b : Bytes) : List Scalar := (Bytes.chunks packSize b).map (fun c => Scalar.ofNat (Bytes.toNatLittle c))

/-- How many field elements `n` bytes take. -/
def packedSize (n : Nat) : Nat := (n + (packSize - 1)) / packSize

/-- The commitment to public and private elements. -/
def commitment (publicInput witness : List Scalar) : Scalar := spongeHash spongeParameters (publicInput ++ witness)

/-- The numbers of elements of a circuit. -/
structure CircuitShape where
  witness : Nat
  publicInput : Nat
  deriving DecidableEq, Repr

namespace CircuitShape

def render (s : CircuitShape) : String :=
  "CircuitShape \x7b witness_len: " ++ toString s.witness ++ ", public_len: " ++ toString s.publicInput ++ " \x7d"

/-- The shape of every circuit under a padding, if its lengths fit 64-bit words. -/
def ofPadding? (p : Padding) : Option CircuitShape := do
  let witness ← Witness.byteSize? p
  let publicInput ← PublicInput.byteSize? p
  return ⟨packedSize witness, packedSize publicInput⟩

end CircuitShape

/-- An assignment to all variables of a circuit. -/
structure Circuit where
  witness : List Scalar
  publicInput : List Scalar
  commitment : Scalar

namespace Circuit

/-- The assignment that an honest prover makes. -/
def honest (witness publicInput : List Scalar) : Circuit := ⟨witness, publicInput, Argument.commitment publicInput witness⟩

/-- All elements are zero. -/
def blank (s : CircuitShape) : Circuit := honest (List.replicate s.witness 0) (List.replicate s.publicInput 0)

def shape (c : Circuit) : CircuitShape := ⟨c.witness.length, c.publicInput.length⟩

/-- What a verifier knows, in order: the commitment and the public elements. -/
def inputs (commitment : Scalar) (publicInput : List Scalar) : List Scalar := commitment :: publicInput

/-- The number of variables a verifier knows, the constant one included. -/
def instanceSize (c : Circuit) : Nat := 1 + (inputs c.commitment c.publicInput).length

/-- The commitment is that of the elements. -/
def isSatisfied (c : Circuit) : Bool := c.commitment = Argument.commitment c.publicInput c.witness

/-- What somebody may change in a circuit. -/
inductive Change where
  | commitment
  /-- The first witness element. -/
  | witness
  /-- The first public element. -/
  | publicInput
  /-- Nothing but the shape is left. -/
  | blank

def Change.ofName? : String → Option Change
  | "commitment" => some commitment
  | "witness" => some witness
  | "public" => some publicInput
  | "blank" => some blank
  | _ => none

/-- Adds one to what is changed. -/
def tamper (c : Circuit) : Change → Circuit
  | .commitment => { c with commitment := c.commitment + 1 }
  | .witness => { c with witness := c.witness.modifyHead (· + 1) }
  | .publicInput => { c with publicInput := c.publicInput.modifyHead (· + 1) }
  | .blank => blank c.shape

end Circuit

end VeiledLedger.Argument
