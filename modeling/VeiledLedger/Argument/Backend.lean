/-
  VeiledLedger.Argument.Backend — the backend of one padding and one setup.

  A backend serves one padding, so it has one circuit shape, and its keys come from a setup
  seed: whoever has the same seed and padding can verify.
-/

import VeiledLedger.Argument.Setup
import VeiledLedger.Backend

namespace VeiledLedger.Argument

/-- The error of the backend that an error of the argument becomes. -/
def ArgumentError.toBackendError : ArgumentError → BackendError
  | .serialization reason => .invalidInput reason
  | .arithmetic reason => .failure reason
  | .oversizedShape => .invalidInput ArgumentError.oversizedText

def CircuitShape.ofPadding (p : Padding) : Except ArgumentError CircuitShape :=
  match CircuitShape.ofPadding? p with
  | some shape => .ok shape
  | none => .error .oversizedShape

structure Backend where
  seed : Digest
  shape : CircuitShape

namespace Backend

/-- The number of witness elements has to fit the four bytes in front of a proof. -/
def ofPadding (seed : Digest) (p : Padding) : Except ArgumentError Backend :=
  match CircuitShape.ofPadding p with
  | .error e => .error e
  | .ok shape => if shape.witness < 2 ^ 32 then .ok ⟨seed, shape⟩ else .error .oversizedShape

variable [Hasher]

/-- The keys of a setup are drawn from the seed and the shape, hashed. -/
def keys (b : Backend) : Keys :=
  Keys.ofSeed (digest (b.seed.toBytes ++ Bytes.ofNat 8 b.shape.witness ++ Bytes.ofNat 8 b.shape.publicInput)) b.shape

/-- Numbers that blind a proof. Other randomness gives another proof of the same witness. -/
def blinding (randomness witness : Bytes) (i : UInt8) : Scalar :=
  Scalar.ofNat (Bytes.toNat (digest (i :: randomness ++ witness)).toBytes)

/-- Fails if the request has to stop. -/
def ensure (stop : Option BackendError) : Except BackendError Unit :=
  match stop with
  | some e => .error e
  | none => .ok ()

/-- Proves a witness, unless the request has to stop. -/
def proveUntil (b : Backend) (randomness : Bytes) (stop : Option BackendError) (witnessBytes : Bytes) :
    Except BackendError Bytes :=
  match Witness.ofBytes witnessBytes with
  | .error e => .error (.invalidInput e.message)
  | .ok witness =>
    let circuit := Circuit.honest (pack witnessBytes) (pack witness.publicInput.toBytes)
    if circuit.shape ≠ b.shape then
      .error (.invalidInput
        ("witness has shape " ++ circuit.shape.render ++ ", backend serves " ++ b.shape.render))
    else do
      ensure stop
      let inputs := Circuit.inputs circuit.commitment circuit.publicInput
      let proof := b.keys.prove inputs (blinding randomness witnessBytes 0) (blinding randomness witnessBytes 1)
      return ProofFile.toBytes ⟨b.shape.witness, proof, circuit.commitment⟩

/-- Whether a proof belongs to a public input, unless the request has to stop. -/
def verifyUntil (b : Backend) (stop : Option BackendError) (proof publicInput : Bytes) : Except BackendError Bool :=
  let elements := pack publicInput
  if elements.length ≠ b.shape.publicInput then
    .error (.invalidInput ("public input has " ++ toString elements.length ++ " elements, backend serves " ++
      toString b.shape.publicInput))
  else do
    let file ← (ProofFile.ofBytes proof).mapError ArgumentError.toBackendError
    if file.witnessSize ≠ b.shape.witness then return false
    else do
      ensure stop
      return b.keys.accepts (Circuit.inputs file.commitment elements) file.proof

def prove (b : Backend) (randomness witness : Bytes) : Except BackendError Bytes := b.proveUntil randomness none witness

def verify (b : Backend) (proof publicInput : Bytes) : Except BackendError Bool := b.verifyUntil none proof publicInput

end Backend

end VeiledLedger.Argument
