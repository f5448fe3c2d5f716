/-
  VeiledLedger.Argument.Proof — proofs in bytes.

  In front stands the number of witness elements in four bytes; it is compared with the shape
  of the backend and chooses nothing. Then follow the three points of a proof and the
  commitment, and nothing after that.
-/

import VeiledLedger.Argument.Curve

namespace VeiledLedger.Argument

/-- Why an argument cannot be made or read. -/
inductive ArgumentError where
  | serialization (reason : String)
  | arithmetic (reason : String)
  | oversizedShape
  deriving DecidableEq, Repr

namespace ArgumentError

def oversizedText : String := "padding shape too large for a circuit"

def message : ArgumentError → String
  | serialization reason => "serialization error: " ++ reason
  | arithmetic reason => "arkworks error: " ++ reason
  | oversizedShape => oversizedText

end ArgumentError

structure Proof where
  a : Point Base
  b : Point Twist
  c : Point Base

/-- What stands in the bytes of a proof. -/
structure ProofFile where
  witnessSize : Nat
  proof : Proof
  commitment : Scalar

namespace ProofFile

def readBody : PointReader (Proof × Scalar) := do
  let a ← readFirst
  let b ← readSecond
  let c ← readFirst
  return (⟨a, b, c⟩, ← readScalar)

def ofBytes (bytes : Bytes) : Except ArgumentError ProofFile :=
  if bytes.length < 4 then .error (.serialization "proof too short")
  else match readBody (bytes.drop 4) with
    | .error e => .error (.serialization e.message)
    | .ok ((proof, commitment), rest) =>
      if rest = [] then .ok ⟨Bytes.toNat (bytes.take 4), proof, commitment⟩
      else .error (.serialization (toString rest.length ++ " trailing bytes after proof"))

def toBytes (f : ProofFile) : Bytes :=
  Bytes.ofNat 4 f.witnessSize ++ writeFirst f.proof.a ++ writeSecond f.proof.b ++ writeFirst f.proof.c ++
    writeScalar f.commitment

end ProofFile

end VeiledLedger.Argument
