/-
  VeiledLedger.Diagnosis — error codes.

  A code is the path from an error to its innermost cause, written with dots. Programs tell
  errors apart by their code, their class and whether a retry makes sense; the message is for
  people.
-/

import VeiledLedger.Argument.Proof
import VeiledLedger.Node.Failure

namespace VeiledLedger

def Misfit.code : Misfit → String
  | overCapacity _ _ => "CapacityExceeded"
  | overLength _ _ => "LengthExceeded"
  | otherType _ => "TypeMismatch"
  | foreignCharacter _ => "Unrepresentable"
  | otherSize _ _ => "UnexpectedLength"
  | badFlag _ _ => "InvalidFlag"
  | badCount _ _ => "CorruptLength"
  | badUtf8 => "InvalidUtf8"

def LayoutError.code : LayoutError → String
  | misfit _ cause => "Codec." ++ cause.code
  | oversized _ => "Codec.Oversized"
  | noRoom => "Codec.CapacityOverflow"

def RegistryError.code (e : RegistryError) : String :=
  "Registry." ++ match e with
    | duplicateType _ _ => "DuplicateType"
    | duplicateId _ _ _ => "DuplicateId"
    | reservedId _ => "ReservedId"
    | duplicateMember _ _ => "DuplicateMember"
    | duplicateFamily _ => "DuplicateFamily"
    | idOverflow _ _ => "IdOverflow"
    | unknownType _ => "UnknownType"
    | unknownId _ => "UnknownId"
    | missingChainStart _ => "MissingChainStart"
    | unreachableVersion _ _ _ => "UnreachableVersion"
    | cyclicUpgrade _ _ => "CyclicUpgrade"
    | unknownPredecessor _ _ _ => "UnknownPredecessor"
    | branchingUpgrade _ _ => "BranchingUpgrade"
    | noUpgradePath _ _ => "NoUpgradePath"
    | truncated _ _ => "Truncated"
    | lengthOverflow _ => "LengthOverflow"
    | layout cause => cause.code

def Envelope.Fault.code : Envelope.Fault → String
  | truncated _ => "Envelope.Truncated"
  | otherScheme _ _ => "Envelope.SchemeMismatch"

def ConfigError.code : ConfigError → String
  | unreadable => "Config.Io"
  | badJson => "Config.Json"
  | invalid _ => "Config.Invalid"

def BuildError.code (e : BuildError) : String :=
  "Build." ++ match e with
    | tooManyComponents _ _ _ => "TooManyComponents"
    | registry cause => cause.code
    | layout cause => cause.code

def ViewError.code (e : ViewError) : String :=
  "Partial." ++ match e with
    | rootMismatch _ _ => "RootMismatch"
    | groupCount _ _ => "GroupCount"
    | groupOrder _ _ _ => "GroupOrder"
    | slotCount _ _ _ => "SlotCount"
    | slotWidth _ _ _ _ => "SlotWidth"
    | undisclosed _ _ => "Undisclosed"
    | registry cause => cause.code

def WitnessError.code (e : WitnessError) : String :=
  "Witness." ++ match e with
    | unresolved _ _ _ => "UnresolvedAncestor"
    | utxoWidth _ _ _ => "UtxoWidth"
    | malformed _ => "Malformed"
    | build cause => cause.code
    | envelope cause => cause.code
    | layout cause => cause.code

def BackendError.code (e : BackendError) : String :=
  "Backend." ++ match e with
    | timeout _ => "Timeout"
    | cancelled => "Cancelled"
    | unavailable _ => "Unavailable"
    | invalidInput _ => "InvalidInput"
    | failure _ => "Failure"

def StoreError.code : StoreError → String
  | conflict _ => "Store.Conflict"
  | backend _ => "Store.Backend"

def CheckError.code (e : CheckError) : String :=
  "Local." ++ match e with
    | disclosure cause => cause.code
    | invalidProof => "InvalidProof"
    | missingTransaction _ => "MissingTransaction"
    | missingOutput _ => "MissingOutput"
    | foreignPadding => "ForeignPadding"
    | source cause => "Source." ++ cause.code
    | backend cause => cause.code

def BackchainError.code (e : BackchainError) : String :=
  "Backchain." ++ match e with
    | cyclic _ _ => "CyclicBackchain"
    | rejected _ _ reason => "Rejected." ++ reason.code
    | store cause => cause.code
    | interrupted cause => "Interrupted." ++ cause.code

def ServiceError.code (e : ServiceError) : String :=
  "Service." ++ match e with
    | build cause => cause.code
    | witness cause => cause.code
    | backend cause => cause.code
    | backchain cause => cause.code
    | join _ => "Join"

def Argument.ArgumentError.code (e : Argument.ArgumentError) : String :=
  "Zk." ++ match e with
    | serialization _ => "Serialization"
    | arithmetic _ => "Ark"
    | oversizedShape => "ShapeOverflow"

def ApiError.code (e : ApiError) : String :=
  "Api." ++ match e with
    | badRequest _ => "BadRequest"
    | notFound _ => "NotFound"
    | conflict _ => "Conflict"
    | unprocessable _ => "Unprocessable"
    | timeout _ => "Timeout"
    | unavailable _ => "Unavailable"
    | internal => "Internal"

/-- An error with a class. -/
class Diagnosable (ε : Type) where
  code : ε → String
  message : ε → String
  errorClass : ε → ErrorClass
  retryable : ε → Bool := fun _ => false
  /-- The backchain failure that the error tells of, if it tells of one. -/
  backchain? : ε → Option BackchainError := fun _ => none

instance : Diagnosable LayoutError where
  code := LayoutError.code
  message := LayoutError.message
  errorClass := LayoutError.errorClass

instance : Diagnosable RegistryError where
  code := RegistryError.code
  message := RegistryError.message
  errorClass := RegistryError.errorClass

instance : Diagnosable Envelope.Fault where
  code := Envelope.Fault.code
  message := Envelope.Fault.message
  errorClass := Envelope.Fault.errorClass

instance : Diagnosable ConfigError where
  code := ConfigError.code
  message := ConfigError.message
  errorClass := ConfigError.errorClass

instance : Diagnosable BuildError where
  code := BuildError.code
  message := BuildError.message
  errorClass := BuildError.errorClass

instance : Diagnosable ViewError where
  code := ViewError.code
  message := ViewError.message
  errorClass := ViewError.errorClass

instance : Diagnosable WitnessError where
  code := WitnessError.code
  message := WitnessError.message
  errorClass := WitnessError.errorClass

instance : Diagnosable BackendError where
  code := BackendError.code
  message := BackendError.message
  errorClass := BackendError.errorClass
  retryable := BackendError.retryable

instance : Diagnosable StoreError where
  code := StoreError.code
  message := StoreError.message
  errorClass := StoreError.errorClass
  retryable := StoreError.retryable

instance : Diagnosable CheckError where
  code := CheckError.code
  message := CheckError.message
  errorClass := CheckError.errorClass
  retryable := CheckError.retryable

instance : Diagnosable BackchainError where
  code := BackchainError.code
  message := BackchainError.message
  errorClass := BackchainError.errorClass
  retryable := BackchainError.retryable
  backchain? := some

instance : Diagnosable ServiceError where
  code := ServiceError.code
  message := ServiceError.message
  errorClass := ServiceError.errorClass
  retryable := ServiceError.retryable
  backchain?
    | .backchain e => some e
    | _ => none

end VeiledLedger
