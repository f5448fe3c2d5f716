/-
  VeiledLedger.Classification — the four kinds of errors.

  Errors of configuration are never retried; an error of encoding ends the transaction that is
  being built; a structural error rejects a transaction as a whole; and an error of the
  backend may go away when the identical call is made again, if it says so.
-/

import VeiledLedger.Config
import VeiledLedger.Service

namespace VeiledLedger

inductive ErrorClass where
  | configuration
  | encoding
  | structural
  | backend
  deriving DecidableEq, Repr

def ErrorClass.name : ErrorClass → String
  | configuration => "configuration"
  | encoding => "encoding"
  | structural => "structural"
  | backend => "backend"

def LayoutError.errorClass (_ : LayoutError) : ErrorClass := .encoding

def RegistryError.errorClass : RegistryError → ErrorClass
  | layout cause => cause.errorClass
  | truncated _ _ | lengthOverflow _ => .encoding
  | _ => .configuration

def Envelope.Fault.errorClass : Envelope.Fault → ErrorClass
  | otherScheme _ _ => .configuration
  | truncated _ => .encoding

def ConfigError.errorClass (_ : ConfigError) : ErrorClass := .configuration

def BuildError.errorClass : BuildError → ErrorClass
  | tooManyComponents _ _ _ => .encoding
  | registry cause => cause.errorClass
  | layout cause => cause.errorClass

def ViewError.errorClass : ViewError → ErrorClass
  | registry cause => cause.errorClass
  | _ => .structural

def WitnessError.errorClass : WitnessError → ErrorClass
  | unresolved _ _ _ | utxoWidth _ _ _ | malformed _ => .structural
  | build cause => cause.errorClass
  | envelope cause => cause.errorClass
  | layout cause => cause.errorClass

def BackendError.errorClass (_ : BackendError) : ErrorClass := .backend

def StoreError.errorClass : StoreError → ErrorClass
  | conflict _ => .structural
  | backend _ => .backend

def CheckError.errorClass : CheckError → ErrorClass
  | backend cause => cause.errorClass
  | source cause => cause.errorClass
  | disclosure cause => cause.errorClass
  | _ => .structural

def BackchainError.errorClass : BackchainError → ErrorClass
  | cyclic _ _ => .structural
  | rejected _ _ reason => reason.errorClass
  | store cause => cause.errorClass
  | interrupted cause => cause.errorClass

def ServiceError.errorClass : ServiceError → ErrorClass
  | build cause => cause.errorClass
  | witness cause => cause.errorClass
  | backend cause => cause.errorClass
  | backchain cause => cause.errorClass
  | join _ => .backend

end VeiledLedger
