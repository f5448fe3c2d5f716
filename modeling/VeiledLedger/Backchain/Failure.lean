/-
  VeiledLedger.Backchain.Failure — why a backchain does not verify.

  Inside a walk a failure is seen from one transaction: it holds the pointers that lead from
  that transaction to the culprit. Outside it is told as a chain from the transaction that was
  asked for.
-/

import VeiledLedger.Ledger.Check

namespace VeiledLedger

/-- A path of pointers that starts at a transaction. -/
structure PointerChain where
  root : TransactionId
  links : List StatePointer
  deriving DecidableEq

namespace PointerChain

/-- The transaction at the end of the chain. -/
def tail (c : PointerChain) : TransactionId := (c.links.getLast?.map (·.txId)).getD c.root

def text (c : PointerChain) : String :=
  c.root.hex ++ String.join (c.links.map fun p => " -> " ++ p.text)

end PointerChain

inductive BackchainError where
  | cyclic (culprit : TransactionId) (chain : PointerChain)
  | rejected (culprit : TransactionId) (chain : PointerChain) (reason : CheckError)
  | store (cause : StoreError)
  /-- The request had to stop; nothing was decided. -/
  | interrupted (cause : BackendError)
  deriving DecidableEq

namespace BackchainError

def culprit? : BackchainError → Option TransactionId
  | cyclic culprit _ | rejected culprit _ _ => some culprit
  | store _ | interrupted _ => none

def chain? : BackchainError → Option PointerChain
  | cyclic _ chain | rejected _ chain _ => some chain
  | store _ | interrupted _ => none

def message : BackchainError → String
  | cyclic culprit chain => "cyclic backchain at " ++ culprit.hex ++ ": " ++ chain.text
  | rejected culprit chain reason =>
    "transaction " ++ culprit.hex ++ " rejected: " ++ reason.message ++ " (chain: " ++ chain.text ++ ")"
  | store cause => cause.message
  | interrupted cause => "backchain verification interrupted: " ++ cause.message

def retryable : BackchainError → Bool
  | cyclic _ _ => false
  | rejected _ _ reason => reason.retryable
  | store cause => cause.retryable
  | interrupted _ => true

end BackchainError

namespace Backchain

inductive Cause where
  | cycle
  | check (reason : CheckError)
  | store (error : StoreError)
  | interrupted (error : BackendError)
  deriving DecidableEq

namespace Cause

/-- A final cause is remembered: no retry can do away with it. -/
def isFinal : Cause → Bool
  | cycle => true
  | check reason => !reason.retryable
  | store _ | interrupted _ => false

end Cause

/-- A failure as it is seen from one transaction. -/
structure Failure where
  cause : Cause
  culprit : TransactionId
  /-- From the transaction to the culprit. -/
  path : List StatePointer
  deriving DecidableEq

namespace Failure

/-- The culprit seen from itself. -/
def ofCause (culprit : TransactionId) (cause : Cause) : Failure := ⟨cause, culprit, []⟩

/-- The same failure seen from one step further up, where `via` leads down. -/
def through (via : Option StatePointer) (f : Failure) : Failure := { f with path := via.toList ++ f.path }

/-- The failure as a request for `root` tells it, from where `root` sees it. -/
def toError (root : TransactionId) (f : Failure) : BackchainError :=
  match f.cause with
  | .cycle => .cyclic f.culprit ⟨root, f.path⟩
  | .check reason => .rejected f.culprit ⟨root, f.path⟩ reason
  | .store e => .store e
  | .interrupted e => .interrupted e

end Failure

end Backchain

end VeiledLedger
