/-
  VeiledLedger.Service — proving transactions and publishing them.

  A transaction is built, its witness is assembled, and the backend proves it; what is handed
  to the network shows no more than verifiers need. The steps around the backend are pure, so
  a caller may put any backend between them.
-/

import VeiledLedger.Backchain.Failure
import VeiledLedger.Witness.Format

namespace VeiledLedger

inductive ServiceError where
  | build (cause : BuildError)
  | witness (cause : WitnessError)
  | backend (cause : BackendError)
  | backchain (cause : BackchainError)
  /-- The work broke off without an answer. -/
  | join (reason : String)
  deriving DecidableEq

namespace ServiceError

def message : ServiceError → String
  | build cause => cause.message
  | witness cause => cause.message
  | backend cause => cause.message
  | backchain cause => cause.message
  | join reason => "blocking task failed: " ++ reason

def breaksDown : ServiceError → Bool
  | build cause => cause.breaksDown
  | witness cause => cause.breaksDown
  | _ => false

def retryable : ServiceError → Bool
  | backend cause => cause.retryable
  | backchain cause => cause.retryable
  | _ => false

/-- A walk that had to stop is told as the failure of the backend that stopped it. -/
def ofBackchain : BackchainError → ServiceError
  | .interrupted e => .backend e
  | e => .backchain e

end ServiceError

/-- A proved transaction: the prover keeps the tree, the network gets the rest. -/
structure Proved where
  tree : Tree
  published : Published

namespace Rules

variable [Hasher]

/-- The tree of a transaction and the bytes that the backend proves. -/
def prepareProof (rules : Rules) (tx : Transaction) (lookup : UtxoLookup) : Except ServiceError (Tree × Bytes) := do
  let tree ← (Tree.build tx rules.registry rules.padding).mapError .build
  let witness ← (Witness.ofTree tree tx lookup rules.padding).mapError .witness
  let bytes ← witness.toBytes.mapError .witness
  return (tree, bytes)

/-- A tree and its proof as they are published. -/
def publish (rules : Rules) (tree : Tree) (proof : Bytes) : Proved :=
  ⟨tree, ⟨tree.id, proof, rules.padding, View.ofTree tree Disclosure.forVerifier⟩⟩

/-- Proves a transaction with a backend that answers at once. -/
def prove (rules : Rules) (backend : Bytes → Except BackendError Bytes) (tx : Transaction) (lookup : UtxoLookup) :
    Except ServiceError Proved := do
  let (tree, witness) ← rules.prepareProof tx lookup
  let proof ← (backend witness).mapError .backend
  return rules.publish tree proof

end Rules

end VeiledLedger
