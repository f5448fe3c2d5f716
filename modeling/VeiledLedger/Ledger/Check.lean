/-
  VeiledLedger.Ledger.Check — the check of one transaction on its own.

  The padding, the shape of the view and the id are compared first. Then the public input of
  the proof is rebuilt: the id, and for every pointer the hash of the output it names, which
  comes from the view of the ancestor. What is left is a question for the backend.
-/

import VeiledLedger.Backend
import VeiledLedger.Ledger.Record
import VeiledLedger.View.Disclosure
import VeiledLedger.Witness

namespace VeiledLedger

/-- Where the transactions of a backchain come from: a transaction may be unknown, or the
    source may be unreadable. -/
abbrev TransactionSource := TransactionId → Except StoreError (Option Published)

/-- Why a transaction fails its own check. -/
inductive CheckError where
  | disclosure (cause : ViewError)
  | invalidProof
  | missingTransaction (id : TransactionId)
  | missingOutput (pointer : StatePointer)
  | foreignPadding
  | source (cause : StoreError)
  | backend (cause : BackendError)
  deriving DecidableEq

namespace CheckError

def message : CheckError → String
  | disclosure cause => cause.message
  | invalidProof => "proof does not verify"
  | missingTransaction id => "transaction " ++ id.hex ++ " is unknown"
  | missingOutput p => p.text ++ " names an output its transaction does not have"
  | foreignPadding => "transaction is padded for a different circuit shape"
  | source cause => "cannot read transactions: " ++ cause.message
  | backend cause => cause.message

def breaksDown : CheckError → Bool
  | disclosure cause => cause.breaksDown
  | _ => false

/-- The identical check may succeed later: data may arrive, and a backend may come back. -/
def retryable : CheckError → Bool
  | missingTransaction _ | source _ => true
  | backend cause => cause.retryable
  | _ => false

end CheckError

namespace TransactionSource

/-- The transaction of an id that has to be known. -/
def fetch (source : TransactionSource) (id : TransactionId) : Except CheckError Published :=
  match source id with
  | .error e => .error (.source e)
  | .ok none => .error (.missingTransaction id)
  | .ok (some tx) => .ok tx

end TransactionSource

/-- What all members of a ledger agree on. -/
structure Rules where
  registry : Registry
  padding : Padding

namespace Rules

variable [Hasher]

/-- The hashes of the outputs that the pointers name. -/
def outputHashes (source : TransactionSource) : List StatePointer → Except CheckError (List Digest)
  | [] => .ok []
  | p :: ps => do
    let ancestor ← source.fetch p.txId
    match ancestor.view.outputHash? p.index with
    | none => .error (.missingOutput p)
    | some hash => return hash :: (← outputHashes source ps)

/-- The hashes for the pointers of one group: exactly `capacity` of them. -/
def slotHashes (source : TransactionSource) (capacity utxoSize : Nat) (pointers : List StatePointer) :
    Except CheckError (List Digest) := do
  let hashes ← outputHashes source pointers
  return hashes.take capacity ++
    Bytes.copies (capacity - hashes.length) fun _ => PublicInput.paddingHash utxoSize

/-- The public input of a transaction as its verifier rebuilds it. -/
def publicInput (rules : Rules) (source : TransactionSource) (tx : Published) : Except CheckError PublicInput :=
  if tx.padding ≠ rules.padding then .error .foreignPadding
  else do
    -- A verifier hashes an empty slot before it looks at any pointer, also where no slot is left
    -- empty, and breaks down if the slot is 2 ^ 63 bytes wide or wider: no memory holds it. Here
    -- the hash has no such limit, so for these widths there is an answer that is never given.
    let spent ← (tx.view.pointersOf .inputs rules.registry).mapError .disclosure
    let inputs ← slotHashes source tx.padding.inputs tx.padding.utxoSize spent
    let named ← (tx.view.pointersOf .references rules.registry).mapError .disclosure
    let references ← slotHashes source tx.padding.references tx.padding.utxoSize named
    return ⟨tx.id, inputs, references⟩

/-- Everything that is checked before the backend is asked: the public input that the proof
    has to belong to. -/
def prepare (rules : Rules) (source : TransactionSource) (tx : Published) : Except CheckError PublicInput :=
  if tx.padding ≠ rules.padding then .error .foreignPadding
  else do
    (tx.view.checkShape tx.padding).mapError .disclosure
    (tx.view.verify tx.id).mapError .disclosure
    rules.publicInput source tx

/-- The record of a transaction, given what the backend said of its proof. -/
def conclude (tx : Published) : Except BackendError Bool → Except CheckError Record
  | .error e => .error (.backend e)
  | .ok false => .error .invalidProof
  | .ok true => .ok ⟨tx.id, tx.id, tx.view.groupRoots, true⟩

/-- The check against a backend that answers at once: `verify` tells of a proof and a public
    input whether they belong together. -/
def check (rules : Rules) (verify : Bytes → Bytes → Except BackendError Bool) (source : TransactionSource)
    (tx : Published) : Except CheckError Record := do
  let publicInput ← rules.prepare source tx
  conclude tx (verify tx.proof publicInput.toBytes)

end Rules

end VeiledLedger
