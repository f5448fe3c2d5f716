/-
  VeiledLedger.Rehearsal.Bench — a ledger whose backend follows a script.

  Whatever can go wrong around a verifier can be arranged here: a backend call that fails or
  breaks off, a source or a store out of reach, a record that another writer has stored first.
  A proof is the digest of its public input, so it costs nothing and convinces nobody.

  Requests run in `Act`: a call that breaks off leaves no answer, but all that it has done to
  the bench stays done.
-/

import VeiledLedger.Backchain.Run
import VeiledLedger.Service

namespace VeiledLedger.Rehearsal

open Backchain

/-- What one call of the backend does. -/
inductive Turn where
  | pass
  /-- Breaks off without an answer. -/
  | crash
  | fail (error : BackendError)

/-- Who checks the transactions of a backchain. -/
inductive Judge where
  | backend
  /-- Finds nothing wrong. -/
  | lenient

/-- How often each kind of call was made. -/
structure Calls where
  proofs : Nat
  verifications : Nat
  approvals : Nat

structure Bench where
  rules : Rules
  judge : Judge
  calls : Calls
  /-- What the next calls of the backend do; those after them pass. -/
  script : List Turn
  clock : Nat
  /-- The token of the running request. -/
  token : Token
  /-- The call, counted from now, during which the running request is cancelled. -/
  cancelAfter : Option Nat
  sourceDown : Bool
  storeDown : Bool
  /-- The store fails to keep their records. -/
  refused : List TransactionId
  /-- Another writer stores a different record for them first. -/
  contested : List TransactionId
  source : Assoc TransactionId Published
  /-- Taken out of the source. -/
  withdrawn : Assoc TransactionId Published
  utxos : Assoc StatePointer Utxo
  store : RecordStore
  verifier : Verifier

abbrev Act := OptionT (StateM Bench)

namespace Bench

def start (rules : Rules) (judge : Judge) : Bench where
  rules
  judge
  calls := ⟨0, 0, 0⟩
  script := []
  clock := 0
  token := .never
  cancelAfter := none
  sourceDown := false
  storeDown := false
  refused := []
  contested := []
  source := []
  withdrawn := []
  utxos := []
  store := .empty
  verifier := .fresh

/-! ## The source -/

def transactions (b : Bench) : TransactionSource := fun id =>
  if b.sourceDown then .error (.backend "source down") else .ok (b.source.get? id)

def supply (b : Bench) (tx : Published) : Bench := { b with source := b.source.set tx.id tx }

/-- A proved transaction enters the source, and its outputs can be spent. -/
def supplyProved (b : Bench) (p : Proved) : Bench :=
  { b.supply p.published with utxos := p.tree.outputUtxos ++ b.utxos }

/-- Whether there was something to take out. -/
def withdraw (b : Bench) (id : TransactionId) : Bool × Bench :=
  match b.source.get? id with
  | some tx => (true, { b with source := b.source.erase id, withdrawn := b.withdrawn.set id tx })
  | none => (false, b)

/-- Whether there was something to put back. -/
def restore (b : Bench) (id : TransactionId) : Bool × Bench :=
  match b.withdrawn.get? id with
  | some tx => (true, { b with source := b.source.set id tx, withdrawn := b.withdrawn.erase id })
  | none => (false, b)

/-! ## The store -/

def find (b : Bench) (id : TransactionId) : Except StoreError (Option Record) :=
  if b.storeDown then .error (.backend "store down") else .ok (b.store.get? id)

/-- What another writer has stored just before a record arrives: for a contested id a record
    which says that the proof was bad. Nothing holds that writer up. -/
def contest (b : Bench) (r : Record) : Except StoreError RecordStore :=
  if r.id ∈ b.contested then b.store.put { r with proofValid := false } else .ok b.store

def keep (b : Bench) (r : Record) : Except StoreError Unit × Bench :=
  match b.contest r with
  | .error e => (.error e, b)
  | .ok store =>
    let b := { b with store }
    if b.storeDown ∨ r.id ∈ b.refused then (.error (.backend "store down"), b)
    else
      match store.put r with
      | .error e => (.error e, b)
      | .ok store => (.ok (), { b with store })

def status (b : Bench) (id : TransactionId) : Except StoreError Status :=
  Id.run (b.verifier.status (fun id => pure (b.find id)) id)

/-! ## The backend -/

/-- One call less until the running request is cancelled. -/
def countDown (b : Bench) : Bench :=
  match b.cancelAfter with
  | some (n + 2) => { b with cancelAfter := some (n + 1) }
  | some 1 => { b with cancelAfter := none, token := b.token.cancel }
  | _ => b

end Bench

/-- A call that would give `answer`. -/
def call {α : Type} (answer : Except BackendError α) : Act (Except BackendError α) := do
  modify Bench.countDown
  let b ← get
  match b.script with
  | [] => return answer
  | turn :: rest => do
    set { b with script := rest }
    match turn with
    | .pass => return answer
    | .crash => failure
    | .fail e => return .error e

/-- Why the running request has to stop, if it has to. -/
def stopped : Act (Option BackendError) := do
  let b ← get
  return b.token.stopped? b.clock

/-- Looks at the token before and after a call, and drops an answer that comes too late. -/
def guarded {α : Type} (request : Act (Except BackendError α)) : Act (Except BackendError α) := do
  match ← stopped with
  | some e => return .error e
  | none =>
    match ← request with
    | .error e => return .error e
    | .ok x =>
      match ← stopped with
      | some e => return .error e
      | none => return .ok x

variable [Hasher]

def standInProof (publicInput : Bytes) : Bytes := (digest publicInput).toBytes

/-- The proof that stands in for a real one. -/
def proofOf (witness : Bytes) : Except BackendError Bytes :=
  match Witness.ofBytes witness with
  | .ok w => .ok (standInProof w.publicInput.toBytes)
  | .error e => .error (.invalidInput e.message)

def callProve (witness : Bytes) : Act (Except BackendError Bytes) := do
  modify fun b => { b with calls := { b.calls with proofs := b.calls.proofs + 1 } }
  call (proofOf witness)

def callVerify (proof publicInput : Bytes) : Act (Except BackendError Bool) := do
  modify fun b => { b with calls := { b.calls with verifications := b.calls.verifications + 1 } }
  call (.ok (proof = standInProof publicInput))

end VeiledLedger.Rehearsal
