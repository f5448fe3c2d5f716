/-
  VeiledLedger.Rehearsal.Requests — requests on a bench.

  A request on its own is followed to its end. Several requests take turns, one step each in a
  round; they are never cancelled. Time stands still while requests run, except that a request
  which can do nothing but wait sees its deadline come.
-/

import VeiledLedger.Rehearsal.Bench

namespace VeiledLedger.Rehearsal

open Backchain

variable [Hasher]

/-- An answer, unless whoever gives it has broken down. -/
def answered {ε α : Type} (breaksDown : ε → Bool) : Except ε α → Act (Except ε α)
  | .ok a => return .ok a
  | .error e => if breaksDown e then failure else return .error e

/-! ## Proving -/

def prove (tx : Transaction) : Act (Except ServiceError Proved) := do
  let b ← get
  match ← answered ServiceError.breaksDown (b.rules.prepareProof tx b.utxos.get?) with
  | .error e => return .error e
  | .ok (tree, witness) =>
    match ← guarded (callProve witness) with
    | .error e => return .error (.backend e)
    | .ok proof => do
      let proved := b.rules.publish tree proof
      modify (·.supplyProved proved)
      return .ok proved

/-! ## Checking -/

/-- The check with the scripted backend. -/
def check (tx : Published) : Act (Except CheckError Record) := do
  let b ← get
  match ← answered CheckError.breaksDown (b.rules.prepare b.transactions tx) with
  | .error e => return .error e
  | .ok publicInput => return Rules.conclude tx (← guarded (callVerify tx.proof publicInput.toBytes))

def approve (tx : Published) : Act Record := do
  modify fun b => { b with calls := { b.calls with approvals := b.calls.approvals + 1 } }
  return ⟨tx.id, tx.id, [], true⟩

def judge (tx : Published) : Act (Except CheckError Record) := do
  match (← get).judge with
  | .backend => check tx
  | .lenient => return .ok (← approve tx)

/-- The record of a transaction, and where the walk goes from there. -/
def examine (id : TransactionId) : Act (Except CheckError (Record × List StatePointer)) := do
  let b ← get
  match b.transactions.fetch id with
  | .error e => return .error e
  | .ok tx =>
    match ← judge tx with
    | .error e => return .error e
    | .ok record =>
      match ← answered CheckError.breaksDown ((tx.view.pointers b.rules.registry).mapError .disclosure) with
      | .error e => return .error e
      | .ok pointers => return .ok (record, pointers)

def surroundings : Surroundings Act where
  stopped := stopped
  find id := do return (← get).find id
  check := examine
  store r := do
    let (answer, b) := (← get).keep r
    set b
    return answer

/-! ## Walking -/

/-- One step of a walk. If it breaks off, the table stays as it was. -/
def advance (w : Walk) : Act Walk := do
  let b ← get
  let (table, w) ← w.step surroundings b.verifier.table
  modify fun b => { b with verifier := { b.verifier with table } }
  return w

/-- The clock jumps to the deadline of the running request, if it has one. -/
def Bench.awaitDeadline (b : Bench) : Bench :=
  match b.token.deadline with
  | some d => { b with clock := max b.clock d.moment }
  | none => b

def follow : (fuel : Nat) → Walk → Act (Except BackchainError Record)
  | 0, _ => failure
  | fuel + 1, w =>
    match w.phase with
    | .done r => return r
    | .blocked _ => do
      modify Bench.awaitDeadline
      follow fuel (← advance w)
    | _ => do follow fuel (← advance w)

/-- The walk of a new request. -/
def enroll (id : TransactionId) : Act Walk := do
  let b ← get
  let (verifier, w) := b.verifier.request id
  set { b with verifier }
  return w

def Bench.stepBound (b : Bench) : Nat := Backchain.stepBound (b.source.map (·.2))

def verify (id : TransactionId) : Act (Except BackchainError Record) := do
  let w ← enroll id
  follow (← get).stepBound w

/-! ## Several requests at once -/

def isAtCheck (w : Walk) : Bool :=
  match w.phase with
  | .check _ => true
  | _ => false

/-- Checks begin only once `gate` of them are waiting or done; `before` were done when the
    requests came in. -/
def gateOpen (gate before : Nat) (walks : List Walk) (b : Bench) : Bool :=
  gate ≤ b.calls.approvals - before + walks.countP isAtCheck

/-- Every walk that is neither done nor held by the gate does one step. -/
def round (isOpen : Bool) (walks : List Walk) : Act (List Walk) :=
  walks.mapM fun w => if w.result?.isSome ∨ (isAtCheck w ∧ !isOpen) then pure w else advance w

def takeTurns (gate before : Nat) : (fuel : Nat) → List Walk → Act (List Walk)
  | 0, walks => return walks
  | fuel + 1, walks => do
    if walks.all (·.result?.isSome) then return walks
    let b ← get
    takeTurns gate before fuel (← round (gateOpen gate before walks b) walks)

/-- The answers to requests that come in together, in their order. -/
def verifyTogether (gate : Nat) (ids : List TransactionId) : Act (List (Except BackchainError Record)) := do
  let walks ← ids.mapM enroll
  let b ← get
  let walks ← takeTurns gate b.calls.approvals (ids.length * b.stepBound) walks
  OptionT.mk (pure (walks.mapM Walk.result?))

/-! ## Runs -/

/-- Runs a request under a token. There is no answer if it breaks off. -/
def Bench.run {α : Type} (b : Bench) (token : Token) (cancelAfter : Option Nat) (request : Act α) : Option α × Bench :=
  StateT.run (OptionT.run request) { b with token, cancelAfter }

/-- Runs a request that has `allowed` nanoseconds; what breaks off is told as an error. -/
def Bench.runBounded {α : Type} (b : Bench) (allowed : Nat) (request : Act (Except ServiceError α)) :
    Except ServiceError α × Bench :=
  match b.run (.withTimeout b.clock allowed) none request with
  | (some answer, b) => (answer, b)
  | (none, b) => (.error (.join "the request broke off"), b)

/-- A request for a backchain as the service answers it. -/
def verifyForService (id : TransactionId) : Act (Except ServiceError Record) := do
  return (← verify id).mapError .ofBackchain

end VeiledLedger.Rehearsal
