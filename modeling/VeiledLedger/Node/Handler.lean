/-
  VeiledLedger.Node.Handler — what a node does for its clients.

  Clients submit transactions, ask for them and for records, and have a backchain verified.
  Each handler takes the node and gives back an answer and the node afterwards.

  A verification may take long, and what it asks for may fail on the way, so its handler is
  written for any `Access` to the transactions, the records, the time and the log. `verify` is
  the one where nothing fails but what is gone from the database and where a verification takes
  no time: a request is out of time either from its start on or never.
-/

import VeiledLedger.Argument.Backend
import VeiledLedger.Backchain.Run
import VeiledLedger.Interchange
import VeiledLedger.Node.Database
import VeiledLedger.Service

namespace VeiledLedger

structure Node where
  config : Config
  backend : Argument.Backend
  /-- Who knows it may submit and verify. -/
  apiKey : String
  database : Node.Database
  verifier : Backchain.Verifier

namespace Node

open Backchain

/-- A node with an empty database, unless its padding is too large to be proved. -/
def start [Hasher] (config : Config) (seed : Digest) (apiKey : String) : Except ApiError Node :=
  match Argument.Backend.ofPadding seed config.padding with
  | .error _ => .error .internal
  | .ok backend => .ok ⟨config, backend, apiKey, .empty, .fresh⟩

/-- A node only follows pointers, so it needs no types but the builtin ones. -/
def rules (n : Node) : Rules := ⟨Registry.builtin, n.config.padding⟩

def parseId (text : String) : Except ApiError TransactionId :=
  match Digest.ofHex? text with
  | some id => .ok id
  | none => .error (.badRequest "id must be 64 hex characters")

/-! ## Submitting -/

/-- Only what hashes to its id, and is padded like everything else here, is let in. -/
def accepts [Hasher] (n : Node) (tx : Published) : Except ApiError Unit :=
  if tx.padding ≠ n.config.padding then .error (.unprocessable "transaction padding differs from this node's")
  else
    match (do tx.view.checkShape tx.padding; tx.view.verify tx.id : Except ViewError Unit) with
    | .ok () => .ok ()
    | .error e => .error (.unprocessable e.message)

/-- Whether the transaction is new. -/
def submit [Hasher] (n : Node) (now : String) (tx : Published) : Except ApiError Bool × Node :=
  match n.accepts tx with
  | .error e => (.error e, n)
  | .ok () =>
    let (result, database) := n.database.insertTransaction now tx
    (result, { n with database })

/-! ## Asking -/

/-- A stored transaction and what is known of it. -/
def lookUp (n : Node) (id : TransactionId) : Except ApiError (TransactionRow × Status) :=
  match n.database.readTransaction? id with
  | .error _ => .error .internal
  | .ok none => .error (.notFound "transaction not found")
  | .ok (some row) =>
    match Id.run (n.verifier.status (fun id => pure (n.database.findRecord id)) id) with
    | .error e => .error (.unavailable e.message)
    | .ok status => .ok (row, status)

def lookUpRecord (n : Node) (id : TransactionId) : Except ApiError Record :=
  match n.database.record? id with
  | .error _ => .error .internal
  | .ok none => .error (.notFound "no verified record")
  | .ok (some r) => .ok r

/-! ## Verifying -/

/-- The record of a transaction, and where a walk goes from there. -/
def examine [Hasher] (n : Node) (stop : Option BackendError) (db : Database) (id : TransactionId) :
    Except CheckError (Record × List StatePointer) := do
  let tx ← db.readSource.fetch id
  let record ← n.rules.check (n.backend.verifyUntil stop) db.readSource tx
  let pointers ← (tx.view.pointers n.rules.registry).mapError .disclosure
  return (record, pointers)

def surroundings [Hasher] (n : Node) (stop : Option BackendError) : Surroundings (StateM Database) where
  stopped := return stop
  find id := return (← get).findRecord id
  check id := return n.examine stop (← get) id
  store r := do
    let (answer, db) := (← get).putRecord r
    set db
    return answer

/-- Why a verification has no time at all, if so. -/
def outOfTime (n : Node) : Option BackendError := (Token.withTimeout 0 n.config.timeoutSpan).stopped? 0

def stepBound (n : Node) : Nat := Backchain.stepBound ((n.database.transactions.getD []).map (·.transaction))

/-- Verifies a transaction and its backchain in the surroundings `s`. What the verifier knows
    afterwards is given back with the answer. -/
def verifyBackchain {m : Type → Type} [Monad m] (n : Node) (s : Surroundings m) (id : TransactionId) :
    m (Except ServiceError Record × Verifier) := do
  let (verifier, walk) := n.verifier.request id
  let (table, walk) ← walk.run s n.stepBound verifier.table
  let answer := match walk.result? with
    | some result => result.mapError .ofBackchain
    | none => .error (.join "the walk broke off")
  return (answer, { verifier with table })

/-- What a client learns from a verification. -/
structure Verdict where
  txId : TransactionId
  outcome : Outcome
  record : Option Record
  culprit : Option TransactionId
  chain : Option String
  reason : Option String

namespace Verdict

def ofRecord (r : Record) : Verdict := ⟨r.id, .verified, some r, none, none, none⟩

def ofError (id : TransactionId) (e : BackchainError) : Verdict where
  txId := id
  outcome := match e with
    | .cyclic _ _ => .cyclic
    | _ => .rejected
  record := none
  culprit := e.culprit?
  chain := e.chain?.map (·.text)
  reason := some e.message

/-- The verdict in the answer of the service. What may be retried is no verdict. -/
def ofService (id : TransactionId) : Except ServiceError Record → Except ApiError Verdict
  | .ok r => .ok (ofRecord r)
  | .error (.backchain e) =>
    if !e.retryable && e.culprit?.isSome then .ok (ofError id e) else .error (.ofService (.backchain e))
  | .error e => .error (.ofService e)

end Verdict

/-- What a verification works with. -/
structure Access (m : Type → Type) where
  lookUp : TransactionId → m (Except DatabaseFault (Option TransactionRow))
  around : Surroundings m
  log : VerificationRow → m (Except DatabaseFault Unit)

/-- Verifies a stored transaction and logs the verdict under `id`. -/
def verifyAmid {m : Type → Type} [Monad m] (n : Node) (a : Access m) (id : TransactionId) :
    m (Except ApiError Verdict × Verifier) := do
  match ← a.lookUp id with
  | .error _ => return (.error .internal, n.verifier)
  | .ok none => return (.error (.notFound "transaction not found"), n.verifier)
  | .ok (some _) =>
    let (result, verifier) ← n.verifyBackchain a.around id
    match Verdict.ofService id result with
    | .error e => return (.error e, verifier)
    | .ok v =>
      match ← a.log ⟨id, v.outcome, v.culprit, v.reason⟩ with
      | .error _ => return (.error .internal, verifier)
      | .ok () => return (.ok v, verifier)

def access [Hasher] (n : Node) : Access (StateM Database) where
  lookUp id := return (← get).readTransaction? id
  around := n.surroundings n.outOfTime
  log row := do
    match (← get).addVerification row with
    | .error e => return .error e
    | .ok db =>
      set db
      return .ok ()

def verify [Hasher] (n : Node) (id : TransactionId) : Except ApiError Verdict × Node :=
  let ((answer, verifier), database) := (n.verifyAmid n.access id).run n.database
  (answer, { n with database, verifier })

end Node

end VeiledLedger
