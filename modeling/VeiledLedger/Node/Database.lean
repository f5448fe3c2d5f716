/-
  VeiledLedger.Node.Database — what a node remembers.

  Transactions and records are written once for each id; the log of verifications only grows.
  A table may be gone, and then whatever needs it fails.

  A transaction is stored in two steps, a look at what its id holds and the writing of a row,
  and between them other requests may do theirs. A record is written unless its id has one, and
  what stands there afterwards is read back and compared with it.

  The columns of both are texts and numbers, and whoever asks for a transaction or a record gets
  what is read back from them.
-/

import VeiledLedger.Interchange
import VeiledLedger.Json.Text
import VeiledLedger.Ledger.Check
import VeiledLedger.Node.Failure
import VeiledLedger.Text.Base64

namespace VeiledLedger.Node

inductive TableName where
  | transactions
  | records
  | verifications
  deriving DecidableEq, Repr

namespace TableName

def all : List TableName := [transactions, records, verifications]

def text : TableName → String
  | transactions => "verifier_transactions"
  | records => "verified_records"
  | verifications => "verifications"

def ofText? (s : String) : Option TableName := all.find? (·.text = s)

end TableName

inductive DatabaseFault where
  | missingTable (table : TableName)
  /-- A column holds what no row is written with. -/
  | unreadableRow (table : TableName)
  deriving DecidableEq, Repr

namespace DatabaseFault

def message : DatabaseFault → String
  | missingTable t => "no such table: " ++ t.text
  | unreadableRow t => "unreadable row in table " ++ t.text

end DatabaseFault

/-- How a verification ended. -/
inductive Outcome where
  | verified
  | rejected
  | cyclic
  deriving DecidableEq, Repr

namespace Outcome

def name : Outcome → String
  | verified => "verified"
  | rejected => "rejected"
  | cyclic => "cyclic"

end Outcome

structure TransactionRow where
  /-- When it was received, as the clock of the node tells it. -/
  receivedAt : String
  transaction : Published
  deriving DecidableEq

/-- A transaction as its columns hold it: the id in hexadecimal digits, the proof in digits of
    base 64, padding and groups as JSON. -/
structure TransactionColumns where
  id : String
  receivedAt : String
  proof : String
  padding : String
  groups : String
  deriving DecidableEq, Repr

def TransactionRow.columns (row : TransactionRow) : TransactionColumns where
  id := row.transaction.id.hex
  receivedAt := row.receivedAt
  proof := Text.Base64.encode row.transaction.proof
  padding := (Interchange.padding row.transaction.padding).text
  groups := (Interchange.view row.transaction.view).text

/-- The row that the columns of `id` hold. -/
def TransactionColumns.row? (c : TransactionColumns) (id : TransactionId) : Option TransactionRow := do
  return ⟨c.receivedAt, id, ← Text.Base64.decode? c.proof, ← (Interchange.readPadding.all c.padding).toOption,
    ← (Interchange.readView.all c.groups).toOption⟩

/-- A record as its columns hold it: digests in hexadecimal digits, those of the groups as JSON,
    and 1 for a valid proof. -/
structure RecordRow where
  id : String
  root : String
  groupRoots : String
  proofValid : Int
  deriving DecidableEq, Repr

namespace RecordRow

def ofRecord (r : Record) : RecordRow :=
  ⟨r.id.hex, r.root.hex, (Interchange.digests r.groupRoots).text, if r.proofValid then 1 else 0⟩

/-- The record in the row of `id`. -/
def record? (row : RecordRow) (id : TransactionId) : Option Record := do
  return ⟨id, ← Digest.ofHex? row.root, ← (Interchange.readDigests.all row.groupRoots).toOption, row.proofValid = 1⟩

end RecordRow

structure VerificationRow where
  txId : TransactionId
  outcome : Outcome
  culprit : Option TransactionId
  reason : Option String
  deriving DecidableEq

structure Database where
  transactions : Option (List TransactionRow)
  records : Option (List RecordRow)
  verifications : Option (List VerificationRow)

namespace Database

def empty : Database := ⟨some [], some [], some []⟩

def drop (db : Database) : TableName → Database
  | .transactions => { db with transactions := none }
  | .records => { db with records := none }
  | .verifications => { db with verifications := none }

/-- The rows of a table. -/
def rows {ρ : Type} (name : TableName) : Option (List ρ) → Except DatabaseFault (List ρ)
  | some rows => .ok rows
  | none => .error (.missingTable name)

/-- Writes a row unless its key is taken. -/
def insertOrIgnore {ρ κ : Type} [DecidableEq κ] (key : ρ → κ) (row : ρ) (rows : List ρ) : List ρ :=
  if rows.any (key · = key row) then rows else rows ++ [row]

/-! ## Transactions -/

def transaction? (db : Database) (id : TransactionId) : Except DatabaseFault (Option TransactionRow) := do
  return (← rows .transactions db.transactions).find? (·.transaction.id = id)

/-- As `transaction?`, read back from the columns. -/
def readTransaction? (db : Database) (id : TransactionId) : Except DatabaseFault (Option TransactionRow) := do
  match ← db.transaction? id with
  | none => return none
  | some row =>
    match row.columns.row? id with
    | some row => return some row
    | none => .error (.unreadableRow .transactions)

def addTransaction (db : Database) (row : TransactionRow) : Except DatabaseFault Database := do
  let rows ← rows .transactions db.transactions
  return { db with transactions := some (insertOrIgnore (·.transaction.id) row rows) }

/-- The transactions that are stored. -/
def source (db : Database) : TransactionSource := fun id =>
  match db.transaction? id with
  | .ok row => .ok (row.map (·.transaction))
  | .error e => .error (.backend e.message)

/-- The transactions as a verifier reads them. -/
def readSource (db : Database) : TransactionSource := fun id =>
  match db.readTransaction? id with
  | .ok row => .ok (row.map (·.transaction))
  | .error e => .error (.backend e.message)

/-! ## Records -/

def record? (db : Database) (id : TransactionId) : Except DatabaseFault (Option Record) := do
  match (← rows .records db.records).find? (·.id = id.hex) with
  | none => return none
  | some row =>
    match row.record? id with
    | some r => return some r
    | none => .error (.unreadableRow .records)

def addRecord (db : Database) (r : Record) : Except DatabaseFault Database := do
  return { db with records := some (insertOrIgnore (·.id) (.ofRecord r) (← rows .records db.records)) }

/-- Writes a record unless there is one; answers with what stands under its id then. -/
def offerRecord (db : Database) (r : Record) : Except DatabaseFault (Option Record × Database) := do
  let db ← db.addRecord r
  return (← db.record? r.id, db)

def findRecord (db : Database) (id : TransactionId) : Except StoreError (Option Record) :=
  match db.record? id with
  | .ok r => .ok r
  | .error e => .error (.backend e.message)

/-- Keeps a record as a store of records does. -/
def putRecord (db : Database) (r : Record) : Except StoreError Unit × Database :=
  match db.offerRecord r with
  | .error e => (.error (.backend e.message), db)
  | .ok (stored, db) => (if stored = some r then .ok () else .error (.conflict r.id), db)

/-! ## Verifications -/

def addVerification (db : Database) (row : VerificationRow) : Except DatabaseFault Database := do
  return { db with verifications := some ((← rows .verifications db.verifications) ++ [row]) }

end Database

/-- A transaction on its way into the database. -/
inductive Insertion where
  /-- Looks at what its id holds. -/
  | reading (tx : Published)
  /-- Its id held nothing. -/
  | writing (tx : Published)
  /-- Whether the transaction is new, unless it failed. -/
  | finished (result : Except ApiError Bool)

namespace Insertion

def conflict (id : TransactionId) : ApiError :=
  .conflict ("transaction " ++ id.hex ++ " already stored with different content")

/-- Does the next step at the time `now`. -/
def step (now : String) (db : Database) : Insertion → Database × Insertion
  | reading tx =>
    match db.transaction? tx.id with
    | .error _ => (db, finished (.error .internal))
    | .ok none => (db, writing tx)
    | .ok (some row) =>
      if row.transaction = tx then (db, finished (.ok false)) else (db, finished (.error (conflict tx.id)))
  | writing tx =>
    match db.addTransaction ⟨now, tx⟩ with
    | .error _ => (db, finished (.error .internal))
    | .ok db => (db, finished (.ok true))
  | finished result => (db, finished result)

end Insertion

/-- Stores a transaction without other requests in between. -/
def Database.insertTransaction (now : String) (db : Database) (tx : Published) : Except ApiError Bool × Database :=
  let (db, insertion) := Insertion.step now db (.reading tx)
  let (db, insertion) := Insertion.step now db insertion
  match insertion with
  | .finished result => (result, db)
  | _ => (.error .internal, db)

end VeiledLedger.Node
