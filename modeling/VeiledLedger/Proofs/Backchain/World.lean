/-
  VeiledLedger.Proofs.Backchain.World — many requests at one verifier.

  A ledger is what a source can show: at most one transaction under each id, and it carries
  that id. A world is a verifier, the store it writes to, and one walk for each request made
  so far. A schedule is a list of moves: a request comes in, one walk does its next step, or
  the process ends and another one starts over the same store. Whose step comes next is left
  to the schedule, so each interleaving is one; a step of a walk that waits is a wake-up,
  whether or not there was a reason for it.

  What a step finds around it is part of the move: whether the token has fired, which parts
  of the source and which side of the store are out of reach, and what the check says. A
  record may be kept although the store said that it failed to keep it.
-/

import VeiledLedger.Backchain.Run

namespace VeiledLedger.Backchain

structure Ledger where
  registry : Registry
  content : TransactionId → Option Published
  id_content : ∀ {id : TransactionId} {tx : Published}, content id = some tx → tx.id = id

abbrev Judgment := Published → Except CheckError Record

/-- The record of a transaction that passes carries its id. -/
def Judgment.Named (j : Judgment) : Prop := ∀ tx r, j tx = .ok r → r.id = tx.id

structure Conditions where
  stop : Option BackendError
  /-- Why a transaction cannot be read. -/
  outage : TransactionId → Option StoreError
  judgment : Judgment
  readFault : Option StoreError
  /-- Why a record was not kept, and whether it was kept all the same. -/
  writeFault : Option (StoreError × Bool)

namespace Conditions

def source (c : Conditions) (l : Ledger) : TransactionSource := fun id =>
  match c.outage id with
  | some e => .error e
  | none => .ok (l.content id)

def examine (c : Conditions) (l : Ledger) (id : TransactionId) : Except CheckError (Record × List StatePointer) := do
  let tx ← (c.source l).fetch id
  let record ← c.judgment tx
  let pointers ← (tx.view.pointers l.registry).mapError .disclosure
  return (record, pointers)

def find (c : Conditions) (σ : RecordStore) (id : TransactionId) : Except StoreError (Option Record) :=
  match c.readFault with
  | some e => .error e
  | none => .ok (σ.get? id)

def keep (c : Conditions) (σ : RecordStore) (r : Record) : Except StoreError Unit × RecordStore :=
  match c.writeFault, σ.put r with
  | some (e, true), .ok σ' => (.error e, σ')
  | some (e, _), _ => (.error e, σ)
  | none, .ok σ' => (.ok (), σ')
  | none, .error e => (.error e, σ)

def surroundings (c : Conditions) (l : Ledger) : Surroundings (StateM RecordStore) where
  stopped := return c.stop
  find id := return c.find (← get) id
  check id := return c.examine l id
  store r := fun σ => c.keep σ r

end Conditions

structure World where
  verifier : Verifier
  store : RecordStore
  /-- Request `i` at place `i`. -/
  walks : List Walk

inductive Move where
  | request (id : TransactionId)
  | advance (i : RequestId) (c : Conditions)
  /-- The process ends, and another one starts over the same store. -/
  | restart

/-- The check of the move, if it makes one, returns records that carry the id of their transaction. -/
def Move.Named : Move → Prop
  | .advance _ c => c.judgment.Named
  | .request _ | .restart => True

namespace World

def start (σ : RecordStore) : World := ⟨.fresh, σ, []⟩

abbrev table (s : World) : Table := s.verifier.table

def enroll (s : World) (id : TransactionId) : World :=
  let (verifier, w) := s.verifier.request id
  ⟨verifier, s.store, s.walks ++ [w]⟩

def advance (l : Ledger) (s : World) (i : RequestId) (c : Conditions) : World :=
  match s.walks[i]? with
  | none => s
  | some w =>
    let ((table, w), σ) := (w.step (c.surroundings l) s.table).run s.store
    ⟨{ s.verifier with table }, σ, s.walks.set i w⟩

def move (l : Ledger) (s : World) : Move → World
  | .request id => s.enroll id
  | .advance i c => s.advance l i c
  | .restart => start s.store

def run (l : Ledger) (s : World) (schedule : List Move) : World := schedule.foldl (move l) s

/-- The check that a move makes, and its outcome. -/
def checkOf? (l : Ledger) (s : World) : Move → Option (TransactionId × Except CheckError (Record × List StatePointer))
  | .advance i c =>
    match s.walks[i]?.map Walk.phase with
    | some (.check claim) => some (claim.id, c.examine l claim.id)
    | _ => none
  | _ => none

def checks (l : Ledger) (s : World) :
    List Move → List (TransactionId × Except CheckError (Record × List StatePointer))
  | [] => []
  | m :: ms => (s.checkOf? l m).toList ++ checks l (s.move l m) ms

end World

end VeiledLedger.Backchain
