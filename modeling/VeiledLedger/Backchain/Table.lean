/-
  VeiledLedger.Backchain.Table — what the requests of one verifier know together.

  A transaction is unvisited while it has no slot. The request that meets it first claims its
  slot and is the only one to check it; the slot ends as verified, as rejected, or is given
  back. A request that meets a slot of another one waits for it, and the table remembers who
  waits for what, so that a loop of waiting requests is noticed before it closes.
-/

import VeiledLedger.Assoc
import VeiledLedger.Backchain.Failure

namespace VeiledLedger.Backchain

abbrev RequestId := Nat

inductive Slot where
  | verifying (owner : RequestId)
  | verified (record : Record)
  | rejected (failure : Failure)
  deriving DecidableEq

structure Table where
  slots : Assoc TransactionId Slot
  /-- Which transaction a request waits for. -/
  waiting : Assoc RequestId TransactionId
  deriving DecidableEq

namespace Table

def empty : Table := ⟨[], []⟩

def slot? (t : Table) (id : TransactionId) : Option Slot := t.slots.get? id

def setSlot (t : Table) (id : TransactionId) (s : Slot) : Table := { t with slots := t.slots.set id s }

def release (t : Table) (id : TransactionId) : Table := { t with slots := t.slots.erase id }

def wait (t : Table) (request : RequestId) (id : TransactionId) : Table :=
  { t with waiting := t.waiting.set request id }

def wake (t : Table) (request : RequestId) : Table := { t with waiting := t.waiting.erase request }

/-- Leaves the outcome of a failed transaction: a final failure stays, any other gives the slot
    back. -/
def settle (t : Table) (id : TransactionId) (f : Failure) : Table :=
  if f.cause.isFinal then t.setSlot id (.rejected f) else t.release id

/-- Whether following owners and what they wait for, from `id` on and for at most `fuel` owners,
    leads to `request`. -/
def leadsTo (t : Table) (request : RequestId) : (fuel : Nat) → TransactionId → Bool
  | 0, _ => false
  | fuel + 1, id =>
    match t.slot? id with
    | some (.verifying owner) =>
      if owner = request then true
      else match t.waiting.get? owner with
        | some next => leadsTo t request fuel next
        | none => false
    | _ => false

/-- Whether a loop of waiting requests would close if `request` waited for `id`. -/
def wouldDeadlock (t : Table) (request : RequestId) (id : TransactionId) : Bool :=
  t.leadsTo request (t.waiting.length + 1) id

/-! ## What each operation does to a slot and to a wait -/

theorem slot?_setSlot (t : Table) (id : TransactionId) (s : Slot) (x : TransactionId) :
    (t.setSlot id s).slot? x = if x = id then some s else t.slot? x :=
  Assoc.get?_set t.slots id s x

theorem slot?_settle (t : Table) (id : TransactionId) (f : Failure) (x : TransactionId) :
    (t.settle id f).slot? x =
      if x = id then (if f.cause.isFinal then some (.rejected f) else none) else t.slot? x := by
  unfold settle
  split
  · exact slot?_setSlot t id _ x
  · exact Assoc.get?_erase t.slots id x

@[simp] theorem slot?_wait (t : Table) (r : RequestId) (id x : TransactionId) : (t.wait r id).slot? x = t.slot? x := rfl
@[simp] theorem slot?_wake (t : Table) (r : RequestId) (x : TransactionId) : (t.wake r).slot? x = t.slot? x := rfl
@[simp] theorem waiting_setSlot (t : Table) (id : TransactionId) (s : Slot) : (t.setSlot id s).waiting = t.waiting := rfl

@[simp] theorem waiting_settle (t : Table) (id : TransactionId) (f : Failure) : (t.settle id f).waiting = t.waiting := by
  unfold settle
  split <;> rfl

theorem waiting_wait (t : Table) (r : RequestId) (id : TransactionId) (q : RequestId) :
    (t.wait r id).waiting.get? q = if q = r then some id else t.waiting.get? q :=
  Assoc.get?_set t.waiting r id q

theorem waiting_wake (t : Table) (r q : RequestId) :
    (t.wake r).waiting.get? q = if q = r then none else t.waiting.get? q :=
  Assoc.get?_erase t.waiting r q

end Table

/-- What is known of a transaction. -/
inductive Status where
  | unvisited
  | verifying
  | verified
  | rejected
  deriving DecidableEq, Repr

namespace Status

def name : Status → String
  | unvisited => "Unvisited"
  | verifying => "Verifying"
  | verified => "Verified"
  | rejected => "Rejected"

def ofSlot : Slot → Status
  | .verifying _ => verifying
  | .verified _ => verified
  | .rejected _ => rejected

/-- What the record store says of a transaction without a slot. -/
def ofStored (found : Option Record) : Status := if found.isSome then verified else unvisited

end Status

end VeiledLedger.Backchain
