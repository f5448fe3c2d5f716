/-
  VeiledLedger.Backchain.Walk — one request on its way through a backchain.

  A walk goes down the pointers of the transaction it was asked for, inputs before references,
  and comes back up once all that lies below a transaction is verified; then the transaction
  is stored. Its stack holds the transactions between the first one and the place where it
  stands, so a deep ledger costs no more than a long list.

  The walk is cut into steps, and between two of them other requests may do theirs. A step
  either answers a question that the walk has put to its surroundings (has the request to
  stop, is there a record, does the transaction pass its check, was the record stored) or
  works on the table that all requests share. Each function below is one such step: it takes
  the walk from one phase to the next.
-/

import VeiledLedger.Backchain.Table

namespace VeiledLedger.Backchain

/-- A transaction whose slot the walk holds, and the pointer that led to it. -/
structure Claim where
  id : TransactionId
  via : Option StatePointer
  deriving DecidableEq

/-- A claimed transaction that has passed its own check. -/
structure Frame where
  claim : Claim
  /-- The pointers that have not been followed yet. -/
  pending : List StatePointer
  record : Record
  deriving DecidableEq

/-- What the walk does next. -/
inductive Phase where
  /-- Asks whether to stop, before it enters a transaction. -/
  | enter (target : Claim)
  /-- Asks the store for a record. -/
  | lookUp (target : Claim)
  /-- Looks at the slot of the transaction. -/
  | visit (target : Claim)
  /-- Waits for another request; asks whether to stop, and looks again. -/
  | blocked (target : Claim)
  /-- Asks for the check of the transaction it has claimed. -/
  | check (claim : Claim)
  /-- The backend failed during the check: asks whether that was because of a stop. -/
  | judge (claim : Claim) (error : BackendError)
  /-- Asks the store to keep the record of a transaction with nothing left below it. -/
  | store (frame : Frame)
  /-- Marks the stored transaction as verified. -/
  | publish (frame : Frame)
  /-- Settles the claims one by one, the latest first; the failure is seen from the first of
      them. -/
  | unwind (claims : List Claim) (failure : Failure)
  | done (result : Except BackchainError Record)

structure Walk where
  request : RequestId
  /-- The transaction that was asked for. -/
  root : TransactionId
  /-- The transactions above the place where the walk stands, the nearest first. -/
  stack : List Frame
  phase : Phase

namespace Walk

def start (request : RequestId) (root : TransactionId) : Walk := ⟨request, root, [], .enter ⟨root, none⟩⟩

def result? (w : Walk) : Option (Except BackchainError Record) :=
  match w.phase with
  | .done r => some r
  | _ => none

/-- Goes on below `f`, or stores it when nothing is left there. -/
def follow (w : Walk) (f : Frame) (stack : List Frame) : Walk :=
  match f.pending with
  | p :: ps => { w with stack := { f with pending := ps } :: stack, phase := .enter ⟨p.txId, some p⟩ }
  | [] => { w with stack, phase := .store f }

/-- The transaction where the walk stands is verified, and `r` is its record. -/
def resolved (w : Walk) (r : Record) : Walk :=
  match w.stack with
  | [] => { w with phase := .done (.ok r) }
  | f :: stack => w.follow f stack

/-- Where a walk goes on does not depend on its phase. -/
theorem resolved_phase (w : Walk) (phase : Phase) (r : Record) : { w with phase }.resolved r = w.resolved r := by
  unfold resolved
  cases w.stack with
  | nil => rfl
  | cons f stack => rfl

/-- The walk has met `f` at a transaction that it has not claimed. -/
def met (w : Walk) (target : Claim) (f : Failure) : Walk :=
  { w with stack := [], phase := .unwind (w.stack.map Frame.claim) (f.through target.via) }

/-- The claimed transaction failed. -/
def failed (w : Walk) (claim : Claim) (cause : Cause) : Walk :=
  { w with stack := [], phase := .unwind (claim :: w.stack.map Frame.claim) (Failure.ofCause claim.id cause) }

/-! ## Answers -/

def entered (w : Walk) (target : Claim) : (stop : Option BackendError) → Walk
  | some e => w.met target (Failure.ofCause target.id (.interrupted e))
  | none => { w with phase := .lookUp target }

def lookedUp (w : Walk) (target : Claim) : Except StoreError (Option Record) → Walk
  | .ok (some r) => w.resolved r
  | .ok none => { w with phase := .visit target }
  | .error e => w.met target (Failure.ofCause target.id (.store e))

def checked (w : Walk) (claim : Claim) : Except CheckError (Record × List StatePointer) → Walk
  | .ok (record, pointers) => w.follow ⟨claim, pointers, record⟩ w.stack
  | .error (.backend e) => { w with phase := .judge claim e }
  | .error reason => w.failed claim (.check reason)

/-- A backend call that was cut short says nothing about the transaction. -/
def judged (w : Walk) (claim : Claim) (e : BackendError) (stop : Option BackendError) : Walk :=
  w.failed claim (if stop.isSome then .interrupted e else .check (.backend e))

def stored (w : Walk) (f : Frame) : Except StoreError Unit → Walk
  | .ok () => { w with phase := .publish f }
  | .error e => w.failed f.claim (.store e)

/-! ## Steps on the table -/

/-- Takes what the slot says, waits for its owner, or claims it. Meeting a transaction that the
    walk itself holds is a cycle of pointers, and so is a loop of waiting requests. -/
def visit (w : Walk) (t : Table) (target : Claim) : Table × Walk :=
  match t.slot? target.id with
  | some (.verified r) => (t, w.resolved r)
  | some (.rejected f) => (t, w.met target f)
  | some (.verifying owner) =>
    if owner = w.request ∨ t.wouldDeadlock w.request target.id then
      (t, w.met target (Failure.ofCause target.id .cycle))
    else (t.wait w.request target.id, { w with phase := .blocked target })
  | none => (t.setSlot target.id (.verifying w.request), { w with phase := .check target })

/-- Ends the wait, and looks at the slot again unless the request has to stop. -/
def woken (w : Walk) (t : Table) (target : Claim) (stop : Option BackendError) : Table × Walk :=
  let t := t.wake w.request
  match stop with
  | some e => (t, w.met target (Failure.ofCause target.id (.interrupted e)))
  | none => w.visit t target

def publish (w : Walk) (t : Table) (f : Frame) : Table × Walk :=
  (t.setSlot f.claim.id (.verified f.record), w.resolved f.record)

/-- Settles the first claim. The failure is then seen through the pointer that led to it. -/
def unwind (w : Walk) (t : Table) (claims : List Claim) (f : Failure) : Table × Walk :=
  match claims with
  | [] => (t, { w with phase := .done (.error (f.toError w.root)) })
  | c :: cs => (t.settle c.id f, { w with phase := .unwind cs (f.through c.via) })

end Walk

end VeiledLedger.Backchain
