/-
  VeiledLedger.Backend — the proving system as its callers see it.

  A backend proves and verifies, may take long and may fail. A request for it carries a token
  that says when to stop: after a deadline, or once it has been cancelled. Only failures that
  say nothing about the request itself are worth another try.
-/

import VeiledLedger.Bytes
import VeiledLedger.Text.Span

namespace VeiledLedger

inductive BackendError where
  /-- The request had `after` nanoseconds. -/
  | timeout (after : Nat)
  | cancelled
  | unavailable (reason : String)
  | invalidInput (reason : String)
  | failure (reason : String)
  deriving DecidableEq, Repr

namespace BackendError

def message : BackendError → String
  | timeout after => "backend call timed out after " ++ Text.Span.render after
  | cancelled => "backend call cancelled"
  | unavailable reason => "backend unavailable: " ++ reason
  | invalidInput reason => "backend rejected its input: " ++ reason
  | failure reason => "backend failure: " ++ reason

/-- The identical call may succeed when it is made again. -/
def retryable : BackendError → Bool
  | timeout _ | cancelled | unavailable _ => true
  | invalidInput _ | failure _ => false

end BackendError

/-- The moment after which a request stops, and how long it was given; both in nanoseconds. -/
structure Deadline where
  moment : Nat
  allowed : Nat
  deriving DecidableEq, Repr

/-- When a request has to stop. -/
structure Token where
  cancelled : Bool
  deadline : Option Deadline
  deriving DecidableEq, Repr

namespace Token

/-- Stops only when it is cancelled. -/
def never : Token := ⟨false, none⟩

/-- The clock counts seconds in 63 bits: it shows no moment from here on. -/
def clockEnd : Nat := 2 ^ 63 * 1000000000

/-- Stops once `allowed` nanoseconds have gone by. A deadline that the clock cannot show never
    comes. -/
def withTimeout (now allowed : Nat) : Token :=
  ⟨false, if now + allowed < clockEnd then some ⟨now + allowed, allowed⟩ else none⟩

def cancel (t : Token) : Token := { t with cancelled := true }

/-- The time left before the deadline, if there is one. -/
def remaining (now : Nat) (t : Token) : Option Nat := t.deadline.map (·.moment - now)

/-- Why the request has to stop, if it has to; a deadline goes before a cancellation. -/
def stopped? (now : Nat) (t : Token) : Option BackendError :=
  match t.deadline with
  | some d => if d.moment ≤ now then some (.timeout d.allowed) else if t.cancelled then some .cancelled else none
  | none => if t.cancelled then some .cancelled else none

end Token

end VeiledLedger
