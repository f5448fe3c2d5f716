/-
  VeiledLedger.Node.Failure — errors as a node tells them to its clients.

  What a client may retry is told apart from what it may not: a storage or backend that does
  not answer is never told as a verdict about a transaction.
-/

import VeiledLedger.Classification

namespace VeiledLedger

inductive ApiError where
  | badRequest (reason : String)
  | notFound (reason : String)
  | conflict (reason : String)
  | unprocessable (reason : String)
  | timeout (reason : String)
  | unavailable (reason : String)
  | internal
  deriving DecidableEq, Repr

namespace ApiError

/-- The status code of the answer. -/
def status : ApiError → Nat
  | badRequest _ => 400
  | notFound _ => 404
  | conflict _ => 409
  | unprocessable _ => 422
  | timeout _ => 504
  | unavailable _ => 503
  | internal => 500

/-- What the body of the answer says. -/
def reason : ApiError → String
  | badRequest r | notFound r | conflict r | unprocessable r | timeout r | unavailable r => r
  | internal => "internal error"

def message : ApiError → String
  | badRequest r => "bad request: " ++ r
  | notFound r => "not found: " ++ r
  | conflict r => "conflict: " ++ r
  | unprocessable r => "unprocessable: " ++ r
  | timeout r => "timed out: " ++ r
  | unavailable r => "storage unavailable: " ++ r
  | internal => "internal error"

/-- The error that a failure of the service becomes. -/
def ofService (e : ServiceError) : ApiError :=
  match e with
  | .backend (.timeout _) | .backend .cancelled | .backend (.unavailable _) => timeout e.message
  | .backchain (.store (.conflict _)) => conflict e.message
  | .backchain (.store (.backend _)) => unavailable e.message
  | .backchain (.rejected _ _ (.source _)) => unavailable e.message
  | _ =>
    match e.errorClass with
    | .structural | .encoding => unprocessable e.message
    | .configuration | .backend => internal

end ApiError

end VeiledLedger
