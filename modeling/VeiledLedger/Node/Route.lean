/-
  VeiledLedger.Node.Route — requests over HTTP.

  A path is compared piece by piece as it was sent; what stands for an id is decoded afterwards.
  Submitting, verifying and everything that does not exist ask for the key before they say
  anything else. A method that a path does not know is refused, a question for the head of an
  answer is answered without its body, and a question for the options of any path is answered
  with an empty body, so that pages from elsewhere may ask.
-/

import VeiledLedger.Node.Handler
import VeiledLedger.Node.MediaType

namespace VeiledLedger.Node

open Json

inductive Method where
  | get
  | head
  | post
  | options
  | other
  deriving DecidableEq, Repr

def Method.ofText : String → Method
  | "GET" => get
  | "HEAD" => head
  | "POST" => post
  | "OPTIONS" => options
  | _ => other

structure Request where
  method : Method
  path : String
  key : Option String
  contentType : Option String
  body : String
  /-- When the request came in. -/
  now : String
  /-- An id that no other request has. -/
  fresh : String

inductive Body where
  | none
  | text (s : String)
  | json (d : Datum)

structure Reply where
  status : Nat
  body : Body

/-! ## Paths -/

/-- Where a path leads; an id is still written as it was sent. -/
inductive Route where
  | health
  | transactions
  | transaction (id : String)
  | verification (id : String)
  | record (id : String)
  | unknown
  deriving DecidableEq, Repr

namespace Route

/-- No id stands behind a slash that ends a path, but an empty one may stand between two. -/
def ofPieces : List String → Route
  | ["", "health"] => health
  | ["", "api", "v1", "transactions"] => transactions
  | ["", "api", "v1", "transactions", id] => if id = "" then unknown else transaction id
  | ["", "api", "v1", "transactions", id, "verify"] => verification id
  | ["", "api", "v1", "records", id] => if id = "" then unknown else record id
  | _ => unknown

def isSchemeChar (c : Char) : Bool := c.isAlphanum || c = '+' || c = '-' || c = '.'

/-- An address without the scheme and the server in front of its path, if it has them. -/
def withoutServer (cs : List Char) : List Char :=
  match cs.dropWhile isSchemeChar with
  | ':' :: '/' :: '/' :: rest => rest.dropWhile (· ≠ '/')
  | _ => cs

/-- What stands behind a question mark or a number sign is not looked at. -/
def ofPath (path : String) : Route :=
  let cs := path.toList.takeWhile fun c => c ≠ '?' ∧ c ≠ '#'
  ofPieces (((withoutServer cs).splitOn '/').map String.ofList)

def isProtected : Route → Bool
  | transactions | verification _ | unknown => true
  | health | transaction _ | record _ => false

def allows : Route → Method → Bool
  | health, m | transaction _, m | record _, m => m = .get || m = .head
  | transactions, m | verification _, m => m = .post
  | unknown, _ => true

end Route

/-- Undoes the writing of bytes as a percent sign and two digits. -/
def unescape : Bytes → Bytes
  | 37 :: hi :: lo :: rest =>
    match Text.Hex.value? hi, Text.Hex.value? lo with
    | some a, some b => UInt8.ofNat (16 * a + b) :: unescape rest
    | _, _ => 37 :: unescape (hi :: lo :: rest)
  | b :: rest => b :: unescape rest
  | [] => []

/-- A piece of a path, if it is text. -/
def decodePiece (s : String) : Option String := Text.Utf8.decode? (unescape (Text.Utf8.encode s))

/-! ## Replies -/

def ofApiError (e : ApiError) : Reply := ⟨e.status, .json (.object [("error", .string e.reason)])⟩

def ofAnswer {α : Type} (f : α → Reply) : Except ApiError α → Reply
  | .ok x => f x
  | .error e => ofApiError e

def ofSubmission (id : TransactionId) (created : Bool) : Reply :=
  ⟨if created then 201 else 200, .json (.object [("id", Interchange.digest id), ("created", .bool created)])⟩

def ofLookUp (found : TransactionRow × Backchain.Status) : Reply :=
  ⟨200, .json (.object [("received_at", .string found.1.receivedAt), ("state", .string found.2.name),
    ("transaction", Interchange.published found.1.transaction)])⟩

def orNull {α : Type} (f : α → Datum) : Option α → Datum
  | some x => f x
  | none => .null

def ofVerdict (fresh : String) (v : Verdict) : Reply :=
  ⟨200, .json (.object [("verification_id", .string fresh), ("tx_id", Interchange.digest v.txId),
    ("outcome", .string v.outcome.name), ("record", orNull Interchange.record v.record),
    ("culprit", orNull Interchange.digest v.culprit), ("chain", orNull .string v.chain),
    ("reason", orNull .string v.reason)])⟩

/-! ## Requests -/

/-- The largest body that is read, in bytes. -/
def bodyLimit : Nat := 2097152

/-- The transaction in the body of a request, or the status that says why there is none. What
    follows it in the body is not looked at. -/
def submission (r : Request) : Except Nat Published :=
  if !((r.contentType.bind MediaType.ofText?).any MediaType.isJson) then .error 415
  else if bodyLimit < r.body.utf8ByteSize then .error 413
  else match Interchange.readPublished.leading r.body with
    | .ok tx => .ok tx
    | .error .malformed => .error 400
    | .error .misshapen => .error 422

/-- Answers a request whose path names an id. -/
def withId (n : Node) (piece : String) (f : TransactionId → Reply × Node) : Reply × Node :=
  match decodePiece piece with
  | none => (⟨400, .none⟩, n)
  | some text =>
    match parseId text with
    | .error e => (ofApiError e, n)
    | .ok id => f id

/-- What a verification answers, and the node after it. -/
abbrev Verification := TransactionId → Except ApiError Verdict × Node

/-- Answers a request that has the right to be answered. -/
def serve [Hasher] (n : Node) (verify : Verification) (r : Request) : Route → Reply × Node
  | .health => (⟨200, .text "ok"⟩, n)
  | .transactions =>
    match submission r with
    | .error status => (⟨status, .none⟩, n)
    | .ok tx =>
      let (created, n) := n.submit r.now tx
      (ofAnswer (ofSubmission tx.id) created, n)
  | .transaction id => n.withId id fun id => (ofAnswer ofLookUp (n.lookUp id), n)
  | .verification id => n.withId id fun id =>
    let (verdict, n) := verify id
    (ofAnswer (ofVerdict r.fresh) verdict, n)
  | .record id => n.withId id fun id =>
    (ofAnswer (fun x => ⟨200, .json (Interchange.record x)⟩) (n.lookUpRecord id), n)
  | .unknown => (⟨404, .none⟩, n)

/-- Answers a request; if it asks for a verification, then as `verify` does. -/
def answer [Hasher] (n : Node) (verify : Verification) (r : Request) : Reply × Node :=
  let route := Route.ofPath r.path
  if r.method = .options then (⟨200, .text ""⟩, n)
  else if route.isProtected && r.key ≠ some n.apiKey then (⟨401, .none⟩, n)
  else if !route.allows r.method then (⟨405, .none⟩, n)
  else
    let (reply, n) := n.serve verify r route
    (if r.method = .head then ⟨reply.status, .text ""⟩ else reply, n)

def handle [Hasher] (n : Node) (r : Request) : Reply × Node := n.answer n.verify r

end VeiledLedger.Node
