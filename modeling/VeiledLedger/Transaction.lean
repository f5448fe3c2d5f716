/-
  VeiledLedger.Transaction — a transaction as its prover knows it.

  Nine kinds of parts, and a secret salt that is mixed into the nonce of every leaf. Whoever
  makes a salt of given bytes, or draws one, refuses zeros, because nonces derived from them
  could be guessed. A salt that is taken over as a value of its type is not looked at again.
-/

import VeiledLedger.Component

namespace VeiledLedger

/-- A value and the id of its registered type. -/
structure TypedValue where
  typeId : TypeId
  value : Value

structure PrivacySalt where
  bytes : Digest
  deriving DecidableEq

namespace PrivacySalt

def ofDigest? (d : Digest) : Option PrivacySalt := if d = Digest.zero then none else some ⟨d⟩

/-- The first non-zero salt among the 32-byte pieces of a stream of random bytes, and what is
    left of the stream. -/
def draw (stream : Bytes) : Option (PrivacySalt × Bytes) :=
  if _h : stream.length < 32 then none
  else
    match (Digest.ofBytes? (stream.take 32)).bind ofDigest? with
    | some salt => some (salt, stream.drop 32)
    | none => draw (stream.drop 32)
termination_by stream.length
decreasing_by simp only [List.length_drop]; omega

/-- Nothing of a salt is shown. -/
def render (_ : PrivacySalt) : String := "PrivacySalt(..)"

end PrivacySalt

structure Transaction where
  inputs : List StatePointer
  outputs : List TypedValue
  commands : List TypedValue
  attachments : List Digest
  notary : Option Party
  timeWindow : Option TimeWindow
  signers : List Signer
  references : List StatePointer
  parameters : Option Digest
  salt : PrivacySalt

namespace Transaction

/-- What the transaction spends, then what it refers to. -/
def pointers (tx : Transaction) : List StatePointer := tx.inputs ++ tx.references

/-- The transactions whose outputs are spent or referred to, in ascending order. -/
def dependencies (tx : Transaction) : List TransactionId :=
  Digest.sortDistinct (tx.pointers.map (·.txId))

end Transaction

/-! ## The transaction as messages show it -/

namespace TypedValue

def render (v : TypedValue) : String :=
  "TypedValue \x7b type_id: " ++ toString v.typeId.toNat ++ ", value: " ++ v.value.render ++ " \x7d"

end TypedValue

namespace Transaction

/-- A heading and numbered lines; nothing for an empty list. -/
def itemised (heading : String) (items : List String) : List String :=
  if items = [] then []
  else (" - " ++ heading ++ ":") ::
    items.zipIdx.map (fun (item, i) => "\t[" ++ toString i ++ "]:\t" ++ item)

def lines (tx : Transaction) : List String :=
  ["Prover transaction:"] ++
  itemised "REFS" (tx.references.map StatePointer.render) ++
  itemised "INPUTS" (tx.inputs.map StatePointer.render) ++
  itemised "OUTPUTS" (tx.outputs.map TypedValue.render) ++
  itemised "COMMANDS" (tx.commands.map TypedValue.render) ++
  itemised "ATTACHMENT HASHES" (tx.attachments.map Digest.brief) ++
  itemised "SIGNERS" (tx.signers.map Signer.render) ++
  (tx.notary.toList.map fun n => " - NOTARY:  " ++ n.name) ++
  (tx.timeWindow.toList.map fun w => " - TIME WINDOW:  " ++ w.render) ++
  (tx.parameters.toList.map fun d => " - PARAMETERS HASH:  " ++ d.hex)

def render (tx : Transaction) : String := String.join (tx.lines.map (· ++ "\n"))

end Transaction

end VeiledLedger
