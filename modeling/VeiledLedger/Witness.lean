/-
  VeiledLedger.Witness — the private input of a proof and the public input beside it.

  The witness holds every padded group with its nonces, the salt, and for each input and
  reference slot the ancestor output it names, with the nonce that output was committed
  under. Slots that name nothing hold zeros under the zero nonce. The public input is what
  a verifier can rebuild: the transaction id and the hashes of the ancestor outputs.
-/

import VeiledLedger.Envelope
import VeiledLedger.Tree

namespace VeiledLedger

/-- A serialized output and the nonce it was committed with. -/
structure Utxo where
  bytes : Bytes
  nonce : Nonce
  deriving DecidableEq

namespace Utxo

/-- Stands in a slot that spends nothing. -/
def padding (size : Nat) : Utxo := ⟨Bytes.zeros size, Digest.zero⟩

/-- The leaf hash of the output in the transaction that made it. -/
def hash [Hasher] (u : Utxo) : Digest := leafHash u.nonce u.bytes

end Utxo

/-- Finds the output that a pointer names. -/
abbrev UtxoLookup := StatePointer → Option Utxo

namespace Tree

/-- The outputs of a tree that hold components, under the pointers that will spend them. -/
def outputUtxos (t : Tree) : List (StatePointer × Utxo) :=
  match t.group? .outputs with
  | none => []
  | some g =>
    ((List.zipWith Utxo.mk g.leaves g.nonces).take g.used).zipIdx.map
      (fun (u, i) => (⟨t.id, UInt32.ofNat i⟩, u))

end Tree

structure WitnessGroup where
  kind : GroupKind
  leaves : List Bytes
  nonces : List Nonce
  deriving DecidableEq

structure Witness where
  padding : Padding
  salt : PrivacySalt
  groups : List WitnessGroup
  inputUtxos : List Utxo
  referenceUtxos : List Utxo
  deriving DecidableEq

inductive WitnessError where
  | unresolved (pointer : StatePointer) (group : GroupKind) (index : Nat)
  | utxoWidth (pointer : StatePointer) (expected actual : Nat)
  | malformed (what : String)
  | build (cause : BuildError)
  | envelope (cause : Envelope.Fault)
  | layout (cause : LayoutError)
  deriving DecidableEq

namespace WitnessError

def message : WitnessError → String
  | unresolved p g i => "cannot resolve " ++ g.slotName i ++ " -> " ++ p.text
  | utxoWidth p e n =>
    "ancestor output " ++ p.text ++ " is " ++ toString n ++ " bytes, utxo slots are " ++ toString e
  | malformed what => "malformed witness: " ++ what
  | build cause => cause.message
  | envelope cause => cause.message
  | layout cause => cause.message

def breaksDown : WitnessError → Bool
  | build cause => cause.breaksDown
  | layout cause => cause.breaksDown
  | _ => false

end WitnessError

/-- The transaction id and the hashes of all input and reference slots. -/
structure PublicInput where
  txId : TransactionId
  inputs : List Digest
  references : List Digest
  deriving DecidableEq

namespace PublicInput

def toBytes (p : PublicInput) : Bytes :=
  Envelope.wrap (p.txId.toBytes ++ (p.inputs ++ p.references).flatMap Digest.toBytes)

/-- The length of the bytes of every public input under `p`, if it fits a 64-bit word. -/
def byteSize? (p : Padding) : Option Nat := do
  let slots ← word? (p.inputs + p.references)
  let digests ← word? (slots + 1)
  let body ← word? (digests * 32)
  word? (body + 4)

/-- The hash of a slot that spends nothing. -/
def paddingHash [Hasher] (utxoSize : Nat) : Digest := (Utxo.padding utxoSize).hash

end PublicInput

namespace Witness

/-- Finds the outputs of the pointers from slot `i` on. -/
def resolveFrom (lookup : UtxoLookup) (kind : GroupKind) (size i : Nat) :
    List StatePointer → Except WitnessError (List Utxo)
  | [] => .ok []
  | p :: ps =>
    match lookup p with
    | none => .error (.unresolved p kind i)
    | some u =>
      if u.bytes.length ≠ size then .error (.utxoWidth p size u.bytes.length)
      else do return u :: (← resolveFrom lookup kind size (i + 1) ps)

/-- The outputs of `pointers`, filled up to the capacity. -/
def resolveSlots (lookup : UtxoLookup) (kind : GroupKind) (size capacity : Nat) (pointers : List StatePointer) :
    Except WitnessError (List Utxo) := do
  let found ← resolveFrom lookup kind size 0 pointers
  return found ++ Bytes.copies (capacity - pointers.length) fun _ => Utxo.padding size

/-- The witness of a tree that was built from `tx` under `p`. -/
def ofTree (t : Tree) (tx : Transaction) (lookup : UtxoLookup) (p : Padding) : Except WitnessError Witness := do
  let inputUtxos ← resolveSlots lookup .inputs p.utxoSize p.inputs tx.inputs
  let referenceUtxos ← resolveSlots lookup .references p.utxoSize p.references tx.references
  return {
    padding := p
    salt := tx.salt
    groups := t.groups.map (fun g => ⟨g.kind, g.leaves, g.nonces⟩)
    inputUtxos
    referenceUtxos }

variable [Hasher]

/-- Builds the tree of a transaction and its witness. -/
def assemble (tx : Transaction) (r : Registry) (lookup : UtxoLookup) (p : Padding) :
    Except WitnessError Witness := do
  let t ← (Tree.build tx r p).mapError .build
  ofTree t tx lookup p

/-- The id of the transaction, computed from the leaves and nonces. -/
def transactionId (w : Witness) : TransactionId :=
  transactionRoot (w.groups.map fun g => merkleRoot (List.zipWith leafHash g.nonces g.leaves))

def publicInput (w : Witness) : PublicInput where
  txId := w.transactionId
  inputs := w.inputUtxos.map Utxo.hash
  references := w.referenceUtxos.map Utxo.hash

end Witness

end VeiledLedger
