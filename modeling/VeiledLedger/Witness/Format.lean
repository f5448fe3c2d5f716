/-
  VeiledLedger.Witness.Format — the bytes of a witness.

  In the outer frame stand the nine numbers of the padding, in 32 bits each, then the salt,
  the groups in hashing order, and the outputs of the input and the reference slots; each
  slot is its content and its nonce. Everything is laid out by a layout that the padding
  fixes, so a witness is read back without anything beside it, and its length depends on
  the padding alone.
-/

import VeiledLedger.Witness

namespace VeiledLedger.Witness

def headerFields : List String :=
  ["inputs", "outputs.capacity", "outputs.leaf_len", "commands.capacity", "commands.leaf_len",
   "attachments", "signers", "references", "utxo_leaf_len"]

def headerLayout : Layout := .struct (headerFields.map fun name => (name, .unsigned .four))

def slotLayout (size : Nat) : Layout := .struct [("leaf", .exactBytes size), ("nonce", .exactBytes 32)]

def slotsLayout (capacity size : Nat) : Layout := .exactList capacity (slotLayout size)

/-- The layout of everything behind the header. -/
def bodyLayout (p : Padding) : Layout :=
  .struct (("privacy_salt", .exactBytes 32) ::
    GroupKind.all.map (fun kind => (kind.name, slotsLayout (p.shape kind).capacity (p.shape kind).leafSize)) ++
    [("input_utxos", slotsLayout p.inputs p.utxoSize), ("reference_utxos", slotsLayout p.references p.utxoSize)])

/-- The length of the bytes of every witness under `p`, if it fits a 64-bit word. -/
def byteSize? (p : Padding) : Option Nat := do
  word? ((← (bodyLayout p).size?) + (4 + headerLayout.size))

/-! ## Writing -/

/-- The numbers of a padding in the order of the header. -/
def shapeNumbers (p : Padding) : List Nat :=
  [p.inputs, p.outputs.capacity, p.outputs.leafSize, p.commands.capacity, p.commands.leafSize,
   p.attachments, p.signers, p.references, p.utxoSize]

def headerValues : List Nat → Except WitnessError (List Value)
  | [] => .ok []
  | n :: ns =>
    if n < 2 ^ 32 then do return .unsigned .four (BitVec.ofNat _ n) :: (← headerValues ns)
    else .error (.malformed ("shape value " ++ toString n ++ " exceeds u32"))

def slotValue (leaf : Bytes) (nonce : Nonce) : Value := .struct [.bytes leaf, .bytes nonce.toBytes]

def bodyValue (w : Witness) : Value :=
  .struct (.bytes w.salt.bytes.toBytes ::
    w.groups.map (fun g => .list (List.zipWith slotValue g.leaves g.nonces)) ++
    [.list (w.inputUtxos.map fun u => slotValue u.bytes u.nonce),
     .list (w.referenceUtxos.map fun u => slotValue u.bytes u.nonce)])

def toBytes (w : Witness) : Except WitnessError Bytes := do
  let header ← headerValues (shapeNumbers w.padding)
  let head ← (headerLayout.encodeAt "witness.header" (.struct header)).mapError .layout
  let body ← ((bodyLayout w.padding).encodeAt "witness" (bodyValue w)).mapError .layout
  return Envelope.wrap (head ++ body)

/-! ## Reading -/

/-- The numbers of a header. -/
def headerNumbers? : Value → Option (List Nat)
  | .struct fields => fields.mapM fun
    | .unsigned .four n => some n.toNat
    | _ => none
  | _ => none

def paddingOfNumbers? : List Nat → Option Padding
  | [inputs, outputs, outputSize, commands, commandSize, attachments, signers, references, utxoSize] =>
    some ⟨inputs, ⟨outputs, outputSize⟩, ⟨commands, commandSize⟩, attachments, signers, references, utxoSize⟩
  | _ => none

/-- Content and nonce of a slot. -/
def slotOfValue? : Value → Option (Bytes × Nonce)
  | .struct [.bytes leaf, .bytes nonce] => do return (leaf, ← Digest.ofBytes? nonce)
  | _ => none

def slotsOfValue (what : String) : Value → Except WitnessError (List (Bytes × Nonce))
  | .list slots =>
    match slots.mapM slotOfValue? with
    | some l => .ok l
    | none => .error (.malformed what)
  | _ => .error (.malformed what)

def saltOfValue : Value → Except WitnessError PrivacySalt
  | .bytes b =>
    match (Digest.ofBytes? b).bind PrivacySalt.ofDigest? with
    | some salt => .ok salt
    | none => .error (.malformed "privacy salt")
  | _ => .error (.malformed "privacy salt")

/-- The groups of the given kinds, one value for each, and the values behind them. -/
def groupsOfValues : List GroupKind → List Value → Except WitnessError (List WitnessGroup × List Value)
  | [], vs => .ok ([], vs)
  | kind :: _, [] => .error (.malformed kind.name)
  | kind :: kinds, v :: vs => do
    let slots ← slotsOfValue kind.name v
    let (groups, rest) ← groupsOfValues kinds vs
    return (⟨kind, slots.map (·.1), slots.map (·.2)⟩ :: groups, rest)

def utxosOfValue (v : Value) : Except WitnessError (List Utxo) := do
  return (← slotsOfValue "utxos" v).map (fun (b, n) => ⟨b, n⟩)

def bodyOfValue (p : Padding) : Value → Except WitnessError Witness
  | .struct (salt :: parts) => do
    let salt ← saltOfValue salt
    let (groups, rest) ← groupsOfValues GroupKind.all parts
    match rest with
    | [inputs, references] => do
      let inputUtxos ← utxosOfValue inputs
      let referenceUtxos ← utxosOfValue references
      return ⟨p, salt, groups, inputUtxos, referenceUtxos⟩
    | _ => .error (.malformed "utxos")
  | _ => .error (.malformed "body")

def ofPayload (payload : Bytes) : Except WitnessError Witness :=
  if payload.length < headerLayout.size then
    .error (.malformed (toString payload.length ++ " bytes cannot hold the shape header"))
  else do
    let header ← (headerLayout.decode (payload.take headerLayout.size)).mapError .layout
    let body := payload.drop headerLayout.size
    match (headerNumbers? header).bind paddingOfNumbers? with
    | none => .error (.malformed "shape header")
    | some p =>
      if (bodyLayout p).size? ≠ some body.length then
        .error (.malformed (toString body.length ++ " body bytes do not match the shape header"))
      else do bodyOfValue p (← ((bodyLayout p).decode body).mapError .layout)

/-- The witness that all of `b` holds. -/
def ofBytes (b : Bytes) : Except WitnessError Witness := do
  ofPayload (← (Envelope.unwrap b).mapError .envelope)

end VeiledLedger.Witness
