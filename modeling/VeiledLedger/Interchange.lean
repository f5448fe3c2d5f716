/-
  VeiledLedger.Interchange — what members of a ledger exchange, as JSON.

  Digests and byte strings are hexadecimal strings, groups and leaf kinds are named by words,
  and structures are objects. A leaf is told apart by its field `kind`, which may stand
  anywhere in it, so the other fields are read before their meaning is known.
-/

import VeiledLedger.Config
import VeiledLedger.Json.Decoder
import VeiledLedger.Ledger.Record
import VeiledLedger.View.Disclosure

namespace VeiledLedger.Interchange

open Json

/-! ## Writing -/

def hex (b : Bytes) : Datum := .string (Text.Hex.encode b)

def digest (d : Digest) : Datum := hex d.toBytes

def natural (n : Nat) : Datum := .integer n

def statePointer (p : StatePointer) : Datum := .object [("tx_id", digest p.txId), ("index", natural p.index.toNat)]

def party (p : Party) : Datum := .object [("name", .string p.name), ("key", digest p.key)]

def timeBound : Option Int64 → Datum
  | some t => .integer t.toInt
  | none => .null

def timeWindow (w : TimeWindow) : Datum :=
  .object [("from_millis", timeBound w.start), ("until_millis", timeBound w.stop)]

def shape (s : Shape) : Datum := .object [("capacity", natural s.capacity), ("leaf_len", natural s.leafSize)]

def padding (p : Padding) : Datum :=
  .object [("inputs", natural p.inputs), ("outputs", shape p.outputs), ("commands", shape p.commands),
    ("attachments", natural p.attachments), ("signers", natural p.signers), ("references", natural p.references),
    ("utxo_leaf_len", natural p.utxoSize)]

def leaf : Leaf → Datum
  | .visible b nonce => .object [("kind", .string "visible"), ("bytes", hex b), ("nonce", digest nonce)]
  | .hidden d => .object [("kind", .string "hidden"), ("hash", digest d)]

def group (g : ViewGroup) : Datum := .object [("kind", .string g.kind.name), ("leaves", .array (g.leaves.map leaf))]

def view (v : View) : Datum := .array (v.groups.map group)

def published (p : Published) : Datum :=
  .object [("id", digest p.id), ("proof", hex p.proof), ("padding", padding p.padding), ("groups", view p.view)]

def digests (l : List Digest) : Datum := .array (l.map digest)

def record (r : Record) : Datum :=
  .object [("id", digest r.id), ("root", digest r.root), ("group_hashes", digests r.groupRoots),
    ("proof_valid", .bool r.proofValid)]

def config (c : Config) : Datum := .object [("padding", padding c.padding), ("backend_timeout_ms", natural c.timeout)]

mutual

/-- A description of a layout. -/
def layout : Layout → Datum
  | .bool => .string "bool"
  | .unsigned w => .string (Layout.unsigned w).name
  | .signed w => .string (Layout.signed w).name
  | .exactBytes n => .object [("exact_bytes", natural n)]
  | .bytes c => .object [("bytes", natural c)]
  | .string .latin1 c => .object [("ascii", natural c)]
  | .string .utf8 c => .object [("utf8", natural c)]
  | .list c e => .object [("list", .array [natural c, layout e])]
  | .exactList n e => .object [("exact_list", .array [natural n, layout e])]
  | .nullable e => .object [("nullable", layout e)]
  | .struct fs => .object [("struct", .array (layoutFields fs))]

def layoutFields : List (String × Layout) → List Datum
  | [] => []
  | (name, t) :: fs => .array [.string name, layout t] :: layoutFields fs

end

/-! ## Reading -/

def bytesOf? (s : String) : Option Bytes := (Text.Hex.decode s).toOption

/-- The value of a field of one of the structures. -/
inductive Part where
  | number (n : Nat)
  | shape (s : Shape)
  | padding (p : Padding)
  | digest (d : Digest)
  | bytes (b : Bytes)
  | kind (k : GroupKind)
  | leaves (l : List Leaf)
  | view (v : View)

/-- A structure of known fields, put together from their values. -/
def structured {α : Type} (fields : List (Decoder.Field Part)) (build : List Part → Option α) : Decoder α := do
  match build (← Decoder.fields fields) with
  | some x => return x
  | none => Decoder.fail .misshapen

def numberField (name : String) : Decoder.Field Part := { name, read := Part.number <$> Decoder.natural }

def readShape : Decoder Shape :=
  structured [numberField "capacity", numberField "leaf_len"] fun
    | [.number capacity, .number leafSize] => some ⟨capacity, leafSize⟩
    | _ => none

def shapeField (name : String) : Decoder.Field Part := { name, read := Part.shape <$> readShape }

def readPadding : Decoder Padding :=
  structured [numberField "inputs", shapeField "outputs", shapeField "commands", numberField "attachments",
      numberField "signers", numberField "references", numberField "utxo_leaf_len"] fun
    | [.number inputs, .shape outputs, .shape commands, .number attachments, .number signers, .number references,
        .number utxoSize] => some ⟨inputs, outputs, commands, attachments, signers, references, utxoSize⟩
    | _ => none

def readConfig : Decoder Config :=
  structured [{ name := "padding", read := Part.padding <$> readPadding, fallback := some (.padding .standard) },
      { name := "backend_timeout_ms", read := Part.number <$> Decoder.natural,
        fallback := some (.number Config.standard.timeout) }] fun
    | [.padding p, .number timeout] => some ⟨p, timeout⟩
    | _ => none

/-- A word that names a group, or an object with that word over null. -/
def readKind : Decoder GroupKind := do
  match ← Decoder.peek with
  | some (.string _) => Decoder.meaning GroupKind.ofName?
  | some .openObject => do
    Decoder.drop
    let kind ← Decoder.meaning GroupKind.ofName?
    Decoder.expect .colon
    if (← Decoder.peek) = some .null then Decoder.drop else Decoder.wrong
    Decoder.expect .closeObject
    return kind
  | _ => Decoder.fail .malformed

inductive LeafKind where
  | visible
  | hidden

def leafKind? : String → Option LeafKind
  | "visible" => some .visible
  | "hidden" => some .hidden
  | _ => none

def leafOfValues? : LeafKind → List Datum → Option Leaf
  | .visible, [.string b, .string nonce] => do return .visible (← bytesOf? b) (← Digest.ofHex? nonce)
  | .hidden, [.string hash] => do return .hidden (← Digest.ofHex? hash)
  | _, _ => none

/-- The only member of a name. -/
def onlyMember? (members : List (String × Datum)) (name : String) : Option Datum :=
  match members.filter (·.1 = name) with
  | [(_, v)] => some v
  | _ => none

def leafOfMembers? (kind : LeafKind) (members : List (String × Datum)) : Option Leaf :=
  match kind with
  | .visible => do leafOfValues? kind [← onlyMember? members "bytes", ← onlyMember? members "nonce"]
  | .hidden => do leafOfValues? kind [← onlyMember? members "hash"]

/-- Text may have 127 brackets inside each other; five of them are around what a leaf holds. -/
def leafRoom : Nat := 122

def leafMember (name : String) (s : Option LeafKind × List (String × Datum)) :
    Decoder (Option LeafKind × List (String × Datum)) := do
  if name = "kind" then
    if s.1.isSome then Decoder.fail .misshapen
    else do
      Decoder.expect .colon
      let kind ← Decoder.meaning leafKind?
      return (some kind, s.2)
  else do
    Decoder.expect .colon
    let v ← Decoder.datum leafRoom
    return (s.1, s.2 ++ [(name, v)])

def orMisshapen {α : Type} : Option α → Decoder α
  | some x => return x
  | none => Decoder.fail .misshapen

/-- An object, or an array that begins with the kind. -/
def readLeaf : Decoder Leaf := do
  match ← Decoder.peek with
  | some .openObject => do
    Decoder.drop
    let (kind, members) ← Decoder.members leafMember (none, [])
    match kind with
    | some kind => orMisshapen (leafOfMembers? kind members)
    | none => Decoder.fail .misshapen
  | some .openArray => do
    Decoder.drop
    match ← Decoder.peek with
    | some .closeArray => Decoder.fail .misshapen
    | _ => do
      let kind ← Decoder.meaning leafKind?
      let values ← fun ts => Decoder.itemsFrom (Decoder.datum leafRoom) (ts.length + 1) false ts
      orMisshapen (leafOfValues? kind values)
  | _ => Decoder.wrong

def readGroup : Decoder ViewGroup :=
  structured [{ name := "kind", read := Part.kind <$> readKind },
      { name := "leaves", read := Part.leaves <$> Decoder.array readLeaf }] fun
    | [.kind kind, .leaves leaves] => some ⟨kind, leaves⟩
    | _ => none

def readView : Decoder View := View.mk <$> Decoder.array readGroup

def readDigests : Decoder (List Digest) := Decoder.array (Decoder.meaning Digest.ofHex?)

def readPublished : Decoder Published :=
  structured [{ name := "id", read := Part.digest <$> Decoder.meaning Digest.ofHex? },
      { name := "proof", read := Part.bytes <$> Decoder.meaning bytesOf? },
      { name := "padding", read := Part.padding <$> readPadding },
      { name := "groups", read := Part.view <$> readView }] fun
    | [.digest id, .bytes proof, .padding padding, .view view] => some ⟨id, proof, padding, view⟩
    | _ => none

end VeiledLedger.Interchange

namespace VeiledLedger

def Published.ofJson (text : String) : Except Json.Fault Published := Interchange.readPublished.all text

/-- The configuration that a text describes, if its padding can be used. -/
def Config.ofJson (text : String) : Except ConfigError Config :=
  match Interchange.readConfig.all text with
  | .error _ => .error .badJson
  | .ok c =>
    match c.padding.validate with
    | .ok () => .ok c
    | .error defect => .error (.ofDefect defect)

/-- The configuration in a file, given the content of the file if it can be read. -/
def Config.ofFile : (content : Option String) → Except ConfigError Config
  | none => .error .unreadable
  | some text => Config.ofJson text

end VeiledLedger
