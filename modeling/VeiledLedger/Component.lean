/-
  VeiledLedger.Component — the builtin parts of a transaction.

  State pointers, digests, parties, time windows and signer keys have reserved type ids and
  fixed layouts. Each is turned into a value and back; a value of another form is no
  component.
-/

import VeiledLedger.Digest
import VeiledLedger.Layout.Misfit
import VeiledLedger.Layout.Value

namespace VeiledLedger

abbrev TypeId := UInt32

/-- Type ids up to this one are kept for the builtin components. -/
def reservedIds : TypeId := 15

/-- A key is 32 bytes long, as a digest is. -/
abbrev PublicKey := Digest

/-- Output `index` of transaction `txId`. -/
structure StatePointer where
  txId : TransactionId
  index : UInt32
  deriving DecidableEq

/-- An identity known to the ledger, used for the notary. -/
structure Party where
  name : String
  key : PublicKey
  deriving DecidableEq

/-- Validity in milliseconds since 1970; either end may be open. -/
structure TimeWindow where
  start : Option Int64
  stop : Option Int64
  deriving DecidableEq

structure Signer where
  key : PublicKey
  deriving DecidableEq

/-- A type with a reserved id and a fixed layout. Its components are read back from their values. -/
class Component (α : Type) where
  id : TypeId
  typeName : String
  layout : Layout
  toValue : α → Value
  ofValue? : Value → Option α
  ofValue?_toValue (c : α) : ofValue? (toValue c) = some c

namespace Component

/-- The component that `v` stands for, if it has the component's form. -/
def ofValue (α : Type) [Component α] (v : Value) : Except LayoutError α :=
  match ofValue? v with
  | some c => .ok c
  | none => .error (.misfit "" (.otherType (typeName α)))

end Component

def digestOfValue? : Value → Option Digest
  | .bytes b => Digest.ofBytes? b
  | _ => none

def boundToValue : Option Int64 → Value
  | none => .nullable none
  | some t => .nullable (some (.signed .eight t.toBitVec))

def boundOfValue? : Value → Option (Option Int64)
  | .nullable none => some none
  | .nullable (some (.signed .eight t)) => some (some ⟨⟨t⟩⟩)
  | _ => none

@[simp] theorem digestOfValue?_bytes (d : Digest) : digestOfValue? (.bytes d.toBytes) = some d :=
  Digest.ofBytes?_toBytes d

@[simp] theorem boundOfValue?_boundToValue (t : Option Int64) : boundOfValue? (boundToValue t) = some t := by
  cases t <;> rfl

instance : Component StatePointer where
  id := 1
  typeName := "zk_tx::StatePointer"
  layout := .struct [("tx_id", .exactBytes 32), ("index", .unsigned .four)]
  toValue p := .struct [.bytes p.txId.toBytes, .unsigned .four p.index.toBitVec]
  ofValue?
    | .struct [id, .unsigned .four index] => do return ⟨← digestOfValue? id, ⟨index⟩⟩
    | _ => none
  ofValue?_toValue p := by simp

instance : Component Digest where
  id := 2
  typeName := "zk_tx::SecureHash"
  layout := .exactBytes 32
  toValue d := .bytes d.toBytes
  ofValue? := digestOfValue?
  ofValue?_toValue := digestOfValue?_bytes

instance : Component Party where
  id := 3
  typeName := "zk_tx::Party"
  layout := .struct [("name", .string .utf8 64), ("key", .exactBytes 32)]
  toValue p := .struct [.string p.name, .bytes p.key.toBytes]
  ofValue?
    | .struct [.string name, key] => do return ⟨name, ← digestOfValue? key⟩
    | _ => none
  ofValue?_toValue p := by simp

instance : Component TimeWindow where
  id := 4
  typeName := "zk_tx::TimeWindow"
  layout := .struct [("from", .nullable (.signed .eight)), ("until", .nullable (.signed .eight))]
  toValue w := .struct [boundToValue w.start, boundToValue w.stop]
  ofValue?
    | .struct [start, stop] => do return ⟨← boundOfValue? start, ← boundOfValue? stop⟩
    | _ => none
  ofValue?_toValue w := by simp

instance : Component Signer where
  id := 5
  typeName := "zk_tx::SignerKey"
  layout := .exactBytes 32
  toValue s := .bytes s.key.toBytes
  ofValue? v := (digestOfValue? v).map Signer.mk
  ofValue?_toValue s := by simp

/-! ## Components as messages show them -/

namespace Digest

def hex (d : Digest) : String := Text.Hex.encode d.toBytes

def ofHex? (text : String) : Option Digest := (Text.Hex.decodeExactly 32 text).toOption.bind ofBytes?

@[simp] theorem ofHex?_hex (d : Digest) : ofHex? d.hex = some d := by
  simp [ofHex?, hex, Text.Hex.decodeExactly_encode d.size, Except.toOption]

theorem hex_inj {x y : Digest} : x.hex = y.hex ↔ x = y := by
  constructor
  · intro h
    have := ofHex?_hex x
    rw [h, ofHex?_hex] at this
    exact (Option.some.inj this).symm
  · rintro rfl; rfl

/-- The first eight bytes, as a short name. -/
def brief (d : Digest) : String := "SecureHash(" ++ Text.Hex.encode (d.toBytes.take 8) ++ ")"

end Digest

namespace StatePointer

def text (p : StatePointer) : String := p.txId.hex ++ "(" ++ toString p.index.toNat ++ ")"

def render (p : StatePointer) : String :=
  "StatePointer \x7b tx_id: " ++ p.txId.brief ++ ", index: " ++ toString p.index.toNat ++ " \x7d"

end StatePointer

namespace TimeWindow

def renderBound : Option Int64 → String
  | none => "None"
  | some t => "Some(" ++ toString t.toInt ++ ")"

def render (w : TimeWindow) : String :=
  "TimeWindow \x7b from_millis: " ++ renderBound w.start ++ ", until_millis: " ++ renderBound w.stop ++ " \x7d"

end TimeWindow

namespace Signer

def render (s : Signer) : String :=
  "SignerKey([" ++ String.intercalate ", " (s.key.toBytes.map (fun x => toString x.toNat)) ++ "])"

end Signer

end VeiledLedger
