/-
  VeiledLedger.Padding — the nine groups of a transaction and the room declared for them.

  Every group has a capacity and a slot width. Outputs and commands declare both; the other
  groups hold builtin components, whose width is known, and three of them have one slot. Two
  transactions with the same padding look alike in all their lengths.
-/

import VeiledLedger.Component

namespace VeiledLedger

/-- The groups in hashing order. -/
inductive GroupKind where
  | inputs
  | outputs
  | commands
  | attachments
  | notary
  | timeWindow
  | signers
  | references
  | parameters
  deriving DecidableEq, Repr

namespace GroupKind

def all : List GroupKind :=
  [inputs, outputs, commands, attachments, notary, timeWindow, signers, references, parameters]

/-- The place of a group in the hashing order. -/
def index : GroupKind → Nat
  | inputs => 0
  | outputs => 1
  | commands => 2
  | attachments => 3
  | notary => 4
  | timeWindow => 5
  | signers => 6
  | references => 7
  | parameters => 8

def name : GroupKind → String
  | inputs => "inputs"
  | outputs => "outputs"
  | commands => "commands"
  | attachments => "attachments"
  | notary => "notary"
  | timeWindow => "time_window"
  | signers => "signers"
  | references => "references"
  | parameters => "parameters"

def ofName? (name : String) : Option GroupKind := all.find? (·.name = name)

/-- How messages call slot `i` of the group. -/
def slotName (kind : GroupKind) (i : Nat) : String := kind.name ++ "[" ++ toString i ++ "]"

theorem all_getElem?_index (k : GroupKind) : all[k.index]? = some k := by cases k <;> rfl

end GroupKind

/-- The number of slots of a group and the width of each, the type id included. -/
structure Shape where
  capacity : Nat
  leafSize : Nat
  deriving DecidableEq, Repr

structure Padding where
  inputs : Nat
  outputs : Shape
  commands : Shape
  attachments : Nat
  signers : Nat
  references : Nat
  /-- The slot width of an output that is spent or referred to. -/
  utxoSize : Nat
  deriving DecidableEq, Repr

namespace Padding

/-- The padding of a ledger that declares none. -/
def standard : Padding where
  inputs := 2
  outputs := ⟨2, 64⟩
  commands := ⟨2, 32⟩
  attachments := 1
  signers := 2
  references := 1
  utxoSize := 64

/-- The width of a serialized builtin component. -/
def builtinSize (α : Type) [Component α] : Nat := 4 + (Component.layout α).size

def shape (p : Padding) : GroupKind → Shape
  | .inputs => ⟨p.inputs, builtinSize StatePointer⟩
  | .outputs => p.outputs
  | .commands => p.commands
  | .attachments => ⟨p.attachments, builtinSize Digest⟩
  | .notary => ⟨1, builtinSize Party⟩
  | .timeWindow => ⟨1, builtinSize TimeWindow⟩
  | .signers => ⟨p.signers, builtinSize Signer⟩
  | .references => ⟨p.references, builtinSize StatePointer⟩
  | .parameters => ⟨1, builtinSize Digest⟩

/-- What makes a padding unusable. -/
inductive Defect where
  /-- The slots of the group have no room behind the type id. -/
  | noRoom (group : GroupKind)
  | smallUtxo
  deriving DecidableEq, Repr

namespace Defect

def message : Defect → String
  | noRoom g => g.name ++ ".leaf_len must exceed the 4-byte serializer id"
  | smallUtxo => "utxo_leaf_len is too small"

end Defect

def validate (p : Padding) : Except Defect Unit :=
  if 0 < p.outputs.capacity ∧ p.outputs.leafSize ≤ 4 then .error (.noRoom .outputs)
  else if 0 < p.commands.capacity ∧ p.commands.leafSize ≤ 4 then .error (.noRoom .commands)
  else if p.utxoSize ≤ 4 then .error .smallUtxo
  else .ok ()

end Padding

end VeiledLedger
