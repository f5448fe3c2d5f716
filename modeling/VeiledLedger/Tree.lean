/-
  VeiledLedger.Tree — the padded groups of a transaction and its id.

  Each group is filled up to its capacity with leaves of zeros, every slot gets a nonce of
  its own, and the group's root is the hash tree over its leaf hashes. The transaction id is
  the hash of the nine roots.
-/

import VeiledLedger.Merkle
import VeiledLedger.Padding
import VeiledLedger.Registry.Wire

namespace VeiledLedger

/-- One padded group: the components first, then filler. -/
structure Group where
  kind : GroupKind
  leaves : List Bytes
  /-- How many leaves hold components. -/
  used : Nat
  nonces : List Nonce
  leafHashes : List Digest
  root : Digest
  deriving DecidableEq

inductive BuildError where
  | tooManyComponents (group : GroupKind) (capacity actual : Nat)
  | registry (cause : RegistryError)
  | layout (cause : LayoutError)
  deriving DecidableEq, Repr

namespace BuildError

def message : BuildError → String
  | tooManyComponents g c n =>
    g.name ++ " holds " ++ toString n ++ " components, capacity is " ++ toString c
  | registry cause => cause.message
  | layout cause => cause.message

def breaksDown : BuildError → Bool
  | tooManyComponents _ _ _ => false
  | registry cause => cause.breaksDown
  | layout cause => cause.breaksDown

end BuildError

namespace Group

/-- A leaf of zeros stands for an unused slot. -/
def isFiller (leaf : Bytes) : Bool := Bytes.isZero leaf

/-- Pads each component to the slot width; the first that is wider is refused. -/
def padLeaves (kind : GroupKind) (size i : Nat) : List Bytes → Except BuildError (List Bytes)
  | [] => .ok []
  | leaf :: leaves =>
    if size < leaf.length then
      .error (.layout (.misfit (kind.slotName i) (.overCapacity size leaf.length)))
    else do return Bytes.padTo size leaf :: (← padLeaves kind size (i + 1) leaves)

variable [Hasher]

/-- The group of the given leaves, one for each slot. -/
def ofLeaves (kind : GroupKind) (leaves : List Bytes) (used : Nat) (salt : Bytes) : Group :=
  let nonces := (List.range leaves.length).map (deriveNonce salt kind.index)
  let leafHashes := List.zipWith leafHash nonces leaves
  ⟨kind, leaves, used, nonces, leafHashes, merkleRoot leafHashes⟩

def build (kind : GroupKind) (components : List Bytes) (shape : Shape) (salt : Bytes) :
    Except BuildError Group :=
  if shape.capacity < components.length then
    .error (.tooManyComponents kind shape.capacity components.length)
  else do
    let leaves ← padLeaves kind shape.leafSize 0 components
    let filler := Bytes.copies (shape.capacity - components.length) fun _ => Bytes.zeros shape.leafSize
    return ofLeaves kind (leaves ++ filler) components.length salt

end Group

namespace Transaction

/-- The bytes of each item, the first of them called slot `i` of the group. -/
def serializeItems {α : Type} (serialize : String → α → Except RegistryError Bytes) (kind : GroupKind) (i : Nat) :
    List α → Except RegistryError (List Bytes)
  | [] => .ok []
  | x :: xs => do
    let first ← serialize (kind.slotName i) x
    return first :: (← serializeItems serialize kind (i + 1) xs)

/-- The serialized components of one group. -/
def components (tx : Transaction) (r : Registry) (kind : GroupKind) : Except RegistryError (List Bytes) :=
  match kind with
  | .inputs => serializeItems r.serializeComponent kind 0 tx.inputs
  | .outputs => serializeItems r.serializeAt kind 0 tx.outputs
  | .commands => serializeItems r.serializeAt kind 0 tx.commands
  | .attachments => serializeItems r.serializeComponent kind 0 tx.attachments
  | .notary => serializeItems r.serializeComponent kind 0 tx.notary.toList
  | .timeWindow => serializeItems r.serializeComponent kind 0 tx.timeWindow.toList
  | .signers => serializeItems r.serializeComponent kind 0 tx.signers
  | .references => serializeItems r.serializeComponent kind 0 tx.references
  | .parameters => serializeItems r.serializeComponent kind 0 tx.parameters.toList

end Transaction

/-- The nine groups of a transaction, in hashing order, and its id. -/
structure Tree where
  groups : List Group
  id : TransactionId
  deriving DecidableEq

namespace Tree

/-- The group of a kind. -/
def group? (t : Tree) (kind : GroupKind) : Option Group := t.groups[kind.index]?

def groupRoots (t : Tree) : List Digest := t.groups.map (·.root)

variable [Hasher]

def buildGroup (tx : Transaction) (r : Registry) (p : Padding) (kind : GroupKind) : Except BuildError Group := do
  let components ← (tx.components r kind).mapError .registry
  Group.build kind components (p.shape kind) tx.salt.bytes.toBytes

def buildGroups (tx : Transaction) (r : Registry) (p : Padding) : List GroupKind → Except BuildError (List Group)
  | [] => .ok []
  | kind :: kinds => do
    let first ← buildGroup tx r p kind
    return first :: (← buildGroups tx r p kinds)

/-- The tree of a transaction; the groups are built in hashing order. -/
def build (tx : Transaction) (r : Registry) (p : Padding) : Except BuildError Tree := do
  let groups ← buildGroups tx r p GroupKind.all
  return ⟨groups, transactionRoot (groups.map (·.root))⟩

end Tree

end VeiledLedger
