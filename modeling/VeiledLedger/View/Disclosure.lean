/-
  VeiledLedger.View.Disclosure — which slots a recipient may see.

  Nothing is shown unless its group or its slot is revealed.
-/

import VeiledLedger.View

namespace VeiledLedger

structure Disclosure where
  groups : List GroupKind
  slots : List (GroupKind × Nat)

namespace Disclosure

def hideAll : Disclosure := ⟨[], []⟩

def revealGroup (d : Disclosure) (kind : GroupKind) : Disclosure := { d with groups := kind :: d.groups }

def reveal (d : Disclosure) (kind : GroupKind) (i : Nat) : Disclosure := { d with slots := (kind, i) :: d.slots }

def revealAll : Disclosure := GroupKind.all.foldl revealGroup hideAll

/-- What a verifier of a backchain gets to see: all that it needs to follow the pointers, but
    neither outputs, commands, attachments nor signers. -/
def forVerifier : Disclosure :=
  [GroupKind.inputs, .references, .notary, .timeWindow, .parameters].foldl revealGroup hideAll

def shows (d : Disclosure) (kind : GroupKind) (i : Nat) : Bool :=
  d.groups.contains kind || d.slots.contains (kind, i)

end Disclosure

namespace View

/-- The leaves from slot `i` on, each visible or hidden as `d` says. -/
def maskLeaves (d : Disclosure) (kind : GroupKind) (i : Nat) : List Bytes → List Nonce → List Digest → List Leaf
  | b :: bs, n :: ns, h :: hs =>
    (if d.shows kind i then .visible b n else .hidden h) :: maskLeaves d kind (i + 1) bs ns hs
  | _, _, _ => []

/-- The view of a tree under a disclosure. -/
def ofTree (t : Tree) (d : Disclosure) : View :=
  ⟨t.groups.map fun g => ⟨g.kind, maskLeaves d g.kind 0 g.leaves g.nonces g.leafHashes⟩⟩

end View

/-- What the prover hands to the network. -/
structure Published where
  id : TransactionId
  proof : Bytes
  padding : Padding
  view : View
  deriving DecidableEq

end VeiledLedger
