/-
  VeiledLedger.View — partial views of a tree.

  A view shows each slot either in full, with its nonce, or as its leaf hash alone. Whoever
  holds a view can rebuild every group root and the transaction id, so what is shown is
  known to be part of the transaction; the nonce of a hidden leaf is not disclosed, so its
  content cannot be guessed.
-/

import VeiledLedger.Tree

namespace VeiledLedger

inductive Leaf where
  | visible (bytes : Bytes) (nonce : Nonce)
  | hidden (hash : Digest)
  deriving DecidableEq

structure ViewGroup where
  kind : GroupKind
  leaves : List Leaf
  deriving DecidableEq

/-- A list of groups. A well-formed view has the nine groups in hashing order, but anyone may
    hand in any list. -/
structure View where
  groups : List ViewGroup
  deriving DecidableEq

inductive ViewError where
  | rootMismatch (claimed computed : TransactionId)
  | groupCount (expected actual : Nat)
  | groupOrder (position : Nat) (expected found : GroupKind)
  | slotCount (group : GroupKind) (capacity actual : Nat)
  | slotWidth (group : GroupKind) (index expected actual : Nat)
  | undisclosed (group : GroupKind) (index : Nat)
  | registry (cause : RegistryError)
  deriving DecidableEq

namespace ViewError

def message : ViewError → String
  | rootMismatch claimed computed => "root mismatch: claimed " ++ claimed.hex ++ ", recomputed " ++ computed.hex
  | groupCount e n => "filtered view has " ++ toString n ++ " groups, expected " ++ toString e
  | groupOrder i e f => "group at position " ++ toString i ++ " is " ++ f.name ++ ", expected " ++ e.name
  | slotCount g c n => g.name ++ " has " ++ toString n ++ " slots, declared capacity is " ++ toString c
  | slotWidth g i e n => g.slotName i ++ " is " ++ toString n ++ " bytes, declared slot width is " ++ toString e
  | undisclosed g i => g.slotName i ++ " is hidden"
  | registry cause => cause.message

def breaksDown : ViewError → Bool
  | registry cause => cause.breaksDown
  | _ => false

end ViewError

namespace Leaf

def bytes? : Leaf → Option Bytes
  | visible b _ => some b
  | hidden _ => none

def hash [Hasher] : Leaf → Digest
  | visible b nonce => leafHash nonce b
  | hidden d => d

end Leaf

namespace ViewGroup

def root [Hasher] (g : ViewGroup) : Digest := merkleRoot (g.leaves.map Leaf.hash)

end ViewGroup

namespace View

/-- Compares the groups from `position` on with the kinds expected there. -/
def checkKinds (position : Nat) : List ViewGroup → List GroupKind → Except ViewError Unit
  | g :: gs, kind :: kinds =>
    if g.kind = kind then checkKinds (position + 1) gs kinds else .error (.groupOrder position kind g.kind)
  | _, _ => .ok ()

/-- The nine groups stand in hashing order. -/
def checkOrder (v : View) : Except ViewError Unit :=
  if v.groups.length ≠ 9 then .error (.groupCount 9 v.groups.length)
  else checkKinds 0 v.groups GroupKind.all

/-- Every visible slot from `i` on has the declared width. -/
def checkWidths (kind : GroupKind) (size i : Nat) : List Leaf → Except ViewError Unit
  | [] => .ok ()
  | .visible b _ :: rest =>
    if b.length = size then checkWidths kind size (i + 1) rest else .error (.slotWidth kind i size b.length)
  | .hidden _ :: rest => checkWidths kind size (i + 1) rest

def checkGroup (p : Padding) (g : ViewGroup) : Except ViewError Unit :=
  let shape := p.shape g.kind
  if g.leaves.length = shape.capacity then checkWidths g.kind shape.leafSize 0 g.leaves
  else .error (.slotCount g.kind shape.capacity g.leaves.length)

def checkGroups (p : Padding) : List ViewGroup → Except ViewError Unit
  | [] => .ok ()
  | g :: gs => do
    checkGroup p g
    checkGroups p gs

/-- Slot counts and visible widths are those of the padding. -/
def checkShape (v : View) (p : Padding) : Except ViewError Unit := do
  v.checkOrder
  checkGroups p v.groups

/-- The group of a kind, if it stands at its place. -/
def group? (v : View) (kind : GroupKind) : Option ViewGroup :=
  match v.groups[kind.index]? with
  | some g => if g.kind = kind then some g else none
  | none => none

/-- The pointers in the leaves from slot `i` on; filler is passed over. -/
def readPointers (kind : GroupKind) (r : Registry) (i : Nat) : List Leaf → Except ViewError (List StatePointer)
  | [] => .ok []
  | .hidden _ :: _ => .error (.undisclosed kind i)
  | .visible b _ :: rest =>
    if Group.isFiller b then readPointers kind r (i + 1) rest
    else do
      let p ← (r.deserializeComponent StatePointer b).mapError .registry
      return p :: (← readPointers kind r (i + 1) rest)

/-- The pointers of a group that has to be visible. -/
def pointersOf (v : View) (kind : GroupKind) (r : Registry) : Except ViewError (List StatePointer) :=
  match v.group? kind with
  | none => .error (.groupCount 9 v.groups.length)
  | some g => readPointers kind r 0 g.leaves

/-- What is spent and then what is referred to, in slot order. -/
def pointers (v : View) (r : Registry) : Except ViewError (List StatePointer) := do
  let spent ← v.pointersOf .inputs r
  return spent ++ (← v.pointersOf .references r)

def dependencies (v : View) (r : Registry) : Except ViewError (List TransactionId) := do
  return Digest.sortDistinct ((← v.pointers r).map (·.txId))

variable [Hasher]

def groupRoots (v : View) : List Digest := v.groups.map ViewGroup.root

/-- The transaction id, rebuilt from what is shown. -/
def root (v : View) : Except ViewError TransactionId := do
  v.checkOrder
  return transactionRoot v.groupRoots

def verify (v : View) (claimed : TransactionId) : Except ViewError Unit := do
  let computed ← v.root
  if computed = claimed then return () else throw (.rootMismatch claimed computed)

def leafHash? (v : View) (kind : GroupKind) (i : Nat) : Option Digest := do
  return (← (← v.group? kind).leaves[i]?).hash

/-- The hash of output slot `i`: what later transactions commit to when they spend it. -/
def outputHash? (v : View) (i : UInt32) : Option Digest := v.leafHash? .outputs i.toNat

end View

end VeiledLedger
