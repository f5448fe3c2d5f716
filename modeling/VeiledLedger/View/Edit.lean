/-
  VeiledLedger.View.Edit — views that somebody has tampered with.

  An edit changes one thing of a view and does nothing where there is nothing to change.
  Groups are named by their place in the list.
-/

import VeiledLedger.View

namespace VeiledLedger

/-- A change of one leaf. -/
inductive LeafEdit where
  | replace (leaf : Leaf)
  /-- Only the leaf's own hash is left. -/
  | hide
  /-- The lowest bit of byte `i` of the content, or of the hash, is turned. -/
  | flip (i : Nat)
  | append (more : Bytes)
  | cut (size : Nat)

inductive ViewEdit where
  | dropGroup (g : Nat)
  | copyGroup (g : Nat)
  | swapGroups (g h : Nat)
  | popLeaf (g : Nat)
  | pushLeaf (g : Nat) (leaf : Leaf)
  | relabel (g : Nat) (kind : GroupKind)
  | leaf (g l : Nat) (edit : LeafEdit)

namespace LeafEdit

def flipByte (i : Nat) (b : Bytes) : Bytes := b.modify i (· ^^^ 1)

def flipDigest (i : Nat) (d : Digest) : Digest := ⟨flipByte i d.toBytes, by simp [flipByte, d.size]⟩

def apply [Hasher] : LeafEdit → Leaf → Leaf
  | replace l, _ => l
  | hide, l => .hidden l.hash
  | flip i, .visible b n => .visible (flipByte i b) n
  | flip i, .hidden d => .hidden (flipDigest i d)
  | append more, .visible b n => .visible (b ++ more) n
  | cut size, .visible b n => .visible (b.take size) n
  | _, l => l

end LeafEdit

namespace ViewEdit

def apply [Hasher] (v : View) : ViewEdit → View
  | dropGroup g => ⟨v.groups.eraseIdx g⟩
  | copyGroup g => ⟨v.groups ++ v.groups[g]?.toList⟩
  | swapGroups g h =>
    match v.groups[g]?, v.groups[h]? with
    | some x, some y => ⟨(v.groups.set g y).set h x⟩
    | _, _ => v
  | popLeaf g => ⟨v.groups.modify g (fun x => { x with leaves := x.leaves.dropLast })⟩
  | pushLeaf g l => ⟨v.groups.modify g (fun x => { x with leaves := x.leaves ++ [l] })⟩
  | relabel g kind => ⟨v.groups.modify g (fun x => { x with kind })⟩
  | leaf g l edit => ⟨v.groups.modify g (fun x => { x with leaves := x.leaves.modify l edit.apply })⟩

end ViewEdit

end VeiledLedger
