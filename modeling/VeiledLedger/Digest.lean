/-
  VeiledLedger.Digest — 32-byte digests and the hash function as a parameter.

  Everything that hashes takes its hash function from the class `Hasher`: nothing but the
  width of a digest is assumed of it, so a statement about trees, views or records holds for
  any function into 32 bytes. The ledger itself runs on SHA-256.
-/

import VeiledLedger.Bytes

namespace VeiledLedger

/-- Leaf hashes, group roots, transaction ids and nonces are all digests. -/
structure Digest where
  toBytes : Bytes
  size : toBytes.length = 32
  deriving DecidableEq

abbrev Nonce := Digest
abbrev TransactionId := Digest

namespace Digest

/-- Any 32 bytes are a digest, nothing else is. -/
def ofBytes? (b : Bytes) : Option Digest := if h : b.length = 32 then some ⟨b, h⟩ else none

def zero : Digest := ⟨Bytes.zeros 32, Bytes.length_zeros 32⟩

/-- Digests are ordered as byte strings, first byte first. -/
def lt (x y : Digest) : Bool := x.toBytes < y.toBytes

/-- The distinct digests of `l` in ascending order. -/
def sortDistinct (l : List Digest) : List Digest :=
  (l.mergeSort (fun x y => !lt y x)).foldr (fun d r => if r.head? = some d then r else d :: r) []

@[simp] theorem ofBytes?_toBytes (d : Digest) : ofBytes? d.toBytes = some d := by
  simp [ofBytes?, d.size]

theorem ofBytes?_eq_some {b : Bytes} {d : Digest} : ofBytes? b = some d ↔ d.toBytes = b := by
  unfold ofBytes?
  split
  · simp only [Option.some.injEq]
    constructor
    · rintro rfl; rfl
    · rintro rfl; rfl
  · rename_i h
    simp only [reduceCtorEq, false_iff]
    rintro rfl
    exact h d.size

theorem toBytes_inj {x y : Digest} : x.toBytes = y.toBytes ↔ x = y := by
  constructor
  · intro h; cases x; cases y; simp_all
  · rintro rfl; rfl

end Digest

/-- The hash function of the ledger. -/
class Hasher where
  digest : Bytes → Digest

export Hasher (digest)

end VeiledLedger
