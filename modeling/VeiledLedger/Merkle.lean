/-
  VeiledLedger.Merkle — leaf hashes, nonces and binary hash trees.

  A leaf is hashed behind its nonce, a node is the hash of its two children, and an odd node
  is paired with itself. A list of no leaves has a root of its own. A nonce is derived from
  the salt of the transaction and the place of the leaf, whose two numbers are written in
  32 bits each.
-/

import VeiledLedger.Digest
import VeiledLedger.Text.Utf8

namespace VeiledLedger

section
variable [Hasher]

def leafHash (nonce : Nonce) (leaf : Bytes) : Digest := digest (nonce.toBytes ++ leaf)

def nodeHash (left right : Digest) : Digest := digest (left.toBytes ++ right.toBytes)

def deriveNonce (salt : Bytes) (group leaf : Nat) : Nonce :=
  digest (salt ++ Bytes.ofNat 4 group ++ Bytes.ofNat 4 leaf)

/-- The tag whose hash is the root of a group without leaves. -/
def emptyGroupTag : String := "zk-tx/empty-component-group/v1"

def emptyGroupHash : Digest := digest (Text.Utf8.encode emptyGroupTag)

/-- The next level: neighbours joined in pairs, an odd last node with itself. -/
def joinPairs : List Digest → List Digest
  | x :: y :: rest => nodeHash x y :: joinPairs rest
  | [x] => [nodeHash x x]
  | [] => []

theorem length_joinPairs (l : List Digest) : (joinPairs l).length = (l.length + 1) / 2 := by
  fun_induction joinPairs l with
  | case1 x y rest ih => simp only [List.length_cons, ih]; omega
  | case2 x => simp
  | case3 => simp

def merkleRoot : List Digest → Digest
  | [] => emptyGroupHash
  | [x] => x
  | x :: y :: rest => merkleRoot (joinPairs (x :: y :: rest))
termination_by l => l.length
decreasing_by simp only [length_joinPairs, List.length_cons]; omega

/-- The id of a transaction: the hash of its group roots, one after another. -/
def transactionRoot (roots : List Digest) : TransactionId := digest (roots.flatMap Digest.toBytes)

end

end VeiledLedger
