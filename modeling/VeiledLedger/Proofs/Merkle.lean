/-
  VeiledLedger.Proofs.Merkle — a root binds the leaves below it.

  The sizes of the levels depend on the number of leaves alone, so two trees over as many leaves
  have their nodes in the same places. If the leaves differ and the roots do not, some level
  differs and the one above it does not, and there a node is the same in both trees although
  different strings were hashed for it. Whatever the level, and also for an odd last node, such
  a string is two digests long. Both computations hash their strings in the same order, so the
  node is found by going through them side by side.

  Trees that differ in one leaf differ at most on the path from there to the root, so that is
  where the node lies if a single leaf was replaced.

  The number of leaves has to be the same. An odd last node is joined with itself, so the last of
  an odd number of leaves can be repeated without a change of the root, and the nodes of any
  level have, taken as leaves, the root of the tree they are from.

  Main statements: `merkleRoot_inj`, `root_binds_leaves`; on lists of different lengths
  `merkleRoot_repeat_last`, `merkleRoot_merkleLevel`.
-/

import Mathlib.Logic.Function.Iterate
import VeiledLedger.Digest.Sha256
import VeiledLedger.Merkle
import VeiledLedger.Proofs.Collision

namespace VeiledLedger

theorem exists_cons_cons_of_length {α : Type} {n : Nat} {l : List α} (h : n + 1 + 1 = l.length) :
    ∃ x y rest, l = x :: y :: rest := by
  obtain ⟨x, tail, rfl⟩ := List.exists_cons_of_length_eq_add_one h.symm
  obtain ⟨y, rest, rfl⟩ := List.exists_cons_of_length_eq_add_one (Nat.succ.inj h).symm
  exact ⟨x, y, rest, rfl⟩

/-! ## What is hashed for a level -/

section
variable {l l' : List Digest}

def pairStrings : List Digest → List Bytes
  | x :: y :: rest => (x.toBytes ++ y.toBytes) :: pairStrings rest
  | [x] => [x.toBytes ++ x.toBytes]
  | [] => []

theorem length_pairStrings (l : List Digest) : (pairStrings l).length = (l.length + 1) / 2 := by
  fun_induction pairStrings l with
  | case1 x y rest ih => simp only [List.length_cons, ih]; omega
  | case2 x => simp
  | case3 => simp

theorem length_pairStrings_congr (hlen : l.length = l'.length) :
    (pairStrings l).length = (pairStrings l').length := by
  rw [length_pairStrings, length_pairStrings, hlen]

/-- Two neighbours are hashed for a node, for an odd last one the same digest twice. -/
theorem getElem?_pairStrings (l : List Digest) (j : Nat) :
    (pairStrings l)[j]? = l[2 * j]?.map fun x => x.toBytes ++ (l[2 * j + 1]?.getD x).toBytes := by
  fun_induction pairStrings l generalizing j with
  | case1 x y rest ih =>
    cases j with
    | zero => rfl
    | succ j => exact ih j
  | case2 x =>
    cases j with
    | zero => rfl
    | succ j => rfl
  | case3 => rfl

theorem length_of_mem_pairStrings {s : Bytes} (h : s ∈ pairStrings l) : s.length = 64 := by
  obtain ⟨j, hj⟩ := List.mem_iff_getElem?.mp h
  rw [getElem?_pairStrings] at hj
  obtain ⟨x, -, rfl⟩ := Option.map_eq_some_iff.mp hj
  rw [List.length_append, x.size, Digest.size]

theorem pairStrings_inj (hlen : l.length = l'.length) (h : pairStrings l = pairStrings l') : l = l' := by
  fun_induction pairStrings l generalizing l' with
  | case1 x y rest ih =>
    obtain ⟨x', y', rest', rfl⟩ := exists_cons_cons_of_length hlen
    simp only [pairStrings, List.cons.injEq] at h
    obtain ⟨hx, hy⟩ := Digest.append_inj h.1
    rw [hx, Digest.toBytes_inj.mp hy, ih (by simpa using hlen) h.2]
  | case2 x =>
    obtain ⟨x', rfl⟩ := List.length_eq_one_iff.mp hlen.symm
    simp only [pairStrings, List.cons.injEq] at h
    rw [(Digest.append_inj h.1).1]
  | case3 => rw [List.length_eq_zero_iff.mp hlen.symm]

/-- What differs in one place is joined to what differs in half of that place. -/
theorem pairStrings_agree {i : Nat} (h : ∀ m ≠ i, l[m]? = l'[m]?) :
    ∀ m ≠ i / 2, (pairStrings l)[m]? = (pairStrings l')[m]? := by
  intro m hm
  rw [getElem?_pairStrings, getElem?_pairStrings, h (2 * m) (by omega), h (2 * m + 1) (by omega)]

end

section
variable [Hasher] {l l' : List Digest}

/-- The next level are the digests of these strings. -/
theorem map_digest_pairStrings (l : List Digest) : (pairStrings l).map digest = joinPairs l := by
  fun_induction pairStrings l with
  | case1 x y rest ih => rw [List.map_cons, ih]; rfl
  | case2 x => rfl
  | case3 => rfl

theorem getElem?_joinPairs (l : List Digest) (j : Nat) : (joinPairs l)[j]? = (pairStrings l)[j]?.map digest := by
  rw [← map_digest_pairStrings, List.getElem?_map]

theorem length_joinPairs_congr (hlen : l.length = l'.length) : (joinPairs l).length = (joinPairs l').length := by
  rw [length_joinPairs, length_joinPairs, hlen]

/-! ## Two computations side by side -/

/-- What is hashed on the way from some digests to their root. -/
def nodeStrings : List Digest → List Bytes
  | [] => []
  | [_] => []
  | x :: y :: rest => pairStrings (x :: y :: rest) ++ nodeStrings (joinPairs (x :: y :: rest))
termination_by l => l.length
decreasing_by simp only [length_joinPairs, List.length_cons]; omega

/-- Two different strings with the same digest stand in one place of both lists. -/
def CollidesInPlace (xs ys : List Bytes) : Prop := ∃ p ∈ xs.zip ys, p.1 ≠ p.2 ∧ digest p.1 = digest p.2

section
variable {xs ys xs' ys' : List Bytes}

theorem collidesInPlace_of_map_eq (h : xs.map digest = ys.map digest) (hne : xs ≠ ys) : CollidesInPlace xs ys := by
  have hdigest := forall₂_of_map_eq h
  by_contra hnone
  refine hne (List.forall₂_eq_eq_eq ▸ List.forall₂_iff_zip.mpr ⟨hdigest.length_eq, fun {x y} hmem => ?_⟩)
  by_contra hxy
  exact hnone ⟨(x, y), hmem, hxy, List.forall₂_zip hdigest hmem⟩

theorem CollidesInPlace.append_left (hlen : xs.length = ys.length) (h : CollidesInPlace xs ys) :
    CollidesInPlace (xs ++ xs') (ys ++ ys') := by
  obtain ⟨p, hp, hcollides⟩ := h
  exact ⟨p, List.zip_append hlen ▸ List.mem_append_left _ hp, hcollides⟩

theorem CollidesInPlace.append_right (hlen : xs'.length = ys'.length) (h : CollidesInPlace xs ys) :
    CollidesInPlace (xs' ++ xs) (ys' ++ ys) := by
  obtain ⟨p, hp, hcollides⟩ := h
  exact ⟨p, List.zip_append hlen ▸ List.mem_append_right _ hp, hcollides⟩

theorem CollidesInPlace.collides (h : CollidesInPlace xs ys) : Collides xs ys := by
  obtain ⟨⟨x, y⟩, hp, hcollides⟩ := h
  obtain ⟨hx, hy⟩ := List.of_mem_zip hp
  exact ⟨x, hx, y, hy, hcollides⟩

end

theorem joinPairs_collides (hlen : l.length = l'.length) (h : joinPairs l = joinPairs l') (hne : l ≠ l') :
    CollidesInPlace (pairStrings l) (pairStrings l') := by
  rw [← map_digest_pairStrings, ← map_digest_pairStrings] at h
  exact collidesInPlace_of_map_eq h fun hstrings => hne (pairStrings_inj hlen hstrings)

theorem merkleRoot_collides (hlen : l.length = l'.length) (h : merkleRoot l = merkleRoot l') (hne : l ≠ l') :
    CollidesInPlace (nodeStrings l) (nodeStrings l') := by
  fun_induction merkleRoot l generalizing l' with
  | case1 => exact absurd (List.length_eq_zero_iff.mp hlen.symm).symm hne
  | case2 x =>
    obtain ⟨x', rfl⟩ := List.length_eq_one_iff.mp hlen.symm
    rw [merkleRoot] at h
    exact absurd (by rw [h]) hne
  | case3 x y rest ih =>
    obtain ⟨x', y', rest', rfl⟩ := exists_cons_cons_of_length hlen
    rw [merkleRoot] at h
    rw [nodeStrings, nodeStrings]
    -- this level is the last that differs, or the next one differs too
    by_cases hjoin : joinPairs (x :: y :: rest) = joinPairs (x' :: y' :: rest')
    · exact (joinPairs_collides hlen hjoin hne).append_left (length_pairStrings_congr hlen)
    · exact (ih (length_joinPairs_congr hlen) h hjoin).append_right (length_pairStrings_congr hlen)

theorem merkleRoot_inj (hlen : l.length = l'.length) (h : merkleRoot l = merkleRoot l') :
    l = l' ∨ Collides (nodeStrings l) (nodeStrings l') := by
  by_cases hne : l = l'
  · exact .inl hne
  · exact .inr (merkleRoot_collides hlen h hne).collides

/-! ## Places in a tree -/

def merkleLevel (k : Nat) (l : List Digest) : List Digest := joinPairs^[k] l

/-- What is hashed for node `j` above level `k`. Nothing is above a single node. -/
def nodeString? (l : List Digest) (k j : Nat) : Option Bytes :=
  if 1 < (merkleLevel k l).length then (pairStrings (merkleLevel k l))[j]? else none

/-- Node `j` above level `k` is the digest of what is hashed for it. -/
theorem getElem?_merkleLevel {k j : Nat} {s : Bytes} (h : nodeString? l k j = some s) :
    (merkleLevel (k + 1) l)[j]? = some (digest s) := by
  unfold nodeString? at h
  split at h
  · rw [merkleLevel, Function.iterate_succ_apply', ← merkleLevel, getElem?_joinPairs, h]
    rfl
  · cases h

theorem length_of_nodeString? {k j : Nat} {s : Bytes} (h : nodeString? l k j = some s) : s.length = 64 := by
  unfold nodeString? at h
  split at h
  · exact length_of_mem_pairStrings (List.mem_of_getElem? h)
  · cases h

theorem length_merkleLevel_le_one (h : l.length ≤ 1) (k : Nat) : (merkleLevel k l).length ≤ 1 := by
  induction k generalizing l with
  | zero => exact h
  | succ k ih =>
    refine ih ?_
    rw [length_joinPairs]
    omega

theorem nodeString?_of_length_le_one (h : l.length ≤ 1) (k j : Nat) : nodeString? l k j = none :=
  if_neg (Nat.not_lt.mpr (length_merkleLevel_le_one h k))

/-- Side by side stands what is hashed in the same place of both trees. -/
theorem mem_zip_nodeStrings (hlen : l.length = l'.length) {x y : Bytes} :
    (x, y) ∈ (nodeStrings l).zip (nodeStrings l') ↔
      ∃ k j, nodeString? l k j = some x ∧ nodeString? l' k j = some y := by
  fun_induction nodeStrings l generalizing l' with
  | case1 => simp [nodeString?_of_length_le_one]
  | case2 d => simp [nodeString?_of_length_le_one]
  | case3 a b rest ih =>
    obtain ⟨a', b', rest', rfl⟩ := exists_cons_cons_of_length hlen
    have hleaves : (x, y) ∈ (pairStrings (a :: b :: rest)).zip (pairStrings (a' :: b' :: rest')) ↔
        ∃ j, nodeString? (a :: b :: rest) 0 j = some x ∧ nodeString? (a' :: b' :: rest') 0 j = some y := by
      simp only [List.mem_iff_getElem?, List.getElem?_zip_eq_some]
      rfl
    rw [nodeStrings, List.zip_append (length_pairStrings_congr hlen), List.mem_append, hleaves,
      ih (length_joinPairs_congr hlen)]
    exact Nat.or_exists_add_one (p := fun k => ∃ j, nodeString? (a :: b :: rest) k j = some x ∧
      nodeString? (a' :: b' :: rest') k j = some y)

/-- Trees whose leaves differ in one place differ at most on the path from there to the root. -/
theorem on_path_of_ne {i k j : Nat} (hlen : l.length = l'.length) (hleaves : ∀ m ≠ i, l[m]? = l'[m]?)
    (hne : nodeString? l k j ≠ nodeString? l' k j) : j = i / 2 ^ (k + 1) := by
  induction k generalizing l l' i with
  | zero =>
    by_contra hj
    have hstring : (pairStrings l)[j]? = (pairStrings l')[j]? := pairStrings_agree hleaves j (by simpa using hj)
    refine hne ?_
    show (if 1 < l.length then (pairStrings l)[j]? else none) = if 1 < l'.length then (pairStrings l')[j]? else none
    rw [hlen, hstring]
  | succ k ih =>
    have hjoin : ∀ m ≠ i / 2, (joinPairs l)[m]? = (joinPairs l')[m]? := by
      intro m hm
      rw [getElem?_joinPairs, getElem?_joinPairs, pairStrings_agree hleaves m hm]
    rw [ih (length_joinPairs_congr hlen) hjoin hne, Nat.div_div_eq_div_mul, ← Nat.pow_succ']

/-! ## Clashes -/

/-- Different strings were hashed for node `j` above level `k` of the two trees, and the node is
    the same. -/
structure NodeClash (l l' : List Digest) (k j : Nat) (x y : Bytes) : Prop where
  left : nodeString? l k j = some x
  right : nodeString? l' k j = some y
  nodes : (merkleLevel (k + 1) l)[j]? = some (digest x) ∧ (merkleLevel (k + 1) l')[j]? = some (digest y)
  width : x.length = 64 ∧ y.length = 64
  ne : x ≠ y
  digest_eq : digest x = digest y

theorem NodeClash.on_path {i k j : Nat} {x y : Bytes} (hclash : NodeClash l l' k j x y) (hlen : l.length = l'.length)
    (hleaves : ∀ m ≠ i, l[m]? = l'[m]?) : j = i / 2 ^ (k + 1) := by
  refine on_path_of_ne hlen hleaves ?_
  rw [hclash.left, hclash.right]
  exact fun h => hclash.ne (Option.some.inj h)

def nodeClash? (l l' : List Digest) : Option (Bytes × Bytes) :=
  ((nodeStrings l).zip (nodeStrings l')).find? fun p => p.1 ≠ p.2 ∧ digest p.1 = digest p.2

theorem CollidesInPlace.nodeClash? (hlen : l.length = l'.length)
    (h : CollidesInPlace (nodeStrings l) (nodeStrings l')) :
    ∃ k j x y, nodeClash? l l' = some (x, y) ∧ NodeClash l l' k j x y := by
  obtain ⟨p, hp, hcollides⟩ := h
  have hsome : (VeiledLedger.nodeClash? l l').isSome := List.find?_isSome.mpr ⟨p, hp, by simpa using hcollides⟩
  obtain ⟨⟨x, y⟩, hfound⟩ := Option.isSome_iff_exists.mp hsome
  obtain ⟨k, j, hx, hy⟩ := (mem_zip_nodeStrings hlen).mp (List.mem_of_find?_eq_some hfound)
  obtain ⟨hne, hdigest⟩ : x ≠ y ∧ digest x = digest y := by simpa using List.find?_some hfound
  exact ⟨k, j, x, y, hfound, hx, hy, ⟨getElem?_merkleLevel hx, getElem?_merkleLevel hy⟩,
    ⟨length_of_nodeString? hx, length_of_nodeString? hy⟩, hne, hdigest⟩

/-! ## Roots -/

/-- Another list of as many leaves has another root, or a node is found for which both trees
    have hashed different strings to one digest. If a single leaf was replaced, this node is on the
    path from the leaf to the root. -/
theorem root_binds_leaves (l : List Digest) :
    (∀ l' : List Digest, l.length = l'.length → merkleRoot l = merkleRoot l' →
      l = l' ∨ ∃ k j x y, nodeClash? l l' = some (x, y) ∧ NodeClash l l' k j x y) ∧
    ∀ i d e, l[i]? = some d → e ≠ d → merkleRoot l ≠ merkleRoot (l.set i e) ∨
      ∃ k x y, nodeClash? l (l.set i e) = some (x, y) ∧ NodeClash l (l.set i e) k (i / 2 ^ (k + 1)) x y := by
  have hbound (l' : List Digest) (hlen : l.length = l'.length) (hroot : merkleRoot l = merkleRoot l') :
      l = l' ∨ ∃ k j x y, nodeClash? l l' = some (x, y) ∧ NodeClash l l' k j x y := by
    by_cases hne : l = l'
    · exact .inl hne
    · exact .inr ((merkleRoot_collides hlen hroot hne).nodeClash? hlen)
  refine ⟨hbound, fun i d e hd he => ?_⟩
  by_cases hroot : merkleRoot l = merkleRoot (l.set i e)
  · have hlen : l.length = (l.set i e).length := List.length_set.symm
    rcases hbound _ hlen hroot with hl | ⟨k, j, x, y, hfound, hclash⟩
    · have hnew : l[i]? = some e := by
        rw [hl, List.getElem?_set_self (List.getElem?_eq_some_iff.mp hd).1]
      exact absurd (Option.some.inj (hnew.symm.trans hd)) he
    · have hpath : j = i / 2 ^ (k + 1) :=
        hclash.on_path hlen fun m hm => (List.getElem?_set_ne hm.symm).symm
      exact .inr ⟨k, x, y, hfound, hpath ▸ hclash⟩
  · exact .inl hroot

end

abbrev firstBytes : Hasher :=
  ⟨fun b => ⟨Bytes.padTo 32 (b.take 32), Bytes.length_padTo (List.length_take_le 32 b)⟩⟩

def Digest.one : Digest := ⟨Bytes.zeros 31 ++ [1], rfl⟩

def threeLeaves : List Digest := [.zero, .zero, .zero]

/-- The last of three leaves is replaced. With SHA-256 no node is found, so the root changes. With
    a hash function that keeps one child of every node the root stays, and a node is found. -/
theorem threeLeaves_bound :
    (threeLeaves[2]? = some .zero ∧ nodeClash? threeLeaves (threeLeaves.set 2 .one) = none ∧
      merkleRoot threeLeaves ≠ merkleRoot (threeLeaves.set 2 .one)) ∧
    letI := firstBytes
    threeLeaves.length = (threeLeaves.set 2 .one).length ∧
      merkleRoot threeLeaves = merkleRoot (threeLeaves.set 2 .one) ∧
      ∃ k j x y, nodeClash? threeLeaves (threeLeaves.set 2 .one) = some (x, y) ∧
        NodeClash threeLeaves (threeLeaves.set 2 .one) k j x y := by
  have hone : Digest.one ≠ .zero := by decide
  refine ⟨?_, ?_⟩
  · have hnone : nodeClash? threeLeaves (threeLeaves.set 2 .one) = none := by
      simp only [nodeClash?, threeLeaves, List.set, nodeStrings, pairStrings, joinPairs]
      decide +kernel
    rcases (root_binds_leaves threeLeaves).2 2 .zero .one rfl hone with hroot | ⟨k, x, y, hfound, -⟩
    · exact ⟨rfl, hnone, hroot⟩
    · cases hnone.symm.trans hfound
  · let _ := firstBytes
    have hroot : merkleRoot threeLeaves = merkleRoot (threeLeaves.set 2 .one) := by
      simp only [threeLeaves, List.set, merkleRoot, joinPairs]
      decide
    have hne : threeLeaves ≠ threeLeaves.set 2 .one := by decide
    exact ⟨rfl, hroot, ((root_binds_leaves threeLeaves).1 (threeLeaves.set 2 .one) rfl hroot).resolve_left hne⟩

/-! ## Lists of different lengths -/

section
variable [Hasher] {l : List Digest}

theorem merkleRoot_joinPairs : ∀ {l : List Digest}, 1 < l.length → merkleRoot (joinPairs l) = merkleRoot l
  | _ :: _ :: _, _ => by rw [merkleRoot]

/-- Up to the root, every level has the root of the one below. -/
theorem merkleRoot_merkleLevel {k : Nat} (h : 1 < (merkleLevel k l).length) :
    merkleRoot (merkleLevel (k + 1) l) = merkleRoot l := by
  induction k generalizing l with
  | zero => exact merkleRoot_joinPairs h
  | succ k ih =>
    have hleaves : 1 < l.length := by
      by_contra hle
      exact Nat.not_lt.mpr (length_merkleLevel_le_one (Nat.not_lt.mp hle) (k + 1)) h
    exact (ih h).trans (merkleRoot_joinPairs hleaves)

theorem joinPairs_repeat_last (x : Digest) (heven : l.length % 2 = 0) :
    joinPairs (l ++ [x, x]) = joinPairs (l ++ [x]) := by
  fun_induction joinPairs l with
  | case1 a b rest ih =>
    have hrest : rest.length % 2 = 0 := by
      simp only [List.length_cons] at heven
      omega
    simp only [List.cons_append, joinPairs, ih hrest]
  | case2 a => cases heven
  | case3 => rfl

/-- The last of an odd number of leaves may as well be there twice. -/
theorem merkleRoot_repeat_last (x : Digest) (heven : l.length % 2 = 0) (hne : l ≠ []) :
    merkleRoot (l ++ [x, x]) = merkleRoot (l ++ [x]) := by
  have hpos := List.length_pos_iff.mpr hne
  have hodd : 1 < (l ++ [x]).length := by
    rw [List.length_append, List.length_singleton]
    omega
  have htwice : 1 < (l ++ [x, x]).length := by
    rw [List.length_append, List.length_cons, List.length_singleton]
    omega
  rw [← merkleRoot_joinPairs htwice, joinPairs_repeat_last x heven, merkleRoot_joinPairs hodd]

end

end VeiledLedger
