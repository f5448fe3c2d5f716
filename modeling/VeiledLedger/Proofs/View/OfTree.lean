/-
  VeiledLedger.Proofs.View.OfTree — the views of a tree that fits its padding.

  Whatever a disclosure shows of such a tree, the slots of the view keep the leaf hashes of
  the tree. So the view passes the check of its shape and rebuilds the id of the tree.

  Main statements: `checkShape_ofTree`, `verify_ofTree`.
-/

import VeiledLedger.Proofs.Tree
import VeiledLedger.Proofs.View.Shape
import VeiledLedger.View.Disclosure

namespace VeiledLedger.View

/-! ## The leaves under a disclosure -/

section
variable {d : Disclosure} {kind : GroupKind}

theorem length_maskLeaves : ∀ {i : Nat} {bs : List Bytes} {ns : List Nonce} {hs : List Digest},
    bs.length = ns.length → hs.length = ns.length → (maskLeaves d kind i bs ns hs).length = ns.length
  | _, [], [], _, _, _ => rfl
  | i, _ :: bs, _ :: ns, _ :: hs, hb, hh => by
    rw [maskLeaves, List.length_cons, List.length_cons, length_maskLeaves (by simpa using hb) (by simpa using hh)]

/-- Each slot shows its leaf and nonce, or its leaf hash. -/
theorem getElem?_maskLeaves {i j : Nat} {bs : List Bytes} {ns : List Nonce} {hs : List Digest} {l : Leaf}
    (hl : (maskLeaves d kind i bs ns hs)[j]? = some l) :
    ∃ b n h, bs[j]? = some b ∧ ns[j]? = some n ∧ hs[j]? = some h ∧
      l = if d.shows kind (i + j) then .visible b n else .hidden h := by
  fun_induction maskLeaves d kind i bs ns hs generalizing j with
  | case1 i b bs n ns h hs ih =>
    cases j with
    | zero => exact ⟨b, n, h, rfl, rfl, rfl, (Option.some.inj hl).symm⟩
    | succ j =>
      obtain ⟨b', n', h', hb, hn, hh, he⟩ := ih hl
      rw [Nat.add_right_comm] at he
      exact ⟨b', n', h', hb, hn, hh, he⟩
  | case2 => cases hl

theorem map_hash_maskLeaves [Hasher] : ∀ {i : Nat} {bs : List Bytes} {ns : List Nonce},
    (maskLeaves d kind i bs ns (List.zipWith leafHash ns bs)).map Leaf.hash = List.zipWith leafHash ns bs
  | _, [], _ => by simp [maskLeaves]
  | _, _ :: _, [] => by simp [maskLeaves]
  | i, b :: bs, n :: ns => by
    rw [List.zipWith_cons_cons, maskLeaves, List.map_cons, map_hash_maskLeaves]
    split <;> rfl

theorem shows_revealAll (kind : GroupKind) (i : Nat) : Disclosure.revealAll.shows kind i = true := by
  cases kind <;> rfl

end

/-! ## The view of a tree -/

variable [Hasher] {t : Tree} {p : Padding}

omit [Hasher] in
theorem ordered_ofTree (h : t.groups.map (·.kind) = GroupKind.all) (d : Disclosure) : (ofTree t d).Ordered := by
  unfold Ordered ofTree
  rw [← h, List.map_map]
  rfl

omit [Hasher] in
theorem group?_ofTree (h : t.groups.map (·.kind) = GroupKind.all) (d : Disclosure) (kind : GroupKind) :
    (ofTree t d).group? kind =
      (t.group? kind).map fun g => ⟨g.kind, maskLeaves d g.kind 0 g.leaves g.nonces g.leafHashes⟩ := by
  rw [(ordered_ofTree h d).group?, ofTree, List.getElem?_map]
  rfl

theorem groupRoots_ofTree (h : t.Fits p) (d : Disclosure) : (ofTree t d).groupRoots = t.groupRoots := by
  unfold groupRoots ofTree Tree.groupRoots
  rw [List.map_map]
  refine List.map_congr_left fun g hg => ?_
  have hfits := h.groups g hg
  simp only [Function.comp_apply, ViewGroup.root]
  rw [hfits.root, hfits.leafHashes, map_hash_maskLeaves]

theorem shaped_ofTree (h : t.Fits p) (d : Disclosure) : (ofTree t d).Shaped p := by
  refine ⟨ordered_ofTree h.kinds d, fun v hv => ?_, fun v hv b n hb => ?_⟩
  · obtain ⟨g, hg, rfl⟩ := List.mem_map.mp hv
    have hfits := h.groups g hg
    have hcount := hfits.count.trans hfits.nonces.symm
    have hhashes : g.leafHashes.length = g.nonces.length := by
      rw [hfits.leafHashes, List.length_zipWith, hcount, Nat.min_self]
    exact (length_maskLeaves hcount hhashes).trans hfits.nonces
  · obtain ⟨g, hg, rfl⟩ := List.mem_map.mp hv
    obtain ⟨j, hj⟩ := List.mem_iff_getElem?.mp hb
    obtain ⟨b', n', h', hb', -, -, he⟩ := getElem?_maskLeaves hj
    split at he
    · cases he
      exact (h.groups g hg).width _ (List.mem_of_getElem? hb')
    · cases he

theorem checkShape_ofTree (h : t.Fits p) (d : Disclosure) : (ofTree t d).checkShape p = .ok () :=
  checkShape_eq_ok.mpr (shaped_ofTree h d)

theorem verify_ofTree (h : t.Fits p) (d : Disclosure) : (ofTree t d).verify t.id = .ok () := by
  refine verify_eq_ok.mpr ⟨ordered_ofTree h.kinds d, ?_⟩
  rw [groupRoots_ofTree h d, h.id]
  rfl

end VeiledLedger.View
