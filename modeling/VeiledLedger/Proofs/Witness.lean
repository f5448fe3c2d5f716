/-
  VeiledLedger.Proofs.Witness — one transaction id, three ways to compute it.

  The builder of a tree, whoever holds a view of it, and whoever holds its witness compute the
  same id, since all of them start from the same leaf hashes. What the witness says of input
  and reference slots is what its lookup has found for their pointers, and filler behind it.

  Main statements: `root_stable`, `Witness.resolveSlots_eq_ok`, `Tree.mem_outputUtxos`.
-/

import VeiledLedger.Proofs.View.Binding
import VeiledLedger.Proofs.View.Pointers
import VeiledLedger.Witness.Format

namespace VeiledLedger

/-! ## Outputs under their pointers -/

namespace Tree

theorem mem_outputUtxos {t : Tree} {q : StatePointer} {u : Utxo} :
    (q, u) ∈ t.outputUtxos ↔ ∃ g i, t.group? .outputs = some g ∧ i < g.used ∧ g.leaves[i]? = some u.bytes ∧
      g.nonces[i]? = some u.nonce ∧ q = ⟨t.id, UInt32.ofNat i⟩ := by
  unfold outputUtxos
  cases t.group? .outputs with
  | none => simp
  | some g =>
    simp only [List.mem_map, Prod.exists, List.mem_zipIdx_iff_getElem?, Prod.mk.injEq, Option.some.injEq]
    constructor
    · rintro ⟨u', i, hi, rfl, rfl⟩
      rw [List.getElem?_take] at hi
      split at hi
      · rename_i hlt
        obtain ⟨b, n, hb, hn, he⟩ := List.getElem?_zipWith_eq_some.mp hi
        subst he
        exact ⟨g, i, rfl, hlt, hb, hn, rfl⟩
      · cases hi
    · rintro ⟨g', i, rfl, hlt, hb, hn, rfl⟩
      refine ⟨u, i, ?_, rfl, rfl⟩
      rw [List.getElem?_take, if_pos hlt]
      exact List.getElem?_zipWith_eq_some.mpr ⟨u.bytes, u.nonce, hb, hn, rfl⟩

theorem txId_of_mem_outputUtxos {t : Tree} {q : StatePointer} {u : Utxo} (h : (q, u) ∈ t.outputUtxos) :
    q.txId = t.id := by
  obtain ⟨g, i, -, -, -, -, rfl⟩ := mem_outputUtxos.mp h
  rfl

/-- Where all output slots have a number that fits a pointer, no pointer names two outputs. -/
theorem outputUtxos_unique [Hasher] {t : Tree} {p : Padding} (h : t.Fits p) (hcap : p.outputs.capacity < 2 ^ 32)
    {q : StatePointer} {u u' : Utxo} (hu : (q, u) ∈ t.outputUtxos) (hu' : (q, u') ∈ t.outputUtxos) : u = u' := by
  obtain ⟨g, i, hg, -, hb, hn, rfl⟩ := mem_outputUtxos.mp hu
  obtain ⟨g', j, hg', -, hb', hn', hq⟩ := mem_outputUtxos.mp hu'
  cases hg.symm.trans hg'
  have hcount : g.leaves.length = p.outputs.capacity := by
    rw [(h.groups g (List.mem_of_getElem? hg)).count, h.kind_of_group? hg]
    rfl
  have hi := (List.getElem?_eq_some_iff.mp hb).1
  have hj := (List.getElem?_eq_some_iff.mp hb').1
  have hij : i = j := by
    have hindex := congrArg (fun q => q.index.toNat) hq
    simp only [UInt32.toNat_ofNat'] at hindex
    omega
  subst hij
  cases u
  cases u'
  simp_all

end Tree

/-- Under the pointer of an output every view of its tree shows the hash of an output. It is
    the same output unless there are so many that their numbers do not fit a pointer. -/
theorem View.outputHash?_ofTree [Hasher] {t : Tree} {p : Padding} (h : t.Fits p) (d : Disclosure) {q : StatePointer}
    {u : Utxo} (hq : (q, u) ∈ t.outputUtxos) :
    ∃ u', (q, u') ∈ t.outputUtxos ∧ (View.ofTree t d).outputHash? q.index = some u'.hash := by
  obtain ⟨g, i, hg, hi, hb, hn, rfl⟩ := Tree.mem_outputUtxos.mp hq
  have hfits := h.groups g (List.mem_of_getElem? hg)
  have hle : i % 2 ^ 32 ≤ i := Nat.mod_le i _
  have hleaf : i % 2 ^ 32 < g.leaves.length := Nat.lt_of_le_of_lt hle (List.getElem?_eq_some_iff.mp hb).1
  have hnonce : i % 2 ^ 32 < g.nonces.length := Nat.lt_of_le_of_lt hle (List.getElem?_eq_some_iff.mp hn).1
  have hindex : (UInt32.ofNat i).toNat = i % 2 ^ 32 := UInt32.toNat_ofNat'
  have hsame : UInt32.ofNat i = UInt32.ofNat (i % 2 ^ 32) := by
    rw [← hindex, UInt32.ofNat_toNat]
  refine ⟨⟨g.leaves[i % 2 ^ 32], g.nonces[i % 2 ^ 32]⟩, ?_, ?_⟩
  · refine Tree.mem_outputUtxos.mpr ⟨g, i % 2 ^ 32, hg, by omega, ?_, ?_, by rw [hsame]⟩
    · exact List.getElem?_eq_getElem hleaf
    · exact List.getElem?_eq_getElem hnonce
  · rw [View.outputHash?, View.leafHash?_ofTree h, hg, Option.bind_some, hfits.leafHashes, hindex]
    refine List.getElem?_zipWith_eq_some.mpr ⟨_, _, ?_, ?_, rfl⟩
    · exact List.getElem?_eq_getElem hnonce
    · exact List.getElem?_eq_getElem hleaf

/-! ## Witnesses -/

namespace Witness

def Finds (lookup : UtxoLookup) (size : Nat) (q : StatePointer) (u : Utxo) : Prop :=
  lookup q = some u ∧ u.bytes.length = size

theorem resolveFrom_eq_ok {lookup : UtxoLookup} {kind : GroupKind} {size i : Nat} {qs : List StatePointer}
    {us : List Utxo} : resolveFrom lookup kind size i qs = .ok us ↔ List.Forall₂ (Finds lookup size) qs us := by
  refine Except.forall₂_of_steps (resolveFrom lookup kind size) (fun i => rfl) fun i q qs us => ?_
  rw [resolveFrom]
  cases hq : lookup q with
  | none => simp [Finds, hq]
  | some u =>
    by_cases hu : u.bytes.length = size
    · simp only [Finds, hq, hu, ne_eq, not_true_eq_false, if_false, Except.bind_eq_ok, Option.some.injEq]
      constructor
      · rintro ⟨rest, hrest, he⟩
        cases he
        exact ⟨u, rest, ⟨rfl, hu⟩, hrest, rfl⟩
      · rintro ⟨_, rest, ⟨rfl, -⟩, hrest, rfl⟩
        exact ⟨rest, hrest, rfl⟩
    · simp only [Finds, hq, ne_eq, hu, not_false_eq_true, if_true, reduceCtorEq, Option.some.injEq, false_iff]
      rintro ⟨_, _, ⟨rfl, hsize⟩, -⟩
      exact hu hsize

/-- What is found for the pointers, and filler in the other slots. -/
theorem resolveSlots_eq_ok {lookup : UtxoLookup} {kind : GroupKind} {size capacity : Nat} {qs : List StatePointer}
    {us : List Utxo} : resolveSlots lookup kind size capacity qs = .ok us ↔
      ∃ found, List.Forall₂ (Finds lookup size) qs found ∧
        us = found ++ List.replicate (capacity - qs.length) (Utxo.padding size) := by
  unfold resolveSlots
  simp only [Except.bind_eq_ok, resolveFrom_eq_ok, Bytes.copies_eq_replicate]
  constructor
  · rintro ⟨found, hfound, he⟩
    cases he
    exact ⟨found, hfound, rfl⟩
  · rintro ⟨found, hfound, rfl⟩
    exact ⟨found, hfound, rfl⟩

/-- Slots that were filled up are as many as there is room for. -/
theorem length_resolveSlots {lookup : UtxoLookup} {kind : GroupKind} {size capacity : Nat} {qs : List StatePointer}
    {us : List Utxo} (hcap : qs.length ≤ capacity) (h : resolveSlots lookup kind size capacity qs = .ok us) :
    us.length = capacity ∧ ∀ u ∈ us, u.bytes.length = size := by
  obtain ⟨found, hfound, rfl⟩ := resolveSlots_eq_ok.mp h
  constructor
  · rw [List.length_append, List.length_replicate, ← hfound.length_eq]
    omega
  · intro u hu
    rcases List.mem_append.mp hu with hu | hu
    · obtain ⟨i, hi, rfl⟩ := List.getElem_of_mem hu
      exact (hfound.get (hfound.length_eq ▸ hi) hi).2
    · rw [List.eq_of_mem_replicate hu]
      exact Bytes.length_zeros size

variable [Hasher] {t : Tree} {tx : Transaction} {r : Registry} {p p' : Padding} {lookup : UtxoLookup} {w : Witness}

omit [Hasher] in
theorem ofTree_eq_ok : ofTree t tx lookup p = .ok w ↔ ∃ inputs references,
    resolveSlots lookup .inputs p.utxoSize p.inputs tx.inputs = .ok inputs ∧
      resolveSlots lookup .references p.utxoSize p.references tx.references = .ok references ∧
      w = ⟨p, tx.salt, t.groups.map fun g => ⟨g.kind, g.leaves, g.nonces⟩, inputs, references⟩ := by
  unfold ofTree
  simp only [Except.bind_eq_ok]
  constructor
  · rintro ⟨inputs, hi, references, hr, he⟩
    cases he
    exact ⟨inputs, references, hi, hr, rfl⟩
  · rintro ⟨inputs, references, hi, hr, rfl⟩
    exact ⟨inputs, hi, references, hr, rfl⟩

theorem assemble_eq_ok : assemble tx r lookup p = .ok w ↔
    ∃ t, Tree.build tx r p = .ok t ∧ ofTree t tx lookup p = .ok w := by
  unfold assemble
  simp only [Except.bind_eq_ok, Except.mapError_eq_ok]

/-- The id is computed from leaves and nonces alone, so it is that of the tree they come from. -/
theorem transactionId_ofTree (h : t.Fits p) (hw : ofTree t tx lookup p' = .ok w) : w.transactionId = t.id := by
  obtain ⟨inputs, references, -, -, rfl⟩ := ofTree_eq_ok.mp hw
  rw [transactionId, h.id, List.map_map]
  congr 1
  refine List.map_congr_left fun g hg => ?_
  have hfits := h.groups g hg
  show merkleRoot (List.zipWith leafHash g.nonces g.leaves) = g.root
  rw [hfits.root, hfits.leafHashes]

end Witness

/-! ## The id of a built tree -/

/-- Whatever is disclosed of a built tree, and whatever its witness has looked up, the id and
    the group roots are those of the tree. -/
theorem root_stable [Hasher] {tx : Transaction} {r : Registry} {p : Padding} {t : Tree}
    (h : Tree.build tx r p = .ok t) :
    (∀ d : Disclosure, let v := View.ofTree t d
      v.root = .ok t.id ∧ v.verify t.id = .ok () ∧ v.groupRoots = t.groupRoots ∧ v.checkShape p = .ok ()) ∧
    ∀ (lookup : UtxoLookup) (w : Witness),
      Witness.ofTree t tx lookup p = .ok w ∨ Witness.assemble tx r lookup p = .ok w → w.transactionId = t.id := by
  have hfits := Tree.fits_of_build h
  constructor
  · intro d v
    have hroots := View.groupRoots_ofTree hfits d
    have horder := View.checkOrder_eq_ok.mpr (View.ordered_ofTree hfits.kinds d)
    have hroot : v.root = .ok t.id := by
      unfold View.root
      rw [horder, hroots, hfits.id]
      rfl
    exact ⟨hroot, View.verify_ofTree hfits d, hroots, View.checkShape_ofTree hfits d⟩
  · rintro lookup w (hw | hw)
    · exact Witness.transactionId_ofTree hfits hw
    · obtain ⟨t', ht', hw⟩ := Witness.assemble_eq_ok.mp hw
      cases h.symm.trans ht'
      exact Witness.transactionId_ofTree hfits hw

/-- One group is shown, and a slot that the tree does not have. -/
theorem oneInput_root : ∃ t v w, Tree.build View.oneInput .builtin .standard = .ok t ∧
    v = View.ofTree t ((Disclosure.hideAll.revealGroup .inputs).reveal .outputs 9) ∧
    Witness.ofTree t View.oneInput (fun _ => some (.padding 64)) .standard = .ok w ∧
    (v.root = .ok t.id ∧ v.verify t.id = .ok () ∧ v.groupRoots = t.groupRoots ∧ v.checkShape .standard = .ok ()) ∧
    w.transactionId = t.id := by
  obtain ⟨t, w, ht, hw⟩ : ∃ t w, Tree.build View.oneInput .builtin .standard = .ok t ∧
      Witness.ofTree t View.oneInput (fun _ => some (.padding 64)) .standard = .ok w := ⟨_, _, rfl, rfl⟩
  obtain ⟨hviews, hwitnesses⟩ := root_stable ht
  exact ⟨t, _, w, ht, rfl, hw, hviews _, hwitnesses _ _ (.inl hw)⟩

end VeiledLedger
