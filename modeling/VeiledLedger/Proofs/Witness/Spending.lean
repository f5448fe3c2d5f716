/-
  VeiledLedger.Proofs.Witness.Spending — which outputs can be spent.

  An output is looked up as wide as the padding makes it, and a slot of a witness takes it only
  if that is the width of the slot. The padding declares both widths, and nothing compares
  them: where they are equal every output of a ledger can be spent and referred to, and where
  they differ none of them can, although each can be issued.

  Main statements: `Witness.assemble_isOk`, `outputs_spendable`.
-/

import VeiledLedger.Proofs.Ledger.PublicInput

namespace VeiledLedger

/-! ## What a lookup offers -/

/-- The lookup finds an output of these trees under each of their pointers, and nothing else.
    Which one it finds is left open where a pointer names two. -/
structure Offers (lookup : UtxoLookup) (trees : List Tree) : Prop where
  finds : ∀ a ∈ trees, ∀ q u, (q, u) ∈ a.outputUtxos → ∃ u', lookup q = some u'
  found : ∀ q u, lookup q = some u → ∃ a ∈ trees, (q, u) ∈ a.outputUtxos

theorem offers_get? (trees : List Tree) : Offers (Assoc.get? (trees.flatMap Tree.outputUtxos)) trees where
  finds a ha _ _ hu := Assoc.exists_get?_of_mem (List.mem_flatMap.mpr ⟨a, ha, hu⟩)
  found _ _ hq := List.mem_flatMap.mp (Assoc.mem_of_get? hq)

section
variable [Hasher] {tx : Transaction} {r : Registry} {lookup : UtxoLookup} {p : Padding} {t : Tree}

/-- All outputs of a tree are as wide as its padding says. -/
theorem Tree.Fits.length_of_mem_outputUtxos (h : t.Fits p) {q : StatePointer} {u : Utxo}
    (hu : (q, u) ∈ t.outputUtxos) : u.bytes.length = p.outputs.leafSize := by
  obtain ⟨g, i, hg, -, hb, -, -⟩ := mem_outputUtxos.mp hu
  rw [(h.groups g (List.mem_of_getElem? hg)).width _ (List.mem_of_getElem? hb), h.kind_of_group? hg]
  rfl

/-! ## Slots -/

namespace Witness

omit [Hasher] in
theorem resolveSlots_isOk {kind : GroupKind} {size capacity : Nat} {qs : List StatePointer} :
    (∃ us, resolveSlots lookup kind size capacity qs = .ok us) ↔ ∀ q ∈ qs, ∃ u, Finds lookup size q u := by
  simp only [resolveSlots_eq_ok, ← exists_forall₂]
  constructor
  · rintro ⟨_, found, hfound, -⟩
    exact ⟨found, hfound⟩
  · rintro ⟨found, hfound⟩
    exact ⟨_, found, hfound, rfl⟩

/-- A transaction that can be built has a witness exactly if each of its pointers is found, at
    the width of a slot. -/
theorem assemble_isOk (ht : Tree.build tx r p = .ok t) :
    (∃ w, assemble tx r lookup p = .ok w) ↔ ∀ q ∈ tx.pointers, ∃ u, Finds lookup p.utxoSize q u := by
  rw [Transaction.pointers, List.forall_mem_append, ← resolveSlots_isOk, ← resolveSlots_isOk]
  constructor
  · rintro ⟨w, hw⟩
    obtain ⟨t', -, hw⟩ := assemble_eq_ok.mp hw
    obtain ⟨inputs, references, hi, hn, -⟩ := ofTree_eq_ok.mp hw
    exact ⟨⟨inputs, hi⟩, references, hn⟩
  · rintro ⟨⟨inputs, hi⟩, references, hn⟩
    exact ⟨_, assemble_eq_ok.mpr ⟨t, ht, ofTree_eq_ok.mpr ⟨inputs, references, hi, hn, rfl⟩⟩⟩

omit [Hasher] in
theorem resolveSlots_of_otherWidth {q : StatePointer} {u : Utxo} {kind : GroupKind} {size capacity : Nat}
    (hq : lookup q = some u) (hu : u.bytes.length ≠ size) (qs : List StatePointer) :
    resolveSlots lookup kind size capacity (q :: qs) = .error (.utxoWidth q size u.bytes.length) := by
  rw [resolveSlots, resolveFrom, hq]
  simp only [ne_eq, hu, not_false_eq_true, if_true]
  rfl

/-- The first pointer of a transaction is refused if what it names has another width. -/
theorem assemble_of_otherWidth (ht : Tree.build tx r p = .ok t) {q : StatePointer} {qs : List StatePointer} {u : Utxo}
    (hpointers : tx.pointers = q :: qs) (hq : lookup q = some u) (hu : u.bytes.length ≠ p.utxoSize) :
    assemble tx r lookup p = .error (.utxoWidth q p.utxoSize u.bytes.length) := by
  rw [assemble, ht]
  show ofTree t tx lookup p = _
  rw [ofTree]
  rcases List.append_eq_cons_iff.mp hpointers with ⟨hinputs, hreferences⟩ | ⟨rest, hinputs, -⟩
  · rw [hinputs, hreferences, resolveSlots_of_otherWidth hq hu]
    rfl
  · rw [hinputs, resolveSlots_of_otherWidth hq hu]
    rfl

end Witness

/-! ## A ledger under one padding -/

/-- If output slots and the slots of what is spent are equally wide, a transaction has a witness
    whichever outputs of the ledger it names. If they are not, none has that names any. -/
theorem outputs_spendable {trees : List Tree} (hbuilt : ∀ a ∈ trees, ∃ tx' r', Tree.build tx' r' p = .ok a)
    (hlookup : Offers lookup trees) (ht : Tree.build tx r p = .ok t)
    (hnamed : ∀ q ∈ tx.pointers, ∃ a ∈ trees, ∃ u, (q, u) ∈ a.outputUtxos) :
    (p.outputs.leafSize = p.utxoSize ∨ tx.pointers = [] → ∃ w, Witness.assemble tx r lookup p = .ok w) ∧
    ∀ q qs, p.outputs.leafSize ≠ p.utxoSize → tx.pointers = q :: qs →
      Witness.assemble tx r lookup p = .error (.utxoWidth q p.utxoSize p.outputs.leafSize) := by
  have hwidth : ∀ q ∈ tx.pointers, ∃ u, Witness.Finds lookup p.outputs.leafSize q u := by
    intro q hq
    obtain ⟨a, ha, u, hu⟩ := hnamed q hq
    obtain ⟨u', hu'⟩ := hlookup.finds a ha q u hu
    obtain ⟨a', ha', hmem⟩ := hlookup.found q u' hu'
    obtain ⟨tx', r', hbuild⟩ := hbuilt a' ha'
    exact ⟨u', hu', (Tree.fits_of_build hbuild).length_of_mem_outputUtxos hmem⟩
  constructor
  · rintro (hsize | hnone)
    · exact (Witness.assemble_isOk ht).mpr (hsize ▸ hwidth)
    · refine (Witness.assemble_isOk ht).mpr fun q hq => ?_
      rw [hnone] at hq
      cases hq
  · intro q qs hsize hpointers
    obtain ⟨u, hq, hu⟩ := hwidth q (hpointers ▸ List.mem_cons_self)
    rw [Witness.assemble_of_otherWidth ht hpointers hq (hu ▸ hsize), hu]

end

/-! ## One output -/

def oneOutput (utxoSize : Nat) : Padding := ⟨1, ⟨1, 36⟩, ⟨0, 8⟩, 0, 0, 0, utxoSize⟩

theorem issued_and_spent : ∃ a t, Tree.build issue .builtin (oneOutput 36) = .ok a ∧
    Tree.build (spending ⟨a.id, 0⟩) .builtin (oneOutput 36) = .ok t ∧
    ∃ w, Witness.assemble (spending ⟨a.id, 0⟩) .builtin (Assoc.get? a.outputUtxos) (oneOutput 36) = .ok w := by
  obtain ⟨a, u, t, ha, hu, ht⟩ : ∃ a u t, Tree.build issue .builtin (oneOutput 36) = .ok a ∧
      a.outputUtxos = [(⟨a.id, 0⟩, u)] ∧
      Tree.build (spending ⟨a.id, 0⟩) .builtin (oneOutput 36) = .ok t := ⟨_, _, _, rfl, rfl, rfl⟩
  have hbuilt : ∀ b ∈ [a], ∃ tx' r', Tree.build tx' r' (oneOutput 36) = .ok b := by
    intro b hb
    rw [List.mem_singleton.mp hb]
    exact ⟨_, _, ha⟩
  have hlookup : Offers (Assoc.get? a.outputUtxos) [a] := by
    simpa using offers_get? [a]
  have hnamed : ∀ q ∈ (spending ⟨a.id, 0⟩).pointers, ∃ b ∈ [a], ∃ u, (q, u) ∈ b.outputUtxos := by
    intro q hq
    rw [List.mem_singleton.mp hq]
    exact ⟨a, List.mem_cons_self, u, hu ▸ List.mem_cons_self⟩
  exact ⟨a, t, ha, ht, (outputs_spendable hbuilt hlookup ht hnamed).1 (.inl rfl)⟩

/-- A padding that is accepted, and an output that is issued under it and cannot be spent: the
    slot is four bytes too narrow. -/
theorem issued_never_spent : ∃ a t u, (oneOutput 32).validate = .ok () ∧
    Tree.build issue .builtin (oneOutput 32) = .ok a ∧ a.outputUtxos = [(⟨a.id, 0⟩, u)] ∧
    Offers (Assoc.get? a.outputUtxos) [a] ∧ Tree.build (spending ⟨a.id, 0⟩) .builtin (oneOutput 32) = .ok t ∧
    Witness.assemble (spending ⟨a.id, 0⟩) .builtin (Assoc.get? a.outputUtxos) (oneOutput 32) =
      .error (.utxoWidth ⟨a.id, 0⟩ 32 36) := by
  obtain ⟨a, u, t, ha, hu, hsize, ht⟩ : ∃ a u t, Tree.build issue .builtin (oneOutput 32) = .ok a ∧
      a.outputUtxos = [(⟨a.id, 0⟩, u)] ∧ u.bytes.length = 36 ∧
      Tree.build (spending ⟨a.id, 0⟩) .builtin (oneOutput 32) = .ok t := ⟨_, _, _, rfl, rfl, rfl, rfl⟩
  have hlookup : Offers (Assoc.get? a.outputUtxos) [a] := by
    simpa using offers_get? [a]
  have hq : Assoc.get? a.outputUtxos ⟨a.id, 0⟩ = some u := by
    rw [hu, Assoc.get?_cons, if_pos rfl]
  have hrefused := Witness.assemble_of_otherWidth ht rfl hq (by rw [hsize]; decide)
  rw [hsize] at hrefused
  exact ⟨a, t, u, rfl, ha, hu, hlookup, ht, hrefused⟩

end VeiledLedger
