/-
  VeiledLedger.Proofs.Publication — what has been proved and published verifies.

  Transactions are published one after another. Each is proved with the outputs of those before
  it, and its view is added to what verifiers can read. The lookup of each prover thus holds
  the outputs of the trees before it and no others, so its verifiers rebuild the public input
  that was proved (`Ledger.PublicInput`), and the check of each passes if the backend accepts
  its own proofs. Pointers lead back in the order of publication, so they cannot be followed
  for ever, and a request comes to its end (`Backchain.Progress`).

  Main statement: `honest_ledger_verifies`.
-/

import Mathlib.Data.List.Nodup
import VeiledLedger.Proofs.Backchain.Identity
import VeiledLedger.Proofs.Ledger.PublicInput
import VeiledLedger.Proofs.Witness.Format
import VeiledLedger.Service

namespace VeiledLedger

open Relation

/-! ## Publishing -/

/-- Transactions and what their provers made of them, the latest first. -/
abbrev History := List (Transaction × Proved)

namespace History

def trees (h : History) : List Tree := h.map fun e => e.2.tree

def ids (h : History) : List TransactionId := h.map fun e => e.2.published.id

def utxos (h : History) : UtxoLookup := Assoc.get? (h.flatMap fun e => e.2.tree.outputUtxos)

def published (h : History) : Assoc TransactionId Published := h.map fun e => (e.2.published.id, e.2.published)

def source (h : History) : TransactionSource := fun id => .ok (h.published.get? id)

/-- An input or a reference of `a` names an output of `b`. -/
def Spends (h : History) (a b : TransactionId) : Prop :=
  ∃ tx e, (tx, e) ∈ h ∧ e.published.id = a ∧ ∃ q ∈ tx.pointers, q.txId = b

variable [Hasher]

/-- Proves a transaction with what has been published so far. -/
def publish (rules : Rules) (backend : Bytes → Except BackendError Bytes) (h : History) (tx : Transaction) :
    Except ServiceError History := do
  return (tx, ← rules.prove backend tx h.utxos) :: h

def publishAll (rules : Rules) (backend : Bytes → Except BackendError Bytes) :
    History → List Transaction → Except ServiceError History
  | h, [] => .ok h
  | h, tx :: txs => do publishAll rules backend (← publish rules backend h tx) txs

end History

section
variable [Hasher]

/-- The backend accepts each of its own proofs together with the public input of the witness. -/
def Complete (backend : Bytes → Except BackendError Bytes) (verify : Bytes → Bytes → Except BackendError Bool) : Prop :=
  ∀ w b proof, Witness.toBytes w = .ok b → backend b = .ok proof → verify proof w.publicInput.toBytes = .ok true

variable {rules : Rules} {backend : Bytes → Except BackendError Bytes}
  {verify : Bytes → Bytes → Except BackendError Bool} {tx : Transaction} {e : Proved}

theorem Rules.prove_eq_ok {lookup : UtxoLookup} : rules.prove backend tx lookup = .ok e ↔
    ∃ t w b proof, Tree.build tx rules.registry rules.padding = .ok t ∧
      Witness.ofTree t tx lookup rules.padding = .ok w ∧ w.toBytes = .ok b ∧ backend b = .ok proof ∧
      e = rules.publish t proof := by
  unfold Rules.prove Rules.prepareProof
  simp only [Except.bind_eq_ok, Except.mapError_eq_ok]
  constructor
  · rintro ⟨⟨t, b⟩, ⟨_, ht, w, hw, _, hb, he⟩, proof, hproof, hpublish⟩
    cases he
    cases hpublish
    exact ⟨t, w, b, proof, ht, hw, hb, hproof, rfl⟩
  · rintro ⟨t, w, b, proof, ht, hw, hb, hproof, rfl⟩
    exact ⟨(t, b), ⟨t, ht, w, hw, b, hb, rfl⟩, proof, hproof, rfl⟩

namespace History

/-! ## Each entry stands on those behind it -/

/-- Each transaction has been proved with the outputs of those behind it. -/
def Honest (rules : Rules) (backend : Bytes → Except BackendError Bytes) (h : History) : Prop :=
  ∀ tx e earlier, (tx, e) :: earlier <:+ h → rules.prove backend tx (utxos earlier) = .ok e

variable {h earlier : History}

theorem honest_nil : Honest rules backend [] := by
  intro tx e earlier hs
  cases List.suffix_nil.mp hs

theorem Honest.publish {h' : History} (hh : Honest rules backend h) (hp : publish rules backend h tx = .ok h') :
    Honest rules backend h' := by
  obtain ⟨e, he, hcons⟩ := Except.bind_eq_ok.mp hp
  cases hcons
  intro tx' e' earlier hs
  rcases List.suffix_cons_iff.mp hs with heq | hs
  · cases heq
    exact he
  · exact hh tx' e' earlier hs

theorem Honest.publishAll {txs : List Transaction} {h' : History} (hh : Honest rules backend h)
    (hp : publishAll rules backend h txs = .ok h') : Honest rules backend h' := by
  induction txs generalizing h with
  | nil =>
    cases hp
    exact hh
  | cons tx txs ih =>
    obtain ⟨next, hnext, hrest⟩ := Except.bind_eq_ok.mp hp
    exact ih (hh.publish hnext) hrest

theorem Honest.of_suffix (hh : Honest rules backend h) (hs : earlier <:+ h) : Honest rules backend earlier :=
  fun tx e before hb => hh tx e before (hb.trans hs)

omit [Hasher] in
theorem suffix_of_mem {x : Transaction × Proved} (hx : x ∈ h) : ∃ earlier, x :: earlier <:+ h := by
  obtain ⟨later, earlier, rfl⟩ := List.append_of_mem hx
  exact ⟨earlier, List.suffix_append ..⟩

/-- How an entry came about. -/
theorem Honest.entry (hh : Honest rules backend h) (hs : (tx, e) :: earlier <:+ h) :
    ∃ w b, Tree.build tx rules.registry rules.padding = .ok e.tree ∧
      Witness.ofTree e.tree tx (utxos earlier) rules.padding = .ok w ∧ w.toBytes = .ok b ∧
      backend b = .ok e.published.proof ∧ e = rules.publish e.tree e.published.proof := by
  obtain ⟨t, w, b, proof, ht, hw, hb, hproof, rfl⟩ := Rules.prove_eq_ok.mp (hh tx e earlier hs)
  exact ⟨w, b, ht, hw, hb, hproof, rfl⟩

theorem Honest.tree_and_published (hh : Honest rules backend h) (he : (tx, e) ∈ h) :
    Tree.build tx rules.registry rules.padding = .ok e.tree ∧ e = rules.publish e.tree e.published.proof := by
  obtain ⟨earlier, hs⟩ := suffix_of_mem he
  obtain ⟨w, b, ht, -, -, -, hpublish⟩ := hh.entry hs
  exact ⟨ht, hpublish⟩

theorem Honest.id_eq (hh : Honest rules backend h) (he : (tx, e) ∈ h) : e.published.id = e.tree.id := by
  rw [(hh.tree_and_published he).2]
  rfl

theorem Honest.fits (hh : Honest rules backend h) (he : (tx, e) ∈ h) : e.tree.Fits rules.padding :=
  Tree.fits_of_build (hh.tree_and_published he).1

theorem Honest.outputs_lt (hh : Honest rules backend h) (he : (tx, e) ∈ h) : rules.padding.outputs.capacity < 2 ^ 32 := by
  obtain ⟨earlier, hs⟩ := suffix_of_mem he
  obtain ⟨w, b, -, hw, hb, -, -⟩ := hh.entry hs
  obtain ⟨_, _, -, -, rfl⟩ := Witness.ofTree_eq_ok.mp hw
  exact Witness.numbers_lt_of_toBytes hb _ (by simp [Witness.shapeNumbers])

theorem Honest.pointers (hr : rules.registry.Built) (hh : Honest rules backend h) (he : (tx, e) ∈ h) :
    e.published.view.pointers rules.registry = .ok tx.pointers := by
  obtain ⟨ht, hpublish⟩ := hh.tree_and_published he
  rw [hpublish]
  exact View.pointers_ofTree hr ht

theorem transactions_of_publishAll {txs : List Transaction} {h' : History}
    (hp : publishAll rules backend h txs = .ok h') : h'.map Prod.fst = txs.reverse ++ h.map Prod.fst := by
  induction txs generalizing h with
  | nil =>
    cases hp
    rfl
  | cons tx txs ih =>
    obtain ⟨next, hnext, hrest⟩ := Except.bind_eq_ok.mp hp
    obtain ⟨e, -, hcons⟩ := Except.bind_eq_ok.mp hnext
    cases hcons
    rw [ih hrest, List.reverse_cons, List.append_assoc, List.map_cons, List.singleton_append]

/-! ## What is found under an id and under a pointer -/

omit [Hasher] in
theorem entry_unique (hd : h.ids.Nodup) {x y : Transaction × Proved} (hx : x ∈ h) (hy : y ∈ h)
    (hid : x.2.published.id = y.2.published.id) : x = y :=
  List.inj_on_of_nodup_map hd hx hy hid

omit [Hasher] in
theorem published_of_mem (hd : h.ids.Nodup) (he : (tx, e) ∈ h) :
    h.published.get? e.published.id = some e.published := by
  refine Assoc.get?_of_mem (List.mem_map.mpr ⟨(tx, e), he, rfl⟩) fun p hp => ?_
  obtain ⟨x, hx, hpair⟩ := List.mem_map.mp hp
  rw [Prod.mk.injEq] at hpair
  rw [← hpair.2, entry_unique hd hx he hpair.1]

omit [Hasher] in
variable (rules) in
def ledger (h : History) : Backchain.Ledger where
  registry := rules.registry
  content := h.published.get?
  id_content := by
    intro id p hp
    obtain ⟨x, -, hpair⟩ := List.mem_map.mp (Assoc.mem_of_get? hp)
    cases hpair
    rfl

variable (rules verify) in
def conditions (h : History) : Backchain.Conditions :=
  ⟨none, fun _ => none, rules.check verify h.source, none, none⟩

theorem source_of_mem (hd : h.ids.Nodup) (he : (tx, e) ∈ h) :
    (h.conditions rules verify).source (h.ledger rules) e.published.id = .ok (some e.published) :=
  Backchain.Conditions.source_eq_some.mpr ⟨rfl, published_of_mem hd he⟩

section
variable (hr : rules.registry.Built) (hc : Complete backend verify) (hh : Honest rules backend h) (hd : h.ids.Nodup)
include hh hd

theorem Honest.filled : Filled h.utxos h.trees := by
  intro q u
  constructor
  · intro hq
    obtain ⟨x, hx, hmem⟩ := List.mem_flatMap.mp (Assoc.mem_of_get? hq)
    exact ⟨x.2.tree, List.mem_map.mpr ⟨x, hx, rfl⟩, hmem⟩
  · rintro ⟨t, ht, hmem⟩
    obtain ⟨⟨tx, e⟩, he, rfl⟩ := List.mem_map.mp ht
    refine Assoc.get?_of_mem (List.mem_flatMap.mpr ⟨(tx, e), he, hmem⟩) fun u' hu' => ?_
    obtain ⟨⟨tx', e'⟩, he', hmem'⟩ := List.mem_flatMap.mp hu'
    have hid : e'.published.id = e.published.id := by
      rw [hh.id_eq he', hh.id_eq he, ← Tree.txId_of_mem_outputUtxos hmem', ← Tree.txId_of_mem_outputUtxos hmem]
    cases entry_unique hd he' he hid
    exact Tree.outputUtxos_unique (hh.fits he) (hh.outputs_lt he) hmem' hmem

theorem Honest.shown (hs : earlier <:+ h) : Shown h.source earlier.trees := by
  intro t ht
  obtain ⟨⟨tx, e⟩, he, rfl⟩ := List.mem_map.mp ht
  have hmem := hs.subset he
  refine ⟨e.published, .forVerifier, ?_, ?_⟩
  · rw [source, ← hh.id_eq hmem, published_of_mem hd hmem]
  · rw [(hh.tree_and_published hmem).2]
    rfl

/-- Whatever a prover has looked up, the network knows its hash. -/
theorem Honest.answers (hs : earlier <:+ h) {q : StatePointer} {u : Utxo} (hq : utxos earlier q = some u) :
    Answers h.source (utxos earlier) q := by
  have hbefore := hh.of_suffix hs
  have hfits : ∀ a ∈ trees earlier, ∃ p : Padding, a.Fits p := by
    intro a ha
    obtain ⟨⟨tx, e⟩, he, rfl⟩ := List.mem_map.mp ha
    exact ⟨rules.padding, hbefore.fits he⟩
  have hids : (ids earlier).Nodup := hd.sublist (hs.sublist.map _)
  exact answers_of_filled hfits (hbefore.filled hids) (hh.shown hd hs) hq

/-! ## Each transaction passes its check -/

include hr hc in
theorem Honest.check (he : (tx, e) ∈ h) :
    rules.check verify h.source e.published =
      .ok ⟨e.published.id, e.published.id, e.tree.groupRoots, true⟩ := by
  obtain ⟨earlier, hs⟩ := suffix_of_mem he
  obtain ⟨w, b, ht, hw, hb, hproof, hpublish⟩ := hh.entry hs
  have hfits := hh.fits he
  have hanswers : ∀ q ∈ tx.pointers, Answers h.source (utxos earlier) q := by
    intro q hq
    obtain ⟨u, hu⟩ := found_of_ofTree hw q hq
    exact hh.answers hd ((List.suffix_cons ..).trans hs) hu
  have hinput := publicInput_of_answers hr ht hw hanswers e.published.proof
  have hprepare : rules.prepare h.source e.published = .ok w.publicInput := by
    have hpadding : (rules.publish e.tree e.published.proof).published.padding = rules.padding := rfl
    rw [hpublish, Rules.prepare, if_neg (not_not.mpr hpadding)]
    refine Except.bind_eq_ok.mpr ⟨(), Except.mapError_eq_ok.mpr (View.checkShape_ofTree hfits _), ?_⟩
    refine Except.bind_eq_ok.mpr ⟨(), Except.mapError_eq_ok.mpr (View.verify_ofTree hfits _), ?_⟩
    exact hinput
  have hroots : e.published.view.groupRoots = e.tree.groupRoots := by
    rw [hpublish]
    exact View.groupRoots_ofTree hfits _
  refine Except.bind_eq_ok.mpr ⟨w.publicInput, hprepare, ?_⟩
  rw [hc w b _ hb hproof, Rules.conclude, hroots]

/-! ## The graph of pointers -/

include hr

theorem Honest.pointers? (he : (tx, e) ∈ h) : (h.ledger rules).pointers? e.published.id = some tx.pointers := by
  have hcontent : (h.ledger rules).content e.published.id = some e.published := published_of_mem hd he
  unfold Backchain.Ledger.pointers?
  rw [hcontent, Option.bind_some]
  show (e.published.view.pointers rules.registry).toOption = _
  rw [hh.pointers hr he]
  rfl

/-- A pointer leads to an entry further back. -/
theorem Honest.points_back (hs : (tx, e) :: earlier <:+ h) {id : TransactionId}
    (hp : (h.ledger rules).Points e.published.id id) :
    ∃ tx' e', (tx', e') ∈ earlier ∧ e'.published.id = id := by
  obtain ⟨ps, hps, q, hq, rfl⟩ := hp
  cases hps.symm.trans (hh.pointers? hr hd (hs.subset List.mem_cons_self))
  obtain ⟨w, b, -, hw, -⟩ := hh.entry hs
  obtain ⟨u, hu⟩ := found_of_ofTree hw q hq
  obtain ⟨⟨tx', e'⟩, he', hmem⟩ := List.mem_flatMap.mp (Assoc.mem_of_get? hu)
  have hafter : earlier <:+ h := (List.suffix_cons ..).trans hs
  refine ⟨tx', e', he', ?_⟩
  rw [hh.id_eq (hafter.subset he'), ← Tree.txId_of_mem_outputUtxos hmem]

/-- The order of publication is one in which pointers lead back, so they come to an end. -/
theorem Honest.grounded :
    ∀ {part : History}, part <:+ h → ∀ x ∈ part, (h.ledger rules).Grounded x.2.published.id
  | [], _ => fun x hx => (by cases hx)
  | (tx, e) :: earlier, hs => by
    have hback := Honest.grounded ((List.suffix_cons ..).trans hs)
    refine List.forall_mem_cons.mpr ⟨Acc.intro _ fun id hp => ?_, hback⟩
    obtain ⟨tx', e', he', rfl⟩ := hh.points_back hr hd hs hp
    exact hback (tx', e') he'

include hc in
theorem Honest.passes (he : (tx, e) ∈ h) : (h.conditions rules verify).Passes (h.ledger rules) e.published.id :=
  ⟨e.published, _, tx.pointers, source_of_mem hd he, hh.check hr hc hd he, hh.pointers hr he⟩

/-- Only entries are reached from an entry. -/
theorem Honest.reaches (he : (tx, e) ∈ h) {id : TransactionId}
    (hid : ReflTransGen (h.ledger rules).Points e.published.id id) :
    ∃ tx' e', (tx', e') ∈ h ∧ e'.published.id = id := by
  induction hid with
  | refl => exact ⟨tx, e, he, rfl⟩
  | tail _ hp ih =>
    obtain ⟨tx', e', he', rfl⟩ := ih
    obtain ⟨earlier, hs⟩ := suffix_of_mem he'
    obtain ⟨tx'', e'', he'', hid⟩ := hh.points_back hr hd hs hp
    exact ⟨tx'', e'', hs.subset (List.mem_cons_of_mem _ he''), hid⟩

include hc in
theorem Honest.verifiable (he : (tx, e) ∈ h) : (h.conditions rules verify).Verifiable (h.ledger rules) e.published.id := by
  refine ⟨fun id hid => ?_, (hh.grounded hr hd List.suffix_rfl _ he).not_reachesCycle⟩
  obtain ⟨tx', e', he', rfl⟩ := hh.reaches hr hd he hid
  exact hh.passes hr hc hd he'

theorem Honest.points_of_spends {a b : TransactionId} (hs : h.Spends a b) : (h.ledger rules).Points a b := by
  obtain ⟨tx, e, he, rfl, hq⟩ := hs
  exact ⟨tx.pointers, hh.pointers? hr hd he, hq⟩

end
end History

/-- If the backend accepts its own proofs, every transaction that has been published is verified
    with the id and the group roots of its tree, and then so are all its ancestors. -/
theorem honest_ledger_verifies (hr : rules.registry.Built) (hc : Complete backend verify) {txs : List Transaction}
    {h : History} (hp : History.publishAll rules backend [] txs = .ok h) (hd : h.ids.Nodup) :
    h.map Prod.fst = txs.reverse ∧ ∀ tx e, (tx, e) ∈ h →
      Tree.build tx rules.registry rules.padding = .ok e.tree ∧ e.published.id = e.tree.id ∧
      ∃ v σ, Backchain.Answered (h.ledger rules) (h.conditions rules verify) e.tree.id
          ⟨e.tree.id, e.tree.id, e.tree.groupRoots, true⟩ v σ ∧
        ∀ id, ReflTransGen h.Spends e.tree.id id →
          (v.status ((h.conditions rules verify).surroundings (h.ledger rules)).find id).run σ = (.ok .verified, σ) := by
  have hh : History.Honest rules backend h := History.honest_nil.publishAll hp
  have htransactions := History.transactions_of_publishAll hp
  rw [List.map_nil, List.append_nil] at htransactions
  refine ⟨htransactions, fun tx e he => ?_⟩
  have hid := hh.id_eq he
  obtain ⟨r, v, σ, hrid, hreturns, hanswered, hverified⟩ := Backchain.answered_of_verifiable ⟨rfl, rfl, rfl⟩
    (Backchain.Judgment.named_of_rules rules verify h.source) (hh.grounded hr hd List.suffix_rfl _ he) (hh.verifiable hr hc hd he)
  have hrecord : r = ⟨e.published.id, e.published.id, e.tree.groupRoots, true⟩ :=
    hreturns.unique ⟨e.published, History.source_of_mem hd he, hh.check hr hc hd he⟩ hrid
  rw [hrecord, hid] at hanswered
  refine ⟨(hh.tree_and_published he).1, hid, v, σ, hanswered, fun id hspends => hverified id ?_⟩
  rw [hid]
  exact ReflTransGen.mono (fun a b => hh.points_of_spends hr hd) _ _ hspends

end

/-! ## An output that is issued and spent -/

def narrow : Padding := ⟨1, ⟨1, 36⟩, ⟨0, 8⟩, 0, 0, 0, 36⟩

/-- A backend whose proofs are the witnesses, and which turns nothing down. -/
theorem complete_of_accepts : Complete .ok fun _ _ => .ok true := fun _ _ _ _ _ => rfl

theorem prove_issue_and_spending : ∃ a b, Rules.prove ⟨.builtin, narrow⟩ .ok issue (History.utxos []) = .ok a ∧
    Rules.prove ⟨.builtin, narrow⟩ .ok (spending ⟨a.tree.id, 0⟩) (History.utxos [(issue, a)]) = .ok b ∧
    b.tree.id ≠ a.tree.id := by
  obtain ⟨t, w, u, ht, hw, hu, hsize, t', ht', hids⟩ : ∃ t w u,
      Tree.build issue .builtin narrow = .ok t ∧ Witness.ofTree t issue (History.utxos []) narrow = .ok w ∧
      t.outputUtxos = [(⟨t.id, 0⟩, u)] ∧ u.bytes.length = 36 ∧
      ∃ t', Tree.build (spending ⟨t.id, 0⟩) .builtin narrow = .ok t' ∧ t'.id ≠ t.id :=
    ⟨_, _, _, rfl, rfl, rfl, rfl, _, rfl, by decide +kernel⟩
  have hnumbers : ∀ n ∈ Witness.shapeNumbers narrow, n < 2 ^ 32 := by decide
  have hroom : (Witness.bodyLayout narrow).HasRoom := ⟨_, rfl, by decide⟩
  obtain ⟨bytes, hbytes⟩ := Witness.toBytes_of_ofTree hnumbers hroom ht hw
  obtain ⟨a, ha, rfl⟩ : ∃ a, Rules.prove ⟨.builtin, narrow⟩ .ok issue (History.utxos []) = .ok a ∧ a.tree = t :=
    ⟨_, Rules.prove_eq_ok.mpr ⟨t, w, bytes, bytes, ht, hw, hbytes, rfl, rfl⟩, rfl⟩
  -- the lookup is not evaluated: it would compare the id of the tree with itself
  have hfound : History.utxos [(issue, a)] ⟨a.tree.id, 0⟩ = some u := by
    simp [History.utxos, hu, Assoc.get?]
  have hslots : Witness.resolveSlots (History.utxos [(issue, a)]) .inputs 36 1 [⟨a.tree.id, 0⟩] = .ok [u] :=
    Witness.resolveSlots_eq_ok.mpr ⟨[u], .cons ⟨hfound, hsize⟩ .nil, rfl⟩
  have hw' : Witness.ofTree t' (spending ⟨a.tree.id, 0⟩) (History.utxos [(issue, a)]) narrow = .ok _ :=
    Witness.ofTree_eq_ok.mpr ⟨_, _, hslots, rfl, rfl⟩
  obtain ⟨bytes', hbytes'⟩ := Witness.toBytes_of_ofTree hnumbers hroom ht' hw'
  exact ⟨a, _, ha, Rules.prove_eq_ok.mpr ⟨t', _, bytes', bytes', ht', hw', hbytes', rfl, rfl⟩, hids⟩

theorem issued_and_spent_verifies : ∃ a b h,
    History.publishAll ⟨.builtin, narrow⟩ .ok [] [issue, spending ⟨a.tree.id, 0⟩] = .ok h ∧
    h = [(spending ⟨a.tree.id, 0⟩, b), (issue, a)] ∧ h.ids.Nodup ∧ h.Spends b.tree.id a.tree.id ∧
    ∃ v σ, Backchain.Answered (h.ledger ⟨.builtin, narrow⟩) (h.conditions ⟨.builtin, narrow⟩ fun _ _ => .ok true)
        b.tree.id ⟨b.tree.id, b.tree.id, b.tree.groupRoots, true⟩ v σ ∧
      (v.status ((h.conditions ⟨.builtin, narrow⟩ fun _ _ => .ok true).surroundings
        (h.ledger ⟨.builtin, narrow⟩)).find a.tree.id).run σ = (.ok .verified, σ) := by
  obtain ⟨a, b, ha, hb, hids⟩ := prove_issue_and_spending
  have hpublish : History.publishAll ⟨.builtin, narrow⟩ .ok [] [issue, spending ⟨a.tree.id, 0⟩] =
      .ok [(spending ⟨a.tree.id, 0⟩, b), (issue, a)] :=
    Except.bind_eq_ok.mpr ⟨_, Except.bind_eq_ok.mpr ⟨a, ha, rfl⟩,
      Except.bind_eq_ok.mpr ⟨_, Except.bind_eq_ok.mpr ⟨b, hb, rfl⟩, rfl⟩⟩
  have hh := History.honest_nil.publishAll hpublish
  have hida := hh.id_eq (.tail _ (.head _))
  have hidb := hh.id_eq (.head _)
  have hd : (History.ids [(spending ⟨a.tree.id, 0⟩, b), (issue, a)]).Nodup := by
    simp [History.ids, hida, hidb, hids]
  have hspends : History.Spends [(spending ⟨a.tree.id, 0⟩, b), (issue, a)] b.tree.id a.tree.id :=
    ⟨_, b, .head _, hidb, _, .head _, rfl⟩
  obtain ⟨-, hverifies⟩ := honest_ledger_verifies .builtin complete_of_accepts hpublish hd
  obtain ⟨-, -, v, σ, hanswered, hverified⟩ := hverifies _ b (.head _)
  exact ⟨a, b, _, hpublish, rfl, hd, hspends, v, σ, hanswered, hverified _ (.single hspends)⟩

end VeiledLedger
