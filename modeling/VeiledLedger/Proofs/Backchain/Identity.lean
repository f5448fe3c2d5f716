/-
  VeiledLedger.Proofs.Backchain.Identity — a verdict is about the id that was asked for.

  The check compares a view with the id that its transaction carries; that this is the id the
  transaction was asked for by is left to the source. A record is put under the id it carries,
  and a record that is found is taken as it is; that nobody puts a wrong one is left to those
  who write to the store. A ledger keeps to the first, and a store that starts empty and that
  one verifier writes to keeps to the second. Then the id that was asked for is that of the
  transaction, of its view, of the record and of its place in the store, for the answer to a
  request and for every ancestor that counts as verified.

  Main statements: `attested_run`, and `misfiled_and_foreign`, which shows that neither
  assumption can be dropped.
-/

import VeiledLedger.Digest.Sha256
import VeiledLedger.Proofs.Backchain.Progress
import VeiledLedger.Proofs.Backchain.Refinement
import VeiledLedger.Proofs.View.Shape

namespace VeiledLedger

section
variable [Hasher]

/-- A transaction that passes its check has a view that hashes to its id, and the record says so. -/
theorem Rules.root_of_check {rules : Rules} {verify : Bytes → Bytes → Except BackendError Bool}
    {source : TransactionSource} {tx : Published} {r : Record} (h : rules.check verify source tx = .ok r) :
    r.id = tx.id ∧ r.root = tx.id ∧ tx.view.root = .ok tx.id := by
  unfold Rules.check at h
  obtain ⟨publicInput, hprepare, hconclude⟩ := Except.bind_eq_ok.mp h
  have hverify : tx.view.verify tx.id = .ok () := by
    unfold Rules.prepare at hprepare
    split at hprepare
    · cases hprepare
    · simp only [Except.bind_eq_ok, Except.mapError_eq_ok] at hprepare
      obtain ⟨_, -, _, hverify, -⟩ := hprepare
      exact hverify
  unfold Rules.conclude at hconclude
  split at hconclude <;> cases hconclude
  exact ⟨rfl, rfl, View.root_eq_ok.mpr (View.verify_eq_ok.mp hverify)⟩

end

namespace Backchain

section
variable [Hasher]

theorem Judgment.named_of_rules (rules : Rules) (verify : Bytes → Bytes → Except BackendError Bool)
    (source : TransactionSource) : Judgment.Named (rules.check verify source) :=
  fun _ _ h => (Rules.root_of_check h).1

/-- A step makes its checks by the rules of the ledger, with any backend. -/
def Move.ByRules (rules : Rules) (l : Ledger) : Move → Prop
  | .advance _ c => ∃ verify, c.judgment = rules.check verify (c.source l)
  | .request _ | .restart => True

/-- The record is about `id` in all its parts, and the store has it there. -/
structure Attests (l : Ledger) (σ : RecordStore) (id : TransactionId) (r : Record) : Prop where
  named : r.id = id
  root : r.root = id
  view : ∃ tx, l.content id = some tx ∧ tx.view.root = .ok id
  stored : σ.get? id = some r

/-- What a check by the rules says of its record, wherever the record is put. -/
def Attested (l : Ledger) (r : Record) : Prop :=
  r.root = r.id ∧ ∃ tx, l.content r.id = some tx ∧ tx.view.root = .ok r.id

theorem attested_of_examine {l : Ledger} {rules : Rules} {c : Conditions} {verify : Bytes → Bytes → Except BackendError Bool}
    (hc : c.judgment = rules.check verify (c.source l)) {id : TransactionId} {r : Record} {ps : List StatePointer}
    (h : c.examine l id = .ok (r, ps)) : r.id = id ∧ Attested l r := by
  obtain ⟨tx, hs, hj, -⟩ := Conditions.examine_eq_ok.mp h
  have hcontent := (Conditions.source_eq_some.mp hs).2
  have htx : tx.id = id := l.id_content hcontent
  rw [hc] at hj
  obtain ⟨hid, hroot, hview⟩ := Rules.root_of_check hj
  refine ⟨hid.trans htx, hroot.trans hid.symm, tx, ?_, ?_⟩
  · rw [hid, htx, hcontent]
  · rw [hid, hview]

end

section
variable [Hasher]

theorem Closed.attests {l : Ledger} {s : World} (h : Closed l (Attested l) s) {id : TransactionId} {r : Record}
    (hr : s.store.get? id = some r) : Attests l s.store id r := by
  have hid : r.id = id := RecordStore.id_of_get? hr
  obtain ⟨hroot, hview⟩ := (h.records r (RecordStore.mem_of_get? hr)).passed
  rw [hid] at hroot hview
  exact ⟨hid, hroot, hview, hr⟩

/-- A source that knows each transaction by its own id, a store that starts empty and that only
    the verifier writes to, and checks by the rules: whatever the source contains and whatever
    fails, however requests come and go, a record that answers a request is about the id that
    was asked for, and so is the record of every ancestor that counts as verified. -/
theorem attested_run (l : Ledger) (rules : Rules) {schedule : List Move} (h : ∀ m ∈ schedule, m.ByRules rules l) :
    let s := (World.start .empty).run l schedule
    (∀ w ∈ s.walks, ∀ r, w.result? = some (.ok r) → Attests l s.store w.root r) ∧
    ∀ id r, s.table.slot? id = some (.verified r) → Attests l s.store id r := by
  intro s
  have hs : Closed l (Attested l) s := by
    refine closed_run closed_start fun id r ps hm => ?_
    obtain ⟨i, c, hmove, hx⟩ := World.exists_of_mem_checks hm
    obtain ⟨verify, hc⟩ := h _ hmove
    exact attested_of_examine hc hx
  refine ⟨fun w hw r hres => ?_, fun id r hr => hs.attests (hs.slots id r hr)⟩
  have htrack := hs.walks w hw
  simp only [Walk.OnTrack, Walk.result?_eq_some.mp hres] at htrack
  exact hs.attests htrack

end

/-! ## A transaction without content -/

def bare : Padding := ⟨0, ⟨0, 0⟩, ⟨0, 0⟩, 0, 0, 0, 0⟩

def bareView : View :=
  ⟨GroupKind.all.map fun kind => ⟨kind, List.replicate (bare.shape kind).capacity (.hidden .zero)⟩⟩

def bareTransaction : Published := ⟨transactionRoot bareView.groupRoots, [], bare, bareView⟩

def bareRecord : Record := ⟨bareTransaction.id, bareTransaction.id, bareView.groupRoots, true⟩

def bareLedger : Ledger where
  registry := .builtin
  content id := if id = bareTransaction.id then some bareTransaction else none
  id_content := by
    intro id tx h
    split at h
    · rename_i hid
      cases h
      exact hid.symm
    · cases h

def bareRules : Rules := ⟨.builtin, bare⟩

theorem check_bareTransaction (source : TransactionSource) :
    bareRules.check (fun _ _ => .ok true) source bareTransaction = .ok bareRecord := by
  have hverify : bareTransaction.view.verify bareTransaction.id = .ok () := View.verify_eq_ok.mpr ⟨rfl, rfl⟩
  unfold Rules.check Rules.prepare
  rw [if_neg (by decide), hverify]
  rfl

def accepting : Conditions where
  stop := none
  outage _ := none
  judgment := bareRules.check (fun _ _ => .ok true) fun id => .ok (bareLedger.content id)
  readFault := none
  writeFault := none

def bareRequest : List Move := .request bareTransaction.id :: List.replicate 6 (.advance 0 accepting)

theorem bareRequest_attested :
    let s := (World.start .empty).run bareLedger bareRequest
    (∀ m ∈ bareRequest, m.ByRules bareRules bareLedger) ∧
    s.walks.map (fun w => (w.root, w.result?)) = [(bareTransaction.id, some (.ok bareRecord))] ∧
    Attests bareLedger s.store bareTransaction.id bareRecord := by
  intro s
  have hmoves : ∀ m ∈ bareRequest, m.ByRules bareRules bareLedger := by
    intro m hm
    rcases List.mem_cons.mp hm with rfl | hm
    · trivial
    · rw [List.eq_of_mem_replicate hm]
      exact ⟨fun _ _ => .ok true, rfl⟩
  have hexamine : accepting.examine bareLedger bareTransaction.id = .ok (bareRecord, []) :=
    Conditions.examine_eq_ok.mpr ⟨bareTransaction, congrArg Except.ok (if_pos rfl), check_bareTransaction _, rfl⟩
  have hcheck : ((accepting.surroundings bareLedger).check bareTransaction.id).run .empty =
      (.ok (bareRecord, []), .empty) := congrArg (·, RecordStore.empty) hexamine
  obtain ⟨t, hrun⟩ : ∃ t, (Walk.run (accepting.surroundings bareLedger) 6 .empty (.start 0 bareTransaction.id)).run .empty =
      ((t, (Walk.start 0 bareTransaction.id).resolved bareRecord), ⟨[bareRecord]⟩) :=
    ⟨_, Walk.run_of_passed rfl rfl rfl hcheck rfl 0 0⟩
  have hanswer : s.walks.map (fun w => (w.root, w.result?)) = [(bareTransaction.id, some (.ok bareRecord))] := by
    have hs : s = (World.alone .empty .empty (.start 0 bareTransaction.id)).run bareLedger
        (.replicate 6 (.advance 0 accepting)) := List.foldl_cons ..
    rw [hs, run_alone, hrun]
    rfl
  obtain ⟨w, hw, he⟩ : ∃ w ∈ s.walks, (w.root, w.result?) = (bareTransaction.id, some (.ok bareRecord)) :=
    List.mem_map.mp (hanswer ▸ List.mem_singleton_self _)
  obtain ⟨hroot, hres⟩ := Prod.mk.inj he
  exact ⟨hmoves, hanswer, hroot ▸ (attested_run bareLedger bareRules hmoves).1 w hw bareRecord hres⟩

/-! ## What the source and other writers are trusted with -/

/-- What a source files under an id is verified there, whatever id it carries. -/
theorem Setting.run_of_filed {registry : Registry} {check : Published → Except CheckError Record} {id : TransactionId}
    {tx : Published} {r : Record} (hcheck : check tx = .ok r) (hps : tx.view.pointers registry = .ok []) (n : Nat) :
    (Walk.run (plain registry [(id, tx)] check).surroundings (n + 6) .empty (.start 0 id)).run ⟨.empty, []⟩ =
      (((Table.empty.setSlot id (.verifying 0)).setSlot id (.verified r), (Walk.start 0 id).resolved r),
        ⟨⟨[r]⟩, [(id, tx)]⟩) := by
  have hexamine : (plain registry [(id, tx)] check).examine id ⟨.empty, []⟩ = (.ok (r, []), ⟨.empty, [(id, tx)]⟩) := by
    have hfetch : (plain registry [(id, tx)] check).source.fetch id = .ok tx := by
      simp [TransactionSource.fetch, source, plain, Assoc.get?_cons]
    unfold examine
    rw [hfetch]
    simp only [plain, hcheck, hps]
    rfl
  exact Walk.run_of_passed (a := (plain registry [(id, tx)] check).surroundings) rfl rfl rfl hexamine rfl 0 n

def misfiled (id : TransactionId) : Setting RecordStore :=
  .plain .builtin [(id, bareTransaction)]
    (bareRules.check (fun _ _ => .ok true) fun x => .ok (Assoc.get? [(id, bareTransaction)] x))

def unsupplied : Setting RecordStore := .plain .builtin [] (bareRules.check (fun _ _ => .ok true) fun _ => .ok none)

def foreignRecord : Record := ⟨absent, .zero, [], true⟩

/-- Over an empty store a misfiled transaction is verified under the id that was asked for,
    although neither its record nor its view is about that id, and nothing is stored there. And
    where another writer has put a record with a wrong root, that is the answer. -/
theorem misfiled_and_foreign :
    (∃ t w x, (Walk.run (misfiled absent).surroundings 60 .empty (.start 0 absent)).run ⟨.empty, []⟩ = ((t, w), x) ∧
      w.result? = some (.ok bareRecord) ∧ t.slot? absent = some (.verified bareRecord) ∧
      bareRecord.id ≠ absent ∧ bareRecord.root ≠ absent ∧ bareTransaction.view.root ≠ .ok absent ∧
      x.env.get? absent = none) ∧
    ∃ σ t w x, RecordStore.empty.put foreignRecord = .ok σ ∧
      (Walk.run unsupplied.surroundings 60 .empty (.start 0 absent)).run ⟨σ, []⟩ = ((t, w), x) ∧
      w.result? = some (.ok foreignRecord) ∧ foreignRecord.root ≠ absent := by
  have hid : bareTransaction.id ≠ absent := by decide +kernel
  constructor
  · have hview : bareTransaction.view.root ≠ .ok absent := fun h => hid (View.root_eq_ok.mp h).2
    have hstore : RecordStore.get? ⟨[bareRecord]⟩ absent = none := by
      simp [RecordStore.get?, bareRecord, hid]
    exact ⟨_, _, _, Setting.run_of_filed (check_bareTransaction _) rfl 54, rfl, rfl, hid, hid, hview, hstore⟩
  · exact ⟨_, _, _, _, rfl, rfl, rfl, by decide⟩

end Backchain

end VeiledLedger
