/-
  VeiledLedger.Proofs.Backchain.Fleet — many verifiers over one store.

  A record says nothing of the proof, the source or the slots that were shown: it holds the id
  of its transaction and the nine roots that hash to it. So two transactions of one id whose
  checks pass have the same record, or the roots of the two are two different strings with one
  digest.

  A fleet is any number of verifiers, each with a table, requests, sources and a backend of its
  own, over one store; its moves are events of its members in any order. As long as there is
  one record for each id among those that checks have vouched for, the store never refuses one
  of them: each record that a walk is about to store is vouched for (`Walk.Clear`), and so is
  each record in the store. So no walk fails with a conflict, and none learns of one from a slot.

  Main statements: `Rules.record_eq_or_collides`, `Fleet.clear_after`, `records_never_conflict`.
-/

import VeiledLedger.Proofs.Backchain.Identity
import VeiledLedger.Proofs.View.Binding
import VeiledLedger.Proofs.View.Pointers

namespace VeiledLedger

/-! ## One record for each id -/

section
variable [Hasher]

def Published.rootString (tx : Published) : Bytes := tx.view.groupRoots.flatMap Digest.toBytes

theorem View.Ordered.length_groupRoots {v : View} (h : v.Ordered) : v.groupRoots.length = GroupKind.all.length := by
  have hkinds := congrArg List.length h
  rwa [List.length_map, ← List.length_map (·.root)] at hkinds

namespace Rules

variable {rules : Rules} {verify verify' : Bytes → Bytes → Except BackendError Bool}
  {source source' : TransactionSource} {tx tx' : Published} {r r' : Record}

theorem record_of_check (h : rules.check verify source tx = .ok r) : r = ⟨tx.id, tx.id, tx.view.groupRoots, true⟩ := by
  obtain ⟨_, -, hconclude⟩ := Except.bind_eq_ok.mp h
  unfold conclude at hconclude
  split at hconclude <;> cases hconclude
  rfl

theorem record_eq_or_collides (h : rules.check verify source tx = .ok r) (h' : rules.check verify' source' tx' = .ok r')
    (hid : tx.id = tx'.id) : r = r' ∨ Collides [tx.rootString] [tx'.rootString] := by
  obtain ⟨-, -, hview⟩ := root_of_check h
  obtain ⟨-, -, hview'⟩ := root_of_check h'
  obtain ⟨horder, hroot⟩ := View.root_eq_ok.mp hview
  obtain ⟨horder', hroot'⟩ := View.root_eq_ok.mp hview'
  refine (eq_or_collides (List.mem_singleton_self _) (List.mem_singleton_self _) ?_).imp_left fun hstring => ?_
  · exact hroot.trans (hid.trans hroot'.symm)
  · have hroots : tx.view.groupRoots = tx'.view.groupRoots :=
      Digest.flatMap_inj (horder.length_groupRoots.trans horder'.length_groupRoots.symm) hstring
    rw [record_of_check h, record_of_check h', hid, hroots]

/-- The record comes from a check of one of the transactions, with some backend and source. -/
def Vouches (rules : Rules) (txs : List Published) (r : Record) : Prop :=
  ∃ tx ∈ txs, ∃ verify source, rules.check verify source tx = .ok r

end Rules

end

def Record.Unique (P : Record → Prop) : Prop := ∀ r r', P r → P r' → r.id = r'.id → r = r'

theorem Rules.unique_or_collides [Hasher] (rules : Rules) (txs : List Published) :
    Record.Unique (rules.Vouches txs) ∨ Collides (txs.map Published.rootString) (txs.map Published.rootString) := by
  by_cases hc : Collides (txs.map Published.rootString) (txs.map Published.rootString)
  · exact .inr hc
  · refine .inl fun r r' ⟨tx, hmem, _, _, h⟩ ⟨tx', hmem', _, _, h'⟩ hid => ?_
    have hids : tx.id = tx'.id := (root_of_check h).1.symm.trans (hid.trans (root_of_check h').1)
    refine (record_eq_or_collides h h' hids).resolve_right fun hpair => hc (hpair.mono ?_ ?_)
    · exact List.cons_subset.mpr ⟨List.mem_map_of_mem hmem, List.nil_subset _⟩
    · exact List.cons_subset.mpr ⟨List.mem_map_of_mem hmem', List.nil_subset _⟩

namespace RecordStore

variable {P : Record → Prop} {σ : RecordStore} {r : Record}

/-- A store with one record for each id takes that record again. -/
theorem exists_put (hP : Record.Unique P) (hσ : ∀ x ∈ σ.records, P x) (hr : P r) : ∃ σ', σ.put r = .ok σ' := by
  cases hput : σ.put r with
  | ok σ' => exact ⟨σ', rfl⟩
  | error e =>
    obtain ⟨-, stored, hget, hne⟩ := put_eq_error.mp hput
    exact absurd (hP _ _ (hσ _ (mem_of_get? hget)) hr (id_of_get? hget)) hne

/-- What becomes of a record that is to be stored: the store answers, or it fails and may have
    kept the record all the same. -/
inductive Stores (σ : RecordStore) (r : Record) : Except StoreError Unit → RecordStore → Prop
  | kept {σ' : RecordStore} : σ.put r = .ok σ' → Stores σ r (.ok ()) σ'
  | refused {e : StoreError} : σ.put r = .error e → Stores σ r (.error e) σ
  | lost {reason : String} : Stores σ r (.error (.backend reason)) σ
  | unsure {reason : String} {σ' : RecordStore} : σ.put r = .ok σ' → Stores σ r (.error (.backend reason)) σ'

variable {answer : Except StoreError Unit} {σ' : RecordStore}

theorem Stores.records (h : σ.Stores r answer σ') (hσ : ∀ x ∈ σ.records, P x) (hr : P r) : ∀ x ∈ σ'.records, P x := by
  intro x hx
  cases h with
  | kept hput | unsure hput => exact (mem_put hput hx).elim (hσ x) fun he => he ▸ hr
  | refused | lost => exact hσ x hx

theorem Stores.conflict (h : σ.Stores r answer σ') {id : TransactionId} (hanswer : answer = .error (.conflict id)) :
    ∃ e, σ.put r = .error e := by
  cases h with
  | refused hput => exact ⟨_, hput⟩
  | kept | lost | unsure => cases hanswer

end RecordStore

namespace Backchain

/-! ## One step of a member -/

/-- What a step finds around it: the store is only read and asked to keep records, reading never
    tells of a conflict, and the records of checks that pass are among `P`. -/
structure Around.Orderly (P : Record → Prop) (a : Around) : Prop where
  stopped : ∀ σ, (a.stopped.run σ).2 = σ
  find : ∀ id σ, ((a.find id).run σ).2 = σ
  found : ∀ id σ x, ((a.find id).run σ).1 ≠ .error (.conflict x)
  check : ∀ id σ, ((a.check id).run σ).2 = σ
  passed : ∀ id σ r ps, ((a.check id).run σ).1 = .ok (r, ps) → P r
  store : ∀ r (σ : RecordStore), σ.Stores r ((a.store r).run σ).1 ((a.store r).run σ).2

/-- So are the conditions that a ledger with checks by the rules leaves its verifiers in, as long
    as a store that fails does not say that it is for a conflict. -/
theorem Conditions.orderly [Hasher] {l : Ledger} {c : Conditions} {rules : Rules} {txs : List Published}
    {verify : Bytes → Bytes → Except BackendError Bool} (hc : c.judgment = rules.check verify (c.source l))
    (htxs : ∀ id tx, l.content id = some tx → tx ∈ txs) (hread : ∀ id, c.readFault ≠ some (.conflict id))
    (hwrite : ∀ e kept, c.writeFault = some (e, kept) → ∃ reason, e = .backend reason) :
    Around.Orderly (rules.Vouches txs) (c.surroundings l) where
  stopped _ := rfl
  find _ _ := rfl
  found id σ x h := by
    change c.find σ id = .error (.conflict x) at h
    unfold find at h
    split at h
    · rename_i e he
      cases h
      exact hread x he
    · cases h
  check _ _ := rfl
  passed id σ r ps h := by
    obtain ⟨tx, hs, hj, -⟩ := examine_eq_ok.mp h
    rw [hc] at hj
    exact ⟨tx, htxs id tx (source_eq_some.mp hs).2, verify, c.source l, hj⟩
  store r σ := by
    show σ.Stores r (c.keep σ r).1 (c.keep σ r).2
    unfold keep
    split
    · rename_i hfault hput
      obtain ⟨reason, rfl⟩ := hwrite _ _ hfault
      exact .unsure hput
    · rename_i hfault _
      obtain ⟨reason, rfl⟩ := hwrite _ _ hfault
      exact .lost
    · rename_i hput
      exact .kept hput
    · rename_i hput
      exact .refused hput

def Failure.Conflicts (f : Failure) : Prop := ∃ id, f.cause = .store (.conflict id)

theorem Failure.conflicts_of_toError {f : Failure} {root id : TransactionId}
    (h : f.toError root = .store (.conflict id)) : f.Conflicts := by
  unfold toError at h
  split at h <;> cases h
  exact ⟨id, ‹_›⟩

def Phase.Clear (P : Record → Prop) : Phase → Prop
  | .store f => P f.record
  | .unwind _ f => ¬f.Conflicts
  | .done res => ∀ id, res ≠ .error (.store (.conflict id))
  | .enter _ | .lookUp _ | .visit _ | .blocked _ | .check _ | .judge _ _ | .publish _ => True

structure Walk.Clear (P : Record → Prop) (w : Walk) : Prop where
  stack : ∀ f ∈ w.stack, P f.record
  phase : w.phase.Clear P

def Table.Clear (t : Table) : Prop := ∀ id f, t.slot? id = some (.rejected f) → ¬f.Conflicts

namespace Walk

variable {P : Record → Prop} {a : Around} {t t' : Table} {σ σ' : RecordStore} {w w' : Walk}

theorem clear_start (request : RequestId) (root : TransactionId) : (start request root).Clear P :=
  ⟨fun f hf => (by cases hf), trivial⟩

theorem clear_follow {f : Frame} {stack : List Frame} (hf : P f.record) (hs : ∀ g ∈ stack, P g.record) :
    (w.follow f stack).Clear P := by
  unfold follow
  split
  · exact ⟨List.forall_mem_cons.mpr ⟨hf, hs⟩, trivial⟩
  · exact ⟨hs, hf⟩

theorem clear_resolved (hs : ∀ g ∈ w.stack, P g.record) (r : Record) : (w.resolved r).Clear P := by
  unfold resolved
  split
  · exact ⟨hs, fun id h => (by cases h)⟩
  · rename_i f stack he
    rw [he] at hs
    exact clear_follow (hs f List.mem_cons_self) fun g hg => hs g (List.mem_cons_of_mem _ hg)

theorem clear_met {target : Claim} {f : Failure} (h : ¬f.Conflicts) : (w.met target f).Clear P :=
  ⟨fun g hg => (by cases hg), h⟩

theorem clear_failed {claim : Claim} {cause : Cause} (h : ∀ id, cause ≠ .store (.conflict id)) :
    (w.failed claim cause).Clear P :=
  ⟨fun g hg => (by cases hg), fun ⟨id, hc⟩ => h id hc⟩

/-- A step puts nothing into the store but the record that its walk is about to store. -/
theorem Step.clear_records (ha : a.Orderly P) (hσ : ∀ r ∈ σ.records, P r) (h : Step a t σ w t' σ' w') (hw : w.Clear P) :
    ∀ r ∈ σ'.records, P r := by
  have hstored {f : Frame} (hp : w.phase = .store f) : ∀ r ∈ ((a.store f.record).run σ).2.records, P r := by
    have hphase := hw.phase
    rw [hp] at hphase
    exact (ha.store f.record σ).records hσ hphase
  cases h with
  | keeps hp | loses hp => exact hstored hp
  | stopped | entered | stoppedWaiting | judged =>
    rw [ha.stopped]
    exact hσ
  | unreadable | found | missing =>
    rw [ha.find]
    exact hσ
  | passed | faulted | rejects =>
    rw [ha.check]
    exact hσ
  | known hl | refused hl | closed hl | waits hl | takes hl =>
    rw [hl.store_eq ha.stopped]
    exact hσ
  | publishes | settles | fails | rests => exact hσ

/-- Where there is one record for each id, no step meets a conflict. -/
theorem Step.clear (hP : Record.Unique P) (ha : a.Orderly P) (hσ : ∀ r ∈ σ.records, P r) (ht : t.Clear)
    (h : Step a t σ w t' σ' w') (hw : w.Clear P) : w'.Clear P := by
  have hphase := hw.phase
  cases h with
  | stopped | stoppedWaiting => exact clear_met fun ⟨_, hc⟩ => (by cases hc)
  | closed => exact clear_met fun ⟨_, hc⟩ => (by cases hc)
  | unreadable _ he =>
    refine clear_met fun ⟨id, hc⟩ => ?_
    cases hc
    exact ha.found _ _ _ he
  | refused _ hslot => exact clear_met (ht _ _ hslot)
  | entered | missing | waits | takes | faulted | keeps => exact ⟨hw.stack, trivial⟩
  | found | known | publishes => exact clear_resolved hw.stack _
  | passed _ he => exact clear_follow (ha.passed _ _ _ _ he) hw.stack
  | rejects => exact clear_failed fun id hc => (by cases hc)
  | judged => exact clear_failed fun id hc => (by split at hc <;> cases hc)
  | @loses f e hp he =>
    rw [hp] at hphase
    refine clear_failed fun id hc => ?_
    cases hc
    obtain ⟨_, hput⟩ := (ha.store f.record σ).conflict he
    obtain ⟨_, hput'⟩ := RecordStore.exists_put hP hσ hphase
    cases hput.symm.trans hput'
  | settles hp =>
    rw [hp] at hphase
    exact ⟨hw.stack, hphase⟩
  | fails hp =>
    rw [hp] at hphase
    exact ⟨hw.stack, fun id he => hphase (Failure.conflicts_of_toError (Except.error.inj he))⟩
  | rests => exact hw

/-- A slot is rejected by a walk that fails, and no walk fails with a conflict. -/
theorem Step.clear_table (ht : t.Clear) (h : Step a t σ w t' σ' w') (hw : w.Clear P) : t'.Clear := by
  intro id f hf
  rcases h.rejected_slot hf with hold | ⟨claim, cs, hp, -, -⟩
  · exact ht id f hold
  · have hphase := hw.phase
    rwa [hp] at hphase

end Walk

/-! ## The fleet -/

structure Member where
  verifier : Verifier
  walks : List Walk

structure Fleet where
  store : RecordStore
  members : List Member

namespace Fleet

def start (σ : RecordStore) (n : Nat) : Fleet := ⟨σ, List.replicate n ⟨.fresh, []⟩⟩

def refresh (s : Fleet) (k : Nat) (w : World) : Fleet := ⟨w.store, s.members.set k ⟨w.verifier, w.walks⟩⟩

def next (s : Fleet) (k : Nat) (e : Event) : Fleet :=
  match s.members[k]? with
  | none => s
  | some m => s.refresh k ((World.mk m.verifier s.store m.walks).next e)

def after (s : Fleet) (moves : List (Nat × Event)) : Fleet := moves.foldl (fun s m => s.next m.1 m.2) s

end Fleet

def Event.Orderly (P : Record → Prop) : Event → Prop
  | .request _ => True
  | .step _ a => a.Orderly P

structure Member.Clear (P : Record → Prop) (m : Member) : Prop where
  walks : ∀ w ∈ m.walks, w.Clear P
  table : m.verifier.table.Clear

structure Fleet.Clear (P : Record → Prop) (s : Fleet) : Prop where
  records : ∀ r ∈ s.store.records, P r
  members : ∀ m ∈ s.members, m.Clear P

section
variable {P : Record → Prop}

/-- An event at one member keeps the store and the member clear. -/
theorem World.clear_next (hP : Record.Unique P) {s : World} {e : Event} (he : e.Orderly P)
    (hσ : ∀ r ∈ s.store.records, P r) (hm : Member.Clear P ⟨s.verifier, s.walks⟩) :
    (∀ r ∈ (s.next e).store.records, P r) ∧ Member.Clear P ⟨(s.next e).verifier, (s.next e).walks⟩ := by
  cases e with
  | request id =>
    refine ⟨hσ, fun w hw => ?_, hm.table⟩
    rcases List.mem_append.mp hw with hw | hw
    · exact hm.walks w hw
    · rw [List.mem_singleton.mp hw]
      exact Walk.clear_start ..
  | step i a =>
    show (∀ r ∈ (s.proceed i a).store.records, P r) ∧ Member.Clear P ⟨(s.proceed i a).verifier, (s.proceed i a).walks⟩
    rcases s.proceed_cases i a with hsame | ⟨w, t', σ', w', hi, hstep, hnew⟩
    · rw [hsame]
      exact ⟨hσ, hm⟩
    · have hw := hm.walks w (List.mem_of_getElem? hi)
      rw [hnew]
      refine ⟨hstep.clear_records he hσ hw, fun x hx => ?_, hstep.clear_table hm.table hw⟩
      rcases List.mem_or_eq_of_mem_set hx with hx | rfl
      · exact hm.walks x hx
      · exact hstep.clear hP he hσ hm.table hw

namespace Fleet

theorem clear_start {σ : RecordStore} (hσ : ∀ r ∈ σ.records, P r) (n : Nat) : (start σ n).Clear P := by
  refine ⟨hσ, fun m hm => ?_⟩
  rw [List.eq_of_mem_replicate hm]
  exact ⟨fun w hw => (by cases hw), fun id f hf => (by cases hf)⟩

theorem clear_next (hP : Record.Unique P) {s : Fleet} (hs : s.Clear P) (k : Nat) {e : Event} (he : e.Orderly P) :
    (s.next k e).Clear P := by
  unfold next
  split
  · exact hs
  · rename_i m hk
    obtain ⟨hrecords, hmember⟩ := World.clear_next (s := ⟨m.verifier, s.store, m.walks⟩) hP he hs.records
      (hs.members m (List.mem_of_getElem? hk))
    refine ⟨hrecords, fun x hx => ?_⟩
    rcases List.mem_or_eq_of_mem_set hx with hx | rfl
    · exact hs.members x hx
    · exact hmember

/-- Whatever the members do, in whatever order. -/
theorem clear_after (hP : Record.Unique P) {s : Fleet} (hs : s.Clear P) {moves : List (Nat × Event)}
    (h : ∀ m ∈ moves, m.2.Orderly P) : (s.after moves).Clear P := by
  induction moves generalizing s with
  | nil => exact hs
  | cons m moves ih =>
    obtain ⟨hm, hrest⟩ := List.forall_mem_cons.mp h
    exact ih (clear_next hP hs m.1 hm) hrest

/-- The store would take each record that is about to be stored, and no request has ended with a
    conflict. -/
def Unopposed (s : Fleet) : Prop :=
  ∀ m ∈ s.members, ∀ w ∈ m.walks, (∀ f, w.phase = .store f → ∃ σ, s.store.put f.record = .ok σ) ∧
    ∀ id, w.result? ≠ some (.error (.store (.conflict id)))

theorem Clear.unopposed (hP : Record.Unique P) {s : Fleet} (hs : s.Clear P) : s.Unopposed := by
  intro m hm w hw
  have hphase := ((hs.members m hm).walks w hw).phase
  refine ⟨fun f hp => ?_, fun id hres => ?_⟩
  · rw [hp] at hphase
    exact RecordStore.exists_put hP hs.records hphase
  · rw [Walk.result?_eq_some.mp hres] at hphase
    exact hphase id rfl

end Fleet

end

/-- Two checks under the same rules that pass for one id, of whatever transactions and with
    whatever backends and sources, have the same record, or two different strings with one
    digest are found among the roots of the two. So verifiers that share a store in which there
    are only records of such checks, and put only such records there, never meet a conflict,
    or two different strings with one digest are found among the roots of what they checked. -/
theorem records_never_conflict [Hasher] (rules : Rules) :
    (∀ (tx tx' : Published) (verify verify' : Bytes → Bytes → Except BackendError Bool)
      (source source' : TransactionSource) (r r' : Record), rules.check verify source tx = .ok r →
        rules.check verify' source' tx' = .ok r' → tx.id = tx'.id →
        r = r' ∨ ∃ x y, collision? [tx.rootString] [tx'.rootString] = some (x, y) ∧ x ≠ y ∧ digest x = digest y) ∧
    ∀ (txs : List Published) (σ : RecordStore) (n : Nat), (∀ r ∈ σ.records, rules.Vouches txs r) →
      (∀ moves, (∀ m ∈ moves, m.2.Orderly (rules.Vouches txs)) → ((Fleet.start σ n).after moves).Unopposed) ∨
      ∃ x y, collision? (txs.map Published.rootString) (txs.map Published.rootString) = some (x, y) ∧ x ≠ y ∧
        digest x = digest y := by
  refine ⟨fun tx tx' _ _ _ _ r r' h h' hid => ?_, fun txs σ n hσ => ?_⟩
  · exact (Rules.record_eq_or_collides h h' hid).imp_right Collides.collision?
  · refine (rules.unique_or_collides txs).imp (fun hP moves hmoves => ?_) Collides.collision?
    exact (Fleet.clear_after hP (Fleet.clear_start hσ n) hmoves).unopposed hP

/-! ## One transaction, shown in two ways -/

namespace Fleet

theorem next_of_step {s : Fleet} {k : Nat} {v : Verifier} {w w' : Walk} {a : Around} {t' : Table} {σ' : RecordStore}
    (hk : s.members[k]? = some ⟨v, [w]⟩) (h : (w.step a v.table).run s.store = ((t', w'), σ')) :
    s.next k (.step 0 a) = ⟨σ', s.members.set k ⟨{ v with table := t' }, [w']⟩⟩ := by
  unfold next
  rw [hk]
  refine congrArg (s.refresh k) (?_ : (World.mk v s.store [w]).proceed 0 a = ⟨{ v with table := t' }, σ', [w']⟩)
  show (let y := (w.step a v.table).run s.store; World.mk { v with table := y.1.1 } y.2 [y.1.2]) = _
  rw [h]

theorem after_append (s : Fleet) (moves moves' : List (Nat × Event)) :
    s.after (moves ++ moves') = (s.after moves).after moves' :=
  List.foldl_append

def firstRequest (k : Nat) (id : TransactionId) (a : Around) : List (Nat × Event) :=
  (k, .request id) :: List.replicate 4 (k, .step 0 a)

theorem after_firstRequest {s : Fleet} {k : Nat} {id : TransactionId} {a : Around} {r : Record}
    (hk : s.members[k]? = some ⟨.fresh, []⟩) (hstop : a.stopped.run s.store = (none, s.store))
    (hfind : (a.find id).run s.store = (.ok none, s.store))
    (hcheck : (a.check id).run s.store = (.ok (r, []), s.store)) :
    s.after (firstRequest k id a) = ⟨s.store, s.members.set k ⟨⟨Table.empty.setSlot id (.verifying 0), 1⟩,
      [{ Walk.start 0 id with phase := .store ⟨⟨id, none⟩, [], r⟩ }]⟩⟩ := by
  let there (v : Verifier) (w : Walk) : Fleet := ⟨s.store, s.members.set k ⟨v, [w]⟩⟩
  have hstart : s.next k (.request id) = there ⟨.empty, 1⟩ (.start 0 id) := by
    unfold next
    rw [hk]
    rfl
  have hstep {v : Verifier} {w w' : Walk} {t' : Table} (h : (w.step a v.table).run s.store = ((t', w'), s.store)) :
      (there v w).next k (.step 0 a) = there { v with table := t' } w' := by
    have hlt := (List.getElem?_eq_some_iff.mp hk).1
    rw [next_of_step (s := there v w) (List.getElem?_set_self hlt) h, List.set_set]
  show ((((s.next k (.request id)).next k (.step 0 a)).next k (.step 0 a)).next k (.step 0 a)).next k (.step 0 a) = _
  rw [hstart, hstep (Walk.step_enter rfl hstop), hstep (Walk.step_lookUp rfl hfind), hstep (Walk.step_takes rfl rfl),
    hstep (Walk.step_check rfl hcheck)]
  rfl

end Fleet

def blank : Transaction := { View.oneInput with inputs := [] }

def pointersOnly : Disclosure := (Disclosure.hideAll.revealGroup .inputs).revealGroup .references

def published (t : Tree) (proof : Bytes) (d : Disclosure) : Published := ⟨t.id, proof, bare, .ofTree t d⟩

theorem check_published {t : Tree} (ht : Tree.build blank .builtin bare = .ok t) {d : Disclosure}
    (hd : ∀ kind, kind = .inputs ∨ kind = .references → ∀ i, d.shows kind i = true) (proof : Bytes) :
    (∀ source, bareRules.check (fun _ _ => .ok true) source (published t proof d) =
      .ok ⟨t.id, t.id, t.groupRoots, true⟩) ∧ (published t proof d).view.pointers .builtin = .ok [] := by
  have hfits := Tree.fits_of_build ht
  have hspent : (View.ofTree t d).pointersOf .inputs .builtin = .ok [] :=
    View.pointersOf_ofTree .builtin ht (hd _ (.inl rfl)) rfl
  have hnamed : (View.ofTree t d).pointersOf .references .builtin = .ok [] :=
    View.pointersOf_ofTree .builtin ht (hd _ (.inr rfl)) rfl
  have hpadding : ¬(published t proof d).padding ≠ bareRules.padding := not_not.mpr rfl
  refine ⟨fun source => Except.bind_eq_ok.mpr ⟨⟨t.id, [], []⟩, ?_, ?_⟩,
    Except.bind_eq_ok.mpr ⟨[], hspent, Except.bind_eq_ok.mpr ⟨[], hnamed, rfl⟩⟩⟩
  · unfold Rules.prepare Rules.publicInput
    rw [if_neg hpadding, if_neg hpadding]
    refine Except.bind_eq_ok.mpr ⟨(), Except.mapError_eq_ok.mpr (View.checkShape_ofTree hfits d), ?_⟩
    refine Except.bind_eq_ok.mpr ⟨(), Except.mapError_eq_ok.mpr (View.verify_ofTree hfits d), ?_⟩
    refine Except.bind_eq_ok.mpr ⟨[], Except.mapError_eq_ok.mpr hspent, Except.bind_eq_ok.mpr ⟨[], rfl, ?_⟩⟩
    exact Except.bind_eq_ok.mpr ⟨[], Except.mapError_eq_ok.mpr hnamed, rfl⟩
  · show Except.ok (Record.mk t.id t.id (View.ofTree t d).groupRoots true) = _
    rw [View.groupRoots_ofTree hfits]

def sole (tx : Published) : Ledger where
  registry := .builtin
  content id := if id = tx.id then some tx else none
  id_content := by
    intro id x h
    split at h
    · rename_i hid
      cases h
      exact hid.symm
    · cases h

def trusting (tx : Published) : Conditions where
  stop := none
  outage _ := none
  judgment := bareRules.check (fun _ _ => .ok true) fun id => .ok ((sole tx).content id)
  readFault := none
  writeFault := none

def around (tx : Published) : Around := (trusting tx).surroundings (sole tx)

/-- Two verifiers are asked for one id and come to the point where each stores its record; then
    the first of them does. -/
def sharedRun (tx tx' : Published) : List (Nat × Event) :=
  Fleet.firstRequest 0 tx.id (around tx) ++ (Fleet.firstRequest 1 tx'.id (around tx') ++ [(0, .step 0 (around tx))])

section
variable {tx : Published} {txs : List Published}

theorem around_orderly (htx : tx ∈ txs) : (around tx).Orderly (bareRules.Vouches txs) := by
  have hcontent : ∀ id x, (sole tx).content id = some x → x ∈ txs := by
    intro id x h
    change (if id = tx.id then some tx else none) = some x at h
    split at h
    · exact Option.some.inj h ▸ htx
    · cases h
  have hrules : (trusting tx).judgment = bareRules.check (fun _ _ => .ok true) ((trusting tx).source (sole tx)) := rfl
  exact Conditions.orderly hrules hcontent (fun id h => (by cases h)) fun e kept h => (by cases h)

theorem sharedRun_orderly {tx' : Published} (htx : tx ∈ txs) (htx' : tx' ∈ txs) :
    ∀ m ∈ sharedRun tx tx', m.2.Orderly (bareRules.Vouches txs) := by
  have hfirst {k : Nat} {id : TransactionId} {x : Published} (hx : x ∈ txs) :
      ∀ m ∈ Fleet.firstRequest k id (around x), m.2.Orderly (bareRules.Vouches txs) := by
    refine List.forall_mem_cons.mpr ⟨trivial, fun m hm => ?_⟩
    rw [List.eq_of_mem_replicate hm]
    exact around_orderly hx
  refine List.forall_mem_append.mpr ⟨hfirst htx, List.forall_mem_append.mpr ⟨hfirst htx', fun m hm => ?_⟩⟩
  rw [List.mem_singleton.mp hm]
  exact around_orderly htx

/-- The one transaction that the source knows is checked. -/
theorem check_around {r : Record} (hcheck : ∀ source, bareRules.check (fun _ _ => .ok true) source tx = .ok r)
    (hps : tx.view.pointers .builtin = .ok []) (σ : RecordStore) :
    ((around tx).check tx.id).run σ = (.ok (r, []), σ) := by
  have hexamine : (trusting tx).examine (sole tx) tx.id = .ok (r, []) :=
    Conditions.examine_eq_ok.mpr ⟨tx, congrArg Except.ok (if_pos rfl), hcheck _, hps⟩
  exact congrArg (·, σ) hexamine

/-- Once the first verifier has stored the record, the second is about to store it as well. -/
theorem after_sharedRun {tx' : Published} {r r' : Record} (h : ∀ σ, ((around tx).check tx.id).run σ = (.ok (r, []), σ))
    (h' : ∀ σ, ((around tx').check tx'.id).run σ = (.ok (r', []), σ)) :
    ((Fleet.start .empty 2).after (sharedRun tx tx')).store = ⟨[r]⟩ ∧
    (((Fleet.start .empty 2).after (sharedRun tx tx')).members[1]?.map fun m => m.walks.map Walk.phase) =
      some [.store ⟨⟨tx'.id, none⟩, [], r'⟩] := by
  have hstore : ((around tx).store r).run .empty = (.ok (), ⟨[r]⟩) := rfl
  rw [sharedRun, Fleet.after_append, Fleet.after_append, Fleet.after_firstRequest rfl rfl rfl (h _),
    Fleet.after_firstRequest rfl rfl rfl (h' _), Fleet.after, List.foldl_cons, List.foldl_nil,
    Fleet.next_of_step rfl (Walk.step_store rfl hstore)]
  exact ⟨rfl, rfl⟩

end

/-- Two views of a blank transaction that show different slots, with two proofs: the records are
    the same, and the second verifier may put its record where the first has put its own. -/
theorem two_disclosures_one_record : ∃ (t : Tree) (r r' : Record), Tree.build blank .builtin bare = .ok t ∧
    let tx := published t [1] pointersOnly
    let tx' := published t [2] .revealAll
    tx.view ≠ tx'.view ∧ (∀ source, bareRules.check (fun _ _ => .ok true) source tx = .ok r) ∧
    (∀ source, bareRules.check (fun _ _ => .ok true) source tx' = .ok r') ∧
    (r = r' ∨ ∃ x y, collision? [tx.rootString] [tx'.rootString] = some (x, y) ∧ x ≠ y ∧ digest x = digest y) ∧
    let s := (Fleet.start .empty 2).after (sharedRun tx tx')
    s.store = ⟨[r]⟩ ∧
    (s.members[1]?.map fun m => m.walks.map Walk.phase) = some [.store ⟨⟨t.id, none⟩, [], r'⟩] ∧
    (s.Unopposed ∨ ∃ x y, collision? [tx.rootString, tx'.rootString] [tx.rootString, tx'.rootString] = some (x, y) ∧
      x ≠ y ∧ digest x = digest y) := by
  obtain ⟨t, ht, ⟨x, n, hshown⟩, ⟨h, hhidden⟩⟩ : ∃ t, Tree.build blank .builtin bare = .ok t ∧
      (∃ x n, (View.ofTree t .revealAll).leaf? .notary 0 = some (.visible x n)) ∧
      ∃ h, (View.ofTree t pointersOnly).leaf? .notary 0 = some (.hidden h) := ⟨_, rfl, ⟨_, _, rfl⟩, ⟨_, rfl⟩⟩
  refine ⟨t, ⟨t.id, t.id, t.groupRoots, true⟩, ⟨t.id, t.id, t.groupRoots, true⟩, ht, ?_⟩
  intro tx tx'
  have hview : tx.view ≠ tx'.view := fun he => by
    cases hhidden.symm.trans ((congrArg (fun v => View.leaf? v .notary 0) he).trans hshown)
  have hpointers : ∀ kind, kind = .inputs ∨ kind = .references → ∀ i, pointersOnly.shows kind i = true := by
    rintro _ (rfl | rfl) _
    · rfl
    · rfl
  obtain ⟨hcheck, hps⟩ := check_published ht hpointers [1]
  obtain ⟨hcheck', hps'⟩ := check_published ht (fun kind _ => View.shows_revealAll kind) [2]
  obtain ⟨hstore, hphase⟩ := after_sharedRun (check_around hcheck hps) (check_around hcheck' hps')
  obtain ⟨hrecords, hfleet⟩ := records_never_conflict bareRules
  have hsame := hrecords tx tx' _ _ _ _ _ _ (hcheck fun _ => .ok none) (hcheck' fun _ => .ok none) rfl
  have hmoves : ∀ m ∈ sharedRun tx tx', m.2.Orderly (bareRules.Vouches [tx, tx']) :=
    sharedRun_orderly List.mem_cons_self (List.mem_cons_of_mem _ List.mem_cons_self)
  have hunopposed := hfleet [tx, tx'] .empty 2 fun r hr => (by cases hr)
  exact ⟨hview, hcheck, hcheck', hsame, hstore, hphase, hunopposed.imp_left fun h => h _ hmoves⟩

end Backchain

end VeiledLedger
