/-
  VeiledLedger.Proofs.Backchain.Closure — every record stands on the records of its ancestors.

  A walk stands at the end of a descent: from the transaction that was asked for, through one
  frame after another, each having followed the pointer that leads to the next. All pointers
  that a frame followed before that one lead to stored transactions. When a frame has no
  pointer left, all of them do, and only then is its record put.

  `passed` is what is known of the records that checks have returned: all that happened in
  one run, or what a fixed check says. The store only grows, so what has been found stored
  stays stored, whatever other walks do, and no failure takes anything back.

  Main statement: `stored_closed`, for every schedule that starts with an empty store. Records
  are put under the id that they carry, so it has to be that of the transaction which was
  checked (`misnamed_stored`).
-/

import VeiledLedger.Proofs.Backchain.Pointers
import VeiledLedger.Proofs.Backchain.Step

namespace VeiledLedger

namespace Backchain

variable (l : Ledger) (passed : Record → Prop)

structure Frame.Checked (f : Frame) : Prop where
  id_record : f.record.id = f.claim.id
  passed : passed f.record

/-- The frame's own check has passed, and all its pointers lead to stored transactions. -/
structure Frame.Complete (σ : RecordStore) (f : Frame) : Prop extends f.Checked passed where
  pointers : ∃ ps, l.pointers? f.claim.id = some ps ∧ ∀ p ∈ ps, σ.Holds p.txId

/-- The way from `root` down to a claim. -/
inductive Descent (σ : RecordStore) (root : TransactionId) : Claim → List Frame → Prop
  | root : Descent σ root ⟨root, none⟩ []
  | down (f : Frame) (done : List StatePointer) (p : StatePointer) {stack : List Frame} :
      Descent σ root f.claim stack → f.Checked passed → l.pointers? f.claim.id = some (done ++ p :: f.pending) →
      (∀ q ∈ done, σ.Holds q.txId) → Descent σ root ⟨p.txId, some p⟩ (f :: stack)

/-- Where a walk stands. A walk that unwinds has nothing to show any more. -/
def Walk.OnTrack (σ : RecordStore) (w : Walk) : Prop :=
  match w.phase with
  | .enter target | .lookUp target | .visit target | .blocked target => Descent l passed σ w.root target w.stack
  | .check claim | .judge claim _ => Descent l passed σ w.root claim w.stack
  | .store f => Descent l passed σ w.root f.claim w.stack ∧ f.Complete l passed σ
  | .publish f => Descent l passed σ w.root f.claim w.stack ∧ σ.get? f.claim.id = some f.record
  | .done (.ok r) => σ.get? w.root = some r
  | .unwind _ _ | .done (.error _) => True

/-- A stored record has passed its check and stands on stored records, and on finitely many. -/
structure Founded (σ : RecordStore) (r : Record) : Prop where
  passed : passed r
  pointers : ∃ ps, l.pointers? r.id = some ps ∧ ∀ p ∈ ps, σ.Holds p.txId
  grounded : l.Grounded r.id

structure Closed (s : World) : Prop where
  walks : ∀ w ∈ s.walks, w.OnTrack l passed s.store
  slots : ∀ id r, s.table.slot? id = some (.verified r) → s.store.get? id = some r
  records : ∀ r ∈ s.store.records, Founded l passed s.store r

variable {l passed} {c : Conditions} {a : Around} {t t' : Table} {σ σ' : RecordStore} {w w' : Walk}

theorem Descent.mono {root : TransactionId} {claim : Claim} {stack : List Frame}
    (h : Descent l passed σ root claim stack) (hσ : σ'.Extends σ) : Descent l passed σ' root claim stack := by
  induction h with
  | root => exact .root
  | down f done p _ hc hp hdone ih => exact .down f done p ih hc hp fun q hq => hσ.holds (hdone q hq)

theorem Frame.Complete.mono {f : Frame} (h : f.Complete l passed σ) (hσ : σ'.Extends σ) : f.Complete l passed σ' := by
  obtain ⟨hc, ps, hps, hall⟩ := h
  exact ⟨hc, ps, hps, fun p hp => hσ.holds (hall p hp)⟩

theorem Founded.mono {r : Record} (h : Founded l passed σ r) (hσ : σ'.Extends σ) : Founded l passed σ' r := by
  obtain ⟨hc, ⟨ps, hps, hall⟩, hg⟩ := h
  exact ⟨hc, ⟨ps, hps, fun p hp => hσ.holds (hall p hp)⟩, hg⟩

namespace Walk

theorem OnTrack.mono (h : w.OnTrack l passed σ) (hσ : σ'.Extends σ) : w.OnTrack l passed σ' := by
  unfold OnTrack at h ⊢
  cases hp : w.phase with
  | enter | lookUp | visit | blocked | check | judge => simp only [hp] at h ⊢; exact h.mono hσ
  | store f => simp only [hp] at h ⊢; exact ⟨h.1.mono hσ, h.2.mono hσ⟩
  | publish f => simp only [hp] at h ⊢; exact ⟨h.1.mono hσ, hσ _ _ h.2⟩
  | unwind => trivial
  | done r =>
    cases r with
    | ok r => simp only [hp] at h ⊢; exact hσ _ _ h
    | error e => trivial

/-! ## A step keeps its walk on track -/

theorem follow_onTrack {f : Frame} {stack : List Frame} (done : List StatePointer)
    (hd : Descent l passed σ w.root f.claim stack) (hc : f.Checked passed)
    (hp : l.pointers? f.claim.id = some (done ++ f.pending)) (hdone : ∀ q ∈ done, σ.Holds q.txId) :
    (w.follow f stack).OnTrack l passed σ := by
  unfold follow
  split
  · rename_i p ps hpending
    exact .down { f with pending := ps } done p hd ⟨hc.id_record, hc.passed⟩ (by rw [hp, hpending]) hdone
  · rename_i hpending
    exact ⟨hd, hc, done, by rw [hp, hpending, List.append_nil], hdone⟩

theorem resolved_onTrack {target : Claim} {r : Record} (hd : Descent l passed σ w.root target w.stack)
    (hr : σ.get? target.id = some r) : (w.resolved r).OnTrack l passed σ := by
  unfold resolved
  split
  · rename_i hs
    rw [hs] at hd
    cases hd
    exact hr
  · rename_i f stack hs
    rw [hs] at hd
    cases hd with
    | down _ done p hd hc hp hdone =>
      refine follow_onTrack (done ++ [p]) hd hc (by simpa using hp) fun q hq => ?_
      rcases List.mem_append.mp hq with hq | hq
      · exact hdone q hq
      · rw [List.mem_singleton.mp hq]
        exact ⟨r, hr⟩

theorem Looks.descent {target : Claim} (h : Looks a t σ w target t' σ') (hw : w.OnTrack l passed σ) :
    Descent l passed σ w.root target w.stack := by
  cases h with
  | first hp | again hp => simpa only [OnTrack, hp] using hw

theorem Step.onTrack (h : Step (c.surroundings l) t σ w t' σ' w') (hw : w.OnTrack l passed σ)
    (hslots : ∀ id r, t.slot? id = some (.verified r) → σ.get? id = some r)
    (hcheck : ∀ claim r ps, w.phase = .check claim → c.examine l claim.id = .ok (r, ps) → r.id = claim.id ∧ passed r) :
    w'.OnTrack l passed σ' := by
  cases h with
  | entered hp | missing hp | faulted hp =>
    simp only [OnTrack, hp] at hw
    exact hw
  | found hp hr =>
    simp only [OnTrack, hp] at hw
    exact resolved_onTrack hw (Conditions.find_eq_ok.mp hr).2
  | known hl hr =>
    cases hl.store
    exact resolved_onTrack (hl.descent hw) (hslots _ _ hr)
  | waits hl | takes hl =>
    cases hl.store
    exact hl.descent hw
  | passed hp he =>
    simp only [OnTrack, hp] at hw
    obtain ⟨hid, hpassed⟩ := hcheck _ _ _ hp he
    exact follow_onTrack [] hw ⟨hid, hpassed⟩ (Conditions.pointers?_of_examine he) (by simp)
  | @keeps f hp hk =>
    simp only [OnTrack, hp] at hw
    have hput := Conditions.keep_eq_ok hk
    refine ⟨hw.1.mono (RecordStore.extends_put hput), ?_⟩
    rw [← hw.2.id_record]
    exact RecordStore.get?_put_self hput
  | publishes hp =>
    simp only [OnTrack, hp] at hw
    exact resolved_onTrack hw.1 hw.2
  | rests hp => exact hw
  | stopped | unreadable | stoppedWaiting | refused | closed | rejects | judged | loses | settles | fails => trivial

/-- A record that a step puts is founded. -/
theorem Step.founded (h : Step (c.surroundings l) t σ w t' σ' w') (hw : w.OnTrack l passed σ)
    (hrecords : ∀ r ∈ σ.records, Founded l passed σ r) : σ'.Extends σ ∧ ∀ r ∈ σ'.records, Founded l passed σ' r := by
  rcases h.store with rfl | ⟨f, hp, hput⟩
  · exact ⟨.refl _, hrecords⟩
  · have hσ := RecordStore.extends_put hput
    refine ⟨hσ, fun r hr => ?_⟩
    rcases RecordStore.mem_put hput hr with hr | rfl
    · exact (hrecords r hr).mono hσ
    · simp only [OnTrack, hp] at hw
      obtain ⟨-, ⟨hid, hpassed⟩, ps, hps, hall⟩ := hw
      rw [← hid] at hps
      refine Founded.mono ⟨hpassed, ⟨ps, hps, hall⟩, ?_⟩ hσ
      -- each transaction it points to is stored already, hence grounded
      refine Acc.intro _ fun x hx => ?_
      obtain ⟨qs, hqs, q, hq, rfl⟩ := hx
      cases hps.symm.trans hqs
      obtain ⟨r', hr'⟩ := hall q hq
      have := (hrecords r' (RecordStore.mem_of_get? hr')).grounded
      rwa [RecordStore.id_of_get? hr'] at this

end Walk

/-! ## Runs -/

theorem closed_move {s : World} (h : Closed l passed s) {m : Move}
    (hm : ∀ id r ps, s.checkOf? l m = some (id, .ok (r, ps)) → r.id = id ∧ passed r) : Closed l passed (s.move l m) := by
  cases m with
  | request id =>
    refine ⟨fun w hw => ?_, h.slots, h.records⟩
    rcases List.mem_append.mp hw with hw | hw
    · exact h.walks w hw
    · rw [List.mem_singleton.mp hw]
      exact Descent.root
  | advance i c =>
    rcases World.proceed_cases s i (c.surroundings l) with he | ⟨w, t', σ', w', hi, hstep, he⟩
    · rw [World.move, World.advance_eq_proceed, he]
      exact h
    · have hmem := List.mem_of_getElem? hi
      have hw := h.walks w hmem
      have hcheck (claim : Claim) (r : Record) (ps : List StatePointer) (hp : w.phase = .check claim)
          (hr : c.examine l claim.id = .ok (r, ps)) : r.id = claim.id ∧ passed r := by
        exact hm claim.id r ps (by simp [World.checkOf?, hi, hp, hr])
      obtain ⟨hσ, hrecords⟩ := hstep.founded hw h.records
      rw [World.move, World.advance_eq_proceed, he]
      refine ⟨fun x hx => ?_, fun id r hr => ?_, hrecords⟩
      · rcases List.mem_or_eq_of_mem_set hx with hx | rfl
        · exact (h.walks x hx).mono hσ
        · exact hstep.onTrack hw h.slots hcheck
      · rcases hstep.verified_slot hr with hold | ⟨f, hp, rfl, rfl⟩
        · exact hσ _ _ (h.slots id r hold)
        · simp only [Walk.OnTrack, hp] at hw
          exact hσ _ _ hw.2
  | restart => exact ⟨fun w hw => (by cases hw), fun id r hr => (by cases hr), h.records⟩

theorem closed_run {s : World} (h : Closed l passed s) {schedule : List Move}
    (hp : ∀ id r ps, (id, .ok (r, ps)) ∈ s.checks l schedule → r.id = id ∧ passed r) :
    Closed l passed (s.run l schedule) := by
  induction schedule generalizing s with
  | nil => exact h
  | cons m ms ih =>
    refine ih (closed_move h fun id r ps hm => hp id r ps ?_) fun id r ps hm => hp id r ps ?_
    · exact List.mem_append_left _ (by rw [hm]; exact List.mem_singleton.mpr rfl)
    · exact List.mem_append_right _ hm

theorem closed_start : Closed l passed (.start .empty) :=
  ⟨fun w hw => (by cases hw), fun id r hr => (by cases hr), fun r hr => (by cases hr)⟩

/-- Checks return records that carry the id of their transaction. Whatever the requests, the order
    of their steps and the failures on the way, and wherever the process stops: a check has passed
    for each stored record, and all that its transaction points to is stored. A transaction from
    which a cycle is reached is never stored. -/
theorem stored_closed (l : Ledger) {schedule : List Move} (hnamed : ∀ m ∈ schedule, m.Named) :
    let s := (World.start .empty).run l schedule
    (∀ r ∈ s.store.records, ∃ ps, (r.id, .ok (r, ps)) ∈ (World.start .empty).checks l schedule ∧
      l.pointers? r.id = some ps ∧ ∀ p ∈ ps, s.store.Holds p.txId) ∧
    ∀ id, l.ReachesCycle id → ¬s.store.Holds id := by
  intro s
  let passed (r : Record) : Prop :=
    ∃ ps, (r.id, .ok (r, ps)) ∈ (World.start .empty).checks l schedule ∧ l.pointers? r.id = some ps
  have hs : Closed l passed s := by
    refine closed_run closed_start fun id r ps hm => ?_
    obtain ⟨i, c, hmove, hx⟩ := World.exists_of_mem_checks hm
    obtain rfl : r.id = id := Conditions.id_of_examine (hnamed _ hmove) hx
    exact ⟨rfl, ps, hm, Conditions.pointers?_of_examine hx⟩
  constructor
  · intro r hr
    obtain ⟨⟨ps, hm, hps⟩, ⟨qs, hqs, hall⟩, -⟩ := hs.records r hr
    cases hps.symm.trans hqs
    exact ⟨ps, hm, hps, hall⟩
  · rintro id hc ⟨r, hr⟩
    have hg := (hs.records r (RecordStore.mem_of_get? hr)).grounded
    rw [RecordStore.id_of_get? hr] at hg
    exact hg.not_reachesCycle hc

/-! ## Small ledgers -/

def lone : Published := ⟨.zero, [], .standard, ⟨GroupKind.all.map (⟨·, []⟩)⟩⟩

def spending (parent id : TransactionId) : Published where
  id := id
  proof := []
  padding := .standard
  view := ⟨GroupKind.all.map fun kind =>
    ⟨kind, if kind = .inputs then [.visible (Bytes.ofNat 4 1 ++ parent.toBytes ++ Bytes.zeros 4) .zero] else []⟩⟩

def loneLedger : Ledger where
  registry := .builtin
  content id := if id = .zero then some lone else none
  id_content := by
    intro id tx h
    split at h
    · rename_i hid
      cases h
      exact hid.symm
    · cases h

def other : TransactionId := ⟨List.replicate 32 1, rfl⟩

def pairLedger (parent : TransactionId) : Ledger where
  registry := .builtin
  content id := if id = .zero then some lone else if id = other then some (spending parent other) else none
  id_content := by
    intro id tx h
    split at h
    · rename_i hid
      cases h
      exact hid.symm
    · split at h
      · rename_i hid
        cases h
        exact hid.symm
      · cases h

def alwaysPasses : Judgment := fun tx => .ok ⟨tx.id, tx.id, [], true⟩

theorem named_alwaysPasses : alwaysPasses.Named := by
  intro tx r h
  cases h
  rfl

def calm : Conditions := ⟨none, fun _ => none, alwaysPasses, none, none⟩

def pairRequest : List Move := .request other :: List.replicate 12 (.advance 0 calm)

theorem pair_stored :
    let s := (World.start .empty).run (pairLedger .zero) pairRequest
    (∀ m ∈ pairRequest, m.Named) ∧ s.store.records.map Record.id = [.zero, other] ∧
    (pairLedger .zero).pointers? other = some [⟨.zero, 0⟩] ∧
    ∀ id, (pairLedger .zero).ReachesCycle id → ¬s.store.Holds id := by
  intro s
  have hnamed : ∀ m ∈ pairRequest, m.Named := by simp [pairRequest, Move.Named, calm, named_alwaysPasses]
  exact ⟨hnamed, rfl, rfl, (stored_closed (pairLedger .zero) hnamed).2⟩

def misnaming : Conditions := { calm with judgment := fun tx => .ok ⟨other, tx.id, [], true⟩ }

def misnamedRequest : List Move := .request .zero :: List.replicate 6 (.advance 0 misnaming)

/-- A record that carries another id is stored under that id: no check was made of the other
    transaction, which points to itself. -/
theorem misnamed_stored :
    let s := (World.start .empty).run (pairLedger other) misnamedRequest
    s.store.Holds other ∧ (∀ x, (other, x) ∉ (World.start .empty).checks (pairLedger other) misnamedRequest) ∧
    (pairLedger other).ReachesCycle other := by
  have hchecks : ((World.start .empty).checks (pairLedger other) misnamedRequest).map Prod.fst = [.zero] := rfl
  have hne : other ≠ .zero := by decide
  have hloop : (pairLedger other).Points other other := ⟨[⟨other, 0⟩], rfl, ⟨other, 0⟩, by simp, rfl⟩
  refine ⟨⟨⟨other, .zero, [], true⟩, rfl⟩, fun x hx => ?_, ⟨other, .refl, .single hloop⟩⟩
  have hmem := List.mem_map_of_mem (f := Prod.fst) hx
  rw [hchecks] at hmem
  exact hne (List.mem_singleton.mp hmem)

end Backchain

end VeiledLedger
