/-
  VeiledLedger.Proofs.Backchain.Records — what is verified is stored.

  Of sources and checks it is assumed only that a record carries the id of its transaction
  (`Around.Named`), and of the store that it loses nothing and keeps what it says it has kept
  (`Around.Faithful`). A walk puts a record before it publishes it, so a slot says that a
  transaction is verified only after the store has its record.

  Main statement: `recorded_after`.
-/

import VeiledLedger.Proofs.Backchain.Pointers
import VeiledLedger.Proofs.Backchain.Step

namespace VeiledLedger.Backchain

/-- The store loses no record, and has a record that it says it has kept. -/
structure Around.Faithful (a : Around) : Prop where
  stopped : ∀ σ, (a.stopped.run σ).2.Extends σ
  find : ∀ id σ, ((a.find id).run σ).2.Extends σ
  check : ∀ id σ, ((a.check id).run σ).2.Extends σ
  store : ∀ r σ, ((a.store r).run σ).2.Extends σ
  kept : ∀ r σ, ((a.store r).run σ).1 = .ok () → ((a.store r).run σ).2.get? r.id = some r

/-- A check that passes returns a record that carries the id of its transaction. -/
def Around.Named (a : Around) : Prop := ∀ id σ r ps, ((a.check id).run σ).1 = .ok (r, ps) → r.id = id

def Event.Faithful : Event → Prop
  | .request _ => True
  | .step _ a => a.Faithful

def Event.Named : Event → Prop
  | .request _ => True
  | .step _ a => a.Named

@[simp] theorem Event.faithful_request (id : TransactionId) : (request id).Faithful := trivial

@[simp] theorem Event.named_request (id : TransactionId) : (request id).Named := trivial

theorem Conditions.surroundings_faithful (c : Conditions) (l : Ledger) : Around.Faithful (c.surroundings l) where
  stopped := .refl
  find _ := .refl
  check _ := .refl
  store r σ := by
    show (c.keep σ r).2.Extends σ
    rcases c.keep_cases σ r with he | hput
    · rw [he]
      exact .refl σ
    · exact RecordStore.extends_put hput
  kept _ _ h := RecordStore.get?_put_self (keep_eq_ok h)

theorem Conditions.surroundings_named {c : Conditions} (hnamed : c.judgment.Named) (l : Ledger) :
    Around.Named (c.surroundings l) :=
  fun _ _ _ _ h => id_of_examine hnamed h

def Frame.Named (f : Frame) : Prop := f.record.id = f.claim.id

/-- The records in the hands of a walk are those of its transactions, and one that it is about
    to publish is stored. -/
structure Walk.Recorded (σ : RecordStore) (w : Walk) : Prop where
  stack : ∀ f ∈ w.stack, f.Named
  store : ∀ f, w.phase = .store f → f.Named
  publish : ∀ f, w.phase = .publish f → σ.get? f.claim.id = some f.record

structure Recorded (s : World) : Prop where
  walks : ∀ w ∈ s.walks, w.Recorded s.store
  slots : ∀ id r, s.table.slot? id = some (.verified r) → s.store.get? id = some r

namespace Walk

variable {a : Around} {t t' : Table} {σ σ' : RecordStore} {w w' : Walk}

theorem Recorded.mono (h : w.Recorded σ) (hσ : σ'.Extends σ) : w.Recorded σ' :=
  ⟨h.stack, h.store, fun f hp => hσ _ _ (h.publish f hp)⟩

/-- A walk that neither stores nor publishes. -/
theorem recorded_onward (hs : ∀ g ∈ w.stack, g.Named) (hstore : ∀ f, w.phase ≠ .store f)
    (hpublish : ∀ f, w.phase ≠ .publish f) : w.Recorded σ :=
  ⟨hs, fun f hp => absurd hp (hstore f), fun f hp => absurd hp (hpublish f)⟩

theorem follow_recorded {f : Frame} {stack : List Frame} (hf : f.Named) (hs : ∀ g ∈ stack, g.Named) :
    (w.follow f stack).Recorded σ := by
  unfold follow
  split
  · refine recorded_onward ?_ (by simp) (by simp)
    intro g hg
    rcases List.mem_cons.mp hg with rfl | hg
    · exact hf
    · exact hs g hg
  · refine ⟨hs, ?_, by simp⟩
    intro g hp
    cases hp
    exact hf

theorem resolved_recorded (hs : ∀ g ∈ w.stack, g.Named) (r : Record) : (w.resolved r).Recorded σ := by
  unfold resolved
  split
  · exact recorded_onward hs (by simp) (by simp)
  · rename_i f stack he
    rw [he] at hs
    exact follow_recorded (hs f List.mem_cons_self) fun g hg => hs g (List.mem_cons_of_mem _ hg)

theorem Looks.extends {target : Claim} (ha : a.Faithful) (h : Looks a t σ w target t' σ') : σ'.Extends σ := by
  cases h with
  | first => exact .refl σ
  | again => exact ha.stopped σ

theorem Step.extends (ha : a.Faithful) (h : Step a t σ w t' σ' w') : σ'.Extends σ := by
  cases h with
  | stopped | entered | stoppedWaiting | judged => exact ha.stopped σ
  | unreadable | found | missing => exact ha.find _ σ
  | passed | faulted | rejects => exact ha.check _ σ
  | keeps | loses => exact ha.store _ σ
  | known hl | refused hl | closed hl | waits hl | takes hl => exact hl.extends ha
  | publishes | settles | fails | rests => exact .refl σ

theorem Step.recorded (ha : a.Faithful) (hnamed : a.Named) (h : Step a t σ w t' σ' w') (hw : w.Recorded σ) :
    w'.Recorded σ' := by
  cases h with
  | stopped | unreadable | stoppedWaiting | refused | closed =>
    exact recorded_onward (by simp [met]) (by simp [met]) (by simp [met])
  | rejects | judged | loses => exact recorded_onward (by simp [failed]) (by simp [failed]) (by simp [failed])
  | entered | missing | waits | takes | faulted | settles | fails => exact recorded_onward hw.stack (by simp) (by simp)
  | found | known | publishes => exact resolved_recorded hw.stack _
  | passed _ he => exact follow_recorded (hnamed _ _ _ _ he) hw.stack
  | @keeps f hp hk =>
    refine ⟨hw.stack, by simp, ?_⟩
    intro g hg
    cases hg
    exact hw.store f hp ▸ ha.kept f.record σ hk
  | rests => exact hw

end Walk

theorem recorded_start (σ : RecordStore) : Recorded (.start σ) where
  walks := by
    intro w hw
    cases hw
  slots := by
    intro id r hr
    cases hr

theorem recorded_next {s : World} (h : Recorded s) {e : Event} (he : e.Faithful) (hnamed : e.Named) :
    Recorded (s.next e) := by
  cases e with
  | request id =>
    refine ⟨?_, h.slots⟩
    intro w hw
    rcases List.mem_append.mp hw with hw | hw
    · exact h.walks w hw
    · rw [List.mem_singleton.mp hw]
      exact Walk.recorded_onward (by simp [Walk.start]) (by simp [Walk.start]) (by simp [Walk.start])
  | step i a =>
    show Recorded (s.proceed i a)
    rcases World.proceed_cases s i a with hsame | ⟨w, t', σ', w', hi, hstep, hnew⟩
    · rw [hsame]
      exact h
    · have hw := h.walks w (List.mem_of_getElem? hi)
      have hσ := hstep.extends he
      rw [hnew]
      refine ⟨?_, ?_⟩
      · intro x hx
        rcases List.mem_or_eq_of_mem_set hx with hx | rfl
        · exact (h.walks x hx).mono hσ
        · exact hstep.recorded he hnamed hw
      · intro id r hr
        rcases hstep.verified_slot hr with hold | ⟨f, hp, rfl, rfl⟩
        · exact hσ _ _ (h.slots id r hold)
        · exact hσ _ _ (hw.publish f hp)

theorem World.extends_next {s : World} {e : Event} (he : e.Faithful) : (s.next e).store.Extends s.store := by
  cases e with
  | request id => exact .refl s.store
  | step i a =>
    show (s.proceed i a).store.Extends s.store
    rcases World.proceed_cases s i a with hsame | ⟨w, t', σ', w', -, hstep, hnew⟩
    · rw [hsame]
      exact .refl s.store
    · rw [hnew]
      exact hstep.extends he

theorem recorded_after (σ : RecordStore) {events : List Event} (h : ∀ e ∈ events, e.Faithful)
    (hnamed : ∀ e ∈ events, e.Named) : Recorded ((World.start σ).after events) :=
  World.after_induction (recorded_start σ) fun e he _ hs => recorded_next hs (h e he) (hnamed e he)

end VeiledLedger.Backchain
