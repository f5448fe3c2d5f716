/-
  VeiledLedger.Proofs.Backchain.Release — what a request leaves behind.

  A request that fails settles its claims one after the other, and meanwhile others go on. So
  each transaction that a request has ever claimed is followed from the claim onwards. At every
  moment it is still held, or verified, or rejected because the request fails for good, or it
  was given back because the request fails for now, and then it is free until another request
  takes it (`Accounted`). A request that is done holds nothing any more.

  Main statement: `finished_leaves_nothing`. Slots are given back one by one, so another request
  may hold one of them before the failed one is done (`claims_left`).
-/

import Mathlib.Data.List.Induction
import VeiledLedger.Proofs.Backchain.Checks
import VeiledLedger.Proofs.Backchain.Records

namespace VeiledLedger

/-- The errors that are remembered: no retry can do away with them. -/
def BackchainError.isFinal : BackchainError → Bool
  | cyclic _ _ => true
  | rejected _ _ reason => !reason.retryable
  | store _ | interrupted _ => false

namespace Backchain

theorem Failure.isFinal_toError (f : Failure) (root : TransactionId) : (f.toError root).isFinal = f.cause.isFinal := by
  unfold toError
  cases f.cause <;> rfl

/-! ## Claims in the course of events -/

namespace World

def ClaimedIn (s : World) (events : List Event) (i : RequestId) (id : TransactionId) : Prop :=
  ∃ before, before <+: events ∧ (s.after before).table.slot? id = some (.verifying i)

/-- Request `i` has claimed the transaction, and another request has claimed it since. -/
def RetakenIn (s : World) (events : List Event) (i : RequestId) (id : TransactionId) : Prop :=
  ∃ before rest j, events = before ++ rest ∧ (s.after before).table.slot? id = some (.verifying i) ∧ j ≠ i ∧
    (s.after before).ClaimedIn rest j id

variable {s : World} {events : List Event} {i : RequestId} {id : TransactionId}

theorem ClaimedIn.concat (h : s.ClaimedIn events i id) (e : Event) : s.ClaimedIn (events ++ [e]) i id := by
  obtain ⟨before, hb, hs⟩ := h
  exact ⟨before, hb.trans (List.prefix_append events [e]), hs⟩

theorem RetakenIn.concat (h : s.RetakenIn events i id) (e : Event) : s.RetakenIn (events ++ [e]) i id := by
  obtain ⟨before, rest, j, rfl, hs, hj, hc⟩ := h
  exact ⟨before, rest ++ [e], j, List.append_assoc .., hs, hj, hc.concat e⟩

theorem claimedIn_concat {e : Event} (h : s.ClaimedIn (events ++ [e]) i id) :
    s.ClaimedIn events i id ∨ (s.after (events ++ [e])).table.slot? id = some (.verifying i) := by
  obtain ⟨before, hb, hs⟩ := h
  rcases List.prefix_concat_iff.mp hb with rfl | hb
  · exact .inr hs
  · exact .inl ⟨before, hb, hs⟩

/-- Another request takes what `i` has claimed before. -/
theorem retakenIn_of_claimedIn (h : s.ClaimedIn events i id) {e : Event} {j : RequestId} (hj : j ≠ i)
    (hs : (s.after (events ++ [e])).table.slot? id = some (.verifying j)) : s.RetakenIn (events ++ [e]) i id := by
  obtain ⟨before, ⟨rest, rfl⟩, hi⟩ := h
  refine ⟨before, rest ++ [e], j, List.append_assoc .., hi, hj, rest ++ [e], List.prefix_rfl, ?_⟩
  rwa [← after_append, ← List.append_assoc]

end World

/-! ## Each claim is accounted for -/

def Walk.Failed (w : Walk) (final : Bool) : Prop :=
  match w.phase with
  | .unwind _ f => f.cause.isFinal = final
  | .done (.error e) => e.isFinal = final
  | _ => False

theorem Walk.Step.failed {a : Around} {t t' : Table} {σ σ' : RecordStore} {w w' : Walk} (h : Step a t σ w t' σ' w')
    {final : Bool} (hw : w.Failed final) : w'.Failed final := by
  cases h with
  | settles hp =>
    simp only [Failed, hp] at hw
    exact hw
  | @fails f hp =>
    simp only [Failed, hp] at hw
    exact (f.isFinal_toError w.root).trans hw
  | rests => exact hw
  | known hl | refused hl | closed hl | waits hl | takes hl =>
    rcases hl.phase with hp | hp <;> simp [Failed, hp] at hw
  | stopped hp | entered hp | unreadable hp | found hp | missing hp | stoppedWaiting hp | passed hp | faulted hp
  | rejects hp | judged hp | keeps hp | loses hp | publishes hp => simp [Failed, hp] at hw

def World.Failed (s : World) (i : RequestId) (final : Bool) : Prop :=
  ∃ w, s.walks[i]? = some w ∧ w.Failed final

theorem World.Failed.next {s : World} {i : RequestId} {final : Bool} (h : s.Failed i final) (e : Event) :
    (s.next e).Failed i final := by
  obtain ⟨w, hw, hf⟩ := h
  cases e with
  | request id => exact ⟨w, World.enroll_walk hw id, hf⟩
  | step j a =>
    by_cases hij : i = j
    · subst hij
      obtain ⟨w', hstep, hw'⟩ := World.proceed_step hw a
      exact ⟨w', hw', hstep.failed hf⟩
    · exact ⟨w, (World.proceed_of_ne hij s a).trans hw, hf⟩

theorem World.Failed.not_checking {s : World} {i : RequestId} {final : Bool} (h : s.Failed i final)
    (id : TransactionId) : ¬s.Checking i id := by
  intro hc
  obtain ⟨w, hw, hf⟩ := h
  obtain ⟨w', claim, hw', hp, -⟩ := hc
  cases hw.symm.trans hw'
  simp [Walk.Failed, hp] at hf

/-- What has become of a transaction that request `i` claimed in the course of the events. -/
inductive Accounted (s : World) (events : List Event) (i : RequestId) (id : TransactionId) : Prop
  | held : (s.after events).table.slot? id = some (.verifying i) → Accounted s events i id
  | verified {r} : (s.after events).table.slot? id = some (.verified r) → Accounted s events i id
  | rejected {f} : (s.after events).table.slot? id = some (.rejected f) → (s.after events).Failed i true →
      Accounted s events i id
  | released : (s.after events).table.slot? id = none ∨ s.RetakenIn events i id → (s.after events).Failed i false →
      Accounted s events i id

section
variable {s : World} {events : List Event} {i : RequestId} {id : TransactionId}

/-- Its own request settles the transaction that it holds, and nobody else. -/
theorem Accounted.of_held (h : Exclusive (s.after events)) (hs : (s.after events).table.slot? id = some (.verifying i))
    (e : Event) : Accounted s (events ++ [e]) i id := by
  have hnext := World.after_concat s events e
  cases e with
  | request root => exact .held (hnext ▸ hs)
  | step j a =>
    replace hnext : s.after (events ++ [.step j a]) = (s.after events).proceed j a := hnext
    cases h.turn j a id with
    | stays he => exact .held (by rw [hnext, he, hs])
    | claimed hn => cases hn.symm.trans hs
    | verified _ _ _ _ he => exact .verified (hnext ▸ he)
    | @settled w claim cs f ho hw hp _ he =>
      cases ho.symm.trans hs
      have hfailed : ((s.after events).next (.step i a)).Failed i f.cause.isFinal :=
        World.Failed.next ⟨w, hw, by simp [Walk.Failed, hp]⟩ _
      rw [← World.after_concat] at hfailed
      rw [← hnext] at he
      cases hf : f.cause.isFinal with
      | true =>
        rw [hf] at he hfailed
        exact .rejected he hfailed
      | false =>
        rw [hf] at he hfailed
        exact .released (.inl he) hfailed

/-- What was given back is free until another request takes it: one that has failed takes
    nothing any more. -/
theorem free_or_retaken (h : Exclusive (s.after events)) (hc : s.ClaimedIn events i id)
    (hfree : (s.after events).table.slot? id = none) {e : Event} (hf : (s.after (events ++ [e])).Failed i false) :
    (s.after (events ++ [e])).table.slot? id = none ∨ s.RetakenIn (events ++ [e]) i id := by
  have hnext := World.after_concat s events e
  cases e with
  | request root => exact .inl (hnext ▸ hfree)
  | step j a =>
    replace hnext : s.after (events ++ [.step j a]) = (s.after events).proceed j a := hnext
    cases h.turn j a id with
    | stays he => exact .inl (by rw [hnext, he, hfree])
    | verified ho | settled ho => cases ho.symm.trans hfree
    | claimed _ hs hcheck =>
      have hj : j ≠ i := by
        intro he
        rw [hnext] at hf
        exact hf.not_checking id (he ▸ hcheck)
      exact .inr (World.retakenIn_of_claimedIn hc hj (hnext ▸ hs))

theorem Accounted.concat (h : Exclusive (s.after events)) (hc : s.ClaimedIn events i id)
    (ha : Accounted s events i id) (e : Event) : Accounted s (events ++ [e]) i id := by
  have hnext := World.after_concat s events e
  cases ha with
  | held hs => exact .of_held h hs e
  | verified hs => exact .verified (by rw [hnext, h.decided_next (.inl ⟨_, hs⟩), hs])
  | rejected hs hf =>
    refine .rejected (by rw [hnext, h.decided_next (.inr ⟨_, hs⟩), hs]) ?_
    rw [hnext]
    exact hf.next e
  | released hs hf =>
    have hfailed : (s.after (events ++ [e])).Failed i false := hnext ▸ hf.next e
    refine .released ?_ hfailed
    rcases hs with hfree | hre
    · exact free_or_retaken h hc hfree hfailed
    · exact .inr (hre.concat e)

theorem accounted_of_claimedIn (h : Exclusive s) (hc : s.ClaimedIn events i id) : Accounted s events i id := by
  induction events using List.reverseRecOn with
  | nil =>
    obtain ⟨before, hb, hs⟩ := hc
    rw [List.prefix_nil.mp hb] at hs
    exact .held hs
  | append_singleton events e ih =>
    rcases World.claimedIn_concat hc with hold | hs
    · exact (ih hold).concat (h.after events) hold e
    · exact .held hs

/-- A request changes the slot of no transaction that it has not claimed. -/
theorem claimedIn_of_changes (h : Exclusive (s.after events)) {a : Around}
    (hne : (s.after (events ++ [.step i a])).table.slot? id ≠ (s.after events).table.slot? id) :
    s.ClaimedIn (events ++ [.step i a]) i id := by
  have hnext : s.after (events ++ [.step i a]) = (s.after events).proceed i a := World.after_concat s events _
  cases h.turn i a id with
  | stays he => exact absurd (hnext ▸ he) hne
  | claimed _ hs => exact ⟨_, List.prefix_rfl, hnext ▸ hs⟩
  | verified ho | settled ho => exact ⟨events, List.prefix_append .., ho⟩

end

/-! ## A request that is done -/

theorem Exclusive.done_holds_nothing {s : World} (h : Exclusive s) {i : RequestId} {w : Walk}
    (hw : s.walks[i]? = some w) {res : Except BackchainError Record} (hp : w.phase = .done res) :
    (∀ id, s.table.slot? id ≠ some (.verifying i)) ∧ s.table.waiting.get? i = none := by
  constructor
  · intro id hs
    obtain ⟨w', hw', claim, hmem, -⟩ := h.owned.owner id i hs
    cases hw.symm.trans hw'
    rw [Walk.claims_of_done (h.cleared i w hw) hp] at hmem
    cases hmem
  · cases hwait : s.table.waiting.get? i with
    | none => rfl
    | some id =>
      obtain ⟨w', target, hw', hb, -⟩ := h.owned.waits i id hwait
      cases hw.symm.trans hw'
      cases hp.symm.trans hb

theorem World.Failed.error {s : World} {i : RequestId} {final : Bool} (h : s.Failed i final) {w : Walk}
    (hw : s.walks[i]? = some w) {res : Except BackchainError Record} (hp : w.phase = .done res) :
    ∃ e, res = .error e ∧ e.isFinal = final := by
  obtain ⟨w', hw', hf⟩ := h
  cases hw.symm.trans hw'
  cases res with
  | ok r => simp [Walk.Failed, hp] at hf
  | error e =>
    simp only [Walk.Failed, hp] at hf
    exact ⟨e, rfl, hf⟩

/-- The store keeps what it says it has kept, and records carry the id of their transaction. Once
    a request is done, whatever its outcome and whatever the others do: it holds no slot and has
    no wait. What it had claimed is verified, with the record in the store; or it is rejected, and
    the request failed for good; or the request failed for now, and it is free, unless another
    request has claimed it since. No other slot was ever changed by it. -/
theorem finished_leaves_nothing (σ : RecordStore) {events : List Event} (hfaithful : ∀ e ∈ events, e.Faithful)
    (hnamed : ∀ e ∈ events, e.Named) {i : RequestId} {w : Walk} (hw : ((World.start σ).after events).walks[i]? = some w)
    {res : Except BackchainError Record} (hres : w.result? = some res) :
    let s := (World.start σ).after events
    (∀ id, s.table.slot? id ≠ some (.verifying i)) ∧ s.table.waiting.get? i = none ∧
    (∀ id, (World.start σ).ClaimedIn events i id →
      (∃ r, s.table.slot? id = some (.verified r) ∧ s.store.get? id = some r) ∨
      (∃ f e, s.table.slot? id = some (.rejected f) ∧ res = .error e ∧ e.isFinal = true) ∨
      (∃ e, (s.table.slot? id = none ∨ (World.start σ).RetakenIn events i id) ∧ res = .error e ∧
        e.isFinal = false)) ∧
    ∀ before a rest id, events = before ++ .step i a :: rest →
      ((World.start σ).after (before ++ [.step i a])).table.slot? id ≠ ((World.start σ).after before).table.slot? id →
      (World.start σ).ClaimedIn (before ++ [.step i a]) i id := by
  intro s
  have hdone := Walk.result?_eq_some.mp hres
  obtain ⟨hslots, hwait⟩ := (exclusive_after σ events).done_holds_nothing hw hdone
  refine ⟨hslots, hwait, fun id hc => ?_, fun before a rest id _ => claimedIn_of_changes (exclusive_after σ before)⟩
  cases accounted_of_claimedIn (exclusive_start σ) hc with
  | held hs => exact absurd hs (hslots id)
  | verified hs => exact .inl ⟨_, hs, (recorded_after σ hfaithful hnamed).slots _ _ hs⟩
  | rejected hs hf =>
    obtain ⟨e, he, hfinal⟩ := hf.error hw hdone
    exact .inr (.inl ⟨_, e, hs, he, hfinal⟩)
  | released hs hf =>
    obtain ⟨e, he, hfinal⟩ := hf.error hw hdone
    exact .inr (.inr ⟨e, hs, he, hfinal⟩)

theorem stepOf_faithful (c : Conditions) (i : RequestId) : (stepOf c i).Faithful := c.surroundings_faithful loneLedger

theorem stepOf_calm_named (i : RequestId) : (stepOf calm i).Named :=
  Conditions.surroundings_named named_alwaysPasses loneLedger

theorem stepOf_outage_named (i : RequestId) : (stepOf outage i).Named :=
  Conditions.surroundings_named named_alwaysPasses loneLedger

def gaveUp : List Event := atCheck ++ [stepOf outage 0, stepOf calm 0, stepOf calm 0]

theorem gaveUp_leaves_nothing :
    let s := (World.start .empty).after gaveUp
    (s.walks[0]?.bind Walk.result?) =
      some (.error (.rejected .zero ⟨.zero, []⟩ (.source (.backend "source down")))) ∧
    (World.start .empty).ClaimedIn gaveUp 0 .zero ∧ s.table.slot? .zero = none ∧
    (∀ id, s.table.slot? id ≠ some (.verifying 0)) ∧ s.table.waiting.get? 0 = none := by
  intro s
  have hfaithful : ∀ e ∈ gaveUp, e.Faithful := by simp [gaveUp, atCheck, stepOf_faithful]
  have hnamed : ∀ e ∈ gaveUp, e.Named := by simp [gaveUp, atCheck, stepOf_calm_named, stepOf_outage_named]
  obtain ⟨w, hw, hres⟩ : ∃ w, s.walks[0]? = some w ∧
      w.result? = some (.error (.rejected .zero ⟨.zero, []⟩ (.source (.backend "source down")))) := ⟨_, rfl, rfl⟩
  obtain ⟨hslots, hwait, -, -⟩ := finished_leaves_nothing .empty hfaithful hnamed hw hres
  exact ⟨rfl, ⟨atCheck, List.prefix_append .., rfl⟩, rfl, hslots, hwait⟩

/-- The first request meets an outage at its check and gives the slot back, the second takes it,
    and only then the first is done. -/
def takenOver : List Event := atCheck ++ stepOf outage 0 :: handOver ++ [stepOf calm 0]

def misnamedEvents : List Event := .request .zero :: List.replicate 6 (stepOf misnaming 0)

/-- Two claims that are neither verified with a record in the store, nor rejected, nor free when
    their request is done: one that another request has taken since, and one whose record has gone
    to another place. -/
theorem claims_left :
    (let s := (World.start .empty).after takenOver
     (∀ e ∈ takenOver, e.Faithful ∧ e.Named) ∧ (World.start .empty).ClaimedIn takenOver 0 .zero ∧
     (s.walks[0]?.bind Walk.result?) =
       some (.error (.rejected .zero ⟨.zero, []⟩ (.source (.backend "source down")))) ∧
     s.table.slot? .zero = some (.verifying 1)) ∧
    (let s := (World.start .empty).after misnamedEvents
     (∀ e ∈ misnamedEvents, e.Faithful) ∧ (World.start .empty).ClaimedIn misnamedEvents 0 .zero ∧
     (s.walks[0]?.bind Walk.result?) = some (.ok ⟨other, .zero, [], true⟩) ∧
     s.table.slot? .zero = some (.verified ⟨other, .zero, [], true⟩) ∧ s.store.get? .zero = none) := by
  refine ⟨⟨?_, ⟨atCheck, ?_, rfl⟩, rfl, rfl⟩, ?_, ⟨misnamedEvents.take 4, List.take_prefix .., rfl⟩, rfl, rfl, rfl⟩
  · simp [takenOver, atCheck, handOver, stepOf_faithful, stepOf_calm_named, stepOf_outage_named]
  · exact (List.prefix_append ..).trans (List.prefix_append ..)
  · simp [misnamedEvents, stepOf_faithful]

end Backchain

end VeiledLedger
