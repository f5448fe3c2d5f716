/-
  VeiledLedger.Proofs.Backchain.Answers — a final answer is given again.

  Once a request is done, with a record or with a failure for good, whoever asks for the same
  transaction later gets the same answer, and no check is made for him. A record is found in
  the store before the table is looked at. A failure for good stands in the slot of the
  transaction as it was told to the first: culprit, cause and pointers are those that lead down
  from there, also if another request has met it first. So the course of a later walk is known
  step by step (`Foreseen`): to a record it takes two steps, to a failure four.

  Whoever asks for the status looks at the table first. A record is stored before it is
  published, so for one step of the walk that has stored it others are given the record while
  the status is that the transaction is being verified (`answered_before_published`). After
  that it is verified, and remains so.

  Main statement: `final_answers_stable`.
-/

import VeiledLedger.Proofs.Backchain.Blame
import VeiledLedger.Proofs.Backchain.Settled

namespace VeiledLedger.Backchain

/-! ## Requests that come later -/

def Event.isStepOf (i : RequestId) : Event → Bool
  | .step j _ => j == i
  | .request _ => false

/-- If this is a step of request `i`, its token has not fired. -/
def Event.Lets (i : RequestId) : Event → Prop
  | .step j a => j = i → ∀ σ, (a.stopped.run σ).1 = none
  | .request _ => True

namespace World

/-- Whoever asks for the status of the transaction, while the store works, is told this. -/
def Shows (s : World) (id : TransactionId) (status : Status) : Prop :=
  ∀ a : Around, a.Working → (s.verifier.status a.find id).run s.store = (.ok status, s.store)

/-- A request for the transaction that comes in now and is let go on ends with `res`, at the
    latest with its fourth step, and no check is made for it. -/
def Answers (s : World) (id : TransactionId) (res : Except BackchainError Record) : Prop :=
  ∀ later : List Event, (∀ e ∈ later, e.Working ∧ e.Lets s.verifier.requests) →
    ∃ w, ((s.next (.request id)).after later).walks[s.verifier.requests]? = some w ∧ w.root = id ∧
      (∀ res', w.result? = some res' → res' = res) ∧
      (4 ≤ later.countP (·.isStepOf s.verifier.requests) → w.result? = some res) ∧
      ∀ x ∈ (s.next (.request id)).examinations later, x.request ≠ s.verifier.requests

variable {s : World} {id : TransactionId}

theorem shows_slot {slot : Slot} (h : s.table.slot? id = some slot) : s.Shows id (.ofSlot slot) := by
  intro a _
  unfold Verifier.status
  rw [h]
  rfl

theorem shows_stored (h : s.table.slot? id = none) : s.Shows id (.ofStored (s.store.get? id)) := by
  intro a ha
  unfold Verifier.status
  rw [h]
  show (let y := (a.find id).run s.store; (y.1.map Status.ofStored, y.2)) = _
  rw [ha.find]
  rfl

theorem Shows.unique {status status' : Status} (h : s.Shows id status) (h' : s.Shows id status') :
    status = status' := by
  obtain ⟨a, ha⟩ : ∃ a : Around, a.Working := ⟨_, calm.surroundings_working rfl rfl named_alwaysPasses loneLedger⟩
  cases (h a ha).symm.trans (h' a ha)
  rfl

theorem walk_of_step {i : RequestId} {w w' : Walk} {a : Around} {t : Table} {σ : RecordStore}
    (h : s.walks[i]? = some w) (hstep : (w.step a s.table).run s.store = ((t, w'), σ)) :
    (s.proceed i a).walks[i]? = some w' := by
  have hlt := (List.getElem?_eq_some_iff.mp h).1
  unfold proceed
  rw [h]
  simp only [hstep]
  exact List.getElem?_set_self hlt

/-- A request that is done stays so. -/
theorem done_after {i : RequestId} {w : Walk} {res : Except BackchainError Record} (h : s.walks[i]? = some w)
    (hp : w.phase = .done res) (events : List Event) : (s.after events).walks[i]? = some w := by
  refine after_induction (P := fun s => s.walks[i]? = some w) h fun e _ s h => ?_
  cases e with
  | request id => exact enroll_walk h id
  | step j a =>
    by_cases hij : i = j
    · subst hij
      have hrests : (w.step a s.table).run s.store = ((s.table, w), s.store) := by
        rw [Walk.step, hp]
        rfl
      exact walk_of_step h hrests
    · exact (proceed_of_ne hij s a).trans h

end World

/-! ## Walks whose steps are foreseen -/

/-- In worlds like these a request `j` for the transaction that is let go on is in `phase n` after
    `n` steps: it ends with `res`, and comes to no check. -/
structure Foreseen (P : World → Prop) (j : RequestId) (id : TransactionId) (phase : Nat → Phase)
    (res : Except BackchainError Record) : Prop where
  enters : phase 0 = .enter ⟨id, none⟩
  steps : ∀ (a : Around) (s : World) (n : Nat), a.Working → (∀ σ, (a.stopped.run σ).1 = none) → P s →
    ∃ t σ, ((⟨j, id, [], phase n⟩ : Walk).step a s.table).run s.store = ((t, ⟨j, id, [], phase (n + 1)⟩), σ)
  ends : ∀ n, 4 ≤ n → phase n = .done res
  answer : ∀ n res', phase n = .done res' → res' = res
  unchecked : ∀ n claim, phase n ≠ .check claim

namespace Foreseen

variable {P : World → Prop} {j : RequestId} {id : TransactionId} {phase : Nat → Phase}
  {res : Except BackchainError Record} {s : World}

theorem walk_after (h : Foreseen P j id phase res) (hP : ∀ s e, P s → e.Working → P (s.next e)) {events : List Event}
    (hevents : ∀ e ∈ events, e.Working ∧ e.Lets j) (hs : P s) {n : Nat} (hw : s.walks[j]? = some ⟨j, id, [], phase n⟩) :
    (s.after events).walks[j]? = some ⟨j, id, [], phase (n + events.countP (·.isStepOf j))⟩ := by
  induction events generalizing s n with
  | nil => exact hw
  | cons e es ih =>
    obtain ⟨⟨hworking, hlets⟩, hrest⟩ := List.forall_mem_cons.mp hevents
    have hnext := hP s e hs hworking
    rw [List.countP_cons, Nat.add_comm (es.countP _), ← Nat.add_assoc]
    cases e with
    | request root => exact ih hrest hnext (World.enroll_walk hw root)
    | step i a =>
      by_cases hij : i = j
      · subst hij
        obtain ⟨t, σ, hstep⟩ := h.steps a s n hworking (hlets rfl) hs
        rw [if_pos (by simp [Event.isStepOf])]
        exact ih hrest hnext (World.walk_of_step hw hstep)
      · rw [if_neg (by simp [Event.isStepOf, hij])]
        exact ih hrest hnext ((World.proceed_of_ne (Ne.symm hij) s a).trans hw)

theorem answers (h : Foreseen P s.verifier.requests id phase res) (hP : ∀ s e, P s → e.Working → P (s.next e))
    (ho : Owned s) (hs : P s) : s.Answers id res := by
  intro later hlater
  have hfirst : (s.next (.request id)).walks[s.verifier.requests]? = some ⟨s.verifier.requests, id, [], phase 0⟩ := by
    rw [h.enters, ho.count]
    show (s.walks ++ [Walk.start s.verifier.requests id])[s.walks.length]? = _
    rw [List.getElem?_concat_length, ← ho.count]
    rfl
  have course {events : List Event} (hevents : ∀ e ∈ events, e.Working ∧ e.Lets s.verifier.requests) :=
    h.walk_after hP hevents (hP s (.request id) hs trivial) hfirst
  refine ⟨_, course hlater, rfl, fun res' hres => ?_, fun hfour => ?_, fun x hx hj => ?_⟩
  · exact h.answer _ _ (Walk.result?_eq_some.mp hres)
  · exact Walk.result?_eq_some.mpr (h.ends _ (Nat.le_trans hfour (Nat.le_add_left _ _)))
  · obtain ⟨before, e, rest, rfl, hexam⟩ := World.mem_examinations hx
    obtain ⟨a, -, ⟨w, claim, hw, hp, -⟩, -⟩ := World.examination?_eq_some hexam
    have hwalk := course fun e he => hlater e (List.mem_append_left _ he)
    rw [hj, hwalk] at hw
    cases hw
    exact h.unchecked _ _ hp

end Foreseen

def towardsRecord (id : TransactionId) (r : Record) : Nat → Phase
  | 0 => .enter ⟨id, none⟩
  | 1 => .lookUp ⟨id, none⟩
  | _ => .done (.ok r)

def towardsFailure (id : TransactionId) (f : Failure) : Nat → Phase
  | 0 => .enter ⟨id, none⟩
  | 1 => .lookUp ⟨id, none⟩
  | 2 => .visit ⟨id, none⟩
  | 3 => .unwind [] f
  | _ => .done (.error (f.toError id))

theorem step_let {a : Around} (ha : a.Working) (hlets : ∀ σ, (a.stopped.run σ).1 = none) (σ : RecordStore) :
    a.stopped.run σ = (none, σ) :=
  Prod.ext (hlets σ) (ha.stopped σ)

theorem foreseen_record (j : RequestId) (id : TransactionId) (r : Record) :
    Foreseen (fun s => s.store.get? id = some r) j id (towardsRecord id r) (.ok r) where
  enters := rfl
  steps a s n ha hlets hr := by
    match n with
    | 0 => exact ⟨_, _, Walk.step_enter rfl (step_let ha hlets s.store)⟩
    | 1 =>
      have hfind := ha.find id s.store
      rw [hr] at hfind
      exact ⟨_, _, Walk.step_lookUp (w := ⟨j, id, [], .lookUp ⟨id, none⟩⟩) rfl hfind⟩
    | n + 2 => exact ⟨_, _, rfl⟩
  ends n hn := by
    match n with
    | n + 4 => rfl
  answer n res' h := by
    match n with
    | 0 | 1 => cases h
    | n + 2 =>
      cases h
      rfl
  unchecked n claim h := by
    match n with
    | 0 | 1 | n + 2 => cases h

theorem foreseen_failure (j : RequestId) (id : TransactionId) (f : Failure) :
    Foreseen (fun s => Settled s ∧ s.table.slot? id = some (.rejected f)) j id (towardsFailure id f)
      (.error (f.toError id)) where
  enters := rfl
  steps a s n ha hlets hs := by
    obtain ⟨hsettled, hf⟩ := hs
    match n with
    | 0 => exact ⟨_, _, Walk.step_enter rfl (step_let ha hlets s.store)⟩
    | 1 =>
      have hfind := ha.find id s.store
      rw [hsettled.rejected_unstored hf] at hfind
      exact ⟨_, _, Walk.step_lookUp (w := ⟨j, id, [], .lookUp ⟨id, none⟩⟩) rfl hfind⟩
    | 2 => exact ⟨_, _, Walk.step_refused (w := ⟨j, id, [], .visit ⟨id, none⟩⟩) rfl hf⟩
    | 3 => exact ⟨_, _, Walk.step_fail rfl⟩
    | n + 4 => exact ⟨_, _, rfl⟩
  ends n hn := by
    match n with
    | n + 4 => rfl
  answer n res' h := by
    match n with
    | 0 | 1 | 2 | 3 => cases h
    | n + 4 =>
      cases h
      rfl
  unchecked n claim h := by
    match n with
    | 0 | 1 | 2 | 3 | n + 4 => cases h

/-! ## What is shown of a transaction -/

def World.Publishing (s : World) (k : RequestId) (id : TransactionId) : Prop :=
  ∃ w f, s.walks[k]? = some w ∧ w.phase = .publish f ∧ f.claim.id = id

namespace Settled

variable {s : World} {id : TransactionId} {r : Record}

/-- What is stored is shown as verified, except by a walk that is just publishing it. -/
theorem shows_of_stored (h : Settled s) (hr : s.store.get? id = some r) :
    s.Shows id .verified ∨
      s.Shows id .verifying ∧ ∃ k, s.Publishing k id ∧ ∀ a, (s.proceed k a).Shows id .verified := by
  cases h.kept id ⟨r, hr⟩ with
  | published hs => exact .inl (World.shows_slot hs)
  | spared hs =>
    have hshown := World.shows_stored hs.1
    rw [hr] at hshown
    exact .inl hshown
  | @put k w f hw hp hid =>
    subst hid
    refine .inr ⟨?_, k, ⟨w, f, hw, hp, rfl⟩, fun a => ?_⟩
    · exact World.shows_slot (h.exclusive.holds k w hw f.claim (by simp [Walk.claims, Phase.claims, hp]))
    · obtain ⟨w', hstep, -⟩ := World.proceed_step hw a
      exact World.shows_slot (hstep.publishing hp)

/-- What is stored and shown as verified is shown so from then on. -/
theorem shows_verified_after (h : Settled s) (hr : s.store.get? id = some r) (hshown : s.Shows id .verified)
    {more : List Event} (hmore : ∀ e ∈ more, e.Working) : (s.after more).Shows id .verified := by
  cases h.kept id ⟨r, hr⟩ with
  | published hs => exact World.shows_slot ((h.exclusive.decided_after (.inl ⟨_, hs⟩) more).trans hs)
  | @put k w f hw hp hid =>
    subst hid
    have hslot := h.exclusive.holds k w hw f.claim (by simp [Walk.claims, Phase.claims, hp])
    cases hshown.unique (World.shows_slot hslot)
  | spared hs =>
    obtain ⟨-, hr', hs'⟩ : Settled (s.after more) ∧ (s.after more).store.get? id = some r ∧ (s.after more).Spared id := by
      refine World.after_induction (P := fun s => Settled s ∧ s.store.get? id = some r ∧ s.Spared id) ⟨h, hr, hs⟩ ?_
      rintro e he s ⟨h, hr, hs⟩
      exact ⟨h.next (hmore e he), World.extends_next (hmore e he).faithful _ _ hr,
        h.spared_next ⟨r, hr⟩ hs (hmore e he)⟩
    have hfree := World.shows_stored hs'.1
    rwa [hr'] at hfree

theorem answers_record (h : Settled s) (hr : s.store.get? id = some r) : s.Answers id (.ok r) := by
  refine (foreseen_record s.verifier.requests id r).answers (fun s e hr he => ?_) h.exclusive.owned hr
  exact World.extends_next he.faithful id r hr

theorem answers_failure (h : Settled s) {f : Failure} (hf : s.table.slot? id = some (.rejected f)) :
    s.Answers id (.error (f.toError id)) := by
  refine (foreseen_failure s.verifier.requests id f).answers (fun s e hs he => ?_) h.exclusive.owned ⟨h, hf⟩
  exact ⟨hs.1.next he, (hs.1.exclusive.decided_next (.inr ⟨f, hs.2⟩) e).trans hs.2⟩

end Settled

/-! ## Final answers -/

/-- The store works, nobody else writes to it, and checks return the record of their transaction.
    If a request has ended with a record, then at every later time whoever asks for the
    transaction gets this record, and its status is that it is verified; it is being verified
    only as long as a request has stored the record and not yet published it, which is what this
    request does next. If a request has failed for good, then at every later time whoever asks
    gets the same error, with the same culprit, pointers and reason, and the status is that it
    is rejected. In neither case a check is made for him. What is rejected has no record. -/
theorem final_answers_stable (σ : RecordStore) {events more : List Event} (hevents : ∀ e ∈ events, e.Working)
    (hmore : ∀ e ∈ more, e.Working) :
    let s := (World.start σ).after events
    let s' := s.after more
    (∀ (i : RequestId) (w : Walk) (r : Record), s.walks[i]? = some w → w.result? = some (.ok r) →
      (s'.Shows w.root .verified ∨ s'.Shows w.root .verifying ∧
        ∃ k, s'.Publishing k w.root ∧ ∀ a, (s'.proceed k a).Shows w.root .verified) ∧
      (s.Shows w.root .verified → s'.Shows w.root .verified) ∧ s'.Answers w.root (.ok r)) ∧
    (∀ (i : RequestId) (w : Walk) (e : BackchainError), s.walks[i]? = some w → w.result? = some (.error e) → e.isFinal = true →
      s'.Shows w.root .rejected ∧ s'.Answers w.root (.error e)) ∧
    ∀ (id : TransactionId) (f : Failure), s'.table.slot? id = some (.rejected f) → s'.store.get? id = none := by
  intro s s'
  have h : Settled s := settled_after σ hevents
  have h' : Settled s' := h.after hmore
  have rests {t : World} (ht : Settled t) {i : RequestId} {w : Walk} (hw : t.walks[i]? = some w)
      {res : Except BackchainError Record} (hp : w.phase = .done res) :
      (Phase.done res).Rests t.table t.store w.root (w.stack.map Frame.claim) := by
    have hrests := ht.rests w (List.mem_of_getElem? hw)
    rwa [Walk.Rests, hp] at hrests
  refine ⟨fun i w r hw hres => ?_, fun i w e hw hres hfinal => ?_, fun id f => h'.rejected_unstored⟩
  · have hp := Walk.result?_eq_some.mp hres
    have hr : s'.store.get? w.root = some r := rests h' (World.done_after hw hp more) hp
    refine ⟨h'.shows_of_stored hr, fun hshown => ?_, h'.answers_record hr⟩
    exact h.shows_verified_after (rests h hw hp) hshown hmore
  · have hp := Walk.result?_eq_some.mp hres
    obtain ⟨f, hf, rfl⟩ := rests h' (World.done_after hw hp more) hp hfinal
    exact ⟨World.shows_slot hf, h'.answers_failure hf⟩

def answered : List Event := .request .zero :: List.replicate 6 (stepOf calm 0)

/-- Asked again, a verified transaction has its record and a circular one its cycle. -/
theorem answered_again :
    let s := ((World.start .empty).after answered).after (List.replicate 2 (.request .zero))
    let t := ((World.start .empty).after circularEvents).after (List.replicate 2 (.request .zero))
    (s.Shows .zero .verified ∧ s.Answers .zero (.ok ⟨.zero, .zero, [], true⟩)) ∧
    t.Shows .zero .rejected ∧ t.Answers .zero (.error (.cyclic .zero ⟨.zero, [toItself]⟩)) ∧
      t.store.get? .zero = none := by
  intro s t
  have hworking (l : Ledger) (i : RequestId) : (Event.step i (calm.surroundings l)).Working :=
    calm.surroundings_working rfl rfl named_alwaysPasses l
  have hrequest (id : TransactionId) : (Event.request id).Working := trivial
  have hmore : ∀ e ∈ List.replicate 2 (Event.request .zero), e.Working := by simp [hrequest]
  have hanswered : ∀ e ∈ answered, e.Working := by simp [answered, stepOf, hworking, hrequest]
  have hcircular : ∀ e ∈ circularEvents, e.Working := by simp [circularEvents, hworking, hrequest]
  obtain ⟨hok, -, -⟩ := final_answers_stable .empty hanswered hmore
  obtain ⟨-, hfinal, hrejected⟩ := final_answers_stable .empty hcircular hmore
  obtain ⟨-, hverified, hrecord⟩ := hok 0 _ ⟨.zero, .zero, [], true⟩ rfl rfl
  obtain ⟨hshown, herror⟩ := hfinal 0 _ (.cyclic .zero ⟨.zero, [toItself]⟩) rfl rfl rfl
  have hslot : ((World.start .empty).after answered).table.slot? .zero = some (.verified ⟨.zero, .zero, [], true⟩) := rfl
  exact ⟨⟨hverified (World.shows_slot hslot), hrecord⟩, hshown, herror, hrejected .zero _ rfl⟩

/-- Two requests for one transaction. The first has put the record and not yet published it when
    the second finds it. -/
def overtaken : List Event :=
  [.request .zero, .request .zero] ++ [0, 0, 0, 0, 0, 1, 1].map (stepOf calm)

/-- The second request has its record, and the transaction is still being verified. -/
theorem answered_before_published :
    let s := (World.start .empty).after overtaken
    (∀ e ∈ overtaken, e.Working) ∧
    (∃ w, s.walks[1]? = some w ∧ w.root = .zero ∧ w.result? = some (.ok ⟨.zero, .zero, [], true⟩)) ∧
    s.Shows .zero .verifying ∧ ¬ s.Shows .zero .verified := by
  intro s
  have hworking (i : RequestId) : (stepOf calm i).Working := calm.surroundings_working rfl rfl named_alwaysPasses loneLedger
  have hrequest (id : TransactionId) : (Event.request id).Working := trivial
  have hslot : s.table.slot? .zero = some (.verifying 0) := rfl
  have hshown : s.Shows .zero .verifying := World.shows_slot hslot
  refine ⟨by simp [overtaken, hworking, hrequest], ⟨_, rfl, rfl, rfl⟩, hshown, fun hverified => ?_⟩
  cases hshown.unique hverified

end VeiledLedger.Backchain
