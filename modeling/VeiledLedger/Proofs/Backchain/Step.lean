/-
  VeiledLedger.Proofs.Backchain.Step — what one step of one walk can do.

  `Walk.Step` lists it, guards and answers included, and `step_sound` says that the list is
  complete. A walk holds what it has claimed and not yet published or settled: the transaction
  where it stands, once it has claimed that, and those of the frames above. `Step.effect` says
  what a step does to the slots and to what its walk holds, `Step.waiting` what it does to the
  waits, `Step.store` what it does to the store when the conditions belong to a ledger.
  Invariants of whole runs are derived from these and never open a step themselves.
-/

import VeiledLedger.Proofs.Backchain.Event

namespace VeiledLedger.Backchain

namespace Walk

variable {S : Type}

/-- The walk looks at the slot of `target`, for the first time or after a wait, and finds the
    table as `t'`. -/
inductive Looks (a : Surroundings (StateM S)) (t : Table) (σ : S) (w : Walk) (target : Claim) : Table → S → Prop
  | first : w.phase = .visit target → Looks a t σ w target t σ
  | again : w.phase = .blocked target → (a.stopped.run σ).1 = none →
      Looks a t σ w target (t.wake w.request) (a.stopped.run σ).2

inductive Step (a : Surroundings (StateM S)) (t : Table) (σ : S) (w : Walk) : Table → S → Walk → Prop
  | stopped {target e} : w.phase = .enter target → (a.stopped.run σ).1 = some e →
      Step a t σ w t (a.stopped.run σ).2 (w.met target (.ofCause target.id (.interrupted e)))
  | entered {target} : w.phase = .enter target → (a.stopped.run σ).1 = none →
      Step a t σ w t (a.stopped.run σ).2 { w with phase := .lookUp target }
  | unreadable {target e} : w.phase = .lookUp target → ((a.find target.id).run σ).1 = .error e →
      Step a t σ w t ((a.find target.id).run σ).2 (w.met target (.ofCause target.id (.store e)))
  | found {target r} : w.phase = .lookUp target → ((a.find target.id).run σ).1 = .ok (some r) →
      Step a t σ w t ((a.find target.id).run σ).2 (w.resolved r)
  | missing {target} : w.phase = .lookUp target → ((a.find target.id).run σ).1 = .ok none →
      Step a t σ w t ((a.find target.id).run σ).2 { w with phase := .visit target }
  | stoppedWaiting {target e} : w.phase = .blocked target → (a.stopped.run σ).1 = some e →
      Step a t σ w (t.wake w.request) (a.stopped.run σ).2 (w.met target (.ofCause target.id (.interrupted e)))
  | known {target t' σ' r} : Looks a t σ w target t' σ' → t.slot? target.id = some (.verified r) →
      Step a t σ w t' σ' (w.resolved r)
  | refused {target t' σ' f} : Looks a t σ w target t' σ' → t.slot? target.id = some (.rejected f) →
      Step a t σ w t' σ' (w.met target f)
  | closed {target t' σ' owner} : Looks a t σ w target t' σ' → t.slot? target.id = some (.verifying owner) →
      owner = w.request ∨ t'.wouldDeadlock w.request target.id = true →
      Step a t σ w t' σ' (w.met target (.ofCause target.id .cycle))
  | waits {target t' σ' owner} : Looks a t σ w target t' σ' → t.slot? target.id = some (.verifying owner) →
      owner ≠ w.request → t'.wouldDeadlock w.request target.id = false →
      Step a t σ w (t'.wait w.request target.id) σ' { w with phase := .blocked target }
  | takes {target t' σ'} : Looks a t σ w target t' σ' → t.slot? target.id = none →
      Step a t σ w (t'.setSlot target.id (.verifying w.request)) σ' { w with phase := .check target }
  | passed {claim r ps} : w.phase = .check claim → ((a.check claim.id).run σ).1 = .ok (r, ps) →
      Step a t σ w t ((a.check claim.id).run σ).2 (w.follow ⟨claim, ps, r⟩ w.stack)
  | faulted {claim e} : w.phase = .check claim → ((a.check claim.id).run σ).1 = .error (.backend e) →
      Step a t σ w t ((a.check claim.id).run σ).2 { w with phase := .judge claim e }
  | rejects {claim e} : w.phase = .check claim → ((a.check claim.id).run σ).1 = .error e → (∀ b, e ≠ .backend b) →
      Step a t σ w t ((a.check claim.id).run σ).2 (w.failed claim (.check e))
  | judged {claim e} : w.phase = .judge claim e →
      Step a t σ w t (a.stopped.run σ).2
        (w.failed claim (if (a.stopped.run σ).1.isSome then .interrupted e else .check (.backend e)))
  | keeps {f} : w.phase = .store f → ((a.store f.record).run σ).1 = .ok () →
      Step a t σ w t ((a.store f.record).run σ).2 { w with phase := .publish f }
  | loses {f e} : w.phase = .store f → ((a.store f.record).run σ).1 = .error e →
      Step a t σ w t ((a.store f.record).run σ).2 (w.failed f.claim (.store e))
  | publishes {f} : w.phase = .publish f →
      Step a t σ w (t.setSlot f.claim.id (.verified f.record)) σ (w.resolved f.record)
  | settles {claim cs f} : w.phase = .unwind (claim :: cs) f →
      Step a t σ w (t.settle claim.id f) σ { w with phase := .unwind cs (f.through claim.via) }
  | fails {f} : w.phase = .unwind [] f →
      Step a t σ w t σ { w with phase := .done (.error (f.toError w.root)) }
  | rests {r} : w.phase = .done r → Step a t σ w t σ w

variable {a : Surroundings (StateM S)} {t t' : Table} {σ σ' : S} {w w' : Walk}

theorem Looks.slot? {target : Claim} (h : Looks a t σ w target t' σ') (id : TransactionId) :
    t'.slot? id = t.slot? id := by
  cases h <;> rfl

theorem Looks.store_eq {target : Claim} (h : Looks a t σ w target t' σ') (hstopped : ∀ σ, (a.stopped.run σ).2 = σ) :
    σ' = σ := by
  cases h with
  | first => rfl
  | again => exact hstopped σ

theorem Looks.phase {target : Claim} (h : Looks a t σ w target t' σ') :
    w.phase = .visit target ∨ w.phase = .blocked target := by
  cases h with
  | first hp => exact .inl hp
  | again hp => exact .inr hp

theorem visit_sound {target : Claim} (h : Looks a t σ w target t' σ') :
    Step a t σ w (w.visit t' target).1 σ' (w.visit t' target).2 := by
  have hs := h.slot? target.id
  unfold visit
  split
  · rename_i r hr
    exact .known h (hs ▸ hr)
  · rename_i f hf
    exact .refused h (hs ▸ hf)
  · rename_i owner ho
    split
    · rename_i hc
      exact .closed h (hs ▸ ho) hc
    · rename_i hc
      obtain ⟨hne, hd⟩ := not_or.mp hc
      exact .waits h (hs ▸ ho) hne (by simpa using hd)
  · rename_i hn
    exact .takes h (hs ▸ hn)

/-- Every step of a walk is one of those listed. -/
theorem step_sound (a : Surroundings (StateM S)) (t : Table) (σ : S) (w : Walk) :
    Step a t σ w ((w.step a t).run σ).1.1 ((w.step a t).run σ).2 ((w.step a t).run σ).1.2 := by
  unfold step
  split
  · rename_i target hp
    show Step a t σ w t (a.stopped.run σ).2 (w.entered target (a.stopped.run σ).1)
    cases hs : (a.stopped.run σ).1 with
    | none => exact .entered hp hs
    | some e => exact .stopped hp hs
  · rename_i target hp
    show Step a t σ w t ((a.find target.id).run σ).2 (w.lookedUp target ((a.find target.id).run σ).1)
    cases hf : ((a.find target.id).run σ).1 with
    | error e => exact .unreadable hp hf
    | ok found =>
      cases found with
      | none => exact .missing hp hf
      | some r => exact .found hp hf
  · rename_i target hp
    exact visit_sound (.first hp)
  · rename_i target hp
    show Step a t σ w (w.woken t target (a.stopped.run σ).1).1 (a.stopped.run σ).2
      (w.woken t target (a.stopped.run σ).1).2
    cases hs : (a.stopped.run σ).1 with
    | some e => exact .stoppedWaiting hp hs
    | none => exact visit_sound (.again hp hs)
  · rename_i claim hp
    show Step a t σ w t ((a.check claim.id).run σ).2 (w.checked claim ((a.check claim.id).run σ).1)
    cases he : ((a.check claim.id).run σ).1 with
    | ok x => exact .passed hp he
    | error e =>
      cases e with
      | backend b => exact .faulted hp he
      | _ => exact .rejects hp he (by simp)
  · rename_i claim e hp
    exact .judged hp
  · rename_i f hp
    show Step a t σ w t ((a.store f.record).run σ).2 (w.stored f ((a.store f.record).run σ).1)
    cases hk : ((a.store f.record).run σ).1 with
    | ok _ => exact .keeps hp hk
    | error e => exact .loses hp hk
  · rename_i f hp
    exact .publishes hp
  · rename_i cs f hp
    cases cs with
    | nil => exact .fails hp
    | cons claim cs => exact .settles hp
  · rename_i r hp
    exact .rests hp

/-! ## Steps whose answer is known -/

theorem step_enter {target : Claim} {stop : Option BackendError} (hp : w.phase = .enter target)
    (h : a.stopped.run σ = (stop, σ')) : (w.step a t).run σ = ((t, w.entered target stop), σ') := by
  rw [step, hp]
  show (let y := a.stopped.run σ; ((t, w.entered target y.1), y.2)) = _
  rw [h]

theorem step_lookUp {target : Claim} {answer : Except StoreError (Option Record)} (hp : w.phase = .lookUp target)
    (h : (a.find target.id).run σ = (answer, σ')) : (w.step a t).run σ = ((t, w.lookedUp target answer), σ') := by
  rw [step, hp]
  show (let y := (a.find target.id).run σ; ((t, w.lookedUp target y.1), y.2)) = _
  rw [h]

theorem step_visit {target : Claim} (hp : w.phase = .visit target) : (w.step a t).run σ = (w.visit t target, σ) := by
  rw [step, hp]
  rfl

theorem step_known {target : Claim} {r : Record} (hp : w.phase = .visit target)
    (h : t.slot? target.id = some (.verified r)) : (w.step a t).run σ = ((t, w.resolved r), σ) := by
  rw [step_visit hp, visit, h]

theorem step_refused {target : Claim} {f : Failure} (hp : w.phase = .visit target)
    (h : t.slot? target.id = some (.rejected f)) : (w.step a t).run σ = ((t, w.met target f), σ) := by
  rw [step_visit hp, visit, h]

theorem step_takes {target : Claim} (hp : w.phase = .visit target) (h : t.slot? target.id = none) :
    (w.step a t).run σ = ((t.setSlot target.id (.verifying w.request), { w with phase := .check target }), σ) := by
  rw [step_visit hp, visit, h]

theorem step_check {claim : Claim} {answer : Except CheckError (Record × List StatePointer)}
    (hp : w.phase = .check claim) (h : (a.check claim.id).run σ = (answer, σ')) :
    (w.step a t).run σ = ((t, w.checked claim answer), σ') := by
  rw [step, hp]
  show (let y := (a.check claim.id).run σ; ((t, w.checked claim y.1), y.2)) = _
  rw [h]

theorem step_store {f : Frame} {answer : Except StoreError Unit} (hp : w.phase = .store f)
    (h : (a.store f.record).run σ = (answer, σ')) : (w.step a t).run σ = ((t, w.stored f answer), σ') := by
  rw [step, hp]
  show (let y := (a.store f.record).run σ; ((t, w.stored f y.1), y.2)) = _
  rw [h]

theorem step_publish {f : Frame} (hp : w.phase = .publish f) :
    (w.step a t).run σ = ((t.setSlot f.claim.id (.verified f.record), w.resolved f.record), σ) := by
  rw [step, hp]
  rfl

theorem step_fail {f : Failure} (hp : w.phase = .unwind [] f) :
    (w.step a t).run σ = ((t, { w with phase := .done (.error (f.toError w.root)) }), σ) := by
  rw [step, hp]
  rfl

end Walk

/-! ## Where a step leaves its walk -/

def Phase.Onward : Phase → Prop
  | .enter _ | .store _ | .done _ => True
  | _ => False

namespace Walk

variable {S : Type} {a : Surroundings (StateM S)} {t t' : Table} {σ σ' : S} {w w' : Walk}

@[simp] theorem follow_request (w : Walk) (f : Frame) (stack : List Frame) : (w.follow f stack).request = w.request := by
  unfold follow; split <;> rfl

@[simp] theorem resolved_request (w : Walk) (r : Record) : (w.resolved r).request = w.request := by
  unfold resolved; split
  · rfl
  · exact follow_request ..

@[simp] theorem follow_root (w : Walk) (f : Frame) (stack : List Frame) : (w.follow f stack).root = w.root := by
  unfold follow; split <;> rfl

@[simp] theorem resolved_root (w : Walk) (r : Record) : (w.resolved r).root = w.root := by
  unfold resolved; split
  · rfl
  · exact follow_root ..

theorem follow_onward {f : Frame} {stack : List Frame} {phase : Phase} (h : (w.follow f stack).phase = phase) :
    phase.Onward := by
  subst h
  unfold follow
  split <;> trivial

theorem resolved_onward {r : Record} {phase : Phase} (h : (w.resolved r).phase = phase) : phase.Onward := by
  unfold resolved at h
  split at h
  · subst h
    trivial
  · exact follow_onward h

theorem result?_eq_some {res : Except BackchainError Record} : w.result? = some res ↔ w.phase = .done res := by
  unfold result?
  split
  · rename_i r hp
    simp [hp]
  · rename_i hp
    simpa using hp res

/-- A walk comes to a check only by taking a slot that is free. -/
theorem Step.at_check (h : Step a t σ w t' σ' w') {target : Claim} (hp : w'.phase = .check target) :
    t.slot? target.id = none := by
  cases h with
  | takes _ hn =>
    cases hp
    exact hn
  | found | known | publishes => exact (resolved_onward hp).elim
  | passed => exact (follow_onward hp).elim
  | rests hdone => cases hdone.symm.trans hp
  | _ => cases hp

theorem Step.request (h : Step a t σ w t' σ' w') : w'.request = w.request := by
  cases h <;> simp [met, failed]

theorem Step.root (h : Step a t σ w t' σ' w') : w'.root = w.root := by
  cases h <;> simp [met, failed]

end Walk

/-! ## What a walk holds -/

def Phase.claims : Phase → List Claim
  | .check claim | .judge claim _ => [claim]
  | .store f | .publish f => [f.claim]
  | .unwind claims _ => claims
  | .enter _ | .lookUp _ | .visit _ | .blocked _ | .done _ => []

namespace Walk

def claims (w : Walk) : List Claim := w.phase.claims ++ w.stack.map Frame.claim

def Holds (w : Walk) (id : TransactionId) : Prop := ∃ claim ∈ w.claims, claim.id = id

variable {S : Type} {a : Surroundings (StateM S)} {t t' : Table} {σ σ' : S} {w w' : Walk}

theorem claims_follow (w : Walk) (f : Frame) (stack : List Frame) :
    (w.follow f stack).claims = f.claim :: stack.map Frame.claim := by
  unfold follow
  split <;> rfl

theorem claims_resolved (w : Walk) (r : Record) : (w.resolved r).claims = w.stack.map Frame.claim := by
  unfold resolved
  split
  · rename_i hs
    simp [claims, Phase.claims, hs]
  · rename_i f stack hs
    rw [claims_follow, hs, List.map_cons]

theorem claims_met (w : Walk) (target : Claim) (f : Failure) : (w.met target f).claims = w.stack.map Frame.claim := by
  simp [met, claims, Phase.claims]

theorem claims_failed (w : Walk) (claim : Claim) (cause : Cause) :
    (w.failed claim cause).claims = claim :: w.stack.map Frame.claim := by
  simp [failed, claims, Phase.claims]

theorem Looks.claims {target : Claim} (h : Looks a t σ w target t' σ') : w.claims = w.stack.map Frame.claim := by
  cases h with
  | first hp | again hp => simp [Walk.claims, Phase.claims, hp]

def Sets (t : Table) (id : TransactionId) (slot : Option Slot) (t' : Table) : Prop :=
  ∀ x, t'.slot? x = if x = id then slot else t.slot? x

/-- What a step of `w`, which becomes `w'`, may do to the slots and to what the walk holds. -/
inductive Effect (t : Table) (w : Walk) (t' : Table) (w' : Walk) : Prop
  | quiet : w'.claims = w.claims → (∀ x, t'.slot? x = t.slot? x) → Effect t w t' w'
  | claimed {target} : w'.phase = .check target → w'.claims = target :: w.claims → t.slot? target.id = none →
      Sets t target.id (some (.verifying w.request)) t' → Effect t w t' w'
  | published {f} : w.phase = .publish f → w.claims = f.claim :: w'.claims →
      Sets t f.claim.id (some (.verified f.record)) t' → Effect t w t' w'
  | settled {claim cs f} : w.phase = .unwind (claim :: cs) f → w'.phase = .unwind cs (f.through claim.via) →
      w.claims = claim :: w'.claims → Sets t claim.id (if f.cause.isFinal then some (.rejected f) else none) t' →
      Effect t w t' w'

theorem Step.effect (h : Step a t σ w t' σ' w') : Effect t w t' w' := by
  cases h with
  | stopped hp | unreadable hp | stoppedWaiting hp =>
    exact .quiet (by rw [claims_met]; simp [Walk.claims, Phase.claims, hp]) fun _ => rfl
  | refused hl | closed hl => exact .quiet (by rw [claims_met, hl.claims]) hl.slot?
  | found hp => exact .quiet (by rw [claims_resolved]; simp [Walk.claims, Phase.claims, hp]) fun _ => rfl
  | known hl => exact .quiet (by rw [claims_resolved, hl.claims]) hl.slot?
  | entered hp | missing hp | faulted hp | keeps hp | fails hp =>
    exact .quiet (by simp [Walk.claims, Phase.claims, hp]) fun _ => rfl
  | waits hl => exact .quiet hl.claims.symm hl.slot?
  | passed hp => exact .quiet (by rw [claims_follow]; simp [Walk.claims, Phase.claims, hp]) fun _ => rfl
  | rejects hp | judged hp | loses hp =>
    exact .quiet (by rw [claims_failed]; simp [Walk.claims, Phase.claims, hp]) fun _ => rfl
  | rests => exact .quiet rfl fun _ => rfl
  | takes hl hn =>
    refine .claimed rfl (by rw [hl.claims]; rfl) hn fun x => ?_
    rw [Table.slot?_setSlot, hl.slot?]
  | publishes hp =>
    refine .published hp ?_ (Table.slot?_setSlot t _ _)
    rw [claims_resolved]
    simp [Walk.claims, Phase.claims, hp]
  | settles hp => exact .settled hp rfl (by simp [Walk.claims, Phase.claims, hp]) (Table.slot?_settle t _ _)

/-- What a step keeps of the holdings of its walk. -/
theorem Step.holds (h : Step a t σ w t' σ' w') {id : TransactionId} {r : RequestId} (hw : w.Holds id)
    (hs : t'.slot? id = some (.verifying r)) : w'.Holds id := by
  obtain ⟨claim, hmem, rfl⟩ := hw
  cases h.effect with
  | quiet he => exact ⟨claim, he ▸ hmem, rfl⟩
  | claimed _ he => exact ⟨claim, he ▸ List.mem_cons_of_mem _ hmem, rfl⟩
  | published _ he hset =>
    rw [he] at hmem
    rcases List.mem_cons.mp hmem with rfl | hmem
    · rw [hset, if_pos rfl] at hs
      cases hs
    · exact ⟨claim, hmem, rfl⟩
  | settled _ _ he hset =>
    rw [he] at hmem
    rcases List.mem_cons.mp hmem with rfl | hmem
    · rw [hset, if_pos rfl] at hs
      split at hs <;> cases hs
    · exact ⟨claim, hmem, rfl⟩

/-- What a step of `w`, which becomes `w'`, may do to the slot of `id`. -/
inductive SlotChange (t : Table) (w : Walk) (t' : Table) (w' : Walk) (id : TransactionId) : Prop
  | same : t'.slot? id = t.slot? id → SlotChange t w t' w' id
  | claimed {target} : w'.phase = .check target → target.id = id → t.slot? id = none →
      t'.slot? id = some (.verifying w.request) → SlotChange t w t' w' id
  | published {f} : w.phase = .publish f → f.claim.id = id → t'.slot? id = some (.verified f.record) →
      SlotChange t w t' w' id
  | settled {claim cs f} : w.phase = .unwind (claim :: cs) f → claim.id = id →
      t'.slot? id = (if f.cause.isFinal then some (.rejected f) else none) → SlotChange t w t' w' id

theorem Step.slot (h : Step a t σ w t' σ' w') (id : TransactionId) : SlotChange t w t' w' id := by
  cases h.effect with
  | quiet _ hs => exact .same (hs id)
  | @claimed target hp _ hn hset =>
    by_cases hid : id = target.id
    · subst hid
      exact .claimed hp rfl hn (by rw [hset, if_pos rfl])
    · exact .same (by rw [hset, if_neg hid])
  | @published f hp _ hset =>
    by_cases hid : id = f.claim.id
    · subst hid
      exact .published hp rfl (by rw [hset, if_pos rfl])
    · exact .same (by rw [hset, if_neg hid])
  | @settled claim cs f hp _ _ hset =>
    by_cases hid : id = claim.id
    · subst hid
      exact .settled hp rfl (by rw [hset, if_pos rfl])
    · exact .same (by rw [hset, if_neg hid])

/-- A slot that says verified has said so before, or its transaction has just been published. -/
theorem Step.verified_slot (h : Step a t σ w t' σ' w') {id : TransactionId} {r : Record}
    (hr : t'.slot? id = some (.verified r)) :
    t.slot? id = some (.verified r) ∨ ∃ f, w.phase = .publish f ∧ f.claim.id = id ∧ f.record = r := by
  cases h.slot id with
  | same hs => exact .inl (hs ▸ hr)
  | claimed _ _ _ hs => cases hs.symm.trans hr
  | published hp hid hs =>
    cases hs.symm.trans hr
    exact .inr ⟨_, hp, hid, rfl⟩
  | settled _ _ hs =>
    rw [hs] at hr
    split at hr <;> cases hr

/-- A rejected slot was rejected before, or its claim has just been settled by a final failure. -/
theorem Step.rejected_slot (h : Step a t σ w t' σ' w') {id : TransactionId} {f : Failure}
    (hf : t'.slot? id = some (.rejected f)) :
    t.slot? id = some (.rejected f) ∨
      ∃ claim cs, w.phase = .unwind (claim :: cs) f ∧ claim.id = id ∧ f.cause.isFinal = true := by
  cases h.slot id with
  | same hs => exact .inl (hs ▸ hf)
  | claimed _ _ _ hs | published _ _ hs => cases hs.symm.trans hf
  | settled hp hid hs =>
    rw [hs] at hf
    split at hf
    · cases hf
      exact .inr ⟨_, _, hp, hid, ‹_›⟩
    · cases hf

/-- A slot with an owner had it before, or the walk has just taken it. -/
theorem Step.verifying_slot (h : Step a t σ w t' σ' w') {id : TransactionId} {r : RequestId}
    (hs : t'.slot? id = some (.verifying r)) :
    t.slot? id = some (.verifying r) ∨ r = w.request ∧ ∃ target, w'.phase = .check target ∧ target.id = id := by
  cases h.slot id with
  | same he => exact .inl (he ▸ hs)
  | claimed hp hid _ he =>
    cases he.symm.trans hs
    exact .inr ⟨rfl, _, hp, hid⟩
  | published _ _ he => cases he.symm.trans hs
  | settled _ _ he =>
    rw [he] at hs
    split at hs <;> cases hs

/-! ## What a step does to the waits and to the store -/

def WaitLeft (t : Table) (w : Walk) (q : RequestId) (id : TransactionId) : Prop :=
  t.waiting.get? q = some id ∧ (q = w.request → ∀ target, w.phase ≠ .blocked target)

theorem waitLeft_wake {q : RequestId} {id : TransactionId} (h : (t.wake w.request).waiting.get? q = some id) :
    WaitLeft t w q id := by
  rw [Table.waiting_wake] at h
  split at h
  · cases h
  · rename_i hne
    exact ⟨h, fun e => absurd e hne⟩

theorem Looks.waitLeft {target : Claim} (h : Looks a t σ w target t' σ') {q : RequestId} {id : TransactionId}
    (hq : t'.waiting.get? q = some id) : WaitLeft t w q id := by
  cases h with
  | first hp => exact ⟨hq, fun _ _ => by simp [hp]⟩
  | again => exact waitLeft_wake hq

theorem waiting_wake_of_ne {q : RequestId} (hq : q ≠ w.request) :
    (t.wake w.request).waiting.get? q = t.waiting.get? q := by
  rw [Table.waiting_wake, if_neg hq]

theorem Looks.waiting_of_ne {target : Claim} (h : Looks a t σ w target t' σ') {q : RequestId} (hq : q ≠ w.request) :
    t'.waiting.get? q = t.waiting.get? q := by
  cases h with
  | first => rfl
  | again => exact waiting_wake_of_ne hq

/-- A step leaves the waits of all other requests as they are. -/
theorem Step.waiting_of_ne (h : Step a t σ w t' σ' w') {q : RequestId} (hq : q ≠ w.request) :
    t'.waiting.get? q = t.waiting.get? q := by
  cases h with
  | waits hl => rw [Table.waiting_wait, if_neg hq, hl.waiting_of_ne hq]
  | known hl | refused hl | closed hl | takes hl => exact hl.waiting_of_ne hq
  | stoppedWaiting => exact waiting_wake_of_ne hq
  | settles => rw [Table.waiting_settle]
  | _ => rfl

theorem Looks.waiting_distinct {target : Claim} (h : Looks a t σ w target t' σ') (hk : t.waiting.keys.Nodup) :
    t'.waiting.keys.Nodup := by
  cases h with
  | first => exact hk
  | again => exact Assoc.nodup_erase hk w.request

/-- No step makes a request wait twice. -/
theorem Step.waiting_distinct (h : Step a t σ w t' σ' w') (hk : t.waiting.keys.Nodup) : t'.waiting.keys.Nodup := by
  cases h with
  | waits hl => exact Assoc.nodup_set (hl.waiting_distinct hk) ..
  | known hl | refused hl | closed hl | takes hl => exact hl.waiting_distinct hk
  | stoppedWaiting => exact Assoc.nodup_erase hk w.request
  | settles =>
    rw [Table.waiting_settle]
    exact hk
  | _ => exact hk

/-- A walk that is blocked after a step has found the slot of another request, and no loop of
    waits that its own would close. -/
theorem Step.blocked (h : Step a t σ w t' σ' w') {target : Claim} (hp : w'.phase = .blocked target) :
    ∃ t₁ owner, Looks a t σ w target t₁ σ' ∧ t.slot? target.id = some (.verifying owner) ∧
      t₁.wouldDeadlock w.request target.id = false ∧ t' = t₁.wait w.request target.id := by
  cases h with
  | waits hl hs _ hd =>
    cases hp
    exact ⟨_, _, hl, hs, hd, rfl⟩
  | found | known | publishes => exact (resolved_onward hp).elim
  | passed => exact (follow_onward hp).elim
  | rests hdone => cases hdone.symm.trans hp
  | _ => cases hp

/-- After a step a wait is the one that its walk has just begun, or it is an older one. -/
theorem Step.waiting (h : Step a t σ w t' σ' w') {q : RequestId} {id : TransactionId}
    (hq : t'.waiting.get? q = some id) :
    (q = w.request ∧ ∃ target, w'.phase = .blocked target ∧ target.id = id) ∨ WaitLeft t w q id := by
  cases h with
  | waits hl =>
    rw [Table.waiting_wait] at hq
    split at hq
    · rename_i hqr
      exact .inl ⟨hqr, _, rfl, Option.some.inj hq⟩
    · exact .inr (hl.waitLeft hq)
  | known hl => exact .inr (hl.waitLeft hq)
  | refused hl => exact .inr (hl.waitLeft hq)
  | closed hl => exact .inr (hl.waitLeft hq)
  | takes hl => exact .inr (hl.waitLeft (by simpa using hq))
  | stoppedWaiting => exact .inr (waitLeft_wake hq)
  | publishes hp => exact .inr ⟨by simpa using hq, fun _ _ => by simp [hp]⟩
  | settles hp => exact .inr ⟨by simpa using hq, fun _ _ => by simp [hp]⟩
  | stopped hp | entered hp | unreadable hp | found hp | missing hp | passed hp | faulted hp | rejects hp
  | judged hp | keeps hp | loses hp | fails hp | rests hp =>
    exact .inr ⟨hq, fun _ _ => by simp [hp]⟩

end Walk

namespace Conditions

variable {l : Ledger} {c : Conditions} {σ : RecordStore}

theorem find_eq_ok {id : TransactionId} {found : Option Record} :
    c.find σ id = .ok found ↔ c.readFault = none ∧ σ.get? id = found := by
  unfold find
  cases c.readFault <;> simp

theorem keep_eq_ok {r : Record} (h : (c.keep σ r).1 = .ok ()) : σ.put r = .ok (c.keep σ r).2 := by
  unfold keep at h ⊢
  split at h
  · cases h
  · cases h
  · assumption
  · cases h

/-- Whatever the store says, it has kept the record or is what it was. -/
theorem keep_cases (c : Conditions) (σ : RecordStore) (r : Record) :
    (c.keep σ r).2 = σ ∨ σ.put r = .ok (c.keep σ r).2 := by
  unfold keep
  split
  · exact .inr ‹_›
  · exact .inl rfl
  · exact .inr ‹_›
  · exact .inl rfl

theorem put_of_keep {r : Record} {e : StoreError} (hfault : c.writeFault = none) (h : (c.keep σ r).1 = .error e) :
    σ.put r = .error e := by
  unfold keep at h
  rw [hfault] at h
  cases hput : σ.put r with
  | error e' =>
    rw [hput] at h
    exact congrArg Except.error (Except.error.inj h)
  | ok σ' =>
    rw [hput] at h
    cases h

end Conditions

namespace Walk

variable {l : Ledger} {c : Conditions} {t t' : Table} {σ σ' : RecordStore} {w w' : Walk}

theorem Looks.store {target : Claim} (h : Looks (c.surroundings l) t σ w target t' σ') : σ' = σ :=
  h.store_eq fun _ => rfl

/-- Among the surroundings of a ledger the store changes only when a record is put. -/
theorem Step.store (h : Step (c.surroundings l) t σ w t' σ' w') :
    σ' = σ ∨ ∃ f, w.phase = .store f ∧ σ.put f.record = .ok σ' := by
  have kept {f : Frame} (hp : w.phase = .store f) : (c.keep σ f.record).2 = σ ∨
      ∃ f', w.phase = .store f' ∧ σ.put f'.record = .ok (c.keep σ f.record).2 := by
    rcases c.keep_cases σ f.record with he | hput
    · exact .inl he
    · exact .inr ⟨f, hp, hput⟩
  cases h with
  | keeps hp => exact kept hp
  | loses hp => exact kept hp
  | known hl | refused hl | closed hl | waits hl | takes hl => exact .inl hl.store
  | _ => exact .inl rfl

end Walk

namespace World

/-- A step of a request changes nothing if there is no such request, and is one of the steps of
    its walk otherwise. -/
theorem proceed_cases (s : World) (i : RequestId) (a : Around) :
    s.proceed i a = s ∨ ∃ w t' σ' w', s.walks[i]? = some w ∧ Walk.Step a s.table s.store w t' σ' w' ∧
      s.proceed i a = ⟨{ s.verifier with table := t' }, σ', s.walks.set i w'⟩ := by
  unfold proceed
  split
  · exact .inl rfl
  · rename_i w hi
    exact .inr ⟨w, _, _, _, hi, Walk.step_sound a s.table s.store w, rfl⟩

theorem proceed_of_none {s : World} {i : RequestId} (h : s.walks[i]? = none) (a : Around) : s.proceed i a = s := by
  unfold proceed
  rw [h]

theorem proceed_step {s : World} {i : RequestId} {w : Walk} (h : s.walks[i]? = some w) (a : Around) :
    ∃ w', Walk.Step a s.table s.store w (s.proceed i a).table (s.proceed i a).store w' ∧
      (s.proceed i a).walks[i]? = some w' := by
  have hlt := (List.getElem?_eq_some_iff.mp h).1
  unfold proceed
  rw [h]
  exact ⟨_, Walk.step_sound a s.table s.store w, List.getElem?_set_self hlt⟩

theorem proceed_of_ne {i j : RequestId} (h : j ≠ i) (s : World) (a : Around) :
    (s.proceed i a).walks[j]? = s.walks[j]? := by
  unfold proceed
  split
  · rfl
  · exact List.getElem?_set_ne h.symm

/-- After a step of request `i` each walk is what it was, or what the step has made of it. -/
theorem walk_of_proceed {s : World} {i j : RequestId} {a : Around} {x : Walk}
    (h : (s.proceed i a).walks[j]? = some x) :
    (j ≠ i ∧ s.walks[j]? = some x) ∨
      (j = i ∧ ∃ w, s.walks[i]? = some w ∧
        Walk.Step a s.table s.store w (s.proceed i a).table (s.proceed i a).store x) := by
  by_cases hj : j = i
  · subst hj
    cases hw : s.walks[j]? with
    | none =>
      rw [proceed_of_none hw, hw] at h
      cases h
    | some w =>
      obtain ⟨w', hstep, hw'⟩ := proceed_step hw a
      cases h.symm.trans hw'
      exact .inr ⟨rfl, w, rfl, hstep⟩
  · exact .inl ⟨hj, (proceed_of_ne hj s a).symm.trans h⟩

theorem walk_of_enroll {s : World} {id : TransactionId} {i : RequestId} {x : Walk}
    (h : (s.enroll id).walks[i]? = some x) : s.walks[i]? = some x ∨ x = .start s.verifier.requests id := by
  have h' : (s.walks ++ [Walk.start s.verifier.requests id])[i]? = some x := h
  rw [List.getElem?_append] at h'
  split at h'
  · exact .inl h'
  · exact .inr (List.mem_singleton.mp (List.mem_of_getElem? h'))

theorem enroll_walk {s : World} {i : RequestId} {w : Walk} (h : s.walks[i]? = some w) (id : TransactionId) :
    (s.enroll id).walks[i]? = some w := by
  have hlt := (List.getElem?_eq_some_iff.mp h).1
  exact (List.getElem?_append_left hlt).trans h

end World

end VeiledLedger.Backchain
