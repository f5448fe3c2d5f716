/-
  VeiledLedger.Proofs.Backchain.Settled — what an answer rests on while the store works.

  The store gives what it holds, and keeps what it is given unless it holds another record of
  that transaction; nobody else writes to it; and records carry the id of the transaction that
  was checked (`Around.Working`). A record may have been there from the start. Then a
  transaction with a record is verified, or the walk that has put the record is about to publish
  it, or nobody has a hand on it and no walk ever comes to look at its slot (`World.Kept`). So
  none that is rejected has a record.

  A walk has come down from its root, and what it holds ends there. So when it is done, the
  record that it answers with is stored, and a final failure is the one in the slot of its root
  (`Walk.Rests`). It cannot have met a cycle there without a claim: a loop of waits comes back
  to a walk that holds something.

  Main statement: `settled_after`.
-/

import VeiledLedger.Proofs.Backchain.Release
import VeiledLedger.Proofs.Backchain.Waits

namespace VeiledLedger.Backchain

/-- The store answers, it keeps what can be kept, and none but `store` changes it; records carry
    the id of their transaction. -/
structure Around.Working (a : Around) : Prop where
  stopped : ∀ σ, (a.stopped.run σ).2 = σ
  find : ∀ id σ, (a.find id).run σ = (.ok (σ.get? id), σ)
  check : ∀ id σ, ((a.check id).run σ).2 = σ
  named : a.Named
  store : ∀ r σ, (a.store r).run σ = match σ.put r with
    | .ok σ' => (.ok (), σ')
    | .error e => (.error e, σ)

def Event.Working : Event → Prop
  | .request _ => True
  | .step _ a => a.Working

theorem Conditions.surroundings_working {c : Conditions} (hread : c.readFault = none) (hwrite : c.writeFault = none)
    (hnamed : c.judgment.Named) (l : Ledger) : Around.Working (c.surroundings l) where
  stopped _ := rfl
  find id σ := by
    show (c.find σ id, σ) = _
    rw [Conditions.find, hread]
  check _ _ := rfl
  named := surroundings_named hnamed l
  store r σ := by
    show c.keep σ r = _
    rw [Conditions.keep, hwrite]
    cases σ.put r <;> rfl

theorem Around.Working.store_cases {a : Around} (ha : a.Working) (r : Record) (σ : RecordStore) :
    (∃ σ', (a.store r).run σ = (.ok (), σ') ∧ σ.put r = .ok σ') ∨ ∃ e, (a.store r).run σ = (.error e, σ) := by
  rw [ha.store]
  cases hput : σ.put r with
  | ok σ' => exact .inl ⟨σ', rfl, rfl⟩
  | error e => exact .inr ⟨e, rfl⟩

theorem Around.Working.faithful {a : Around} (ha : a.Working) : a.Faithful where
  stopped σ := by
    rw [ha.stopped]
    exact .refl σ
  find id σ := by
    rw [ha.find]
    exact .refl σ
  check id σ := by
    rw [ha.check]
    exact .refl σ
  store r σ := by
    rcases ha.store_cases r σ with ⟨σ', he, hput⟩ | ⟨e, he⟩
    · rw [he]
      exact RecordStore.extends_put hput
    · rw [he]
      exact .refl σ
  kept r σ h := by
    rcases ha.store_cases r σ with ⟨σ', he, hput⟩ | ⟨e, he⟩
    · rw [he]
      exact RecordStore.get?_put_self hput
    · rw [he] at h
      cases h

theorem Event.Working.faithful {e : Event} (he : e.Working) : e.Faithful := by
  cases e with
  | request id => trivial
  | step i a => exact Around.Working.faithful he

theorem Event.Working.named {e : Event} (he : e.Working) : e.Named := by
  cases e with
  | request id => trivial
  | step i a => exact Around.Working.named he

/-! ## Where a walk looks, and what it writes -/

namespace Walk

section
variable {S : Type} {a : Surroundings (StateM S)} {t t' : Table} {σ σ' : S} {w w' : Walk}

/-- A walk that is about to look at a slot has looked there before, or has found no record. -/
theorem Step.looking (h : Step a t σ w t' σ' w') {target : Claim}
    (hp : w'.phase = .visit target ∨ w'.phase = .blocked target) :
    (w.phase = .visit target ∨ w.phase = .blocked target) ∨ ((a.find target.id).run σ).1 = .ok none := by
  have onward {phase : Phase} (hp' : phase.Onward) (he : phase = .visit target ∨ phase = .blocked target) : False := by
    rcases he with rfl | rfl <;> exact hp'
  cases h with
  | missing _ hnone =>
    rcases hp with hp | hp <;> cases hp
    exact .inr hnone
  | waits hl =>
    rcases hp with hp | hp <;> cases hp
    exact .inl hl.phase
  | found | known | publishes => exact (onward (resolved_onward rfl) hp).elim
  | passed => exact (onward (follow_onward rfl) hp).elim
  | rests hdone => rcases hp with hp | hp <;> cases hdone.symm.trans hp
  | _ => rcases hp with hp | hp <;> cases hp

/-- A walk claims what it has looked at. -/
theorem Step.claiming (h : Step a t σ w t' σ' w') {target : Claim} (hp : w'.phase = .check target) :
    w.phase = .visit target ∨ w.phase = .blocked target := by
  cases h with
  | takes hl =>
    cases hp
    exact hl.phase
  | found | known | publishes => exact (resolved_onward hp).elim
  | passed => exact (follow_onward hp).elim
  | rests hdone => cases hdone.symm.trans hp
  | _ => cases hp

theorem Step.publishing (h : Step a t σ w t' σ' w') {f : Frame} (hp : w.phase = .publish f) :
    t'.slot? f.claim.id = some (.verified f.record) := by
  cases h with
  | publishes hp' =>
    cases hp.symm.trans hp'
    rw [Table.slot?_setSlot, if_pos rfl]
  | known hl | refused hl | closed hl | waits hl | takes hl => rcases hl.phase with hp' | hp' <;> cases hp.symm.trans hp'
  | stopped hp' | entered hp' | unreadable hp' | found hp' | missing hp' | stoppedWaiting hp' | passed hp' | faulted hp'
  | rejects hp' | judged hp' | keeps hp' | loses hp' | settles hp' | fails hp' | rests hp' => cases hp.symm.trans hp'

end

variable {a : Around} {t t' : Table} {σ σ' : RecordStore} {w w' : Walk}

/-- The store changes only when a record is put that is published next. -/
theorem Step.writes (ha : a.Working) (h : Step a t σ w t' σ' w') :
    σ' = σ ∨ ∃ f, w.phase = .store f ∧ w'.phase = .publish f ∧ σ.put f.record = .ok σ' := by
  cases h with
  | @keeps f hp hk =>
    rcases ha.store_cases f.record σ with ⟨σ', he, hput⟩ | ⟨e, he⟩
    · rw [he]
      exact .inr ⟨f, hp, rfl, hput⟩
    · rw [he] at hk
      cases hk
  | @loses f e hp hk =>
    rcases ha.store_cases f.record σ with ⟨σ', he, -⟩ | ⟨e', he⟩
    · rw [he] at hk
      cases hk
    · rw [he]
      exact .inl rfl
  | stopped | entered | stoppedWaiting | judged => exact .inl (ha.stopped σ)
  | unreadable | found | missing => exact .inl (by rw [ha.find])
  | passed | faulted | rejects => exact .inl (ha.check _ σ)
  | known hl | refused hl | closed hl | waits hl | takes hl => exact .inl (hl.store_eq ha.stopped)
  | publishes | settles | fails | rests => exact .inl rfl

end Walk

/-! ## What has a record -/

def World.Spared (s : World) (id : TransactionId) : Prop :=
  s.table.slot? id = none ∧
    ∀ w ∈ s.walks, ∀ target, w.phase = .visit target ∨ w.phase = .blocked target → target.id ≠ id

inductive World.Kept (s : World) (id : TransactionId) : Prop
  | published {r : Record} : s.table.slot? id = some (.verified r) → Kept s id
  | put {k : RequestId} {w : Walk} {f : Frame} : s.walks[k]? = some w → w.phase = .publish f → f.claim.id = id →
      Kept s id
  | spared : s.Spared id → Kept s id

/-! ## Down from the root -/

def Rooted (root : TransactionId) (claims : List Claim) : Prop := claims.getLast? = some ⟨root, none⟩

theorem Rooted.cons {root : TransactionId} {claims : List Claim} (h : Rooted root claims) (claim : Claim) :
    Rooted root (claim :: claims) := by
  cases claims with
  | nil => cases h
  | cons c cs => exact List.getLast?_cons_cons.trans h

theorem Rooted.tail {root : TransactionId} {claim : Claim} {claims : List Claim} (h : Rooted root (claim :: claims)) :
    claims = [] ∧ claim = ⟨root, none⟩ ∨ claims ≠ [] ∧ Rooted root claims := by
  cases claims with
  | nil => exact .inl ⟨rfl, Option.some.inj h⟩
  | cons c cs => exact .inr ⟨List.cons_ne_nil c cs, List.getLast?_cons_cons.symm.trans h⟩

/-- Until a walk is done it leads down from its root; then what it answers is what is known of the
    root. -/
def Phase.Rests (t : Table) (σ : RecordStore) (root : TransactionId) (above : List Claim) : Phase → Prop
  | .enter claim | .lookUp claim | .visit claim | .blocked claim | .check claim | .judge claim _ =>
    Rooted root (claim :: above)
  | .store f | .publish f => Rooted root (f.claim :: above)
  | .unwind [] f => f.cause.isFinal = true → t.slot? root = some (.rejected f)
  | .unwind (claim :: claims) _ => Rooted root (claim :: claims)
  | .done (.ok r) => σ.get? root = some r
  | .done (.error e) => e.isFinal = true → ∃ f, t.slot? root = some (.rejected f) ∧ e = f.toError root

def Walk.Rests (t : Table) (σ : RecordStore) (w : Walk) : Prop :=
  w.phase.Rests t σ w.root (w.stack.map Frame.claim)

namespace Walk

section
variable {t t' : Table} {σ σ' : RecordStore} {w : Walk}

theorem Rests.mono (h : w.Rests t σ) (hσ : σ'.Extends σ)
    (ht : ∀ id f, t.slot? id = some (.rejected f) → t'.slot? id = some (.rejected f)) : w.Rests t' σ' := by
  unfold Rests at h ⊢
  cases hp : w.phase with
  | unwind claims f =>
    rw [hp] at h
    cases claims with
    | nil => exact fun hfinal => ht _ _ (h hfinal)
    | cons => exact h
  | done res =>
    rw [hp] at h
    cases res with
    | ok r => exact hσ _ _ h
    | error e => exact fun hfinal => (h hfinal).imp fun f hf => ⟨ht _ _ hf.1, hf.2⟩
  | _ =>
    rw [hp] at h
    exact h

theorem unwind_rests {claims : List Claim} {f : Failure} (hroot : claims = [] → f.cause.isFinal = true →
      t.slot? w.root = some (.rejected f)) (hclaims : claims ≠ [] → Rooted w.root claims) :
    { w with stack := [], phase := .unwind claims f : Walk }.Rests t σ := by
  cases claims with
  | nil => exact hroot rfl
  | cons c cs => exact hclaims (List.cons_ne_nil c cs)

theorem follow_rests {f : Frame} {stack : List Frame} (h : Rooted w.root (f.claim :: stack.map Frame.claim)) :
    (w.follow f stack).Rests t σ := by
  unfold follow
  split
  · exact h.cons _
  · exact h

/-- The transaction where the walk stands has a record. -/
theorem resolved_rests {claim : Claim} {r : Record} (hr : σ.get? claim.id = some r)
    (h : Rooted w.root (claim :: w.stack.map Frame.claim)) : (w.resolved r).Rests t σ := by
  unfold resolved
  cases hs : w.stack with
  | nil =>
    rw [hs] at h
    obtain rfl : claim = ⟨w.root, none⟩ := Option.some.inj h
    exact hr
  | cons f stack =>
    rw [hs] at h
    rcases h.tail with ⟨hnil, -⟩ | ⟨-, h⟩
    · cases hnil
    · exact follow_rests h

/-- The walk meets a failure; at its root it is the one in the slot there, or not final. -/
theorem met_rests {target : Claim} {f : Failure}
    (hf : w.stack = [] → f.cause.isFinal = true → t.slot? target.id = some (.rejected f))
    (h : Rooted w.root (target :: w.stack.map Frame.claim)) : (w.met target f).Rests t σ := by
  rcases h.tail with ⟨hnil, rfl⟩ | ⟨hne, h⟩
  · exact unwind_rests (fun _ => hf (List.map_eq_nil_iff.mp hnil)) fun hne => absurd hnil hne
  · exact unwind_rests (fun hnil => absurd hnil hne) fun _ => h

theorem failed_rests {claim : Claim} {cause : Cause} (h : Rooted w.root (claim :: w.stack.map Frame.claim)) :
    (w.failed claim cause).Rests t σ := h

end

theorem Looks.rests {a : Around} {t t' : Table} {σ σ' σ₀ : RecordStore} {w : Walk} {target : Claim}
    (h : Looks a t σ w target t' σ') (hw : w.Rests t σ₀) : Rooted w.root (target :: w.stack.map Frame.claim) := by
  unfold Rests at hw
  rcases h.phase with hp | hp <;> rwa [hp] at hw

end Walk

/-! ## Worlds with a working store -/

structure Settled (s : World) : Prop where
  exclusive : Exclusive s
  recorded : Recorded s
  kept : ∀ id, s.store.Holds id → s.Kept id
  rests : ∀ w ∈ s.walks, w.Rests s.table s.store

theorem settled_start (σ : RecordStore) : Settled (.start σ) where
  exclusive := exclusive_start σ
  recorded := recorded_start σ
  kept _ _ := .spared ⟨rfl, fun w hw => (by cases hw)⟩
  rests := by
    intro w hw
    cases hw

namespace Settled

variable {s : World} {a : Around} {i : RequestId}

/-- What is rejected has no record. -/
theorem rejected_unstored (h : Settled s) {id : TransactionId} {f : Failure}
    (hf : s.table.slot? id = some (.rejected f)) : s.store.get? id = none := by
  cases hr : s.store.get? id with
  | none => rfl
  | some r =>
    cases h.kept id ⟨r, hr⟩ with
    | published hs => cases hs.symm.trans hf
    | @put k w g hw hp hid =>
      subst hid
      have hs := h.exclusive.holds k w hw g.claim (by simp [Walk.claims, Phase.claims, hp])
      cases hs.symm.trans hf
    | spared hs => cases hs.1.symm.trans hf

/-- A transaction that has a record and is spared remains so. -/
theorem spared_next (h : Settled s) {id : TransactionId} (hstored : s.store.Holds id) (hs : s.Spared id) {e : Event}
    (he : e.Working) : (s.next e).Spared id := by
  obtain ⟨r, hr⟩ := hstored
  cases e with
  | request root =>
    refine ⟨hs.1, fun w hw target hp => ?_⟩
    rcases List.mem_append.mp hw with hw | hw
    · exact hs.2 w hw target hp
    · rw [List.mem_singleton.mp hw] at hp
      rcases hp with hp | hp <;> cases hp
  | step i a =>
    have ha : a.Working := he
    refine ⟨?_, fun x hx target hp => ?_⟩
    · cases h.exclusive.turn i a id with
      | stays he => exact he.trans hs.1
      | verified ho | settled ho => cases ho.symm.trans hs.1
      | claimed _ _ hcheck =>
        obtain ⟨x, claim, hx, hp, rfl⟩ := hcheck
        rcases World.walk_of_proceed hx with ⟨hne, -⟩ | ⟨-, w, hw, hstep⟩
        · exact absurd rfl hne
        · exact absurd rfl (hs.2 w (List.mem_of_getElem? hw) claim (hstep.claiming hp))
    · obtain ⟨j, hj⟩ := List.mem_iff_getElem?.mp hx
      rcases World.walk_of_proceed hj with ⟨-, hold⟩ | ⟨rfl, w, hw, hstep⟩
      · exact hs.2 x (List.mem_of_getElem? hold) target hp
      · rcases hstep.looking hp with hold | hnone
        · exact hs.2 w (List.mem_of_getElem? hw) target hold
        · rw [ha.find] at hnone
          rintro rfl
          cases hr.symm.trans (Except.ok.inj hnone)

theorem kept_proceed (h : Settled s) (ha : a.Working) {id : TransactionId} (hstored : (s.proceed i a).store.Holds id) :
    (s.proceed i a).Kept id := by
  cases hi : s.walks[i]? with
  | none =>
    rw [World.proceed_of_none hi] at hstored ⊢
    exact h.kept id hstored
  | some w =>
    obtain ⟨w', hstep, hi'⟩ := World.proceed_step hi a
    have hrecorded := h.recorded.walks w (List.mem_of_getElem? hi)
    have old (hold : s.store.Holds id) : (s.proceed i a).Kept id := by
      cases h.kept id hold with
      | published hs =>
        exact .published ((h.exclusive.decided_next (.inl ⟨_, hs⟩) (.step i a)).trans hs)
      | @put k x f hx hp hid =>
        subst hid
        by_cases hk : k = i
        · subst hk
          cases hi.symm.trans hx
          exact .published (hstep.publishing hp)
        · exact .put ((World.proceed_of_ne hk s a).trans hx) hp rfl
      | spared hs => exact .spared (h.spared_next hold hs (e := .step i a) ha)
    rcases hstep.writes ha with he | ⟨f, hp, hp', hput⟩
    · exact old (he ▸ hstored)
    · obtain ⟨r, hr⟩ := hstored
      rw [RecordStore.get?_put hput] at hr
      split at hr
      · rename_i hid
        exact .put hi' hp' ((hrecorded.store f hp).symm.trans hid.symm)
      · exact old ⟨r, hr⟩

/-- A walk that holds nothing closes no loop. -/
theorem stack_of_closed (h : Settled s) {w : Walk} (hi : s.walks[i]? = some w) {target : Claim} {t' : Table}
    {σ' : RecordStore} (hl : Walk.Looks a s.table s.store w target t' σ') {owner : RequestId}
    (hs : s.table.slot? target.id = some (.verifying owner))
    (hloop : owner = w.request ∨ t'.wouldDeadlock w.request target.id = true) : w.stack ≠ [] := by
  obtain ⟨id, hid⟩ := (hl.leads hs hloop).slot
  obtain ⟨x, hx, claim, hmem, -⟩ := h.exclusive.owned.owner id w.request hid
  rw [h.exclusive.owned.request i w hi, hi] at hx
  cases hx
  rw [hl.claims] at hmem
  intro hnil
  rw [hnil] at hmem
  cases hmem

theorem rests_of_step (h : Settled s) (ha : a.Working) {w : Walk} (hi : s.walks[i]? = some w) {t' : Table}
    {σ' : RecordStore} {w' : Walk} (hstep : Walk.Step a s.table s.store w t' σ' w') : w'.Rests t' σ' := by
  have hw := h.rests w (List.mem_of_getElem? hi)
  have hrecorded := h.recorded.walks w (List.mem_of_getElem? hi)
  have hphase := hw
  unfold Walk.Rests at hphase
  cases hstep with
  | stopped hp | unreadable hp | stoppedWaiting hp =>
    rw [hp] at hphase
    exact Walk.met_rests (fun _ hfinal => by cases hfinal) hphase
  | entered hp | missing hp | faulted hp | keeps hp =>
    rw [hp] at hphase
    exact hphase
  | @found target r hp hr =>
    rw [hp] at hphase
    rw [ha.find] at hr ⊢
    exact Walk.resolved_rests (Except.ok.inj hr) hphase
  | known hl hr =>
    rw [hl.store_eq ha.stopped]
    exact Walk.resolved_rests (h.recorded.slots _ _ hr) (hl.rests hw)
  | refused hl hf => exact Walk.met_rests (fun _ _ => (hl.slot? _).trans hf) (hl.rests hw)
  | closed hl hs hloop =>
    exact Walk.met_rests (fun hnil => absurd hnil (h.stack_of_closed hi hl hs hloop)) (hl.rests hw)
  | waits hl | takes hl => exact hl.rests hw
  | passed hp =>
    rw [hp] at hphase
    exact Walk.follow_rests hphase
  | rejects hp | judged hp | loses hp =>
    rw [hp] at hphase
    exact Walk.failed_rests hphase
  | @publishes f hp =>
    rw [hp] at hphase
    exact Walk.resolved_rests (hrecorded.publish f hp) hphase
  | @settles claim cs f hp =>
    rw [hp] at hphase
    rcases hphase.tail with ⟨rfl, rfl⟩ | ⟨hne, hrooted⟩
    · intro hfinal
      show (s.table.settle w.root f).slot? w.root = some (.rejected f)
      rw [Table.slot?_settle, if_pos rfl]
      exact if_pos hfinal
    · obtain ⟨c, cs, rfl⟩ := List.exists_cons_of_ne_nil hne
      exact hrooted
  | @fails f hp =>
    rw [hp] at hphase
    exact fun hfinal => ⟨f, hphase ((f.isFinal_toError w.root).symm.trans hfinal), rfl⟩
  | rests => exact hw

theorem rests_next (h : Settled s) {e : Event} (he : e.Working) :
    ∀ w ∈ (s.next e).walks, w.Rests (s.next e).table (s.next e).store := by
  intro x hx
  cases e with
  | request root =>
    rcases List.mem_append.mp hx with hx | hx
    · exact h.rests x hx
    · rw [List.mem_singleton.mp hx]
      rfl
  | step i a =>
    have ha : a.Working := he
    obtain ⟨j, hj⟩ := List.mem_iff_getElem?.mp hx
    rcases World.walk_of_proceed hj with ⟨-, hold⟩ | ⟨rfl, w, hw, hstep⟩
    · refine (h.rests x (List.mem_of_getElem? hold)).mono ?_ fun id f hf => ?_
      · exact World.extends_next he.faithful
      · exact (h.exclusive.decided_next (.inr ⟨f, hf⟩) (.step i a)).trans hf
    · exact h.rests_of_step ha hw hstep

theorem next (h : Settled s) {e : Event} (he : e.Working) : Settled (s.next e) where
  exclusive := exclusive_next h.exclusive e
  recorded := recorded_next h.recorded he.faithful he.named
  kept := by
    intro id hstored
    cases e with
    | request root =>
      cases h.kept id hstored with
      | published hs => exact .published hs
      | put hw hp hid => exact .put (World.enroll_walk hw root) hp hid
      | spared hs => exact .spared (h.spared_next hstored hs he)
    | step i a => exact h.kept_proceed he hstored
  rests := h.rests_next he

theorem after (h : Settled s) {events : List Event} (he : ∀ e ∈ events, e.Working) : Settled (s.after events) :=
  World.after_induction h fun e hmem _ hs => hs.next (he e hmem)

end Settled

theorem settled_after (σ : RecordStore) {events : List Event} (he : ∀ e ∈ events, e.Working) :
    Settled ((World.start σ).after events) :=
  (settled_start σ).after he

end VeiledLedger.Backchain
