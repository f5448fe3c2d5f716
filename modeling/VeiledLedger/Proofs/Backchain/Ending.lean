/-
  VeiledLedger.Proofs.Backchain.Ending — a walk that is left alone comes to its end.

  Each transaction is claimed once at most, and has no more pointers than its view has slots.
  That pays for all steps in advance: no step is free (`Walk.Step.potential_lt`), and the
  bound on the steps of a request covers what its walk has to pay. Answers may fail to come,
  then the walk unwinds.

  Main statement: `concluded`, what a request that is alone answers and leaves behind.
-/

import Mathlib.Algebra.GroupWithZero.Nat
import VeiledLedger.Proofs.Backchain.Lone

namespace VeiledLedger.Backchain

/-! ## What is left to be claimed -/

/-- The slots in the views of the transactions that have no slot in the table. -/
def unclaimed (txs : List Published) (t : Table) : Nat :=
  ((txs.filter fun tx => t.slot? tx.id = none).map fun tx => (tx.view.groups.flatMap (·.leaves)).length).sum

theorem unclaimed_le_slots (txs : List Published) (t : Table) :
    unclaimed txs t ≤ (txs.flatMap fun tx => tx.view.groups.flatMap (·.leaves)).length := by
  induction txs with
  | nil => exact Nat.le_refl _
  | cons tx txs ih =>
    simp only [unclaimed, List.filter_cons, List.flatMap_cons, List.length_append] at ih ⊢
    split
    · simp only [List.map_cons, List.sum_cons]
      omega
    · omega

theorem unclaimed_le {t t' : Table} (txs : List Published) (h : ∀ id, t'.slot? id = none → t.slot? id = none) :
    unclaimed txs t' ≤ unclaimed txs t := by
  induction txs with
  | nil => exact Nat.le_refl _
  | cons tx txs ih =>
    simp only [unclaimed, List.filter_cons] at ih ⊢
    by_cases htx : t'.slot? tx.id = none
    · simpa [htx, h tx.id htx] using ih
    · by_cases htx' : t.slot? tx.id = none
      · simp only [htx, htx', decide_true, decide_false, Bool.false_eq_true, if_false, if_true, List.map_cons, List.sum_cons]
        omega
      · simpa [htx, htx'] using ih

theorem free_of_setSlot {t : Table} {id x : TransactionId} {slot : Slot} (h : (t.setSlot id slot).slot? x = none) :
    t.slot? x = none := by
  rw [Table.slot?_setSlot] at h
  split at h
  · cases h
  · exact h

/-- Claiming a transaction pays for all its pointers. -/
theorem room_add_unclaimed_le {t t' : Table} (txs : List Published) {id : TransactionId} (hfree : t.slot? id = none)
    (htaken : t'.slot? id ≠ none) (h : ∀ x, t'.slot? x = none → t.slot? x = none) :
    room txs id + unclaimed txs t' ≤ unclaimed txs t := by
  induction txs with
  | nil => exact Nat.le_refl _
  | cons tx txs ih =>
    have hle := unclaimed_le txs h
    simp only [unclaimed, room, List.filter_cons, List.find?_cons] at ih hle ⊢
    by_cases hid : tx.id = id
    · subst hid
      simp only [hfree, htaken, decide_true, decide_false, Bool.false_eq_true, if_false, if_true, List.map_cons,
        List.sum_cons, Option.map_some, Option.getD_some]
      omega
    · simp only [hid, decide_false]
      by_cases htx : t'.slot? tx.id = none
      · simp only [htx, h tx.id htx, decide_true, if_true, List.map_cons, List.sum_cons]
        omega
      · by_cases htx' : t.slot? tx.id = none
        · simp only [htx, htx', decide_true, decide_false, Bool.false_eq_true, if_false, if_true, List.map_cons,
            List.sum_cons]
          omega
        · simpa [htx, htx'] using ih

/-! ## What the steps cost -/

def Frame.cost (f : Frame) : Nat := 3 + 7 * f.pending.length

def Phase.cost (txs : List Published) : Phase → Nat
  | .enter _ => 7
  | .lookUp _ => 6
  | .visit _ | .blocked _ => 5
  | .check claim => 4 + 7 * room txs claim.id
  | .judge _ _ | .store _ => 3
  | .publish _ => 2
  | .unwind claims _ => claims.length + 1
  | .done _ => 0

namespace Walk

variable {S : Type} {a : Surroundings (StateM S)} {behind : S → RecordStore → Prop} {txs : List Published}
  {t t' : Table} {x x' : S} {σ : RecordStore} {w w' : Walk}

/-- More steps than this a lone walk does not do. -/
def potential (txs : List Published) (t : Table) (w : Walk) : Nat :=
  match w.phase with
  | .unwind _ _ | .done _ => w.phase.cost txs
  | _ => w.phase.cost txs + (w.stack.map Frame.cost).sum + 7 * unclaimed txs t

theorem length_le_cost (stack : List Frame) : stack.length ≤ (stack.map Frame.cost).sum := by
  induction stack with
  | nil => exact Nat.le_refl _
  | cons f stack ih =>
    simp only [List.length_cons, List.map_cons, List.sum_cons, Frame.cost]
    omega

theorem potential_follow (f : Frame) (stack : List Frame) :
    (w.follow f stack).potential txs t = f.cost + (stack.map Frame.cost).sum + 7 * unclaimed txs t := by
  unfold follow
  cases hps : f.pending with
  | nil => simp [potential, Phase.cost, Frame.cost, hps]
  | cons p ps =>
    simp only [potential, Phase.cost, Frame.cost, hps, List.map_cons, List.sum_cons, List.length_cons]
    omega

theorem potential_resolved (r : Record) :
    (w.resolved r).potential txs t ≤ (w.stack.map Frame.cost).sum + 7 * unclaimed txs t := by
  unfold resolved
  cases hs : w.stack with
  | nil => simp [potential, Phase.cost]
  | cons f stack => simp [potential_follow]

theorem potential_met (target : Claim) (f : Failure) :
    (w.met target f).potential txs t ≤ (w.stack.map Frame.cost).sum + 1 := by
  simp only [met, potential, Phase.cost, List.length_map]
  have := length_le_cost w.stack
  omega

theorem potential_failed (claim : Claim) (cause : Cause) :
    (w.failed claim cause).potential txs t ≤ (w.stack.map Frame.cost).sum + 2 := by
  simp only [failed, potential, Phase.cost, List.length_cons, List.length_map]
  have := length_le_cost w.stack
  omega

theorem Looks.potential {target : Claim} (h : Looks a t x w target t' x') :
    w.potential txs t = 5 + (w.stack.map Frame.cost).sum + 7 * unclaimed txs t' := by
  cases h with
  | first hp => simp only [Walk.potential, hp, Phase.cost]
  | again hp => simp only [Walk.potential, hp, Phase.cost]; rfl

/-- Each step of a walk that does not wait uses up some of its potential. -/
theorem Step.potential_lt (ha : a.Truthful behind txs) (hx : behind x σ) (h : Step a t x w t' x' w')
    (hdone : ∀ res, w.phase ≠ .done res) (hwait : ∀ target, w'.phase ≠ .blocked target) :
    w'.potential txs t' < w.potential txs t := by
  cases h with
  | stopped hp | unreadable hp | stoppedWaiting hp =>
    refine Nat.lt_of_le_of_lt (potential_met ..) ?_
    simp only [potential, hp, Phase.cost]
    omega
  | entered hp | missing hp =>
    simp only [potential, hp, Phase.cost]
    omega
  | found hp =>
    refine Nat.lt_of_le_of_lt (potential_resolved _) ?_
    simp only [potential, hp, Phase.cost]
    omega
  | known hl =>
    refine Nat.lt_of_le_of_lt (potential_resolved _) ?_
    rw [hl.potential]
    omega
  | refused hl | closed hl =>
    refine Nat.lt_of_le_of_lt (potential_met ..) ?_
    rw [hl.potential]
    omega
  | waits => exact absurd rfl (hwait _)
  | @takes target t₁ _ hl hn =>
    have hpaid : room txs target.id + unclaimed txs (t₁.setSlot target.id (.verifying w.request)) ≤ unclaimed txs t₁ :=
      room_add_unclaimed_le txs (hl.slot? target.id ▸ hn) (by simp [Table.slot?_setSlot]) fun _ => free_of_setSlot
    rw [hl.potential]
    simp only [potential, Phase.cost]
    omega
  | passed hp he =>
    have hroom := (ha.checked hx he).2
    rw [potential_follow]
    simp only [potential, hp, Phase.cost, Frame.cost]
    omega
  | faulted hp =>
    simp only [potential, hp, Phase.cost]
    omega
  | rejects hp | judged hp | loses hp =>
    refine Nat.lt_of_le_of_lt (potential_failed ..) ?_
    simp only [potential, hp, Phase.cost]
    omega
  | keeps hp =>
    simp only [potential, hp, Phase.cost]
    omega
  | @publishes f hp =>
    have hle : unclaimed txs (t.setSlot f.claim.id (.verified f.record)) ≤ unclaimed txs t :=
      unclaimed_le txs fun _ => free_of_setSlot
    refine Nat.lt_of_le_of_lt (potential_resolved _) ?_
    simp only [potential, hp, Phase.cost]
    omega
  | settles hp | fails hp =>
    simp only [potential, hp, Phase.cost, List.length_cons, List.length_nil]
    omega
  | rests hp => exact absurd hp (hdone _)

end Walk

/-! ## A request from its start to its end -/

/-- What a request for `root` that was alone has answered, and what it has left behind. -/
structure Concluded (sure : Prop) (t₀ : Table) (σ₀ : RecordStore) (root : TransactionId) (t : Table) (σ : RecordStore)
    (res : Except BackchainError Record) : Prop where
  rested : Rested t σ
  decided : ∀ id, t₀.Decided id → t.slot? id = t₀.slot? id
  extends_start : σ.Extends σ₀
  verified : ∀ r, res = .ok r → σ.get? root = some r
  failed : ∀ e, res = .error e → ∃ f, Leaves sure t₀ σ₀ t σ root f ∧ e = f.toError root

section
variable {S : Type} {a : Surroundings (StateM S)} {behind : S → RecordStore → Prop} {txs : List Published}
  {sure : Prop} {t₀ t : Table} {x : S} {σ₀ σ : RecordStore} {w : Walk}

theorem Lone.concluded (hl : Lone sure t₀ σ₀ t σ w) {res : Except BackchainError Record} (hp : w.phase = .done res) :
    Concluded sure t₀ σ₀ w.root t σ res := by
  have hstands := hl.stands
  refine ⟨⟨fun id r hs => ?_, hl.verified, hl.rejected⟩, hl.decided, hl.extends_start, fun r hr => ?_, fun e he => ?_⟩
  · obtain ⟨-, claim, hmem, -⟩ := hl.owner id r hs
    rw [Walk.claims_of_done hl.cleared hp] at hmem
    cases hmem
  · simpa only [Walk.Stands, hp, hr] using hstands
  · simpa only [Walk.Stands, hp, he] using hstands

/-- Left alone, with enough steps at hand, a walk comes to its end. -/
theorem Lone.run (ha : a.Truthful behind txs) (hsure : sure → a.Sure behind) {n : Nat}
    (hl : Lone sure t₀ σ₀ t σ w) (hx : behind x σ) (hn : w.potential txs t ≤ n) :
    ∃ t' x' σ' w' res, (w.run a n t).run x = ((t', w'), x') ∧ behind x' σ' ∧ Lone sure t₀ σ₀ t' σ' w' ∧
      w'.root = w.root ∧ w'.phase = .done res := by
  induction n generalizing t x σ w with
  | zero =>
    cases hp : w.phase with
    | done res => exact ⟨t, x, σ, w, res, rfl, hx, hl, rfl, hp⟩
    | _ => simp [Walk.potential, hp, Phase.cost] at hn
  | succ n ih =>
    by_cases hdone : ∃ res, w.phase = .done res
    · obtain ⟨res, hp⟩ := hdone
      rw [Walk.run_of_done a hp]
      exact ⟨t, x, σ, w, res, rfl, hx, hl, rfl, hp⟩
    · have hstep := Walk.step_sound a t x w
      rw [Walk.run_succ]
      obtain ⟨σ₁, hx₁, hl₁⟩ := hl.step ha hx hstep hsure
      have hlt := hstep.potential_lt ha hx (fun res hp => hdone ⟨res, hp⟩) fun target hp => by
        have hstands := hl₁.stands
        simp only [Walk.Stands, hp] at hstands
      obtain ⟨t', x', σ', w', res, hrun, hx', hl', hroot, hp⟩ := ih hl₁ hx₁ (by omega)
      exact ⟨t', x', σ', w', res, hrun, hx', hl', hroot.trans hstep.root, hp⟩

theorem potential_start (txs : List Published) (t : Table) (request : RequestId) (root : TransactionId) :
    (Walk.start request root).potential txs t ≤ stepBound txs := by
  have hle := unclaimed_le_slots txs t
  simp only [Walk.potential, Walk.start, Phase.cost, List.map_nil, List.sum_nil, stepBound]
  omega

theorem concluded (ha : a.Truthful behind txs) (hsure : sure → a.Sure behind) (h : Rested t₀ σ₀) (hx : behind x σ₀)
    (request : RequestId) (root : TransactionId) :
    ∃ t x' σ w res, ((Walk.start request root).run a (stepBound txs) t₀).run x = ((t, w), x') ∧ behind x' σ ∧
      w.result? = some res ∧ Concluded sure t₀ σ₀ root t σ res := by
  obtain ⟨t, x', σ, w, res, hrun, hx', hl, hroot, hp⟩ :=
    (lone_start h request root).run ha hsure hx (potential_start txs t₀ request root)
  obtain rfl : w.root = root := hroot
  exact ⟨t, x', σ, w, res, hrun, hx', Walk.result?_eq_some.mpr hp, hl.concluded hp⟩

end

end VeiledLedger.Backchain
