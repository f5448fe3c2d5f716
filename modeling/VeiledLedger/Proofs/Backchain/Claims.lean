/-
  VeiledLedger.Proofs.Backchain.Claims — what a walk has claimed is its own.

  `Ownership` finds a walk behind each slot that is being verified. Here is the converse: the
  slot of whatever a walk holds names that walk, and no walk holds a transaction twice. So no
  two walks hold the same transaction, and a slot changes in two ways only: a walk takes it
  while it is free, or its owner gives it up (`Exclusive.turn`).

  Main statements: `exclusive_after`, for all events, and `Exclusive.decided_after`: once a
  transaction is verified or rejected its slot stays as it is.
-/

import VeiledLedger.Proofs.Backchain.Ownership

namespace VeiledLedger.Backchain

/-! ## A walk that comes to its end -/

/-- A walk that unwinds, or is done, has left all its frames: what it holds stands in its phase. -/
def Walk.Cleared (w : Walk) : Prop :=
  match w.phase with
  | .unwind _ _ | .done _ => w.stack = []
  | _ => True

namespace Walk

variable {S : Type} {a : Surroundings (StateM S)} {t t' : Table} {σ σ' : S} {w w' : Walk}

theorem follow_cleared (w : Walk) (f : Frame) (stack : List Frame) : (w.follow f stack).Cleared := by
  unfold follow
  split <;> trivial

theorem resolved_cleared (w : Walk) (r : Record) : (w.resolved r).Cleared := by
  unfold resolved
  split
  · assumption
  · exact follow_cleared ..

theorem Step.cleared (h : Step a t σ w t' σ' w') (hw : w.Cleared) : w'.Cleared := by
  cases h with
  | stopped | unreadable | stoppedWaiting | refused | closed | rejects | judged | loses => exact rfl
  | entered | missing | waits | takes | faulted | keeps => trivial
  | found | known | publishes => exact resolved_cleared ..
  | passed => exact follow_cleared ..
  | settles hp | fails hp =>
    simp only [Cleared, hp] at hw
    exact hw
  | rests => exact hw

theorem claims_of_done {res : Except BackchainError Record} (hw : w.Cleared) (hp : w.phase = .done res) :
    w.claims = [] := by
  simp only [Cleared, hp] at hw
  simp [claims, Phase.claims, hp, hw]

end Walk

/-! ## Holdings and slots -/

structure Exclusive (s : World) : Prop where
  owned : Owned s
  holds : ∀ (i : RequestId) (w : Walk), s.walks[i]? = some w → ∀ claim ∈ w.claims,
    s.table.slot? claim.id = some (.verifying i)
  distinct : ∀ (i : RequestId) (w : Walk), s.walks[i]? = some w → (w.claims.map Claim.id).Nodup
  cleared : ∀ (i : RequestId) (w : Walk), s.walks[i]? = some w → w.Cleared

/-- What becomes of the slot of `id` when request `i` does its next step. -/
inductive Turn (s : World) (i : RequestId) (s' : World) (id : TransactionId) : Prop
  | stays : s'.table.slot? id = s.table.slot? id → Turn s i s' id
  | claimed : s.table.slot? id = none → s'.table.slot? id = some (.verifying i) → s'.Checking i id → Turn s i s' id
  | verified {w f} : s.table.slot? id = some (.verifying i) → s.walks[i]? = some w → w.phase = .publish f →
      f.claim.id = id → s'.table.slot? id = some (.verified f.record) → Turn s i s' id
  | settled {w claim cs f} : s.table.slot? id = some (.verifying i) → s.walks[i]? = some w →
      w.phase = .unwind (claim :: cs) f → claim.id = id →
      s'.table.slot? id = (if f.cause.isFinal then some (.rejected f) else none) → Turn s i s' id

def Table.Decided (t : Table) (id : TransactionId) : Prop :=
  (∃ r, t.slot? id = some (.verified r)) ∨ ∃ f, t.slot? id = some (.rejected f)

theorem Table.Decided.of_eq {t t' : Table} {id : TransactionId} (h : t.Decided id) (he : t'.slot? id = t.slot? id) :
    t'.Decided id := by
  unfold Decided
  rw [he]
  exact h

theorem Table.Decided.not_verifying {t : Table} {id : TransactionId} (h : t.Decided id) (r : RequestId) :
    t.slot? id ≠ some (.verifying r) := by
  intro hs
  rcases h with ⟨_, h⟩ | ⟨_, h⟩ <;> cases hs.symm.trans h

theorem Table.Decided.ne_none {t : Table} {id : TransactionId} (h : t.Decided id) : t.slot? id ≠ none := by
  intro hs
  rcases h with ⟨_, h⟩ | ⟨_, h⟩ <;> cases hs.symm.trans h

namespace Exclusive

variable {s : World}

theorem checking (h : Exclusive s) {i : RequestId} {id : TransactionId} (hc : s.Checking i id) :
    s.table.slot? id = some (.verifying i) := by
  obtain ⟨w, claim, hw, hp, rfl⟩ := hc
  exact h.holds i w hw claim (by simp [Walk.claims, Phase.claims, hp])

theorem turn (h : Exclusive s) (i : RequestId) (a : Around) (id : TransactionId) : Turn s i (s.proceed i a) id := by
  cases hi : s.walks[i]? with
  | none => exact .stays (by rw [World.proceed_of_none hi])
  | some w =>
    obtain ⟨w', hstep, hi'⟩ := World.proceed_step hi a
    have hr : w.request = i := h.owned.request i w hi
    cases hstep.slot id with
    | same hs => exact .stays hs
    | claimed hp hid hn hs => exact .claimed hn (hr ▸ hs) ⟨w', _, hi', hp, hid⟩
    | published hp hid hs =>
      subst hid
      exact .verified (h.holds i w hi _ (by simp [Walk.claims, Phase.claims, hp])) hi hp rfl hs
    | settled hp hid hs =>
      subst hid
      exact .settled (h.holds i w hi _ (by simp [Walk.claims, Phase.claims, hp])) hi hp rfl hs

/-- A step touches no slot of another request. -/
theorem slot_of_ne (h : Exclusive s) {i j : RequestId} (hj : j ≠ i) (a : Around) {id : TransactionId}
    (hs : s.table.slot? id = some (.verifying j)) : (s.proceed i a).table.slot? id = some (.verifying j) := by
  cases h.turn i a id with
  | stays he => exact he.trans hs
  | claimed hn => cases hn.symm.trans hs
  | verified ho | settled ho =>
    cases ho.symm.trans hs
    exact absurd rfl hj

theorem decided_next (h : Exclusive s) {id : TransactionId} (hd : s.table.Decided id) (e : Event) :
    (s.next e).table.slot? id = s.table.slot? id := by
  cases e with
  | request _ => rfl
  | step i a =>
    cases h.turn i a id with
    | stays he => exact he
    | claimed hn => exact absurd hn hd.ne_none
    | verified ho | settled ho => exact absurd ho (hd.not_verifying i)

end Exclusive

/-! ## Events -/

theorem exclusive_start (σ : RecordStore) : Exclusive (.start σ) where
  owned := owned_start σ
  holds := by
    intro i w hi
    cases hi
  distinct := by
    intro i w hi
    cases hi
  cleared := by
    intro i w hi
    cases hi

theorem exclusive_enroll {s : World} (h : Exclusive s) (id : TransactionId) : Exclusive (s.enroll id) where
  owned := owned_enroll h.owned id
  holds := by
    intro i w hi claim hmem
    rcases World.walk_of_enroll hi with hold | rfl
    · exact h.holds i w hold claim hmem
    · cases hmem
  distinct := by
    intro i w hi
    rcases World.walk_of_enroll hi with hold | rfl
    · exact h.distinct i w hold
    · exact List.nodup_nil
  cleared := by
    intro i w hi
    rcases World.walk_of_enroll hi with hold | rfl
    · exact h.cleared i w hold
    · trivial

/-- What a walk holds after its step, it holds as before or has just taken. -/
theorem Walk.Effect.holds {t t' : Table} {w w' : Walk} {i : RequestId} (h : Effect t w t' w') (hr : w.request = i)
    (hholds : ∀ claim ∈ w.claims, t.slot? claim.id = some (.verifying i)) (hdistinct : (w.claims.map Claim.id).Nodup) :
    (∀ claim ∈ w'.claims, t'.slot? claim.id = some (.verifying i)) ∧ (w'.claims.map Claim.id).Nodup := by
  have kept {first : Claim} {slot : Option Slot} (he : w.claims = first :: w'.claims) (hset : Sets t first.id slot t') :
      (∀ claim ∈ w'.claims, t'.slot? claim.id = some (.verifying i)) ∧ (w'.claims.map Claim.id).Nodup := by
    rw [he] at hholds hdistinct
    obtain ⟨hfirst, hrest⟩ := List.nodup_cons.mp hdistinct
    refine ⟨fun claim hmem => ?_, hrest⟩
    have hne : claim.id ≠ first.id := fun e => hfirst (e ▸ List.mem_map_of_mem hmem)
    rw [hset, if_neg hne]
    exact hholds claim (List.mem_cons_of_mem _ hmem)
  cases h with
  | quiet he hs =>
    rw [he]
    exact ⟨fun claim hmem => (hs claim.id).trans (hholds claim hmem), hdistinct⟩
  | @claimed target hp he hn hset =>
    -- the slot was free, so the walk did not hold it yet
    have hfresh : target.id ∉ w.claims.map Claim.id := by
      intro hmem
      obtain ⟨claim, hclaim, hid⟩ := List.mem_map.mp hmem
      cases (hid ▸ hholds claim hclaim).symm.trans hn
    rw [he]
    refine ⟨fun claim hmem => ?_, List.nodup_cons.mpr ⟨hfresh, hdistinct⟩⟩
    rcases List.mem_cons.mp hmem with rfl | hmem
    · rw [hset, if_pos rfl, hr]
    · have hne : claim.id ≠ target.id := fun e => hfresh (e ▸ List.mem_map_of_mem hmem)
      rw [hset, if_neg hne]
      exact hholds claim hmem
  | published _ he hset => exact kept he hset
  | settled _ _ he hset => exact kept he hset

theorem exclusive_proceed {s : World} (h : Exclusive s) (i : RequestId) (a : Around) : Exclusive (s.proceed i a) where
  owned := owned_proceed h.owned i a
  holds := by
    intro j x hj claim hmem
    rcases World.walk_of_proceed hj with ⟨hne, hx⟩ | ⟨rfl, w, hw, hstep⟩
    · exact h.slot_of_ne hne a (h.holds j x hx claim hmem)
    · exact (hstep.effect.holds (h.owned.request j w hw) (h.holds j w hw) (h.distinct j w hw)).1 claim hmem
  distinct := by
    intro j x hj
    rcases World.walk_of_proceed hj with ⟨-, hx⟩ | ⟨rfl, w, hw, hstep⟩
    · exact h.distinct j x hx
    · exact (hstep.effect.holds (h.owned.request j w hw) (h.holds j w hw) (h.distinct j w hw)).2
  cleared := by
    intro j x hj
    rcases World.walk_of_proceed hj with ⟨-, hx⟩ | ⟨rfl, w, hw, hstep⟩
    · exact h.cleared j x hx
    · exact hstep.cleared (h.cleared j w hw)

theorem exclusive_next {s : World} (h : Exclusive s) (e : Event) : Exclusive (s.next e) := by
  cases e with
  | request id => exact exclusive_enroll h id
  | step i a => exact exclusive_proceed h i a

namespace Exclusive

variable {s : World}

theorem after (h : Exclusive s) (events : List Event) : Exclusive (s.after events) :=
  World.after_induction h fun e _ _ h => exclusive_next h e

theorem decided_after (h : Exclusive s) {id : TransactionId} (hd : s.table.Decided id) (events : List Event) :
    (s.after events).table.slot? id = s.table.slot? id := by
  induction events generalizing s with
  | nil => rfl
  | cons e es ih =>
    have he := h.decided_next hd e
    exact (ih (exclusive_next h e) (hd.of_eq he)).trans he

end Exclusive

theorem exclusive_after (σ : RecordStore) (events : List Event) : Exclusive ((World.start σ).after events) :=
  (exclusive_start σ).after events

end VeiledLedger.Backchain
