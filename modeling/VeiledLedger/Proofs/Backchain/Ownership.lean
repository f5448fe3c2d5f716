/-
  VeiledLedger.Proofs.Backchain.Ownership — who holds a slot, and who waits for it.

  Main statements: `owned_after` and `owned_run`. After any events, and so after any schedule,
  each slot that is being verified belongs to a walk that holds it, and each entry of the waits
  to a walk that is blocked there.
-/

import VeiledLedger.Proofs.Backchain.Step

namespace VeiledLedger.Backchain

structure Owned (s : World) : Prop where
  request : ∀ (i : RequestId) (w : Walk), s.walks[i]? = some w → w.request = i
  count : s.verifier.requests = s.walks.length
  owner : ∀ id r, s.table.slot? id = some (.verifying r) → ∃ w, s.walks[r]? = some w ∧ w.Holds id
  waits : ∀ r id, s.table.waiting.get? r = some id →
    ∃ w target, s.walks[r]? = some w ∧ w.phase = .blocked target ∧ target.id = id

theorem owned_start (σ : RecordStore) : Owned (.start σ) :=
  ⟨fun i w h => (by cases h), rfl, fun id r h => (by cases h), fun r id h => (by cases h)⟩

theorem owned_enroll {s : World} (h : Owned s) (id : TransactionId) : Owned (s.enroll id) := by
  refine ⟨fun i w hi => ?_, ?_, fun x r hs => ?_, fun r x hs => ?_⟩
  · have hi' : (s.walks ++ [Walk.start s.verifier.requests id])[i]? = some w := hi
    rw [List.getElem?_append] at hi'
    split at hi'
    · exact h.request i w hi'
    · have hw := List.mem_of_getElem? hi'
      have hlt := (List.getElem?_eq_some_iff.mp hi').1
      rw [List.mem_singleton.mp hw]
      show s.verifier.requests = i
      simp only [List.length_singleton] at hlt
      have := h.count
      omega
  · show s.verifier.requests + 1 = (s.walks ++ [_]).length
    rw [List.length_append, h.count, List.length_singleton]
  · obtain ⟨w, hw, hid⟩ := h.owner x r hs
    exact ⟨w, World.enroll_walk hw id, hid⟩
  · obtain ⟨w, target, hw, hb⟩ := h.waits r x hs
    exact ⟨w, target, World.enroll_walk hw id, hb⟩

theorem owned_proceed {s : World} (h : Owned s) (i : RequestId) (a : Around) : Owned (s.proceed i a) := by
  cases hi : s.walks[i]? with
  | none =>
    rw [World.proceed_of_none hi]
    exact h
  | some w =>
    obtain ⟨w', hstep, hi'⟩ := World.proceed_step hi a
    have hr : w.request = i := h.request i w hi
    refine ⟨fun j x hj => ?_, ?_, fun id r hs => ?_, fun r id hq => ?_⟩
    · rcases World.walk_of_proceed hj with ⟨-, hx⟩ | ⟨rfl, w, hw, hstep⟩
      · exact h.request j x hx
      · exact hstep.request.trans (h.request j w hw)
    · unfold World.proceed
      rw [hi]
      exact h.count.trans List.length_set.symm
    · have old (hold : s.table.slot? id = some (.verifying r)) :
          ∃ x, (s.proceed i a).walks[r]? = some x ∧ x.Holds id := by
        obtain ⟨x, hx, hid⟩ := h.owner id r hold
        by_cases hri : r = i
        · subst hri
          cases hi.symm.trans hx
          exact ⟨w', hi', hstep.holds hid hs⟩
        · exact ⟨x, (World.proceed_of_ne hri s a).trans hx, hid⟩
      rcases hstep.verifying_slot hs with hold | ⟨rfl, target, hp, hid⟩
      · exact old hold
      · exact ⟨w', hr ▸ hi', target, by simp [Walk.claims, Phase.claims, hp], hid⟩
    · rcases hstep.waiting hq with ⟨rfl, target, hp, hid⟩ | ⟨hold, hne⟩
      · exact ⟨w', target, hr ▸ hi', hp, hid⟩
      · obtain ⟨x, target, hx, hp, hid⟩ := h.waits r id hold
        by_cases hri : r = i
        · subst hri
          cases hi.symm.trans hx
          exact absurd hp (hne hr.symm target)
        · exact ⟨x, target, (World.proceed_of_ne hri s a).trans hx, hp, hid⟩

theorem owned_next {s : World} (h : Owned s) (e : Event) : Owned (s.next e) := by
  cases e with
  | request id => exact owned_enroll h id
  | step i a => exact owned_proceed h i a

theorem owned_after (σ : RecordStore) (events : List Event) : Owned ((World.start σ).after events) :=
  World.after_induction (owned_start σ) fun e _ _ h => owned_next h e

theorem owned_move {l : Ledger} {s : World} (h : Owned s) (m : Move) : Owned (s.move l m) := by
  cases m with
  | request id => exact owned_enroll h id
  | advance i c => exact owned_proceed h i (c.surroundings l)
  | restart => exact owned_start s.store

theorem owned_run {l : Ledger} {s : World} (h : Owned s) (schedule : List Move) : Owned (s.run l schedule) := by
  induction schedule generalizing s with
  | nil => exact h
  | cons m ms ih => exact ih (owned_move h m)

end VeiledLedger.Backchain
