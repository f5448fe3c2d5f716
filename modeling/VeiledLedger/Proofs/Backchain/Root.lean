/-
  VeiledLedger.Proofs.Backchain.Root — walks that get no further than their root.

  In a run one step follows the other (`Reaches`). A walk that has time and whose store answers
  ends at its root if there is a record of it, if it was rejected before, or if it can be
  claimed and is refused by the backend or points to nothing.
-/

import VeiledLedger.Proofs.Backchain.Step

namespace VeiledLedger.Backchain

/-! ## Runs of a walk -/

namespace Walk

variable {S : Type} {a : Surroundings (StateM S)} {t : Table} {w : Walk} {x : S}

def Reaches (a : Surroundings (StateM S)) (k : Nat) (here there : (Table × Walk) × S) : Prop :=
  ∀ n, (run a (k + n) here.1.1 here.1.2).run here.2 = (run a n there.1.1 there.1.2).run there.2

theorem Reaches.refl (here : (Table × Walk) × S) : Reaches a 0 here here := by
  intro n
  rw [Nat.zero_add]

theorem Reaches.step {k : Nat} {there : (Table × Walk) × S} (h : Reaches a k ((w.step a t).run x) there) :
    Reaches a (k + 1) ((t, w), x) there := by
  intro n
  rw [Nat.add_right_comm]
  exact (congrArg (·.run x) (run_succ a (k + n) t w)).trans (h n)

theorem run_of_step {t' : Table} {w' : Walk} {x' : S} (h : (w.step a t).run x = ((t', w'), x')) (n : Nat) :
    (run a (n + 1) t w).run x = (run a n t' w').run x' := by
  have hrest : Reaches a 0 ((w.step a t).run x) ((t', w'), x') := h ▸ .refl _
  rw [Nat.add_comm n 1]
  exact hrest.step n

theorem Reaches.trans {k m : Nat} {p q r : (Table × Walk) × S} (h : Reaches a k p q) (h' : Reaches a m q r) :
    Reaches a (k + m) p r := by
  intro n
  rw [Nat.add_assoc, h, h']

/-! ## Runs that end at the root -/

section
variable {root : TransactionId} {x₁ x₂ : S}

/-- The first two steps of a walk that has time and whose store answers. -/
theorem run_start (hstop : a.stopped.run x = (none, x)) {found : Option Record}
    (hfind : (a.find root).run x = (.ok found, x)) (request : RequestId) (n : Nat) (t : Table) :
    ((start request root).run a (n + 2) t).run x =
      (({ start request root with phase := .lookUp ⟨root, none⟩ } : Walk).lookedUp ⟨root, none⟩ (.ok found) |>.run a n t).run
        x := by
  rw [run_of_step (step_enter rfl hstop), run_of_step (step_lookUp rfl hfind)]
  rfl

theorem run_of_found (hstop : a.stopped.run x = (none, x)) {r : Record}
    (hfind : (a.find root).run x = (.ok (some r), x)) (request : RequestId) (n : Nat) (t : Table) :
    ((start request root).run a (n + 2) t).run x = ((t, (start request root).resolved r), x) := by
  rw [run_start hstop hfind, run_of_done a rfl]
  rfl

variable (hstop : a.stopped.run x = (none, x)) (hfind : (a.find root).run x = (.ok none, x))

include hstop hfind

theorem run_of_rejected {f : Failure} (hf : t.slot? root = some (.rejected f)) (request : RequestId) (n : Nat) :
    ((start request root).run a (n + 4) t).run x =
      ((t, { start request root with phase := .done (.error (f.toError root)) }), x) := by
  rw [run_start hstop hfind, run_of_step (step_refused rfl hf), run_of_step (step_fail rfl), run_of_done a rfl]
  rfl

/-- The walk up to the check of its root. -/
theorem run_claim (hfree : t.slot? root = none) (request : RequestId) (n : Nat) :
    ((start request root).run a (n + 3) t).run x =
      (({ start request root with phase := .check ⟨root, none⟩ } : Walk).run a n
        (t.setSlot root (.verifying request))).run x := by
  rw [run_start hstop hfind, run_of_step (step_takes rfl hfree)]
  rfl

/-- The root passes its check and points to nothing. -/
theorem run_of_passed (hfree : t.slot? root = none) {r : Record} (hcheck : (a.check root).run x = (.ok (r, []), x₁))
    (hstore : (a.store r).run x₁ = (.ok (), x₂)) (request : RequestId) (n : Nat) :
    ((start request root).run a (n + 6) t).run x =
      (((t.setSlot root (.verifying request)).setSlot root (.verified r), (start request root).resolved r), x₂) := by
  rw [run_claim hstop hfind hfree, run_of_step (step_check rfl hcheck), run_of_step (step_store rfl hstore),
    run_of_step (step_publish rfl), run_of_done a rfl]
  rfl

end

end Walk

end VeiledLedger.Backchain
