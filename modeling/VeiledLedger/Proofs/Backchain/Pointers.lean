/-
  VeiledLedger.Proofs.Backchain.Pointers — the graph of pointers of a ledger.

  A transaction points to those whose outputs it spends or refers to. It has no pointers to
  follow if the ledger does not hold it or if they cannot be read. `Grounded` says that
  pointers cannot be followed from a transaction for ever.

  Main statements: `Grounded.not_reachesCycle` (no cycle is reached from a grounded
  transaction) and `examine_eq_ok` (a check succeeds exactly on what can be read, passes, and
  has readable pointers).
-/

import Mathlib.Logic.Relation
import VeiledLedger.Proofs.Backchain.World
import VeiledLedger.Proofs.Outcome

namespace VeiledLedger.Backchain

open Relation

namespace Ledger

variable {l : Ledger}

def pointers? (l : Ledger) (id : TransactionId) : Option (List StatePointer) :=
  (l.content id).bind fun tx => (tx.view.pointers l.registry).toOption

def Points (l : Ledger) (a b : TransactionId) : Prop := ∃ ps, l.pointers? a = some ps ∧ ∃ p ∈ ps, p.txId = b

def ReachesCycle (l : Ledger) (id : TransactionId) : Prop :=
  ∃ x, ReflTransGen l.Points id x ∧ TransGen l.Points x x

def Grounded (l : Ledger) (id : TransactionId) : Prop := Acc (fun b a => l.Points a b) id

theorem ReachesCycle.of_reaches {a b : TransactionId} (hab : ReflTransGen l.Points a b) (h : l.ReachesCycle b) :
    l.ReachesCycle a := by
  obtain ⟨x, hbx, hx⟩ := h
  exact ⟨x, hab.trans hbx, hx⟩

theorem Grounded.of_reaches {a b : TransactionId} (h : l.Grounded a) (hab : ReflTransGen l.Points a b) :
    l.Grounded b := by
  induction hab with
  | refl => exact h
  | tail _ hp ih => exact ih.inv hp

theorem Grounded.not_cycle {a : TransactionId} (h : l.Grounded a) : ¬TransGen l.Points a a := by
  induction h with
  | intro a _ ih =>
    intro hc
    obtain ⟨b, hab, hba⟩ := TransGen.head'_iff.mp hc
    exact ih b hab (TransGen.tail'_iff.mpr ⟨a, hba, hab⟩)

theorem Grounded.not_reachesCycle {id : TransactionId} (h : l.Grounded id) : ¬l.ReachesCycle id := by
  rintro ⟨x, hx, hc⟩
  exact (h.of_reaches hx).not_cycle hc

end Ledger

namespace Conditions

variable {l : Ledger} {c : Conditions} {id : TransactionId}

theorem source_eq_some {tx : Published} :
    c.source l id = .ok (some tx) ↔ c.outage id = none ∧ l.content id = some tx := by
  unfold source
  cases c.outage id <;> simp

theorem fetch_eq_ok {s : TransactionSource} {tx : Published} : s.fetch id = .ok tx ↔ s id = .ok (some tx) := by
  unfold TransactionSource.fetch
  split
  · rename_i hs
    simp [hs]
  · rename_i hs
    simp [hs]
  · rename_i hs
    simp [hs]

theorem examine_eq_ok {r : Record} {ps : List StatePointer} :
    c.examine l id = .ok (r, ps) ↔
      ∃ tx, c.source l id = .ok (some tx) ∧ c.judgment tx = .ok r ∧ tx.view.pointers l.registry = .ok ps := by
  unfold examine
  simp only [Except.bind_eq_ok, Except.mapError_eq_ok, fetch_eq_ok]
  constructor
  · rintro ⟨tx, hs, r', hj, ps', hp, h⟩
    cases h
    exact ⟨tx, hs, hj, hp⟩
  · rintro ⟨tx, hs, hj, hp⟩
    exact ⟨tx, hs, r, hj, ps, hp, rfl⟩

theorem pointers?_of_examine {r : Record} {ps : List StatePointer} (h : c.examine l id = .ok (r, ps)) :
    l.pointers? id = some ps := by
  obtain ⟨tx, hs, -, hp⟩ := examine_eq_ok.mp h
  simp [Ledger.pointers?, (source_eq_some.mp hs).2, hp, Except.toOption]

theorem id_of_examine (hnamed : c.judgment.Named) {r : Record} {ps : List StatePointer}
    (h : c.examine l id = .ok (r, ps)) : r.id = id := by
  obtain ⟨tx, hs, hj, -⟩ := examine_eq_ok.mp h
  rw [hnamed tx r hj, l.id_content (source_eq_some.mp hs).2]

end Conditions

namespace World

variable {l : Ledger} {s : World} {id : TransactionId}

/-- A move that makes a check is a step of a walk, and the check is made under its conditions. -/
theorem checkOf?_eq_some {m : Move} {x : Except CheckError (Record × List StatePointer)}
    (h : s.checkOf? l m = some (id, x)) : ∃ i c, m = .advance i c ∧ c.examine l id = x := by
  unfold checkOf? at h
  split at h
  · rename_i i c
    split at h
    · simp only [Option.some.injEq, Prod.mk.injEq] at h
      obtain ⟨rfl, hx⟩ := h
      exact ⟨i, c, rfl, hx⟩
    · cases h
  · cases h

/-- A check that was made on the way was made by a move under its conditions. -/
theorem exists_of_mem_checks {schedule : List Move} {x : Except CheckError (Record × List StatePointer)}
    (h : (id, x) ∈ s.checks l schedule) : ∃ i c, Move.advance i c ∈ schedule ∧ c.examine l id = x := by
  induction schedule generalizing s with
  | nil => cases h
  | cons m ms ih =>
    rcases List.mem_append.mp h with h | h
    · obtain ⟨i, c, rfl, hx⟩ := checkOf?_eq_some (Option.mem_toList.mp h)
      exact ⟨i, c, List.mem_cons_self, hx⟩
    · obtain ⟨i, c, hmem, hx⟩ := ih h
      exact ⟨i, c, List.mem_cons_of_mem m hmem, hx⟩

end World

end VeiledLedger.Backchain
