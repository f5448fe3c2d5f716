/-
  VeiledLedger.Proofs.Backchain.Event — one verifier among any surroundings.

  In a world of moves all conditions belong to one ledger. An event is a request that comes in
  or the next step of a walk, and it assumes nothing of what the step finds: answers may be
  wrong, they may change from one step to the next, and others may work on the store. What is
  shown for every list of events holds whatever fails and in whatever order steps fall. A move
  is an event among the surroundings of its conditions (`advance_eq_proceed`).
-/

import VeiledLedger.Proofs.Backchain.World

namespace VeiledLedger.Backchain

abbrev Around := Surroundings (StateM RecordStore)

inductive Event where
  | request (id : TransactionId)
  /-- Request `i` does its next step. -/
  | step (i : RequestId) (around : Around)

/-- A check that was made, for whom, and what it said. -/
structure Examination where
  request : RequestId
  id : TransactionId
  answer : Except CheckError (Record × List StatePointer)

namespace World

def proceed (s : World) (i : RequestId) (a : Around) : World :=
  match s.walks[i]? with
  | none => s
  | some w =>
    let ((table, w), σ) := (w.step a s.table).run s.store
    ⟨{ s.verifier with table }, σ, s.walks.set i w⟩

def next (s : World) : Event → World
  | .request id => s.enroll id
  | .step i a => s.proceed i a

def after (s : World) (events : List Event) : World := events.foldl next s

def Checking (s : World) (i : RequestId) (id : TransactionId) : Prop :=
  ∃ w claim, s.walks[i]? = some w ∧ w.phase = .check claim ∧ claim.id = id

def examination? (s : World) : Event → Option Examination
  | .step i a =>
    match s.walks[i]?.map Walk.phase with
    | some (.check claim) => some ⟨i, claim.id, ((a.check claim.id).run s.store).1⟩
    | _ => none
  | .request _ => none

def examinations (s : World) : List Event → List Examination
  | [] => []
  | e :: es => (s.examination? e).toList ++ examinations (s.next e) es

theorem advance_eq_proceed (l : Ledger) (s : World) (i : RequestId) (c : Conditions) :
    s.advance l i c = s.proceed i (c.surroundings l) := rfl

theorem after_append (s : World) (es fs : List Event) : s.after (es ++ fs) = (s.after es).after fs :=
  List.foldl_append

theorem after_concat (s : World) (es : List Event) (e : Event) : s.after (es ++ [e]) = (s.after es).next e := by
  rw [after_append]
  rfl

/-- What holds at first, and what each event keeps, holds afterwards. -/
theorem after_induction {P : World → Prop} {s : World} (h : P s) {events : List Event}
    (hnext : ∀ e ∈ events, ∀ s, P s → P (s.next e)) : P (s.after events) := by
  induction events generalizing s with
  | nil => exact h
  | cons e es ih =>
    have hfirst := hnext e List.mem_cons_self s h
    exact ih hfirst fun x hx => hnext x (List.mem_cons_of_mem _ hx)

theorem examination?_eq_some {s : World} {e : Event} {x : Examination} (h : s.examination? e = some x) :
    ∃ a, e = .step x.request a ∧ s.Checking x.request x.id ∧ ((a.check x.id).run s.store).1 = x.answer := by
  unfold examination? at h
  split at h
  · rename_i i a
    split at h
    · rename_i claim hp
      cases h
      obtain ⟨w, hw, hphase⟩ := Option.map_eq_some_iff.mp hp
      exact ⟨a, rfl, ⟨w, claim, hw, hphase, rfl⟩, rfl⟩
    · cases h
  · cases h

/-- A check is made by an event on the way. -/
theorem mem_examinations {s : World} {events : List Event} {x : Examination} (h : x ∈ s.examinations events) :
    ∃ before e rest, events = before ++ e :: rest ∧ (s.after before).examination? e = some x := by
  induction events generalizing s with
  | nil => cases h
  | cons e es ih =>
    rcases List.mem_append.mp h with h | h
    · exact ⟨[], e, es, rfl, Option.mem_toList.mp h⟩
    · obtain ⟨before, e', rest, rfl, hx⟩ := ih h
      exact ⟨e :: before, e', rest, rfl, hx⟩

end World

end VeiledLedger.Backchain
