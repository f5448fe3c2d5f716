/-
  VeiledLedger.Proofs.Node.Records — the two stores of records answer alike.

  Records are kept in memory, or in a table that writes a row unless its key is taken and then
  reads back what stands there. A caller can only get and put. The table and the memory go
  through the same calls side by side, and at every call the table holds the rows of the records
  in memory, in the same order (`Keeps`); so a comparison of what is read back is a comparison
  of the records themselves.

  What both answer is told by the calls alone: the first record that was put under an id is the
  one found there, and it is kept against all others (`firstPut?`).

  Main statement: `record_stores_agree`.
-/

import Mathlib.Data.List.Induction
import VeiledLedger.Proofs.Node.Columns

namespace VeiledLedger.Node

/-! ## Calls on a store -/

structure Keeper (σ : Type) where
  get : σ → TransactionId → Except StoreError (Option Record)
  put : σ → Record → Except StoreError Unit × σ

namespace Keeper

def memory : Keeper RecordStore where
  get s id := .ok (s.get? id)
  put s r :=
    match s.put r with
    | .ok s => (.ok (), s)
    | .error e => (.error e, s)

def table : Keeper Database where
  get := Database.findRecord
  put := Database.putRecord

inductive Call where
  | get (id : TransactionId)
  | put (r : Record)

inductive Answer where
  | found (x : Except StoreError (Option Record))
  | kept (x : Except StoreError Unit)

variable {σ : Type}

def call (k : Keeper σ) (s : σ) : Call → Answer × σ
  | .get id => (.found (k.get s id), s)
  | .put r => (.kept (k.put s r).1, (k.put s r).2)

def answers (k : Keeper σ) (s : σ) : List Call → List Answer
  | [] => []
  | c :: cs => (k.call s c).1 :: answers k (k.call s c).2 cs

def afterCalls (k : Keeper σ) (s : σ) (cs : List Call) : σ := cs.foldl (fun s c => (k.call s c).2) s

theorem afterCalls_concat (k : Keeper σ) (s : σ) (cs : List Call) (c : Call) :
    k.afterCalls s (cs ++ [c]) = (k.call (k.afterCalls s cs) c).2 := by
  rw [afterCalls, List.foldl_append]
  rfl

end Keeper

open Keeper

/-! ## The table holds the rows of what is in memory -/

def Keeps (db : Database) (s : RecordStore) : Prop := db.records = some (s.records.map RecordRow.ofRecord)

theorem find?_ofRecord (s : RecordStore) (id : TransactionId) :
    (s.records.map RecordRow.ofRecord).find? (·.id = id.hex) = (s.get? id).map RecordRow.ofRecord := by
  rw [List.find?_map]
  congr 2
  funext r
  simp only [Function.comp_apply, RecordRow.ofRecord, Digest.hex_inj]

variable {db : Database} {s : RecordStore}

theorem Keeps.record? (h : Keeps db s) (id : TransactionId) : db.record? id = .ok (s.get? id) := by
  unfold Database.record?
  rw [h]
  simp only [Database.rows, Except.bind, bind, find?_ofRecord]
  cases hget : s.get? id with
  | none => rfl
  | some r =>
    have hid := RecordStore.id_of_get? hget
    subst hid
    simp only [Option.map_some, RecordRow.record?_ofRecord]
    rfl

theorem Keeps.findRecord (h : Keeps db s) (id : TransactionId) : db.findRecord id = .ok (s.get? id) := by
  rw [Database.findRecord, h.record? id]

theorem Keeps.addRecord (h : Keeps db s) (r : Record) :
    db.addRecord r = .ok
      (if (s.get? r.id).isSome then db else { db with records := some ((s.records ++ [r]).map RecordRow.ofRecord) }) := by
  have hrows : Database.insertOrIgnore (·.id) (RecordRow.ofRecord r) (s.records.map RecordRow.ofRecord) =
      if (s.get? r.id).isSome then s.records.map RecordRow.ofRecord else (s.records ++ [r]).map RecordRow.ofRecord := by
    have htaken : (s.records.map RecordRow.ofRecord).any (·.id = (RecordRow.ofRecord r).id) = (s.get? r.id).isSome := by
      rw [← List.isSome_find?]
      show ((s.records.map RecordRow.ofRecord).find? (·.id = r.id.hex)).isSome = _
      rw [find?_ofRecord, Option.isSome_map]
    rw [Database.insertOrIgnore, htaken, List.map_append]
    rfl
  obtain ⟨transactions, records, verifications⟩ := db
  cases h
  show Except.ok (⟨transactions, some (Database.insertOrIgnore (·.id) (RecordRow.ofRecord r) _), verifications⟩ : Database) = _
  rw [hrows]
  split <;> rfl

/-- What putting a record answers and leaves behind, if `s` is in the table. -/
theorem Keeps.putRecord (h : Keeps db s) (r : Record) :
    db.putRecord r =
      match s.get? r.id with
      | none => (.ok (), { db with records := some ((s.records ++ [r]).map RecordRow.ofRecord) })
      | some stored => (if stored = r then .ok () else .error (.conflict r.id), db) := by
  have hadd := h.addRecord r
  cases hget : s.get? r.id with
  | none =>
    rw [hget] at hadd
    have hnew : Keeps { db with records := some ((s.records ++ [r]).map RecordRow.ofRecord) } ⟨s.records ++ [r]⟩ := rfl
    have hput : s.put r = .ok ⟨s.records ++ [r]⟩ := by rw [RecordStore.put, hget]
    have hback := hnew.record? r.id
    rw [RecordStore.get?_put_self hput] at hback
    have hoffer : db.offerRecord r =
        .ok (some r, { db with records := some ((s.records ++ [r]).map RecordRow.ofRecord) }) := by
      rw [Database.offerRecord, hadd]
      exact Except.bind_eq_ok.mpr ⟨_, rfl, Except.bind_eq_ok.mpr ⟨some r, hback, rfl⟩⟩
    rw [Database.putRecord, hoffer]
    exact congrArg (·, _) (if_pos rfl)
  | some stored =>
    rw [hget] at hadd
    have hback := h.record? r.id
    rw [hget] at hback
    have hoffer : db.offerRecord r = .ok (some stored, db) := by
      rw [Database.offerRecord, hadd]
      exact Except.bind_eq_ok.mpr ⟨_, rfl, Except.bind_eq_ok.mpr ⟨some stored, hback, rfl⟩⟩
    rw [Database.putRecord, hoffer]
    simp only [Option.some.injEq]

/-- What is put is either kept, or refused and nothing is changed. Other tables stay as they are. -/
theorem Keeps.putRecord_cases (h : Keeps db s) (r : Record) :
    (db.putRecord r).2.transactions = db.transactions ∧ (db.putRecord r).2.verifications = db.verifications ∧
    ((∃ s', (db.putRecord r).1 = .ok () ∧ s.put r = .ok s' ∧ Keeps (db.putRecord r).2 s') ∨
      (∃ e, (db.putRecord r).1 = .error e) ∧ (db.putRecord r).2 = db) := by
  rw [h.putRecord r]
  cases hget : s.get? r.id with
  | none => exact ⟨rfl, rfl, .inl ⟨⟨s.records ++ [r]⟩, rfl, by rw [RecordStore.put, hget], rfl⟩⟩
  | some stored =>
    refine ⟨rfl, rfl, ?_⟩
    by_cases hsame : stored = r
    · exact .inl ⟨s, if_pos hsame, by rw [RecordStore.put, hget]; exact if_pos hsame, h⟩
    · exact .inr ⟨⟨_, if_neg hsame⟩, rfl⟩

theorem Keeps.call (h : Keeps db s) (c : Call) :
    (table.call db c).1 = (memory.call s c).1 ∧ Keeps (table.call db c).2 (memory.call s c).2 := by
  cases c with
  | get id => exact ⟨congrArg Answer.found (h.findRecord id), h⟩
  | put r =>
    simp only [Keeper.call, table, memory, h.putRecord r, RecordStore.put]
    cases s.get? r.id with
    | none => exact ⟨rfl, rfl⟩
    | some stored =>
      by_cases hsame : stored = r
      · simp only [hsame, if_true]
        exact ⟨trivial, h⟩
      · simp only [hsame, if_false]
        exact ⟨trivial, h⟩

theorem keeps_empty : Keeps .empty .empty := rfl

theorem Keeps.answers (h : Keeps db s) (cs : List Call) : table.answers db cs = memory.answers s cs := by
  induction cs generalizing db s with
  | nil => rfl
  | cons c cs ih =>
    obtain ⟨hanswer, hnext⟩ := h.call c
    simp only [Keeper.answers, hanswer, ih hnext]

theorem keeps_afterCalls (cs : List Call) : Keeps (table.afterCalls .empty cs) (memory.afterCalls .empty cs) := by
  induction cs using List.reverseRecOn with
  | nil => exact keeps_empty
  | append_singleton cs c ih =>
    rw [afterCalls_concat, afterCalls_concat]
    exact (ih.call c).2

/-! ## What is there after some calls -/

def firstPut? (cs : List Call) (id : TransactionId) : Option Record :=
  cs.findSome? fun
    | .put r => if r.id = id then some r else none
    | .get _ => none

theorem firstPut?_concat_put (cs : List Call) (r : Record) (id : TransactionId) :
    firstPut? (cs ++ [.put r]) id = (firstPut? cs id).or (if r.id = id then some r else none) := by
  rw [firstPut?, List.findSome?_append]
  by_cases hid : r.id = id <;> simp [firstPut?, hid]

theorem get?_put_memory (s : RecordStore) (r : Record) (id : TransactionId) :
    (memory.put s r).2.get? id = (s.get? id).or (if r.id = id then some r else none) := by
  cases hget : s.get? r.id with
  | none =>
    have hput : s.put r = .ok ⟨s.records ++ [r]⟩ := by rw [RecordStore.put, hget]
    have hnext : (memory.put s r).2 = ⟨s.records ++ [r]⟩ := by simp only [memory, hput]
    rw [hnext, RecordStore.get?_put hput]
    by_cases hid : r.id = id
    · subst hid
      rw [if_pos rfl, if_pos rfl, hget]
      rfl
    · rw [if_neg hid, if_neg (Ne.symm hid), Option.or_none]
  | some stored =>
    -- whether it is the same record or another one, the store stays
    have hnext : (memory.put s r).2 = s := by
      simp only [memory, RecordStore.put, hget]
      by_cases hsame : stored = r <;> simp only [hsame, if_true, if_false]
    rw [hnext]
    by_cases hid : r.id = id
    · subst hid
      rw [hget]
      rfl
    · rw [if_neg hid, Option.or_none]

theorem get?_afterCalls (cs : List Call) (id : TransactionId) :
    (memory.afterCalls .empty cs).get? id = firstPut? cs id := by
  induction cs using List.reverseRecOn with
  | nil => rfl
  | append_singleton cs c ih =>
    rw [afterCalls_concat]
    cases c with
    | get _ =>
      rw [firstPut?, List.findSome?_append]
      exact ih.trans (Option.or_none).symm
    | put r =>
      rw [firstPut?_concat_put, ← ih]
      exact get?_put_memory _ r id

/-- Whatever is asked of them, the table and the memory give the same answers: what was put
    first under an id is found there, the same record may be put again, and another one is
    refused and changes nothing. -/
theorem record_stores_agree (cs : List Call) :
    table.answers .empty cs = memory.answers .empty cs ∧
    (∀ id, table.get (table.afterCalls .empty cs) id = .ok (firstPut? cs id)) ∧
    ∀ r, ∃ grown, table.put (table.afterCalls .empty cs) r =
      match firstPut? cs r.id with
      | none => (.ok (), grown)
      | some stored => (if stored = r then .ok () else .error (.conflict r.id), table.afterCalls .empty cs) := by
  have hkeeps := keeps_afterCalls cs
  refine ⟨keeps_empty.answers cs, fun id => ?_, fun r => ?_⟩
  · rw [← get?_afterCalls]
    exact hkeeps.findRecord id
  · rw [← get?_afterCalls]
    exact ⟨_, hkeeps.putRecord r⟩

end VeiledLedger.Node
