/-
  VeiledLedger.Proofs.Node.Columns — what a database reads back from its columns.

  A row is written in texts and numbers, and reading it gives what was written: digests from
  their hexadecimal digits, a proof from its digits of base 64, the rest from JSON. Only the
  numbers of a padding have to fit words of 64 bits for that.

  Main statements: `RecordRow.record?_ofRecord`, `TransactionRow.row?_columns` and
  `Database.readTransaction?_eq` (reading a clean table is looking into it).
-/

import VeiledLedger.Node.Database
import VeiledLedger.Proofs.Interchange
import VeiledLedger.Proofs.Outcome

namespace VeiledLedger.Node

theorem RecordRow.record?_ofRecord (r : Record) : (ofRecord r).record? r.id = some r := by
  obtain ⟨id, root, roots, valid⟩ := r
  cases valid <;> simp [record?, ofRecord, Interchange.readDigests_text, Except.toOption]

theorem TransactionRow.row?_columns {row : TransactionRow} (h : row.transaction.padding.Words) :
    row.columns.row? row.transaction.id = some row := by
  obtain ⟨receivedAt, id, proof, padding, view⟩ := row
  simp [columns, TransactionColumns.row?, Interchange.readPadding_text h, Interchange.readView_text, Except.toOption]

namespace Database

variable {db : Database} {id : TransactionId} {row : TransactionRow}

theorem transaction?_eq_ok {found : Option TransactionRow} :
    db.transaction? id = .ok found ↔
      ∃ rows, db.transactions = some rows ∧ rows.find? (·.transaction.id = id) = found := by
  unfold transaction? rows
  cases db.transactions with
  | none => simp [bind, Except.bind]
  | some rows => simp [bind, Except.bind, pure, Except.pure]

theorem mem_of_transaction? (h : db.transaction? id = .ok (some row)) :
    (∃ rows, db.transactions = some rows ∧ row ∈ rows) ∧ row.transaction.id = id := by
  obtain ⟨rows, hrows, hfind⟩ := transaction?_eq_ok.mp h
  exact ⟨⟨rows, hrows, List.mem_of_find?_eq_some hfind⟩, by simpa using List.find?_some hfind⟩

theorem source_eq_ok_some {tx : Published} :
    db.source id = .ok (some tx) ↔ ∃ row, db.transaction? id = .ok (some row) ∧ row.transaction = tx := by
  unfold source
  cases db.transaction? id with
  | error e => simp
  | ok found => simp

def Legible (db : Database) : Prop := ∀ rows, db.transactions = some rows → ∀ row ∈ rows, row.transaction.padding.Words

theorem readTransaction?_eq (h : db.Legible) (id : TransactionId) : db.readTransaction? id = db.transaction? id := by
  unfold readTransaction?
  cases hfound : db.transaction? id with
  | error e => rfl
  | ok found =>
    cases found with
    | none => rfl
    | some row =>
      obtain ⟨⟨rows, hrows, hmem⟩, rfl⟩ := mem_of_transaction? hfound
      have hread := TransactionRow.row?_columns (h rows hrows row hmem)
      simp only [bind, Except.bind, hread]
      rfl

theorem readSource_eq (h : db.Legible) : db.readSource = db.source := by
  funext id
  unfold readSource source
  rw [readTransaction?_eq h]

end Database

end VeiledLedger.Node
