/-
  VeiledLedger.Proofs.Node.Ledger — what a node has stored stays, and is clean.

  From its start on a node handles one request after the other, whatever they are, and
  verifications may meet any failures. The first transaction that is let in under an id is
  stored there, with the moment it came in, and that row is what the node tells from then on
  (`firstAdmitted?`). A later submission of what could be let in changes nothing: it is told that
  the transaction is known if it is the same in every field, and that it is in conflict
  otherwise. What could not be let in is told so before anybody looks at what is stored, also
  under an id that is taken (`refused_under_taken_id`). A record stays for ever.

  Main statement: `written_once`.
-/

import Mathlib.Data.String.Basic
import VeiledLedger.Proofs.Node.Course

namespace VeiledLedger.Node

open Backchain

section
variable [Hasher]

/-- A stored transaction is one that is let in, and what is read back of it, by the node from
    its columns and by a client from the text of the answer, is what was written. -/
structure Clean (p : Padding) (row : TransactionRow) : Prop where
  acceptable : Acceptable p row.transaction
  columns : row.columns.row? row.transaction.id = some row
  text : Published.ofJson (Interchange.published row.transaction).text = .ok row.transaction

variable {n n' : Node} {s : RecordStore}

theorem Sound.clean (h : Sound n s) : ∀ row ∈ n.database.transactions.getD [], Clean n.config.padding row := by
  obtain ⟨rows, hrows, hclean⟩ := h.transactions
  rw [hrows, Option.getD_some]
  intro row hrow
  have hacc := hclean row hrow
  have hwords : row.transaction.padding.Words := hacc.1 ▸ h.padding
  exact ⟨hacc, TransactionRow.row?_columns hwords, Published.ofJson_text hwords⟩

theorem answer_transaction (h : Sound n s) {id : TransactionId} {row : TransactionRow} (hrow : n.stored? id = some row)
    {q : Request} (hq : q.question? n.apiKey = some (.transaction id)) (verify : Verification) :
    n.answer verify q = (ofLookUp (row, n.statusOf s id), n) := by
  rw [answer_eq hq, reply, lookUp_eq h, hrow]
  rfl

theorem answer_unknown (h : Sound n s) {id : TransactionId} (hrow : n.stored? id = none) {q : Request}
    (hq : q.question? n.apiKey = some (.transaction id)) (verify : Verification) :
    n.answer verify q = (ofApiError (.notFound "transaction not found"), n) := by
  rw [answer_eq hq, reply, lookUp_eq h, hrow]
  rfl

theorem answer_submission (h : Sound n s) {tx : Published} (hacc : Acceptable n.config.padding tx) {q : Request}
    (hq : q.question? n.apiKey = some (.submission tx)) (verify : Verification) :
    n.answer verify q =
      match n.stored? tx.id with
      | none => (ofSubmission tx.id true, n.withRow ⟨q.now, tx⟩)
      | some row =>
        (if row.transaction = tx then ofSubmission tx.id false else ofApiError (Insertion.conflict tx.id), n) := by
  rw [answer_eq hq, reply, submit_eq h hacc]
  cases n.stored? tx.id with
  | none => rfl
  | some row =>
    dsimp only
    split <;> rfl

theorem answer_refused {tx : Published} (hacc : ¬Acceptable n.config.padding tx) {q : Request}
    (hq : q.question? n.apiKey = some (.submission tx)) (verify : Verification) :
    ∃ e, e.status = 422 ∧ n.answer verify q = (ofApiError e, n) := by
  obtain ⟨e, he, hstatus⟩ := submit_refused q.now hacc
  refine ⟨e, hstatus, ?_⟩
  rw [answer_eq hq, reply, he]
  rfl

/-- A node from its start on, whatever it is asked and whatever fails while it verifies. -/
theorem written_once {config : Config} {seed : Digest} {key : String} {n₀ : Node} {rs : List Request}
    (hstart : Node.start config seed key = .ok n₀) (h : Course n₀ rs n) :
    (∀ row ∈ n.database.transactions.getD [], Clean config.padding row) ∧
    -- the first transaction that is let in under an id is what is told of that id, for ever
    (∀ id row, firstAdmitted? key config.padding rs id = some row → row.transaction.id = id ∧
      ∀ more n', Course n more n' → ∀ q, q.question? key = some (.transaction id) → ∀ verify,
        ∃ status, n'.answer verify q = (ofLookUp (row, status), n')) ∧
    (∀ id, firstAdmitted? key config.padding rs id = none →
      ∀ q, q.question? key = some (.transaction id) → ∀ verify,
        n.answer verify q = (ofApiError (.notFound "transaction not found"), n)) ∧
    -- a submission is looked at on its own first, and then compared with what is stored
    (∀ tx q, q.question? key = some (.submission tx) → ∀ verify,
      (¬Acceptable config.padding tx → ∃ e, e.status = 422 ∧ n.answer verify q = (ofApiError e, n)) ∧
      (Acceptable config.padding tx →
        (firstAdmitted? key config.padding rs tx.id = none →
          n.answer verify q = (ofSubmission tx.id true, n.withRow ⟨q.now, tx⟩)) ∧
        ∀ row, firstAdmitted? key config.padding rs tx.id = some row →
          n.answer verify q =
            (if row.transaction = tx then ofSubmission tx.id false else ofApiError (Insertion.conflict tx.id), n))) ∧
    ∀ id r, n.lookUpRecord id = .ok r → ∀ more n', Course n more n' → n'.lookUpRecord id = .ok r := by
  obtain ⟨rfl, rfl, -, hnone, hsound⟩ := Sound.start hstart
  obtain ⟨s, hn⟩ := onward_course h hsound
  have hs := hn.sound
  have hstored (id : TransactionId) : n.stored? id = firstAdmitted? n₀.apiKey n₀.config.padding rs id := by
    rw [stored?_course h hsound, hnone, Option.none_or]
  refine ⟨hn.config ▸ hs.clean, fun id row hrow => ?_, fun id hid q hq verify => ?_, fun tx q hq verify => ?_,
    fun id r hr more n' hmore => ?_⟩
  · rw [← hstored] at hrow
    refine ⟨(stored?_clean hs hrow).1, fun more n' hmore q hq verify => ?_⟩
    obtain ⟨s', hn'⟩ := onward_course hmore hs
    have hrow' : n'.stored? id = some row := by
      rw [stored?_course hmore hs, hrow, Option.some_or]
    exact ⟨_, answer_transaction hn'.sound hrow' (hn'.apiKey.trans hn.apiKey ▸ hq) verify⟩
  · exact answer_unknown hs ((hstored id).trans hid) (hn.apiKey ▸ hq) verify
  · rw [← hn.apiKey] at hq
    refine ⟨fun hacc => answer_refused (hn.config ▸ hacc) hq verify, fun hacc => ⟨fun hnew => ?_, fun row hrow => ?_⟩⟩
    · rw [answer_submission hs (hn.config ▸ hacc) hq, hstored, hnew]
    · rw [answer_submission hs (hn.config ▸ hacc) hq, hstored, hrow]
  · obtain ⟨s', hn'⟩ := onward_course hmore hs
    rw [lookUpRecord_eq hs] at hr
    rw [lookUpRecord_eq hn'.sound]
    cases hget : s.get? id with
    | none =>
      rw [hget] at hr
      cases hr
    | some r' =>
      rw [hget] at hr
      cases hr
      rw [hn'.records id r hget]

end

/-! ## A node that is told of one transaction -/

def submitting (key now : String) (tx : Published) : Request where
  method := .post
  path := "/api/v1/transactions"
  key := some key
  contentType := some "application/json"
  body := (Interchange.published tx).text
  now := now
  fresh := ""

theorem question?_submitting {key now : String} {tx : Published} (hwords : tx.padding.Words)
    (hsize : (Interchange.published tx).text.utf8ByteSize ≤ bodyLimit) :
    (submitting key now tx).question? key = some (.submission tx) := by
  have hroute : Route.ofPath "/api/v1/transactions" = .transactions := by decide +kernel
  have htype : ((some "application/json").bind MediaType.ofText?).any MediaType.isJson = true := by decide +kernel
  have hsubmission : submission (submitting key now tx) = .ok tx := by
    unfold submission submitting
    rw [htype, if_neg (by decide), if_neg (Nat.not_lt.mpr hsize), Published.leading_text hwords]
  unfold Request.question?
  rw [hsubmission]
  simp only [submitting, hroute, if_true]
  rfl

def bareConfig : Config := ⟨bare, 30000⟩

theorem start_bare : ∃ n₀, Node.start bareConfig .zero "k" = .ok n₀ := by
  have hserved : (Argument.Backend.ofPadding .zero bare).isOk := by decide +kernel
  unfold Node.start
  cases hb : Argument.Backend.ofPadding .zero bareConfig.padding with
  | ok b => exact ⟨_, rfl⟩
  | error e =>
    have : Argument.Backend.ofPadding .zero bare = .error e := hb
    rw [this] at hserved
    cases hserved

theorem acceptable_bare : Acceptable bare bareTransaction :=
  ⟨rfl, by decide +kernel, View.verify_eq_ok.mpr ⟨rfl, rfl⟩⟩

/-- The same transaction under another padding. Its id does not tell. -/
def repadded : Published := { bareTransaction with padding := { bare with utxoSize := 1 } }

theorem question?_bare (key now : String) :
    (submitting key now bareTransaction).question? key = some (.submission bareTransaction) := by
  refine question?_submitting (by decide) ?_
  rw [Json.Datum.text, String.utf8ByteSize_ofList]
  decide +kernel

theorem question?_repadded (key now : String) :
    (submitting key now repadded).question? key = some (.submission repadded) := by
  refine question?_submitting (by decide) ?_
  rw [Json.Datum.text, String.utf8ByteSize_ofList]
  decide +kernel

/-- The node of `start_bare` once it is told of a transaction. -/
theorem course_told {n₀ : Node} (hstart : Node.start bareConfig .zero "k" = .ok n₀) {tx : Published}
    (hacc : Acceptable bare tx) {q : Request} (hq : q.question? "k" = some (.submission tx)) :
    Course n₀ [q] (n₀.withRow ⟨q.now, tx⟩) := by
  obtain ⟨hconfig, hkey, -, hnone, hsound⟩ := Sound.start hstart
  have hanswer : n₀.handle q = (ofSubmission tx.id true, n₀.withRow ⟨q.now, tx⟩) := by
    rw [handle, answer_submission hsound (hconfig ▸ hacc) (hkey ▸ hq), hnone]
  refine .handled ?_
  rw [hanswer]
  exact .done _

theorem course_bare {n₀ : Node} (hstart : Node.start bareConfig .zero "k" = .ok n₀) :
    Course n₀ [submitting "k" "noon" bareTransaction] (n₀.withRow ⟨"noon", bareTransaction⟩) :=
  course_told hstart acceptable_bare (question?_bare "k" "noon")

theorem firstAdmitted?_bare (key now : String) :
    firstAdmitted? key bare [submitting key now bareTransaction] bareTransaction.id = some ⟨now, bareTransaction⟩ := by
  have hadmitted : admitted? key bare (submitting key now bareTransaction) bareTransaction.id =
      some ⟨now, bareTransaction⟩ := by
    unfold admitted?
    rw [question?_bare]
    exact if_pos ⟨rfl, acceptable_bare⟩
  rw [firstAdmitted?, List.findSome?_cons, hadmitted]

theorem bare_written_once :
    ∃ n₀ n, Node.start bareConfig .zero "k" = .ok n₀ ∧ Course n₀ [submitting "k" "noon" bareTransaction] n ∧
      firstAdmitted? "k" bare [submitting "k" "noon" bareTransaction] bareTransaction.id = some ⟨"noon", bareTransaction⟩ ∧
      n.handle (submitting "k" "later" bareTransaction) = (ofSubmission bareTransaction.id false, n) ∧
      ∀ q, q.question? "k" = some (.transaction bareTransaction.id) →
        ∃ status, n.handle q = (ofLookUp (⟨"noon", bareTransaction⟩, status), n) := by
  obtain ⟨n₀, hstart⟩ := start_bare
  obtain ⟨n, hcourse⟩ : ∃ n, Course n₀ [submitting "k" "noon" bareTransaction] n := ⟨_, course_bare hstart⟩
  obtain ⟨-, htold, -, hsubmitted, -⟩ := written_once hstart hcourse
  have hfirst := firstAdmitted?_bare "k" "noon"
  have hagain := ((hsubmitted _ _ (question?_bare "k" "later") n.verify).2 acceptable_bare).2 _ hfirst
  rw [if_pos rfl] at hagain
  exact ⟨n₀, n, hstart, hcourse, hfirst, hagain, fun q hq => (htold _ _ hfirst).2 [] n (.done n) q hq n.verify⟩

/-- A submission under an id that is taken may be told that it is not let in at all. -/
theorem refused_under_taken_id :
    ∃ n₀ n row, Node.start bareConfig .zero "k" = .ok n₀ ∧ Course n₀ [submitting "k" "noon" bareTransaction] n ∧
      n.stored? bareTransaction.id = some row ∧ repadded.id = bareTransaction.id ∧ row.transaction ≠ repadded ∧
      (submitting "k" "later" repadded).question? "k" = some (.submission repadded) ∧
      (n.handle (submitting "k" "later" repadded)).1.status = 422 := by
  obtain ⟨n₀, hstart⟩ := start_bare
  obtain ⟨n, hcourse⟩ : ∃ n, Course n₀ [submitting "k" "noon" bareTransaction] n := ⟨_, course_bare hstart⟩
  obtain ⟨hconfig, hkey, -, hnone, hsound⟩ := Sound.start hstart
  obtain ⟨s, hn⟩ := onward_course hcourse hsound
  have hquestion := question?_repadded "k" "later"
  refine ⟨n₀, n, ⟨"noon", bareTransaction⟩, hstart, hcourse, ?_, rfl, ?_, hquestion, ?_⟩
  · rw [stored?_course hcourse hsound, hnone, hkey, hconfig, Option.none_or]
    exact firstAdmitted?_bare "k" "noon"
  · intro h
    exact absurd (congrArg (·.padding.utxoSize) h) (by decide)
  · have hrefused : ¬Acceptable n.config.padding repadded := by
      rw [hn.config, hconfig]
      exact fun h => absurd (congrArg (·.utxoSize) h.1) (by decide)
    have hasked : (submitting "k" "later" repadded).question? n.apiKey = some (.submission repadded) := by
      rw [hn.apiKey, hkey]
      exact hquestion
    obtain ⟨e, hstatus, he⟩ := answer_refused hrefused hasked n.verify
    show (n.answer n.verify _).1.status = 422
    rw [he]
    exact hstatus

end VeiledLedger.Node
