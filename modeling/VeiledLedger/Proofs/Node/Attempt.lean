/-
  VeiledLedger.Proofs.Node.Attempt — one verification at a node, whatever fails on the way.

  A verification may run out of time, its transactions and records may be out of reach, and the
  log may refuse its verdict, at any moment and any number of times. But what is answered is
  true of the database (`Access.Honest`): a record that is found is there, a check that passes
  is a check of what is stored, and only records and the log are written to. A store that says it
  has failed may have kept the record; that, and a log that fails, are excluded by `Access.Sure`.

  Between two requests the tables are clean, and the records in the database are those of the
  verifier's slots (`Sound`). A verification keeps it so and comes to an end (`Attempt.cases`).
-/

import VeiledLedger.Node.Route
import VeiledLedger.Proofs.Backchain.Ending
import VeiledLedger.Proofs.Backchain.Identity
import VeiledLedger.Proofs.Node.Records

namespace VeiledLedger.Node

open Backchain

variable [Hasher]

/-! ## What may fail -/

/-- An answer is true of the database at that moment, and nothing else is written than what the
    walk and its verdict say. -/
structure Access.Honest (n : Node) {σ : Type} (database : σ → Database) (a : Access (StateM σ)) : Prop where
  lookUp : ∀ x id, database ((a.lookUp id).run x).2 = database x
  lookedUp : ∀ x id found, ((a.lookUp id).run x).1 = .ok found → (database x).readTransaction? id = .ok found
  stopped : ∀ x, database (a.around.stopped.run x).2 = database x
  find : ∀ x id, database ((a.around.find id).run x).2 = database x
  found : ∀ x id found, ((a.around.find id).run x).1 = .ok found → (database x).findRecord id = .ok found
  check : ∀ x id, database ((a.around.check id).run x).2 = database x
  checked : ∀ x id found, ((a.around.check id).run x).1 = .ok found →
    ∃ stop, n.examine stop (database x) id = .ok found
  kept : ∀ x r, ((a.around.store r).run x).1 = .ok () →
    (database x).putRecord r = (.ok (), database ((a.around.store r).run x).2)
  lost : ∀ x r e, ((a.around.store r).run x).1 = .error e →
    database ((a.around.store r).run x).2 = database x ∨
      database ((a.around.store r).run x).2 = ((database x).putRecord r).2
  logged : ∀ x row, ((a.log row).run x).1 = .ok () →
    (database x).addVerification row = .ok (database ((a.log row).run x).2)
  unlogged : ∀ x row e, ((a.log row).run x).1 = .error e → database ((a.log row).run x).2 = database x

/-- As long as the tables are there, a record that is said to be lost is lost, and the log takes
    every verdict. -/
structure Access.Sure {σ : Type} (database : σ → Database) (a : Access (StateM σ)) : Prop where
  lost : ∀ x s r e, Keeps (database x) s → ((a.around.store r).run x).1 = .error e →
    database ((a.around.store r).run x).2 = database x
  log : ∀ x row rows, (database x).verifications = some rows → ((a.log row).run x).1 = .ok ()

/-- What a verification at the node works with. -/
structure Attempt (n : Node) where
  σ : Type
  database : σ → Database
  access : Access (StateM σ)
  now : σ
  honest : access.Honest n database
  start : database now = n.database

omit [Hasher] in
theorem addVerification_eq_ok {db db' : Database} {row : VerificationRow} :
    db.addVerification row = .ok db' ↔
      ∃ rows, db.verifications = some rows ∧ { db with verifications := some (rows ++ [row]) } = db' := by
  unfold Database.addVerification Database.rows
  cases db.verifications <;> simp [bind, Except.bind, pure, Except.pure]

namespace Attempt

variable {n : Node}

def verify (a : Attempt n) : Verification := fun id =>
  let ((answer, verifier), x) := (n.verifyAmid a.access id).run a.now
  (answer, { n with database := a.database x, verifier })

def Sure (a : Attempt n) : Prop := a.access.Sure a.database

theorem log_run (n : Node) (db : Database) (row : VerificationRow) :
    (n.access.log row).run db =
      match db.addVerification row with
      | .error e => (.error e, db)
      | .ok db' => (.ok (), db') := by
  show (match db.addVerification row with | .error e => _ | .ok db' => _ : StateM Database _).run db = _
  cases db.addVerification row <;> rfl

theorem honest_access (n : Node) : n.access.Honest n id where
  lookUp _ _ := rfl
  lookedUp _ _ _ h := h
  stopped _ := rfl
  find _ _ := rfl
  found _ _ _ h := h
  check _ _ := rfl
  checked _ _ _ h := ⟨_, h⟩
  kept _ _ h := Prod.ext h rfl
  lost _ _ _ _ := .inr rfl
  logged db row h := by
    rw [log_run] at h ⊢
    show db.addVerification row = _
    cases hadd : db.addVerification row with
    | error e =>
      rw [hadd] at h
      cases h
    | ok db' => rfl
  unlogged db row e h := by
    rw [log_run] at h ⊢
    cases hadd : db.addVerification row with
    | error e => rfl
    | ok db' =>
      rw [hadd] at h
      cases h

theorem sure_access (n : Node) : n.access.Sure id where
  lost db s r e hkeeps he := by
    obtain ⟨-, -, ⟨s', hok, -⟩ | ⟨-, hsame⟩⟩ := hkeeps.putRecord_cases r
    · cases hok.symm.trans he
    · exact hsame
  log db row rows hrows := by
    have hadd : db.addVerification row = .ok { db with verifications := some (rows ++ [row]) } :=
      addVerification_eq_ok.mpr ⟨rows, hrows, rfl⟩
    rw [log_run, hadd]

def own (n : Node) (access : Access (StateM Database)) (h : access.Honest n id) : Attempt n :=
  ⟨Database, id, access, n.database, h, rfl⟩

def calm (n : Node) : Attempt n := own n n.access (honest_access n)

theorem verify_calm (n : Node) : (calm n).verify = n.verify := rfl

theorem sure_calm (n : Node) : (calm n).Sure := sure_access n

end Attempt

/-! ## Between two requests -/

/-- What a node lets in: padded like everything else here, well shaped, and hashing to its id. -/
def Acceptable (p : Padding) (tx : Published) : Prop :=
  tx.padding = p ∧ tx.view.checkShape p = .ok () ∧ tx.view.verify tx.id = .ok ()

/-- What a node remembers, `σ` being the records in its database. -/
structure Sound (n : Node) (σ : RecordStore) : Prop where
  padding : n.config.padding.Words
  transactions : ∃ rows, n.database.transactions = some rows ∧
    ∀ row ∈ rows, Acceptable n.config.padding row.transaction
  records : Keeps n.database σ
  log : ∃ rows, n.database.verifications = some rows
  rested : Rested n.verifier.table σ

namespace Sound

variable {n : Node} {σ : RecordStore}

theorem legible (h : Sound n σ) {db : Database} (hdb : db.transactions = n.database.transactions) : db.Legible := by
  obtain ⟨rows, hrows, hclean⟩ := h.transactions
  intro rows' hrows' row hrow
  cases hrows.symm.trans (hdb.symm.trans hrows')
  exact (hclean row hrow).1 ▸ h.padding

/-- The check of a stored transaction is about that transaction, and finds no more pointers than
    its view has slots. -/
theorem examine (h : Sound n σ) {db : Database} (hdb : db.transactions = n.database.transactions)
    {stop : Option BackendError} {id : TransactionId} {r : Record} {ps : List StatePointer}
    (hok : n.examine stop db id = .ok (r, ps)) :
    r.id = id ∧ ps.length ≤ room ((n.database.transactions.getD []).map (·.transaction)) id := by
  unfold Node.examine at hok
  rw [Database.readSource_eq (h.legible hdb)] at hok
  obtain ⟨tx, hfetch, hok⟩ := Except.bind_eq_ok.mp hok
  obtain ⟨record, hcheck, hok⟩ := Except.bind_eq_ok.mp hok
  obtain ⟨pointers, hpointers, hok⟩ := Except.bind_eq_ok.mp hok
  cases hok
  obtain ⟨row, hrow, rfl⟩ := Database.source_eq_ok_some.mp (Conditions.fetch_eq_ok.mp hfetch)
  obtain ⟨rows, hrows, hfind⟩ := Database.transaction?_eq_ok.mp hrow
  have hid : row.transaction.id = id := by simpa using List.find?_some hfind
  refine ⟨(Rules.root_of_check hcheck).1.trans hid, ?_⟩
  have hroom : room ((n.database.transactions.getD []).map (·.transaction)) id =
      (row.transaction.view.groups.flatMap (·.leaves)).length := by
    rw [← hdb, hrows, Option.getD_some, room, List.find?_map]
    show (((rows.find? (·.transaction.id = id)).map _).map _).getD 0 = _
    rw [hfind]
    rfl
  rw [hroom]
  exact View.length_pointers_le (Except.mapError_eq_ok.mp hpointers)

end Sound

/-- The store behind a verification: the records in its database, beside which nothing changes. -/
def Behind (n : Node) {σ : Type} (database : σ → Database) (x : σ) (s : RecordStore) : Prop :=
  (database x).transactions = n.database.transactions ∧ (database x).verifications = n.database.verifications ∧
    Keeps (database x) s

omit [Hasher] in
theorem Behind.of_eq {n : Node} {σ : Type} {database : σ → Database} {x x' : σ} {s : RecordStore}
    (h : Behind n database x s) (he : database x' = database x) : Behind n database x' s := by
  unfold Behind
  rw [he]
  exact h

theorem Access.Honest.truthful {n : Node} {s₀ : RecordStore} (hs : Sound n s₀) {σ : Type} {database : σ → Database}
    {a : Access (StateM σ)} (h : a.Honest n database) :
    a.around.Truthful (Behind n database) ((n.database.transactions.getD []).map (·.transaction)) where
  stopped hx := hx.of_eq (h.stopped _)
  find id hx := hx.of_eq (h.find _ id)
  found hx hf := Except.ok.inj ((hx.2.2.findRecord _).symm.trans (h.found _ _ _ hf))
  check id hx := hx.of_eq (h.check _ id)
  checked hx hc := by
    obtain ⟨stop, hexamine⟩ := h.checked _ _ _ hc
    exact hs.examine hx.1 hexamine
  kept {x s r} hx hk := by
    obtain ⟨htransactions, hverifications, hcases⟩ := hx.2.2.putRecord_cases r
    rw [h.kept x r hk] at htransactions hverifications hcases
    obtain ⟨s', -, hput, hkeeps⟩ | ⟨⟨e, he⟩, -⟩ := hcases
    · exact ⟨s', ⟨htransactions.trans hx.1, hverifications.trans hx.2.1, hkeeps⟩, hput⟩
    · cases he
  lost {x s r e} hx he := by
    rcases h.lost x r e he with hsame | hput
    · exact ⟨s, hx.of_eq hsame, .inl rfl⟩
    · obtain ⟨htransactions, hverifications, hcases⟩ := hx.2.2.putRecord_cases r
      rw [← hput] at htransactions hverifications hcases
      obtain ⟨s', -, hs', hkeeps⟩ | ⟨-, hsame⟩ := hcases
      · exact ⟨s', ⟨htransactions.trans hx.1, hverifications.trans hx.2.1, hkeeps⟩, .inr hs'⟩
      · exact ⟨s, hx.of_eq hsame, .inl rfl⟩

omit [Hasher] in
theorem Access.Sure.surroundings {n : Node} {σ : Type} {database : σ → Database} {a : Access (StateM σ)}
    (h : a.Sure database) : a.around.Sure (Behind n database) :=
  fun hx he => hx.of_eq (h.lost _ _ _ _ hx.2.2 he)

/-! ## What a verification leaves behind -/

section
variable {n : Node} {σ : Type} {x x₁ x₂ : σ} {id : TransactionId}

omit [Hasher] in
theorem verifyBackchain_run {s : Surroundings (StateM σ)} {t : Table} {w : Walk} {res : Except BackchainError Record}
    (hrun : ((Walk.start n.verifier.requests id).run s n.stepBound n.verifier.table).run x = ((t, w), x₁))
    (hres : w.result? = some res) :
    (n.verifyBackchain s id).run x = ((res.mapError .ofBackchain, ⟨t, n.verifier.requests + 1⟩), x₁) := by
  unfold verifyBackchain
  show (((Walk.start n.verifier.requests id).run s n.stepBound n.verifier.table) >>= _).run x = _
  rw [StateT.run_bind, hrun]
  simp only [bind, hres]
  rfl

omit [Hasher] in
theorem verifyAmid_run {a : Access (StateM σ)} {row : TransactionRow} {result : Except ServiceError Record}
    {verifier : Verifier} (hlook : (a.lookUp id).run x = (.ok (some row), x₁))
    (hwalk : (n.verifyBackchain a.around id).run x₁ = ((result, verifier), x₂)) :
    (n.verifyAmid a id).run x =
      match Verdict.ofService id result with
      | .error e => ((.error e, verifier), x₂)
      | .ok v =>
        match (a.log ⟨id, v.outcome, v.culprit, v.reason⟩).run x₂ with
        | (.error _, x₃) => ((.error .internal, verifier), x₃)
        | (.ok (), x₃) => ((.ok v, verifier), x₃) := by
  unfold verifyAmid
  rw [StateT.run_bind, hlook]
  show (n.verifyBackchain a.around id >>= _).run x₁ = _
  rw [StateT.run_bind, hwalk]
  show (match Verdict.ofService id result with | .error e => _ | .ok v => _ : StateM σ _).run x₂ = _
  cases Verdict.ofService id result with
  | error e => rfl
  | ok v =>
    dsimp only
    rw [StateT.run_bind]
    cases (a.log ⟨id, v.outcome, v.culprit, v.reason⟩).run x₂ with
    | mk logged x₃ => cases logged <;> rfl

end

/-- The node after the walk of a verification that has ended with `res`. -/
structure Walked (sure : Prop) (n : Node) (s : RecordStore) (id : TransactionId) (n' : Node) (s' : RecordStore)
    (res : Except BackchainError Record) : Prop where
  config : n'.config = n.config
  backend : n'.backend = n.backend
  apiKey : n'.apiKey = n.apiKey
  transactions : n'.database.transactions = n.database.transactions
  concluded : Concluded sure n.verifier.table s id n'.verifier.table s' res
  sound : Sound n' s'

/-- What a verification answers and logs once its walk has ended with `res`. -/
inductive Told (sure : Prop) (n : Node) (id : TransactionId) (res : Except BackchainError Record) (n' : Node) :
    Except ApiError Verdict → Prop
  | failed {e} : Verdict.ofService id (res.mapError .ofBackchain) = .error e →
      n'.database.verifications = n.database.verifications → Told sure n id res n' (.error e)
  | unlogged {v} : Verdict.ofService id (res.mapError .ofBackchain) = .ok v → ¬sure →
      n'.database.verifications = n.database.verifications → Told sure n id res n' (.error .internal)
  | answered {v} : Verdict.ofService id (res.mapError .ofBackchain) = .ok v →
      n'.database.verifications = n.database.verifications.map (· ++ [⟨id, v.outcome, v.culprit, v.reason⟩]) →
      Told sure n id res n' (.ok v)

namespace Attempt

variable {n : Node} {s : RecordStore} {id : TransactionId}

theorem verify_of_run (a : Attempt n) {answer : Except ApiError Verdict} {verifier : Verifier} {x : a.σ}
    (h : (n.verifyAmid a.access id).run a.now = ((answer, verifier), x)) :
    a.verify id = (answer, { n with database := a.database x, verifier }) := by
  unfold verify
  rw [h]

/-- The walk of a stored transaction comes to its end, and its answer is told. -/
theorem told (a : Attempt n) (hs : Sound n s) {row : TransactionRow} {x₁ : a.σ}
    (hlook : (a.access.lookUp id).run a.now = (.ok (some row), x₁)) :
    ∃ s' res, Walked a.Sure n s id (a.verify id).2 s' res ∧ Told a.Sure n id res (a.verify id).2 (a.verify id).1 := by
  have hx₁ : Behind n a.database x₁ s := by
    have hsame := a.honest.lookUp a.now id
    rw [hlook] at hsame
    have hdb : a.database x₁ = n.database := hsame.trans a.start
    exact ⟨by rw [hdb], by rw [hdb], hdb ▸ hs.records⟩
  obtain ⟨t, x₂, s', w, res, hrun, ⟨htransactions, hlog, hkeeps⟩, hres, hconcluded⟩ :=
    Backchain.concluded (a.honest.truthful hs) (show a.Sure → _ from fun h => h.surroundings) hs.rested hx₁
      n.verifier.requests id
  have hverify := verifyAmid_run hlook (verifyBackchain_run hrun hres)
  have walked {db : Database} (htransactions : db.transactions = n.database.transactions) (hkeeps : Keeps db s')
      (hlog : ∃ rows, db.verifications = some rows) :
      Walked a.Sure n s id { n with database := db, verifier := ⟨t, n.verifier.requests + 1⟩ } s' res :=
    ⟨rfl, rfl, rfl, htransactions, hconcluded, hs.padding, htransactions ▸ hs.transactions, hkeeps, hlog, hconcluded.rested⟩
  refine ⟨s', res, ?_⟩
  cases hv : Verdict.ofService id (res.mapError .ofBackchain) with
  | error e =>
    rw [hv] at hverify
    rw [a.verify_of_run hverify]
    exact ⟨walked htransactions hkeeps (hlog ▸ hs.log), .failed hv hlog⟩
  | ok v =>
    rw [hv] at hverify
    dsimp only at hverify
    cases hlogged : (a.access.log ⟨id, v.outcome, v.culprit, v.reason⟩).run x₂ with
    | mk logged x₃ =>
    rw [hlogged] at hverify
    cases logged with
    | error e =>
      have hsame : a.database x₃ = a.database x₂ := by
        have := a.honest.unlogged x₂ ⟨id, v.outcome, v.culprit, v.reason⟩ e (by rw [hlogged])
        rwa [hlogged] at this
      have hunsure : ¬a.Sure := fun h => by
        obtain ⟨rows, hrows⟩ := hs.log
        have := h.log x₂ ⟨id, v.outcome, v.culprit, v.reason⟩ rows (hlog.trans hrows)
        rw [hlogged] at this
        cases this
      rw [a.verify_of_run hverify, hsame]
      exact ⟨walked htransactions hkeeps (hlog ▸ hs.log), .unlogged hv hunsure hlog⟩
    | ok _ =>
      have hadd := a.honest.logged x₂ ⟨id, v.outcome, v.culprit, v.reason⟩ (by rw [hlogged])
      rw [hlogged] at hadd
      obtain ⟨rows, hrows, hdb⟩ := addVerification_eq_ok.mp hadd
      have hnew : (a.database x₃).verifications =
          n.database.verifications.map (· ++ [⟨id, v.outcome, v.culprit, v.reason⟩]) := by
        rw [← hdb, ← hlog, hrows]
        rfl
      rw [a.verify_of_run hverify]
      refine ⟨walked ?_ ?_ ?_, .answered hv hnew⟩
      · rw [← hdb]
        exact htransactions
      · rw [← hdb]
        exact hkeeps
      · rw [← hdb]
        exact ⟨_, rfl⟩

/-- A verification changes nothing, or its transaction is stored and its walk comes to an end. -/
theorem cases (a : Attempt n) (hs : Sound n s) (id : TransactionId) :
    (∃ e, a.verify id = (.error e, n)) ∨
    ∃ row s' res, n.database.transaction? id = .ok (some row) ∧
      Walked a.Sure n s id (a.verify id).2 s' res ∧ Told a.Sure n id res (a.verify id).2 (a.verify id).1 := by
  have hlooked := a.honest.lookedUp a.now id
  have hlookUp := a.honest.lookUp a.now id
  rw [a.start] at hlooked hlookUp
  cases hlook : (a.access.lookUp id).run a.now with
  | mk found x₁ =>
  rw [hlook] at hlooked hlookUp
  have stays {e : ApiError} (hrun : (n.verifyAmid a.access id).run a.now = ((.error e, n.verifier), x₁)) :
      a.verify id = (.error e, n) := by
    rw [a.verify_of_run hrun, hlookUp]
  obtain e | _ | row := found
  · refine .inl ⟨.internal, stays ?_⟩
    unfold verifyAmid
    rw [StateT.run_bind, hlook]
    rfl
  · refine .inl ⟨.notFound "transaction not found", stays ?_⟩
    unfold verifyAmid
    rw [StateT.run_bind, hlook]
    rfl
  · have hstored := hlooked _ rfl
    rw [Database.readTransaction?_eq (hs.legible rfl)] at hstored
    obtain ⟨s', res, hwalked, htold⟩ := a.told hs hlook
    exact .inr ⟨row, s', res, hstored, hwalked, htold⟩

end Attempt

end VeiledLedger.Node
