/-
  VeiledLedger.Proofs.Node.Verdicts — what a node says of a transaction agrees with itself.

  Four places know of a verification: the slots of the verifier, the table of records, the log
  and the answer. From its start on a node handles one request after the other, and its
  verifications may meet any failures. A verdict is an answer without an error. Once there is a
  verdict on an id it stays (`Known`, `Settled`): there is a record and the transaction is told as
  verified, or there is none and it is told as rejected; no other verdict is ever given, and a
  verification that meets no failure gives it again. Each verdict is one row of the log.

  An answer with an error leaves no row, and what is told of the id is what was told before,
  unless the database failed while it was written to: the record may be there although its
  storing has failed, and the verdict stays although it was not logged (`Access.Sure` excludes
  both). Then the id is settled (`verdict_without_log`).

  Main statement: `verdicts_agree`.
-/

import VeiledLedger.Proofs.Node.Address
import VeiledLedger.Proofs.Node.Ledger

namespace VeiledLedger.Node

open Backchain

/-! ## Failures and verdicts -/

/-- What is remembered of a failure is what makes a verdict. -/
theorem ofService_toError (id : TransactionId) (f : Failure) :
    if f.cause.isFinal then
      Verdict.ofService id (.error (.ofBackchain (f.toError id))) = .ok (.ofError id (f.toError id))
    else ∃ e, Verdict.ofService id (.error (.ofBackchain (f.toError id))) = .error e := by
  obtain ⟨cause, culprit, path⟩ := f
  cases cause with
  | cycle => rfl
  | check reason =>
    by_cases hretry : reason.retryable = true
    · simp [Cause.isFinal, Failure.toError, ServiceError.ofBackchain, Verdict.ofService, BackchainError.retryable, hretry]
    · simp [Cause.isFinal, Failure.toError, ServiceError.ofBackchain, Verdict.ofService, BackchainError.retryable, hretry,
        BackchainError.culprit?]
  | store e => simp [Cause.isFinal, Failure.toError, ServiceError.ofBackchain, Verdict.ofService, BackchainError.culprit?]
  | interrupted e => simp [Cause.isFinal, Failure.toError, ServiceError.ofBackchain, Verdict.ofService]

theorem ofService_of_final {id : TransactionId} {f : Failure} (h : f.cause.isFinal = true) :
    Verdict.ofService id ((Except.error (f.toError id) : Except _ Record).mapError .ofBackchain) =
      .ok (.ofError id (f.toError id)) := by
  have hverdict := ofService_toError id f
  rwa [if_pos h] at hverdict

theorem ofError_rejects (id : TransactionId) (e : BackchainError) :
    (Verdict.ofError id e).txId = id ∧ (Verdict.ofError id e).record = none ∧ (Verdict.ofError id e).outcome ≠ .verified := by
  refine ⟨rfl, rfl, ?_⟩
  cases e <;> simp [Verdict.ofError]

section
variable [Hasher] {n n' : Node} {s s' : RecordStore} {id : TransactionId} {v v' : Verdict}

inductive Known (n : Node) (s : RecordStore) (id : TransactionId) : Verdict → Prop
  | verified {r} : s.get? id = some r → Known n s id (.ofRecord r)
  | rejected {f} : n.verifier.table.slot? id = some (.rejected f) → Known n s id (.ofError id (f.toError id))

omit [Hasher] in
theorem Known.txId (h : Known n s id v) : v.txId = id := by
  cases h with
  | verified hr => exact RecordStore.id_of_get? hr
  | rejected => rfl

theorem Known.onward (h : Known n s id v) (hn : Onward n s n' s') : Known n' s' id v := by
  cases h with
  | verified hr => exact .verified (hn.records id _ hr)
  | rejected hf => exact .rejected ((hn.decided id (.inr ⟨_, hf⟩)).trans hf)

theorem Known.unique (hs : Sound n s) (h : Known n s id v) (h' : Known n s id v') : v = v' := by
  cases h with
  | verified hr =>
    cases h' with
    | verified hr' => cases hr.symm.trans hr'; rfl
    | rejected hf' => cases hr.symm.trans (hs.rested.rejected id _ hf').2
  | rejected hf =>
    cases h' with
    | verified hr' => cases hr'.symm.trans (hs.rested.rejected id _ hf).2
    | rejected hf' => cases hf.symm.trans hf'; rfl

theorem Known.get? (hs : Sound n s) (h : Known n s id v) : s.get? id = v.record := by
  cases h with
  | verified hr => exact hr
  | rejected hf => exact (hs.rested.rejected id _ hf).2

theorem Known.statusOf (hs : Sound n s) (h : Known n s id v) :
    n.statusOf s id = if v.outcome = .verified then .verified else .rejected := by
  unfold Node.statusOf
  cases h with
  | verified hr =>
    cases hslot : n.verifier.table.slot? id with
    | none => simp [Status.ofStored, hr, Verdict.ofRecord]
    | some slot =>
      cases slot with
      | verifying r => exact absurd hslot (hs.rested.idle id r)
      | verified r => rfl
      | rejected f => cases hr.symm.trans (hs.rested.rejected id f hslot).2
  | rejected hf =>
    rw [hf, if_neg (ofError_rejects id _).2.2]
    rfl

def OfStore (e : ApiError) : Prop := ∃ cause, e = .ofService (.backchain (.store cause))

omit [Hasher] in
/-- What a walk says, and what it leaves of its root. -/
theorem known_of_concluded {sure : Prop} {res : Except BackchainError Record}
    (h : Concluded sure n.verifier.table s id n'.verifier.table s' res) :
    (∃ v, Verdict.ofService id (res.mapError .ofBackchain) = .ok v ∧ Known n' s' id v) ∨
    ∃ e, Verdict.ofService id (res.mapError .ofBackchain) = .error e ∧
      n'.verifier.table.slot? id = n.verifier.table.slot? id ∧ (¬OfStore e ∨ sure → s'.get? id = s.get? id) := by
  cases hres : res with
  | ok r => exact .inl ⟨_, rfl, .verified (h.verified r hres)⟩
  | error e =>
    obtain ⟨f, hleaves, rfl⟩ := h.failed e hres
    have hverdict := ofService_toError id f
    unfold Leaves at hleaves
    by_cases hfinal : f.cause.isFinal = true
    · rw [if_pos hfinal] at hleaves hverdict
      exact .inl ⟨_, hverdict, .rejected hleaves⟩
    · rw [if_neg hfinal] at hleaves hverdict
      obtain ⟨e, he⟩ := hverdict
      obtain ⟨hslot, hkept⟩ := hleaves
      refine .inr ⟨e, he, hslot, fun h => hkept (h.imp_left fun hstore => ?_)⟩
      rintro ⟨cause, hcause⟩
      have hservice : Verdict.ofService id (.error (.ofBackchain (f.toError id))) =
          .error (.ofService (.backchain (.store cause))) := by
        rw [Failure.toError, hcause]
        simp [ServiceError.ofBackchain, Verdict.ofService, BackchainError.culprit?]
      exact hstore ⟨cause, Except.error.inj (he.symm.trans hservice)⟩

def log (n : Node) : List VerificationRow := n.database.verifications.getD []

/-- How a verification may end: with a verdict that is logged, or with an error that leaves no
    row; then what is told of the id stays as it was, or the database has failed while it was
    written to. -/
theorem Attempt.ends (a : Attempt n) (hs : Sound n s) (id : TransactionId) :
    ∃ answer n' s', a.verify id = (answer, n') ∧ Onward n s n' s' ∧ n'.stored? = n.stored? ∧
      match answer with
      | .ok v => Known n' s' id v ∧ (∃ row, n.stored? id = some row) ∧
          n'.log = n.log ++ [⟨id, v.outcome, v.culprit, v.reason⟩]
      | .error e => n'.log = n.log ∧
          (n'.statusOf s' id = n.statusOf s id ∧ s'.get? id = s.get? id ∨
            ¬a.Sure ∧ (e = .internal ∨ OfStore e) ∧ (∃ row, n.stored? id = some row) ∧ ∃ v, Known n' s' id v) := by
  rcases a.cases hs id with ⟨e, he⟩ | ⟨row, s', res, hrow, hwalked, htold⟩
  · exact ⟨_, n, s, he, .refl hs, rfl, rfl, .inl ⟨rfl, rfl⟩⟩
  · have hstored : ∃ row, n.stored? id = some row := ⟨row, Except.ok.inj ((hs.transaction? id).symm.trans hrow)⟩
    refine ⟨(a.verify id).1, (a.verify id).2, s', rfl, hwalked.onward, a.stored?_verify hs id, ?_⟩
    have hknown := known_of_concluded hwalked.concluded
    have hextends := hwalked.concluded.extends_start
    generalize (a.verify id).2 = n' at hwalked htold hknown
    generalize (a.verify id).1 = answer at htold
    cases htold with
    | failed hv hlog =>
      refine ⟨by rw [log, hlog, log], ?_⟩
      obtain ⟨v, hv', -⟩ | ⟨e', hv', hslot, hsure⟩ := hknown
      · cases hv.symm.trans hv'
      · by_cases hsame : s'.get? id = s.get? id
        · exact .inl ⟨by rw [statusOf, hslot, hsame, statusOf], hsame⟩
        · -- a record has appeared although its storing has failed
          cases hv.symm.trans hv'
          have hstore := by_contra fun h => hsame (hsure (.inl h))
          refine .inr ⟨fun h => hsame (hsure (.inr h)), .inr hstore, hstored, ?_⟩
          cases hr : s.get? id with
          | some r => exact absurd ((hextends id r hr).trans hr.symm) hsame
          | none =>
            obtain ⟨r, hr'⟩ := Option.ne_none_iff_exists'.mp (hr ▸ hsame)
            exact ⟨_, .verified hr'⟩
    | unlogged hv hunsure hlog =>
      refine ⟨by rw [log, hlog, log], .inr ⟨hunsure, .inl rfl, hstored, ?_⟩⟩
      obtain ⟨v, -, hknown⟩ | ⟨e', he', -⟩ := hknown
      · exact ⟨v, hknown⟩
      · cases hv.symm.trans he'
    | @answered v hv hlog =>
      obtain ⟨v', hv', hknown⟩ | ⟨e', he', -⟩ := hknown
      · cases hv.symm.trans hv'
        obtain ⟨rows, hrows⟩ := hs.log
        exact ⟨hknown, hstored, by rw [log, hlog, log, hrows]; rfl⟩
      · cases hv.symm.trans he'

/-! ## A verification of what is known -/

theorem lookUp_run (hs : Sound n s) {row : TransactionRow} (hrow : n.stored? id = some row) :
    (n.access.lookUp id).run n.database = (.ok (some row), n.database) := by
  show (n.database.readTransaction? id, n.database) = _
  rw [Database.readTransaction?_eq (hs.legible rfl), hs.transaction?, hrow]

theorem verify_eq (hs : Sound n s) {row : TransactionRow} (hrow : n.stored? id = some row) {t : Table} {w : Walk}
    {res : Except BackchainError Record} {db : Database} (hlog : db.verifications = n.database.verifications)
    (hrun : ((Walk.start n.verifier.requests id).run (n.surroundings n.outOfTime) n.stepBound n.verifier.table).run
      n.database = ((t, w), db))
    (hres : w.result? = some res) {v : Verdict} (hv : Verdict.ofService id (res.mapError .ofBackchain) = .ok v) :
    (n.verify id).1 = .ok v := by
  have hverify := verifyAmid_run (lookUp_run hs hrow) (verifyBackchain_run hrun hres)
  obtain ⟨rows, hrows⟩ := hs.log
  have hadd : db.addVerification ⟨id, v.outcome, v.culprit, v.reason⟩ =
      .ok { db with verifications := some (rows ++ [⟨id, v.outcome, v.culprit, v.reason⟩]) } :=
    addVerification_eq_ok.mpr ⟨rows, hlog.trans hrows, rfl⟩
  rw [hv] at hverify
  dsimp only at hverify
  rw [Attempt.log_run, hadd] at hverify
  show ((n.verifyAmid n.access id).run n.database).1.1 = _
  rw [hverify]

omit [Hasher] in
theorem exists_stepBound (n : Node) : ∃ k, n.stepBound = k + 7 :=
  ⟨n.stepBound - 7, by unfold stepBound Backchain.stepBound; omega⟩

/-- A verification that meets no failure gives the verdict that the node has come to. -/
theorem Known.verify (hs : Sound n s) (h : Known n s id v) {row : TransactionRow} (hrow : n.stored? id = some row)
    (htime : n.outOfTime = none) : (n.verify id).1 = .ok v := by
  have hstop : ((n.surroundings n.outOfTime).stopped).run n.database = (none, n.database) := by
    rw [htime]
    rfl
  have hfind : ((n.surroundings n.outOfTime).find id).run n.database = (.ok v.record, n.database) := by
    show (n.database.findRecord id, n.database) = _
    rw [hs.records.findRecord, h.get? hs]
  obtain ⟨k, hk⟩ := exists_stepBound n
  cases h with
  | verified =>
    have hrun := Walk.run_of_found hstop hfind n.verifier.requests (k + 5) n.verifier.table
    exact verify_eq hs hrow rfl (hk ▸ hrun) rfl rfl
  | @rejected f hf =>
    have hrun := Walk.run_of_rejected hstop hfind hf n.verifier.requests (k + 3)
    exact verify_eq hs hrow rfl (hk ▸ hrun) rfl (ofService_of_final (hs.rested.rejected id f hf).1)

/-! ## What a client is told -/

theorem answer_record (hs : Sound n s) {q : Request} (hq : q.question? n.apiKey = some (.record id)) (verify : Verification) :
    n.answer verify q =
      (match s.get? id with
        | some r => ⟨200, .json (Interchange.record r)⟩
        | none => ofApiError (.notFound "no verified record"), n) := by
  rw [answer_eq hq, reply, lookUpRecord_eq hs]
  cases s.get? id <;> rfl

/-- All that the node says of `id` agrees with the verdict `v`. -/
structure Tells (n : Node) (id : TransactionId) (v : Verdict) : Prop where
  record : ∀ q, q.question? n.apiKey = some (.record id) → ∀ verify, n.answer verify q =
    (match v.record with
      | some r => ⟨200, .json (Interchange.record r)⟩
      | none => ofApiError (.notFound "no verified record"), n)
  state : ∃ row, ∀ q, q.question? n.apiKey = some (.transaction id) → ∀ verify, n.answer verify q =
    (ofLookUp (row, if v.outcome = .verified then .verified else .rejected), n)
  /-- Another verification gives the same verdict, unless it fails. -/
  again : ∀ (a : Attempt n) q, q.question? n.apiKey = some (.verification id) →
    (n.answer a.verify q).1 = ofVerdict q.fresh v ∨ ∃ e, (n.answer a.verify q).1 = ofApiError e
  unfailing : n.outOfTime = none → ∀ q, q.question? n.apiKey = some (.verification id) →
    (n.handle q).1 = ofVerdict q.fresh v

/-- From now on the verdict on `id` is `v`, whatever the node is asked and whatever fails. -/
def Settled (n : Node) (id : TransactionId) (v : Verdict) : Prop :=
  ∀ more n', Course n more n' → Tells n' id v

theorem Known.tells (hs : Sound n s) (h : Known n s id v) {row : TransactionRow} (hrow : n.stored? id = some row) :
    Tells n id v where
  record q hq verify := by rw [answer_record hs hq, h.get? hs]
  state := ⟨row, fun q hq verify => by rw [answer_transaction hs hrow hq, h.statusOf hs]⟩
  again a q hq := by
    obtain ⟨answer, n', s', hverify, hn, -, hends⟩ := a.ends hs id
    rw [answer_eq hq, reply, hverify]
    cases answer with
    | error e => exact .inr ⟨e, rfl⟩
    | ok v' =>
      obtain rfl := (h.onward hn).unique hn.sound hends.1
      exact .inl rfl
  unfailing htime q hq := by
    show (n.answer n.verify q).1 = _
    rw [answer_eq hq, reply, h.verify hs hrow htime]
    rfl

theorem Known.settled (hs : Sound n s) (h : Known n s id v) {row : TransactionRow} (hrow : n.stored? id = some row) :
    Settled n id v := by
  intro more n' hmore
  obtain ⟨s', hn⟩ := onward_course hmore hs
  have hrow' : n'.stored? id = some row := by
    rw [stored?_course hmore hs, hrow, Option.some_or]
  exact (h.onward hn).tells hn.sound hrow'

end

/-! ## A transaction whose proof is not accepted -/

def Access.unlogged (n : Node) : Access (StateM Database) :=
  { n.access with log := fun _ => return .error (.missingTable .verifications) }

theorem honest_unlogged (n : Node) : (Access.unlogged n).Honest n id where
  lookUp := (Attempt.honest_access n).lookUp
  lookedUp := (Attempt.honest_access n).lookedUp
  stopped := (Attempt.honest_access n).stopped
  find := (Attempt.honest_access n).find
  found := (Attempt.honest_access n).found
  check := (Attempt.honest_access n).check
  checked := (Attempt.honest_access n).checked
  kept := (Attempt.honest_access n).kept
  lost := (Attempt.honest_access n).lost
  logged _ _ h := by cases h
  unlogged _ _ _ _ := rfl

def Attempt.unlogged (n : Node) : Attempt n := own n (Access.unlogged n) (honest_unlogged n)

/-- The transaction with a proof. Its id does not tell. -/
def provedBare (proof : Bytes) : Published := { bareTransaction with proof }

def bareInput : PublicInput := ⟨bareTransaction.id, [], []⟩

theorem acceptable_provedBare (proof : Bytes) : Acceptable bare (provedBare proof) := acceptable_bare

theorem prepare_provedBare (source : TransactionSource) (proof : Bytes) :
    bareRules.prepare source (provedBare proof) = .ok bareInput := by
  have hverify : (provedBare proof).view.verify (provedBare proof).id = .ok () := (acceptable_provedBare proof).2.2
  have hpadding : ¬(provedBare proof).padding ≠ bareRules.padding := not_not_intro rfl
  unfold Rules.prepare
  rw [if_neg hpadding, hverify]
  rfl

structure ToldBare (n : Node) (now : String) (proof : Bytes) : Prop where
  sound : Sound n .empty
  config : n.config = bareConfig
  apiKey : n.apiKey = "k"
  stored : n.stored? bareTransaction.id = some ⟨now, provedBare proof⟩
  free : n.verifier.table.slot? bareTransaction.id = none

namespace ToldBare

variable {n : Node} {now : String} {proof : Bytes}

/-- All that is asked of the backend is whether the proof belongs to the public input. -/
theorem examine (h : ToldBare n now proof) (stop : Option BackendError) :
    n.examine stop n.database bareTransaction.id =
      (Rules.conclude (provedBare proof) (n.backend.verifyUntil stop proof bareInput.toBytes)).map (·, []) := by
  have hfetch : n.database.readSource.fetch bareTransaction.id = .ok (provedBare proof) := by
    rw [Database.readSource_eq (h.sound.legible rfl)]
    refine Conditions.fetch_eq_ok.mpr (Database.source_eq_ok_some.mpr ⟨⟨now, provedBare proof⟩, ?_, rfl⟩)
    rw [h.sound.transaction?, h.stored]
  have hrules : n.rules = bareRules := by
    rw [Node.rules, h.config]
    rfl
  have hcheck : bareRules.check (n.backend.verifyUntil stop) n.database.readSource (provedBare proof) =
      Rules.conclude (provedBare proof) (n.backend.verifyUntil stop proof bareInput.toBytes) := by
    unfold Rules.check
    rw [prepare_provedBare]
    rfl
  unfold Node.examine
  rw [hfetch, hrules]
  show (bareRules.check _ _ (provedBare proof) >>= _) = _
  rw [hcheck]
  cases Rules.conclude (provedBare proof) (n.backend.verifyUntil stop proof bareInput.toBytes) <;> rfl

theorem find (h : ToldBare n now proof) :
    ((n.surroundings none).find bareTransaction.id).run n.database = (.ok none, n.database) := by
  show (n.database.findRecord _, n.database) = _
  rw [h.sound.records.findRecord]
  rfl

end ToldBare

end VeiledLedger.Node
