/-
  VeiledLedger.Proofs.Node.Course — a node from its start on, one request after the other.

  Requests come in as they like; one that asks for a verification may meet any failures
  (`Attempt`). What a request asks for is read off it before anything is known of the node but
  its key (`Request.question?`), and the answer follows from that (`answer_eq`). Whatever else is
  sent changes nothing.

  Every request leaves a clean node clean: its tables, the records of its verifier, and what
  counts as verified or rejected agree (`Sound`), and records are only added.

  Main statements: `stored?_answer`, what a request does to the stored transactions, and
  `onward_course`.
-/

import VeiledLedger.Proofs.Argument.Packing
import VeiledLedger.Proofs.Node.Attempt

namespace VeiledLedger.Node

open Backchain

/-! ## What a request asks for -/

inductive Question where
  | submission (tx : Published)
  | transaction (id : TransactionId)
  | verification (id : TransactionId)
  | record (id : TransactionId)

def idOf? (piece : String) : Option TransactionId := (decodePiece piece).bind fun text => (parseId text).toOption

/-- What is asked of a node with the key `key`, if the request has the right to ask. -/
def Request.question? (key : String) (r : Request) : Option Question :=
  match r.method, Route.ofPath r.path with
  | .post, .transactions => if r.key = some key then (submission r).toOption.map .submission else none
  | .get, .transaction piece => (idOf? piece).map .transaction
  | .post, .verification piece => if r.key = some key then (idOf? piece).map .verification else none
  | .get, .record piece => (idOf? piece).map .record
  | _, _ => none

section
variable [Hasher] {n : Node} {r : Request}

def reply (n : Node) (verify : Verification) (r : Request) : Question → Reply × Node
  | .submission tx => (ofAnswer (ofSubmission tx.id) (n.submit r.now tx).1, (n.submit r.now tx).2)
  | .transaction id => (ofAnswer ofLookUp (n.lookUp id), n)
  | .verification id => (ofAnswer (ofVerdict r.fresh) (verify id).1, (verify id).2)
  | .record id => (ofAnswer (fun x => ⟨200, .json (Interchange.record x)⟩) (n.lookUpRecord id), n)

omit [Hasher] in
theorem withId_eq {piece : String} {id : TransactionId} (h : idOf? piece = some id) (f : TransactionId → Reply × Node) :
    n.withId piece f = f id := by
  obtain ⟨text, htext, hid⟩ := Option.bind_eq_some_iff.mp h
  unfold withId
  rw [htext]
  dsimp only
  cases hparse : parseId text with
  | error e =>
    rw [hparse] at hid
    cases hid
  | ok id' =>
    rw [hparse] at hid
    cases hid
    rfl

omit [Hasher] in
theorem withId_none {piece : String} (h : idOf? piece = none) (f : TransactionId → Reply × Node) :
    (n.withId piece f).2 = n := by
  unfold withId
  cases htext : decodePiece piece with
  | none => rfl
  | some text =>
    dsimp only
    cases hparse : parseId text with
    | error e => rfl
    | ok id =>
      rw [idOf?, htext, Option.bind_some, hparse] at h
      cases h

omit [Hasher] in
theorem withId_same (piece : String) {f : TransactionId → Reply × Node} (h : ∀ id, (f id).2 = n) :
    (n.withId piece f).2 = n := by
  cases hid : idOf? piece with
  | none => exact withId_none hid f
  | some id => rw [withId_eq hid, h]

theorem answer_of_allowed {route : Route} (hroute : Route.ofPath r.path = route)
    (hkey : route.isProtected = true → r.key = some n.apiKey) (hallows : route.allows r.method = true)
    (hmethod : r.method = .get ∨ r.method = .post) (verify : Verification) :
    n.answer verify r = n.serve verify r route := by
  have hoptions : r.method ≠ .options := by rcases hmethod with h | h <;> simp [h]
  have hhead : r.method ≠ .head := by rcases hmethod with h | h <;> simp [h]
  unfold answer
  dsimp only
  rw [hroute, if_neg hoptions, if_neg (by simpa using hkey), if_neg (by simp [hallows]), if_neg hhead]

/-- Whoever has the right to ask is answered. -/
theorem answer_eq {q : Question} (h : r.question? n.apiKey = some q) (verify : Verification) :
    n.answer verify r = n.reply verify r q := by
  unfold Request.question? at h
  split at h
  · rename_i hmethod hroute
    split at h
    · rename_i hkey
      obtain ⟨tx, htx, rfl⟩ := Option.map_eq_some_iff.mp h
      rw [answer_of_allowed hroute (fun _ => hkey) (by simp [Route.allows, hmethod]) (.inr hmethod)]
      cases hsub : submission r with
      | error status =>
        rw [hsub] at htx
        cases htx
      | ok tx' =>
        rw [hsub] at htx
        cases htx
        simp only [serve, hsub, reply]
    · cases h
  · rename_i piece hmethod hroute
    obtain ⟨id, hid, rfl⟩ := Option.map_eq_some_iff.mp h
    rw [answer_of_allowed hroute (by simp [Route.isProtected]) (by simp [Route.allows, hmethod]) (.inl hmethod)]
    exact withId_eq hid _
  · rename_i piece hmethod hroute
    split at h
    · rename_i hkey
      obtain ⟨id, hid, rfl⟩ := Option.map_eq_some_iff.mp h
      rw [answer_of_allowed hroute (fun _ => hkey) (by simp [Route.allows, hmethod]) (.inr hmethod)]
      exact withId_eq hid _
    · cases h
  · rename_i piece hmethod hroute
    obtain ⟨id, hid, rfl⟩ := Option.map_eq_some_iff.mp h
    rw [answer_of_allowed hroute (by simp [Route.isProtected]) (by simp [Route.allows, hmethod]) (.inl hmethod)]
    exact withId_eq hid _
  · cases h

/-- Nothing else that is sent changes the node. -/
theorem answer_none (h : r.question? n.apiKey = none) (verify : Verification) : (n.answer verify r).2 = n := by
  unfold answer
  dsimp only
  split_ifs with hoptions hkey hallows hhead
  · rfl
  · rfl
  · rfl
  all_goals
    cases hroute : Route.ofPath r.path with
    | health => rfl
    | unknown => rfl
    | transaction piece => exact withId_same piece fun _ => rfl
    | record piece => exact withId_same piece fun _ => rfl
    | transactions =>
      rw [hroute] at hkey hallows
      have hmethod : r.method = .post := by simpa [Route.allows] using hallows
      have hright : r.key = some n.apiKey := by simpa [Route.isProtected] using hkey
      simp only [Request.question?, hmethod, hroute, hright, if_true] at h
      cases hsub : submission r with
      | error status => simp only [serve, hsub]
      | ok tx =>
        rw [hsub] at h
        cases h
    | verification piece =>
      rw [hroute] at hkey hallows
      have hmethod : r.method = .post := by simpa [Route.allows] using hallows
      have hright : r.key = some n.apiKey := by simpa [Route.isProtected] using hkey
      simp only [Request.question?, hmethod, hroute, hright, if_true, Option.map_eq_none_iff] at h
      exact withId_none h _

end

/-! ## Submitting -/

section
variable [Hasher] {n : Node} {s : RecordStore} {tx : Published} {now : String}

instance (p : Padding) (tx : Published) : Decidable (Acceptable p tx) := inferInstanceAs (Decidable (_ ∧ _ ∧ _))

theorem accepts_eq_ok : n.accepts tx = .ok () ↔ Acceptable n.config.padding tx := by
  unfold accepts Acceptable
  by_cases hpadding : tx.padding = n.config.padding
  · rw [if_neg (by simpa using hpadding), hpadding]
    cases hshape : tx.view.checkShape n.config.padding with
    | error e => simp [bind, Except.bind]
    | ok _ => cases hverify : tx.view.verify tx.id <;> simp [bind, Except.bind]
  · simp [hpadding]

theorem status_of_accepts {e : ApiError} (h : n.accepts tx = .error e) : e.status = 422 := by
  unfold accepts at h
  split at h
  · cases h
    rfl
  · split at h <;> cases h
    rfl

def stored? (n : Node) (id : TransactionId) : Option TransactionRow :=
  (n.database.transactions.getD []).find? (·.transaction.id = id)

theorem Sound.transaction? (h : Sound n s) (id : TransactionId) :
    n.database.transaction? id = .ok (n.stored? id) := by
  obtain ⟨rows, hrows, -⟩ := h.transactions
  rw [Database.transaction?_eq_ok]
  exact ⟨rows, hrows, by rw [stored?, hrows, Option.getD_some]⟩

theorem stored?_clean (h : Sound n s) {id : TransactionId} {row : TransactionRow} (hrow : n.stored? id = some row) :
    row.transaction.id = id ∧ Acceptable n.config.padding row.transaction := by
  obtain ⟨rows, hrows, hclean⟩ := h.transactions
  rw [stored?, hrows, Option.getD_some] at hrow
  exact ⟨by simpa using List.find?_some hrow, hclean row (List.mem_of_find?_eq_some hrow)⟩

def withRow (n : Node) (row : TransactionRow) : Node :=
  { n with database := { n.database with transactions := n.database.transactions.map (· ++ [row]) } }

omit [Hasher] in
theorem insertTransaction_eq {db : Database} {rows : List TransactionRow} (hrows : db.transactions = some rows) :
    db.insertTransaction now tx =
      match rows.find? (·.transaction.id = tx.id) with
      | none => (.ok true, { db with transactions := some (rows ++ [⟨now, tx⟩]) })
      | some row => (if row.transaction = tx then .ok false else .error (Insertion.conflict tx.id), db) := by
  have hfound : db.transaction? tx.id = .ok (rows.find? (·.transaction.id = tx.id)) :=
    Database.transaction?_eq_ok.mpr ⟨rows, hrows, rfl⟩
  unfold Database.insertTransaction
  simp only [Insertion.step, hfound]
  cases hfind : rows.find? (·.transaction.id = tx.id) with
  | none =>
    have htaken : ¬rows.any (·.transaction.id = tx.id) := by
      simpa using List.find?_eq_none.mp hfind
    have hadd : db.addTransaction ⟨now, tx⟩ = .ok { db with transactions := some (rows ++ [⟨now, tx⟩]) } := by
      unfold Database.addTransaction Database.insertOrIgnore
      simp only [hrows, Database.rows, bind, Except.bind, pure, Except.pure]
      rw [if_neg htaken]
    simp only [hadd]
  | some row =>
    by_cases hsame : row.transaction = tx <;> simp only [hsame, if_true, if_false]

theorem submit_eq (hs : Sound n s) (hacc : Acceptable n.config.padding tx) :
    n.submit now tx =
      match n.stored? tx.id with
      | none => (.ok true, n.withRow ⟨now, tx⟩)
      | some row => (if row.transaction = tx then .ok false else .error (Insertion.conflict tx.id), n) := by
  obtain ⟨rows, hrows, -⟩ := hs.transactions
  have hstored : n.stored? tx.id = rows.find? (·.transaction.id = tx.id) := by
    rw [stored?, hrows, Option.getD_some]
  unfold submit
  rw [accepts_eq_ok.mpr hacc, hstored]
  simp only [insertTransaction_eq hrows]
  cases rows.find? (·.transaction.id = tx.id) with
  | none =>
    simp only [withRow, hrows]
    rfl
  | some row => rfl

theorem submit_refused (now : String) (hacc : ¬Acceptable n.config.padding tx) :
    ∃ e, n.submit now tx = (.error e, n) ∧ e.status = 422 := by
  unfold submit
  cases h : n.accepts tx with
  | ok _ => exact absurd (accepts_eq_ok.mp h) hacc
  | error e => exact ⟨e, rfl, status_of_accepts h⟩

end

/-! ## Asking -/

section
variable [Hasher] {n : Node} {s : RecordStore}

def statusOf (n : Node) (s : RecordStore) (id : TransactionId) : Status :=
  match n.verifier.table.slot? id with
  | some slot => .ofSlot slot
  | none => .ofStored (s.get? id)

theorem lookUp_eq (h : Sound n s) (id : TransactionId) :
    n.lookUp id =
      match n.stored? id with
      | none => .error (.notFound "transaction not found")
      | some row => .ok (row, n.statusOf s id) := by
  have hstatus : Id.run (n.verifier.status (fun id => pure (n.database.findRecord id)) id) =
      .ok (n.statusOf s id) := by
    unfold Verifier.status statusOf
    cases n.verifier.table.slot? id with
    | some slot => rfl
    | none =>
      show (n.database.findRecord id).map Status.ofStored = _
      rw [h.records.findRecord]
      rfl
  unfold lookUp
  rw [Database.readTransaction?_eq (h.legible rfl), h.transaction?]
  cases n.stored? id with
  | none => rfl
  | some row => simp only [hstatus]

theorem lookUpRecord_eq (h : Sound n s) (id : TransactionId) :
    n.lookUpRecord id =
      match s.get? id with
      | none => .error (.notFound "no verified record")
      | some r => .ok r := by
  unfold lookUpRecord
  rw [h.records.record?]
  cases s.get? id <;> rfl

end

/-! ## One request after the other -/

section
variable [Hasher] {n n' : Node} {s s' : RecordStore} {r : Request}

/-- The node has gone on: what it was started with stays, and so does every record. -/
structure Onward (n : Node) (s : RecordStore) (n' : Node) (s' : RecordStore) : Prop where
  config : n'.config = n.config
  backend : n'.backend = n.backend
  apiKey : n'.apiKey = n.apiKey
  decided : ∀ id, n.verifier.table.Decided id → n'.verifier.table.slot? id = n.verifier.table.slot? id
  records : s'.Extends s
  sound : Sound n' s'

theorem Onward.refl (h : Sound n s) : Onward n s n s := ⟨rfl, rfl, rfl, fun _ _ => rfl, .refl s, h⟩

theorem Onward.trans {n'' : Node} {s'' : RecordStore} (h : Onward n s n' s') (h' : Onward n' s' n'' s'') :
    Onward n s n'' s'' where
  config := h'.config.trans h.config
  backend := h'.backend.trans h.backend
  apiKey := h'.apiKey.trans h.apiKey
  decided := fun id hd => (h'.decided id (hd.of_eq (h.decided id hd))).trans (h.decided id hd)
  records := fun id x hx => h'.records id x (h.records id x hx)
  sound := h'.sound

theorem Sound.withRow (h : Sound n s) {row : TransactionRow} (hrow : Acceptable n.config.padding row.transaction) :
    Sound (n.withRow row) s where
  padding := h.padding
  transactions := by
    obtain ⟨rows, hrows, hclean⟩ := h.transactions
    refine ⟨rows ++ [row], by simp [Node.withRow, hrows], fun row' hmem => ?_⟩
    rcases List.mem_append.mp hmem with hmem | hmem
    · exact hclean row' hmem
    · rw [List.mem_singleton.mp hmem]
      exact hrow
  records := h.records
  log := h.log
  rested := h.rested

theorem stored?_withRow (h : Sound n s) (row : TransactionRow) (id : TransactionId) :
    (n.withRow row).stored? id = (n.stored? id).or (if row.transaction.id = id then some row else none) := by
  obtain ⟨rows, hrows, -⟩ := h.transactions
  simp [stored?, withRow, hrows, List.find?_append, List.find?_singleton]

theorem Walked.onward {sure : Prop} {id : TransactionId} {res : Except BackchainError Record}
    (h : Walked sure n s id n' s' res) : Onward n s n' s' :=
  ⟨h.config, h.backend, h.apiKey, h.concluded.decided, h.concluded.extends_start, h.sound⟩

theorem Attempt.stored?_verify (a : Attempt n) (hs : Sound n s) (id : TransactionId) :
    (a.verify id).2.stored? = n.stored? := by
  rcases a.cases hs id with ⟨e, he⟩ | ⟨row, s', res, -, hwalked, -⟩
  · rw [he]
  · funext x
    rw [stored?, hwalked.transactions, stored?]

theorem Attempt.onward_verify (a : Attempt n) (hs : Sound n s) (id : TransactionId) :
    ∃ s', Onward n s (a.verify id).2 s' := by
  rcases a.cases hs id with ⟨e, he⟩ | ⟨row, s', res, -, hwalked, -⟩
  · rw [he]
    exact ⟨s, .refl hs⟩
  · exact ⟨s', hwalked.onward⟩

/-- The row that is written if the request submits a transaction under `id` that is let in and
    nothing is stored there yet. -/
def admitted? (key : String) (p : Padding) (r : Request) (id : TransactionId) : Option TransactionRow :=
  match r.question? key with
  | some (.submission tx) => if tx.id = id ∧ Acceptable p tx then some ⟨r.now, tx⟩ else none
  | _ => none

/-- What a request does to the stored transactions. -/
theorem stored?_answer (hs : Sound n s) (a : Attempt n) (r : Request) (id : TransactionId) :
    (n.answer a.verify r).2.stored? id = (n.stored? id).or (admitted? n.apiKey n.config.padding r id) := by
  unfold admitted?
  cases hq : r.question? n.apiKey with
  | none => rw [answer_none hq, Option.or_none]
  | some q =>
    rw [answer_eq hq]
    cases q with
    | transaction _ | record _ => exact (Option.or_none).symm
    | verification x =>
      show (a.verify x).2.stored? id = _
      rw [a.stored?_verify hs, Option.or_none]
    | submission tx =>
      show (n.submit r.now tx).2.stored? id = _
      dsimp only
      by_cases hacc : Acceptable n.config.padding tx
      · rw [submit_eq hs hacc]
        cases hstored : n.stored? tx.id with
        | none =>
          rw [stored?_withRow hs]
          simp only [hacc, and_true]
        | some row =>
          by_cases hid : tx.id = id
          · rw [← hid, hstored]
            rfl
          · rw [if_neg (fun h => hid h.1), Option.or_none]
      · obtain ⟨e, he, -⟩ := submit_refused r.now hacc
        rw [he, if_neg (fun h => hacc h.2), Option.or_none]

theorem onward_answer (hs : Sound n s) (a : Attempt n) (r : Request) : ∃ s', Onward n s (n.answer a.verify r).2 s' := by
  cases hq : r.question? n.apiKey with
  | none =>
    rw [answer_none hq]
    exact ⟨s, .refl hs⟩
  | some q =>
    rw [answer_eq hq]
    cases q with
    | transaction _ | record _ => exact ⟨s, .refl hs⟩
    | verification id => exact a.onward_verify hs id
    | submission tx =>
      show ∃ s', Onward n s (n.submit r.now tx).2 s'
      by_cases hacc : Acceptable n.config.padding tx
      · rw [submit_eq hs hacc]
        cases n.stored? tx.id with
        | none => exact ⟨s, rfl, rfl, rfl, fun _ _ => rfl, .refl s, hs.withRow hacc⟩
        | some row => exact ⟨s, .refl hs⟩
      · obtain ⟨e, he, -⟩ := submit_refused r.now hacc
        rw [he]
        exact ⟨s, .refl hs⟩

/-- The requests lead from one node to the other, each verification with its own attempt. -/
inductive Course : Node → List Request → Node → Prop
  | done (n : Node) : Course n [] n
  | next {n n' : Node} {r : Request} {rs : List Request} (a : Attempt n) :
      Course (n.answer a.verify r).2 rs n' → Course n (r :: rs) n'

/-- A request that meets no failure. -/
theorem Course.handled {n n' : Node} {r : Request} {rs : List Request} (h : Course (n.handle r).2 rs n') :
    Course n (r :: rs) n' := .next (.calm n) h

theorem onward_course {rs : List Request} (h : Course n rs n') (hs : Sound n s) : ∃ s', Onward n s n' s' := by
  induction h generalizing s with
  | done => exact ⟨s, .refl hs⟩
  | @next n n' r rs a _ ih =>
    obtain ⟨s₁, h₁⟩ := onward_answer hs a r
    obtain ⟨s₂, h₂⟩ := ih h₁.sound
    exact ⟨s₂, h₁.trans h₂⟩

/-- The row that the first of the requests writes under `id`. -/
def firstAdmitted? (key : String) (p : Padding) (rs : List Request) (id : TransactionId) : Option TransactionRow :=
  rs.findSome? (admitted? key p · id)

theorem stored?_course {rs : List Request} (h : Course n rs n') (hs : Sound n s) (id : TransactionId) :
    n'.stored? id = (n.stored? id).or (firstAdmitted? n.apiKey n.config.padding rs id) := by
  induction h generalizing s with
  | done => exact (Option.or_none).symm
  | @next n n' r rs a _ ih =>
    obtain ⟨s₁, h₁⟩ := onward_answer hs a r
    rw [ih h₁.sound, stored?_answer hs, h₁.apiKey, h₁.config, Option.or_assoc]
    congr 1
    simp only [firstAdmitted?, List.findSome?_cons]
    cases admitted? n.apiKey n.config.padding r id <;> rfl

/-! ## The start -/

omit [Hasher] in
/-- A padding that a backend serves has no number beyond 64 bits. -/
theorem words_of_ofPadding {seed : Digest} {p : Padding} {b : Argument.Backend}
    (h : Argument.Backend.ofPadding seed p = .ok b) : p.Words := by
  obtain ⟨n, -, hn, -, -⟩ := Argument.Backend.ofPadding_eq_ok.mp h
  have hlt := Witness.lt_of_byteSize? hn
  obtain ⟨hslots, hutxo⟩ := Witness.slots_of_byteSize? hn
  have capacity (kind : GroupKind) : (p.shape kind).capacity < 2 ^ 64 := by
    have := (hslots kind).2
    omega
  exact ⟨capacity .inputs, capacity .outputs, (hslots .outputs).1, capacity .commands, (hslots .commands).1,
    capacity .attachments, capacity .signers, capacity .references, hutxo⟩

/-- A node starts out empty. -/
theorem Sound.start {config : Config} {seed : Digest} {key : String} (h : Node.start config seed key = .ok n) :
    n.config = config ∧ n.apiKey = key ∧ n.verifier = .fresh ∧ (∀ id, n.stored? id = none) ∧ Sound n .empty := by
  unfold Node.start at h
  cases hb : Argument.Backend.ofPadding seed config.padding with
  | error e =>
    rw [hb] at h
    cases h
  | ok b =>
    rw [hb] at h
    cases h
    refine ⟨rfl, rfl, rfl, fun _ => rfl, words_of_ofPadding hb, ⟨[], rfl, ?_⟩, keeps_empty, ⟨[], rfl⟩, rested_empty⟩
    intro row hrow
    cases hrow

end

end VeiledLedger.Node
