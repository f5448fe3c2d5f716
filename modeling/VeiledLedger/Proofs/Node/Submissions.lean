/-
  VeiledLedger.Proofs.Node.Submissions — several clients submit transactions at once.

  Storing a transaction takes two steps, a look at what its id holds and the writing of a row,
  and the steps of other calls fall in between as they like. A row that is there stays as it is:
  the second write under an id does nothing. The call that makes it is not told so, and answers
  as if its row had been written (`race_hides_conflict`).

  Whatever the schedule, a call that answers `false` has submitted what is stored, and a conflict
  is one (`Knows`). `true` says no more than that some call has written a row under the id. The
  rest holds as long as no call looks at an id between the look and the write of another call
  for the same id (`serial`): one call for an id at most answers `true`, an answer without an
  error means that what was submitted is stored, and other content under the id is a conflict.

  Main statements: `knows_run`, for every schedule, and `serial_submissions`.
-/

import VeiledLedger.Node.Database
import VeiledLedger.Proofs.Outcome

namespace VeiledLedger.Node

/-! ## A write, as it is seen through the source -/

namespace Database

variable {db db' : Database} {row : TransactionRow}

theorem find?_insertOrIgnore {ρ κ : Type} [DecidableEq κ] (key : ρ → κ) (row : ρ) (rows : List ρ) (k : κ) :
    (insertOrIgnore key row rows).find? (key · = k) =
      if key row = k ∧ rows.find? (key · = k) = none then some row else rows.find? (key · = k) := by
  unfold insertOrIgnore
  by_cases htaken : rows.any (key · = key row)
  · rw [if_pos htaken]
    by_cases hk : key row = k
    · subst hk
      obtain ⟨r, hr, hkey⟩ := List.any_eq_true.mp htaken
      have hsome : rows.find? (key · = key row) ≠ none := fun h => List.find?_eq_none.mp h r hr hkey
      simp [hsome]
    · simp [hk]
  · rw [if_neg htaken, List.find?_append, List.find?_singleton]
    have hfree : rows.find? (key · = key row) = none := by simpa using htaken
    by_cases hk : key row = k
    · subst hk
      simp [hfree]
    · simp [hk]

/-- A row that is written is seen if nothing was seen in its place before. -/
theorem source_addTransaction (h : db.addTransaction row = .ok db') (id : TransactionId) :
    db'.source id =
      if row.transaction.id = id ∧ db.source id = .ok none then .ok (some row.transaction) else db.source id := by
  unfold addTransaction at h
  cases ht : db.transactions with
  | none =>
    rw [ht] at h
    cases h
  | some rows =>
    rw [ht] at h
    cases h
    unfold source transaction?
    simp only [Database.rows, ht, bind, Except.bind, pure, Except.pure, find?_insertOrIgnore]
    by_cases hid : row.transaction.id = id
    · cases hfind : rows.find? (·.transaction.id = id) <;> simp [hid]
    · simp [hid]

/-- Where nothing can be written, nothing can be looked up either, and the other way round. -/
theorem addTransaction_eq_error {e : DatabaseFault} (h : db.addTransaction row = .error e) (id : TransactionId) :
    ∃ e, db.source id = .error e := by
  unfold addTransaction at h
  unfold source transaction?
  cases ht : db.transactions with
  | none => exact ⟨_, rfl⟩
  | some rows =>
    rw [ht] at h
    cases h

theorem readable_of_addTransaction (h : db.addTransaction row = .ok db') (id : TransactionId) :
    ∃ found, db.source id = .ok found := by
  unfold addTransaction at h
  unfold source transaction?
  cases ht : db.transactions with
  | none =>
    rw [ht] at h
    cases h
  | some rows => exact ⟨_, rfl⟩

/-- What could be looked up stays as it was, unless there was nothing. -/
structure Keeps (db db' : Database) : Prop where
  stored : ∀ id tx, db.source id = .ok (some tx) → db'.source id = .ok (some tx)
  unreadable : ∀ id e, db.source id = .error e → db'.source id = .error e

theorem Keeps.refl (db : Database) : db.Keeps db := ⟨fun _ _ h => h, fun _ _ h => h⟩

theorem keeps_addTransaction (h : db.addTransaction row = .ok db') : db.Keeps db' := by
  constructor
  · intro id tx htx
    rw [source_addTransaction h, htx, if_neg (by simp)]
  · intro id e he
    obtain ⟨found, hfound⟩ := readable_of_addTransaction h id
    cases he.symm.trans hfound

end Database

/-! ## One call -/

namespace Insertion

variable {db db' : Database} {now : String} {c c' : Insertion}

inductive Step (now : String) (db : Database) : Insertion → Database → Insertion → Prop
  | unreadable {tx e} : db.source tx.id = .error e → Step now db (.reading tx) db (.finished (.error .internal))
  | absent {tx} : db.source tx.id = .ok none → Step now db (.reading tx) db (.writing tx)
  | stored {tx} : db.source tx.id = .ok (some tx) → Step now db (.reading tx) db (.finished (.ok false))
  | differs {tx tx'} : db.source tx.id = .ok (some tx') → tx' ≠ tx →
      Step now db (.reading tx) db (.finished (.error (conflict tx.id)))
  | fails {tx e} : db.source tx.id = .error e → Step now db (.writing tx) db (.finished (.error .internal))
  | writes {tx db'} : db.addTransaction ⟨now, tx⟩ = .ok db' → Step now db (.writing tx) db' (.finished (.ok true))
  | rests {res} : Step now db (.finished res) db (.finished res)

theorem step_sound (now : String) (db : Database) (c : Insertion) : Step now db c (step now db c).1 (step now db c).2 := by
  cases c with
  | reading tx =>
    cases ht : db.transaction? tx.id with
    | error e =>
      simp only [step, ht]
      exact .unreadable (by rw [Database.source, ht])
    | ok found =>
      have hsource : db.source tx.id = .ok (found.map (·.transaction)) := by rw [Database.source, ht]
      cases found with
      | none =>
        simp only [step, ht]
        exact .absent hsource
      | some row =>
        simp only [step, ht]
        split
        · rename_i he
          exact .stored (he ▸ hsource)
        · rename_i hne
          exact .differs hsource hne
  | writing tx =>
    cases ha : db.addTransaction ⟨now, tx⟩ with
    | error e =>
      obtain ⟨e', he⟩ := Database.addTransaction_eq_error ha tx.id
      simp only [step, ha]
      exact .fails he
    | ok db' =>
      simp only [step, ha]
      exact .writes ha
  | finished res => exact .rests

theorem Step.keeps (h : Step now db c db' c') : db.Keeps db' := by
  cases h with
  | writes ha => exact Database.keeps_addTransaction ha
  | _ => exact .refl db

def Ahead : Insertion → Prop
  | .writing _ | .finished (.ok true) => True
  | _ => False

theorem Step.ahead (h : Step now db c db' c')
    (hc' : c'.Ahead) : c.Ahead ∨ ∃ tx, c = .reading tx ∧ db.source tx.id = .ok none := by
  cases h with
  | absent hsource => exact .inr ⟨_, rfl, hsource⟩
  | writes => exact .inl trivial
  | rests => exact .inl hc'
  | unreadable | stored | differs | fails => exact hc'.elim

end Insertion

/-! ## Several calls -/

structure Submissions where
  database : Database
  calls : List (Published × Insertion)

structure Turn where
  call : Nat
  now : String

namespace Submissions

def begin (db : Database) (txs : List Published) : Submissions := ⟨db, txs.map fun tx => (tx, .reading tx)⟩

def proceed (s : Submissions) (turn : Turn) : Submissions :=
  match s.calls[turn.call]? with
  | none => s
  | some (tx, c) =>
    let (database, c) := c.step turn.now s.database
    ⟨database, s.calls.set turn.call (tx, c)⟩

def run (s : Submissions) (schedule : List Turn) : Submissions := schedule.foldl proceed s

variable {s s' : Submissions} {tx : Published} {c c' : Insertion}

/-- A turn changes nothing if there is no such call, and is a step of the call otherwise. -/
theorem proceed_cases (s : Submissions) (turn : Turn) :
    s.proceed turn = s ∨ ∃ tx c db' c', s.calls[turn.call]? = some (tx, c) ∧ c.Step turn.now s.database db' c' ∧
      s.proceed turn = ⟨db', s.calls.set turn.call (tx, c')⟩ := by
  unfold proceed
  split
  · exact .inl rfl
  · rename_i tx c hc
    exact .inr ⟨tx, c, _, _, hc, Insertion.step_sound turn.now s.database c, rfl⟩

def Claimed (s : Submissions) (tx : Published) : Prop :=
  ∃ i : Nat, s.calls[i]? = some (tx, .finished (.ok true))

/-- What is known of a call. One that has answered `true` need not have written anything. -/
inductive Knows (s : Submissions) (tx : Published) : Insertion → Prop
  | reading : Knows s tx (.reading tx)
  | writing : (∀ tx', s.database.source tx.id = .ok (some tx') → s.Claimed tx') → Knows s tx (.writing tx)
  | stored : s.database.source tx.id = .ok (some tx) → Knows s tx (.finished (.ok false))
  | differs {tx'} : s.database.source tx.id = .ok (some tx') → tx' ≠ tx →
      Knows s tx (.finished (.error (Insertion.conflict tx.id)))
  | unreadable {e} : s.database.source tx.id = .error e → Knows s tx (.finished (.error .internal))
  | written {tx'} : s.database.source tx.id = .ok (some tx') → s.Claimed tx' → Knows s tx (.finished (.ok true))

def Known (s : Submissions) : Prop := ∀ (i : Nat) tx c, s.calls[i]? = some (tx, c) → s.Knows tx c

/-- What a turn leaves as it was, and where new rows come from. -/
structure Extends (s' s : Submissions) : Prop where
  keeps : s.database.Keeps s'.database
  claimed : ∀ tx, s.Claimed tx → s'.Claimed tx
  fresh : ∀ id tx, s'.database.source id = .ok (some tx) → s.database.source id = .ok (some tx) ∨ s'.Claimed tx

theorem Knows.mono (h : s.Knows tx c) (hs : s'.Extends s) : s'.Knows tx c := by
  cases h with
  | reading => exact .reading
  | writing hclaimed =>
    refine .writing fun tx' htx' => ?_
    rcases hs.fresh _ _ htx' with hold | hnew
    · exact hs.claimed tx' (hclaimed tx' hold)
    · exact hnew
  | stored hsource => exact .stored (hs.keeps.stored _ _ hsource)
  | differs hsource hne => exact .differs (hs.keeps.stored _ _ hsource) hne
  | unreadable hsource => exact .unreadable (hs.keeps.unreadable _ _ hsource)
  | written hsource hclaimed => exact .written (hs.keeps.stored _ _ hsource) (hs.claimed _ hclaimed)

theorem call_of_set {i j : Nat} {x y : Published × Insertion} (h : (s.calls.set i x)[j]? = some y) :
    (j = i ∧ y = x) ∨ (j ≠ i ∧ s.calls[j]? = some y) := by
  by_cases hj : j = i
  · subst hj
    rw [List.getElem?_set_self'] at h
    obtain ⟨_, -, he⟩ := Option.map_eq_some_iff.mp h
    exact .inl ⟨rfl, he.symm⟩
  · rw [List.getElem?_set_ne (Ne.symm hj)] at h
    exact .inr ⟨hj, h⟩

section
variable {i : Nat} {now : String} {db' : Database} (hi : s.calls[i]? = some (tx, c))
  (hstep : c.Step now s.database db' c')

include hi

theorem call_self : (s.calls.set i (tx, c'))[i]? = some (tx, c') :=
  List.getElem?_set_self (List.getElem?_eq_some_iff.mp hi).1

include hstep

theorem extends_step (hknows : s.Knows tx c) : Extends ⟨db', s.calls.set i (tx, c')⟩ s := by
  refine ⟨hstep.keeps, ?_, ?_⟩
  · rintro tx' ⟨j, hj⟩
    by_cases he : j = i
    · subst he
      cases hi.symm.trans hj
      cases hstep
      exact ⟨j, call_self hi⟩
    · exact ⟨j, (List.getElem?_set_ne (Ne.symm he)).trans hj⟩
  · intro id tx' htx'
    cases hstep with
    | writes ha =>
      rw [Database.source_addTransaction ha] at htx'
      split at htx'
      · cases htx'
        cases hknows
        exact .inr ⟨i, call_self hi⟩
      · exact .inl htx'
    | _ => exact .inl htx'

/-- A call that writes where something is stored by then answers `true` all the same. -/
theorem knows_step (hknows : s.Knows tx c) : Knows ⟨db', s.calls.set i (tx, c')⟩ tx c' := by
  have hextends := extends_step hi hstep hknows
  cases hstep with
  | unreadable hsource =>
    cases hknows
    exact .unreadable hsource
  | absent hsource =>
    cases hknows
    exact .writing fun tx' htx' => nomatch hsource.symm.trans htx'
  | stored hsource =>
    cases hknows
    exact .stored hsource
  | differs hsource hne =>
    cases hknows
    exact .differs hsource hne
  | fails hsource =>
    cases hknows
    exact .unreadable hsource
  | writes ha =>
    cases hknows with
    | writing hclaimed =>
      have hsource := Database.source_addTransaction ha tx.id
      obtain ⟨found, hfound⟩ := Database.readable_of_addTransaction ha tx.id
      cases found with
      | none =>
        rw [if_pos ⟨rfl, hfound⟩] at hsource
        exact .written hsource ⟨i, call_self hi⟩
      | some tx' => exact .written (hextends.keeps.stored _ _ hfound) (hextends.claimed tx' (hclaimed tx' hfound))
  | rests => exact hknows.mono hextends

end

theorem known_proceed (h : s.Known) (turn : Turn) : (s.proceed turn).Known := by
  rcases s.proceed_cases turn with hsame | ⟨tx, c, db', c', hi, hstep, hnew⟩
  · rw [hsame]
    exact h
  · have hknows := h _ _ _ hi
    rw [hnew]
    intro j tx' x hj
    rcases call_of_set hj with ⟨-, he⟩ | ⟨-, hold⟩
    · cases he
      exact knows_step hi hstep hknows
    · exact (h _ _ _ hold).mono (extends_step hi hstep hknows)

theorem call_begin {db : Database} {txs : List Published} {i : Nat} (h : (begin db txs).calls[i]? = some (tx, c)) :
    c = .reading tx := by
  have h' : (txs.map fun tx => (tx, Insertion.reading tx))[i]? = some (tx, c) := h
  rw [List.getElem?_map] at h'
  obtain ⟨_, -, he⟩ := Option.map_eq_some_iff.mp h'
  cases he
  rfl

/-- Whatever the schedule: `false` and a conflict are told truly of what is stored, and `true`
    of an id under which some call has written. -/
theorem knows_run (db : Database) (txs : List Published) (schedule : List Turn) :
    ((begin db txs).run schedule).Known := by
  have hrun : ∀ (schedule : List Turn) (s : Submissions), s.Known → (s.run schedule).Known := by
    intro schedule
    induction schedule with
    | nil => exact fun s h => h
    | cons turn rest ih => exact fun s h => ih _ (known_proceed h turn)
  refine hrun schedule _ fun i tx c hc => ?_
  rw [call_begin hc]
  exact .reading

/-! ## Calls that do not overlap -/

/-- The turn is a look at an id under which another call is about to write. -/
def overlaps (s : Submissions) (turn : Turn) : Bool :=
  match s.calls[turn.call]? with
  | some (_, .reading tx) => s.calls.any fun call =>
      match call.2 with
      | .writing tx' => tx'.id = tx.id
      | _ => false
  | _ => false

/-- No call looks at an id between the look and the write of another one. -/
def serial (s : Submissions) : List Turn → Bool
  | [] => true
  | turn :: rest => !s.overlaps turn && (s.proceed turn).serial rest

theorem id_ne_of_not_overlaps {turn : Turn} (h : s.overlaps turn = false) {tx tx' tx₀ tx₁ : Published} {i : Nat}
    (hturn : s.calls[turn.call]? = some (tx₀, .reading tx)) (hi : s.calls[i]? = some (tx₁, .writing tx')) :
    tx'.id ≠ tx.id := by
  unfold overlaps at h
  rw [hturn] at h
  intro hid
  have hmem := List.any_eq_false.mp h _ (List.mem_of_getElem? hi)
  simp [hid] at hmem

/-- One call for an id at most is ahead of all others. Nothing is stored before it has written,
    and afterwards that is what it has submitted. -/
structure InOrder (s : Submissions) : Prop where
  known : s.Known
  free : ∀ (i : Nat) tx tx', s.calls[i]? = some (tx, .writing tx') → s.database.source tx.id = .ok none
  accepted : ∀ (i : Nat) tx, s.calls[i]? = some (tx, .finished (.ok true)) → s.database.source tx.id = .ok (some tx)
  single : ∀ (i j : Nat) tx tx' c c', s.calls[i]? = some (tx, c) → s.calls[j]? = some (tx', c') → c.Ahead → c'.Ahead →
    tx.id = tx'.id → i = j

/-- A call that gets ahead by a turn is the only one for its id. -/
theorem InOrder.single_turn (h : s.InOrder) {turn : Turn} (hturn : s.overlaps turn = false) {db' : Database}
    (hi : s.calls[turn.call]? = some (tx, c)) (hstep : c.Step turn.now s.database db' c') (hc' : c'.Ahead) {j : Nat}
    {tx' : Published} {x : Insertion} (hj : s.calls[j]? = some (tx', x)) (hx : x.Ahead) (hid : tx.id = tx'.id) :
    turn.call = j := by
  rcases hstep.ahead hc' with hc | ⟨tx₀, rfl, hsource⟩
  · exact h.single _ _ _ _ _ _ hi hj hc hx hid
  · cases h.known _ _ _ hi
    have hknows := h.known _ _ _ hj
    cases x with
    | reading => exact hx.elim
    | writing tx₁ =>
      cases hknows
      exact absurd hid.symm (id_ne_of_not_overlaps hturn hi hj)
    | finished res =>
      obtain rfl : res = .ok true := by
        unfold Insertion.Ahead at hx
        split at hx
        · contradiction
        · rename_i he
          cases he
          rfl
        · exact hx.elim
      have hstored := h.accepted _ _ hj
      rw [← hid, hsource] at hstored
      cases hstored

theorem inOrder_proceed (h : s.InOrder) {turn : Turn} (hturn : s.overlaps turn = false) : (s.proceed turn).InOrder := by
  have hknown := known_proceed h.known turn
  rcases s.proceed_cases turn with hsame | ⟨tx, c, db', c', hi, hstep, hnew⟩
  · rw [hsame]
    exact h
  · rw [hnew] at hknown ⊢
    refine ⟨hknown, ?_, ?_, ?_⟩
    · intro j tx' tx₁ hj
      rcases call_of_set hj with ⟨rfl, he⟩ | ⟨hne, hold⟩
      · cases he
        cases hstep with
        | absent hsource =>
          cases h.known _ _ _ hi
          exact hsource
      · have hfree := h.free _ _ _ hold
        cases hstep with
        | writes ha =>
          cases h.known _ _ _ hi
          have hid : tx.id ≠ tx'.id := fun hid => hne (h.single _ _ _ _ _ _ hi hold trivial trivial hid).symm
          show db'.source tx'.id = _
          rw [Database.source_addTransaction ha, if_neg fun hboth => hid hboth.1, hfree]
        | _ => exact hfree
    · intro j tx' hj
      rcases call_of_set hj with ⟨rfl, he⟩ | ⟨hne, hold⟩
      · cases he
        cases hstep with
        | writes ha =>
          cases h.known _ _ _ hi
          exact (Database.source_addTransaction ha tx.id).trans (if_pos ⟨rfl, h.free _ _ _ hi⟩)
        | rests => exact h.accepted _ _ hi
      · exact hstep.keeps.stored _ _ (h.accepted _ _ hold)
    · intro j k tx₁ tx₂ x y hj hk hx hy hid
      rcases call_of_set hj with ⟨rfl, he⟩ | ⟨hne, hold⟩ <;> rcases call_of_set hk with ⟨rfl, he'⟩ | ⟨hne', hold'⟩
      · rfl
      · cases he
        exact h.single_turn hturn hi hstep hx hold' hy hid
      · cases he'
        exact (h.single_turn hturn hi hstep hy hold hx hid.symm).symm
      · exact h.single _ _ _ _ _ _ hold hold' hx hy hid

theorem inOrder_run {schedule : List Turn} (h : s.InOrder) (hserial : s.serial schedule = true) :
    (s.run schedule).InOrder := by
  induction schedule generalizing s with
  | nil => exact h
  | cons turn rest ih =>
    obtain ⟨hturn, hrest⟩ := Bool.and_eq_true_iff.mp hserial
    exact ih (inOrder_proceed h (by simpa using hturn)) hrest

/-- If no call looks at an id between the look and the write of another one: at most one call
    for an id answers `true`; an answer without an error means that exactly what was submitted
    is stored under its id; and a call that has submitted anything else answers with a
    conflict. -/
theorem serial_submissions (db : Database) (txs : List Published) {schedule : List Turn}
    (hserial : (begin db txs).serial schedule = true) :
    let s := (begin db txs).run schedule
    (∀ (i j : Nat) tx tx', s.calls[i]? = some (tx, .finished (.ok true)) →
      s.calls[j]? = some (tx', .finished (.ok true)) → tx.id = tx'.id → i = j) ∧
    (∀ (i : Nat) tx new, s.calls[i]? = some (tx, .finished (.ok new)) → s.database.source tx.id = .ok (some tx)) ∧
    ∀ (i : Nat) tx tx' res, s.calls[i]? = some (tx, .finished res) → s.database.source tx.id = .ok (some tx') →
      tx ≠ tx' → res = .error (Insertion.conflict tx.id) := by
  intro s
  have hbegin : (begin db txs).InOrder := by
    refine ⟨knows_run db txs [], ?_, ?_, ?_⟩
    · intro i tx tx' hi
      cases call_begin hi
    · intro i tx hi
      cases call_begin hi
    · intro i j tx tx' c c' hi _ hc
      rw [call_begin hi] at hc
      exact hc.elim
  have hs : s.InOrder := inOrder_run hbegin hserial
  have hstored : ∀ (i : Nat) tx new, s.calls[i]? = some (tx, .finished (.ok new)) →
      s.database.source tx.id = .ok (some tx) := by
    intro i tx new hi
    cases new with
    | true => exact hs.accepted i tx hi
    | false =>
      cases hs.known _ _ _ hi with
      | stored hsource => exact hsource
  refine ⟨fun i j tx tx' hi hj hid => hs.single _ _ _ _ _ _ hi hj trivial trivial hid, hstored, ?_⟩
  intro i tx tx' res hi hsource hne
  cases hs.known _ _ _ hi with
  | differs => rfl
  | stored hsame | written hsame =>
    have hown := hstored _ _ _ hi
    cases hsource.symm.trans hown
    exact absurd rfl hne
  | unreadable herror => cases hsource.symm.trans herror

/-! ## Two transactions under one id -/

def withProof (proof : Bytes) : Published := ⟨.zero, proof, .standard, ⟨[]⟩⟩

/-- Both calls look before either writes: both are told that their transaction is stored, and
    one of them is not. -/
theorem race_hides_conflict :
    let s := (begin .empty [withProof [], withProof [0]]).run [⟨0, ""⟩, ⟨1, ""⟩, ⟨0, ""⟩, ⟨1, ""⟩]
    s.calls = [(withProof [], .finished (.ok true)), (withProof [0], .finished (.ok true))] ∧
    (withProof [0]).id = (withProof []).id ∧ withProof [0] ≠ withProof [] ∧
    s.database.source (withProof [0]).id = .ok (some (withProof [])) := by
  exact ⟨rfl, rfl, by decide, rfl⟩

theorem turns_serial :
    (begin .empty [withProof [], withProof [0]]).serial [⟨0, ""⟩, ⟨0, ""⟩, ⟨1, ""⟩] = true ∧
    let s := (begin .empty [withProof [], withProof [0]]).run [⟨0, ""⟩, ⟨0, ""⟩, ⟨1, ""⟩]
    s.calls[0]? = some (withProof [], .finished (.ok true)) ∧
    s.database.source (withProof []).id = .ok (some (withProof [])) ∧
    s.calls[1]? = some (withProof [0], .finished (.error (Insertion.conflict (withProof [0]).id))) := by
  have hserial : (begin .empty [withProof [], withProof [0]]).serial [⟨0, ""⟩, ⟨0, ""⟩, ⟨1, ""⟩] = true := rfl
  obtain ⟨-, hstored, -⟩ := serial_submissions .empty [withProof [], withProof [0]] hserial
  exact ⟨hserial, rfl, hstored 0 (withProof []) true rfl, rfl⟩

end Submissions

end VeiledLedger.Node
