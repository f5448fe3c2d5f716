/-
  VeiledLedger.Ledger.Record — records of verified transactions, and a store for them.

  A record is written once: the first one stored under an id stays, storing the same record
  again is no error, and another record under that id is a conflict.

  Main statements: `get?_put` (what a successful store leaves under each id) and
  `put_eq_error` (exactly the conflicts fail).
-/

import VeiledLedger.Component

namespace VeiledLedger

/-- The outcome of a verification of a transaction and its whole backchain. -/
structure Record where
  id : TransactionId
  /-- The id as it was rebuilt from the view. -/
  root : Digest
  groupRoots : List Digest
  proofValid : Bool
  deriving DecidableEq

inductive StoreError where
  | conflict (id : TransactionId)
  | backend (reason : String)
  deriving DecidableEq

namespace StoreError

def message : StoreError → String
  | conflict id => "a different record for " ++ id.hex ++ " already exists"
  | backend reason => "record store failure: " ++ reason

/-- A store that failed may work again; a conflict stays. -/
def retryable : StoreError → Bool
  | conflict _ => false
  | backend _ => true

end StoreError

/-- The records kept in memory, in the order they were stored. -/
structure RecordStore where
  records : List Record
  deriving DecidableEq

namespace RecordStore

def empty : RecordStore := ⟨[]⟩

def size (s : RecordStore) : Nat := s.records.length

def get? (s : RecordStore) (id : TransactionId) : Option Record := s.records.find? (·.id = id)

def put (s : RecordStore) (r : Record) : Except StoreError RecordStore :=
  match s.get? r.id with
  | none => .ok ⟨s.records ++ [r]⟩
  | some stored => if stored = r then .ok s else .error (.conflict r.id)

theorem get?_put {s s' : RecordStore} {r : Record} (h : s.put r = .ok s') (id : TransactionId) :
    s'.get? id = if id = r.id then some r else s.get? id := by
  unfold put at h
  split at h
  · rename_i hnone
    cases h
    simp only [get?, List.find?_append, List.find?_cons, List.find?_nil]
    by_cases hid : id = r.id
    · subst hid
      simp only [get?] at hnone
      simp [hnone]
    · have : ¬r.id = id := fun e => hid e.symm
      simp [hid, this]
  · rename_i stored hsome
    split at h
    · rename_i heq
      cases h
      subst heq
      by_cases hid : id = stored.id
      · subst hid; simp [hsome]
      · simp [hid]
    · cases h

theorem put_eq_error {s : RecordStore} {r : Record} {e : StoreError} :
    s.put r = .error e ↔ e = .conflict r.id ∧ ∃ stored, s.get? r.id = some stored ∧ stored ≠ r := by
  unfold put
  split
  · rename_i hnone; simp [hnone]
  · rename_i stored hsome
    split
    · rename_i heq; simp [hsome, heq]
    · rename_i hne
      simp only [Except.error.injEq, hsome, Option.some.injEq, exists_eq_left', hne, ne_eq, not_false_eq_true,
        and_true]
      exact eq_comm

/-! ## What a store holds -/

def Holds (σ : RecordStore) (id : TransactionId) : Prop := ∃ r, σ.get? id = some r

/-- Every record of `σ` is still there in `σ'`. -/
def Extends (σ' σ : RecordStore) : Prop := ∀ id r, σ.get? id = some r → σ'.get? id = some r

variable {σ σ' : RecordStore} {r : Record}

theorem Extends.refl (σ : RecordStore) : σ.Extends σ := fun _ _ h => h

theorem Extends.holds (h : σ'.Extends σ) {id : TransactionId} (hid : σ.Holds id) : σ'.Holds id := by
  obtain ⟨r, hr⟩ := hid
  exact ⟨r, h id r hr⟩

theorem id_of_get? {id : TransactionId} (h : σ.get? id = some r) : r.id = id := by
  simpa using List.find?_some h

theorem mem_of_get? {id : TransactionId} (h : σ.get? id = some r) : r ∈ σ.records := List.mem_of_find?_eq_some h

theorem get?_put_self (h : σ.put r = .ok σ') : σ'.get? r.id = some r := by
  rw [get?_put h, if_pos rfl]

theorem extends_put (h : σ.put r = .ok σ') : σ'.Extends σ := by
  intro id x hx
  rw [get?_put h]
  split
  · rename_i hid
    subst hid
    unfold put at h
    rw [hx] at h
    dsimp only at h
    split at h
    · rename_i heq; rw [heq]
    · cases h
  · exact hx

theorem mem_put (h : σ.put r = .ok σ') {x : Record} (hx : x ∈ σ'.records) : x ∈ σ.records ∨ x = r := by
  unfold put at h
  split at h
  · cases h
    rcases List.mem_append.mp hx with hx | hx
    · exact .inl hx
    · exact .inr (List.mem_singleton.mp hx)
  · split at h
    · cases h; exact .inl hx
    · cases h

end RecordStore

end VeiledLedger
