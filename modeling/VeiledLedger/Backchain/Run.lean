/-
  VeiledLedger.Backchain.Run — walks in their surroundings.

  `Surroundings` answers the questions of a walk, in any monad: a rehearsal counts the calls, a
  node reads its database. `step` does one step of one walk, and `run` follows a walk on its
  own to its end.
-/

import VeiledLedger.Backchain.Walk

namespace VeiledLedger.Backchain

/-- What a walk finds outside of it. -/
structure Surroundings (m : Type → Type) where
  /-- Why the request has to stop, if it has to. -/
  stopped : m (Option BackendError)
  find : TransactionId → m (Except StoreError (Option Record))
  /-- The record and the pointers of a transaction that passes its check. -/
  check : TransactionId → m (Except CheckError (Record × List StatePointer))
  store : Record → m (Except StoreError Unit)

namespace Walk

variable {m : Type → Type} [Monad m]

def step (s : Surroundings m) (t : Table) (w : Walk) : m (Table × Walk) := do
  match w.phase with
  | .enter target => return (t, w.entered target (← s.stopped))
  | .lookUp target => return (t, w.lookedUp target (← s.find target.id))
  | .visit target => return w.visit t target
  | .blocked target => return w.woken t target (← s.stopped)
  | .check claim => return (t, w.checked claim (← s.check claim.id))
  | .judge claim e => return (t, w.judged claim e (← s.stopped))
  | .store f => return (t, w.stored f (← s.store f.record))
  | .publish f => return w.publish t f
  | .unwind claims f => return w.unwind t claims f
  | .done _ => return (t, w)

/-- At most `fuel` steps. -/
def run (s : Surroundings m) : (fuel : Nat) → Table → Walk → m (Table × Walk)
  | 0, t, w => return (t, w)
  | fuel + 1, t, w =>
    match w.phase with
    | .done _ => return (t, w)
    | _ => do
      let (t, w) ← w.step s t
      run s fuel t w

theorem run_of_done (s : Surroundings m) {t : Table} {w : Walk} {res : Except BackchainError Record}
    (hp : w.phase = .done res) (n : Nat) : run s n t w = pure (t, w) := by
  cases n with
  | zero => rfl
  | succ n => rw [run, hp]

theorem run_succ [LawfulMonad m] (s : Surroundings m) (n : Nat) (t : Table) (w : Walk) :
    run s (n + 1) t w = w.step s t >>= fun x => run s n x.1 x.2 := by
  cases hp : w.phase with
  | done res =>
    have hrests : w.step s t = pure (t, w) := by rw [step, hp]
    rw [run_of_done s hp, hrests, pure_bind, run_of_done s hp]
  | _ => rw [run, hp]

end Walk

/-- The number of steps in which a walk that is not disturbed comes to its end, if its sources
    hold `txs`: each transaction is entered once for every slot that may hold a pointer to it,
    and no entering takes more than ten steps. -/
def stepBound (txs : List Published) : Nat :=
  10 * (2 + txs.length + (txs.flatMap fun tx => tx.view.groups.flatMap (·.leaves)).length)

/-- The requests of one verifier so far, and what they left behind. -/
structure Verifier where
  table : Table
  requests : Nat

namespace Verifier

def fresh : Verifier := ⟨.empty, 0⟩

/-- The walk of the next request. -/
def request (v : Verifier) (id : TransactionId) : Verifier × Walk :=
  ({ v with requests := v.requests + 1 }, Walk.start v.requests id)

/-- What is known of a transaction; the store is asked only about one without a slot. -/
def status {m : Type → Type} [Monad m] (find : TransactionId → m (Except StoreError (Option Record)))
    (v : Verifier) (id : TransactionId) : m (Except StoreError Status) := do
  match v.table.slot? id with
  | some s => return .ok (.ofSlot s)
  | none => return (← find id).map .ofStored

end Verifier

end VeiledLedger.Backchain
