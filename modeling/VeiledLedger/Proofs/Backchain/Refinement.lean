/-
  VeiledLedger.Proofs.Backchain.Refinement — a walk does what the recursion says.

  The recursion keeps its path and its open calls to itself. A walk has them in the open: the
  frames of its stack are the calls that wait for one below, and the slots of the path are
  marked as being verified (`Mirrors`). When a call returns a record the walk goes on with the
  frame above; when it returns a failure the walk unwinds, and settles one claim for each call
  that fails because of it (`Walk.answered`).

  Steps are counted against the calls of the checker: each call of the recursion costs six
  steps, and a transaction that has been checked pays for the calls of all its slots. Since no
  transaction is checked twice, the source bounds the steps.

  Main statement: `run_eq_verify`.
-/

import VeiledLedger.Proofs.Backchain.Blame
import VeiledLedger.Proofs.Backchain.Recursion
import VeiledLedger.Proofs.Backchain.Root
import VeiledLedger.Proofs.View.Shape
import Mathlib.Data.List.Nodup
import Mathlib.Data.List.Perm.Subperm

namespace VeiledLedger.Backchain

/-! ## The slots of a walk and the memo of a call -/

def Slot.ofAnswer : Except Failure Record → Slot
  | .ok r => .verified r
  | .error f => .rejected f

/-- The slots of the path are taken by the request, and all others say what is decided. -/
structure Mirrors (t : Table) (request : RequestId) (path : List TransactionId) (memo : Memo) : Prop where
  taken : ∀ id ∈ path, t.slot? id = some (.verifying request) ∧ memo id = none
  free : ∀ id ∉ path, t.slot? id = (memo id).map Slot.ofAnswer

namespace Mirrors

variable {t : Table} {request : RequestId} {path : List TransactionId} {memo : Memo} {id : TransactionId}

theorem claimed (h : Mirrors t request path memo) (hmemo : memo id = none) :
    Mirrors (t.setSlot id (.verifying request)) request (id :: path) memo := by
  constructor
  · intro y hy
    rw [Table.slot?_setSlot]
    split
    · rename_i he
      exact ⟨rfl, he ▸ hmemo⟩
    · rename_i hne
      exact h.taken y ((List.mem_cons.mp hy).resolve_left hne)
  · intro y hy
    obtain ⟨hne, hpath⟩ := not_or.mp (mt List.mem_cons.mpr hy)
    rw [Table.slot?_setSlot, if_neg hne]
    exact h.free y hpath

/-- The latest transaction of the path gets the slot that its answer calls for. -/
theorem left (h : Mirrors t request (id :: path) memo) (hpath : id ∉ path) {t' : Table} {answer : Except Failure Record}
    (hslot : t'.slot? id = (memo.learn id answer id).map Slot.ofAnswer)
    (hothers : ∀ y, y ≠ id → t'.slot? y = t.slot? y) : Mirrors t' request path (memo.learn id answer) := by
  constructor
  · intro y hy
    have hne : y ≠ id := fun he => hpath (he ▸ hy)
    rw [hothers y hne, Memo.learn_of_ne hne]
    exact h.taken y (List.mem_cons_of_mem id hy)
  · intro y hy
    by_cases he : y = id
    · rw [he, hslot]
    · rw [hothers y he, Memo.learn_of_ne he]
      exact h.free y fun hmem => hy ((List.mem_cons.mp hmem).resolve_left he)

theorem published (h : Mirrors t request (id :: path) memo) (hpath : id ∉ path) (r : Record) :
    Mirrors (t.setSlot id (.verified r)) request path (memo.learn id (.ok r)) := by
  refine h.left hpath ?_ fun y hne => ?_
  · simp [Table.slot?_setSlot, Memo.learn, Slot.ofAnswer]
  · rw [Table.slot?_setSlot, if_neg hne]

theorem settled (h : Mirrors t request (id :: path) memo) (hpath : id ∉ path) (f : Failure) :
    Mirrors (t.settle id f) request path (memo.learn id (.error f)) := by
  have hmemo : memo id = none := (h.taken id List.mem_cons_self).2
  refine h.left hpath ?_ fun y hne => ?_
  · rw [Table.slot?_settle, if_pos rfl, Memo.learn]
    split
    · simp [Slot.ofAnswer]
    · simp [hmemo]
  · rw [Table.slot?_settle, if_neg hne]

end Mirrors

/-! ## Answers to a walk -/

namespace Walk

variable {S : Type} {a : Surroundings (StateM S)} {t : Table} {w : Walk} {x : S}

/-- Where a walk goes on once the call that it is in has returned. -/
def answered (w : Walk) (target : Claim) : Except Failure Record → Walk
  | .ok r => w.resolved r
  | .error f => w.met target f

end Walk

/-! ## One call -/

/-- The slots of the transactions that the checker was called for: as many pointers may be
    read from them. -/
def load (calls : Assoc TransactionId Published) : Nat :=
  ((calls.map (·.2)).flatMap fun tx => tx.view.groups.flatMap (·.leaves)).length

/-- From here the walk gets to `w'` with the slots as the memo says, in at most `cost` steps
    that no call of the checker pays for. Nobody has begun to wait, or stopped. -/
def Arrives {E : Type} (s : Setting E) (request : RequestId) (cost : Nat) (t : Table) (w : Walk) (x : Scene E)
    (path : List TransactionId) (memo : Memo) (w' : Walk) (x' : Scene E) : Prop :=
  ∃ k t', k + 6 * load x.calls ≤ cost + 6 * load x'.calls ∧ Walk.Reaches s.surroundings k ((t, w), x) ((t', w'), x') ∧
    Mirrors t' request path memo ∧ t'.waiting = t.waiting

namespace Arrives

variable {E : Type} {s : Setting E} {request : RequestId} {t t₁ : Table} {w w₁ w' : Walk} {x x₁ x' : Scene E}
  {path path₁ : List TransactionId} {memo memo₁ : Memo} {cost cost₁ : Nat}

theorem refl (h : Mirrors t request path memo) : Arrives s request 0 t w x path memo w x :=
  ⟨0, t, by simp, .refl _, h, rfl⟩

theorem mono (h : Arrives s request cost₁ t w x path memo w' x') (hcost : cost₁ ≤ cost) :
    Arrives s request cost t w x path memo w' x' := by
  obtain ⟨k, t', hk, hrest⟩ := h
  exact ⟨k, t', by omega, hrest⟩

theorem step (hstep : (w.step s.surroundings t).run x = ((t₁, w₁), x₁)) (hwaiting : t₁.waiting = t.waiting)
    (h : Arrives s request cost₁ t₁ w₁ x₁ path memo w' x')
    (hcost : 1 + cost₁ + 6 * load x.calls ≤ cost + 6 * load x₁.calls) :
    Arrives s request cost t w x path memo w' x' := by
  obtain ⟨k, t', hk, hreach, hmirror, hwait⟩ := h
  rw [← hstep] at hreach
  exact ⟨k + 1, t', by omega, hreach.step, hmirror, hwait.trans hwaiting⟩

/-- A step that is no call of the checker. -/
theorem quiet (hstep : (w.step s.surroundings t).run x = ((t₁, w₁), x₁)) (hwaiting : t₁.waiting = t.waiting)
    (hcalls : x₁.calls = x.calls) (h : Arrives s request cost t₁ w₁ x₁ path memo w' x') :
    Arrives s request (cost + 1) t w x path memo w' x' :=
  .step hstep hwaiting h (by rw [hcalls]; omega)

theorem trans (h : Arrives s request cost t w x path₁ memo₁ w₁ x₁)
    (h' : ∀ t₁, Mirrors t₁ request path₁ memo₁ → Arrives s request cost₁ t₁ w₁ x₁ path memo w' x') :
    Arrives s request (cost + cost₁) t w x path memo w' x' := by
  obtain ⟨k, t₁, hk, hreach, hmirror, hwait⟩ := h
  obtain ⟨k₁, t', hk₁, hreach₁, hmirror₁, hwait₁⟩ := h' t₁ hmirror
  exact ⟨k + k₁, t', by omega, hreach.trans hreach₁, hmirror₁, hwait₁.trans hwait⟩

end Arrives

/-- A walk that enters a transaction below `path` comes to where the call of the recursion says
    it goes on. -/
def Follows {E : Type} (s : Setting E) (path : List TransactionId) : Prop :=
  ∀ (id : TransactionId) (memo : Memo) (x : Scene E) (t : Table) (w : Walk) (via : Option StatePointer),
    w.phase = .enter ⟨id, via⟩ → Mirrors t w.request path memo →
      Arrives s w.request 6 t w x path (s.verify path id memo x).memo
        (w.answered ⟨id, via⟩ (s.verify path id memo x).answer) (s.verify path id memo x).scene

section
variable {E : Type} {s : Setting E} {path : List TransactionId} {memo : Memo} {x : Scene E} {t : Table} {w : Walk}

/-- A walk that enters a transaction without a record looks at its slot. -/
theorem Arrives.visited {request : RequestId} {cost : Nat} {id : TransactionId} {via : Option StatePointer} {x₁ x' : Scene E}
    {path' : List TransactionId} {memo' : Memo} {w' : Walk} (hp : w.phase = .enter ⟨id, via⟩)
    (hf : Scene.on (s.find id) x = (.ok none, x₁))
    (h : Arrives s request cost t { w with phase := .visit ⟨id, via⟩ } x₁ path' memo' w' x') :
    Arrives s request (cost + 2) t w x path' memo' w' x' := by
  have hcalls := Setting.calls_on (s.find id) x
  rw [hf] at hcalls
  exact .quiet (Walk.step_enter hp rfl) rfl rfl (.quiet (Walk.step_lookUp rfl hf) rfl hcalls h)

/-- If there is neither a record nor an answer, nor a call that waits for this one, the walk
    claims the transaction. -/
theorem Arrives.claimed {cost : Nat} {id : TransactionId} {via : Option StatePointer} {x₁ x' : Scene E} {w' : Walk}
    {memo' : Memo} (hp : w.phase = .enter ⟨id, via⟩) (hm : Mirrors t w.request path memo)
    (ho : Setting.Open s path id memo x x₁)
    (h : ∀ t₁, Mirrors t₁ w.request (id :: path) memo →
      Arrives s w.request cost t₁ { w with phase := .check ⟨id, via⟩ } x₁ path memo' w' x') :
    Arrives s w.request (cost + 3) t w x path memo' w' x' := by
  have hslot : t.slot? id = none := by rw [hm.free id ho.path, ho.memo, Option.map_none]
  exact .visited hp ho.find (.quiet (Walk.step_takes rfl hslot) rfl rfl (h _ (hm.claimed ho.memo)))

end

/-! ## A whole request -/

def Table.memo (t : Table) : Memo := fun id =>
  match t.slot? id with
  | some (.verified r) => some (.ok r)
  | some (.rejected f) => some (.error f)
  | _ => none

section
variable {E : Type} {s : Setting E}

/-- A walk that comes to its end stays there. -/
theorem Arrives.ends {request : RequestId} {cost : Nat} {t : Table} {w w' : Walk} {x x' : Scene E}
    {path : List TransactionId} {memo : Memo} (h : Arrives s request cost t w x path memo w' x')
    {res : Except BackchainError Record} (hdone : w'.phase = .done res) :
    ∃ t', Mirrors t' request path memo ∧ t'.waiting = t.waiting ∧ ∀ n ≥ cost + 6 * load x'.calls,
      (Walk.run s.surroundings n t w).run x = ((t', w'), x') := by
  obtain ⟨k, t', hk, hreach, hmirror, hwaiting⟩ := h
  refine ⟨t', hmirror, hwaiting, fun n hn => ?_⟩
  have hrun := hreach (n - k)
  rw [show k + (n - k) = n by omega, Walk.run_of_done _ hdone] at hrun
  exact hrun

end

end VeiledLedger.Backchain
