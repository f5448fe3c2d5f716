/-
  VeiledLedger.Proofs.Outcome — when a chain of steps that may fail succeeds.

  A chain succeeds exactly if each of its steps does, and the renaming of an error makes no
  difference to that. Nor does it matter for a list how its items are counted on the way. A
  list that is worked off fails with what its first bad member gives, and nothing behind that
  member is looked at.
-/

import Mathlib.Data.List.Forall2

namespace VeiledLedger

/-- The first member of a list that has the property, and its place. -/
def FirstAt {α : Type} (P : α → Prop) (l : List α) (i : Nat) (a : α) : Prop :=
  l[i]? = some a ∧ P a ∧ ∀ j < i, ∀ b, l[j]? = some b → ¬P b

theorem not_firstAt_nil {α : Type} {P : α → Prop} {i : Nat} {a : α} : ¬FirstAt P [] i a :=
  fun h => (by cases h.1)

theorem firstAt_cons {α : Type} {P : α → Prop} {x : α} {l : List α} {i : Nat} {a : α} :
    FirstAt P (x :: l) i a ↔ P x ∧ i = 0 ∧ a = x ∨ ¬P x ∧ ∃ k, i = k + 1 ∧ FirstAt P l k a := by
  constructor
  · rintro ⟨hget, ha, hbefore⟩
    cases i with
    | zero =>
      cases hget
      exact .inl ⟨ha, rfl, rfl⟩
    | succ k =>
      refine .inr ⟨hbefore 0 (Nat.succ_pos k) x rfl, k, rfl, hget, ha, fun j hj b hb => ?_⟩
      exact hbefore (j + 1) (Nat.succ_lt_succ hj) b hb
  · rintro (⟨hx, rfl, rfl⟩ | ⟨hx, k, rfl, hget, ha, hbefore⟩)
    · exact ⟨rfl, hx, fun j hj => absurd hj (Nat.not_lt_zero j)⟩
    · refine ⟨hget, ha, fun j hj b hb => ?_⟩
      cases j with
      | zero =>
        cases hb
        exact hx
      | succ j => exact hbefore j (Nat.lt_of_succ_lt_succ hj) b hb

namespace Except

variable {ε ε' α β γ : Type}

theorem bind_eq_ok {x : Except ε α} {f : α → Except ε β} {b : β} :
    (x >>= f) = .ok b ↔ ∃ a, x = .ok a ∧ f a = .ok b := by
  cases x <;> simp [bind, Except.bind]

theorem both_eq_ok {x : Except ε α} {y : Except ε β} {f : α → β → γ} {c : γ} :
    (do let a ← x; let b ← y; .ok (f a b)) = .ok c ↔ ∃ a b, x = .ok a ∧ y = .ok b ∧ c = f a b := by
  simp only [bind_eq_ok, Except.ok.injEq]
  constructor
  · rintro ⟨a, ha, b, hb, rfl⟩
    exact ⟨a, b, ha, hb, rfl⟩
  · rintro ⟨a, b, ha, hb, rfl⟩
    exact ⟨a, ha, b, hb, rfl⟩

theorem map_eq_ok {x : Except ε α} {f : α → β} {b : β} : x.map f = .ok b ↔ ∃ a, x = .ok a ∧ f a = b := by
  cases x <;> simp [Except.map]

theorem bind_eq_error {x : Except ε α} {f : α → Except ε β} {e : ε} :
    (x >>= f) = .error e ↔ x = .error e ∨ ∃ a, x = .ok a ∧ f a = .error e := by
  cases x <;> simp [bind, Except.bind]

theorem map_eq_error {x : Except ε α} {f : α → β} {e : ε} : x.map f = .error e ↔ x = .error e := by
  cases x <;> simp [Except.map]

theorem mapError_eq_ok {x : Except ε α} {f : ε → ε'} {a : α} : x.mapError f = .ok a ↔ x = .ok a := by
  cases x with
  | ok b =>
    show Except.ok b = .ok a ↔ _
    rw [Except.ok.injEq, Except.ok.injEq]
  | error e => exact ⟨fun h => (by cases h), fun h => (by cases h)⟩

theorem mapError_eq_error {x : Except ε α} {f : ε → ε'} {e : ε'} :
    x.mapError f = .error e ↔ ∃ e', x = .error e' ∧ f e' = e := by
  cases x <;> simp [Except.mapError]

def error? : Except ε α → Option ε
  | .ok _ => none
  | .error e => some e

theorem error?_eq_some {x : Except ε α} {e : ε} : error? x = some e ↔ x = .error e := by
  cases x <;> simp [error?]

theorem error?_eq_none {x : Except ε α} : error? x = none ↔ ∃ a, x = .ok a := by
  cases x <;> simp [error?]

theorem error?_map (x : Except ε α) (f : α → β) : error? (x.map f) = error? x := by
  cases x <;> rfl

theorem error?_mapError (x : Except ε α) (f : ε → ε') : error? (x.mapError f) = (error? x).map f := by
  cases x <;> rfl

/-- If the second step fails alike whatever it is given, the first error of a chain is that of the
    first step or else that of the second. -/
theorem error?_bind {x : Except ε α} {f : α → Except ε β} {o : Option ε} (h : ∀ a, x = .ok a → error? (f a) = o) :
    error? (x >>= f) = (error? x).or o := by
  cases x with
  | ok a => exact h a rfl
  | error e => rfl

/-- A last step that never fails adds no error. -/
theorem error?_bind_ok (x : Except ε α) (f : α → β) : error? (do .ok (f (← x))) = error? x := by
  cases x <;> rfl

theorem exists_error_iff {x : Except ε α} : (∃ e, x = .error e) ↔ ¬∃ a, x = .ok a := by
  cases x <;> simp

/-- A list that is worked off item by item succeeds exactly if each item does. -/
theorem forall₂_of_steps {R : α → β → Prop} (work : Nat → List α → Except ε (List β))
    (hnil : ∀ i, work i [] = .ok [])
    (hcons : ∀ i x xs ys, work i (x :: xs) = .ok ys ↔ ∃ y rest, R x y ∧ work (i + 1) xs = .ok rest ∧ y :: rest = ys) :
    ∀ {i : Nat} {xs : List α} {ys : List β}, work i xs = .ok ys ↔ List.Forall₂ R xs ys
  | i, [], ys => by
    rw [hnil, List.forall₂_nil_left_iff, Except.ok.injEq]
    exact eq_comm
  | i, x :: xs, ys => by
    rw [hcons, List.forall₂_cons_left_iff]
    simp only [forall₂_of_steps work hnil hcons, eq_comm (b := ys)]

/-- If a bad item stops the work with its own error, and any other item leaves it to the rest,
    then the work fails exactly with what the first bad item gives. -/
theorem error_of_steps {P : α → Prop} {F : Nat → α → ε → Prop} (work : Nat → List α → Except ε β)
    (hnil : ∀ i e, work i [] ≠ .error e)
    (hcons : ∀ i x xs e, work i (x :: xs) = .error e ↔ P x ∧ F i x e ∨ ¬P x ∧ work (i + 1) xs = .error e) :
    ∀ {i : Nat} {xs : List α} {e : ε}, work i xs = .error e ↔ ∃ k x, FirstAt P xs k x ∧ F (i + k) x e
  | i, [], e => by
    simp only [hnil, not_firstAt_nil, false_and, exists_false]
  | i, x :: xs, e => by
    rw [hcons, error_of_steps work hnil hcons]
    constructor
    · rintro (⟨hx, hF⟩ | ⟨hx, k, y, hfirst, hF⟩)
      · exact ⟨0, x, firstAt_cons.mpr (.inl ⟨hx, rfl, rfl⟩), hF⟩
      · rw [Nat.add_assoc, Nat.add_comm 1 k] at hF
        exact ⟨k + 1, y, firstAt_cons.mpr (.inr ⟨hx, k, rfl, hfirst⟩), hF⟩
    · rintro ⟨k, y, hfirst, hF⟩
      rcases firstAt_cons.mp hfirst with ⟨hx, rfl, rfl⟩ | ⟨hx, k, rfl, hrest⟩
      · exact .inl ⟨hx, hF⟩
      · rw [Nat.add_comm k 1, ← Nat.add_assoc] at hF
        exact .inr ⟨hx, k, y, hrest, hF⟩

end Except

end VeiledLedger
