/-
  VeiledLedger.Proofs.Collision — what two computations hash, and where they meet.

  A digest is shorter than most of what is hashed, so different strings with one digest
  always exist; a statement is worth something only if it hands them out. Here two strings
  collide that two computations have really hashed: each computation comes with the list of
  its strings, and `collision?` searches two such lists.

  Main statement: `Collides.collision?` (the search finds what there is).
-/

import Mathlib.Data.List.Forall2
import VeiledLedger.Digest

namespace VeiledLedger

/-! ## Lists that go together -/

theorem forall₂_of_map_eq {α β γ : Type} {f : α → γ} {g : β → γ} {l : List α} {l' : List β}
    (h : l.map f = l'.map g) : List.Forall₂ (fun a b => f a = g b) l l' := by
  rwa [← List.forall₂_eq_eq_eq, List.forall₂_map_left_iff, List.forall₂_map_right_iff] at h

theorem forall_mem_left {α β : Type} {R : α → β → Prop} {P : α → Prop} (hP : ∀ a b, R a b → P a) {l : List α}
    {l' : List β} (h : List.Forall₂ R l l') : ∀ a ∈ l, P a :=
  ((List.forall₂_and_left l l').mp (h.imp fun a b hab => ⟨hP a b hab, hab⟩)).1

theorem rel_getElem? {α β : Type} {R : α → β → Prop} {l : List α} {l' : List β} (h : List.Forall₂ R l l') :
    ∀ i : Nat, Option.Rel R l[i]? l'[i]? := by
  induction h with
  | nil => exact fun i => .none
  | cons hab _ ih =>
    intro i
    cases i with
    | zero => exact .some hab
    | succ i => exact ih i

theorem exists_getElem? {α β : Type} {R : α → β → Prop} {l : List α} {l' : List β} (h : List.Forall₂ R l l') {i : Nat}
    {a : α} (ha : l[i]? = some a) : ∃ b, l'[i]? = some b ∧ R a b := by
  have hrel := rel_getElem? h i
  rw [ha] at hrel
  cases hb : l'[i]? with
  | none =>
    rw [hb] at hrel
    cases hrel
  | some b =>
    rw [hb] at hrel
    cases hrel with
    | some hab => exact ⟨b, rfl, hab⟩

/-- A list has a partner if each of its items has one. -/
theorem exists_forall₂ {α β : Type} {R : α → β → Prop} :
    ∀ {l : List α}, (∃ l', List.Forall₂ R l l') ↔ ∀ a ∈ l, ∃ b, R a b
  | [] => ⟨fun _ a ha => (by cases ha), fun _ => ⟨[], .nil⟩⟩
  | a :: l => by
    rw [List.forall_mem_cons, ← exists_forall₂]
    constructor
    · rintro ⟨l', h⟩
      cases h with
      | cons hab h => exact ⟨⟨_, hab⟩, _, h⟩
    · rintro ⟨⟨b, hab⟩, l', h⟩
      exact ⟨b :: l', .cons hab h⟩

/-! ## Collisions -/

variable [Hasher]

/-- Two different strings, one of each list, with the same digest. -/
def Collides (xs ys : List Bytes) : Prop := ∃ x ∈ xs, ∃ y ∈ ys, x ≠ y ∧ digest x = digest y

def collision? (xs ys : List Bytes) : Option (Bytes × Bytes) :=
  xs.findSome? fun x => (ys.find? fun y => x ≠ y ∧ digest x = digest y).map (x, ·)

variable {xs ys xs' ys' : List Bytes}

theorem Collides.collision? (h : Collides xs ys) :
    ∃ x y, collision? xs ys = some (x, y) ∧ x ≠ y ∧ digest x = digest y := by
  obtain ⟨x, hx, y, hy, hxy⟩ := h
  have hsome : (VeiledLedger.collision? xs ys).isSome := by
    refine List.findSome?_isSome_iff.mpr ⟨x, hx, ?_⟩
    rw [Option.isSome_map, List.find?_isSome]
    exact ⟨y, hy, by simpa using hxy⟩
  obtain ⟨⟨a, b⟩, hab⟩ := Option.isSome_iff_exists.mp hsome
  obtain ⟨x', -, hx'⟩ := List.exists_of_findSome?_eq_some hab
  obtain ⟨y', hy', he⟩ := Option.map_eq_some_iff.mp hx'
  cases he
  exact ⟨a, b, hab, by simpa using List.find?_some hy'⟩

theorem Collides.mono (h : Collides xs ys) (hx : xs ⊆ xs') (hy : ys ⊆ ys') : Collides xs' ys' := by
  obtain ⟨x, hxm, y, hym, hxy⟩ := h
  exact ⟨x, hx hxm, y, hy hym, hxy⟩

theorem eq_or_collides {x y : Bytes} (hx : x ∈ xs) (hy : y ∈ ys) (h : digest x = digest y) :
    x = y ∨ Collides xs ys := by
  by_cases hxy : x = y
  · exact .inl hxy
  · exact .inr ⟨x, hx, y, hy, hxy, h⟩

/-- If the members of two lists are related pairwise or collide, so are the lists. -/
theorem forall₂_or_collides {α β : Type} {P R : α → β → Prop} {f : α → List Bytes} {g : β → List Bytes}
    (h : ∀ a b, P a b → R a b ∨ Collides (f a) (g b)) {l : List α} {l' : List β} (hl : List.Forall₂ P l l') :
    List.Forall₂ R l l' ∨ Collides (l.flatMap f) (l'.flatMap g) := by
  induction hl with
  | nil => exact .inl .nil
  | cons hab _ ih =>
    rw [List.flatMap_cons, List.flatMap_cons]
    rcases h _ _ hab with hr | hc
    · rcases ih with hl | hc
      · exact .inl (.cons hr hl)
      · exact .inr (hc.mono (List.subset_append_right ..) (List.subset_append_right ..))
    · exact .inr (hc.mono (List.subset_append_left ..) (List.subset_append_left ..))

/-! ## Digests one after another -/

omit [Hasher] in
theorem Digest.append_inj {d e : Digest} {x y : Bytes} (h : d.toBytes ++ x = e.toBytes ++ y) : d = e ∧ x = y := by
  obtain ⟨hd, hxy⟩ := List.append_inj h (d.size.trans e.size.symm)
  exact ⟨Digest.toBytes_inj.mp hd, hxy⟩

omit [Hasher] in
theorem Digest.flatMap_inj : ∀ {l l' : List Digest}, l.length = l'.length →
    l.flatMap Digest.toBytes = l'.flatMap Digest.toBytes → l = l'
  | [], [], _, _ => rfl
  | d :: l, e :: l', hlen, h => by
    simp only [List.flatMap_cons] at h
    obtain ⟨hd, ht⟩ := Digest.append_inj h
    rw [hd, Digest.flatMap_inj (by simpa using hlen) ht]

end VeiledLedger
