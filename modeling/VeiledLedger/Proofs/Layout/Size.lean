/-
  VeiledLedger.Proofs.Layout.Size — the two ways to count the length of a layout.

  Main statements: `size_eq_of_size?` (a length counted in words is the length), and
  `exists_size?_of_mem` (if it can be counted, so can that of each part).
-/

import VeiledLedger.Layout

namespace VeiledLedger

theorem word?_eq_some {n m : Nat} : word? n = some m ↔ n < 2 ^ 64 ∧ n = m := by
  unfold word?
  split
  · rename_i hn
    exact ⟨fun h => ⟨hn, Option.some.inj h⟩, fun h => congrArg some h.2⟩
  · rename_i hn
    exact ⟨fun h => (by cases h), fun h => absurd h.1 hn⟩

namespace Layout

mutual

theorem size_eq_of_size? : ∀ {t : Layout} {n : Nat}, t.size? = some n → t.size = n
  | .bool, _, h => Option.some.inj h
  | .unsigned _, _, h => Option.some.inj h
  | .signed _, _, h => Option.some.inj h
  | .exactBytes _, _, h => (word?_eq_some.mp h).2
  | .bytes _, _, h => (word?_eq_some.mp h).2
  | .string _ _, _, h => (word?_eq_some.mp h).2
  | .list c e, _, h => by
    obtain ⟨k, hk, h⟩ := Option.bind_eq_some_iff.mp h
    obtain ⟨slots, hslots, h⟩ := Option.bind_eq_some_iff.mp h
    rw [size, size_eq_of_size? hk, (word?_eq_some.mp hslots).2, Nat.add_comm, (word?_eq_some.mp h).2]
  | .exactList n e, _, h => by
    obtain ⟨k, hk, h⟩ := Option.bind_eq_some_iff.mp h
    rw [size, size_eq_of_size? hk, (word?_eq_some.mp h).2]
  | .nullable e, _, h => by
    obtain ⟨k, hk, h⟩ := Option.bind_eq_some_iff.mp h
    rw [size, size_eq_of_size? hk, Nat.add_comm, (word?_eq_some.mp h).2]
  | .struct fs, _, h => sizeFields_eq_of_sizeFields? h

theorem sizeFields_eq_of_sizeFields? : ∀ {fs : List (String × Layout)} {n : Nat},
    sizeFields? fs = some n → sizeFields fs = n
  | [], _, h => Option.some.inj h
  | (_, t) :: fs, _, h => by
    obtain ⟨k, hk, h⟩ := Option.bind_eq_some_iff.mp h
    obtain ⟨m, hm, h⟩ := Option.bind_eq_some_iff.mp h
    rw [sizeFields, size_eq_of_size? hk, sizeFields_eq_of_sizeFields? hm, (word?_eq_some.mp h).2]

end

theorem lt_of_sizeFields? {fs : List (String × Layout)} {n : Nat} (h : sizeFields? fs = some n) : n < 2 ^ 64 := by
  cases fs with
  | nil =>
    cases h
    decide
  | cons field fs =>
    obtain ⟨k, -, h⟩ := Option.bind_eq_some_iff.mp h
    obtain ⟨m, -, h⟩ := Option.bind_eq_some_iff.mp h
    obtain ⟨hlt, rfl⟩ := word?_eq_some.mp h
    exact hlt

/-- A part takes no more bytes than the whole. -/
theorem exists_size?_of_mem {fs : List (String × Layout)} {n : Nat} (h : sizeFields? fs = some n) {f : String × Layout}
    (hf : f ∈ fs) : ∃ k ≤ n, f.2.size? = some k := by
  induction fs generalizing n with
  | nil => cases hf
  | cons g fs ih =>
    obtain ⟨k, hk, h⟩ := Option.bind_eq_some_iff.mp h
    obtain ⟨m, hm, h⟩ := Option.bind_eq_some_iff.mp h
    obtain ⟨-, rfl⟩ := word?_eq_some.mp h
    rcases List.mem_cons.mp hf with rfl | hf
    · exact ⟨k, Nat.le_add_right k m, hk⟩
    · obtain ⟨k', hle, hk'⟩ := ih hm hf
      exact ⟨k', Nat.le_trans hle (Nat.le_add_left m k), hk'⟩

end Layout

end VeiledLedger
