/-
  VeiledLedger.Proofs.Layout.Overflow — exactly which lengths are found.

  A length is counted in 64-bit words from the parts of a layout up, and no part is passed
  over: a list without slots still has elements of some length. So a length is found exactly
  if the length of each part, counted without bound, is below 2 ^ 64, and then the count that
  does not look out for overflow meets none.

  Main statement: `size?_exact`.
-/

import VeiledLedger.Proofs.Layout.Length

namespace VeiledLedger.Layout

/-- `s` is `t` or stands in it, at any depth. -/
inductive Within (s : Layout) : Layout → Prop
  | self : Within s s
  | list {c : Nat} {e : Layout} : Within s e → Within s (.list c e)
  | exactList {n : Nat} {e : Layout} : Within s e → Within s (.exactList n e)
  | nullable {e : Layout} : Within s e → Within s (.nullable e)
  | field {f : String × Layout} {fs : List (String × Layout)} : f ∈ fs → Within s f.2 → Within s (.struct fs)

/-- A length that is found fits a word. -/
theorem lt_of_size? {t : Layout} {n : Nat} (h : t.size? = some n) : n < 2 ^ 64 := by
  cases t with
  | bool =>
    cases h
    decide
  | unsigned w | signed w =>
    cases h
    cases w <;> decide
  | exactBytes | bytes | string =>
    obtain ⟨hlt, rfl⟩ := word?_eq_some.mp h
    exact hlt
  | list =>
    obtain ⟨k, -, h⟩ := Option.bind_eq_some_iff.mp h
    obtain ⟨slots, -, h⟩ := Option.bind_eq_some_iff.mp h
    obtain ⟨hlt, rfl⟩ := word?_eq_some.mp h
    exact hlt
  | exactList | nullable =>
    obtain ⟨k, -, h⟩ := Option.bind_eq_some_iff.mp h
    obtain ⟨hlt, rfl⟩ := word?_eq_some.mp h
    exact hlt
  | struct => exact lt_of_sizeFields? h

/-- Where the length of a layout is found, so is that of each part. -/
theorem Within.size? {s t : Layout} (h : s.Within t) {n : Nat} (hn : t.size? = some n) : ∃ k, s.size? = some k := by
  induction h generalizing n with
  | self => exact ⟨n, hn⟩
  | list _ ih | exactList _ ih | nullable _ ih =>
    obtain ⟨k, hk, -⟩ := Option.bind_eq_some_iff.mp hn
    exact ih hk
  | field hf _ ih =>
    obtain ⟨k, -, hk⟩ := exists_size?_of_mem hn hf
    exact ih hk

mutual

theorem size?_of_within : ∀ {t : Layout}, (∀ s : Layout, s.Within t → s.size < 2 ^ 64) → t.size? = some t.size
  | .bool, _ => rfl
  | .unsigned _, _ => rfl
  | .signed _, _ => rfl
  | .exactBytes _, h => word?_eq_some.mpr ⟨h _ .self, rfl⟩
  | .bytes _, h => word?_eq_some.mpr ⟨h _ .self, rfl⟩
  | .string _ _, h => word?_eq_some.mpr ⟨h _ .self, rfl⟩
  | .list c e, h => by
    have hfits : countWidth c + c * e.size < 2 ^ 64 := h _ .self
    -- the slots are no longer than the whole
    have hslots : word? (c * e.size) = some (c * e.size) := word?_eq_some.mpr ⟨by omega, rfl⟩
    rw [Layout.size?, size?_of_within fun s hs => h s (.list hs), size]
    simp only [Option.bind_eq_bind, Option.bind_some, hslots]
    exact word?_eq_some.mpr ⟨by omega, Nat.add_comm ..⟩
  | .exactList n e, h => by
    rw [Layout.size?, size?_of_within fun s hs => h s (.exactList hs)]
    exact word?_eq_some.mpr ⟨h _ .self, rfl⟩
  | .nullable e, h => by
    have hfits : 1 + e.size < 2 ^ 64 := h _ .self
    rw [Layout.size?, size?_of_within fun s hs => h s (.nullable hs), size]
    exact word?_eq_some.mpr ⟨by omega, Nat.add_comm ..⟩
  | .struct fs, h => sizeFields?_of_within (fun f hf s hs => h s (.field hf hs)) (h _ .self)

theorem sizeFields?_of_within : ∀ {fs : List (String × Layout)},
    (∀ f ∈ fs, ∀ s : Layout, s.Within f.2 → s.size < 2 ^ 64) → sizeFields fs < 2 ^ 64 →
    sizeFields? fs = some (sizeFields fs)
  | [], _, _ => rfl
  | (name, t) :: fs, h, hlt => by
    have hsum : t.size + sizeFields fs < 2 ^ 64 := hlt
    have hfirst := size?_of_within (h (name, t) List.mem_cons_self)
    have hrest : sizeFields? fs = some (sizeFields fs) :=
      sizeFields?_of_within (fun f hf => h f (List.mem_cons_of_mem _ hf)) (by omega)
    rw [sizeFields?, hfirst, hrest]
    exact word?_eq_some.mpr ⟨hsum, rfl⟩

end

/-- A length is found exactly if that of every part, counted without bound, is below 2 ^ 64. It is
    the length of the layout then, and counting it without a look at overflow gets to it too. -/
theorem size?_exact (t : Layout) (n : Nat) :
    (t.size? = some n ↔ (∀ s : Layout, s.Within t → s.size < 2 ^ 64) ∧ t.size = n) ∧
    (t.size? = some n → t.words? = some n) := by
  refine ⟨⟨fun hn => ⟨fun s hs => ?_, size_eq_of_size? hn⟩, ?_⟩, words?_eq_of_size?⟩
  · obtain ⟨k, hk⟩ := hs.size? hn
    rw [size_eq_of_size? hk]
    exact lt_of_size? hk
  · rintro ⟨hparts, rfl⟩
    exact size?_of_within hparts

def noBuffers : Layout := .exactList 0 (.list 2 (.exactBytes (2 ^ 63)))

/-- The missing copies take no room, but their length is not to be counted. -/
theorem noBuffers_not_found : noBuffers.size = 0 ∧ noBuffers.size? = none ∧
    holdings.size? = some 33 ∧ holdings.words? = some 33 ∧ ∀ s : Layout, s.Within holdings → s.size < 2 ^ 64 := by
  have hn : holdings.size? = some 33 := by decide
  obtain ⟨hexact, hwords⟩ := size?_exact holdings 33
  refine ⟨rfl, Option.eq_none_iff_forall_ne_some.mpr fun n h => ?_, hn, hwords hn, (hexact.mp hn).1⟩
  have hlt := ((size?_exact noBuffers n).1.mp h).1 (.list 2 (.exactBytes (2 ^ 63))) (.exactList .self)
  exact absurd hlt (by decide)

end VeiledLedger.Layout
