/-
  VeiledLedger.Proofs.Layout.Length — the length of what is written is fixed by the layout.

  The length of a layout can be counted with a look at each sum and product, which gives
  nothing if one of them does not fit a word, or without one, which breaks down there. Where
  the first way gives a length, the second gets through and finds the same; and as many bytes
  are written, for whatever value.

  Main statements: `words?_eq_of_size?`, `length_fixed`.
-/

import VeiledLedger.Proofs.Layout.RoundTrip

namespace VeiledLedger.Layout

mutual

/-- The length as it is counted where it is taken to fit: in 64-bit words, the fields of a
    structure summed up from the first. Nothing stands for the break-down at a sum or product
    that is too large. -/
def words? : Layout → Option Nat
  | .bool => some 1
  | .unsigned w => some w.bytes
  | .signed w => some w.bytes
  | .exactBytes n => some n
  | .bytes c => word? (countWidth c + c)
  | .string _ c => word? (countWidth c + c)
  | .list c e => do
    let slots ← word? (c * (← words? e))
    word? (countWidth c + slots)
  | .exactList n e => do word? (n * (← words? e))
  | .nullable e => do word? (1 + (← words? e))
  | .struct fs => addWords? fs 0

def addWords? : List (String × Layout) → Nat → Option Nat
  | [], sum => some sum
  | (_, t) :: fs, sum => do addWords? fs (← word? (sum + (← words? t)))

end

mutual

/-- A length that was found with care is found without it. -/
theorem words?_eq_of_size? : ∀ {t : Layout} {n : Nat}, t.size? = some n → words? t = some n
  | .bool, _, h => h
  | .unsigned _, _, h => h
  | .signed _, _, h => h
  | .exactBytes _, _, h => congrArg some (word?_eq_some.mp h).2
  | .bytes _, _, h => h
  | .string _ _, _, h => h
  | .list c e, _, h => by
    obtain ⟨k, hk, h⟩ := Option.bind_eq_some_iff.mp h
    obtain ⟨slots, hslots, h⟩ := Option.bind_eq_some_iff.mp h
    rw [words?, words?_eq_of_size? hk]
    simp only [Option.bind_eq_bind, Option.bind_some, hslots]
    rw [Nat.add_comm, h]
  | .exactList n e, _, h => by
    obtain ⟨k, hk, h⟩ := Option.bind_eq_some_iff.mp h
    rw [words?, words?_eq_of_size? hk]
    exact h
  | .nullable e, _, h => by
    obtain ⟨k, hk, h⟩ := Option.bind_eq_some_iff.mp h
    rw [words?, words?_eq_of_size? hk]
    simp only [Option.bind_eq_bind, Option.bind_some]
    rw [Nat.add_comm, h]
  | .struct fs, n, h => by
    have hfields : sizeFields? fs = some n := h
    have hlt : 0 + n < 2 ^ 64 := (Nat.zero_add n).symm ▸ lt_of_sizeFields? hfields
    rw [words?, addWords?_eq_of_sizeFields? hfields hlt, Nat.zero_add]

theorem addWords?_eq_of_sizeFields? : ∀ {fs : List (String × Layout)} {n sum : Nat}, sizeFields? fs = some n →
    sum + n < 2 ^ 64 → addWords? fs sum = some (sum + n)
  | [], _, _, h, _ => by
    cases h
    rfl
  | (_, t) :: fs, _, sum, h, hlt => by
    obtain ⟨k, hk, h⟩ := Option.bind_eq_some_iff.mp h
    obtain ⟨m, hm, h⟩ := Option.bind_eq_some_iff.mp h
    obtain ⟨-, rfl⟩ := word?_eq_some.mp h
    have hfirst : word? (sum + k) = some (sum + k) := word?_eq_some.mpr ⟨by omega, rfl⟩
    rw [addWords?, words?_eq_of_size? hk]
    simp only [Option.bind_eq_bind, Option.bind_some, hfirst]
    rw [addWords?_eq_of_sizeFields? hm (by omega), Nat.add_assoc]

end

/-- Where the length of a layout fits a word, every value that is written takes that many bytes,
    under whatever path its misfits would be reported; and it is the declared length, also when it
    is counted without looking for overflow. -/
theorem length_fixed {t : Layout} {n : Nat} (hn : t.size? = some n) {path : String} {v : Value} {b : Bytes}
    (h : t.encodeAt path v = .ok b) : b.length = n ∧ t.size = n ∧ t.words? = some n :=
  have hsize := size_eq_of_size? hn
  ⟨(length_encode (encodeAt_eq_ok.mp h).2).trans hsize, hsize, words?_eq_of_size? hn⟩

def holdingsFiller : Value := .struct [.list [], .string "", .list [.bytes [], .bytes []]]

/-- An owner, a missing one and an unused slot take as many bytes as three unused slots. -/
theorem holdings_length : holdings.size? = some 33 ∧ holdings.words? = some 33 ∧ holdingsBytes.length = 33 ∧
    ∃ v b, holdings.filler = .ok v ∧ holdings.encodeAt "outputs[0]" v = .ok b ∧ b.length = 33 := by
  have hn : holdings.size? = some 33 := by decide
  have hone : holdings.encodeAt "outputs[0]" holdingsOfOne = .ok holdingsBytes := rfl
  obtain ⟨hlen, -, hwords⟩ := length_fixed hn hone
  have hfiller : holdings.filler = .ok holdingsFiller := rfl
  have hunused : holdings.encodeAt "outputs[0]" holdingsFiller = .ok (Bytes.zeros 33) := rfl
  exact ⟨hn, hwords, hlen, _, _, hfiller, hunused, (length_fixed hn hunused).1⟩

end VeiledLedger.Layout
