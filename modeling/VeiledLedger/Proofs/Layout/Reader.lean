/-
  VeiledLedger.Proofs.Layout.Reader — what the readers take off the front of a byte string.

  A reader reads `a` from `b` if it takes exactly `b` off every byte string that starts with
  it. Readers that follow each other read the byte strings that follow each other, so what a
  layout reads is put together from what its parts read.

  Main statements: `Reads.bind`, `Reads.count`, `Reads.room`, `Reads.text`, `Reads.slots`.
-/

import VeiledLedger.Layout.Decode
import VeiledLedger.Proofs.Layout.Encode

namespace VeiledLedger

namespace Layout

/-- `p` is a count of `n` in front of room for `c`. -/
structure IsCount (c n : Nat) (p : Bytes) : Prop where
  width : p.length = countWidth c
  value : Bytes.toNat p = n
  le : n ≤ c

/-- `b` is a count, the content `x`, and anything at all up to the capacity. -/
def IsRoom (c : Nat) (x b : Bytes) : Prop :=
  ∃ p pad, IsCount c x.length p ∧ x.length + pad.length = c ∧ b = p ++ (x ++ pad)

def IsRow (stands : Value → Bytes → Prop) : List Value → Bytes → Prop
  | [], b => b = []
  | v :: vs, b => ∃ x y, stands v x ∧ IsRow stands vs y ∧ b = x ++ y

theorem IsRow.append {stands : Value → Bytes → Prop} : ∀ {vs ws : List Value} {x y : Bytes},
    IsRow stands vs x → IsRow stands ws y → IsRow stands (vs ++ ws) (x ++ y)
  | [], _, _, _, rfl, hw => hw
  | _ :: _, _, _, _, ⟨x, y, hx, hy, rfl⟩, hw => ⟨x, _, hx, hy.append hw, List.append_assoc ..⟩

theorem IsRow.imp {stands stands' : Value → Bytes → Prop} : ∀ {vs : List Value} {b : Bytes}, IsRow stands vs b →
    (∀ v ∈ vs, ∀ x, stands v x → stands' v x) → IsRow stands' vs b
  | [], _, h, _ => h
  | _ :: _, _, ⟨x, y, hx, hy, hb⟩, himp =>
    ⟨x, y, himp _ (.head _) x hx, hy.imp fun v hv => himp v (.tail _ hv), hb⟩

theorem map_ofNat_of_encodeLatin1 : ∀ {cs : List Char} {x : Bytes}, encodeLatin1 cs = .ok x →
    x.map (fun y => Char.ofNat y.toNat) = cs
  | [], _, h => by
    cases h
    rfl
  | c :: cs, _, h => by
    rw [encodeLatin1] at h
    split at h
    · rename_i hc
      obtain ⟨x, hx, rfl⟩ := Except.map_eq_ok.mp h
      rw [List.map_cons, map_ofNat_of_encodeLatin1 hx, UInt8.toNat_ofNat_of_lt' (Nat.lt_succ_of_le hc), Char.ofNat_toNat]
    · cases h

end Layout

namespace Reader

variable {α β : Type}

def Reads (r : Reader α) (b : Bytes) (a : α) : Prop := ∀ rest, r (b ++ rest) = .ok (a, rest)

namespace Reads

theorem pure (a : α) : Reads (Pure.pure a) [] a := fun _ => rfl

theorem bind {r : Reader α} {f : α → Reader β} {x y : Bytes} {a : α} {b : β} (hr : Reads r x a)
    (hf : Reads (f a) y b) : Reads (r >>= f) (x ++ y) b := by
  intro rest
  show (r (x ++ y ++ rest) >>= fun p => f p.1 p.2) = .ok (b, rest)
  rw [List.append_assoc, hr]
  exact hf rest

theorem map {r : Reader α} {b : Bytes} {a : α} (hr : Reads r b a) (f : α → β) :
    Reads (do return f (← r)) b (f a) := by
  have := hr.bind (f := fun a => Pure.pure (f a)) (.pure (f a))
  rwa [List.append_nil] at this

theorem under {r : Reader α} {b : Bytes} {a : α} (hr : Reads r b a) (step : PathStep) :
    Reads (Reader.under step r) b a := by
  intro rest
  rw [Reader.under, hr]
  rfl

/-! ## Numbers, counts and rooms -/

theorem take (x : Bytes) : Reads (Reader.take x.length) x x := by
  intro rest
  simp [Reader.take]

theorem reserve {n : Nat} (h : n * Value.width < 2 ^ 63) : Reads (Reader.reserve n) [] () := by
  intro rest
  rw [Reader.reserve, (reserve_eq_ok (u := ())).mpr h]
  rfl

theorem number (p : Bytes) : Reads (Reader.number p.length) p (Bytes.toNat p) := (take p).map Bytes.toNat

theorem flag (x : UInt8) : Reads Reader.flag [x] x.toNat := by
  have := number [x]
  rwa [show Bytes.toNat [x] = x.toNat by simp [Bytes.toNat]] at this

theorem count {c n : Nat} {p : Bytes} (h : Layout.IsCount c n p) : Reads (Reader.count c) p n := by
  have hnumber := number p
  rw [h.width, h.value] at hnumber
  rw [← List.append_nil p]
  refine hnumber.bind ?_
  rw [if_pos h.le]
  exact .pure n

theorem room {c : Nat} {x b : Bytes} (h : Layout.IsRoom c x b) : Reads (Reader.room c) b x := by
  obtain ⟨p, pad, hp, hlen, rfl⟩ := h
  have htake := (take (x ++ pad)).map (List.take x.length)
  rw [List.length_append, hlen, List.take_left] at htake
  exact (count hp).bind htake

/-! ## Texts -/

theorem text {charset : Charset} {s : String} {x : Bytes} (h : Layout.encodeText charset s = .ok x) :
    Reads (Reader.text charset x) [] s := by
  cases charset with
  | latin1 =>
    rw [Reader.text, Layout.map_ofNat_of_encodeLatin1 h, String.ofList_toList]
    exact pure s
  | utf8 =>
    cases h
    rw [Reader.text, Text.Utf8.decode?_encode]
    exact pure s

/-! ## Rows of slots -/

theorem slots {r : Reader Value} {stands : Value → Bytes → Prop} (hr : ∀ {v x}, stands v x → Reads r x v) :
    ∀ {i : Nat} {vs : List Value} {b : Bytes}, Layout.IsRow stands vs b → Reads (Reader.slots r i vs.length) b vs
  | _, [], _, rfl => pure []
  | i, v :: _, _, ⟨x, y, hx, hy, rfl⟩ => by
    have hfirst := (hr hx).under (.slot i)
    have hrest := (slots (i := i + 1) hr hy).map (v :: ·)
    exact hfirst.bind hrest

end Reads

end Reader

end VeiledLedger
