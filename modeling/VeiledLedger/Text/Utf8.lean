/-
  VeiledLedger.Text.Utf8 — the bytes of a text.

  Every text has one byte string, and no two texts share one; a byte string that belongs to
  no text is not read.

  Main statements: `decode?_eq_some` (exactly the bytes of a text are read as that text) and
  `encode_ofList` (a character below 128 is one byte).
-/

import VeiledLedger.Bytes

namespace VeiledLedger.Text.Utf8

def encode (s : String) : Bytes := s.toUTF8.data.toList

def decode? (b : Bytes) : Option String := String.fromUTF8? ⟨b.toArray⟩

theorem decode?_eq_some {b : Bytes} {s : String} : decode? b = some s ↔ b = encode s := by
  have e : (⟨b.toArray⟩ : ByteArray) = s.toUTF8 ↔ b = encode s := by
    rw [ByteArray.ext_iff, encode]
    constructor
    · intro h; rw [← h]
    · rintro rfl; simp
  unfold decode? String.fromUTF8?
  split
  · simp only [Option.some.injEq, ← e]
    constructor
    · rintro rfl; rfl
    · intro h; exact String.toByteArray_inj.1 h
  · rename_i h
    simp only [reduceCtorEq, false_iff, ← e]
    intro hs
    exact h (hs ▸ s.isValidUTF8)

@[simp] theorem decode?_encode (s : String) : decode? (encode s) = some s := decode?_eq_some.2 rfl

theorem utf8EncodeChar_ofNat {x : UInt8} (h : x.toNat < 128) :
    String.utf8EncodeChar (Char.ofNat x.toNat) = [x] := by
  have hv : (Char.ofNat x.toNat).val.toNat = x.toNat := by
    have : x.toNat.isValidChar := by left; omega
    rw [Char.ofNat, dif_pos this]
    rfl
  simp [String.utf8EncodeChar, hv, show x.toNat ≤ 127 by omega]

theorem encode_ofList {b : Bytes} (h : ∀ x ∈ b, x.toNat < 128) :
    encode (String.ofList (b.map fun x => Char.ofNat x.toNat)) = b := by
  have : (b.map fun x => Char.ofNat x.toNat).flatMap String.utf8EncodeChar = b := by
    induction b with
    | nil => rfl
    | cons x b ih =>
      simp only [List.mem_cons, forall_eq_or_imp] at h
      simp [utf8EncodeChar_ofNat h.1, ih h.2]
  rw [encode, String.toUTF8, String.toByteArray_ofList, List.utf8Encode, List.data_toByteArray, this]

end VeiledLedger.Text.Utf8
