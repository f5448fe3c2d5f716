/-
  VeiledLedger.Text.Hex — byte strings as hexadecimal digits, two for each byte.

  Writing uses lower-case digits; reading takes either case. Reading looks at the length
  first and then names the first character that is no digit, by its place among the bytes
  of the text.

  Main statements: `decode_encode` and `decodeExactly_encode` (what is written is read back).
-/

import VeiledLedger.Text.Quoted
import VeiledLedger.Text.Utf8

namespace VeiledLedger.Text.Hex

def digit (n : Nat) : UInt8 := if n < 10 then UInt8.ofNat (48 + n) else UInt8.ofNat (87 + n)

def value? (x : UInt8) : Option Nat :=
  if 48 ≤ x ∧ x ≤ 57 then some (x.toNat - 48)
  else if 97 ≤ x ∧ x ≤ 102 then some (x.toNat - 87)
  else if 65 ≤ x ∧ x ≤ 70 then some (x.toNat - 55)
  else none

/-- The digits of `b`, as characters of the basic alphabet. -/
def encodeBytes (b : Bytes) : Bytes := b.flatMap (fun x => [digit (x.toNat / 16), digit (x.toNat % 16)])

def encode (b : Bytes) : String := String.ofList ((encodeBytes b).map (fun x => Char.ofNat x.toNat))

inductive Fault where
  | oddLength
  | wrongLength
  | badDigit (byte : UInt8) (position : Nat)
  deriving DecidableEq, Repr

/-- A byte that is no digit is shown as the character of its number. -/
def Fault.message : Fault → String
  | oddLength => "Odd number of digits"
  | wrongLength => "Invalid string length"
  | badDigit x i =>
    "Invalid character " ++ Quoted.char (Char.ofNat x.toNat) ++ " at position " ++ toString i

/-- Reads the digit pairs from `position` on; `done` holds the bytes read before, last first. -/
def decodeFrom (position : Nat) (done : Bytes) : Bytes → Except Fault Bytes
  | [] => .ok done.reverse
  | [_] => .error .oddLength
  | x :: y :: rest =>
    match value? x, value? y with
    | some hi, some lo => decodeFrom (position + 2) (UInt8.ofNat (16 * hi + lo) :: done) rest
    | none, _ => .error (.badDigit x position)
    | some _, none => .error (.badDigit y (position + 1))

def decodeBytes (text : Bytes) : Except Fault Bytes :=
  if text.length % 2 = 1 then .error .oddLength else decodeFrom 0 [] text

def decode (text : String) : Except Fault Bytes := decodeBytes (Utf8.encode text)

/-- As `decode`, for a byte string whose length is known. -/
def decodeExactly (n : Nat) (text : String) : Except Fault Bytes :=
  let t := Utf8.encode text
  if t.length % 2 = 1 then .error .oddLength
  else if t.length / 2 ≠ n then .error .wrongLength
  else decodeFrom 0 [] t

/-! ## What is written is read back -/

theorem value?_digit {n : Nat} (h : n < 16) : value? (digit n) = some n := by
  rcases n with _|_|_|_|_|_|_|_|_|_|_|_|_|_|_|_|n
  all_goals first | rfl | omega

theorem decodeFrom_encodeBytes (b done : Bytes) (position : Nat) :
    decodeFrom position done (encodeBytes b) = .ok (done.reverse ++ b) := by
  induction b generalizing done position with
  | nil => simp [encodeBytes, decodeFrom]
  | cons x b ih =>
    have hx := x.toNat_lt
    have e : UInt8.ofNat (16 * (x.toNat / 16) + x.toNat % 16) = x := by
      rw [Nat.div_add_mod]; simp
    simp only [encodeBytes, List.flatMap_cons, List.cons_append, List.nil_append, decodeFrom,
      value?_digit (show x.toNat / 16 < 16 by omega), value?_digit (show x.toNat % 16 < 16 by omega), e]
    simpa [encodeBytes] using ih (x :: done) (position + 2)

theorem length_encodeBytes (b : Bytes) : (encodeBytes b).length = 2 * b.length := by
  induction b with
  | nil => rfl
  | cons x b ih =>
    simp only [encodeBytes, List.flatMap_cons, List.length_append] at ih ⊢
    simp [ih]; omega

theorem decodeBytes_encodeBytes (b : Bytes) : decodeBytes (encodeBytes b) = .ok b := by
  have h : (encodeBytes b).length % 2 ≠ 1 := by rw [length_encodeBytes]; omega
  simp [decodeBytes, h, decodeFrom_encodeBytes]

theorem digit_lt {n : Nat} (h : n < 16) : (digit n).toNat < 128 := by
  rcases n with _|_|_|_|_|_|_|_|_|_|_|_|_|_|_|_|n
  all_goals first | decide | omega

theorem lt_of_mem_encodeBytes {b : Bytes} {x : UInt8} (h : x ∈ encodeBytes b) : x.toNat < 128 := by
  simp only [encodeBytes, List.mem_flatMap, List.mem_cons, List.not_mem_nil, or_false] at h
  obtain ⟨y, -, rfl | rfl⟩ := h
  · exact digit_lt (by have := y.toNat_lt; omega)
  · exact digit_lt (by omega)

theorem utf8_encode (b : Bytes) : Utf8.encode (encode b) = encodeBytes b :=
  Utf8.encode_ofList fun _ => lt_of_mem_encodeBytes

theorem decode_encode (b : Bytes) : decode (encode b) = .ok b := by
  rw [decode, utf8_encode, decodeBytes_encodeBytes]

theorem decodeExactly_encode {n : Nat} {b : Bytes} (h : b.length = n) : decodeExactly n (encode b) = .ok b := by
  have hlen : (encodeBytes b).length = 2 * n := by rw [length_encodeBytes, h]
  simp [decodeExactly, utf8_encode, hlen, decodeFrom_encodeBytes]

end VeiledLedger.Text.Hex
