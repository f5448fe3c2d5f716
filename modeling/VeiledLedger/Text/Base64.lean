/-
  VeiledLedger.Text.Base64 — byte strings as digits of six bits, four for three bytes.

  A last group of one or two bytes is filled up with equality signs. Reading wants them where
  writing puts them, and wants the bits that belong to no byte to be zero, so each byte string
  has one text.

  Main statement: `decode?_encode` (what is written is read back).
-/

import VeiledLedger.Bytes

namespace VeiledLedger.Text.Base64

def digit (n : Nat) : Char :=
  if n < 26 then Char.ofNat (65 + n)
  else if n < 52 then Char.ofNat (71 + n)
  else if n < 62 then Char.ofNat (n - 4)
  else if n = 62 then '+'
  else '/'

def value? (c : Char) : Option Nat :=
  if 'A' ≤ c ∧ c ≤ 'Z' then some (c.toNat - 65)
  else if 'a' ≤ c ∧ c ≤ 'z' then some (c.toNat - 71)
  else if '0' ≤ c ∧ c ≤ '9' then some (c.toNat + 4)
  else if c = '+' then some 62
  else if c = '/' then some 63
  else none

def digits : Bytes → List Char
  | [] => []
  | [x] => [digit (x.toNat / 4), digit (x.toNat % 4 * 16), '=', '=']
  | [x, y] => [digit (x.toNat / 4), digit (x.toNat % 4 * 16 + y.toNat / 16), digit (y.toNat % 16 * 4), '=']
  | x :: y :: z :: rest =>
    digit (x.toNat / 4) :: digit (x.toNat % 4 * 16 + y.toNat / 16) ::
      digit (y.toNat % 16 * 4 + z.toNat / 64) :: digit (z.toNat % 64) :: digits rest

def ofDigits? : List Char → Option Bytes
  | [] => some []
  | [x, y, '=', '='] => do
    let (a, b) := (← value? x, ← value? y)
    if b % 16 = 0 then return [UInt8.ofNat (a * 4 + b / 16)] else none
  | [x, y, z, '='] => do
    let (a, b, c) := (← value? x, ← value? y, ← value? z)
    if c % 4 = 0 then return [UInt8.ofNat (a * 4 + b / 16), UInt8.ofNat (b % 16 * 16 + c / 4)] else none
  | x :: y :: z :: w :: rest => do
    let (a, b, c, d) := (← value? x, ← value? y, ← value? z, ← value? w)
    return UInt8.ofNat (a * 4 + b / 16) :: UInt8.ofNat (b % 16 * 16 + c / 4) :: UInt8.ofNat (c % 4 * 64 + d) ::
      (← ofDigits? rest)
  | _ => none

def encode (b : Bytes) : String := String.ofList (digits b)

def decode? (text : String) : Option Bytes := ofDigits? text.toList

/-! ## What is written is read back -/

theorem value?_digit : ∀ n < 64, value? (digit n) = some n := by decide

theorem digit_ne : ∀ n < 64, digit n ≠ '=' := by decide

theorem ofDigits?_four {a b c d : Nat} (ha : a < 64) (hb : b < 64) (hc : c < 64) (hd : d < 64) (rest : List Char) :
    ofDigits? (digit a :: digit b :: digit c :: digit d :: rest) =
      (ofDigits? rest).map fun bytes =>
        UInt8.ofNat (a * 4 + b / 16) :: UInt8.ofNat (b % 16 * 16 + c / 4) :: UInt8.ofNat (c % 4 * 64 + d) :: bytes := by
  have hlast := digit_ne d hd
  rw [ofDigits?.eq_4 _ _ _ _ _ (fun _ he _ => hlast he) fun he _ => hlast he]
  simp only [value?_digit _ ha, value?_digit _ hb, value?_digit _ hc, value?_digit _ hd]
  cases ofDigits? rest <;> rfl

theorem ofDigits?_three {a b c : Nat} (ha : a < 64) (hb : b < 64) (hc : c < 64) (hrest : c % 4 = 0) :
    ofDigits? [digit a, digit b, digit c, '='] =
      some [UInt8.ofNat (a * 4 + b / 16), UInt8.ofNat (b % 16 * 16 + c / 4)] := by
  rw [ofDigits?.eq_3 _ _ _ fun he => digit_ne c hc he]
  simp only [value?_digit _ ha, value?_digit _ hb, value?_digit _ hc]
  exact if_pos hrest

theorem ofDigits?_two {a b : Nat} (ha : a < 64) (hb : b < 64) (hrest : b % 16 = 0) :
    ofDigits? [digit a, digit b, '=', '='] = some [UInt8.ofNat (a * 4 + b / 16)] := by
  rw [ofDigits?.eq_2]
  simp only [value?_digit _ ha, value?_digit _ hb]
  exact if_pos hrest

theorem ofDigits?_digits (b : Bytes) : ofDigits? (digits b) = some b := by
  have hfirst (x y : UInt8) : UInt8.ofNat (x.toNat / 4 * 4 + (x.toNat % 4 * 16 + y.toNat / 16) / 16) = x := by
    have hy := y.toNat_lt
    rw [show x.toNat / 4 * 4 + (x.toNat % 4 * 16 + y.toNat / 16) / 16 = x.toNat by omega, UInt8.ofNat_toNat]
  have hsecond (x y z : UInt8) :
      UInt8.ofNat ((x.toNat % 4 * 16 + y.toNat / 16) % 16 * 16 + (y.toNat % 16 * 4 + z.toNat / 64) / 4) = y := by
    have hy := y.toNat_lt
    have hz := z.toNat_lt
    rw [show (x.toNat % 4 * 16 + y.toNat / 16) % 16 * 16 + (y.toNat % 16 * 4 + z.toNat / 64) / 4 = y.toNat by omega,
      UInt8.ofNat_toNat]
  have hthird (y z : UInt8) : UInt8.ofNat ((y.toNat % 16 * 4 + z.toNat / 64) % 4 * 64 + z.toNat % 64) = z := by
    have hz := z.toNat_lt
    rw [show (y.toNat % 16 * 4 + z.toNat / 64) % 4 * 64 + z.toNat % 64 = z.toNat by omega, UInt8.ofNat_toNat]
  match b with
  | [] => rfl
  | [x] =>
    have hx := x.toNat_lt
    rw [digits, ofDigits?_two (by omega) (by omega) (by omega)]
    exact congrArg (fun x => some [x]) (hfirst x 0)
  | [x, y] =>
    have hx := x.toNat_lt
    have hy := y.toNat_lt
    rw [digits, ofDigits?_three (by omega) (by omega) (by omega) (by omega), hfirst]
    exact congrArg (fun y => some [x, y]) (hsecond x y 0)
  | x :: y :: z :: rest =>
    have hx := x.toNat_lt
    have hy := y.toNat_lt
    have hz := z.toNat_lt
    rw [digits, ofDigits?_four (by omega) (by omega) (by omega) (by omega), ofDigits?_digits rest, Option.map_some,
      hfirst, hsecond, hthird]

@[simp] theorem decode?_encode (b : Bytes) : decode? (encode b) = some b := by
  rw [decode?, encode, String.toList_ofList, ofDigits?_digits]

end VeiledLedger.Text.Base64
