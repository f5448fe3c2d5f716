/-
  VeiledLedger.Bytes — byte strings and the numbers written in them.

  A byte string is a list of bytes. A number of a given width is written with its most
  significant byte first; only its last `width` base-256 digits are kept, so a number that
  does not fit is cut, never refused.

  Main statements: `toNat_ofNat` (what was written is read back, cut to the width),
  `ofNat_toNat` (each byte string is the writing of the number it holds) and `length_ofNat`.
-/

namespace VeiledLedger

-- A power of natural numbers is the core's own, also beside a library that offers another one.
attribute [instance (2000), default_instance (20000)] instPowNat

abbrev Bytes := List UInt8

namespace Bytes

/-- The last `width` base-256 digits of `n`, most significant first. -/
def ofNat : (width n : Nat) → Bytes
  | 0, _ => []
  | width + 1, n => ofNat width (n / 256) ++ [UInt8.ofNat n]

/-- The number whose base-256 digits, most significant first, are `b`. -/
def toNat (b : Bytes) : Nat := b.foldl (fun n x => n * 256 + x.toNat) 0

/-- The number whose base-256 digits, least significant first, are `b`. -/
def toNatLittle (b : Bytes) : Nat := b.foldr (fun x n => x.toNat + 256 * n) 0

/-- The last `width` base-256 digits of `n`, least significant first. -/
def ofNatLittle (width n : Nat) : Bytes := (ofNat width n).reverse

def zeros (n : Nat) : Bytes := List.replicate n 0

/-- `b` followed by zeros up to `n` bytes; a longer `b` is left as it is. -/
def padTo (n : Nat) (b : Bytes) : Bytes := b ++ zeros (n - b.length)

def isZero (b : Bytes) : Bool := b.all (· == 0)

/-- `b` in pieces of `k` bytes, the last one possibly shorter. -/
def chunks {α : Type} (k : Nat) (b : List α) : List (List α) :=
  if _h : b = [] ∨ k = 0 then [] else b.take k :: chunks k (b.drop k)
termination_by b.length
decreasing_by
  have : 0 < b.length := List.length_pos_iff.mpr (fun e => _h (.inl e))
  simp only [List.length_drop]
  omega

/-- `n` times what is made, which is not made at all if it is asked for no time. -/
def copies {α : Type} (n : Nat) (make : Unit → α) : List α := if n = 0 then [] else List.replicate n (make ())

/-! ## Reading back -/

@[simp] theorem length_ofNat (width n : Nat) : (ofNat width n).length = width := by
  induction width generalizing n with
  | zero => rfl
  | succ w ih => simp [ofNat, ih]

theorem toNat_append_singleton (b : Bytes) (x : UInt8) : toNat (b ++ [x]) = toNat b * 256 + x.toNat := by
  simp [toNat]

theorem toNat_ofNat (width n : Nat) : toNat (ofNat width n) = n % 256 ^ width := by
  induction width generalizing n with
  | zero => simp [ofNat, toNat, Nat.mod_one]
  | succ w ih =>
    rw [ofNat, toNat_append_singleton, ih, Nat.pow_succ, Nat.mul_comm (256 ^ w) 256, Nat.mod_mul]
    simp; omega

theorem toNat_lt (b : Bytes) : toNat b < 256 ^ b.length := by
  obtain ⟨r, rfl⟩ : ∃ r : Bytes, b = r.reverse := ⟨b.reverse, by simp⟩
  induction r with
  | nil => simp [toNat]
  | cons x r ih =>
    have := x.toNat_lt
    rw [List.reverse_cons, toNat_append_singleton, List.length_append, List.length_singleton, Nat.pow_succ]
    omega

theorem ofNat_toNat (b : Bytes) : ofNat b.length (toNat b) = b := by
  obtain ⟨r, rfl⟩ : ∃ r : Bytes, b = r.reverse := ⟨b.reverse, by simp⟩
  induction r with
  | nil => rfl
  | cons x r ih =>
    have hx := x.toNat_lt
    rw [List.reverse_cons, toNat_append_singleton, List.length_append, List.length_singleton, ofNat]
    have h1 : (toNat r.reverse * 256 + x.toNat) / 256 = toNat r.reverse := by omega
    have h2 : UInt8.ofNat (toNat r.reverse * 256 + x.toNat) = x := by
      apply UInt8.toNat_inj.mp
      rw [UInt8.toNat_ofNat']
      omega
    rw [h1, h2, ih]

@[simp] theorem copies_eq_replicate {α : Type} (n : Nat) (make : Unit → α) :
    copies n make = List.replicate n (make ()) := by
  cases n <;> rfl

@[simp] theorem length_zeros (n : Nat) : (zeros n).length = n := by simp [zeros]

theorem toNat_of_isZero {b : Bytes} (h : isZero b = true) : toNat b = 0 := by
  have hb : b = List.replicate b.length 0 := List.eq_replicate_iff.mpr ⟨rfl, by simpa [isZero] using h⟩
  rw [hb]
  induction b.length with
  | zero => rfl
  | succ n ih => rw [List.replicate_succ', toNat_append_singleton, ih]; rfl

theorem length_padTo {n : Nat} {b : Bytes} (h : b.length ≤ n) : (padTo n b).length = n := by
  simp [padTo]; omega

end Bytes

end VeiledLedger
