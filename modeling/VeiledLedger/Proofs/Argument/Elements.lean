/-
  VeiledLedger.Proofs.Argument.Elements — what the elements of a byte string tell of it.

  A piece of 31 bytes is a number below the modulus, so no piece is reduced. Who knows the length
  of a string reads it back from its elements, the last piece too, which may be a short one. The
  elements alone say nothing of how long that piece was: the numbers of two strings are equal
  piece by piece exactly if the strings are equal once both are filled with zeros up to whole
  pieces.

  A backend admits a public input by the number of its elements. Among the strings it admits,
  those of one length are told apart, and so are the public inputs of one padding, which all
  have one length. A string and the same string with a zero behind it are not, as long as the
  last piece has room for the zero.

  Main statements: `packing_exact`, `pack_eq_iff`, `Backend.accepts_of_verifyUntil`,
  `packed_inputs_differ`.
-/

import Mathlib.Algebra.Order.Floor.Div
import VeiledLedger.Proofs.Argument.Packing

namespace VeiledLedger

namespace Bytes

variable {b c : Bytes} {n : Nat}

/-! ## Numbers with their least byte first -/

theorem toNatLittle_eq (b : Bytes) : toNatLittle b = toNat b.reverse := by
  rw [toNat, List.foldl_reverse]
  unfold toNatLittle
  congr 1
  funext x n
  omega

theorem toNatLittle_lt (b : Bytes) : toNatLittle b < 256 ^ b.length := by
  rw [toNatLittle_eq, ← List.length_reverse]
  exact toNat_lt b.reverse

theorem ofNatLittle_toNatLittle (b : Bytes) : ofNatLittle b.length (toNatLittle b) = b := by
  rw [toNatLittle_eq, ofNatLittle, ← List.length_reverse, ofNat_toNat, List.reverse_reverse]

theorem toNatLittle_inj (hlen : b.length = c.length) (h : toNatLittle b = toNatLittle c) : b = c := by
  rw [← ofNatLittle_toNatLittle b, ← ofNatLittle_toNatLittle c, hlen, h]

theorem toNatLittle_zeros (n : Nat) : toNatLittle (zeros n) = 0 := by
  induction n with
  | zero => rfl
  | succ n ih =>
    show (0 : UInt8).toNat + 256 * toNatLittle (zeros n) = 0
    rw [ih]
    rfl

/-- Zeros behind a string do not change its number. -/
theorem toNatLittle_padTo (n : Nat) (b : Bytes) : toNatLittle (padTo n b) = toNatLittle b := by
  rw [padTo, toNatLittle, List.foldr_append]
  exact congrArg (fun z => b.foldr _ z) (toNatLittle_zeros _)

theorem toNatLittle_eq_iff (hb : b.length ≤ n) (hc : c.length ≤ n) :
    toNatLittle b = toNatLittle c ↔ padTo n b = padTo n c := by
  rw [← toNatLittle_padTo n b, ← toNatLittle_padTo n c]
  exact ⟨toNatLittle_inj ((length_padTo hb).trans (length_padTo hc).symm), fun h => by rw [h]⟩

/-! ## Filling up piece by piece -/

theorem padTo_add (k n : Nat) (b : Bytes) : padTo (k + n) b = padTo k (b.take k) ++ padTo n (b.drop k) := by
  rcases Nat.le_total k b.length with hle | hle
  · have hzeros : k + n - b.length = n - (b.length - k) := by omega
    rw [padTo, padTo, padTo, List.length_take_of_le hle, Nat.sub_self, List.length_drop, hzeros]
    show _ = b.take k ++ [] ++ _
    rw [List.append_nil, ← List.append_assoc, List.take_append_drop]
  · -- all of the string is in the first piece, and the zeros are cut where that ends
    have hzeros : k + n - b.length = k - b.length + n := by omega
    rw [List.take_of_length_le hle, List.drop_of_length_le hle, padTo, padTo, padTo, hzeros, zeros,
      List.replicate_add, List.append_assoc]
    rfl

theorem padTo_concat_zero (h : b.length < n) : padTo n (b ++ [0]) = padTo n b := by
  have hzeros : n - b.length = 1 + (n - (b.length + 1)) := by omega
  rw [padTo, padTo, List.length_append, List.length_singleton, hzeros, zeros, zeros, List.replicate_add,
    List.append_assoc]
  rfl

end Bytes

namespace Argument

/-! ## Pieces as elements -/

theorem val_ofNat {c : Bytes} (hc : c.length ≤ packSize) :
    (Scalar.ofNat (Bytes.toNatLittle c)).val = Bytes.toNatLittle c := by
  have hlt : Bytes.toNatLittle c < scalarModulus :=
    calc Bytes.toNatLittle c < 256 ^ c.length := Bytes.toNatLittle_lt c
      _ ≤ 256 ^ packSize := Nat.pow_le_pow_right (by decide) hc
      _ < scalarModulus := by decide
  exact Nat.mod_eq_of_lt hlt

theorem map_val_pack (b : Bytes) : (pack b).map Fin.val = (Bytes.chunks packSize b).map Bytes.toNatLittle := by
  rw [pack, List.map_map]
  exact List.map_congr_left fun piece hpiece => val_ofNat (Bytes.length_le_of_mem_chunks hpiece)

/-- A string has an element for its first piece, and those of the rest. -/
theorem pack_of_ne_nil {b : Bytes} (hb : b ≠ []) :
    pack b = Scalar.ofNat (Bytes.toNatLittle (b.take packSize)) :: pack (b.drop packSize) := by
  have hpiece : ¬(b = [] ∨ packSize = 0) := not_or.mpr ⟨hb, by decide⟩
  rw [pack, Bytes.chunks, dif_neg hpiece, List.map_cons, pack]

theorem pack_eq_nil {b : Bytes} : pack b = [] ↔ b = [] := by
  refine ⟨fun h => ?_, fun h => ?_⟩
  · by_contra hb
    rw [pack_of_ne_nil hb] at h
    cases h
  · rw [h, pack, Bytes.chunks, dif_pos (.inl rfl), List.map_nil]

/-! ## Reading back -/

/-- The `n` bytes that elements stand for: 31 from each, and from the last what is left. -/
def unpack : (n : Nat) → List Scalar → Bytes
  | _, [] => []
  | n, x :: xs => Bytes.ofNatLittle (min packSize n) x.val ++ unpack (n - packSize) xs

theorem unpack_pack (b : Bytes) : unpack b.length (pack b) = b := by
  induction b using Bytes.chunks.induct packSize with
  | case1 b h =>
    obtain rfl : b = [] := h.resolve_right (by decide)
    rw [pack_eq_nil.mpr rfl]
    rfl
  | case2 b h ih =>
    have hb : b ≠ [] := fun he => h (.inl he)
    have hfirst : (b.take packSize).length ≤ packSize := List.length_take_le packSize b
    rw [pack_of_ne_nil hb, unpack, val_ofNat hfirst, ← List.length_take, Bytes.ofNatLittle_toNatLittle,
      ← List.length_drop, ih, List.take_append_drop]

theorem pack_inj {b c : Bytes} (hlen : b.length = c.length) (h : pack b = pack c) : b = c := by
  rw [← unpack_pack b, ← unpack_pack c, hlen, h]

/-- The elements of a string are the numbers of its pieces of 31 bytes, none of which the modulus
    reduces. There are as many as the length divided by 31, rounded up. With the length they
    give the string back, so no other string of this length has them. -/
theorem packing_exact (b : Bytes) :
    (pack b).length = b.length ⌈/⌉ 31 ∧
    (pack b).map Fin.val = (Bytes.chunks 31 b).map Bytes.toNatLittle ∧
    unpack b.length (pack b) = b ∧
    ∀ c : Bytes, c.length = b.length → (pack c = pack b ↔ c = b) := by
  have hcount : packedSize b.length = b.length ⌈/⌉ 31 := (Nat.ceilDiv_eq_add_pred_div b.length 31).symm
  exact ⟨(length_pack b).trans hcount, map_val_pack b, unpack_pack b,
    fun c hlen => ⟨pack_inj hlen, congrArg pack⟩⟩

/-- Two strings that differ only in their last piece, which has two bytes. -/
theorem lastPiece_told_apart :
    let b : Bytes := Bytes.zeros 31 ++ [1, 0]
    let c : Bytes := Bytes.zeros 31 ++ [0, 1]
    c.length = b.length ∧ (pack b).length = 2 ∧ unpack 33 (pack b) = b ∧ pack c ≠ pack b := by
  intro b c
  obtain ⟨hcount, -, hback, hequal⟩ := packing_exact b
  have hlen : c.length = b.length := rfl
  have hne : c ≠ b := by decide
  have htwo : 33 ⌈/⌉ 31 = 2 := by rw [Nat.ceilDiv_eq_add_pred_div]
  exact ⟨hlen, hcount.trans htwo, hback, fun h => hne ((hequal c hlen).mp h)⟩

/-! ## Strings of different lengths -/

theorem element_eq_iff {b c : Bytes} (hb : b.length ≤ packSize) (hc : c.length ≤ packSize) :
    Scalar.ofNat (Bytes.toNatLittle b) = Scalar.ofNat (Bytes.toNatLittle c) ↔
      Bytes.padTo packSize b = Bytes.padTo packSize c := by
  rw [Fin.ext_iff, val_ofNat hb, val_ofNat hc]
  exact Bytes.toNatLittle_eq_iff hb hc

/-- Two strings with as many elements as one another have the same elements exactly if they are
    equal up to zeros at their ends. -/
theorem pack_eq_iff {k : Nat} {b c : Bytes} (hb : (pack b).length = k) (hc : (pack c).length = k) :
    pack b = pack c ↔ Bytes.padTo (packSize * k) b = Bytes.padTo (packSize * k) c := by
  induction k generalizing b c with
  | zero =>
    obtain rfl := pack_eq_nil.mp (List.length_eq_zero_iff.mp hb)
    obtain rfl := pack_eq_nil.mp (List.length_eq_zero_iff.mp hc)
    exact ⟨fun _ => rfl, fun _ => rfl⟩
  | succ k ih =>
    have hne {x : Bytes} (hx : (pack x).length = k + 1) : x ≠ [] := by
      rintro rfl
      rw [pack_eq_nil.mpr rfl] at hx
      cases hx
    have hb' := hne hb
    have hc' := hne hc
    rw [pack_of_ne_nil hb', List.length_cons] at hb
    rw [pack_of_ne_nil hc', List.length_cons] at hc
    have hfirst (x : Bytes) : (x.take packSize).length ≤ packSize := List.length_take_le packSize x
    have hwhole (x : Bytes) : (Bytes.padTo packSize (x.take packSize)).length = packSize :=
      Bytes.length_padTo (hfirst x)
    rw [pack_of_ne_nil hb', pack_of_ne_nil hc', List.cons.injEq, element_eq_iff (hfirst b) (hfirst c),
      ih (Nat.succ.inj hb) (Nat.succ.inj hc), Nat.mul_succ, Nat.add_comm, Bytes.padTo_add, Bytes.padTo_add]
    exact ⟨fun h => by rw [h.1, h.2], fun h => List.append_inj h ((hwhole b).trans (hwhole c).symm)⟩

/-! ## What a backend admits -/

namespace Backend

def Admits (b : Backend) (x : Bytes) : Prop := (pack x).length = b.shape.publicInput

variable {seed : Digest} {p : Padding} {b : Backend} {x : Bytes}

/-- Every string that is as long as a public input under the padding is admitted. -/
theorem admits_of_length (hb : ofPadding seed p = .ok b) (hx : PublicInput.byteSize? p = some x.length) :
    b.Admits x := by
  obtain ⟨_, m, -, hm, -, rfl⟩ := ofPadding_eq_ok.mp hb
  cases hm.symm.trans hx
  exact length_pack x

/-- A proof is accepted for the elements of a public input that is admitted. -/
theorem accepts_of_verifyUntil [Hasher] {stop : Option BackendError} {proof : Bytes}
    (h : b.verifyUntil stop proof x = .ok true) : b.Admits x ∧ ∃ file, ProofFile.ofBytes proof = .ok file ∧
      b.keys.accepts (Circuit.inputs file.commitment (pack x)) file.proof = true := by
  unfold verifyUntil at h
  dsimp only at h
  split at h
  · cases h
  · rename_i hsize
    have hadmits : (pack x).length = b.shape.publicInput := Decidable.not_not.mp hsize
    obtain ⟨file, hfile, h⟩ := Except.bind_eq_ok.mp h
    split at h
    · cases h
    · obtain ⟨_, -, h⟩ := Except.bind_eq_ok.mp h
      exact ⟨hadmits, file, Except.mapError_eq_ok.mp hfile, Except.ok.inj h⟩

end Backend

section
variable [Hasher]

/-- A backend admits every string that is as long as its public inputs are, and accepts a proof
    for the elements of a string that it admits. Of two strings that it admits the elements are
    the same exactly if the strings differ in nothing but zeros at their ends. So two different
    strings of one length are never taken for one another. -/
theorem packed_inputs_differ {seed : Digest} {p : Padding} {b : Backend} (hb : Backend.ofPadding seed p = .ok b) :
    (∃ n, PublicInput.byteSize? p = some n ∧ ∀ x : Bytes, x.length = n → b.Admits x) ∧
    (∀ (x proof : Bytes) (stop : Option BackendError), b.verifyUntil stop proof x = .ok true →
      b.Admits x ∧ ∃ file, ProofFile.ofBytes proof = .ok file ∧
        b.keys.accepts (Circuit.inputs file.commitment (pack x)) file.proof = true) ∧
    ∀ x y : Bytes, b.Admits x → b.Admits y →
      (pack x = pack y ↔ Bytes.padTo (packSize * b.shape.publicInput) x =
        Bytes.padTo (packSize * b.shape.publicInput) y) ∧
      (x.length = y.length → x ≠ y → ∀ c d, Circuit.inputs c (pack x) ≠ Circuit.inputs d (pack y)) := by
  obtain ⟨_, n, -, hn, -⟩ := Backend.ofPadding_eq_ok.mp hb
  refine ⟨⟨n, hn, fun x hx => Backend.admits_of_length hb (hx ▸ hn)⟩,
    fun x proof stop h => Backend.accepts_of_verifyUntil h,
    fun x y hx hy => ⟨pack_eq_iff hx hy, fun hlen hne c d h => hne (pack_inj hlen (List.cons.inj h).2)⟩⟩

end

def uniformInput (d : Digest) : Bytes := PublicInput.toBytes ⟨d, [d, d], [d]⟩

theorem length_uniformInput (d : Digest) : (uniformInput d).length = 132 := by
  rw [uniformInput, PublicInput.length_toBytes]
  rfl

theorem ofPadding_standard : Backend.ofPadding .zero .standard = .ok ⟨.zero, ⟨44, 5⟩⟩ :=
  Backend.ofPadding_eq_ok.mpr ⟨1355, 132, by decide, by decide, by decide, rfl⟩

theorem uniformInputs_differ : ∃ b, Backend.ofPadding .zero .standard = .ok b ∧
    let x := uniformInput .zero
    let y := uniformInput ⟨Bytes.zeros 31 ++ [1], rfl⟩
    b.Admits x ∧ b.Admits y ∧ x.length = y.length ∧ x ≠ y ∧
    ∀ c d, Circuit.inputs c (pack x) ≠ Circuit.inputs d (pack y) := by
  obtain ⟨⟨n, hn, hadmits⟩, -, hdiffer⟩ := packed_inputs_differ ofPadding_standard
  cases Option.some.inj (hn.symm.trans (show PublicInput.byteSize? .standard = some 132 by decide))
  have hx := hadmits _ (length_uniformInput .zero)
  have hy := hadmits _ (length_uniformInput ⟨Bytes.zeros 31 ++ [1], rfl⟩)
  have hlen := (length_uniformInput .zero).trans (length_uniformInput ⟨Bytes.zeros 31 ++ [1], rfl⟩).symm
  have hne : uniformInput .zero ≠ uniformInput ⟨Bytes.zeros 31 ++ [1], rfl⟩ := by decide +kernel
  exact ⟨_, ofPadding_standard, hx, hy, hlen, hne, (hdiffer _ _ hx hy).2 hlen hne⟩

/-- A zero behind a public input goes unseen: both strings are admitted and have the same
    elements, and every proof gets the same verdict for both. -/
theorem trailing_zero_unseen : ∃ b, Backend.ofPadding .zero .standard = .ok b ∧
    let x := uniformInput .zero
    b.Admits x ∧ b.Admits (x ++ [0]) ∧ x ≠ x ++ [0] ∧ pack x = pack (x ++ [0]) ∧
    ∀ stop proof, b.verifyUntil stop proof x = b.verifyUntil stop proof (x ++ [0]) := by
  refine ⟨_, ofPadding_standard, ?_⟩
  intro x
  have hlen : x.length = 132 := length_uniformInput .zero
  have hx : (pack x).length = 5 := by
    rw [length_pack, hlen]
    rfl
  have hy : (pack (x ++ [0])).length = 5 := by
    rw [length_pack, List.length_append, hlen]
    rfl
  -- the last piece has eight bytes and room for 23 more
  have hroom : x.length < packSize * 5 := hlen ▸ by decide
  have hpack : pack x = pack (x ++ [0]) := (pack_eq_iff hx hy).mpr (Bytes.padTo_concat_zero hroom).symm
  refine ⟨hx, hy, fun h => ?_, hpack, fun stop proof => ?_⟩
  · cases List.append_right_eq_self.mp h.symm
  · unfold Backend.verifyUntil
    rw [hpack]

end Argument

end VeiledLedger
