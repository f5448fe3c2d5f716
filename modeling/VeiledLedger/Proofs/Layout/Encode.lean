/-
  VeiledLedger.Proofs.Layout.Encode — what a value that could be written looks like.

  For each form of layout, the values it takes and the bytes it writes for them. Whatever the
  value, as many bytes are written as the layout is long. A layout takes a structure or a list
  if it takes each of its parts.

  Main statements: `encode_list_eq_ok` and its like for the other forms, `length_encode`,
  `encodeAt_eq_ok`, `takes_struct`.
-/

import VeiledLedger.Layout.Encode
import VeiledLedger.Proofs.Outcome

namespace VeiledLedger

theorem reserve_eq_ok {n width : Nat} {u : Unit} : reserve n width = .ok u ↔ n * width < 2 ^ 63 := by
  unfold reserve
  split
  · rename_i h
    exact iff_of_true rfl h
  · rename_i h
    exact iff_of_false nofun h

namespace Layout

variable {v : Value} {b : Bytes}

/-! ## One lemma for each form of layout -/

attribute [local simp] encode

theorem encode_bool_eq_ok : encode .bool v = .ok b ↔ ∃ x, v = .bool x ∧ b = [if x then 1 else 0] := by
  cases v <;> simp [eq_comm]

/-- A number is written if its width is the declared one. -/
theorem number_eq_ok {w w' : Width} {n : BitVec w'.bits} {e : Obstacle} :
    (if w = w' then Except.ok (Bytes.ofNat w.bytes n.toNat) else .error e) = .ok b ↔
      ∃ m : BitVec w.bits, (w' = w ∧ n ≍ m) ∧ b = Bytes.ofNat w.bytes m.toNat := by
  split
  · rename_i hw
    subst hw
    simp [eq_comm]
  · rename_i hw
    simp only [reduceCtorEq, false_iff]
    rintro ⟨m, ⟨h, -⟩, -⟩
    exact hw h.symm

theorem encode_unsigned_eq_ok {w : Width} :
    encode (.unsigned w) v = .ok b ↔ ∃ n, v = .unsigned w n ∧ b = Bytes.ofNat w.bytes n.toNat := by
  cases v with
  | unsigned w' n =>
    rw [encode, number_eq_ok]
    simp only [Value.unsigned.injEq]
  | _ => simp

theorem encode_signed_eq_ok {w : Width} :
    encode (.signed w) v = .ok b ↔ ∃ n, v = .signed w n ∧ b = Bytes.ofNat w.bytes n.toNat := by
  cases v with
  | signed w' n =>
    rw [encode, number_eq_ok]
    simp only [Value.signed.injEq]
  | _ => simp

theorem encode_exactBytes_eq_ok {n : Nat} : encode (.exactBytes n) v = .ok b ↔ v = .bytes b ∧ b.length = n := by
  cases v with
  | bytes x =>
    rw [encode]
    split
    · rename_i hx
      simp only [Except.ok.injEq, Value.bytes.injEq]
      exact ⟨fun h => ⟨h, h ▸ hx⟩, fun h => h.1⟩
    · rename_i hx
      simp only [reduceCtorEq, Value.bytes.injEq, false_iff]
      rintro ⟨rfl, h⟩
      exact hx h
  | _ => simp

theorem encode_bytes_eq_ok {c : Nat} :
    encode (.bytes c) v = .ok b ↔ ∃ x, v = .bytes x ∧ x.length ≤ c ∧ b = writeBytes c x := by
  cases v with
  | bytes x =>
    rw [encode]
    split
    · rename_i hx
      simp [hx, eq_comm]
    · rename_i hx
      simp [hx]
  | _ => simp

theorem encode_string_eq_ok {charset : Charset} {c : Nat} : encode (.string charset c) v = .ok b ↔
    ∃ s x, v = .string s ∧ encodeText charset s = .ok x ∧ x.length ≤ c ∧ b = writeBytes c x := by
  cases v with
  | string s =>
    rw [encode, Except.bind_eq_ok]
    constructor
    · rintro ⟨x, hx, h⟩
      split at h
      · rename_i hlen
        cases h
        exact ⟨s, x, rfl, hx, hlen, rfl⟩
      · cases h
    · rintro ⟨_, x, h, hx, hlen, rfl⟩
      cases h
      exact ⟨x, hx, if_pos hlen⟩
  | _ => simp

theorem encode_list_eq_ok {c : Nat} {e : Layout} : encode (.list c e) v = .ok b ↔
    ∃ vs used unused, v = .list vs ∧ vs.length ≤ c ∧ encodeSlots (encode e) 0 vs = .ok used ∧
      encodeFillers (encode e) e vs.length (c - vs.length) = .ok unused ∧
      b = writeCount c vs.length ++ used ++ unused := by
  cases v with
  | list vs =>
    rw [encode]
    split
    · rename_i hlen
      rw [Except.bind_eq_ok]
      constructor
      · rintro ⟨used, hused, h⟩
        obtain ⟨unused, hunused, h⟩ := Except.bind_eq_ok.mp h
        cases h
        exact ⟨vs, used, unused, rfl, hlen, hused, hunused, rfl⟩
      · rintro ⟨_, used, unused, h, -, hused, hunused, rfl⟩
        cases h
        exact ⟨used, hused, Except.bind_eq_ok.mpr ⟨unused, hunused, rfl⟩⟩
    · rename_i hlen
      simp only [reduceCtorEq, false_iff]
      rintro ⟨_, used, unused, h, hle, -⟩
      cases h
      exact hlen hle
  | _ => simp

theorem encode_exactList_eq_ok {n : Nat} {e : Layout} : encode (.exactList n e) v = .ok b ↔
    ∃ vs, v = .list vs ∧ vs.length = n ∧ n * Value.width < 2 ^ 63 ∧ encodeSlots (encode e) 0 vs = .ok b := by
  cases v with
  | list vs =>
    rw [encode]
    split
    · rename_i hlen
      simp [hlen, Except.bind_eq_ok, reserve_eq_ok]
    · rename_i hlen
      simp [hlen]
  | _ => simp

theorem encode_nullable_eq_ok {e : Layout} : encode (.nullable e) v = .ok b ↔
    (∃ x y, v = .nullable (some x) ∧ encode e x = .ok y ∧ b = 1 :: y) ∨
      (∃ w y, v = .nullable none ∧ filler e = .ok w ∧ encode e w = .ok y ∧ b = 0 :: y) := by
  cases v with
  | nullable o =>
    cases o with
    | none =>
      rw [encode, Except.bind_eq_ok]
      simp only [Except.map_eq_ok]
      simp [eq_comm]
    | some x =>
      rw [encode, Except.map_eq_ok]
      simp [eq_comm]
  | _ => simp

theorem encode_struct_eq_ok {fs : List (String × Layout)} : encode (.struct fs) v = .ok b ↔
    ∃ vs, v = .struct vs ∧ fs.length = vs.length ∧ encodeFields fs vs = .ok b := by
  cases v with
  | struct vs =>
    rw [encode]
    split
    · rename_i hlen
      simp [hlen]
    · rename_i hlen
      simp [hlen]
  | _ => simp

/-! ## Slots and fields -/

theorem under_eq_ok {α : Type} {step : PathStep} {r : Except Obstacle α} {a : α} :
    Except.under step r = .ok a ↔ r = .ok a :=
  Except.mapError_eq_ok

theorem encodeSlots_cons_eq_ok {write : Value → Except Obstacle Bytes} {i : Nat} {vs : List Value} :
    encodeSlots write i (v :: vs) = .ok b ↔
      ∃ x y, write v = .ok x ∧ encodeSlots write (i + 1) vs = .ok y ∧ b = x ++ y := by
  rw [encodeSlots, Except.both_eq_ok]
  simp only [under_eq_ok]

theorem encodeFields_nil : encodeFields [] [] = .ok [] := by
  rw [encodeFields]
  rintro _ _ _ _ _ h
  cases h

theorem encodeFields_cons_eq_ok {field : String} {t : Layout} {fs : List (String × Layout)} {vs : List Value} :
    encodeFields ((field, t) :: fs) (v :: vs) = .ok b ↔
      ∃ x y, encode t v = .ok x ∧ encodeFields fs vs = .ok y ∧ b = x ++ y := by
  rw [encodeFields, Except.both_eq_ok]
  simp only [under_eq_ok]

/-- All fillers are written alike. -/
theorem encodeFillers_eq_ok {write : Value → Except Obstacle Bytes} {e : Layout} {i n : Nat} :
    encodeFillers write e i n = .ok b ↔
      ∃ w, filler e = .ok w ∧ ((n = 0 ∧ b = []) ∨ ∃ x, n ≠ 0 ∧ write w = .ok x ∧ b = (List.replicate n x).flatten) := by
  rw [encodeFillers, Except.bind_eq_ok]
  refine exists_congr fun w => and_congr_right fun _ => ?_
  split
  · rename_i hn
    simp [hn, eq_comm]
  · rename_i hn
    simp only [Except.map_eq_ok, under_eq_ok]
    simp [hn, eq_comm]

/-! ## Lengths -/

theorem length_writeBytes {c : Nat} {x : Bytes} (h : x.length ≤ c) : (writeBytes c x).length = countWidth c + c := by
  simp only [writeBytes, writeCount, List.length_append, Bytes.length_ofNat, Bytes.length_zeros]
  omega

theorem length_encodeSlots {write : Value → Except Obstacle Bytes} {k : Nat}
    (hw : ∀ {v b}, write v = .ok b → b.length = k) :
    ∀ {i : Nat} {vs : List Value} {b : Bytes}, encodeSlots write i vs = .ok b → b.length = vs.length * k
  | _, [], _, h => by
    cases h
    simp
  | _, v :: vs, _, h => by
    obtain ⟨x, y, hx, hy, rfl⟩ := encodeSlots_cons_eq_ok.mp h
    rw [List.length_append, hw hx, length_encodeSlots hw hy, List.length_cons, Nat.succ_mul, Nat.add_comm]

theorem length_encodeFillers {write : Value → Except Obstacle Bytes} {k : Nat}
    (hw : ∀ {v b}, write v = .ok b → b.length = k) {e : Layout} {i n : Nat}
    (h : encodeFillers write e i n = .ok b) : b.length = n * k := by
  obtain ⟨w, -, ⟨rfl, rfl⟩ | ⟨x, -, hx, rfl⟩⟩ := encodeFillers_eq_ok.mp h
  · simp
  · simp [hw hx]

mutual

/-- What is written for a value is as long as the layout, whatever the value. -/
theorem length_encode : ∀ {t : Layout} {v : Value} {b : Bytes}, encode t v = .ok b → b.length = t.size
  | .bool, _, _, h => by
    obtain ⟨x, -, rfl⟩ := encode_bool_eq_ok.mp h
    rfl
  | .unsigned w, _, _, h => by
    obtain ⟨n, -, rfl⟩ := encode_unsigned_eq_ok.mp h
    rw [Bytes.length_ofNat, size]
  | .signed w, _, _, h => by
    obtain ⟨n, -, rfl⟩ := encode_signed_eq_ok.mp h
    rw [Bytes.length_ofNat, size]
  | .exactBytes n, _, _, h => by
    rw [(encode_exactBytes_eq_ok.mp h).2, size]
  | .bytes c, _, _, h => by
    obtain ⟨x, -, hx, rfl⟩ := encode_bytes_eq_ok.mp h
    rw [length_writeBytes hx, size]
  | .string charset c, _, _, h => by
    obtain ⟨s, x, -, -, hx, rfl⟩ := encode_string_eq_ok.mp h
    rw [length_writeBytes hx, size]
  | .list c e, _, _, h => by
    obtain ⟨vs, used, unused, -, hlen, hused, hunused, rfl⟩ := encode_list_eq_ok.mp h
    have hslots := length_encodeSlots length_encode hused
    have hfillers := length_encodeFillers length_encode hunused
    rw [List.length_append, List.length_append, hslots, hfillers, writeCount, Bytes.length_ofNat, Nat.add_assoc,
      ← Nat.add_mul, Nat.add_sub_cancel' hlen, size]
  | .exactList n e, _, _, h => by
    obtain ⟨vs, -, rfl, -, hslots⟩ := encode_exactList_eq_ok.mp h
    rw [length_encodeSlots length_encode hslots, size]
  | .nullable e, _, _, h => by
    rw [size, Nat.add_comm]
    rcases encode_nullable_eq_ok.mp h with ⟨x, y, -, hy, rfl⟩ | ⟨w, y, -, -, hy, rfl⟩
    · rw [List.length_cons, length_encode hy]
    · rw [List.length_cons, length_encode hy]
  | .struct fs, _, _, h => by
    obtain ⟨vs, -, hlen, hfields⟩ := encode_struct_eq_ok.mp h
    rw [length_encodeFields hlen hfields, size]

theorem length_encodeFields : ∀ {fs : List (String × Layout)} {vs : List Value} {b : Bytes},
    fs.length = vs.length → encodeFields fs vs = .ok b → b.length = sizeFields fs
  | [], [], _, _, h => by
    rw [encodeFields_nil] at h
    cases h
    rfl
  | (field, t) :: fs, v :: vs, _, hlen, h => by
    obtain ⟨x, y, hx, hy, rfl⟩ := encodeFields_cons_eq_ok.mp h
    rw [List.length_append, length_encode hx, length_encodeFields (by simpa using hlen) hy, sizeFields]

end

/-! ## Which values can be written -/

/-- There is room for all the bytes of a value. -/
def HasRoom (t : Layout) : Prop := ∃ n, t.size? = some n ∧ n < 2 ^ 63

theorem reserveAll_eq_ok {t : Layout} {u : Unit} : reserveAll t = .ok u ↔ t.HasRoom := by
  unfold reserveAll HasRoom
  cases t.size? with
  | none => simp
  | some n => simp [reserve_eq_ok]

theorem encodeAt_eq_ok {t : Layout} {path : String} : t.encodeAt path v = .ok b ↔ t.HasRoom ∧ encode t v = .ok b := by
  rw [encodeAt, Except.mapError_eq_ok, Except.bind_eq_ok]
  simp only [reserveAll_eq_ok, exists_const]

def Takes (t : Layout) (v : Value) : Prop := ∃ b, encode t v = .ok b

theorem takes_exactBytes {n : Nat} {x : Bytes} : (exactBytes n).Takes (.bytes x) ↔ x.length = n := by
  simp only [Takes, encode_exactBytes_eq_ok, Value.bytes.injEq, exists_eq_left']

theorem encodeSlots_isOk {write : Value → Except Obstacle Bytes} :
    ∀ {i : Nat} {vs : List Value}, (∃ b, encodeSlots write i vs = .ok b) ↔ ∀ v ∈ vs, ∃ b, write v = .ok b
  | _, [] => ⟨fun _ v hv => (by cases hv), fun _ => ⟨[], rfl⟩⟩
  | i, v :: vs => by
    rw [List.forall_mem_cons, ← encodeSlots_isOk (i := i + 1)]
    simp only [encodeSlots_cons_eq_ok]
    constructor
    · rintro ⟨_, x, y, hx, hy, -⟩
      exact ⟨⟨x, hx⟩, ⟨y, hy⟩⟩
    · rintro ⟨⟨x, hx⟩, ⟨y, hy⟩⟩
      exact ⟨x ++ y, x, y, hx, hy, rfl⟩

theorem takes_exactList {n : Nat} {e : Layout} {vs : List Value} :
    (exactList n e).Takes (.list vs) ↔ vs.length = n ∧ n * Value.width < 2 ^ 63 ∧ ∀ v ∈ vs, e.Takes v := by
  simp only [Takes, encode_exactList_eq_ok, Value.list.injEq, exists_eq_left', exists_and_left]
  rw [encodeSlots_isOk]

theorem encodeFields_isOk : ∀ {fs : List (String × Layout)} {vs : List Value},
    (fs.length = vs.length ∧ ∃ b, encodeFields fs vs = .ok b) ↔ List.Forall₂ (fun f v => f.2.Takes v) fs vs
  | [], [] => ⟨fun _ => .nil, fun _ => ⟨rfl, [], encodeFields_nil⟩⟩
  | [], _ :: _ => by simp
  | _ :: _, [] => by simp
  | (field, t) :: fs, v :: vs => by
    rw [List.forall₂_cons, ← encodeFields_isOk, List.length_cons, List.length_cons, Nat.add_right_cancel_iff]
    simp only [encodeFields_cons_eq_ok]
    constructor
    · rintro ⟨hlen, _, x, y, hx, hy, -⟩
      exact ⟨⟨x, hx⟩, hlen, y, hy⟩
    · rintro ⟨⟨x, hx⟩, hlen, y, hy⟩
      exact ⟨hlen, x ++ y, x, y, hx, hy, rfl⟩

/-- A structure is written if each field takes its value. -/
theorem takes_struct {fs : List (String × Layout)} {vs : List Value} :
    (struct fs).Takes (.struct vs) ↔ List.Forall₂ (fun f v => f.2.Takes v) fs vs := by
  simp only [Takes, encode_struct_eq_ok, Value.struct.injEq, exists_eq_left', exists_and_left]
  exact encodeFields_isOk

end Layout

end VeiledLedger
