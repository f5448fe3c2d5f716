/-
  VeiledLedger.Proofs.Argument.Packing — what a backend serves that has accepted a padding.

  A backend is made for the number of elements into which every witness and every public input
  under its padding are packed. It accepts a padding for these two numbers alone. The witness
  also writes the nine numbers of its padding into 32 bits each. Six of them count slots, and
  the number of elements bounds them. The three widths are not bounded so: a group without
  slots takes no bytes however wide it is declared, and one slot may be wider than 32 bits say
  and still leave few enough elements. Under such a padding no witness can be written.

  Main statements: `length_pack`, `Backend.ofPadding_eq_ok`, `Backend.eq_of_proveUntil_error`,
  `accepted_padding_serves`.
-/

import VeiledLedger.Argument.Backend
import VeiledLedger.Proofs.Witness.Format

namespace VeiledLedger

/-! ## Pieces -/

theorem Bytes.length_chunks {α : Type} {k : Nat} (hk : 0 < k) (b : List α) :
    (chunks k b).length = (b.length + (k - 1)) / k := by
  induction b using chunks.induct k with
  | case1 b h =>
    obtain rfl : b = [] := h.resolve_right (by omega)
    rw [chunks, dif_pos (.inl rfl), List.length_nil, List.length_nil, Nat.div_eq_of_lt (by omega)]
  | case2 b h ih =>
    have hpos : 0 < b.length := List.length_pos_iff.mpr fun he => h (.inl he)
    rw [chunks, dif_neg h, List.length_cons, ih, List.length_drop, ← Nat.add_div_right _ hk]
    -- the last piece may be short, and takes an element all the same
    rcases Nat.le_total k b.length with hle | hle
    · congr 1
      omega
    · rw [Nat.sub_eq_zero_of_le hle, Nat.div_eq_of_lt_le (k := 1) (by omega) (by omega),
        Nat.div_eq_of_lt_le (k := 1) (by omega) (by omega)]

theorem Bytes.length_le_of_mem_chunks {α : Type} {k : Nat} {b piece : List α} (h : piece ∈ chunks k b) :
    piece.length ≤ k := by
  induction b using chunks.induct k with
  | case1 b hb =>
    rw [chunks, dif_pos hb] at h
    cases h
  | case2 b hb ih =>
    rw [chunks, dif_neg hb] at h
    rcases List.mem_cons.mp h with rfl | h
    · exact List.length_take_le k b
    · exact ih h

theorem Digest.length_flatMap (l : List Digest) : (l.flatMap toBytes).length = 32 * l.length := by
  induction l with
  | nil => rfl
  | cons d l ih =>
    rw [List.flatMap_cons, List.length_append, d.size, ih, List.length_cons]
    omega

namespace PublicInput

theorem length_toBytes (p : PublicInput) : p.toBytes.length = 36 + 32 * (p.inputs.length + p.references.length) := by
  rw [toBytes, Envelope.wrap, List.length_append, Bytes.length_ofNat, List.length_append, p.txId.size,
    Digest.length_flatMap, List.length_append]
  omega

theorem byteSize?_eq_some {p : Padding} {n : Nat} (h : byteSize? p = some n) :
    n = 36 + 32 * (p.inputs + p.references) := by
  obtain ⟨slots, hslots, h⟩ := Option.bind_eq_some_iff.mp h
  obtain ⟨digests, hdigests, h⟩ := Option.bind_eq_some_iff.mp h
  obtain ⟨body, hbody, h⟩ := Option.bind_eq_some_iff.mp h
  have hslots := (word?_eq_some.mp hslots).2
  have hdigests := (word?_eq_some.mp hdigests).2
  have hbody := (word?_eq_some.mp hbody).2
  have htotal := (word?_eq_some.mp h).2
  omega

end PublicInput

/-! ## The header of a witness -/

namespace Witness

/-- Numbers are refused for one that does not fit the header, which is named. -/
theorem headerValues_of_large : ∀ {ns : List Nat}, (∃ n ∈ ns, 2 ^ 32 ≤ n) → ∃ n ∈ ns, 2 ^ 32 ≤ n ∧
    headerValues ns = .error (.malformed ("shape value " ++ toString n ++ " exceeds u32"))
  | [], h => by
    obtain ⟨n, hn, -⟩ := h
    cases hn
  | n :: ns, h => by
    rw [headerValues]
    by_cases hlt : n < 2 ^ 32
    · have htail : ∃ m ∈ ns, 2 ^ 32 ≤ m := by
        obtain ⟨m, hm, hlarge⟩ := h
        rcases List.mem_cons.mp hm with rfl | hm
        · omega
        · exact ⟨m, hm, hlarge⟩
      obtain ⟨m, hm, hlarge, hrefused⟩ := headerValues_of_large htail
      rw [if_pos hlt, hrefused]
      exact ⟨m, List.mem_cons_of_mem _ hm, hlarge, rfl⟩
    · rw [if_neg hlt]
      exact ⟨n, List.mem_cons_self, Nat.not_lt.mp hlt, rfl⟩

end Witness

def Padding.widths (p : Padding) : List Nat := [p.outputs.leafSize, p.commands.leafSize, p.utxoSize]

theorem Padding.widths_subset (p : Padding) : p.widths ⊆ Witness.shapeNumbers p := by
  simp [widths, Witness.shapeNumbers]

theorem Token.stopped?_ne_invalidInput (token : Token) (now : Nat) (reason : String) :
    token.stopped? now ≠ some (.invalidInput reason) := by
  unfold stopped?
  repeat' split
  all_goals simp

namespace Argument

/-! ## Elements -/

theorem length_pack (b : Bytes) : (pack b).length = packedSize b.length := by
  rw [pack, List.length_map, Bytes.length_chunks (by decide), packedSize]

theorem le_of_packedSize (n : Nat) : n ≤ 31 * packedSize n := by
  unfold packedSize packSize
  omega

namespace Backend

variable {seed : Digest} {p : Padding} {b : Backend}

theorem ofPadding_eq_ok : ofPadding seed p = .ok b ↔ ∃ n m, Witness.byteSize? p = some n ∧
    PublicInput.byteSize? p = some m ∧ packedSize n < 2 ^ 32 ∧ b = ⟨seed, packedSize n, packedSize m⟩ := by
  unfold ofPadding CircuitShape.ofPadding CircuitShape.ofPadding?
  cases Witness.byteSize? p with
  | none => simp
  | some n =>
    cases PublicInput.byteSize? p with
    | none => simp
    | some m =>
      simp only [Option.bind_eq_bind, Option.bind_some, Option.pure_def, Option.some.injEq, exists_and_left,
        exists_eq_left']
      split
      · rename_i hlt
        simp [hlt, eq_comm]
      · rename_i hlt
        simp [hlt]

/-- No number of slots is beyond 32 bits under a padding that is served. -/
theorem capacity_lt_of_ofPadding (h : ofPadding seed p = .ok b) (kind : GroupKind) :
    (p.shape kind).capacity < 2 ^ 32 := by
  obtain ⟨n, -, hn, -, hlt, -⟩ := ofPadding_eq_ok.mp h
  have hroom := ((Witness.slots_of_byteSize? hn).1 kind).2
  have hpacked := le_of_packedSize n
  omega

/-- What does not fit the header of a witness is a width. -/
theorem mem_widths_of_large (h : ofPadding seed p = .ok b) {n : Nat} (hn : n ∈ Witness.shapeNumbers p)
    (hlarge : 2 ^ 32 ≤ n) : n ∈ p.widths := by
  have hcapacity (kind : GroupKind) : n ≠ (p.shape kind).capacity := by
    have := capacity_lt_of_ofPadding h kind
    omega
  simp only [Witness.shapeNumbers, List.mem_cons, List.not_mem_nil, or_false] at hn
  rcases hn with hn | hn | rfl | hn | rfl | hn | hn | hn | rfl
  · exact absurd hn (hcapacity .inputs)
  · exact absurd hn (hcapacity .outputs)
  · exact List.mem_cons_self
  · exact absurd hn (hcapacity .commands)
  · exact List.mem_cons_of_mem _ List.mem_cons_self
  · exact absurd hn (hcapacity .attachments)
  · exact absurd hn (hcapacity .signers)
  · exact absurd hn (hcapacity .references)
  · exact List.mem_cons_of_mem _ (List.mem_cons_of_mem _ List.mem_cons_self)

variable [Hasher] {w : Witness} {bytes : Bytes}

/-- A backend that is given what it serves fails only if the request has to stop. -/
theorem eq_of_proveUntil_error (hread : Witness.ofBytes bytes = .ok w)
    (hwitness : (pack bytes).length = b.shape.witness)
    (hpublic : (pack w.publicInput.toBytes).length = b.shape.publicInput) {randomness : Bytes}
    {stop : Option BackendError} {e : BackendError} (h : b.proveUntil randomness stop bytes = .error e) :
    stop = some e := by
  have hshape : (Circuit.honest (pack bytes) (pack w.publicInput.toBytes)).shape = b.shape := by
    show CircuitShape.mk (pack bytes).length (pack w.publicInput.toBytes).length = b.shape
    rw [hwitness, hpublic]
  unfold proveUntil at h
  rw [hread] at h
  simp only [hshape, ne_eq, not_true_eq_false, if_false] at h
  cases stop with
  | none => cases h
  | some e' =>
    cases h
    rfl

end Backend

section
variable [Hasher]

/-! ## A padding that is served -/

/-- The public input of a witness under an accepted padding always has the elements that the
    backend serves. The witness has them if the widths of its padding fit 32 bits, and then no
    proof of it is refused for its input, as long as its salt is not all zeros. If some width does
    not, the witness cannot be written. -/
theorem accepted_padding_serves {seed : Digest} {p : Padding} {b : Backend} (hb : Backend.ofPadding seed p = .ok b)
    {tx : Transaction} {r : Registry} {lookup : UtxoLookup} {w : Witness}
    (hw : Witness.assemble tx r lookup p = .ok w) :
    (pack w.publicInput.toBytes).length = b.shape.publicInput ∧
    ((∀ n ∈ p.widths, n < 2 ^ 32) → ∃ bytes, w.toBytes = .ok bytes ∧ (pack bytes).length = b.shape.witness ∧
      (w.salt.bytes ≠ Digest.zero → ∀ randomness (token : Token) now reason,
        b.proveUntil randomness (token.stopped? now) bytes ≠ .error (.invalidInput reason))) ∧
    ((∃ n ∈ p.widths, 2 ^ 32 ≤ n) → ∃ n ∈ p.widths, 2 ^ 32 ≤ n ∧
      w.toBytes = .error (.malformed ("shape value " ++ toString n ++ " exceeds u32"))) := by
  obtain ⟨n, m, hn, hm, hlt, rfl⟩ := Backend.ofPadding_eq_ok.mp hb
  obtain ⟨rfl, hdeclared⟩ := Witness.declared_of_assemble hw
  have hpublic : (pack w.publicInput.toBytes).length = packedSize m := by
    rw [length_pack, PublicInput.length_toBytes, PublicInput.byteSize?_eq_some hm, Witness.publicInput,
      List.length_map, List.length_map, hdeclared.inputs, hdeclared.references]
  refine ⟨hpublic, fun hwidths => ?_, fun hwide => ?_⟩
  · have hnumbers : ∀ n ∈ Witness.shapeNumbers w.padding, n < 2 ^ 32 := by
      intro n hmem
      by_contra hge
      exact hge (hwidths n (Backend.mem_widths_of_large hb hmem (Nat.not_lt.mp hge)))
    obtain ⟨hfits, hsize⟩ := Witness.byteSize?_eq_some hn
    obtain ⟨k, hk⟩ := Option.isSome_iff_exists.mp hfits
    have hroom : (Witness.bodyLayout w.padding).HasRoom := by
      have hpacked := le_of_packedSize n
      rw [Layout.size_eq_of_size? hk] at hsize
      exact ⟨k, hk, by omega⟩
    obtain ⟨bytes, hbytes⟩ := (Witness.toBytes_isOk hdeclared.regular).mpr ⟨hdeclared, hnumbers, hroom⟩
    have hwitness : (pack bytes).length = packedSize n :=
      (length_pack bytes).trans (congrArg packedSize ((Witness.length_of_toBytes hbytes).trans hsize.symm))
    refine ⟨bytes, hbytes, hwitness, fun hsalt randomness token now reason hrefused => ?_⟩
    obtain ⟨-, hwriting⟩ := Witness.toBytes_eq_ok.mp hbytes
    have hread := Witness.ofBytes_eq_ok.mpr ⟨hsalt, hdeclared.regular, hfits, hwriting⟩
    exact token.stopped?_ne_invalidInput now reason (Backend.eq_of_proveUntil_error hread hwitness hpublic hrefused)
  · obtain ⟨n, hmem, hge⟩ := hwide
    obtain ⟨k, hk, hkge, hrefused⟩ := Witness.headerValues_of_large ⟨n, Padding.widths_subset _ hmem, hge⟩
    refine ⟨k, Backend.mem_widths_of_large hb hk hkge, hkge, ?_⟩
    rw [Witness.toBytes, hrefused]
    rfl

end

/-- One input is spent under the padding of a ledger that declares none. -/
theorem oneInput_served : ∃ b w bytes, Backend.ofPadding .zero .standard = .ok b ∧ b.shape = ⟨44, 5⟩ ∧
    Witness.assemble View.oneInput .builtin (fun _ => some (.padding 64)) .standard = .ok w ∧
    (pack w.publicInput.toBytes).length = 5 ∧ w.toBytes = .ok bytes ∧ (pack bytes).length = 44 ∧
    ∀ randomness (token : Token) now reason,
      b.proveUntil randomness (token.stopped? now) bytes ≠ .error (.invalidInput reason) := by
  obtain ⟨b, hb, hshape⟩ : ∃ b, Backend.ofPadding .zero .standard = .ok b ∧ b.shape = ⟨44, 5⟩ :=
    ⟨_, Backend.ofPadding_eq_ok.mpr ⟨1355, 132, by decide, by decide, by decide, rfl⟩, by decide⟩
  obtain ⟨w, hw, hsalt⟩ : ∃ w, Witness.assemble View.oneInput .builtin (fun _ => some (.padding 64)) .standard = .ok w ∧
      w.salt.bytes ≠ Digest.zero := ⟨_, rfl, by decide⟩
  obtain ⟨hpublic, hserved, -⟩ := accepted_padding_serves hb hw
  obtain ⟨bytes, hbytes, hwitness, hproved⟩ := hserved (by decide)
  rw [hshape] at hpublic hwitness
  exact ⟨b, w, bytes, hb, hshape, hw, hpublic, hbytes, hwitness, hproved hsalt⟩

def wideNothing : Padding := ⟨0, ⟨0, 2 ^ 32⟩, ⟨0, 0⟩, 0, 0, 0, 64⟩

/-- The padding is accepted twice, and the witness of an empty transaction cannot be written. -/
theorem unwritable_witness : ∃ b w, wideNothing.validate = .ok () ∧ Backend.ofPadding .zero wideNothing = .ok b ∧
    Witness.assemble { View.oneInput with inputs := [] } .builtin (fun _ => none) wideNothing = .ok w ∧
    w.toBytes = .error (.malformed "shape value 4294967296 exceeds u32") := by
  obtain ⟨w, hw, hbytes⟩ : ∃ w,
      Witness.assemble { View.oneInput with inputs := [] } .builtin (fun _ => none) wideNothing = .ok w ∧
      w.toBytes = .error (.malformed "shape value 4294967296 exceeds u32") := ⟨_, rfl, rfl⟩
  exact ⟨_, w, rfl, Backend.ofPadding_eq_ok.mpr ⟨_, _, rfl, rfl, by decide, rfl⟩, hw, hbytes⟩

end Argument

end VeiledLedger
