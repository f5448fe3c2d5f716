/-
  VeiledLedger.Proofs.Registry.Delimited — where a serialized value ends.

  The first four bytes of a serialized value are the id of its type, and the layout of a type
  has one length. So whoever meets a value knows where the next one starts, whatever that is;
  a value that has been cut short is told by its length; and values that stand one behind the
  other are read as these values and no others.

  For this the lengths of the registered types have to fit a word, and their counts the
  prefixes they are written in (`Measured`).

  Main statements: `Writes.deserializePrefix_of_cut`, `deserializeAll_append`,
  `wire_delimits_itself`.
-/

import VeiledLedger.Digest.Sha256
import VeiledLedger.Proofs.Registry

namespace VeiledLedger.Registry

/-- The length of every registered type fits a word, its id included, and every count its prefix. -/
structure Measured (r : Registry) : Prop where
  sizes : ∀ t ∈ r.types, t.wireSize?.isSome
  counts : ∀ t ∈ r.types, ∀ c ∈ t.layout.capacities, c < 2 ^ 32

/-! ## Many values in one byte string -/

theorem pos_of_deserializePrefix {r : Registry} {b : Bytes} {v : TypedValue} {n : Nat}
    (h : r.deserializePrefix b = .ok (v, n)) : b ≠ [] ∧ 0 < n := by
  obtain ⟨hfour, hlen⟩ := bounds_of_deserializePrefix h
  exact ⟨List.ne_nil_of_length_pos (by omega), by omega⟩

def deserializeAll (r : Registry) (b : Bytes) : Except RegistryError (List TypedValue) :=
  if b = [] then .ok []
  else
    match _h : r.deserializePrefix b with
    | .error e => .error e
    | .ok (v, n) => (r.deserializeAll (b.drop n)).map (v :: ·)
termination_by b.length
decreasing_by
  obtain ⟨hb, hn⟩ := pos_of_deserializePrefix _h
  have := List.length_pos_iff.mpr hb
  simp only [List.length_drop]
  omega

section
variable {r : Registry} {v : TypedValue} {b : Bytes}

theorem deserializeAll_of_prefix {n : Nat} (h : r.deserializePrefix b = .ok (v, n)) :
    r.deserializeAll b = (r.deserializeAll (b.drop n)).map (v :: ·) := by
  rw [deserializeAll, if_neg (pos_of_deserializePrefix h).1]
  split
  · rename_i e he
    cases h.symm.trans he
  · rename_i v' n' hv
    cases h.symm.trans hv
    rfl

/-! ## One value -/

namespace Writes

/-- A value that has been cut short lacks bytes of its id, or else of its payload. -/
theorem deserializePrefix_of_cut (h : r.Writes v b) (hm : r.Measured) {x s : Bytes} (hs : s ≠ []) (hx : x ++ s = b) :
    r.deserializePrefix x = .error (.truncated (if x.length < 4 then 4 else b.length) x.length) := by
  by_cases hlen : x.length < 4
  · rw [if_pos hlen, Registry.deserializePrefix, if_pos hlen]
  obtain ⟨t, hmem, ht⟩ := h.type
  obtain ⟨y, -, hb⟩ := h.payload ht
  have hn := h.wireSize? ht (hm.sizes t hmem)
  -- the cut is behind the id, so the id is there and the type is found
  have hfour : (Bytes.ofNat 4 v.typeId.toNat).length = 4 := Bytes.length_ofNat ..
  obtain ⟨z, rfl⟩ : ∃ z, x = Bytes.ofNat 4 v.typeId.toNat ++ z := by
    rcases List.append_eq_append_iff.mp (hx.trans hb) with ⟨z, hz, -⟩ | ⟨z, hz, -⟩
    · have := congrArg List.length hz
      rw [List.length_append] at this
      obtain rfl : z = [] := List.length_eq_zero_iff.mp (by omega)
      exact ⟨[], by rw [hz, List.append_nil, List.append_nil]⟩
    · exact ⟨z, hz⟩
  have hpos := List.length_pos_iff.mpr hs
  have hshort : 4 + z.length < b.length := by
    rw [← hx, List.length_append, List.length_append, hfour]
    omega
  rw [if_neg hlen, deserializePrefix_of_front ht hn, if_pos hshort, List.length_append, hfour]

variable (h : r.Writes v b) (hm : r.Measured)
include h hm

theorem read (rest : Bytes) : r.deserializePrefix (b ++ rest) = .ok (v, b.length) := by
  obtain ⟨t, hmem, ht⟩ := h.type
  exact h.deserializePrefix ht (hm.sizes t hmem) (hm.counts t hmem) rest

/-- Nothing may stand behind a value that is alone. -/
theorem deserialize_append (rest : Bytes) :
    r.deserialize (b ++ rest) =
      if rest = [] then .ok v else .error (.layout (.misfit "" (.otherSize b.length (b ++ rest).length))) := by
  unfold Registry.deserialize
  rw [h.read hm]
  show (if b.length = (b ++ rest).length then _ else _) = _
  rw [List.length_append]
  by_cases hrest : rest = []
  · rw [if_pos hrest, hrest]
    exact if_pos rfl
  · have := List.length_pos_iff.mpr hrest
    rw [if_neg hrest, if_neg (by omega)]

end Writes

/-- Values are read one after another, and then what stands behind them. -/
theorem deserializeAll_append (hm : r.Measured) {vs : List TypedValue} {bs : List Bytes}
    (h : List.Forall₂ r.Writes vs bs) (rest : Bytes) :
    r.deserializeAll (bs.flatten ++ rest) = (r.deserializeAll rest).map (vs ++ ·) := by
  induction h with
  | nil =>
    rw [List.flatten_nil, List.nil_append]
    cases r.deserializeAll rest <;> rfl
  | @cons v b vs bs hv _ ih =>
    rw [List.flatten_cons, List.append_assoc, deserializeAll_of_prefix (hv.read hm _), List.drop_left, ih]
    cases r.deserializeAll rest <;> rfl

/-! ## Builtin components -/

/-- Each component of the type `α` that can be written is read back, whatever follows it. -/
def Recovers (r : Registry) (α : Type) [Component α] : Prop :=
  ∀ path (c : α) b, r.serializeComponent path c = .ok b → ∀ rest, r.deserializeComponent α (b ++ rest) = .ok c

theorem Built.recovers [Hasher] (hr : r.Built) {α : Type} [Component α]
    (hα : Registry.builtin.findId? (Component.id α) = some (builtinType α)) (hsize : (builtinType α).wireSize?.isSome)
    (hcap : ∀ n ∈ (Component.layout α).capacities, n < 2 ^ 32) : r.Recovers α :=
  fun _ _ _ hb rest => (serializeAt_eq_ok.mp hb).deserializeComponent hr hα hsize hcap rest

/-! ## A code that delimits itself -/

/-- A serialized value has the length of its type and starts with the id of its type. It is read
    back alone and in front of anything; alone, it may have nothing behind it, and it is refused
    as soon as a byte is missing. Many values are told apart, and so are components. -/
theorem wire_delimits_itself [Hasher] (hr : r.Built) (hm : r.Measured) :
    (∀ v b, r.serialize v = .ok b →
      (∃ t, r.lookup v.typeId = .ok t ∧ t.wireSize? = some b.length) ∧
      b.take 4 = Bytes.ofNat 4 v.typeId.toNat ∧
      r.deserialize b = .ok v ∧
      (∀ rest, r.deserializePrefix (b ++ rest) = .ok (v, b.length)) ∧
      (∀ rest, rest ≠ [] →
        r.deserialize (b ++ rest) = .error (.layout (.misfit "" (.otherSize b.length (b ++ rest).length)))) ∧
      ∀ x s, s ≠ [] → x ++ s = b →
        let e := RegistryError.truncated (if x.length < 4 then 4 else b.length) x.length
        r.deserializePrefix x = .error e ∧ r.deserialize x = .error e) ∧
    (∀ vs bs, List.Forall₂ (fun v b => r.serialize v = .ok b) vs bs → r.deserializeAll bs.flatten = .ok vs) ∧
    r.Recovers StatePointer ∧ r.Recovers Digest ∧ r.Recovers Party ∧ r.Recovers TimeWindow ∧ r.Recovers Signer := by
  refine ⟨fun v b hb => ?_, fun vs bs h => ?_, hr.recovers rfl rfl (by decide), hr.recovers rfl rfl (by decide),
    hr.recovers rfl rfl (by decide), hr.recovers rfl rfl (by decide), hr.recovers rfl rfl (by decide)⟩
  · have h := serialize_eq_ok.mp hb
    obtain ⟨t, hmem, ht⟩ := h.type
    obtain ⟨y, -, hbytes⟩ := h.payload ht
    have hid : b.take 4 = Bytes.ofNat 4 v.typeId.toNat := by
      rw [hbytes, List.take_left' (Bytes.length_ofNat ..)]
    have halone : r.deserialize b = .ok v := by
      have := h.deserialize_append hm []
      rwa [List.append_nil] at this
    refine ⟨⟨t, lookup_eq_ok.mpr ht, h.wireSize? ht (hm.sizes t hmem)⟩, hid, halone,
      h.read hm, fun rest hrest => ?_, fun x s hs hx => ?_⟩
    · rw [h.deserialize_append hm, if_neg hrest]
    · have hcut := h.deserializePrefix_of_cut hm hs hx
      exact ⟨hcut, by rw [deserialize, hcut]; rfl⟩
  · have hall := deserializeAll_append hm (h.imp fun v b => serialize_eq_ok.mp) []
    have hnone : r.deserializeAll [] = .ok [] := by
      rw [deserializeAll, if_pos rfl]
    rw [List.append_nil, hnone] at hall
    rw [hall]
    exact congrArg Except.ok (List.append_nil vs)

end

def noteRegistry : Registry :=
  { builtin with types := builtin.types ++ [⟨"app::Note", 100, .string .latin1 4, none⟩] }

def note (text : String) : TypedValue := ⟨100, .string text⟩

def noteBytes : Bytes := [0, 0, 0, 100, 2, 97, 98, 0, 0]

def otherNoteBytes : Bytes := [0, 0, 0, 100, 1, 233, 0, 0, 0]

/-- A note is read in front of another one, refused with three bytes behind it and with five
    bytes of it, and two notes are told apart; so is a pointer with a byte behind it. -/
theorem notes_delimited : noteRegistry.Built ∧ noteRegistry.Measured ∧
    noteRegistry.serialize (note "ab") = .ok noteBytes ∧ noteRegistry.serialize (note "é") = .ok otherNoteBytes ∧
    noteRegistry.deserialize noteBytes = .ok (note "ab") ∧
    noteRegistry.deserializePrefix (noteBytes ++ otherNoteBytes) = .ok (note "ab", 9) ∧
    noteRegistry.deserialize (noteBytes ++ [0, 0, 0]) = .error (.layout (.misfit "" (.otherSize 9 12))) ∧
    noteRegistry.deserialize (noteBytes.take 5) = .error (.truncated 9 5) ∧
    noteRegistry.deserializeAll [noteBytes, otherNoteBytes].flatten = .ok [note "ab", note "é"] ∧
    ∃ b, noteRegistry.serializeComponent "" (StatePointer.mk .zero 7) = .ok b ∧
      noteRegistry.deserializeComponent StatePointer (b ++ [1]) = .ok ⟨.zero, 7⟩ := by
  have hadded : builtin.register "app::Note" 100 (.string .latin1 4) = .ok noteRegistry := rfl
  have hbuilt : noteRegistry.Built := .register .builtin hadded
  have hmeasured : noteRegistry.Measured := ⟨by decide, by decide⟩
  have hnote : noteRegistry.serialize (note "ab") = .ok noteBytes := rfl
  have hother : noteRegistry.serialize (note "é") = .ok otherNoteBytes := rfl
  obtain ⟨hvalue, hmany, hpointer, -⟩ := wire_delimits_itself hbuilt hmeasured
  obtain ⟨-, -, halone, hprefix, hbehind, hcut⟩ := hvalue _ _ hnote
  obtain ⟨b, hb⟩ : ∃ b, noteRegistry.serializeComponent "" (StatePointer.mk .zero 7) = .ok b := ⟨_, rfl⟩
  exact ⟨hbuilt, hmeasured, hnote, hother, halone, hprefix _, hbehind _ (by decide),
    (hcut (noteBytes.take 5) (noteBytes.drop 5) (by decide) (List.take_append_drop ..)).2,
    hmany _ _ (.cons hnote (.cons hother .nil)), b, hb, hpointer _ _ _ hb _⟩

end VeiledLedger.Registry
