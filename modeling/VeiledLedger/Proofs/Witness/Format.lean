/-
  VeiledLedger.Proofs.Witness.Format — a witness has one byte string, and a byte string one witness.

  The layouts of header and body leave nothing open, and each step of the reading undoes one
  of the writing: numbers, slots, groups and salt. A witness is read from the byte string
  that is written for it and from no other, if its groups are the nine kinds in hashing order
  with a nonce for each leaf, its body has a length that fits a word, and its salt is not all
  zeros. The writer does not look at the salt, so the bytes of a witness with a salt of zeros are
  written and then refused. What could be written, or was read, has the slots that its padding
  declares.

  Main statements: `ofBytes_eq_ok`, `toBytes_isOk`, `bytes_canonical`, `zeroSalt_not_read`.
-/

import VeiledLedger.Proofs.Layout.Canonical
import VeiledLedger.Proofs.Witness

namespace VeiledLedger.Witness

/-- The groups are those of a transaction, with a nonce for each leaf. -/
structure Regular (w : Witness) : Prop where
  kinds : w.groups.map (·.kind) = GroupKind.all
  paired : ∀ g ∈ w.groups, g.leaves.length = g.nonces.length

/-- All slots are there, as many and as wide as the padding says. -/
structure Declared (w : Witness) : Prop where
  kinds : w.groups.map (·.kind) = GroupKind.all
  leaves : ∀ g ∈ w.groups, g.leaves.length = (w.padding.shape g.kind).capacity
  nonces : ∀ g ∈ w.groups, g.nonces.length = (w.padding.shape g.kind).capacity
  width : ∀ g ∈ w.groups, ∀ leaf ∈ g.leaves, leaf.length = (w.padding.shape g.kind).leafSize
  inputs : w.inputUtxos.length = w.padding.inputs
  inputWidth : ∀ u ∈ w.inputUtxos, u.bytes.length = w.padding.utxoSize
  references : w.referenceUtxos.length = w.padding.references
  referenceWidth : ∀ u ∈ w.referenceUtxos, u.bytes.length = w.padding.utxoSize

theorem Declared.regular {w : Witness} (h : w.Declared) : w.Regular :=
  ⟨h.kinds, fun g hg => (h.leaves g hg).trans (h.nonces g hg).symm⟩

/-! ## Layouts -/

theorem rigid_headerLayout : headerLayout.Rigid := by
  refine Layout.rigidFields_iff.mpr fun f hf => ?_
  obtain ⟨name, -, rfl⟩ := List.mem_map.mp hf
  trivial

theorem rigid_slotsLayout (capacity size : Nat) : (slotsLayout capacity size).Rigid :=
  ⟨trivial, trivial, trivial⟩

theorem rigid_bodyLayout (p : Padding) : (bodyLayout p).Rigid := by
  refine Layout.rigidFields_iff.mpr fun f hf => ?_
  simp only [List.cons_append, List.mem_cons, List.mem_append, List.mem_map, List.not_mem_nil, or_false] at hf
  obtain rfl | ⟨kind, -, rfl⟩ | rfl | rfl := hf
  · trivial
  all_goals exact rigid_slotsLayout ..

/-! ## The header -/

/-- Where each item stands for one thing only, a list is read as the things whose items it holds. -/
theorem mapM_eq_some {α β : Type} {f : α → Option β} {P : β → Prop} {g : β → α}
    (hf : ∀ x y, f x = some y ↔ P y ∧ x = g y) :
    ∀ {xs : List α} {ys : List β}, xs.mapM f = some ys ↔ (∀ y ∈ ys, P y) ∧ xs = ys.map g
  | [], ys => by
    rw [List.mapM_nil, eq_comm (b := ys.map g), List.map_eq_nil_iff]
    constructor
    · rintro ⟨⟩
      exact ⟨fun y hy => (by cases hy), rfl⟩
    · rintro ⟨-, rfl⟩
      rfl
  | x :: xs, ys => by
    rw [List.mapM_cons]
    constructor
    · intro h
      obtain ⟨y, hy, h⟩ := Option.bind_eq_some_iff.mp h
      obtain ⟨rest, hrest, h⟩ := Option.bind_eq_some_iff.mp h
      cases h
      obtain ⟨hpy, rfl⟩ := (hf x y).mp hy
      obtain ⟨hps, rfl⟩ := (mapM_eq_some hf).mp hrest
      exact ⟨List.forall_mem_cons.mpr ⟨hpy, hps⟩, rfl⟩
    · rintro ⟨hps, h⟩
      obtain ⟨y, rest, rfl, rfl, rfl⟩ := List.map_eq_cons_iff.mp h.symm
      obtain ⟨hpy, hps⟩ := List.forall_mem_cons.mp hps
      exact Option.bind_eq_some_iff.mpr ⟨y, (hf _ y).mpr ⟨hpy, rfl⟩,
        Option.bind_eq_some_iff.mpr ⟨rest, (mapM_eq_some hf).mpr ⟨hps, rfl⟩, rfl⟩⟩

def numberValue (n : Nat) : Value := .unsigned .four (BitVec.ofNat _ n)

theorem headerValues_eq_ok : ∀ {ns : List Nat} {vs : List Value},
    headerValues ns = .ok vs ↔ (∀ n ∈ ns, n < 2 ^ 32) ∧ vs = ns.map numberValue
  | [], vs => by simp [headerValues, eq_comm]
  | n :: ns, vs => by
    rw [headerValues]
    split
    · rename_i hlt
      simp only [Except.bind_eq_ok, headerValues_eq_ok, List.forall_mem_cons]
      constructor
      · rintro ⟨_, ⟨hns, rfl⟩, h⟩
        cases h
        exact ⟨⟨hlt, hns⟩, rfl⟩
      · rintro ⟨⟨-, hns⟩, rfl⟩
        exact ⟨_, ⟨hns, rfl⟩, rfl⟩
    · rename_i hlt
      simp [hlt]

theorem headerNumbers?_eq_some {v : Value} {ns : List Nat} :
    headerNumbers? v = some ns ↔ ∃ vs, v = .struct vs ∧ headerValues ns = .ok vs := by
  cases v with
  | struct vs =>
    simp only [Value.struct.injEq, exists_eq_left', headerValues_eq_ok]
    refine mapM_eq_some fun v n => ?_
    constructor
    · intro h
      split at h
      · rename_i m
        cases h
        exact ⟨m.isLt, by rw [numberValue, BitVec.ofNat_toNat, BitVec.setWidth_eq]⟩
      · cases h
    · rintro ⟨hlt, rfl⟩
      exact congrArg some (Nat.mod_eq_of_lt hlt)
  | _ => simp [headerNumbers?]

theorem paddingOfNumbers?_eq_some {ns : List Nat} {p : Padding} :
    paddingOfNumbers? ns = some p ↔ ns = shapeNumbers p := by
  constructor
  · intro h
    unfold paddingOfNumbers? at h
    split at h
    · cases h
      rfl
    · cases h
  · rintro rfl
    rfl

/-! ## Slots, groups and salt -/

theorem slotOfValue?_eq_some {v : Value} {s : Bytes × Nonce} : slotOfValue? v = some s ↔ v = slotValue s.1 s.2 := by
  constructor
  · intro h
    unfold slotOfValue? at h
    split at h
    · obtain ⟨n, hn, h⟩ := Option.bind_eq_some_iff.mp h
      cases h
      rw [slotValue, Digest.ofBytes?_eq_some.mp hn]
    · cases h
  · rintro rfl
    simp [slotValue, slotOfValue?]

def slotsValue (slots : List (Bytes × Nonce)) : Value := .list (slots.map fun s => slotValue s.1 s.2)

theorem slotsOfValue_eq_ok {what : String} {v : Value} {slots : List (Bytes × Nonce)} :
    slotsOfValue what v = .ok slots ↔ v = slotsValue slots := by
  cases v with
  | list items =>
    have hslot (v : Value) (s : Bytes × Nonce) : slotOfValue? v = some s ↔ True ∧ v = slotValue s.1 s.2 := by
      rw [slotOfValue?_eq_some, true_and]
    have hitems : items.mapM slotOfValue? = some slots ↔ items = slots.map fun s => slotValue s.1 s.2 := by
      rw [mapM_eq_some hslot]
      simp
    rw [slotsValue, Value.list.injEq, ← hitems, slotsOfValue]
    split
    · rename_i l hl
      simp [hl]
    · rename_i hl
      simp [hl]
  | _ => simp [slotsOfValue, slotsValue]

def groupSlots (g : WitnessGroup) : List (Bytes × Nonce) := g.leaves.zip g.nonces

def utxoSlots (us : List Utxo) : List (Bytes × Nonce) := us.map fun u => (u.bytes, u.nonce)

theorem bodyValue_eq (w : Witness) :
    bodyValue w = .struct (.bytes w.salt.bytes.toBytes :: w.groups.map (slotsValue ∘ groupSlots) ++
      [slotsValue (utxoSlots w.inputUtxos), slotsValue (utxoSlots w.referenceUtxos)]) := by
  have hgroup (g : WitnessGroup) :
      Value.list (List.zipWith slotValue g.leaves g.nonces) = slotsValue (groupSlots g) := by
    rw [slotsValue, groupSlots, ← List.map_uncurry_zip_eq_zipWith]
    rfl
  simp only [bodyValue, hgroup, slotsValue, utxoSlots, List.map_map]
  rfl

theorem ofDigest?_eq_some {d : Digest} {salt : PrivacySalt} :
    PrivacySalt.ofDigest? d = some salt ↔ salt.bytes ≠ Digest.zero ∧ salt.bytes = d := by
  unfold PrivacySalt.ofDigest?
  split
  · rename_i hzero
    refine iff_of_false nofun ?_
    rintro ⟨hne, rfl⟩
    exact hne hzero
  · rename_i hne
    constructor
    · rintro ⟨⟩
      exact ⟨hne, rfl⟩
    · rintro ⟨-, rfl⟩
      rfl

theorem saltOfValue_eq_ok {v : Value} {salt : PrivacySalt} :
    saltOfValue v = .ok salt ↔ salt.bytes ≠ Digest.zero ∧ v = .bytes salt.bytes.toBytes := by
  cases v with
  | bytes b =>
    have hsalt : (Digest.ofBytes? b).bind PrivacySalt.ofDigest? = some salt ↔
        salt.bytes ≠ Digest.zero ∧ b = salt.bytes.toBytes := by
      rw [Option.bind_eq_some_iff]
      constructor
      · rintro ⟨d, hd, h⟩
        obtain ⟨hne, rfl⟩ := ofDigest?_eq_some.mp h
        exact ⟨hne, (Digest.ofBytes?_eq_some.mp hd).symm⟩
      · rintro ⟨hne, rfl⟩
        exact ⟨salt.bytes, Digest.ofBytes?_toBytes _, ofDigest?_eq_some.mpr ⟨hne, rfl⟩⟩
    rw [saltOfValue, Value.bytes.injEq, ← hsalt]
    split
    · rename_i s hs
      simp [hs]
    · rename_i hs
      simp [hs]
  | _ => simp [saltOfValue]

theorem utxosOfValue_eq_ok {v : Value} {us : List Utxo} : utxosOfValue v = .ok us ↔ v = slotsValue (utxoSlots us) := by
  unfold utxosOfValue
  simp only [Except.bind_eq_ok, slotsOfValue_eq_ok]
  constructor
  · rintro ⟨slots, rfl, h⟩
    cases h
    rw [utxoSlots, List.map_map]
    exact congrArg slotsValue (List.map_id slots).symm
  · rintro rfl
    refine ⟨utxoSlots us, rfl, ?_⟩
    rw [utxoSlots, List.map_map]
    exact congrArg Except.ok (List.map_id us)

theorem groupsOfValues_eq_ok : ∀ {kinds : List GroupKind} {vs rest : List Value} {gs : List WitnessGroup},
    groupsOfValues kinds vs = .ok (gs, rest) ↔ gs.map (·.kind) = kinds ∧
      (∀ g ∈ gs, g.leaves.length = g.nonces.length) ∧ vs = gs.map (slotsValue ∘ groupSlots) ++ rest
  | [], vs, rest, gs => by
    rw [groupsOfValues, List.map_eq_nil_iff]
    constructor
    · intro h
      cases h
      exact ⟨rfl, fun g hg => (by cases hg), rfl⟩
    · rintro ⟨rfl, -, rfl⟩
      rfl
  | kind :: kinds, [], rest, gs => by
    simp only [groupsOfValues, reduceCtorEq, false_iff]
    rintro ⟨hkinds, -, h⟩
    obtain ⟨g, gs, rfl, -⟩ := List.map_eq_cons_iff.mp hkinds
    cases h
  | kind :: kinds, v :: vs, rest, gs => by
    rw [groupsOfValues]
    simp only [Except.bind_eq_ok, slotsOfValue_eq_ok]
    constructor
    · rintro ⟨slots, rfl, ⟨gs', rest'⟩, hgs, h⟩
      cases h
      obtain ⟨rfl, hpaired, rfl⟩ := groupsOfValues_eq_ok.mp hgs
      refine ⟨rfl, List.forall_mem_cons.mpr ⟨by simp, hpaired⟩, ?_⟩
      have hslots : groupSlots ⟨kind, slots.map (·.1), slots.map (·.2)⟩ = slots :=
        (List.zip_of_prod rfl rfl).symm
      rw [List.map_cons, List.cons_append, Function.comp_apply, hslots]
    · rintro ⟨hkinds, hpaired, hvs⟩
      obtain ⟨g, gs, rfl, rfl, rfl⟩ := List.map_eq_cons_iff.mp hkinds
      obtain ⟨hg, hpaired⟩ := List.forall_mem_cons.mp hpaired
      obtain ⟨rfl, rfl⟩ := List.cons.inj hvs
      refine ⟨groupSlots g, rfl, (gs, rest), groupsOfValues_eq_ok.mpr ⟨rfl, hpaired, rfl⟩, ?_⟩
      rw [groupSlots, List.map_fst_zip (Nat.le_of_eq hg), List.map_snd_zip (Nat.le_of_eq hg.symm)]
      rfl

theorem bodyOfValue_eq_ok {p : Padding} {v : Value} {w : Witness} :
    bodyOfValue p v = .ok w ↔ w.padding = p ∧ w.salt.bytes ≠ Digest.zero ∧ w.Regular ∧ v = bodyValue w := by
  rw [bodyValue_eq]
  constructor
  · intro h
    unfold bodyOfValue at h
    split at h
    · rename_i saltValue parts
      obtain ⟨salt, hsalt, h⟩ := Except.bind_eq_ok.mp h
      obtain ⟨⟨groups, rest⟩, hgroups, h⟩ := Except.bind_eq_ok.mp h
      simp only at h
      split at h
      · obtain ⟨inputs, hinputs, h⟩ := Except.bind_eq_ok.mp h
        obtain ⟨references, hreferences, h⟩ := Except.bind_eq_ok.mp h
        cases h
        obtain ⟨hkinds, hpaired, rfl⟩ := groupsOfValues_eq_ok.mp hgroups
        obtain ⟨hne, rfl⟩ := saltOfValue_eq_ok.mp hsalt
        rw [utxosOfValue_eq_ok.mp hinputs, utxosOfValue_eq_ok.mp hreferences]
        exact ⟨rfl, hne, ⟨hkinds, hpaired⟩, rfl⟩
      · cases h
    · cases h
  · rintro ⟨rfl, hne, ⟨hkinds, hpaired⟩, rfl⟩
    rw [List.cons_append, bodyOfValue]
    have hgroups := groupsOfValues_eq_ok.mpr ⟨hkinds, hpaired,
      Eq.refl (w.groups.map (slotsValue ∘ groupSlots) ++
        [slotsValue (utxoSlots w.inputUtxos), slotsValue (utxoSlots w.referenceUtxos)])⟩
    refine Except.bind_eq_ok.mpr ⟨w.salt, saltOfValue_eq_ok.mpr ⟨hne, rfl⟩, Except.bind_eq_ok.mpr ⟨_, hgroups, ?_⟩⟩
    exact Except.bind_eq_ok.mpr ⟨w.inputUtxos, utxosOfValue_eq_ok.mpr rfl,
      Except.bind_eq_ok.mpr ⟨w.referenceUtxos, utxosOfValue_eq_ok.mpr rfl, rfl⟩⟩

theorem bodyOfValue_of_zero (p : Padding) {w : Witness} (h : w.salt.bytes = Digest.zero) :
    bodyOfValue p (bodyValue w) = .error (.malformed "privacy salt") := by
  rw [bodyValue, List.cons_append, bodyOfValue, h]
  rfl

/-! ## Whole byte strings -/

/-- The bytes in front of a body, for the numbers of a padding that fit them. -/
def IsHeader (p : Padding) (head : Bytes) : Prop :=
  ∃ header, headerValues (shapeNumbers p) = .ok header ∧ headerLayout.encode (.struct header) = .ok head

theorem IsHeader.length {p : Padding} {head : Bytes} (h : IsHeader p head) : head.length = headerLayout.size := by
  obtain ⟨header, -, hhead⟩ := h
  exact Layout.length_encode hhead

theorem IsHeader.unique {p : Padding} {head head' : Bytes} (h : IsHeader p head) (h' : IsHeader p head') :
    head = head' := by
  obtain ⟨header, hheader, hhead⟩ := h
  obtain ⟨header', hheader', hhead'⟩ := h'
  cases hheader.symm.trans hheader'
  exact Except.ok.inj (hhead.symm.trans hhead')

theorem isHeader_iff_decode {p : Padding} {head : Bytes} : IsHeader p head ↔
    ∃ v, headerLayout.decode head = .ok v ∧ (headerNumbers? v).bind paddingOfNumbers? = some p := by
  have hsize : headerLayout.size?.isSome := rfl
  simp only [IsHeader, rigid_headerLayout.decode_eq_ok, hsize, true_and, Option.bind_eq_some_iff,
    headerNumbers?_eq_some, paddingOfNumbers?_eq_some]
  constructor
  · rintro ⟨header, hheader, hhead⟩
    exact ⟨_, hhead, _, ⟨header, rfl, hheader⟩, rfl⟩
  · rintro ⟨_, hhead, _, ⟨header, rfl, hheader⟩, rfl⟩
    exact ⟨header, hheader, hhead⟩

/-- `b` is the frame, the header and the body of the witness. -/
def IsWriting (w : Witness) (b : Bytes) : Prop :=
  ∃ head body, IsHeader w.padding head ∧ (bodyLayout w.padding).encode (bodyValue w) = .ok body ∧
    b = Envelope.wrap (head ++ body)

theorem IsWriting.unique {w : Witness} {b b' : Bytes} (h : w.IsWriting b) (h' : w.IsWriting b') : b = b' := by
  obtain ⟨head, body, hhead, hbody, rfl⟩ := h
  obtain ⟨head', body', hhead', hbody', rfl⟩ := h'
  cases hhead.unique hhead'
  cases hbody.symm.trans hbody'
  rfl

theorem toBytes_eq_ok {w : Witness} {b : Bytes} :
    w.toBytes = .ok b ↔ (bodyLayout w.padding).HasRoom ∧ w.IsWriting b := by
  have hheader : headerLayout.HasRoom := ⟨36, rfl, by decide⟩
  unfold toBytes IsWriting
  simp only [Except.bind_eq_ok, Except.mapError_eq_ok, Layout.encodeAt_eq_ok, hheader, true_and]
  constructor
  · rintro ⟨header, hheader, head, hhead, body, ⟨hroom, hbody⟩, h⟩
    cases h
    exact ⟨hroom, head, body, ⟨header, hheader, hhead⟩, hbody, rfl⟩
  · rintro ⟨hroom, head, body, ⟨header, hheader, hhead⟩, hbody, rfl⟩
    exact ⟨header, hheader, head, hhead, body, ⟨hroom, hbody⟩, rfl⟩

/-- Behind its header a body is read by the layout of the padding in the header. -/
theorem ofPayload_append {p : Padding} {v : Value} {head body : Bytes} (hhead : IsHeader p head)
    (hfits : (bodyLayout p).size?.isSome) (hbody : (bodyLayout p).encode v = .ok body) :
    ofPayload (head ++ body) = bodyOfValue p v := by
  obtain ⟨header, hheader, hp⟩ := isHeader_iff_decode.mp hhead
  have hread := (rigid_bodyLayout _).decode_eq_ok.mpr ⟨hfits, hbody⟩
  have hsize := (Layout.decode_eq_ok.mp hread).1
  unfold ofPayload
  rw [if_neg (by rw [List.length_append, hhead.length]; omega), ← hhead.length, List.take_left, List.drop_left,
    hheader]
  simp only [Except.mapError, bind, Except.bind, hp, hsize, hread, ne_eq, not_true_eq_false, if_false]

/-- A payload is a header, and a body of the length that the header declares. -/
theorem ofPayload_eq_ok {payload : Bytes} {w : Witness} : ofPayload payload = .ok w ↔
    ∃ head body, IsHeader w.padding head ∧ (bodyLayout w.padding).size?.isSome ∧
      (bodyLayout w.padding).encode (bodyValue w) = .ok body ∧ w.salt.bytes ≠ Digest.zero ∧ w.Regular ∧
      payload = head ++ body := by
  constructor
  · intro h
    unfold ofPayload at h
    split at h
    · cases h
    · obtain ⟨v, hv, h⟩ := Except.bind_eq_ok.mp h
      simp only at h
      split at h
      · cases h
      · rename_i p hp
        -- the header says how the body is read, so its padding is settled before the witness is known
        have hhead := isHeader_iff_decode.mpr ⟨v, Except.mapError_eq_ok.mp hv, hp⟩
        split at h
        · cases h
        · obtain ⟨_, hbody, h⟩ := Except.bind_eq_ok.mp h
          obtain ⟨rfl, hsalt, hregular, rfl⟩ := bodyOfValue_eq_ok.mp h
          obtain ⟨hfits, hbody⟩ := (rigid_bodyLayout _).decode_eq_ok.mp (Except.mapError_eq_ok.mp hbody)
          exact ⟨_, _, hhead, hfits, hbody, hsalt, hregular, (List.take_append_drop ..).symm⟩
  · rintro ⟨head, body, hhead, hfits, hbody, hsalt, hregular, rfl⟩
    rw [ofPayload_append hhead hfits hbody]
    exact bodyOfValue_eq_ok.mpr ⟨rfl, hsalt, hregular, rfl⟩

/-- A witness is read from the byte string that is written for it, and from no other. -/
theorem ofBytes_eq_ok {b : Bytes} {w : Witness} : ofBytes b = .ok w ↔
    w.salt.bytes ≠ Digest.zero ∧ w.Regular ∧ (bodyLayout w.padding).size?.isSome ∧ w.IsWriting b := by
  unfold ofBytes
  simp only [Except.bind_eq_ok, Except.mapError_eq_ok, Envelope.unwrap_eq_ok, ofPayload_eq_ok, IsWriting]
  constructor
  · rintro ⟨payload, rfl, head, body, hhead, hfits, hbody, hsalt, hregular, rfl⟩
    exact ⟨hsalt, hregular, hfits, head, body, hhead, hbody, rfl⟩
  · rintro ⟨hsalt, hregular, hfits, head, body, hhead, hbody, rfl⟩
    exact ⟨_, rfl, head, body, hhead, hfits, hbody, hsalt, hregular, rfl⟩

/-- Only the reader looks at the salt. -/
theorem ofBytes_of_zero {b : Bytes} {w : Witness} (hsalt : w.salt.bytes = Digest.zero)
    (hfits : (bodyLayout w.padding).size?.isSome) (h : w.IsWriting b) :
    ofBytes b = .error (.malformed "privacy salt") := by
  obtain ⟨head, body, hhead, hbody, rfl⟩ := h
  unfold ofBytes
  rw [Envelope.unwrap_eq_ok.mpr rfl]
  show ofPayload (head ++ body) = _
  rw [ofPayload_append hhead hfits hbody, bodyOfValue_of_zero _ hsalt]

/-! ## Slots as declared -/

theorem takes_slotsLayout {capacity size : Nat} {slots : List (Bytes × Nonce)} :
    (slotsLayout capacity size).Takes (slotsValue slots) ↔
      slots.length = capacity ∧ capacity * Value.width < 2 ^ 63 ∧ ∀ s ∈ slots, s.1.length = size := by
  have hslot (s : Bytes × Nonce) : (slotLayout size).Takes (slotValue s.1 s.2) ↔ s.1.length = size := by
    simp [slotLayout, slotValue, Layout.takes_struct, Layout.takes_exactBytes, s.2.size]
  simp only [slotsLayout, slotsValue, Layout.takes_exactList, List.length_map, List.forall_mem_map, hslot]

theorem takes_groupSlots {g : WitnessGroup} (hpaired : g.leaves.length = g.nonces.length) (shape : Shape) :
    (slotsLayout shape.capacity shape.leafSize).Takes (slotsValue (groupSlots g)) ↔
      g.leaves.length = shape.capacity ∧ shape.capacity * Value.width < 2 ^ 63 ∧
        ∀ leaf ∈ g.leaves, leaf.length = shape.leafSize := by
  have hleaves : (groupSlots g).map (·.1) = g.leaves := List.map_fst_zip (Nat.le_of_eq hpaired)
  rw [takes_slotsLayout, ← hleaves]
  simp only [List.length_map, List.forall_mem_map]

theorem takes_utxoSlots {capacity size : Nat} {us : List Utxo} :
    (slotsLayout capacity size).Takes (slotsValue (utxoSlots us)) ↔
      us.length = capacity ∧ capacity * Value.width < 2 ^ 63 ∧ ∀ u ∈ us, u.bytes.length = size := by
  simp only [takes_slotsLayout, utxoSlots, List.length_map, List.forall_mem_map]

theorem takes_headerLayout (p : Padding) : headerLayout.Takes (.struct ((shapeNumbers p).map numberValue)) := by
  have hnumber (n : Nat) : (Layout.unsigned .four).Takes (numberValue n) :=
    ⟨_, Layout.encode_unsigned_eq_ok.mpr ⟨_, rfl, rfl⟩⟩
  simp [headerLayout, headerFields, shapeNumbers, Layout.takes_struct, hnumber]

theorem forall₂_map_append {α β γ : Type} {R : β → γ → Prop} {f : α → β} {g : α → γ} {xs : List β} {ys : List γ} :
    ∀ {l : List α}, List.Forall₂ R (l.map f ++ xs) (l.map g ++ ys) ↔ (∀ a ∈ l, R (f a) (g a)) ∧ List.Forall₂ R xs ys
  | [] => by simp
  | a :: l => by simp [forall₂_map_append, and_assoc]

/-- Numbers that fit the header leave room for as many values. -/
theorem room_of_numbers {p : Padding} (hp : ∀ n ∈ shapeNumbers p, n < 2 ^ 32) :
    (∀ kind, (p.shape kind).capacity * Value.width < 2 ^ 63) ∧ p.inputs * Value.width < 2 ^ 63 ∧
      p.references * Value.width < 2 ^ 63 := by
  simp only [shapeNumbers, List.forall_mem_cons] at hp
  obtain ⟨hinputs, houtputs, -, hcommands, -, hattachments, hsigners, hreferences, -⟩ := hp
  have hroom {n : Nat} (hn : n < 2 ^ 32) : n * Value.width < 2 ^ 63 := by
    unfold Value.width
    omega
  refine ⟨fun kind => hroom ?_, hroom hinputs, hroom hreferences⟩
  cases kind with
  | inputs => exact hinputs
  | outputs => exact houtputs
  | commands => exact hcommands
  | attachments => exact hattachments
  | signers => exact hsigners
  | references => exact hreferences
  | notary | timeWindow | parameters =>
    simp only [Padding.shape]
    decide

/-- The body takes a witness exactly if its slots are the declared ones. -/
theorem takes_bodyLayout {w : Witness} (h : w.Regular) (hp : ∀ n ∈ shapeNumbers w.padding, n < 2 ^ 32) :
    (bodyLayout w.padding).Takes (bodyValue w) ↔ w.Declared := by
  obtain ⟨hrooms, hinputRoom, hreferenceRoom⟩ := room_of_numbers hp
  have hgroup {g : WitnessGroup} (hg : g ∈ w.groups) := takes_groupSlots (h.paired g hg) (w.padding.shape g.kind)
  -- the layouts of the groups are listed by kind, their values by group; the kinds are those of the groups
  rw [bodyValue_eq, bodyLayout, Layout.takes_struct, ← h.kinds, List.map_map, List.cons_append, List.cons_append,
    List.forall₂_cons, forall₂_map_append]
  simp only [List.forall₂_cons, takes_utxoSlots, Layout.takes_exactBytes, w.salt.bytes.size, true_and]
  constructor
  · rintro ⟨hgroups, ⟨hinputs, -, hinputWidth⟩, ⟨hreferences, -, hreferenceWidth⟩, -⟩
    refine ⟨h.kinds, fun g hg => ((hgroup hg).mp (hgroups g hg)).1, fun g hg => ?_,
      fun g hg => ((hgroup hg).mp (hgroups g hg)).2.2, hinputs, hinputWidth, hreferences, hreferenceWidth⟩
    rw [← h.paired g hg]
    exact ((hgroup hg).mp (hgroups g hg)).1
  · intro hd
    exact ⟨fun g hg => (hgroup hg).mpr ⟨hd.leaves g hg, hrooms g.kind, hd.width g hg⟩,
      ⟨hd.inputs, hinputRoom, hd.inputWidth⟩, ⟨hd.references, hreferenceRoom, hd.referenceWidth⟩, .nil⟩

theorem isHeader_isOk {p : Padding} : (∃ head, IsHeader p head) ↔ ∀ n ∈ shapeNumbers p, n < 2 ^ 32 := by
  simp only [IsHeader, headerValues_eq_ok]
  constructor
  · rintro ⟨_, header, ⟨hnumbers, -⟩, -⟩
    exact hnumbers
  · intro hnumbers
    obtain ⟨head, hhead⟩ := takes_headerLayout p
    exact ⟨head, _, ⟨hnumbers, rfl⟩, hhead⟩

theorem IsWriting.numbers {w : Witness} {b : Bytes} (h : w.IsWriting b) : ∀ n ∈ shapeNumbers w.padding, n < 2 ^ 32 := by
  obtain ⟨head, _, hhead, -⟩ := h
  exact isHeader_isOk.mp ⟨head, hhead⟩

theorem isWriting_isOk {w : Witness} (h : w.Regular) :
    (∃ b, w.IsWriting b) ↔ w.Declared ∧ ∀ n ∈ shapeNumbers w.padding, n < 2 ^ 32 := by
  constructor
  · rintro ⟨b, hb⟩
    obtain ⟨head, body, -, hbody, -⟩ := id hb
    exact ⟨(takes_bodyLayout h hb.numbers).mp ⟨body, hbody⟩, hb.numbers⟩
  · rintro ⟨hd, hp⟩
    obtain ⟨head, hhead⟩ := isHeader_isOk.mpr hp
    obtain ⟨body, hbody⟩ := (takes_bodyLayout h hp).mpr hd
    exact ⟨_, head, body, hhead, hbody, rfl⟩

/-- A witness can be written exactly if its slots are the declared ones, the numbers of its padding
    fit the header, and there is room for its body. -/
theorem toBytes_isOk {w : Witness} (h : w.Regular) : (∃ b, w.toBytes = .ok b) ↔
    w.Declared ∧ (∀ n ∈ shapeNumbers w.padding, n < 2 ^ 32) ∧ (bodyLayout w.padding).HasRoom := by
  simp only [toBytes_eq_ok, exists_and_left]
  rw [isWriting_isOk h]
  exact ⟨fun ⟨hroom, hd, hp⟩ => ⟨hd, hp, hroom⟩, fun ⟨hd, hp, hroom⟩ => ⟨hroom, hd, hp⟩⟩

/-- The length of what is written for a witness is that of its frame, header and body. -/
theorem IsWriting.length {w : Witness} {b : Bytes} (h : w.IsWriting b) :
    b.length = 4 + headerLayout.size + (bodyLayout w.padding).size := by
  obtain ⟨head, body, hhead, hbody, rfl⟩ := h
  rw [Envelope.wrap, List.length_append, Bytes.length_ofNat, List.length_append, hhead.length,
    Layout.length_encode hbody, Nat.add_assoc]

theorem numbers_lt_of_toBytes {w : Witness} {b : Bytes} (h : w.toBytes = .ok b) :
    ∀ n ∈ shapeNumbers w.padding, n < 2 ^ 32 :=
  (toBytes_eq_ok.mp h).2.numbers

theorem length_of_toBytes {w : Witness} {b : Bytes} (h : w.toBytes = .ok b) :
    b.length = 4 + headerLayout.size + (bodyLayout w.padding).size :=
  (toBytes_eq_ok.mp h).2.length

theorem byteSize?_eq_some {p : Padding} {n : Nat} (h : byteSize? p = some n) :
    (bodyLayout p).size?.isSome ∧ n = 4 + headerLayout.size + (bodyLayout p).size := by
  obtain ⟨m, hm, h⟩ := Option.bind_eq_some_iff.mp h
  rw [hm, Layout.size_eq_of_size? hm, ← (word?_eq_some.mp h).2, Nat.add_comm]
  exact ⟨rfl, rfl⟩

theorem lt_of_byteSize? {p : Padding} {n : Nat} (h : byteSize? p = some n) : n < 2 ^ 64 := by
  obtain ⟨_, -, h⟩ := Option.bind_eq_some_iff.mp h
  obtain ⟨hlt, rfl⟩ := word?_eq_some.mp h
  exact hlt

/-- A slot takes its content and a nonce. -/
theorem size?_slotsLayout {capacity size n : Nat} (h : (slotsLayout capacity size).size? = some n) :
    size < 2 ^ 64 ∧ capacity * (size + 32) = n := by
  obtain ⟨slot, hslot, h⟩ := Option.bind_eq_some_iff.mp h
  obtain ⟨leaf, hleaf, hslot⟩ := Option.bind_eq_some_iff.mp hslot
  obtain ⟨nonce, hnonce, hslot⟩ := Option.bind_eq_some_iff.mp hslot
  obtain rfl : 32 = nonce := Option.some.inj hnonce
  obtain ⟨hsize, rfl⟩ := word?_eq_some.mp hleaf
  obtain ⟨-, rfl⟩ := word?_eq_some.mp hslot
  exact ⟨hsize, (word?_eq_some.mp h).2⟩

/-- A short witness has few slots, since each takes a nonce. The width of a slot is bounded by a
    word alone. -/
theorem slots_of_byteSize? {p : Padding} {n : Nat} (h : byteSize? p = some n) :
    (∀ kind, (p.shape kind).leafSize < 2 ^ 64 ∧ 32 * (p.shape kind).capacity ≤ n) ∧ p.utxoSize < 2 ^ 64 := by
  obtain ⟨body, hbody, h⟩ := Option.bind_eq_some_iff.mp h
  obtain ⟨-, rfl⟩ := word?_eq_some.mp h
  obtain ⟨fields, hlayout⟩ : ∃ fields, bodyLayout p = .struct fields := ⟨_, rfl⟩
  have slots (name : String) {capacity size : Nat} (hmem : (name, slotsLayout capacity size) ∈ fields) :
      size < 2 ^ 64 ∧ 32 * capacity ≤ body + (4 + headerLayout.size) := by
    rw [hlayout] at hbody
    obtain ⟨k, hle, hk⟩ := Layout.exists_size?_of_mem hbody hmem
    obtain ⟨hsize, rfl⟩ := size?_slotsLayout hk
    have hnonces : capacity * 32 ≤ capacity * (size + 32) := Nat.mul_le_mul_left capacity (by omega)
    exact ⟨hsize, by omega⟩
  cases hlayout
  have hutxo : p.utxoSize < 2 ^ 64 ∧ 32 * p.inputs ≤ _ := slots "input_utxos" (by simp)
  refine ⟨fun kind => slots kind.name ?_, hutxo.1⟩
  refine List.mem_append_left _ (List.mem_cons_of_mem _ (List.mem_map.mpr ⟨kind, ?_, rfl⟩))
  cases kind <;> decide

/-! ## Assembled witnesses -/

section
variable [Hasher] {t : Tree} {tx : Transaction} {r : Registry} {p : Padding} {lookup : UtxoLookup} {w : Witness}

theorem declared_of_ofTree (ht : Tree.build tx r p = .ok t) (hw : ofTree t tx lookup p = .ok w) :
    w.padding = p ∧ w.Declared := by
  obtain ⟨inputs, references, hinputs, hreferences, rfl⟩ := ofTree_eq_ok.mp hw
  have hfits := Tree.fits_of_build ht
  have hspent : (tx.inputs.map _).length ≤ p.inputs := Tree.items_fit ht .inputs
  have hnamed : (tx.references.map _).length ≤ p.references := Tree.items_fit ht .references
  rw [List.length_map] at hspent hnamed
  obtain ⟨hinputs, hinputWidth⟩ := length_resolveSlots hspent hinputs
  obtain ⟨hreferences, hreferenceWidth⟩ := length_resolveSlots hnamed hreferences
  refine ⟨rfl, ?_, ?_, ?_, ?_, hinputs, hinputWidth, hreferences, hreferenceWidth⟩
  · rw [List.map_map]
    exact hfits.kinds
  · exact List.forall_mem_map.mpr fun g hg => (hfits.groups g hg).count
  · exact List.forall_mem_map.mpr fun g hg => (hfits.groups g hg).nonces
  · exact List.forall_mem_map.mpr fun g hg => (hfits.groups g hg).width

theorem declared_of_assemble (h : assemble tx r lookup p = .ok w) : w.padding = p ∧ w.Declared := by
  obtain ⟨t, ht, hw⟩ := assemble_eq_ok.mp h
  exact declared_of_ofTree ht hw

/-- Every witness of a built tree can be written, if the numbers of the padding fit the header and
    there is room for the body. -/
theorem toBytes_of_ofTree (hp : ∀ n ∈ shapeNumbers p, n < 2 ^ 32) (hroom : (bodyLayout p).HasRoom)
    (ht : Tree.build tx r p = .ok t) (hw : ofTree t tx lookup p = .ok w) : ∃ b, w.toBytes = .ok b := by
  obtain ⟨rfl, hdeclared⟩ := declared_of_ofTree ht hw
  exact (toBytes_isOk hdeclared.regular).mpr ⟨hdeclared, hp, hroom⟩

end

/-! ## Both ways -/

/-- The byte string of an assembled witness has the declared length, and is read as the witness
    unless the salt is all zeros, and is refused for its salt if it is. Conversely whatever is read
    as a witness is the byte string of that witness, which has the slots that its padding declares
    behind a header that declares the length of the body; and no two byte strings are read as one
    witness. (A byte string of 2 ^ 63 bytes would be read as a witness that there is no room to
    write, but there is no such string.) -/
theorem bytes_canonical [Hasher] :
    (∀ (p : Padding) (n : Nat) (tx : Transaction) (r : Registry) (lookup : UtxoLookup) (w : Witness) (b : Bytes),
      byteSize? p = some n → assemble tx r lookup p = .ok w → w.toBytes = .ok b → b.length = n ∧
        (w.salt.bytes ≠ Digest.zero → ofBytes b = .ok w) ∧
        (w.salt.bytes = Digest.zero → ofBytes b = .error (.malformed "privacy salt"))) ∧
    (∀ (b : Bytes) (w : Witness), ofBytes b = .ok w → (b.length < 2 ^ 63 → w.toBytes = .ok b) ∧ w.Declared ∧
      ∃ n, (bodyLayout w.padding).size? = some n ∧ b.length = 4 + headerLayout.size + n) ∧
    ∀ (b b' : Bytes) (w : Witness), ofBytes b = .ok w → ofBytes b' = .ok w → b = b' := by
  refine ⟨fun p n tx r lookup w b hn hw hb => ?_, fun b w hw => ?_, fun b b' w hb hb' => ?_⟩
  · obtain ⟨rfl, hdeclared⟩ := declared_of_assemble hw
    obtain ⟨hfits, rfl⟩ := byteSize?_eq_some hn
    obtain ⟨-, hwriting⟩ := toBytes_eq_ok.mp hb
    exact ⟨hwriting.length, fun hsalt => ofBytes_eq_ok.mpr ⟨hsalt, hdeclared.regular, hfits, hwriting⟩,
      fun hsalt => ofBytes_of_zero hsalt hfits hwriting⟩
  · obtain ⟨-, hregular, hfits, hwriting⟩ := ofBytes_eq_ok.mp hw
    obtain ⟨n, hn⟩ := Option.isSome_iff_exists.mp hfits
    have hlen : b.length = 4 + headerLayout.size + n := by
      rw [hwriting.length, Layout.size_eq_of_size? hn]
    have hroom (hlt : b.length < 2 ^ 63) : (bodyLayout w.padding).HasRoom := ⟨n, hn, by omega⟩
    exact ⟨fun hlt => toBytes_eq_ok.mpr ⟨hroom hlt, hwriting⟩, ((isWriting_isOk hregular).mp ⟨b, hwriting⟩).1, n, hn, hlen⟩
  · obtain ⟨-, -, -, hwriting⟩ := ofBytes_eq_ok.mp hb
    obtain ⟨-, -, -, hwriting'⟩ := ofBytes_eq_ok.mp hb'
    exact hwriting.unique hwriting'

theorem standard_room : (∀ n ∈ shapeNumbers .standard, n < 2 ^ 32) ∧ (bodyLayout .standard).HasRoom :=
  ⟨by decide, 1315, by decide, by decide⟩

/-- One input is spent, whose output the lookup finds, under the padding of a ledger that
    declares none. -/
theorem oneInput_bytes : ∃ w b, byteSize? .standard = some 1355 ∧
    assemble View.oneInput .builtin (fun _ => some (.padding 64)) .standard = .ok w ∧ w.toBytes = .ok b ∧
    (b.length = 1355 ∧ ofBytes b = .ok w) ∧
    (w.Declared ∧ ∃ n, (bodyLayout w.padding).size? = some n ∧ b.length = 4 + headerLayout.size + n) ∧
    ∀ b', ofBytes b' = .ok w → b = b' := by
  have hsize : byteSize? .standard = some 1355 := by decide
  obtain ⟨t, w, ht, hw, hsalt⟩ : ∃ t w, Tree.build View.oneInput .builtin .standard = .ok t ∧
      ofTree t View.oneInput (fun _ => some (.padding 64)) .standard = .ok w ∧ w.salt.bytes ≠ Digest.zero :=
    ⟨_, _, rfl, rfl, by decide⟩
  obtain ⟨b, hb⟩ := toBytes_of_ofTree standard_room.1 standard_room.2 ht hw
  obtain ⟨hassembled, hread, hunique⟩ := bytes_canonical
  have hassemble := assemble_eq_ok.mpr ⟨t, ht, hw⟩
  obtain ⟨hlen, hback, -⟩ := hassembled _ _ _ _ _ w b hsize hassemble hb
  have hback := hback hsalt
  exact ⟨w, b, hsize, hassemble, hb, ⟨hlen, hback⟩, (hread b w hback).2, fun b' => hunique b b' w hback⟩

/-- The same with a salt of zeros: the witness is assembled and written, and its bytes are refused. -/
theorem zeroSalt_not_read : ∃ w b, byteSize? .standard = some 1355 ∧
    assemble { View.oneInput with salt := ⟨.zero⟩ } .builtin (fun _ => some (.padding 64)) .standard = .ok w ∧
    w.toBytes = .ok b ∧ b.length = 1355 ∧ ofBytes b = .error (.malformed "privacy salt") := by
  obtain ⟨t, w, ht, hw, hsalt, hpadding⟩ : ∃ t w,
      Tree.build { View.oneInput with salt := ⟨.zero⟩ } .builtin .standard = .ok t ∧
      ofTree t { View.oneInput with salt := ⟨.zero⟩ } (fun _ => some (.padding 64)) .standard = .ok w ∧
      w.salt.bytes = Digest.zero ∧ w.padding = .standard := ⟨_, _, rfl, rfl, rfl, rfl⟩
  obtain ⟨b, hb⟩ := toBytes_of_ofTree standard_room.1 standard_room.2 ht hw
  obtain ⟨-, hwriting⟩ := toBytes_eq_ok.mp hb
  have hlen : b.length = 1355 := by
    rw [hwriting.length, hpadding]
    rfl
  exact ⟨w, b, by decide, assemble_eq_ok.mpr ⟨t, ht, hw⟩, hb, hlen,
    ofBytes_of_zero hsalt (hpadding ▸ rfl) hwriting⟩

end VeiledLedger.Witness
