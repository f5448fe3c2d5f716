/-
  VeiledLedger.Proofs.Layout.Counts — the counts in what is written.

  A list, a byte string and a text with a capacity start with a count of what is in them. The
  count has the width that its capacity asks for, four bytes at most, and one that needs more
  room is cut. So what stands in front of a list is the length of the list exactly if that is
  below 2 ^ 32. Where all counts are, what is written spells the value, and two values are
  never written alike. A list of 2 ^ 32 elements without content is written as the empty list is.

  Main statements: `standsIn_of_encode`, `spells_of_counts`, `counts_written`,
  `full_list_reads_empty`.
-/

import VeiledLedger.Proofs.Layout.Size
import VeiledLedger.Proofs.Layout.Spelling

namespace VeiledLedger

def Charset.textSize : Charset → String → Nat
  | .latin1, s => s.length
  | .utf8, s => (Text.Utf8.encode s).length

namespace Layout

/-- A count in the bytes of a value: where it starts, the capacity of the room behind it, and how
    much there is in the room. -/
structure Count where
  start : Nat
  capacity : Nat
  count : Nat

namespace Count

def later (n : Nat) (p : Count) : Count := { p with start := n + p.start }

/-- The number that stands in `b` where the count is. -/
def written (p : Count) (b : Bytes) : Nat := Bytes.toNat ((b.drop p.start).take (countWidth p.capacity))

end Count

def countsOfRow (counts : Value → List Count) (size : Nat) : List Value → List Count
  | [] => []
  | v :: vs => counts v ++ (countsOfRow counts size vs).map (.later size)

/-- The filler, `n` times; nothing, if there is no room to make it. -/
def fillers (e : Layout) (n : Nat) : List Value :=
  match filler e with
  | .ok v => List.replicate n v
  | .error _ => []

mutual

/-- All counts in the bytes of a value, those in unused room too. -/
def counts : Layout → Value → List Count
  | .bytes c, .bytes x => [⟨0, c, x.length⟩]
  | .string charset c, .string s => [⟨0, c, charset.textSize s⟩]
  | .list c e, .list vs => ⟨0, c, vs.length⟩ ::
      (countsOfRow (counts e) (size e) (vs ++ fillers e (c - vs.length))).map (.later (countWidth c))
  | .exactList _ e, .list vs => countsOfRow (counts e) (size e) vs
  | .nullable e, .nullable (some w) => (counts e w).map (.later 1)
  | .nullable e, .nullable none => ((fillers e 1).flatMap (counts e)).map (.later 1)
  | .struct fs, .struct vs => countsOfFields fs vs
  | _, _ => []

def countsOfFields : List (String × Layout) → List Value → List Count
  | (_, t) :: fs, v :: vs => counts t v ++ (countsOfFields fs vs).map (.later (size t))
  | _, _ => []

end

/-! ## Texts and rows -/

theorem length_of_encodeLatin1 {cs : List Char} {x : Bytes} (h : encodeLatin1 cs = .ok x) : x.length = cs.length := by
  rw [← map_ofNat_of_encodeLatin1 h, List.length_map]

theorem length_of_encodeText {charset : Charset} {s : String} {x : Bytes} (h : encodeText charset s = .ok x) :
    x.length = charset.textSize s := by
  cases charset with
  | latin1 => rw [length_of_encodeLatin1 h, Charset.textSize, String.length_toList]
  | utf8 =>
    cases h
    rfl

/-- What is written for slots is a row of what is written for each. -/
theorem isRow_of_encodeSlots {write : Value → Except Obstacle Bytes} :
    ∀ {i : Nat} {vs : List Value} {b : Bytes}, encodeSlots write i vs = .ok b → IsRow (write · = .ok ·) vs b
  | _, [], _, h => by
    cases h
    rfl
  | _, _ :: _, _, h => by
    obtain ⟨x, y, hx, hy, rfl⟩ := encodeSlots_cons_eq_ok.mp h
    exact ⟨x, y, hx, isRow_of_encodeSlots hy, rfl⟩

theorem isRow_replicate {stands : Value → Bytes → Prop} {v : Value} {x : Bytes} (h : stands v x) :
    ∀ n : Nat, IsRow stands (List.replicate n v) (List.replicate n x).flatten
  | 0 => rfl
  | n + 1 => ⟨x, _, h, isRow_replicate h n, rfl⟩

theorem fillers_of_ok {e : Layout} {w : Value} (h : filler e = .ok w) (n : Nat) : fillers e n = List.replicate n w := by
  rw [fillers, h]

theorem isRow_of_encodeFillers {write : Value → Except Obstacle Bytes} {e : Layout} {i n : Nat} {b : Bytes}
    (h : encodeFillers write e i n = .ok b) :
    (fillers e n).length = n ∧ IsRow (write · = .ok ·) (fillers e n) b := by
  obtain ⟨w, hw, h⟩ := encodeFillers_eq_ok.mp h
  rw [fillers_of_ok hw]
  refine ⟨List.length_replicate, ?_⟩
  rcases h with ⟨rfl, rfl⟩ | ⟨x, -, hx, rfl⟩
  · rfl
  · exact isRow_replicate hx n

theorem counts_null {e : Layout} {w : Value} (h : filler e = .ok w) :
    counts (.nullable e) (.nullable none) = (counts e w).map (.later 1) := by
  rw [counts, fillers_of_ok h, List.replicate_one, List.flatMap_singleton]

/-! ## Where the counts stand -/

/-- The count, cut to its width, stands in its place. -/
structure Count.StandsIn (p : Count) (b : Bytes) : Prop where
  le : p.count ≤ p.capacity
  place : ∃ x y, x.length = p.start ∧ b = x ++ (writeCount p.capacity p.count ++ y)

namespace Count.StandsIn

variable {p : Count} {x y : Bytes}

theorem append (h : p.StandsIn x) (y : Bytes) : p.StandsIn (x ++ y) := by
  obtain ⟨hle, z, z', hz, rfl⟩ := h
  exact ⟨hle, z, z' ++ y, hz, by simp only [List.append_assoc]⟩

theorem later (h : p.StandsIn y) (x : Bytes) : (p.later x.length).StandsIn (x ++ y) := by
  obtain ⟨hle, z, z', hz, rfl⟩ := h
  refine ⟨hle, x ++ z, z', ?_, (List.append_assoc ..).symm⟩
  rw [List.length_append, hz, Count.later]

theorem of_write {c n : Nat} (h : n ≤ c) (y : Bytes) : Count.StandsIn ⟨0, c, n⟩ (writeCount c n ++ y) :=
  ⟨h, [], y, rfl, rfl⟩

end Count.StandsIn

theorem standsIn_of_isRow {stands : Value → Bytes → Prop} {counts : Value → List Count} {size : Nat}
    (hs : ∀ v x, stands v x → x.length = size ∧ ∀ p ∈ counts v, p.StandsIn x) :
    ∀ {vs : List Value} {b : Bytes}, IsRow stands vs b → ∀ p ∈ countsOfRow counts size vs, p.StandsIn b
  | [], _, _, _, hp => by cases hp
  | _ :: _, _, ⟨x, y, hx, hy, hb⟩, p, hp => by
    subst hb
    obtain ⟨hlen, hcounts⟩ := hs _ _ hx
    rcases List.mem_append.mp hp with hp | hp
    · exact (hcounts p hp).append y
    · obtain ⟨q, hq, rfl⟩ := List.mem_map.mp hp
      exact hlen ▸ (standsIn_of_isRow hs hy q hq).later x

mutual

/-- In what is written for a value each count stands in its place. -/
theorem standsIn_of_encode : ∀ {t : Layout} {v : Value} {b : Bytes}, encode t v = .ok b →
    ∀ p ∈ counts t v, p.StandsIn b
  | .bool, _, _, h, _, hp => by
    obtain ⟨x, rfl, -⟩ := encode_bool_eq_ok.mp h
    cases hp
  | .unsigned _, _, _, h, _, hp => by
    obtain ⟨n, rfl, -⟩ := encode_unsigned_eq_ok.mp h
    cases hp
  | .signed _, _, _, h, _, hp => by
    obtain ⟨n, rfl, -⟩ := encode_signed_eq_ok.mp h
    cases hp
  | .exactBytes _, _, _, h, _, hp => by
    obtain ⟨rfl, -⟩ := encode_exactBytes_eq_ok.mp h
    cases hp
  | .bytes c, _, _, h, p, hp => by
    obtain ⟨x, rfl, hx, rfl⟩ := encode_bytes_eq_ok.mp h
    obtain rfl := List.mem_singleton.mp hp
    exact (Count.StandsIn.of_write hx x).append _
  | .string charset c, _, _, h, p, hp => by
    obtain ⟨s, x, rfl, hs, hx, rfl⟩ := encode_string_eq_ok.mp h
    obtain rfl := List.mem_singleton.mp hp
    rw [← length_of_encodeText hs]
    exact (Count.StandsIn.of_write hx x).append _
  | .list c e, _, _, h, p, hp => by
    obtain ⟨vs, used, unused, rfl, hlen, hused, hunused, rfl⟩ := encode_list_eq_ok.mp h
    have hrow := (isRow_of_encodeSlots hused).append (isRow_of_encodeFillers hunused).2
    rw [List.append_assoc]
    rcases List.mem_cons.mp hp with rfl | hp
    · exact .of_write hlen _
    · obtain ⟨q, hq, rfl⟩ := List.mem_map.mp hp
      have hslot (w : Value) (x : Bytes) (hw : encode e w = .ok x) := And.intro (length_encode hw) (standsIn_of_encode hw)
      have hstands := standsIn_of_isRow hslot hrow q hq
      have hwidth : (writeCount c vs.length).length = countWidth c := Bytes.length_ofNat ..
      exact hwidth ▸ hstands.later _
  | .exactList n e, _, _, h, p, hp => by
    obtain ⟨vs, rfl, -, -, hslots⟩ := encode_exactList_eq_ok.mp h
    have hslot (w : Value) (x : Bytes) (hw : encode e w = .ok x) := And.intro (length_encode hw) (standsIn_of_encode hw)
    exact standsIn_of_isRow hslot (isRow_of_encodeSlots hslots) p hp
  | .nullable e, _, _, h, p, hp => by
    rcases encode_nullable_eq_ok.mp h with ⟨w, x, rfl, hx, rfl⟩ | ⟨w, x, rfl, hw, hx, rfl⟩
    · obtain ⟨q, hq, rfl⟩ := List.mem_map.mp hp
      exact (standsIn_of_encode hx q hq).later [1]
    · rw [counts_null hw] at hp
      obtain ⟨q, hq, rfl⟩ := List.mem_map.mp hp
      exact (standsIn_of_encode hx q hq).later [0]
  | .struct fs, _, _, h, p, hp => by
    obtain ⟨vs, rfl, hlen, hfields⟩ := encode_struct_eq_ok.mp h
    exact standsIn_of_encodeFields hlen hfields p hp

theorem standsIn_of_encodeFields : ∀ {fs : List (String × Layout)} {vs : List Value} {b : Bytes},
    fs.length = vs.length → encodeFields fs vs = .ok b → ∀ p ∈ countsOfFields fs vs, p.StandsIn b
  | [], [], _, _, _, _, hp => by cases hp
  | (field, t) :: fs, v :: vs, _, hlen, h, p, hp => by
    obtain ⟨x, y, hx, hy, rfl⟩ := encodeFields_cons_eq_ok.mp h
    rcases List.mem_append.mp hp with hp | hp
    · exact (standsIn_of_encode hx p hp).append y
    · obtain ⟨q, hq, rfl⟩ := List.mem_map.mp hp
      exact length_encode hx ▸ (standsIn_of_encodeFields (by simpa using hlen) hy q hq).later x

end

/-! ## Counts that are not cut -/

theorem lt_of_countWidth {c n : Nat} (hn : n ≤ c) (hlt : n < 2 ^ 32) : n < 256 ^ countWidth c := by
  unfold countWidth
  split
  · omega
  · split
    · omega
    · omega

/-- The number that is written is the count if that has room in four bytes, and else it is less. -/
theorem toNat_writeCount {c n : Nat} (hn : n ≤ c) : Bytes.toNat (writeCount c n) = n ↔ n < 2 ^ 32 := by
  rw [writeCount, Bytes.toNat_ofNat]
  refine ⟨fun h => ?_, fun hlt => Nat.mod_eq_of_lt (lt_of_countWidth hn hlt)⟩
  have hwidth : 256 ^ countWidth c ≤ 2 ^ 32 := by
    unfold countWidth
    split
    · decide
    · split <;> decide
  have := Nat.mod_lt n (Nat.pow_pos (a := 256) (n := countWidth c) (by decide))
  omega

theorem isCount_writeCount {c n : Nat} (hn : n ≤ c) (hlt : n < 2 ^ 32) : IsCount c n (writeCount c n) :=
  ⟨Bytes.length_ofNat .., (toNat_writeCount hn).mpr hlt, hn⟩

theorem isRoom_writeBytes {c : Nat} {x : Bytes} (hx : x.length ≤ c) (hlt : x.length < 2 ^ 32) :
    IsRoom c x (writeBytes c x) := by
  refine ⟨_, Bytes.zeros (c - x.length), isCount_writeCount hx hlt, ?_, List.append_assoc ..⟩
  rw [Bytes.length_zeros, Nat.add_sub_cancel' hx]

/-- The count in its place is the one that belongs there if it is not cut. -/
theorem Count.StandsIn.written {p : Count} {b : Bytes} (h : p.StandsIn b) : p.written b = p.count ↔ p.count < 2 ^ 32 := by
  obtain ⟨hle, x, y, hx, rfl⟩ := h
  have hwidth : (writeCount p.capacity p.count).length = countWidth p.capacity := Bytes.length_ofNat ..
  rw [Count.written, ← hx, List.drop_left, List.take_append_of_le_length (Nat.le_of_eq hwidth.symm), ← hwidth, List.take_length]
  exact toNat_writeCount hle

/-- What does not depend on the place holds of all counts in a row if it holds of those in each value. -/
theorem forall_mem_countsOfRow {P : Count → Prop} (hP : ∀ n p, P (Count.later n p) ↔ P p) {counts : Value → List Count}
    {size : Nat} : ∀ {vs : List Value}, (∀ p ∈ countsOfRow counts size vs, P p) ↔ ∀ v ∈ vs, ∀ p ∈ counts v, P p
  | [] => by simp [countsOfRow]
  | v :: vs => by
    simp only [countsOfRow, List.forall_mem_append, List.forall_mem_map, hP, List.forall_mem_cons]
    exact and_congr_right fun _ => forall_mem_countsOfRow hP

theorem countsOfRow_lt_iff {counts : Value → List Count} {size : Nat} {vs : List Value} :
    (∀ p ∈ countsOfRow counts size vs, p.count < 2 ^ 32) ↔ ∀ v ∈ vs, ∀ p ∈ counts v, p.count < 2 ^ 32 :=
  forall_mem_countsOfRow fun _ _ => Iff.rfl

mutual

/-- What is written for a value spells it, if no count is cut. -/
theorem spells_of_counts : ∀ {t : Layout} {v : Value} {b : Bytes}, encode t v = .ok b →
    (∀ p ∈ counts t v, p.count < 2 ^ 32) → t.Spells v b
  | .bool, _, _, h, _ => encode_bool_eq_ok.mp h
  | .unsigned _, _, _, h, _ => encode_unsigned_eq_ok.mp h
  | .signed _, _, _, h, _ => encode_signed_eq_ok.mp h
  | .exactBytes _, _, _, h, _ => encode_exactBytes_eq_ok.mp h
  | .bytes c, _, _, h, hlt => by
    obtain ⟨x, rfl, hx, rfl⟩ := encode_bytes_eq_ok.mp h
    exact ⟨x, rfl, isRoom_writeBytes hx (hlt _ (.head _))⟩
  | .string charset c, _, _, h, hlt => by
    obtain ⟨s, x, rfl, hs, hx, rfl⟩ := encode_string_eq_ok.mp h
    have hcount : x.length < 2 ^ 32 := length_of_encodeText hs ▸ hlt _ (.head _)
    exact ⟨s, x, rfl, hs, isRoom_writeBytes hx hcount⟩
  | .list c e, _, _, h, hlt => by
    obtain ⟨vs, used, unused, rfl, hlen, hused, hunused, rfl⟩ := encode_list_eq_ok.mp h
    rw [counts, List.forall_mem_cons, List.forall_mem_map] at hlt
    obtain ⟨hcount, hslots⟩ := hlt
    have hslot := List.forall_mem_append.mp (countsOfRow_lt_iff.mp hslots)
    obtain ⟨hfillers, hrow⟩ := isRow_of_encodeFillers hunused
    refine ⟨vs, fillers e (c - vs.length), _, used, unused, rfl, isCount_writeCount hlen hcount, ?_,
      (isRow_of_encodeSlots hused).imp fun w hw _ hx => spells_of_counts hx (hslot.1 w hw),
      hrow.imp fun w hw _ hx => spells_of_counts hx (hslot.2 w hw), List.append_assoc ..⟩
    rw [hfillers, Nat.add_sub_cancel' hlen]
  | .exactList n e, _, _, h, hlt => by
    obtain ⟨vs, rfl, hlen, -, hslots⟩ := encode_exactList_eq_ok.mp h
    have hslot := countsOfRow_lt_iff.mp hlt
    exact ⟨vs, rfl, hlen, (isRow_of_encodeSlots hslots).imp fun w hw _ hx => spells_of_counts hx (hslot w hw)⟩
  | .nullable e, _, _, h, hlt => by
    rcases encode_nullable_eq_ok.mp h with ⟨w, x, rfl, hx, rfl⟩ | ⟨w, x, rfl, hw, hx, rfl⟩
    · exact ⟨w, x, spells_of_counts hx (List.forall_mem_map.mp hlt), .inl ⟨rfl, rfl⟩⟩
    · rw [counts_null hw] at hlt
      exact ⟨w, x, spells_of_counts hx (List.forall_mem_map.mp hlt), .inr ⟨rfl, rfl⟩⟩
  | .struct fs, _, _, h, hlt => by
    obtain ⟨vs, rfl, hlen, hfields⟩ := encode_struct_eq_ok.mp h
    exact ⟨vs, rfl, spellsFields_of_counts hlen hfields hlt⟩

theorem spellsFields_of_counts : ∀ {fs : List (String × Layout)} {vs : List Value} {b : Bytes},
    fs.length = vs.length → encodeFields fs vs = .ok b → (∀ p ∈ countsOfFields fs vs, p.count < 2 ^ 32) →
      SpellsFields fs vs b
  | [], [], _, _, h, _ => by
    rw [encodeFields_nil] at h
    cases h
    exact ⟨rfl, rfl⟩
  | (field, t) :: fs, w :: ws, _, hlen, h, hlt => by
    obtain ⟨x, y, hx, hy, rfl⟩ := encodeFields_cons_eq_ok.mp h
    rw [countsOfFields, List.forall_mem_append, List.forall_mem_map] at hlt
    exact ⟨w, ws, x, y, rfl, spells_of_counts hx hlt.1, spellsFields_of_counts (by simpa using hlen) hy hlt.2, rfl⟩

end

/-- In what is written for a value, in whatever layout, a count is the number of elements or bytes
    in its room exactly if that is below 2 ^ 32. Two values whose counts all are below it are
    written alike only if they are the same, so no list, byte string or text in one is longer than
    in the other. -/
theorem counts_written {t : Layout} {v : Value} {b : Bytes} (h : t.encodeAt "" v = .ok b) :
    (∀ p ∈ t.counts v, p.written b = p.count ↔ p.count < 2 ^ 32) ∧
    ((∀ p ∈ t.counts v, p.count < 2 ^ 32) →
      ∀ w, (∀ p ∈ t.counts w, p.count < 2 ^ 32) → t.encodeAt "" w = .ok b → w = v) := by
  obtain ⟨-, hv⟩ := encodeAt_eq_ok.mp h
  refine ⟨fun p hp => (standsIn_of_encode hv p hp).written, fun hlt w hlt' hw => ?_⟩
  obtain ⟨-, hw⟩ := encodeAt_eq_ok.mp hw
  exact (spells_of_counts hw hlt').unique (reservable_of_encode hv) (spells_of_counts hv hlt)

def tags : Layout := .struct [("id", .unsigned .two), ("names", .list 3 (.string .utf8 300))]

def twoTags : Value := .struct [.unsigned .two 7, .list [.string "é", .string "long"]]

theorem tags_counted : tags.counts twoTags = [⟨2, 3, 2⟩, ⟨3, 300, 2⟩, ⟨305, 300, 4⟩, ⟨607, 300, 0⟩] ∧
    ∃ b, tags.encodeAt "" twoTags = .ok b ∧ ∀ p ∈ tags.counts twoTags, p.written b = p.count := by
  have hcounts : tags.counts twoTags = [⟨2, 3, 2⟩, ⟨3, 300, 2⟩, ⟨305, 300, 4⟩, ⟨607, 300, 0⟩] := rfl
  have hencode : ∃ b, tags.encodeAt "" twoTags = .ok b := ⟨_, rfl⟩
  obtain ⟨b, hb⟩ := hencode
  refine ⟨hcounts, b, hb, fun p hp => ((counts_written hb).1 p hp).mpr ?_⟩
  rw [hcounts] at hp
  revert p
  decide

/-! ## Counts that are cut -/

def marks : Layout := .list (2 ^ 32) (.struct [])

theorem encodeSlots_replicate {write : Value → Except Obstacle Bytes} {v : Value} (h : write v = .ok []) :
    ∀ i n : Nat, encodeSlots write i (List.replicate n v) = .ok []
  | _, 0 => rfl
  | i, n + 1 => encodeSlots_cons_eq_ok.mpr ⟨[], [], h, encodeSlots_replicate h (i + 1) n, rfl⟩

theorem marks_size : marks.size? = some 4 := by decide

/-- Of the marks themselves nothing is written. -/
theorem encode_marks {n : Nat} (hn : n ≤ 2 ^ 32) :
    marks.encodeAt "" (.list (List.replicate n (.struct []))) = .ok (writeCount (2 ^ 32) n) := by
  have hmark : encode (.struct []) (.struct []) = .ok [] := rfl
  have hlen : (List.replicate n (Value.struct [])).length = n := List.length_replicate
  have hunused : encodeFillers (encode (.struct [])) (.struct []) n (2 ^ 32 - n) = .ok [] := by
    refine encodeFillers_eq_ok.mpr ⟨.struct [], rfl, ?_⟩
    rcases Nat.eq_zero_or_pos (2 ^ 32 - n) with h | h
    · exact .inl ⟨h, rfl⟩
    · exact .inr ⟨[], Nat.ne_of_gt h, hmark, by simp⟩
  refine encodeAt_eq_ok.mpr ⟨⟨4, marks_size, by decide⟩, encode_list_eq_ok.mpr ⟨_, [], [], rfl, hlen.symm ▸ hn,
    encodeSlots_replicate hmark 0 n, hlen.symm ▸ hunused, ?_⟩⟩
  rw [hlen, List.append_nil, List.append_nil]

/-- A list of 2 ^ 32 marks, which its layout takes, is written as the empty list is: the count in
    front of it is 0. What is written for it is read as the empty list. -/
theorem full_list_reads_empty : marks.size? = some 4 ∧
    marks.encodeAt "" (.list (List.replicate (2 ^ 32) (.struct []))) = .ok [0, 0, 0, 0] ∧
    ⟨0, 2 ^ 32, 2 ^ 32⟩ ∈ marks.counts (.list (List.replicate (2 ^ 32) (.struct []))) ∧
    Count.written ⟨0, 2 ^ 32, 2 ^ 32⟩ [0, 0, 0, 0] = 0 ∧
    marks.encodeAt "" (.list []) = .ok [0, 0, 0, 0] ∧ marks.decode [0, 0, 0, 0] = .ok (.list []) := by
  have hcut : writeCount (2 ^ 32) (2 ^ 32) = [0, 0, 0, 0] := by decide
  have hfull := encode_marks (Nat.le_refl (2 ^ 32))
  have hempty := encode_marks (Nat.zero_le (2 ^ 32))
  have hcounts : ∀ p ∈ marks.counts (.list []), p.count < 2 ^ 32 := by
    rw [marks, counts, List.forall_mem_cons, List.forall_mem_map]
    refine ⟨by decide, countsOfRow_lt_iff.mpr fun v hv p hp => ?_⟩
    -- an unused slot holds a mark, in which there is no count
    rw [List.nil_append, fillers_of_ok (w := .struct []) rfl, List.mem_replicate] at hv
    rw [hv.2] at hp
    cases hp
  obtain ⟨-, hwritten⟩ := encodeAt_eq_ok.mp hempty
  have hread : marks.decode [0, 0, 0, 0] = .ok (.list []) :=
    decode_of_spells (reservable_of_encode hwritten) marks_size (spells_of_counts hwritten hcounts)
  refine ⟨marks_size, hcut ▸ hfull, ?_, by decide, hempty, hread⟩
  rw [marks, counts, List.length_replicate]
  exact .head _

end Layout

end VeiledLedger
