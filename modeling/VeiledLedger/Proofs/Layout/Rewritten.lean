/-
  VeiledLedger.Proofs.Layout.Rewritten — every value that is read can be written again.

  A spelling holds more than its value: something stands in the rest of a room, in an unused
  slot and behind a flag of 0. What is written for the value is another spelling of it, with
  zeros or the filler of the layout in those places. No bound on the capacities is needed: a
  count that was read fits its prefix. But there has to be room for the fillers.

  So a layout whose length fits a word reads exactly the spellings of its length, if there is
  room for its lists, and nothing if there is not, although a byte string may spell a value. What
  it reads is written, and read back from what is written, if there is room for its fillers too.

  Main statements: `Modest.exists_written_filler`, `Modest.exists_written`, `decode_reads_spellings`,
  `crowd_not_read`.
-/

import VeiledLedger.Proofs.Layout.Canonical

namespace VeiledLedger.Layout

/-! ## Counts, rooms and rows -/

theorem IsCount.written {c n : Nat} {p : Bytes} (h : IsCount c n p) : writeCount c n = p := by
  rw [writeCount, ← h.width, ← h.value, Bytes.ofNat_toNat]

theorem isCount_zero (c : Nat) : IsCount c 0 (writeCount c 0) := by
  refine ⟨Bytes.length_ofNat .., ?_, Nat.zero_le c⟩
  rw [writeCount, Bytes.toNat_ofNat, Nat.zero_mod]

/-- Behind its count and content a room may as well hold zeros. -/
theorem isRoom_of_isCount {c : Nat} {x p : Bytes} (h : IsCount c x.length p) : IsRoom c x (writeBytes c x) := by
  refine ⟨p, Bytes.zeros (c - x.length), h, ?_, ?_⟩
  · rw [Bytes.length_zeros, Nat.add_sub_cancel' h.le]
  · rw [writeBytes, h.written, List.append_assoc]

/-- A row is written if each of its values is. -/
theorem IsRow.written {write : Value → Except Obstacle Bytes} {stands stands' : Value → Bytes → Prop}
    (hw : ∀ v b, stands v b → ∃ x, write v = .ok x ∧ stands' v x) :
    ∀ {i : Nat} {vs : List Value} {b : Bytes}, IsRow stands vs b →
      ∃ y, encodeSlots write i vs = .ok y ∧ IsRow stands' vs y
  | _, [], _, _ => ⟨[], rfl, rfl⟩
  | i, _ :: _, _, ⟨_, _, hx, hrest, _⟩ => by
    obtain ⟨x, hx, hx'⟩ := hw _ _ hx
    obtain ⟨y, hy, hy'⟩ := hrest.written hw (i := i + 1)
    exact ⟨x ++ y, encodeSlots_cons_eq_ok.mpr ⟨x, y, hx, hy, rfl⟩, x, y, hx', hy', rfl⟩

/-! ## Values -/

def Writes (t : Layout) (v : Value) (b : Bytes) : Prop := encode t v = .ok b ∧ t.Spells v b

theorem exists_fillers {e : Layout} {w : Value} {x : Bytes} (hw : filler e = .ok w) (h : e.Writes w x) (i n : Nat) :
    ∃ y, encodeFillers (encode e) e i n = .ok y ∧ IsRow (Spells e) (List.replicate n w) y := by
  refine ⟨_, encodeFillers_eq_ok.mpr ⟨w, hw, ?_⟩, isRow_replicate h.2 n⟩
  rcases Nat.eq_zero_or_pos n with rfl | hn
  · exact .inl ⟨rfl, rfl⟩
  · exact .inr ⟨x, Nat.ne_of_gt hn, h.1, rfl⟩

mutual

/-- A filler that there is room for is written. -/
theorem Modest.exists_written_filler : ∀ {t : Layout}, t.Modest → ∃ v x, filler t = .ok v ∧ t.Writes v x
  | .bool, _ => ⟨_, [0], rfl, rfl, false, rfl, rfl⟩
  | .unsigned _, _ => ⟨_, _, rfl, encode_unsigned_eq_ok.mpr ⟨0, rfl, rfl⟩, 0, rfl, rfl⟩
  | .signed _, _ => ⟨_, _, rfl, encode_signed_eq_ok.mpr ⟨0, rfl, rfl⟩, 0, rfl, rfl⟩
  | .exactBytes n, h => by
    have hzeros := Bytes.length_zeros n
    exact ⟨_, _, filler_exactBytes_eq_ok.mpr ⟨modest_exactBytes.mp h, rfl⟩, encode_exactBytes_eq_ok.mpr ⟨rfl, hzeros⟩, rfl, hzeros⟩
  | .bytes c, _ =>
    ⟨_, _, rfl, encode_bytes_eq_ok.mpr ⟨[], rfl, Nat.zero_le c, rfl⟩, [], rfl, isRoom_of_isCount (isCount_zero c)⟩
  | .string charset c, _ => by
    have hempty : encodeText charset "" = .ok [] := by cases charset <;> rfl
    exact ⟨_, _, rfl, encode_string_eq_ok.mpr ⟨"", [], rfl, hempty, Nat.zero_le c, rfl⟩, "", [], rfl, hempty,
      isRoom_of_isCount (isCount_zero c)⟩
  | .list c e, h => by
    obtain ⟨w, x, hw, hx⟩ := Modest.exists_written_filler (t := e) h
    obtain ⟨unused, hunused, hrow⟩ := exists_fillers hw hx 0 c
    refine ⟨_, _, rfl, encode_list_eq_ok.mpr ⟨[], [], unused, rfl, Nat.zero_le c, rfl, hunused, rfl⟩,
      [], List.replicate c w, _, [], unused, rfl, isCount_zero c, ?_, rfl, hrow, List.append_assoc ..⟩
    rw [List.length_replicate, List.length_nil, Nat.zero_add]
  | .exactList n e, h => by
    obtain ⟨hroom, helement⟩ := modest_exactList.mp h
    obtain ⟨w, x, hw, hx⟩ := Modest.exists_written_filler (t := e) helement
    have hslot (v : Value) (_ : Bytes) (hv : v = w) : ∃ x, e.Writes v x := hv ▸ ⟨x, hx⟩
    have hcopy : IsRow (fun v _ => v = w) (List.replicate n w) (List.replicate n []).flatten := isRow_replicate rfl n
    obtain ⟨y, hy, hrow⟩ := hcopy.written hslot (i := 0)
    have hlen := List.length_replicate (n := n) (a := w)
    exact ⟨_, y, filler_exactList_eq_ok.mpr ⟨w, hw, hroom, rfl⟩,
      encode_exactList_eq_ok.mpr ⟨_, rfl, hlen, hroom, hy⟩, _, rfl, hlen, hrow⟩
  | .nullable e, h => by
    obtain ⟨w, x, hw, hx, hx'⟩ := Modest.exists_written_filler (t := e) h
    exact ⟨_, 0 :: x, rfl, encode_nullable_eq_ok.mpr (.inr ⟨w, x, rfl, hw, hx, rfl⟩), w, x, hx', .inr ⟨rfl, rfl⟩⟩
  | .struct fs, h => by
    obtain ⟨vs, x, hvs, hx, hx'⟩ := ModestFields.exists_written_filler (show ModestFields fs from h)
    exact ⟨_, x, filler_struct_eq_ok.mpr ⟨vs, hvs, rfl⟩,
      encode_struct_eq_ok.mpr ⟨_, rfl, length_eq_of_spellsFields hx', hx⟩, _, rfl, hx'⟩

theorem ModestFields.exists_written_filler : ∀ {fs : List (String × Layout)}, ModestFields fs →
    ∃ vs x, fillerFields fs = .ok vs ∧ encodeFields fs vs = .ok x ∧ SpellsFields fs vs x
  | [], _ => ⟨[], [], rfl, encodeFields_nil, rfl, rfl⟩
  | (_, _) :: _, h => by
    obtain ⟨hfirst, hrest⟩ := modestFields_cons.mp h
    obtain ⟨w, x, hw, hx, hx'⟩ := hfirst.exists_written_filler
    obtain ⟨ws, y, hws, hy, hy'⟩ := ModestFields.exists_written_filler hrest
    exact ⟨w :: ws, x ++ y, fillerFields_cons_eq_ok.mpr ⟨w, ws, hw, hws, rfl⟩,
      encodeFields_cons_eq_ok.mpr ⟨x, y, hx, hy, rfl⟩, _, _, x, y, rfl, hx', hy', rfl⟩

end

mutual

/-- A value that has a spelling is written, and what is written is one of its spellings. -/
theorem Modest.exists_written : ∀ {t : Layout}, t.Modest → ∀ {v : Value} {b : Bytes}, t.Spells v b → ∃ x, t.Writes v x
  | .bool, _, _, b, h => ⟨b, encode_bool_eq_ok.mpr h, h⟩
  | .unsigned _, _, _, b, h => ⟨b, encode_unsigned_eq_ok.mpr h, h⟩
  | .signed _, _, _, b, h => ⟨b, encode_signed_eq_ok.mpr h, h⟩
  | .exactBytes _, _, _, b, h => ⟨b, encode_exactBytes_eq_ok.mpr h, h⟩
  | .bytes c, _, _, _, ⟨x, hv, _, _, hp, _, _⟩ =>
    ⟨_, encode_bytes_eq_ok.mpr ⟨x, hv, hp.le, rfl⟩, x, hv, isRoom_of_isCount hp⟩
  | .string charset c, _, _, _, ⟨s, x, hv, hs, _, _, hp, _, _⟩ =>
    ⟨_, encode_string_eq_ok.mpr ⟨s, x, hv, hs, hp.le, rfl⟩, s, x, hv, hs, isRoom_of_isCount hp⟩
  | .list c e, h, _, _, ⟨vs, _, p, _, _, hv, hp, _, hused, _, _⟩ => by
    -- the unused slots get the filler of the layout, whatever stood in them
    obtain ⟨w, x, hw, hx⟩ := Modest.exists_written_filler (t := e) h
    have hslot (v : Value) (b : Bytes) (hv : e.Spells v b) : ∃ x, e.Writes v x :=
      Modest.exists_written (t := e) h hv
    obtain ⟨used, hused, hrow⟩ := hused.written hslot (i := 0)
    obtain ⟨unused, hunused, hrow'⟩ := exists_fillers hw hx vs.length (c - vs.length)
    refine ⟨_, encode_list_eq_ok.mpr ⟨vs, used, unused, hv, hp.le, hused, hunused, rfl⟩,
      vs, _, p, used, unused, hv, hp, ?_, hrow, hrow', ?_⟩
    · rw [List.length_replicate, Nat.add_sub_cancel' hp.le]
    · rw [hp.written, List.append_assoc]
  | .exactList n e, h, _, _, ⟨vs, hv, hlen, hrow⟩ => by
    obtain ⟨hroom, helement⟩ := modest_exactList.mp h
    have hslot (v : Value) (b : Bytes) (hv : e.Spells v b) : ∃ x, e.Writes v x :=
      Modest.exists_written (t := e) helement hv
    obtain ⟨y, hy, hrow'⟩ := hrow.written hslot (i := 0)
    exact ⟨y, encode_exactList_eq_ok.mpr ⟨vs, hv, hlen, hroom, hy⟩, vs, hv, hlen, hrow'⟩
  | .nullable e, h, _, _, ⟨w, _, hw, hflag⟩ => by
    rcases hflag with ⟨hv, -⟩ | ⟨hv, -⟩
    · obtain ⟨x, hx, hx'⟩ := Modest.exists_written (t := e) h hw
      exact ⟨1 :: x, encode_nullable_eq_ok.mpr (.inl ⟨w, x, hv, hx, rfl⟩), w, x, hx', .inl ⟨hv, rfl⟩⟩
    · obtain ⟨w, x, hw, hx, hx'⟩ := Modest.exists_written_filler (t := e) h
      exact ⟨0 :: x, encode_nullable_eq_ok.mpr (.inr ⟨w, x, hv, hw, hx, rfl⟩), w, x, hx', .inr ⟨hv, rfl⟩⟩
  | .struct fs, h, _, _, ⟨vs, hv, hfields⟩ => by
    obtain ⟨x, hx, hx'⟩ := ModestFields.exists_written (show ModestFields fs from h) hfields
    exact ⟨x, encode_struct_eq_ok.mpr ⟨vs, hv, length_eq_of_spellsFields hfields, hx⟩, vs, hv, hx'⟩

theorem ModestFields.exists_written : ∀ {fs : List (String × Layout)}, ModestFields fs →
    ∀ {vs : List Value} {b : Bytes}, SpellsFields fs vs b → ∃ x, encodeFields fs vs = .ok x ∧ SpellsFields fs vs x
  | [], _, _, _, ⟨hvs, _⟩ => by
    subst hvs
    exact ⟨[], encodeFields_nil, rfl, rfl⟩
  | (_, _) :: _, h, _, _, ⟨w, ws, _, _, hvs, hw, hrest, _⟩ => by
    subst hvs
    obtain ⟨hfirst, hmodest⟩ := modestFields_cons.mp h
    obtain ⟨x, hx, hx'⟩ := hfirst.exists_written hw
    obtain ⟨y, hy, hy'⟩ := ModestFields.exists_written hmodest hrest
    exact ⟨x ++ y, encodeFields_cons_eq_ok.mpr ⟨x, y, hx, hy, rfl⟩, w, ws, x, y, rfl, hx', hy', rfl⟩

end

/-! ## What is read -/

/-- A layout whose length fits a word, and whose lists there is room for, reads a byte string as a
    value exactly if the string has that length and spells the value. Without that room nothing is
    read. If there is room for its fillers too, every value that is read is written with that
    length, and read back from what is written. -/
theorem decode_reads_spellings {t : Layout} {n : Nat} (hn : t.size? = some n) (v : Value) (b : Bytes) :
    (t.Reservable → (t.decode b = .ok v ↔ b.length = n ∧ t.Spells v b)) ∧
    (¬t.Reservable → t.decode b ≠ .ok v) ∧
    (t.Modest → n < 2 ^ 63 → t.decode b = .ok v →
      ∀ path, ∃ x, t.encodeAt path v = .ok x ∧ x.length = n ∧ t.decode x = .ok v) := by
  have hiff (x : Bytes) : t.decode x = .ok v ↔ x.length = n ∧ t.Reservable ∧ t.Spells v x := by
    rw [decode_eq_ok, hn, Option.some.injEq, eq_comm]
  refine ⟨fun ht => ?_, fun ht hread => ht ((hiff b).mp hread).2.1, fun ht hlt hread path => ?_⟩
  · rw [hiff]
    exact and_congr_right fun _ => and_iff_right ht
  · obtain ⟨-, hroom, hb⟩ := (hiff b).mp hread
    obtain ⟨x, hx, hspells⟩ := ht.exists_written hb
    have hlen : x.length = n := (length_encode hx).trans (size_eq_of_size? hn)
    exact ⟨x, encodeAt_eq_ok.mpr ⟨⟨n, hn, hlt⟩, hx⟩, hlen, (hiff x).mpr ⟨hlen, hroom, hspells⟩⟩

/-- The bytes of the holdings with something in every place that is left open: the rest of three
    rooms, an owner behind the flag of the missing one, and one in the unused slot. -/
def looseBytes : Bytes :=
  [2, 1, 3, 90, 111, 233, 88, 255, 254, 0, 1, 65, 0, 0, 0, 0, 5, 1, 0, 9, 9, 9, 9, 0, 1, 2, 195, 169, 33, 1, 7, 0, 5]

def flawedBytes : Bytes := looseBytes.set 17 2

theorem holdings_rewritten : holdings.size? = some 33 ∧ looseBytes ≠ holdingsBytes ∧
    holdings.Spells holdingsOfOne looseBytes ∧ (∀ v, ¬holdings.Spells v flawedBytes) ∧
    ∃ x, holdings.encodeAt "" holdingsOfOne = .ok x ∧ x.length = 33 ∧ holdings.decode x = .ok holdingsOfOne := by
  have hn : holdings.size? = some 33 := by decide
  have hread : holdings.decode looseBytes = .ok holdingsOfOne := rfl
  obtain ⟨hiff, -, hwritten⟩ := decode_reads_spellings hn holdingsOfOne looseBytes
  have hmodest : holdings.Modest := by decide
  refine ⟨hn, by decide, ((hiff hmodest.reservable).mp hread).2, fun v h => ?_, hwritten hmodest (by decide) hread ""⟩
  have hflawed := ((decode_reads_spellings hn v flawedBytes).1 hmodest.reservable).mpr ⟨rfl, h⟩
  have hrefused : (holdings.decode flawedBytes).isOk = false := rfl
  rw [hflawed] at hrefused
  cases hrefused

/-- Behind a flag of 0 the crowd spells that nothing is there, in one byte, but no one reads it. A
    list of crowds that has no slots is read, but not written. -/
theorem crowd_not_read : (nullable crowd).size? = some 1 ∧ (nullable crowd).Spells .null [0] ∧
    (nullable crowd).decode [0] = .error .noRoom ∧
    (list 0 crowd).size? = some 1 ∧ (list 0 crowd).decode [0] = .ok (.list []) ∧
    (list 0 crowd).encodeAt "" (.list []) = .error .noRoom := by
  have hcrowd : crowd.Spells (.list (List.replicate (2 ^ 58) (.struct []))) [] := by
    refine ⟨_, rfl, List.length_replicate, ?_⟩
    have hrow : IsRow (Spells (.struct [])) (List.replicate (2 ^ 58) (.struct [])) (List.replicate (2 ^ 58) []).flatten :=
      isRow_replicate ⟨[], rfl, rfl, rfl⟩ _
    rwa [List.flatten_replicate_nil] at hrow
  exact ⟨rfl, ⟨_, [], hcrowd, .inr ⟨rfl, rfl⟩⟩, rfl, rfl, rfl, rfl⟩

end VeiledLedger.Layout
