/-
  VeiledLedger.Proofs.Layout.Accepted — the byte strings that are read at all.

  Whatever a layout reads off the front of a byte string spells the value that was read, so
  the spellings of a value are exactly the byte strings that are read as it. The value read
  leaves open what was dropped on the way: the rest of a room, the unused slots of a list, and
  what stood behind a flag of 0. Nothing is read in a layout that asks for more room than there is.

  Main statements: `spells_of_read`, `reservable_of_read`, `decode_eq_ok`.
-/

import VeiledLedger.Proofs.Layout.Size
import VeiledLedger.Proofs.Layout.Spelling

namespace VeiledLedger

namespace Layout

/-! ## Lengths of spellings -/

theorem IsRoom.length {c : Nat} {x b : Bytes} (h : IsRoom c x b) : b.length = countWidth c + c := by
  obtain ⟨p, pad, hp, hlen, rfl⟩ := h
  rw [List.length_append, List.length_append, hp.width, hlen]

theorem IsRow.length {stands : Value → Bytes → Prop} {k : Nat} (hs : ∀ {v b}, stands v b → b.length = k) :
    ∀ {vs : List Value} {b : Bytes}, IsRow stands vs b → b.length = vs.length * k
  | [], _, rfl => by simp
  | v :: vs, _, ⟨x, y, hx, hy, rfl⟩ => by
    rw [List.length_append, hs hx, hy.length hs, List.length_cons, Nat.succ_mul, Nat.add_comm]

mutual

/-- All spellings in a layout have its length. -/
theorem length_of_spells : ∀ {t : Layout} {v : Value} {b : Bytes}, t.Spells v b → b.length = t.size
  | .bool, _, _, ⟨_, _, hb⟩ => by
    subst hb
    rfl
  | .unsigned w, _, _, ⟨_, _, hb⟩ => by
    subst hb
    rw [Bytes.length_ofNat, size]
  | .signed w, _, _, ⟨_, _, hb⟩ => by
    subst hb
    rw [Bytes.length_ofNat, size]
  | .exactBytes n, _, _, ⟨_, hn⟩ => hn
  | .bytes c, _, _, ⟨_, _, hx⟩ => hx.length
  | .string _ c, _, _, ⟨_, _, _, _, hx⟩ => hx.length
  | .list c e, _, _, ⟨vs, ws, p, used, unused, _, hp, hlen, hused, hunused, hb⟩ => by
    subst hb
    rw [List.length_append, List.length_append, hp.width, hused.length length_of_spells,
      hunused.length length_of_spells, ← Nat.add_mul, hlen, size]
  | .exactList n e, _, _, ⟨vs, _, hn, hrow⟩ => by
    rw [hrow.length length_of_spells, hn, size]
  | .nullable e, _, _, ⟨w, x, hx, h⟩ => by
    rcases h with ⟨-, rfl⟩ | ⟨-, rfl⟩
    all_goals rw [List.length_cons, length_of_spells hx, size, Nat.add_comm]
  | .struct fs, _, _, ⟨vs, _, hfields⟩ => by
    rw [length_of_spellsFields hfields, size]

theorem length_of_spellsFields : ∀ {fs : List (String × Layout)} {vs : List Value} {b : Bytes},
    SpellsFields fs vs b → b.length = sizeFields fs
  | [], _, _, ⟨_, hb⟩ => by
    subst hb
    rfl
  | (field, t) :: fs, _, _, ⟨w, ws, x, y, _, hx, hy, hb⟩ => by
    subst hb
    rw [List.length_append, length_of_spells hx, length_of_spellsFields hy, sizeFields]

end

/-! ## Texts -/

theorem encodeLatin1_map_ofNat : ∀ x : Bytes, encodeLatin1 (x.map fun y => Char.ofNat y.toNat) = .ok x
  | [] => rfl
  | y :: x => by
    have hy := y.toNat_lt
    have hvalid : y.toNat.isValidChar := .inl (by omega)
    have hchar : (Char.ofNat y.toNat).toNat = y.toNat := by
      rw [Char.ofNat, dif_pos hvalid]
      rfl
    rw [List.map_cons, encodeLatin1, hchar, if_pos (by omega), encodeLatin1_map_ofNat x, UInt8.ofNat_toNat]
    rfl

end Layout

/-! ## What a reader has taken -/

namespace Reader

variable {α β : Type} {b rest : Bytes}

theorem pure_inv {a a' : α} (h : (pure a : Reader α) b = .ok (a', rest)) : a = a' ∧ b = rest := by
  cases h
  exact ⟨rfl, rfl⟩

theorem bind_inv {r : Reader α} {f : α → Reader β} {c : β} (h : (r >>= f) b = .ok (c, rest)) :
    ∃ a mid, r b = .ok (a, mid) ∧ f a mid = .ok (c, rest) := by
  obtain ⟨⟨a, mid⟩, ha, hf⟩ := Except.bind_eq_ok.mp h
  exact ⟨a, mid, ha, hf⟩

theorem map_inv {r : Reader α} {f : α → β} {c : β} (h : (do return f (← r) : Reader β) b = .ok (c, rest)) :
    ∃ a, r b = .ok (a, rest) ∧ f a = c := by
  obtain ⟨a, mid, ha, hf⟩ := bind_inv h
  obtain ⟨rfl, rfl⟩ := pure_inv hf
  exact ⟨a, ha, rfl⟩

theorem under_inv {r : Reader α} {step : PathStep} {a : α} (h : under step r b = .ok (a, rest)) :
    r b = .ok (a, rest) :=
  Except.mapError_eq_ok.mp h

theorem take_inv {n : Nat} {x : Bytes} (h : take n b = .ok (x, rest)) : x.length = n ∧ b = x ++ rest := by
  simp only [take] at h
  split at h
  · rename_i hlen
    cases h
    exact ⟨hlen, (List.take_append_drop n b).symm⟩
  · cases h

theorem reserve_inv {n : Nat} {u : Unit} (h : reserve n b = .ok (u, rest)) : n * Value.width < 2 ^ 63 ∧ b = rest := by
  obtain ⟨_, hroom, he⟩ := Except.map_eq_ok.mp h
  cases he
  exact ⟨reserve_eq_ok.mp hroom, rfl⟩

theorem number_inv {width n : Nat} (h : number width b = .ok (n, rest)) :
    ∃ p, p.length = width ∧ Bytes.toNat p = n ∧ b = p ++ rest := by
  obtain ⟨p, hp, hn⟩ := map_inv h
  obtain ⟨hlen, hb⟩ := take_inv hp
  exact ⟨p, hlen, hn, hb⟩

/-- A number that was read is the writing of that number. -/
theorem width_inv {w : Width} {n : Nat} (h : number w.bytes b = .ok (n, rest)) :
    b = Bytes.ofNat w.bytes (BitVec.ofNat w.bits n).toNat ++ rest := by
  obtain ⟨p, hlen, rfl, rfl⟩ := number_inv h
  have hlt : Bytes.toNat p < 2 ^ w.bits := by
    rw [Width.bits, Nat.pow_mul, ← hlen]
    exact Bytes.toNat_lt p
  rw [BitVec.toNat_ofNat, Nat.mod_eq_of_lt hlt, ← hlen, Bytes.ofNat_toNat]

theorem flag_inv {x : Nat} (h : flag b = .ok (x, rest)) : b = UInt8.ofNat x :: rest := by
  obtain ⟨p, hlen, rfl, rfl⟩ := number_inv h
  obtain ⟨y, rfl⟩ := List.length_eq_one_iff.mp hlen
  simp [Bytes.toNat]

theorem count_inv {c n : Nat} (h : count c b = .ok (n, rest)) : ∃ p, Layout.IsCount c n p ∧ b = p ++ rest := by
  obtain ⟨m, mid, hm, hbound⟩ := bind_inv h
  obtain ⟨p, hlen, hvalue, hb⟩ := number_inv hm
  split at hbound
  · rename_i hle
    obtain ⟨rfl, rfl⟩ := pure_inv hbound
    exact ⟨p, ⟨hlen, hvalue, hle⟩, hb⟩
  · cases hbound

theorem room_inv {c : Nat} {x : Bytes} (h : room c b = .ok (x, rest)) : ∃ y, Layout.IsRoom c x y ∧ b = y ++ rest := by
  obtain ⟨n, mid, hn, hroom⟩ := bind_inv h
  obtain ⟨content, hcontent, rfl⟩ := map_inv hroom
  obtain ⟨p, hp, rfl⟩ := count_inv hn
  obtain ⟨hlen, rfl⟩ := take_inv hcontent
  have hused : (content.take n).length = n := List.length_take_of_le (hlen ▸ hp.le)
  refine ⟨p ++ content, ⟨p, content.drop n, hused.symm ▸ hp, ?_, ?_⟩, (List.append_assoc ..).symm⟩
  · rw [← List.length_append, List.take_append_drop, hlen]
  · rw [List.take_append_drop]

theorem text_inv {charset : Charset} {x : Bytes} {s : String} (h : text charset x b = .ok (s, rest)) :
    Layout.encodeText charset s = .ok x ∧ b = rest := by
  cases charset with
  | latin1 =>
    obtain ⟨rfl, rfl⟩ := pure_inv h
    refine ⟨?_, rfl⟩
    rw [Layout.encodeText, String.toList_ofList, Layout.encodeLatin1_map_ofNat]
  | utf8 =>
    unfold text at h
    cases hs : Text.Utf8.decode? x with
    | none =>
      rw [hs] at h
      cases h
    | some s' =>
      rw [hs] at h
      obtain ⟨rfl, rfl⟩ := pure_inv h
      rw [Layout.encodeText, Text.Utf8.decode?_eq_some.mp hs]
      exact ⟨rfl, rfl⟩

theorem slots_inv {r : Reader Value} {stands : Value → Bytes → Prop}
    (hr : ∀ {b v rest}, r b = .ok (v, rest) → ∃ x, stands v x ∧ b = x ++ rest) :
    ∀ {i n : Nat} {b rest : Bytes} {vs : List Value}, slots r i n b = .ok (vs, rest) →
      ∃ y, vs.length = n ∧ Layout.IsRow stands vs y ∧ b = y ++ rest
  | _, 0, _, _, _, h => by
    obtain ⟨rfl, rfl⟩ := pure_inv h
    exact ⟨[], rfl, rfl, rfl⟩
  | i, n + 1, _, _, _, h => by
    obtain ⟨v, mid, hv, hrest⟩ := bind_inv h
    obtain ⟨vs, hvs, rfl⟩ := map_inv hrest
    obtain ⟨x, hx, rfl⟩ := hr (under_inv hv)
    obtain ⟨y, hlen, hy, rfl⟩ := slots_inv hr hvs
    exact ⟨x ++ y, congrArg (· + 1) hlen, ⟨x, y, hx, hy, rfl⟩, (List.append_assoc ..).symm⟩

theorem slots_succ_inv {r : Reader Value} {i n : Nat} {vs : List Value} (h : slots r i (n + 1) b = .ok (vs, rest)) :
    ∃ v mid, r b = .ok (v, mid) := by
  obtain ⟨v, mid, hv, -⟩ := bind_inv h
  exact ⟨v, mid, under_inv hv⟩

end Reader

namespace Layout

open Reader (bind_inv map_inv pure_inv)

/-- A row can be cut behind any of its parts. -/
theorem IsRow.split {stands : Value → Bytes → Prop} : ∀ {vs ws : List Value} {b : Bytes},
    IsRow stands (vs ++ ws) b → ∃ x y, IsRow stands vs x ∧ IsRow stands ws y ∧ b = x ++ y
  | [], _, b, h => ⟨[], b, rfl, h, rfl⟩
  | _ :: _, _, _, ⟨x, _, hx, h, rfl⟩ => by
    obtain ⟨y, z, hy, hz, rfl⟩ := IsRow.split h
    exact ⟨x ++ y, z, ⟨x, y, hx, hy, rfl⟩, hz, (List.append_assoc ..).symm⟩

mutual

/-- What is taken off a byte string spells the value that is read. -/
theorem spells_of_read : ∀ {t : Layout} {b rest : Bytes} {v : Value}, t.read b = .ok (v, rest) →
    ∃ x, t.Spells v x ∧ b = x ++ rest
  | .bool, b, rest, v, h => by
    rw [read] at h
    obtain ⟨x, mid, hx, hflag⟩ := bind_inv h
    rw [Reader.flag_inv hx]
    split at hflag
    · rename_i hzero
      obtain ⟨rfl, rfl⟩ := pure_inv hflag
      exact ⟨[0], ⟨false, rfl, rfl⟩, by rw [hzero]; rfl⟩
    · split at hflag
      · rename_i hone
        obtain ⟨rfl, rfl⟩ := pure_inv hflag
        exact ⟨[1], ⟨true, rfl, rfl⟩, by rw [hone]; rfl⟩
      · cases hflag
  | .unsigned w, b, rest, v, h => by
    rw [read] at h
    obtain ⟨n, hn, rfl⟩ := map_inv h
    exact ⟨_, ⟨_, rfl, rfl⟩, Reader.width_inv hn⟩
  | .signed w, b, rest, v, h => by
    rw [read] at h
    obtain ⟨n, hn, rfl⟩ := map_inv h
    exact ⟨_, ⟨_, rfl, rfl⟩, Reader.width_inv hn⟩
  | .exactBytes n, b, rest, v, h => by
    rw [read] at h
    obtain ⟨x, hx, rfl⟩ := map_inv h
    obtain ⟨hlen, hb⟩ := Reader.take_inv hx
    exact ⟨x, ⟨rfl, hlen⟩, hb⟩
  | .bytes c, b, rest, v, h => by
    rw [read] at h
    obtain ⟨x, hx, rfl⟩ := map_inv h
    obtain ⟨y, hy, hb⟩ := Reader.room_inv hx
    exact ⟨y, ⟨x, rfl, hy⟩, hb⟩
  | .string charset c, b, rest, v, h => by
    rw [read] at h
    obtain ⟨x, mid, hx, hread⟩ := bind_inv h
    obtain ⟨s, hs, rfl⟩ := map_inv hread
    obtain ⟨y, hy, hb⟩ := Reader.room_inv hx
    obtain ⟨htext, rfl⟩ := Reader.text_inv hs
    exact ⟨y, ⟨s, x, rfl, htext, hy⟩, hb⟩
  | .list c e, b, rest, v, h => by
    rw [read] at h
    obtain ⟨n, mid, hn, hslots⟩ := bind_inv h
    obtain ⟨vs, hvs, rfl⟩ := map_inv hslots
    obtain ⟨p, hp, rfl⟩ := Reader.count_inv hn
    obtain ⟨y, hlen, hy, rfl⟩ := Reader.slots_inv (spells_of_read (t := e)) hvs
    -- all slots are read, and those behind the count are the unused ones
    rw [← List.take_append_drop n vs] at hy
    obtain ⟨used, unused, hused, hunused, rfl⟩ := hy.split
    have hcount : (vs.take n).length = n := List.length_take_of_le (hlen ▸ hp.le)
    refine ⟨p ++ (used ++ unused), ⟨vs.take n, vs.drop n, p, used, unused, rfl, hcount.symm ▸ hp, ?_, hused, hunused,
      rfl⟩, (List.append_assoc ..).symm⟩
    rw [← List.length_append, List.take_append_drop, hlen]
  | .exactList n e, b, rest, v, h => by
    rw [read] at h
    obtain ⟨_, mid, hroom, hslots⟩ := bind_inv h
    obtain ⟨-, rfl⟩ := Reader.reserve_inv hroom
    obtain ⟨vs, hvs, rfl⟩ := map_inv hslots
    obtain ⟨y, hlen, hy, hb⟩ := Reader.slots_inv (spells_of_read (t := e)) hvs
    exact ⟨y, ⟨vs, rfl, hlen, hy⟩, hb⟩
  | .nullable e, b, rest, v, h => by
    rw [read] at h
    obtain ⟨x, mid, hx, hinner⟩ := bind_inv h
    obtain ⟨w, mid', hw, hflag⟩ := bind_inv hinner
    obtain ⟨y, hy, hmid⟩ := spells_of_read hw
    rw [Reader.flag_inv hx, hmid]
    split at hflag
    · rename_i hzero
      obtain ⟨rfl, rfl⟩ := pure_inv hflag
      exact ⟨0 :: y, ⟨w, y, hy, .inr ⟨rfl, rfl⟩⟩, by rw [hzero]; rfl⟩
    · split at hflag
      · rename_i hone
        obtain ⟨rfl, rfl⟩ := pure_inv hflag
        exact ⟨1 :: y, ⟨w, y, hy, .inl ⟨rfl, rfl⟩⟩, by rw [hone]; rfl⟩
      · cases hflag
  | .struct fs, b, rest, v, h => by
    rw [read] at h
    obtain ⟨vs, hvs, rfl⟩ := map_inv h
    obtain ⟨y, hy, hb⟩ := spellsFields_of_readFields hvs
    exact ⟨y, ⟨vs, rfl, hy⟩, hb⟩

theorem spellsFields_of_readFields : ∀ {fs : List (String × Layout)} {b rest : Bytes} {vs : List Value},
    readFields fs b = .ok (vs, rest) → ∃ x, SpellsFields fs vs x ∧ b = x ++ rest
  | [], b, rest, vs, h => by
    rw [readFields] at h
    obtain ⟨rfl, rfl⟩ := pure_inv h
    exact ⟨[], ⟨rfl, rfl⟩, rfl⟩
  | (field, t) :: fs, b, rest, vs, h => by
    rw [readFields] at h
    obtain ⟨w, mid, hw, hrest⟩ := bind_inv h
    obtain ⟨ws, hws, rfl⟩ := map_inv hrest
    obtain ⟨x, hx, rfl⟩ := spells_of_read (Reader.under_inv hw)
    obtain ⟨y, hy, rfl⟩ := spellsFields_of_readFields hws
    exact ⟨x ++ y, ⟨w, ws, x, y, rfl, hx, hy, rfl⟩, (List.append_assoc ..).symm⟩

end

mutual

/-- Where something is read, each list of fixed length on the way has had room. -/
theorem reservable_of_read : ∀ {t : Layout} {b rest : Bytes} {v : Value}, t.read b = .ok (v, rest) → t.Reservable
  | .bool, _, _, _, _ => trivial
  | .unsigned _, _, _, _, _ => trivial
  | .signed _, _, _, _, _ => trivial
  | .exactBytes _, _, _, _, _ => trivial
  | .bytes _, _, _, _, _ => trivial
  | .string _ _, _, _, _, _ => trivial
  | .list c e, b, rest, v, h => by
    rw [read] at h
    obtain ⟨n, mid, -, hslots⟩ := bind_inv h
    obtain ⟨vs, hvs, -⟩ := map_inv hslots
    intro hc
    obtain ⟨k, rfl⟩ := Nat.exists_eq_succ_of_ne_zero hc
    obtain ⟨w, mid', hw⟩ := Reader.slots_succ_inv hvs
    exact reservable_of_read hw
  | .exactList n e, b, rest, v, h => by
    rw [read] at h
    obtain ⟨_, mid, hroom, hslots⟩ := bind_inv h
    obtain ⟨vs, hvs, -⟩ := map_inv hslots
    refine ⟨(Reader.reserve_inv hroom).1, fun hn => ?_⟩
    obtain ⟨k, rfl⟩ := Nat.exists_eq_succ_of_ne_zero hn
    obtain ⟨w, mid', hw⟩ := Reader.slots_succ_inv hvs
    exact reservable_of_read hw
  | .nullable e, b, rest, v, h => by
    rw [read] at h
    obtain ⟨x, mid, -, hinner⟩ := bind_inv h
    obtain ⟨w, mid', hw, -⟩ := bind_inv hinner
    exact reservable_of_read (t := e) hw
  | .struct fs, b, rest, v, h => by
    rw [read] at h
    obtain ⟨vs, hvs, -⟩ := map_inv h
    exact reservable_of_readFields hvs

theorem reservable_of_readFields : ∀ {fs : List (String × Layout)} {b rest : Bytes} {vs : List Value},
    readFields fs b = .ok (vs, rest) → ReservableFields fs
  | [], _, _, _, _ => trivial
  | (field, t) :: fs, b, rest, vs, h => by
    rw [readFields] at h
    obtain ⟨w, mid, hw, hrest⟩ := bind_inv h
    obtain ⟨ws, hws, -⟩ := map_inv hrest
    exact ⟨reservable_of_read (Reader.under_inv hw), reservable_of_readFields hws⟩

end

/-- A byte string is read as a value exactly if it has the length of the layout, which fits a
    word, there is room to read it, and it spells the value. -/
theorem decode_eq_ok {t : Layout} {b : Bytes} {v : Value} :
    t.decode b = .ok v ↔ t.size? = some b.length ∧ t.Reservable ∧ t.Spells v b := by
  refine ⟨fun h => ?_, fun ⟨hsize, ht, hv⟩ => decode_of_spells ht hsize hv⟩
  unfold decode at h
  split at h
  · cases h
  · rename_i n hn
    split at h
    · rename_i hlen
      obtain ⟨⟨w, rest⟩, hread, rfl⟩ := Except.map_eq_ok.mp h
      have hread := Except.mapError_eq_ok.mp hread
      obtain ⟨x, hx, hb⟩ := spells_of_read hread
      have hsize := length_of_spells hx
      have hrest : rest = [] := by
        have := congrArg List.length hb
        rw [List.length_append, hlen, hsize, size_eq_of_size? hn] at this
        exact List.length_eq_zero_iff.mp (by omega)
      rw [hrest, List.append_nil] at hb
      exact ⟨hlen ▸ hn, reservable_of_read hread, hb ▸ hx⟩
    · cases h

end Layout

end VeiledLedger
