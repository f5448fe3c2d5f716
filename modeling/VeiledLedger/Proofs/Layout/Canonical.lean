/-
  VeiledLedger.Proofs.Layout.Canonical — layouts in which every value is spelled in one way.

  A layout without rooms, counted lists and values behind a flag leaves nothing open: each
  byte string that is read is the one that is written for what was read. For these layouts
  reading and writing are inverse to each other.

  Main statement: `Rigid.decode_eq_ok`.
-/

import VeiledLedger.Proofs.Layout.Accepted
import VeiledLedger.Proofs.Layout.RoundTrip

namespace VeiledLedger.Layout

mutual

/-- Nothing in the layout is filled up. -/
def Rigid : Layout → Prop
  | .bool => True
  | .unsigned _ => True
  | .signed _ => True
  | .exactBytes _ => True
  | .exactList _ e => Rigid e
  | .struct fs => RigidFields fs
  | .bytes _ => False
  | .string _ _ => False
  | .list _ _ => False
  | .nullable _ => False

def RigidFields : List (String × Layout) → Prop
  | [] => True
  | (_, t) :: fs => Rigid t ∧ RigidFields fs

end

theorem rigidFields_iff : ∀ {fs : List (String × Layout)}, RigidFields fs ↔ ∀ f ∈ fs, f.2.Rigid
  | [] => by simp [RigidFields]
  | (_, t) :: fs => by simp [RigidFields, rigidFields_iff]

mutual

theorem Rigid.capacities_eq_nil : ∀ {t : Layout}, t.Rigid → t.capacities = []
  | .bool, _ => rfl
  | .unsigned _, _ => rfl
  | .signed _, _ => rfl
  | .exactBytes _, _ => rfl
  | .exactList _ e, h => Rigid.capacities_eq_nil (t := e) h
  | .struct fs, h => @RigidFields.capacities_eq_nil fs h

theorem RigidFields.capacities_eq_nil : ∀ {fs : List (String × Layout)}, RigidFields fs → fieldCapacities fs = []
  | [], _ => rfl
  | (_, t) :: fs, ⟨ht, hfs⟩ => by
    rw [fieldCapacities, ht.capacities_eq_nil, RigidFields.capacities_eq_nil hfs, List.append_nil]

end

theorem encodeSlots_of_isRow {write : Value → Except Obstacle Bytes} :
    ∀ {i : Nat} {vs : List Value} {b : Bytes}, IsRow (write · = .ok ·) vs b → encodeSlots write i vs = .ok b
  | _, [], _, rfl => rfl
  | _, _ :: _, _, ⟨x, y, hx, hy, hb⟩ => encodeSlots_cons_eq_ok.mpr ⟨x, y, hx, encodeSlots_of_isRow hy, hb⟩

theorem length_eq_of_spellsFields : ∀ {fs : List (String × Layout)} {vs : List Value} {b : Bytes},
    SpellsFields fs vs b → fs.length = vs.length
  | [], _, _, ⟨hvs, _⟩ => by
    subst hvs
    rfl
  | (_, _) :: _, _, _, ⟨_, _, _, _, hvs, _, hrest, _⟩ => by
    subst hvs
    rw [List.length_cons, List.length_cons, length_eq_of_spellsFields hrest]

mutual

/-- The only spelling of a value is the one that is written. -/
theorem Rigid.encode_of_spells : ∀ {t : Layout}, t.Rigid → t.Reservable → ∀ {v : Value} {b : Bytes}, t.Spells v b →
    encode t v = .ok b
  | .bool, _, _, _, _, h => encode_bool_eq_ok.mpr h
  | .unsigned _, _, _, _, _, h => encode_unsigned_eq_ok.mpr h
  | .signed _, _, _, _, _, h => encode_signed_eq_ok.mpr h
  | .exactBytes _, _, _, _, _, h => encode_exactBytes_eq_ok.mpr h
  | .exactList n e, ht, hroom, _, _, ⟨vs, hv, hlen, hrow⟩ => by
    have hslot (v : Value) (hmem : v ∈ vs) (b : Bytes) (hs : e.Spells v b) : encode e v = .ok b := by
      have hn : n ≠ 0 := hlen ▸ Nat.ne_of_gt (List.length_pos_of_mem hmem)
      exact Rigid.encode_of_spells (t := e) ht (hroom.2 hn) hs
    exact encode_exactList_eq_ok.mpr ⟨vs, hv, hlen, hroom.1, encodeSlots_of_isRow (hrow.imp hslot)⟩
  | .struct fs, ht, hroom, _, _, ⟨vs, hv, hfields⟩ => by
    have hrigid : RigidFields fs := ht
    exact encode_struct_eq_ok.mpr ⟨vs, hv, length_eq_of_spellsFields hfields, hrigid.encode_of_spells hroom hfields⟩

theorem RigidFields.encode_of_spells : ∀ {fs : List (String × Layout)}, RigidFields fs → ReservableFields fs →
    ∀ {vs : List Value} {b : Bytes}, SpellsFields fs vs b → encodeFields fs vs = .ok b
  | [], _, _, _, _, ⟨hvs, hb⟩ => by
    subst hvs hb
    exact encodeFields_nil
  | (_, _) :: _, ⟨ht, hfs⟩, ⟨hroom, hrooms⟩, _, _, ⟨w, ws, x, y, hvs, hx, hy, hb⟩ => by
    subst hvs
    exact encodeFields_cons_eq_ok.mpr
      ⟨x, y, ht.encode_of_spells hroom hx, RigidFields.encode_of_spells hfs hrooms hy, hb⟩

end

theorem Rigid.encode_eq_ok {t : Layout} (ht : t.Rigid) {v : Value} {b : Bytes} :
    encode t v = .ok b ↔ t.Reservable ∧ t.Spells v b := by
  refine ⟨fun h => ⟨reservable_of_encode h, spells_of_encode (fun c hc => ?_) h⟩, fun h => ht.encode_of_spells h.1 h.2⟩
  rw [ht.capacities_eq_nil] at hc
  cases hc

/-- Where nothing is filled up, exactly what is written for a value is read as it, as long as
    the length of the layout fits a word. -/
theorem Rigid.decode_eq_ok {t : Layout} (ht : t.Rigid) {v : Value} {b : Bytes} :
    t.decode b = .ok v ↔ t.size?.isSome ∧ encode t v = .ok b := by
  rw [Layout.decode_eq_ok, ← ht.encode_eq_ok]
  constructor
  · rintro ⟨hsize, hb⟩
    exact ⟨Option.isSome_iff_exists.mpr ⟨_, hsize⟩, hb⟩
  · rintro ⟨hsize, hb⟩
    obtain ⟨n, hn⟩ := Option.isSome_iff_exists.mp hsize
    rw [length_encode hb, size_eq_of_size? hn]
    exact ⟨hn, hb⟩

end VeiledLedger.Layout
