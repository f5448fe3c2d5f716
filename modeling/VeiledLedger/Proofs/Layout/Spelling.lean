/-
  VeiledLedger.Proofs.Layout.Spelling — the byte strings that stand for a value.

  A layout says which byte strings spell a value. There can be several: what follows the
  content in a room is free, an unused slot and what stands behind a flag of 0 may hold
  any value of their layout. Every spelling of a value is read as that value, if there is room
  to read the layout at all.

  Main statements: `reads_of_spells`, `Spells.unique`, `decode_of_spells`.
-/

import VeiledLedger.Proofs.Layout.Reader
import VeiledLedger.Proofs.Layout.Room

namespace VeiledLedger.Layout

mutual

def Spells : Layout → Value → Bytes → Prop
  | .bool, v, b => ∃ x, v = .bool x ∧ b = [if x then 1 else 0]
  | .unsigned w, v, b => ∃ n, v = .unsigned w n ∧ b = Bytes.ofNat w.bytes n.toNat
  | .signed w, v, b => ∃ n, v = .signed w n ∧ b = Bytes.ofNat w.bytes n.toNat
  | .exactBytes n, v, b => v = .bytes b ∧ b.length = n
  | .bytes c, v, b => ∃ x, v = .bytes x ∧ IsRoom c x b
  | .string charset c, v, b => ∃ s x, v = .string s ∧ encodeText charset s = .ok x ∧ IsRoom c x b
  | .list c e, v, b => ∃ vs ws p used unused, v = .list vs ∧ IsCount c vs.length p ∧ vs.length + ws.length = c ∧
      IsRow (Spells e) vs used ∧ IsRow (Spells e) ws unused ∧ b = p ++ (used ++ unused)
  | .exactList n e, v, b => ∃ vs, v = .list vs ∧ vs.length = n ∧ IsRow (Spells e) vs b
  | .nullable e, v, b => ∃ w x, Spells e w x ∧
      ((v = .nullable (some w) ∧ b = 1 :: x) ∨ (v = .nullable none ∧ b = 0 :: x))
  | .struct fs, v, b => ∃ vs, v = .struct vs ∧ SpellsFields fs vs b

def SpellsFields : List (String × Layout) → List Value → Bytes → Prop
  | [], vs, b => vs = [] ∧ b = []
  | (_, t) :: fs, vs, b => ∃ w ws x y, vs = w :: ws ∧ Spells t w x ∧ SpellsFields fs ws y ∧ b = x ++ y

end

open Reader (Reads)

theorem toNat_ofNat_bits {w : Width} (n : BitVec w.bits) : Bytes.toNat (Bytes.ofNat w.bytes n.toNat) = n.toNat := by
  have hbits : 256 ^ w.bytes = 2 ^ w.bits := by rw [Width.bits, Nat.pow_mul]
  rw [Bytes.toNat_ofNat, hbits]
  exact Nat.mod_eq_of_lt n.isLt

theorem reads_number (w : Width) (n : BitVec w.bits) :
    Reads (Reader.number w.bytes) (Bytes.ofNat w.bytes n.toNat) n.toNat := by
  have := Reads.number (Bytes.ofNat w.bytes n.toNat)
  rwa [Bytes.length_ofNat, toNat_ofNat_bits] at this

mutual

theorem reads_of_spells : ∀ {t : Layout}, t.Reservable → ∀ {v : Value} {b : Bytes}, t.Spells v b → Reads t.read b v
  | .bool, _, _, _, ⟨x, hv, hb⟩ => by
    subst hv hb
    rw [← List.append_nil [_], read]
    refine (Reads.flag _).bind ?_
    cases x with
    | false => exact .pure _
    | true => exact .pure _
  | .unsigned w, _, _, _, ⟨n, hv, hb⟩ => by
    subst hv hb
    have := (reads_number w n).map fun k => Value.unsigned w (BitVec.ofNat _ k)
    rwa [BitVec.ofNat_toNat, BitVec.setWidth_eq] at this
  | .signed w, _, _, _, ⟨n, hv, hb⟩ => by
    subst hv hb
    have := (reads_number w n).map fun k => Value.signed w (BitVec.ofNat _ k)
    rwa [BitVec.ofNat_toNat, BitVec.setWidth_eq] at this
  | .exactBytes n, _, _, b, ⟨hv, hn⟩ => by
    subst hv hn
    exact (Reads.take b).map Value.bytes
  | .bytes c, _, _, _, ⟨x, hv, hx⟩ => by
    subst hv
    exact (Reads.room hx).map Value.bytes
  | .string charset c, _, _, b, ⟨s, x, hv, hs, hx⟩ => by
    subst hv
    rw [← List.append_nil b]
    exact (Reads.room hx).bind ((Reads.text hs).map Value.string)
  | .list c e, ht, _, _, ⟨vs, ws, p, used, unused, hv, hp, hlen, hused, hunused, hb⟩ => by
    subst hv hb
    have hslot (v : Value) (hmem : v ∈ vs ++ ws) (x : Bytes) (hx : e.Spells v x) : Reads e.read x v := by
      have hpos := List.length_pos_of_mem hmem
      rw [List.length_append, hlen] at hpos
      exact reads_of_spells (ht (Nat.ne_of_gt hpos)) hx
    have hrow := Reads.slots (i := 0) id ((hused.append hunused).imp hslot)
    rw [List.length_append, hlen] at hrow
    have hread := hrow.map fun l => Value.list (l.take vs.length)
    rw [List.take_left] at hread
    exact (Reads.count hp).bind hread
  | .exactList n e, ht, _, _, ⟨vs, hv, hn, hrow⟩ => by
    subst hv hn
    have hslot (v : Value) (hmem : v ∈ vs) (x : Bytes) (hx : e.Spells v x) : Reads e.read x v :=
      reads_of_spells (ht.2 (Nat.ne_of_gt (List.length_pos_of_mem hmem))) hx
    exact (Reads.reserve ht.1).bind ((Reads.slots id (hrow.imp hslot)).map Value.list)
  | .nullable e, ht, _, _, ⟨w, x, hx, h⟩ => by
    have hread := reads_of_spells (t := e) ht hx
    rcases h with ⟨rfl, rfl⟩ | ⟨rfl, rfl⟩
    · rw [← List.append_nil x]
      exact (Reads.flag 1).bind (hread.bind (.pure _))
    · rw [← List.append_nil x]
      exact (Reads.flag 0).bind (hread.bind (.pure _))
  | .struct fs, ht, _, _, ⟨vs, hv, hfields⟩ => by
    subst hv
    exact (reads_of_spellsFields ht hfields).map Value.struct

theorem reads_of_spellsFields : ∀ {fs : List (String × Layout)}, ReservableFields fs →
    ∀ {vs : List Value} {b : Bytes}, SpellsFields fs vs b → Reads (readFields fs) b vs
  | [], _, _, _, ⟨hvs, hb⟩ => by
    subst hvs hb
    exact .pure []
  | (field, t) :: fs, ⟨ht, hfs⟩, _, _, ⟨w, ws, x, y, hvs, hx, hy, hb⟩ => by
    subst hvs hb
    have hfirst := (reads_of_spells ht hx).under (.field field)
    have hrest := (reads_of_spellsFields hfs hy).map (w :: ·)
    exact hfirst.bind hrest

end

/-- A byte string spells one value at most. -/
theorem Spells.unique {t : Layout} (ht : t.Reservable) {v w : Value} {b : Bytes} (hv : t.Spells v b)
    (hw : t.Spells w b) : v = w := by
  have hread := (reads_of_spells ht hv []).symm.trans (reads_of_spells ht hw [])
  simpa using hread

theorem decode_of_spells {t : Layout} {v : Value} {b : Bytes} (ht : t.Reservable) (hsize : t.size? = some b.length)
    (h : t.Spells v b) : t.decode b = .ok v := by
  have hread := reads_of_spells ht h []
  rw [List.append_nil] at hread
  simp only [decode, hsize, if_true, hread]
  rfl

end VeiledLedger.Layout
