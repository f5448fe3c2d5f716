/-
  VeiledLedger.Proofs.Layout.Room — layouts whose parts have room.

  Room that is asked for at once is given up to 2 ^ 63 bytes. A reader asks for it at each list
  of fixed length that it comes to, and it comes to all of them unless a list around has no
  slots. A writer asks at each filler too, and makes one also for a list that has no slots. The
  length of a layout is no bound on this: elements may take no bytes.

  Main statements: `reservable_of_encode`, `Modest.reservable`, `filler_exactList_eq_ok`.
-/

import VeiledLedger.Proofs.Layout.Encode

namespace VeiledLedger.Layout

mutual

/-- There is room for each list of fixed length that a reader comes to. -/
def Reservable : Layout → Prop
  | .list c e => c ≠ 0 → Reservable e
  | .exactList n e => n * Value.width < 2 ^ 63 ∧ (n ≠ 0 → Reservable e)
  | .nullable e => Reservable e
  | .struct fs => ReservableFields fs
  | .bool => True
  | .unsigned _ => True
  | .signed _ => True
  | .exactBytes _ => True
  | .bytes _ => True
  | .string _ _ => True

def ReservableFields : List (String × Layout) → Prop
  | [] => True
  | (_, t) :: fs => Reservable t ∧ ReservableFields fs

end

mutual

/-- Who writes a value asks for all the room that a reader asks for. -/
theorem reservable_of_encode : ∀ {t : Layout} {v : Value} {b : Bytes}, encode t v = .ok b → t.Reservable
  | .bool, _, _, _ => trivial
  | .unsigned _, _, _, _ => trivial
  | .signed _, _, _, _ => trivial
  | .exactBytes _, _, _, _ => trivial
  | .bytes _, _, _, _ => trivial
  | .string _ _, _, _, _ => trivial
  | .list c e, _, _, h => by
    obtain ⟨vs, used, unused, -, hlen, hused, hunused, -⟩ := encode_list_eq_ok.mp h
    intro hc
    cases vs with
    | nil =>
      obtain ⟨w, -, ⟨hnone, -⟩ | ⟨x, -, hx, -⟩⟩ := encodeFillers_eq_ok.mp hunused
      · exact absurd hnone hc
      · exact reservable_of_encode hx
    | cons v vs =>
      obtain ⟨x, -, hx, -, -⟩ := encodeSlots_cons_eq_ok.mp hused
      exact reservable_of_encode hx
  | .exactList n e, _, _, h => by
    obtain ⟨vs, -, hlen, hroom, hslots⟩ := encode_exactList_eq_ok.mp h
    refine ⟨hroom, fun hn => ?_⟩
    cases vs with
    | nil => exact absurd hlen.symm hn
    | cons v vs =>
      obtain ⟨x, -, hx, -, -⟩ := encodeSlots_cons_eq_ok.mp hslots
      exact reservable_of_encode hx
  | .nullable e, _, _, h => by
    rcases encode_nullable_eq_ok.mp h with ⟨x, y, -, hy, -⟩ | ⟨w, y, -, -, hy, -⟩
    · exact reservable_of_encode (t := e) hy
    · exact reservable_of_encode (t := e) hy
  | .struct fs, _, _, h => by
    obtain ⟨vs, -, hlen, hfields⟩ := encode_struct_eq_ok.mp h
    exact reservable_of_encodeFields hlen hfields

theorem reservable_of_encodeFields : ∀ {fs : List (String × Layout)} {vs : List Value} {b : Bytes},
    fs.length = vs.length → encodeFields fs vs = .ok b → ReservableFields fs
  | [], _, _, _, _ => trivial
  | (_, _) :: _, [], _, hlen, _ => by cases hlen
  | (_, _) :: _, _ :: _, _, hlen, h => by
    obtain ⟨x, y, hx, hy, -⟩ := encodeFields_cons_eq_ok.mp h
    exact ⟨reservable_of_encode hx, reservable_of_encodeFields (by simpa using hlen) hy⟩

end

/-! ## Layouts whose fillers have room -/

mutual

/-- The room that fillers ask for at once, that of each part at any depth. -/
def fillerRooms : Layout → List Nat
  | .exactBytes n => [n]
  | .exactList n e => n * Value.width :: fillerRooms e
  | .list _ e => fillerRooms e
  | .nullable e => fillerRooms e
  | .struct fs => fieldFillerRooms fs
  | .bool => []
  | .unsigned _ => []
  | .signed _ => []
  | .bytes _ => []
  | .string _ _ => []

def fieldFillerRooms : List (String × Layout) → List Nat
  | [] => []
  | (_, t) :: fs => fillerRooms t ++ fieldFillerRooms fs

end

/-- There is room for the filler of the layout and of each of its parts. -/
def Modest (t : Layout) : Prop := ∀ n ∈ t.fillerRooms, n < 2 ^ 63

def ModestFields (fs : List (String × Layout)) : Prop := ∀ n ∈ fieldFillerRooms fs, n < 2 ^ 63

instance (t : Layout) : Decidable t.Modest := inferInstanceAs (Decidable (∀ n ∈ t.fillerRooms, n < 2 ^ 63))

theorem modest_exactBytes {n : Nat} : (exactBytes n).Modest ↔ n < 2 ^ 63 := List.forall_mem_singleton

theorem modest_exactList {n : Nat} {e : Layout} : (exactList n e).Modest ↔ n * Value.width < 2 ^ 63 ∧ e.Modest :=
  List.forall_mem_cons

theorem modestFields_cons {field : String} {t : Layout} {fs : List (String × Layout)} :
    ModestFields ((field, t) :: fs) ↔ t.Modest ∧ ModestFields fs :=
  List.forall_mem_append

mutual

theorem Modest.reservable : ∀ {t : Layout}, t.Modest → t.Reservable
  | .bool, _ => trivial
  | .unsigned _, _ => trivial
  | .signed _, _ => trivial
  | .exactBytes _, _ => trivial
  | .bytes _, _ => trivial
  | .string _ _, _ => trivial
  | .list _ e, h => fun _ => Modest.reservable (t := e) h
  | .exactList _ e, h =>
    have ⟨hroom, helement⟩ := modest_exactList.mp h
    ⟨hroom, fun _ => Modest.reservable (t := e) helement⟩
  | .nullable e, h => Modest.reservable (t := e) h
  | .struct fs, h => ModestFields.reservable (show ModestFields fs from h)

theorem ModestFields.reservable : ∀ {fs : List (String × Layout)}, ModestFields fs → ReservableFields fs
  | [], _ => trivial
  | (_, _) :: _, h =>
    have ⟨hfirst, hrest⟩ := modestFields_cons.mp h
    ⟨hfirst.reservable, ModestFields.reservable hrest⟩

end

theorem filler_exactBytes_eq_ok {n : Nat} {v : Value} :
    filler (.exactBytes n) = .ok v ↔ n < 2 ^ 63 ∧ v = .bytes (Bytes.zeros n) := by
  simp only [filler, Except.bind_eq_ok, reserve_eq_ok, pure, Except.pure, Except.ok.injEq]
  simp [eq_comm]

theorem filler_exactList_eq_ok {n : Nat} {e : Layout} {v : Value} : filler (.exactList n e) = .ok v ↔
    ∃ w, filler e = .ok w ∧ n * Value.width < 2 ^ 63 ∧ v = .list (List.replicate n w) := by
  simp only [filler, Except.bind_eq_ok, reserve_eq_ok, pure, Except.pure, Except.ok.injEq]
  simp [eq_comm]

theorem filler_struct_eq_ok {fs : List (String × Layout)} {v : Value} :
    filler (.struct fs) = .ok v ↔ ∃ vs, fillerFields fs = .ok vs ∧ v = .struct vs := by
  simp only [filler, Except.bind_eq_ok, pure, Except.pure, Except.ok.injEq, eq_comm (b := v)]

theorem fillerFields_cons_eq_ok {field : String} {t : Layout} {fs : List (String × Layout)} {vs : List Value} :
    fillerFields ((field, t) :: fs) = .ok vs ↔
      ∃ w ws, filler t = .ok w ∧ fillerFields fs = .ok ws ∧ vs = w :: ws := by
  simp only [fillerFields, Except.bind_eq_ok, pure, Except.pure, Except.ok.injEq, eq_comm (b := vs), exists_and_left]

/-! ## Too many elements -/

def crowd : Layout := .exactList (2 ^ 58) (.struct [])

end VeiledLedger.Layout
