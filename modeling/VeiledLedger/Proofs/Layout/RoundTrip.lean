/-
  VeiledLedger.Proofs.Layout.RoundTrip — what is written for a value is read as that value.

  What is written spells the value, as long as every count fits its prefix, and it does if the
  capacity does. Since every spelling is read back, so is what was written.

  Main statements: `spells_of_encode`, `decode_of_encodeAt`.
-/

import VeiledLedger.Proofs.Layout.Counts

namespace VeiledLedger.Layout

mutual

def capacities : Layout → List Nat
  | .bytes c => [c]
  | .string _ c => [c]
  | .list c e => c :: capacities e
  | .exactList _ e => capacities e
  | .nullable e => capacities e
  | .struct fs => fieldCapacities fs
  | .bool => []
  | .unsigned _ => []
  | .signed _ => []
  | .exactBytes _ => []

def fieldCapacities : List (String × Layout) → List Nat
  | [] => []
  | (_, t) :: fs => capacities t ++ fieldCapacities fs

end

theorem capacity_mem_of_row {counts : Value → List Count} {size : Nat} {cs : List Nat}
    (h : ∀ v, ∀ p ∈ counts v, p.capacity ∈ cs) {vs : List Value} : ∀ p ∈ countsOfRow counts size vs, p.capacity ∈ cs :=
  (forall_mem_countsOfRow fun _ _ => Iff.rfl).mpr fun v _ => h v

mutual

/-- A count in the bytes of a value stands in front of one of the declared rooms. -/
theorem capacity_mem : ∀ {t : Layout} {v : Value}, ∀ p ∈ counts t v, p.capacity ∈ t.capacities
  | .bool, _, _, hp => by cases hp
  | .unsigned _, _, _, hp => by cases hp
  | .signed _, _, _, hp => by cases hp
  | .exactBytes _, _, _, hp => by cases hp
  | .bytes c, v, p, hp => by
    cases v with
    | bytes x => exact List.mem_singleton.mpr (List.mem_singleton.mp hp ▸ rfl)
    | _ => cases hp
  | .string charset c, v, p, hp => by
    cases v with
    | string s => exact List.mem_singleton.mpr (List.mem_singleton.mp hp ▸ rfl)
    | _ => cases hp
  | .list c e, v, p, hp => by
    cases v with
    | list vs =>
      rcases List.mem_cons.mp hp with rfl | hp
      · exact .head _
      · obtain ⟨q, hq, rfl⟩ := List.mem_map.mp hp
        exact .tail _ (capacity_mem_of_row (fun _ => capacity_mem (t := e)) q hq)
    | _ => cases hp
  | .exactList n e, v, p, hp => by
    cases v with
    | list vs => exact capacity_mem_of_row (fun _ => capacity_mem (t := e)) p hp
    | _ => cases hp
  | .nullable e, v, p, hp => by
    cases v with
    | nullable o =>
      cases o with
      | none =>
        obtain ⟨q, hq, rfl⟩ := List.mem_map.mp hp
        obtain ⟨w, -, hq⟩ := List.mem_flatMap.mp hq
        exact capacity_mem (t := e) q hq
      | some w =>
        obtain ⟨q, hq, rfl⟩ := List.mem_map.mp hp
        exact capacity_mem (t := e) q hq
    | _ => cases hp
  | .struct fs, v, p, hp => by
    cases v with
    | struct vs => exact capacity_mem_of_fields p hp
    | _ => cases hp

theorem capacity_mem_of_fields : ∀ {fs : List (String × Layout)} {vs : List Value},
    ∀ p ∈ countsOfFields fs vs, p.capacity ∈ fieldCapacities fs
  | [], vs, _, hp => by cases vs <;> cases hp
  | _ :: _, [], _, hp => by cases hp
  | (_, t) :: fs, v :: vs, p, hp => by
    rcases List.mem_append.mp hp with hp | hp
    · exact List.mem_append_left _ (capacity_mem p hp)
    · obtain ⟨q, hq, rfl⟩ := List.mem_map.mp hp
      exact List.mem_append_right _ (capacity_mem_of_fields q hq)

end

/-- Where each capacity fits its prefix, no count is cut. -/
theorem spells_of_encode {t : Layout} (hcap : ∀ c ∈ t.capacities, c < 2 ^ 32) {v : Value} {b : Bytes}
    (h : encode t v = .ok b) : t.Spells v b :=
  spells_of_counts h fun p hp => Nat.lt_of_le_of_lt (standsIn_of_encode h p hp).le (hcap _ (capacity_mem p hp))

/-- Two values are never written alike. -/
theorem encode_inj {t : Layout} (hcap : ∀ c ∈ t.capacities, c < 2 ^ 32) {v w : Value} {b : Bytes}
    (hv : encode t v = .ok b) (hw : encode t w = .ok b) : v = w :=
  (spells_of_encode hcap hv).unique (reservable_of_encode hv) (spells_of_encode hcap hw)

/-- What is written for a value is read as that value, for every layout whose length fits a
    word and whose counts fit their prefixes. -/
theorem decode_of_encodeAt {t : Layout} (hsize : t.size?.isSome) (hcap : ∀ c ∈ t.capacities, c < 2 ^ 32)
    {path : String} {v : Value} {b : Bytes} (h : t.encodeAt path v = .ok b) : t.decode b = .ok v := by
  obtain ⟨-, hb⟩ := encodeAt_eq_ok.mp h
  obtain ⟨n, hn⟩ := Option.isSome_iff_exists.mp hsize
  have hlen : b.length = n := (length_encode hb).trans (size_eq_of_size? hn)
  exact decode_of_spells (reservable_of_encode hb) (hlen ▸ hn) (spells_of_encode hcap hb)

/-! ## A layout with all kinds of filler -/

def holdings : Layout :=
  .struct [("owners", .list 3 (.nullable (.struct [("name", .string .latin1 4), ("share", .signed .two)]))),
    ("title", .string .utf8 3), ("marks", .exactList 2 (.bytes 1))]

def holdingsOfOne : Value :=
  .struct [.list [.nullable (some (.struct [.string "Zoé", .signed .two (-2)])), .nullable none],
    .string "é", .list [.bytes [7], .bytes []]]

def holdingsBytes : Bytes :=
  [2, 1, 3, 90, 111, 233, 0, 255, 254, 0, 0, 0, 0, 0, 0, 0, 0, 0, 0, 0, 0, 0, 0, 0, 0, 2, 195, 169, 0, 1, 7, 0, 0]

theorem holdings_roundTrip : holdings.encodeAt "" holdingsOfOne = .ok holdingsBytes ∧
    holdings.decode holdingsBytes = .ok holdingsOfOne := by
  have hencode : holdings.encodeAt "" holdingsOfOne = .ok holdingsBytes := rfl
  exact ⟨hencode, decode_of_encodeAt rfl (by decide) hencode⟩

end VeiledLedger.Layout
