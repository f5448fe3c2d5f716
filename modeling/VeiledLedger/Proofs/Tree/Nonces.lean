/-
  VeiledLedger.Proofs.Tree.Nonces — every slot gets its own nonce.

  A nonce is the digest of the salt and of the two numbers of its place, the group and the slot
  in it, each cut to 32 bits. The numbers of the groups are small. A number of slots may be
  beyond 32 bits, and then two slots of the group have one nonce (`share_nonce`). A backend
  accepts no such padding: a witness takes at least four bytes for each slot, and a backend
  that would have to serve 2 ^ 32 elements is refused. So the strings that are hashed for the
  slots of a tree are all different, and two slots with one nonce hand out a collision.

  Main statement: `slots_have_own_nonces`.
-/

import Mathlib.Data.List.Nodup
import VeiledLedger.Proofs.Argument.Elements
import VeiledLedger.Proofs.Tree.Commitment

namespace VeiledLedger

theorem Bytes.ofNat_inj {width m n : Nat} (hm : m < 256 ^ width) (hn : n < 256 ^ width)
    (h : ofNat width m = ofNat width n) : m = n := by
  have hnumber := congrArg toNat h
  rwa [toNat_ofNat, toNat_ofNat, Nat.mod_eq_of_lt hm, Nat.mod_eq_of_lt hn] at hnumber

namespace GroupKind

theorem index_injective : Function.Injective index := by
  intro k k' h
  have hk := k.all_getElem?_index
  rw [h, k'.all_getElem?_index] at hk
  exact (Option.some.inj hk).symm

theorem index_lt (kind : GroupKind) : kind.index < 9 := by
  cases kind <;> decide

theorem nodup_all : all.Nodup := by decide

theorem mem_all (kind : GroupKind) : kind ∈ all := List.mem_of_getElem? kind.all_getElem?_index

end GroupKind

/-! ## Places -/

abbrev Place := GroupKind × Nat

def Padding.places (p : Padding) : List Place :=
  GroupKind.all.flatMap fun kind => (List.range (p.shape kind).capacity).map (kind, ·)

def Place.nonceString (salt : Bytes) (place : Place) : Bytes :=
  VeiledLedger.nonceString salt place.1.index place.2

def Tree.nonce? (t : Tree) (place : Place) : Option Nonce := (t.group? place.1).bind (·.nonces[place.2]?)

namespace Padding

variable {p : Padding} {place : Place}

theorem mem_places : place ∈ p.places ↔ place.2 < (p.shape place.1).capacity := by
  obtain ⟨kind, i⟩ := place
  simp [places, GroupKind.mem_all]

theorem nodup_places (p : Padding) : p.places.Nodup := by
  rw [places, List.nodup_flatMap]
  refine ⟨fun kind _ => List.nodup_range.map fun i j h => congrArg Prod.snd h, ?_⟩
  refine GroupKind.nodup_all.imp fun {kind kind'} hne place hplace hplace' => hne ?_
  obtain ⟨_, -, rfl⟩ := List.mem_map.mp hplace
  obtain ⟨_, -, he⟩ := List.mem_map.mp hplace'
  exact (congrArg Prod.fst he).symm

end Padding

/-! ## What is hashed for them -/

/-- Two places are told apart by what is hashed for them, if their numbers fit 32 bits. -/
theorem Place.nonceString_inj {salt : Bytes} {place place' : Place} (hi : place.2 < 2 ^ 32) (hi' : place'.2 < 2 ^ 32)
    (h : place.nonceString salt = place'.nonceString salt) : place = place' := by
  obtain ⟨kind, i⟩ := place
  obtain ⟨kind', i'⟩ := place'
  have hkind : kind.index < 256 ^ 4 := Nat.lt_trans kind.index_lt (by decide)
  have hkind' : kind'.index < 256 ^ 4 := Nat.lt_trans kind'.index_lt (by decide)
  have hlen : (Bytes.ofNat 4 i).length = (Bytes.ofNat 4 i').length := by
    rw [Bytes.length_ofNat, Bytes.length_ofNat]
  obtain ⟨hgroup, hslot⟩ := List.append_inj' h hlen
  obtain rfl : kind = kind' := GroupKind.index_injective
    (Bytes.ofNat_inj hkind hkind' (List.append_cancel_left hgroup))
  obtain rfl : i = i' := Bytes.ofNat_inj hi hi' hslot
  rfl

section
variable [Hasher] {tx : Transaction} {r : Registry} {p : Padding} {t : Tree}

/-- Each slot has the nonce of its place, and nothing else has one. -/
theorem Tree.nonce?_of_build (h : build tx r p = .ok t) (place : Place) :
    t.nonce? place =
      if place ∈ p.places then some (digest (place.nonceString tx.salt.bytes.toBytes)) else none := by
  obtain ⟨kind, i⟩ := place
  obtain ⟨bs, -, hcap, hgroup⟩ := group?_of_build h kind
  have hcount : (Group.fill (p.shape kind) bs).length = (p.shape kind).capacity := by
    rw [Group.fill, List.length_append, List.length_map, List.length_replicate]
    omega
  simp only [nonce?, hgroup, Option.bind_some, Padding.mem_places, Group.ofLeaves, hcount, List.getElem?_map]
  split
  · rename_i hi
    rw [List.getElem?_range hi]
    rfl
  · rename_i hi
    rw [List.getElem?_eq_none (by rw [List.length_range]; omega)]
    rfl

/-- A group with more slots than 32 bits can count has one nonce twice. -/
theorem Tree.share_nonce (h : build tx r p = .ok t) {kind : GroupKind} (hcap : 2 ^ 32 < (p.shape kind).capacity) :
    ∃ nonce, t.nonce? (kind, 0) = some nonce ∧ t.nonce? (kind, 2 ^ 32) = some nonce := by
  have hfirst : ((kind, 0) : Place) ∈ p.places := Padding.mem_places.mpr (Nat.zero_lt_of_lt hcap)
  have hlast : ((kind, 2 ^ 32) : Place) ∈ p.places := Padding.mem_places.mpr hcap
  have hnumber : Bytes.ofNat 4 (2 ^ 32) = Bytes.ofNat 4 0 := by decide
  have hstring (salt : Bytes) : Place.nonceString salt (kind, 2 ^ 32) = Place.nonceString salt (kind, 0) :=
    congrArg (salt ++ Bytes.ofNat 4 kind.index ++ ·) hnumber
  rw [nonce?_of_build h, nonce?_of_build h, if_pos hfirst, if_pos hlast, hstring]
  exact ⟨_, rfl, rfl⟩

/-! ## Nonces -/

/-- Under a padding for which there is a backend, the strings that are hashed into nonces are
    pairwise different, over all slots of all nine groups; and any two slots have different
    nonces, or their two strings are different and have one digest. -/
theorem slots_have_own_nonces {seed : Digest} {b : Argument.Backend} (hb : Argument.Backend.ofPadding seed p = .ok b)
    (ht : Tree.build tx r p = .ok t) :
    let string := Place.nonceString tx.salt.bytes.toBytes
    (p.places.map string).Nodup ∧
    (∀ place, t.nonce? place = if place ∈ p.places then some (digest (string place)) else none) ∧
    ∀ place ∈ p.places, ∀ place' ∈ p.places, place ≠ place' → t.nonce? place ≠ t.nonce? place' ∨
      ∃ x y, collision? [string place] [string place'] = some (x, y) ∧ x ≠ y ∧ digest x = digest y := by
  have small {place : Place} (h : place ∈ p.places) : place.2 < 2 ^ 32 :=
    Nat.lt_trans (Padding.mem_places.mp h) (Argument.Backend.capacity_lt_of_ofPadding hb place.1)
  have hnonce := Tree.nonce?_of_build ht
  refine ⟨?_, hnonce, fun place h place' h' hne => ?_⟩
  · exact p.nodup_places.map_on fun place h place' h' => Place.nonceString_inj (small h) (small h')
  · rw [hnonce, hnonce, if_pos h, if_pos h']
    by_cases hsame : digest (place.nonceString tx.salt.bytes.toBytes) =
        digest (place'.nonceString tx.salt.bytes.toBytes)
    · rcases eq_or_collides List.mem_cons_self List.mem_cons_self hsame with he | hc
      · exact absurd (Place.nonceString_inj (small h) (small h') he) hne
      · exact .inr hc.collision?
    · exact .inl fun he => hsame (Option.some.inj he)

end

/-- The two slots for inputs, one of them filler, under the padding of a ledger that declares
    none. -/
theorem oneInput_nonces : ∃ t, Argument.Backend.ofPadding .zero .standard = .ok ⟨.zero, ⟨44, 5⟩⟩ ∧
    Tree.build View.oneInput .builtin .standard = .ok t ∧ Padding.standard.places.length = 13 ∧
    (Padding.standard.places.map (Place.nonceString View.oneInput.salt.bytes.toBytes)).Nodup ∧
    (t.nonce? (.inputs, 0) ≠ t.nonce? (.inputs, 1) ∨ ∃ x y,
      collision? [Place.nonceString View.oneInput.salt.bytes.toBytes (.inputs, 0)]
        [Place.nonceString View.oneInput.salt.bytes.toBytes (.inputs, 1)] = some (x, y) ∧
      x ≠ y ∧ digest x = digest y) := by
  obtain ⟨t, ht⟩ : ∃ t, Tree.build View.oneInput .builtin .standard = .ok t := ⟨_, rfl⟩
  obtain ⟨hnodup, -, hown⟩ := slots_have_own_nonces Argument.ofPadding_standard ht
  have hown := hown (.inputs, 0) (by decide) (.inputs, 1) (by decide) (by decide)
  exact ⟨t, Argument.ofPadding_standard, ht, by decide, hnodup, hown⟩

end VeiledLedger
