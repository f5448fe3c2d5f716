/-
  VeiledLedger.Proofs.Registry.Reserved — ids kept for the builtin types, and what reads as filler.

  An id comes into a registry in three ways. One that is asked for and one that a family counts
  up to are refused up to `reservedIds`. The id of an upgrade command comes from the hash of its
  name and is refused only if it is taken, so whether the ids kept for the builtin types stay
  with them is up to the commands alone.

  A command carries nothing but its id. One with the id 0 is written as four zeros and cannot be
  told from filler; if no command has that id, a slot of a built group reads as filler exactly
  if no item is in it.

  Main statements: `accounted_afterAdditions`, `Tree.isFiller_iff_of_build`, `reserved_ids_kept`.
-/

import VeiledLedger.Proofs.Registry.Consistency
import VeiledLedger.Proofs.Tree.Commitment
import VeiledLedger.Proofs.Tree.Contents

namespace VeiledLedger

namespace Registry

/-! ## The three ways -/

/-- Each type is a builtin one, has an id that is free to be given out, or is that of a command. -/
def Accounted (r : Registry) : Prop :=
  ∀ t ∈ r.types, t ∈ builtin.types ∨ reservedIds < t.id ∨ ∃ c ∈ r.commands, t = commandType c

theorem accounted_afterAdditions [Hasher] (as : List Addition) : (afterAdditions as).Accounted := by
  intro t ht
  cases origin_afterAdditions as t ht with
  | builtin hbuiltin => exact .inl hbuiltin
  | type hid => exact .inr (.inl hid)
  | version _ _ hid => exact .inr (.inl hid)
  | command hc => exact .inr (.inr ⟨_, hc, rfl⟩)

/-! ## Ids of commands -/

/-- A value of a builtin type takes up bytes, and a command none. -/
theorem commandType_not_builtin (c : UpgradeCommand) : commandType c ∉ builtin.types := by
  intro h
  have hsize : ∀ t ∈ builtin.types, t.layout.size? ≠ some 0 := by decide
  exact hsize _ h rfl

variable {r : Registry}

theorem Accounted.reserved_iff (h : r.Accounted) (hc : ∀ c ∈ r.commands, commandType c ∈ r.types) :
    (∀ t ∈ r.types, t ∈ builtin.types ∨ reservedIds < t.id) ↔ ∀ c ∈ r.commands, reservedIds < c.id := by
  constructor
  · exact fun hall c hmem => (hall _ (hc c hmem)).resolve_left (commandType_not_builtin c)
  · intro hcommands t ht
    refine (h t ht).imp_right fun hrest => hrest.elim id ?_
    rintro ⟨c, hmem, rfl⟩
    exact hcommands c hmem

theorem Accounted.ids (h : r.Accounted) (hc : ∀ c ∈ r.commands, c.id ≠ 0) : ∀ t ∈ r.types, t.id ≠ 0 := by
  intro t ht
  rcases h t ht with ht | hlt | ⟨c, hmem, rfl⟩
  · have hbuiltin : ∀ t ∈ builtin.types, t.id ≠ 0 := by decide
    exact hbuiltin t ht
  · exact fun hzero => absurd (hzero ▸ hlt) (by decide)
  · exact hc c hmem

/-! ## What reads as filler -/

section
variable [Hasher]

/-- What is written for a command is its id. -/
theorem Consistent.serialize_command (h : r.Consistent) {c : UpgradeCommand} (hc : c ∈ r.commands) :
    r.serialize ⟨c.id, .struct []⟩ = .ok (Bytes.ofNat 4 c.id.toNat) := by
  have hfind : r.findId? c.id = some (commandType c) := lookup_eq_ok.mp (h.finds (h.commandTypes c hc)).1
  exact serialize_eq_ok.mpr ⟨_, [], hfind, rfl, (List.append_nil _).symm⟩

theorem Accounted.filler_iff (h : r.Accounted) (hr : r.Consistent) :
    (∀ v b, r.serialize v = .ok b → Group.isFiller b = false) ↔ ∀ c ∈ r.commands, c.id ≠ 0 := by
  constructor
  · intro hall c hc hzero
    have hfiller := hall _ _ (hr.serialize_command hc)
    rw [hzero] at hfiller
    cases hfiller
  · intro hc v b hb
    have hw := serialize_eq_ok.mp hb
    obtain ⟨t, hmem, ht⟩ := hw.type
    have hid : v.typeId ≠ 0 := id_of_findId? ht ▸ h.ids hc t hmem
    rw [← List.append_nil b]
    exact hw.isZero hid []

end

end Registry

section
variable [Hasher]

/-- In a built group the slots behind the items read as filler, and no other does. -/
theorem Tree.isFiller_iff_of_build {tx : Transaction} {r : Registry} {p : Padding} {t : Tree}
    (hids : ∀ t ∈ r.types, t.id ≠ 0) (h : build tx r p = .ok t) (kind : GroupKind) :
    ∃ g, t.group? kind = some g ∧ g.used = (tx.items kind).length ∧
      ∀ (i : Nat) leaf, g.leaves[i]? = some leaf → (Group.isFiller leaf = true ↔ g.used ≤ i) := by
  obtain ⟨bs, hbs, -, hg⟩ := group?_of_build h kind
  refine ⟨_, hg, hbs.length_eq.symm, fun i leaf hleaf => ?_⟩
  change (Group.fill (p.shape kind) bs)[i]? = some leaf at hleaf
  show _ ↔ bs.length ≤ i
  rcases Nat.lt_or_ge i bs.length with hi | hi
  · obtain ⟨v, -, hw⟩ := exists_getElem? hbs.flip (List.getElem?_eq_getElem hi)
    cases (Group.getElem?_fill (List.getElem?_eq_getElem hi)).symm.trans hleaf
    rw [Registry.not_filler_of_writes hids hw]
    exact iff_of_false Bool.false_ne_true (Nat.not_le.mpr hi)
  · rw [Group.fill, List.getElem?_append_right (by rwa [List.length_map]), List.getElem?_replicate] at hleaf
    split at hleaf
    · cases hleaf
      exact iff_of_true (View.isFiller_zeros _) hi
    · cases hleaf

namespace Registry

/-- After any additions an id is one of the five builtin types', or above the ids kept for those,
    or a command's. The kept ids stay with the builtin types exactly if every command's id is
    above them. No written value reads as filler exactly if no command has the id 0, and then a
    slot of a built group reads as filler exactly if no item is in it. -/
theorem reserved_ids_kept (as : List Addition) :
    let r := afterAdditions as
    (∀ t ∈ r.types, t ∈ builtin.types ∨ reservedIds < t.id ∨ ∃ c ∈ r.commands, t = commandType c) ∧
    ((∀ t ∈ r.types, t ∈ builtin.types ∨ reservedIds < t.id) ↔ ∀ c ∈ r.commands, reservedIds < c.id) ∧
    ((∀ v b, r.serialize v = .ok b → Group.isFiller b = false) ↔ ∀ c ∈ r.commands, c.id ≠ 0) ∧
    ((∀ c ∈ r.commands, c.id ≠ 0) → ∀ tx p t, Tree.build tx r p = .ok t → ∀ kind,
      ∃ g, t.group? kind = some g ∧ g.used = (tx.items kind).length ∧
        ∀ (i : Nat) leaf, g.leaves[i]? = some leaf → (Group.isFiller leaf = true ↔ g.used ≤ i)) := by
  intro r
  have h : r.Accounted := accounted_afterAdditions as
  have hr : r.Consistent := consistent_afterAdditions as
  exact ⟨h, h.reserved_iff hr.commandTypes, h.filler_iff hr,
    fun hc tx p t ht kind => Tree.isFiller_iff_of_build (h.ids hc) ht kind⟩

end Registry

end

namespace Registry

def commanding (id : TypeId) : Transaction := { View.oneInput with inputs := [], commands := [⟨id, .struct []⟩] }

theorem exists_commanding [Hasher] {r : Registry} {c : UpgradeCommand} (h : r.Consistent) (hc : c ∈ r.commands) :
    ∃ t, Tree.build (commanding c.id) r .standard = .ok t := by
  refine Tree.build_isOk.mpr fun kind => Tree.buildGroup_isOk.mpr ?_
  cases kind with
  | commands =>
    have hlen : (Bytes.ofNat 4 c.id.toNat).length ≤ 32 := by
      rw [Bytes.length_ofNat]
      decide
    refine ⟨Nat.le_succ 1, fun v hv => ?_⟩
    cases List.mem_singleton.mp hv
    exact ⟨_, h.serialize_command hc, hlen⟩
  | inputs | outputs | attachments | notary | timeWindow | signers | references | parameters =>
    exact ⟨Nat.zero_le _, fun v hv => (by cases hv)⟩

/-- With the coins the kept ids stay with the builtin types, and the command that upgrades one
    publicly is told from the filler behind it. -/
theorem coins_keep_reserved :
    let r := afterAdditions [.family coins 100]
    (∀ t ∈ r.types, t ∈ builtin.types ∨ reservedIds < t.id) ∧
    (∀ v b, r.serialize v = .ok b → Group.isFiller b = false) ∧
    ∃ c ∈ r.commands, ∃ t g, Tree.build (commanding c.id) r .standard = .ok t ∧ t.group? .commands = some g ∧
      g.used = 1 ∧ ∀ (i : Nat) leaf, g.leaves[i]? = some leaf → (Group.isFiller leaf = true ↔ 1 ≤ i) := by
  intro r
  obtain ⟨-, hreserved, hfiller, hslots⟩ := reserved_ids_kept [.family coins 100]
  have hids : ∀ c ∈ r.commands, reservedIds < c.id := by decide +kernel
  have hzero : ∀ c ∈ r.commands, c.id ≠ 0 := fun c hc h => absurd (h ▸ hids c hc) (by decide)
  have hmem : UpgradeCommand.make "app::Coin" "app::CoinV2" .publicOnly ∈ r.commands := by decide +kernel
  obtain ⟨t, ht⟩ := exists_commanding (consistent_afterAdditions _) hmem
  obtain ⟨g, hg, hused, hiff⟩ := hslots hzero _ _ t ht .commands
  have hone : g.used = 1 := hused
  exact ⟨hreserved.mpr hids, hfiller.mpr hzero, _, hmem, t, g, ht, hg, hone, hone ▸ hiff⟩

/-- Two versions of a note. The name of the command that makes a private one out of a public one
    has a hash that starts with four zeros. -/
def bills : VersionFamily :=
  ⟨"note", [⟨"app::Note2yh9hhn", .struct [], none⟩, ⟨"app::Bill", .struct [], some ("app::Note2yh9hhn", .ok)⟩]⟩

/-- So the family is accepted and a type that is not builtin has the id 0; the command is written
    as zeros, and the slot it stands in reads as filler. -/
theorem bill_reads_as_filler : (Addition.family bills 100).Accepted [] ∧
    let r := afterAdditions [.family bills 100]
    (∃ t ∈ r.types, t ∉ builtin.types ∧ t.id = 0) ∧ r.serialize ⟨0, .struct []⟩ = .ok [0, 0, 0, 0] ∧
    ∃ t g leaf, Tree.build (commanding 0) r .standard = .ok t ∧ t.group? .commands = some g ∧ g.used = 1 ∧
      g.leaves[0]? = some leaf ∧ Group.isFiller leaf = true := by
  refine ⟨by decide +kernel, ?_⟩
  intro r
  have h : r.Consistent := consistent_afterAdditions _
  obtain ⟨c, hc, hid⟩ : ∃ c ∈ r.commands, c.id = 0 := by decide +kernel
  have hwritten := h.serialize_command hc
  obtain ⟨t, ht⟩ := exists_commanding h hc
  rw [hid] at hwritten ht
  obtain ⟨bs, hbs, -, hg⟩ := Tree.group?_of_build ht .commands
  -- the one item of the group is the command
  obtain ⟨b, hb, hw⟩ := exists_getElem? hbs (i := 0) (a := ⟨0, .struct []⟩) rfl
  cases hwritten.symm.trans (serialize_eq_ok.mpr hw)
  exact ⟨⟨commandType c, h.commandTypes c hc, commandType_not_builtin c, hid⟩, hwritten, t, _, _, ht, hg,
    hbs.length_eq.symm, Group.getElem?_fill hb, rfl⟩

end Registry

end VeiledLedger
