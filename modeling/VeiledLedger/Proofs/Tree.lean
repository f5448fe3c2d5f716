/-
  VeiledLedger.Proofs.Tree — the shape of a tree that was built.

  A built tree has the nine groups in hashing order. Each has as many leaves as its capacity
  says, all of the declared width, a nonce for each, and the leaf hashes and the root that
  follow from those.

  Main statement: `Tree.fits_of_build`.
-/

import VeiledLedger.Proofs.Outcome
import VeiledLedger.Tree

namespace VeiledLedger

variable [Hasher]

structure Group.Fits (g : Group) (shape : Shape) : Prop where
  count : g.leaves.length = shape.capacity
  width : ∀ b ∈ g.leaves, b.length = shape.leafSize
  nonces : g.nonces.length = shape.capacity
  leafHashes : g.leafHashes = List.zipWith leafHash g.nonces g.leaves
  root : g.root = merkleRoot g.leafHashes

structure Tree.Fits (t : Tree) (p : Padding) : Prop where
  kinds : t.groups.map (·.kind) = GroupKind.all
  groups : ∀ g ∈ t.groups, g.Fits (p.shape g.kind)
  id : t.id = transactionRoot (t.groups.map (·.root))

omit [Hasher] in
/-- All other groups have narrow slots. -/
theorem Padding.leafSize_lt {p : Padding} {n : Nat} (hn : 2 ^ 32 ≤ n) (houtputs : p.outputs.leafSize < n)
    (hcommands : p.commands.leafSize < n) (kind : GroupKind) : (p.shape kind).leafSize < n := by
  cases kind with
  | outputs => exact houtputs
  | commands => exact hcommands
  | inputs | attachments | notary | timeWindow | signers | references | parameters =>
    refine Nat.lt_of_lt_of_le ?_ hn
    simp only [Padding.shape]
    decide

namespace Group

omit [Hasher] in
/-- Components are padded if each of them has room in a slot. -/
theorem padLeaves_eq_ok {kind : GroupKind} {size : Nat} : ∀ {i : Nat} {leaves out : List Bytes},
    padLeaves kind size i leaves = .ok out ↔ (∀ b ∈ leaves, b.length ≤ size) ∧ out = leaves.map (Bytes.padTo size)
  | i, [], out => by simp [padLeaves, eq_comm]
  | i, leaf :: leaves, out => by
    rw [padLeaves, List.forall_mem_cons, List.map_cons]
    split
    · rename_i hsize
      exact ⟨fun h => (by cases h), fun h => absurd h.1.1 (Nat.not_le.mpr hsize)⟩
    · rename_i hsize
      simp only [Except.bind_eq_ok, padLeaves_eq_ok]
      constructor
      · rintro ⟨_, ⟨hrest, rfl⟩, hout⟩
        cases hout
        exact ⟨⟨Nat.not_lt.mp hsize, hrest⟩, rfl⟩
      · rintro ⟨⟨-, hrest⟩, rfl⟩
        exact ⟨_, ⟨hrest, rfl⟩, rfl⟩

theorem fits_of_build {kind : GroupKind} {components : List Bytes} {shape : Shape} {salt : Bytes} {g : Group}
    (h : build kind components shape salt = .ok g) : g.kind = kind ∧ g.Fits shape := by
  unfold build at h
  split at h
  · cases h
  · rename_i hcap
    obtain ⟨leaves, hpad, hg⟩ := Except.bind_eq_ok.mp h
    cases hg
    obtain ⟨hwidth, rfl⟩ := padLeaves_eq_ok.mp hpad
    have hcount : (components.map (Bytes.padTo shape.leafSize) ++
        Bytes.copies (shape.capacity - components.length) fun _ => Bytes.zeros shape.leafSize).length =
          shape.capacity := by
      rw [Bytes.copies_eq_replicate, List.length_append, List.length_replicate, List.length_map]
      omega
    refine ⟨rfl, hcount, fun b hb => ?_, ?_, rfl, rfl⟩
    · rcases List.mem_append.mp hb with hb | hb
      · obtain ⟨component, hmem, rfl⟩ := List.mem_map.mp hb
        exact Bytes.length_padTo (hwidth component hmem)
      · rw [Bytes.copies_eq_replicate] at hb
        rw [List.eq_of_mem_replicate hb, Bytes.length_zeros]
    · simpa [ofLeaves] using hcount

end Group

namespace Tree

theorem fits_of_buildGroup {tx : Transaction} {r : Registry} {p : Padding} {kind : GroupKind} {g : Group}
    (h : buildGroup tx r p kind = .ok g) : g.kind = kind ∧ g.Fits (p.shape kind) := by
  obtain ⟨_, _, hbuild⟩ := Except.bind_eq_ok.mp h
  exact Group.fits_of_build hbuild

theorem fits_of_buildGroups {tx : Transaction} {r : Registry} {p : Padding} :
    ∀ {kinds : List GroupKind} {groups : List Group}, buildGroups tx r p kinds = .ok groups →
      groups.map (·.kind) = kinds ∧ ∀ g ∈ groups, g.Fits (p.shape g.kind)
  | [], groups, h => by
    cases h
    exact ⟨rfl, fun g hg => (by cases hg)⟩
  | kind :: kinds, groups, h => by
    obtain ⟨first, hfirst, h⟩ := Except.bind_eq_ok.mp h
    obtain ⟨rest, hrest, h⟩ := Except.bind_eq_ok.mp h
    cases h
    obtain ⟨rfl, hfits⟩ := fits_of_buildGroup hfirst
    obtain ⟨hkinds, hall⟩ := fits_of_buildGroups hrest
    refine ⟨by rw [List.map_cons, hkinds], fun g hg => ?_⟩
    rcases List.mem_cons.mp hg with rfl | hg
    · exact hfits
    · exact hall g hg

theorem fits_of_build {tx : Transaction} {r : Registry} {p : Padding} {t : Tree} (h : build tx r p = .ok t) :
    t.Fits p := by
  obtain ⟨groups, hgroups, ht⟩ := Except.bind_eq_ok.mp h
  cases ht
  obtain ⟨hkinds, hall⟩ := fits_of_buildGroups hgroups
  exact ⟨hkinds, hall, rfl⟩

theorem Fits.kind_of_group? {t : Tree} {p : Padding} (h : t.Fits p) {kind : GroupKind} {g : Group} (hg : t.group? kind = some g) :
    g.kind = kind := by
  have hkind := kind.all_getElem?_index
  rw [← h.kinds, List.getElem?_map] at hkind
  unfold group? at hg
  rw [hg] at hkind
  exact Option.some.inj hkind

end Tree

end VeiledLedger
