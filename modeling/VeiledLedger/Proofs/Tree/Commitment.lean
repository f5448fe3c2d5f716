/-
  VeiledLedger.Proofs.Tree.Commitment — a transaction id commits to the whole transaction.

  Two trees of one padding with one id have the same leaf and the same nonce in every slot.
  Filler is told from content, since content starts with the id of a type and no type has the
  id 0; and the content of a leaf is one value, since its id fixes its layout and the layout
  its length. So the two have the same items in every group. The salt is what the nonces were
  derived from. Otherwise two different strings with one digest have been hashed on the way.

  Main statement: `id_commits`.
-/

import VeiledLedger.Proofs.View.Binding
import VeiledLedger.Proofs.View.Pointers

namespace VeiledLedger

section
variable [Hasher]

/-! ## What is hashed for a tree -/

def nonceString (salt : Bytes) (group leaf : Nat) : Bytes := salt ++ Bytes.ofNat 4 group ++ Bytes.ofNat 4 leaf

def Group.nonceStrings (g : Group) (salt : Bytes) : List Bytes :=
  (List.range g.leaves.length).map (nonceString salt g.kind.index)

/-- What is hashed when the tree of a transaction is built: the nonces, and then whatever is
    hashed for a view that shows all of it. -/
def Transaction.hashed (tx : Transaction) (t : Tree) : List Bytes :=
  t.groups.flatMap (·.nonceStrings tx.salt.bytes.toBytes) ++ (View.ofTree t .revealAll).hashed

variable {t t' : Tree} {tx tx' : Transaction} {r : Registry} {p : Padding}

/-! ## The same leaves and nonces -/

namespace View

theorem leaf?_of_slot (h : t.Fits p) {kind : GroupKind} {g : Group} (hg : t.group? kind = some g) {i : Nat} {b : Bytes}
    {n : Nonce} (hb : g.leaves[i]? = some b) (hn : g.nonces[i]? = some n) :
    (ofTree t .revealAll).leaf? kind i = some (.visible b n) := by
  have hfits := h.groups g (List.mem_of_getElem? hg)
  unfold leaf?
  rw [group?_ofTree h.kinds, hg]
  show (maskLeaves .revealAll g.kind 0 g.leaves g.nonces g.leafHashes)[i]? = _
  rw [hfits.leafHashes, maskLeaves_of_shows (shows_revealAll g.kind)]
  exact List.getElem?_zipWith_eq_some.mpr ⟨b, n, hb, hn, rfl⟩

/-- Where the views agree that show all of two trees, so do the trees. -/
theorem Agrees.slots (h : t.Fits p) (h' : t'.Fits p) (hagree : (ofTree t .revealAll).Agrees (ofTree t' .revealAll))
    {kind : GroupKind} {g g' : Group} (hg : t.group? kind = some g) (hg' : t'.group? kind = some g') :
    g.leaves = g'.leaves ∧ g.nonces = g'.nonces := by
  have hfits := h.groups g (List.mem_of_getElem? hg)
  have hfits' := h'.groups g' (List.mem_of_getElem? hg')
  rw [h.kind_of_group? hg] at hfits
  rw [h'.kind_of_group? hg'] at hfits'
  have same (i : Nat) : g.leaves[i]? = g'.leaves[i]? ∧ g.nonces[i]? = g'.nonces[i]? := by
    by_cases hi : i < (p.shape kind).capacity
    · have hb := List.getElem?_eq_getElem (hfits.count ▸ hi)
      have hn := List.getElem?_eq_getElem (hfits.nonces ▸ hi)
      obtain ⟨_, hg₁, hb', hn'⟩ := hagree.shows h'.kinds kind i _ _ (leaf?_of_slot h hg hb hn)
      cases hg'.symm.trans hg₁
      exact ⟨hb.trans hb'.symm, hn.trans hn'.symm⟩
    · have hge : (p.shape kind).capacity ≤ i := Nat.le_of_not_lt hi
      have hb := List.getElem?_eq_none (hfits.count ▸ hge)
      have hn := List.getElem?_eq_none (hfits.nonces ▸ hge)
      have hb' := List.getElem?_eq_none (hfits'.count ▸ hge)
      have hn' := List.getElem?_eq_none (hfits'.nonces ▸ hge)
      exact ⟨hb.trans hb'.symm, hn.trans hn'.symm⟩
  exact ⟨List.ext_getElem? fun i => (same i).1, List.ext_getElem? fun i => (same i).2⟩

end View

/-! ## The same items -/

omit [Hasher] in
theorem Group.filter_fill {shape : Shape} {bs : List Bytes}
    (h : ∀ b ∈ bs, isFiller (Bytes.padTo shape.leafSize b) = false) :
    (fill shape bs).filter (fun b => !isFiller b) = bs.map (Bytes.padTo shape.leafSize) := by
  have hcontent : (bs.map (Bytes.padTo shape.leafSize)).filter (fun b => !isFiller b) =
      bs.map (Bytes.padTo shape.leafSize) := by
    refine List.filter_eq_self.mpr fun b hb => ?_
    obtain ⟨x, hx, rfl⟩ := List.mem_map.mp hb
    rw [h x hx]
    rfl
  have hfiller (n : Nat) : (List.replicate n (Bytes.zeros shape.leafSize)).filter (fun b => !isFiller b) = [] := by
    refine List.filter_eq_nil_iff.mpr fun b hb => ?_
    rw [List.eq_of_mem_replicate hb, View.isFiller_zeros]
    simp
  rw [fill, List.filter_append, hcontent, hfiller, List.append_nil]

namespace Registry

def Fills (r : Registry) (size : Nat) (v : TypedValue) (leaf : Bytes) : Prop :=
  ∃ b, r.Writes v b ∧ Bytes.padTo size b = leaf

omit [Hasher] in
theorem fills_leftUnique (hcap : ∀ t ∈ r.types, ∀ c ∈ t.layout.capacities, c < 2 ^ 32) (size : Nat) :
    Relator.LeftUnique (r.Fills size) := by
  rintro v leaf w ⟨b, hb, hleaf⟩ ⟨b', hb', hleaf'⟩
  exact hb.unique hcap hb' (hleaf.trans hleaf'.symm)

omit [Hasher] in
theorem not_filler_of_writes (hids : ∀ t ∈ r.types, t.id ≠ 0) {v : TypedValue} {b : Bytes} (h : r.Writes v b)
    (size : Nat) : Group.isFiller (Bytes.padTo size b) = false := by
  have hid : v.typeId ≠ 0 := by
    obtain ⟨t, x, ht, -, -⟩ := h
    rw [← id_of_findId? ht]
    exact hids t (List.mem_of_find?_eq_some ht)
  exact h.isZero hid _

end Registry

omit [Hasher] in
theorem fills_fill (hids : ∀ t ∈ r.types, t.id ≠ 0) {shape : Shape} {vs : List TypedValue} {bs : List Bytes}
    (h : List.Forall₂ r.Writes vs bs) :
    List.Forall₂ (r.Fills shape.leafSize) vs ((Group.fill shape bs).filter fun b => !Group.isFiller b) := by
  have hcontent : ∀ b ∈ bs, Group.isFiller (Bytes.padTo shape.leafSize b) = false := by
    refine forall_mem_left (fun b v hb => ?_) h.flip
    exact Registry.not_filler_of_writes hids hb shape.leafSize
  rw [Group.filter_fill hcontent, List.forall₂_map_right_iff]
  exact h.imp fun v b hb => ⟨b, hb, rfl⟩

/-- The leaves of a group say which items it holds. -/
theorem items_eq_of_leaves (hids : ∀ t ∈ r.types, t.id ≠ 0)
    (hcap : ∀ t ∈ r.types, ∀ c ∈ t.layout.capacities, c < 2 ^ 32) (h : Tree.build tx r p = .ok t)
    (h' : Tree.build tx' r p = .ok t') {kind : GroupKind} {g g' : Group} (hg : t.group? kind = some g)
    (hg' : t'.group? kind = some g') (hleaves : g.leaves = g'.leaves) : tx.items kind = tx'.items kind := by
  obtain ⟨bs, hbs, -, hgroup⟩ := Tree.group?_of_build h kind
  obtain ⟨bs', hbs', -, hgroup'⟩ := Tree.group?_of_build h' kind
  cases hg.symm.trans hgroup
  cases hg'.symm.trans hgroup'
  have hfill : Group.fill (p.shape kind) bs = Group.fill (p.shape kind) bs' := hleaves
  have hcontent : List.Forall₂ (r.Fills (p.shape kind).leafSize) (tx.items kind)
      ((Group.fill (p.shape kind) bs').filter fun b => !Group.isFiller b) := hfill ▸ fills_fill hids hbs
  exact List.left_unique_forall₂' (Registry.fills_leftUnique hcap _) hcontent (fills_fill hids hbs')

/-! ## The same salt -/

omit [Hasher] in
theorem nonceString_inj {salt salt' : Digest} {i j : Nat} (h : nonceString salt.toBytes i j = nonceString salt'.toBytes i j) :
    salt = salt' :=
  Digest.toBytes_inj.mp (List.append_cancel_right (List.append_cancel_right h))

omit [Hasher] in
theorem PrivacySalt.bytes_injective : Function.Injective PrivacySalt.bytes := by
  rintro ⟨_⟩ ⟨_⟩ rfl
  rfl

/-- The notary's group has a slot in every tree, so there is a nonce to compare. -/
theorem salt_eq_or_collides (h : Tree.build tx r p = .ok t) (h' : Tree.build tx' r p = .ok t') {g g' : Group}
    (hg : t.group? .notary = some g) (hg' : t'.group? .notary = some g') (hnonces : g.nonces = g'.nonces) :
    tx.salt = tx'.salt ∨ Collides (g.nonceStrings tx.salt.bytes.toBytes) (g'.nonceStrings tx'.salt.bytes.toBytes) := by
  have first {tx : Transaction} {t : Tree} {g : Group} (h : Tree.build tx r p = .ok t) (hg : t.group? .notary = some g) :
      nonceString tx.salt.bytes.toBytes GroupKind.notary.index 0 ∈ g.nonceStrings tx.salt.bytes.toBytes ∧
        g.nonces[0]? = some (deriveNonce tx.salt.bytes.toBytes GroupKind.notary.index 0) := by
    have hcount := ((Tree.fits_of_build h).groups g (List.mem_of_getElem? hg)).count
    obtain ⟨bs, -, -, hgroup⟩ := Tree.group?_of_build h .notary
    cases hg.symm.trans hgroup
    have hone : (Group.fill (p.shape .notary) bs).length = 1 := hcount
    simp [Group.nonceStrings, Group.ofLeaves, hone]
  obtain ⟨hmem, hnonce⟩ := first h hg
  obtain ⟨hmem', hnonce'⟩ := first h' hg'
  rw [hnonces, hnonce'] at hnonce
  rcases eq_or_collides hmem hmem' (Option.some.inj hnonce).symm with he | hc
  · exact .inl (PrivacySalt.bytes_injective (nonceString_inj he))
  · exact .inr hc

/-! ## The whole transaction -/

/-- Under a registry whose types have ids other than 0 and counts that fit their prefixes, two
    transactions with one id are the same in all their parts, the salt included, or two
    different strings with one digest are found among those hashed on either side. -/
theorem id_commits (hids : ∀ t ∈ r.types, t.id ≠ 0) (hcap : ∀ t ∈ r.types, ∀ c ∈ t.layout.capacities, c < 2 ^ 32)
    (h : Tree.build tx r p = .ok t) (h' : Tree.build tx' r p = .ok t') (hid : t.id = t'.id) :
    tx = tx' ∨ ∃ x y, collision? (tx.hashed t) (tx'.hashed t') = some (x, y) ∧ x ≠ y ∧ digest x = digest y := by
  have hfits := Tree.fits_of_build h
  have hfits' := Tree.fits_of_build h'
  have hroot : transactionRoot (View.ofTree t .revealAll).groupRoots =
      transactionRoot (View.ofTree t' .revealAll).groupRoots := by
    rw [View.groupRoots_ofTree hfits, View.groupRoots_ofTree hfits']
    exact hfits.id.symm.trans (hid.trans hfits'.id)
  rcases View.agrees_or_collides (View.shaped_ofTree hfits _) (View.shaped_ofTree hfits' _) hroot with hagree | hc
  · have group (kind : GroupKind) : ∃ g g', t.group? kind = some g ∧ t'.group? kind = some g' ∧
        g.leaves = g'.leaves ∧ g.nonces = g'.nonces := by
      obtain ⟨_, -, -, hg⟩ := Tree.group?_of_build h kind
      obtain ⟨_, -, -, hg'⟩ := Tree.group?_of_build h' kind
      exact ⟨_, _, hg, hg', hagree.slots hfits hfits' hg hg'⟩
    obtain ⟨g, g', hg, hg', -, hnonces⟩ := group .notary
    rcases salt_eq_or_collides h h' hg hg' hnonces with hsalt | hc
    · refine .inl (Transaction.eq_of_items (fun kind => ?_) hsalt)
      obtain ⟨g, g', hg, hg', hleaves, -⟩ := group kind
      exact items_eq_of_leaves hids hcap h h' hg hg' hleaves
    · refine .inr (hc.mono ?_ ?_).collision?
      · exact fun x hx => List.mem_append_left _ (List.mem_flatMap.mpr ⟨g, List.mem_of_getElem? hg, hx⟩)
      · exact fun x hx => List.mem_append_left _ (List.mem_flatMap.mpr ⟨g', List.mem_of_getElem? hg', hx⟩)
  · exact .inr (hc.mono (List.subset_append_right ..) (List.subset_append_right ..)).collision?

end

theorem oneInput_commits : ∃ t, Tree.build View.oneInput .builtin .standard = .ok t ∧
    (∀ t ∈ Registry.builtin.types, t.id ≠ 0) ∧
    (∀ t ∈ Registry.builtin.types, ∀ c ∈ t.layout.capacities, c < 2 ^ 32) ∧
    (View.oneInput = View.oneInput ∨ ∃ x y, collision? (View.oneInput.hashed t) (View.oneInput.hashed t) = some (x, y) ∧
      x ≠ y ∧ digest x = digest y) := by
  obtain ⟨t, ht⟩ : ∃ t, Tree.build View.oneInput .builtin .standard = .ok t := ⟨_, rfl⟩
  have hids : ∀ t ∈ Registry.builtin.types, t.id ≠ 0 := by decide
  have hcap : ∀ t ∈ Registry.builtin.types, ∀ c ∈ t.layout.capacities, c < 2 ^ 32 := by decide
  exact ⟨t, ht, hids, hcap, id_commits hids hcap ht ht rfl⟩

end VeiledLedger
