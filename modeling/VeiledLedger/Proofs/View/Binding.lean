/-
  VeiledLedger.Proofs.View.Binding — a transaction id binds what is shown under it.

  Two views of one shape that both rebuild the same id have the same leaf hashes, and where
  both show a slot they show the same, or the computations of their ids have hashed two
  different strings to one digest. Leaves and nodes are hashed alike and an odd node is joined
  with itself, so leaves of different number can share a root; the shape rules that out.

  Main statement: `disclosure_binding`.
-/

import VeiledLedger.Digest.Sha256
import VeiledLedger.Proofs.Merkle
import VeiledLedger.Proofs.View.OfTree

namespace VeiledLedger

/-! ## What is hashed for a view -/

/-- A hidden leaf comes with its hash. -/
def Leaf.hashed : Leaf → List Bytes
  | .visible b nonce => [nonce.toBytes ++ b]
  | .hidden _ => []

def ViewGroup.hashed [Hasher] (g : ViewGroup) : List Bytes :=
  g.leaves.flatMap Leaf.hashed ++ nodeStrings (g.leaves.map Leaf.hash)

def View.hashed [Hasher] (v : View) : List Bytes :=
  v.groups.flatMap ViewGroup.hashed ++ [v.groupRoots.flatMap Digest.toBytes]

/-! ## Leaves and groups -/

section
variable [Hasher]

structure Leaf.Agrees (a b : Leaf) : Prop where
  hash : a.hash = b.hash
  shown : ∀ x n y m, a = .visible x n → b = .visible y m → x = y ∧ n = m

structure ViewGroup.Agrees (g h : ViewGroup) : Prop where
  kind : g.kind = h.kind
  leaves : List.Forall₂ Leaf.Agrees g.leaves h.leaves

theorem Leaf.agrees_or_collides {a b : Leaf} (h : a.hash = b.hash) : a.Agrees b ∨ Collides a.hashed b.hashed := by
  cases a with
  | hidden d => exact .inl ⟨h, fun x n y m ha => (by cases ha)⟩
  | visible x n =>
    cases b with
    | hidden d => exact .inl ⟨h, fun x n y m _ hb => (by cases hb)⟩
    | visible y m =>
      rcases eq_or_collides (List.mem_singleton_self _) (List.mem_singleton_self _) h with he | hc
      · obtain ⟨rfl, rfl⟩ := Digest.append_inj he
        refine .inl ⟨rfl, fun _ _ _ _ ha hb => ?_⟩
        cases ha
        cases hb
        exact ⟨rfl, rfl⟩
      · exact .inr hc

/-- Groups with as many slots as one another and the same root. -/
theorem ViewGroup.agrees_or_collides {g h : ViewGroup} (hkind : g.kind = h.kind)
    (hlen : g.leaves.length = h.leaves.length) (hroot : g.root = h.root) :
    g.Agrees h ∨ Collides g.hashed h.hashed := by
  rcases merkleRoot_inj (by rw [List.length_map, List.length_map, hlen]) hroot with hhash | hc
  · have hleaf (a b : Leaf) (h : a.hash = b.hash) : a.Agrees b ∨ Collides a.hashed b.hashed :=
      Leaf.agrees_or_collides h
    rcases forall₂_or_collides hleaf (forall₂_of_map_eq hhash) with hl | hc
    · exact .inl ⟨hkind, hl⟩
    · exact .inr (hc.mono (List.subset_append_left ..) (List.subset_append_left ..))
  · exact .inr (hc.mono (List.subset_append_right ..) (List.subset_append_right ..))

end

/-! ## Views -/

namespace View

def leaf? (v : View) (kind : GroupKind) (i : Nat) : Option Leaf := do (← v.group? kind).leaves[i]?

section
variable [Hasher]

/-- The same leaf hash in every slot, and the same leaf and nonce wherever both show the slot. -/
structure Agrees (a b : View) : Prop where
  hashes : ∀ kind i, a.leafHash? kind i = b.leafHash? kind i
  shown : ∀ kind i x n y m, a.leaf? kind i = some (.visible x n) → b.leaf? kind i = some (.visible y m) →
    x = y ∧ n = m

def Shows (v : View) (t : Tree) : Prop :=
  ∀ kind i b n, v.leaf? kind i = some (.visible b n) →
    ∃ g, t.group? kind = some g ∧ g.leaves[i]? = some b ∧ g.nonces[i]? = some n

variable {a b : View} {p : Padding} {id : TransactionId}

theorem leafHash?_eq_map (v : View) (kind : GroupKind) (i : Nat) :
    v.leafHash? kind i = (v.leaf? kind i).map Leaf.hash := by
  unfold leafHash? leaf?
  cases v.group? kind with
  | none => rfl
  | some g =>
    simp only [bind, Option.bind, pure]
    cases g.leaves[i]? <;> rfl

theorem rel_leaf? (ha : a.Ordered) (hb : b.Ordered) (h : List.Forall₂ ViewGroup.Agrees a.groups b.groups)
    (kind : GroupKind) (i : Nat) : Option.Rel Leaf.Agrees (a.leaf? kind i) (b.leaf? kind i) := by
  have hgroup := rel_getElem? h kind.index
  unfold leaf?
  rw [ha.group?, hb.group?]
  generalize a.groups[kind.index]? = g, b.groups[kind.index]? = g' at hgroup ⊢
  cases hgroup with
  | none => exact .none
  | some hg => exact rel_getElem? hg.leaves i

theorem agrees_of_groups (ha : a.Ordered) (hb : b.Ordered) (h : List.Forall₂ ViewGroup.Agrees a.groups b.groups) :
    a.Agrees b := by
  refine ⟨fun kind i => ?_, fun kind i x n y m hx hy => ?_⟩
  · have hrel := rel_leaf? ha hb h kind i
    rw [leafHash?_eq_map, leafHash?_eq_map]
    generalize a.leaf? kind i = l, b.leaf? kind i = l' at hrel ⊢
    cases hrel with
    | none => rfl
    | some hl => exact congrArg some hl.hash
  · have hrel := rel_leaf? ha hb h kind i
    rw [hx, hy] at hrel
    cases hrel with
    | some hl => exact hl.shown x n y m rfl rfl

/-- Groups of the same kinds and sizes whose roots are equal one by one. -/
theorem groups_agree_or_collide (ha : a.Shaped p) (hb : b.Shaped p) (hroots : a.groupRoots = b.groupRoots) :
    List.Forall₂ ViewGroup.Agrees a.groups b.groups ∨
      Collides (a.groups.flatMap ViewGroup.hashed) (b.groups.flatMap ViewGroup.hashed) := by
  have hkinds := forall₂_of_map_eq (ha.ordered.trans hb.ordered.symm)
  have hequal := forall₂_of_map_eq hroots
  have hgroups : List.Forall₂ (fun g h : ViewGroup =>
      g.kind = h.kind ∧ g.leaves.length = h.leaves.length ∧ g.root = h.root) a.groups b.groups := by
    refine List.forall₂_iff_zip.mpr ⟨hkinds.length_eq, fun hgh => ?_⟩
    have hkind := List.forall₂_zip hkinds hgh
    obtain ⟨hg, hh⟩ := List.of_mem_zip hgh
    refine ⟨hkind, ?_, List.forall₂_zip hequal hgh⟩
    rw [ha.counts _ hg, hb.counts _ hh, hkind]
  refine forall₂_or_collides ?_ hgroups
  rintro g h ⟨hkind, hlen, hroot⟩
  exact ViewGroup.agrees_or_collides hkind hlen hroot

theorem agrees_or_collides (ha : a.Shaped p) (hb : b.Shaped p)
    (hroot : transactionRoot a.groupRoots = transactionRoot b.groupRoots) :
    a.Agrees b ∨ Collides a.hashed b.hashed := by
  unfold hashed
  rcases eq_or_collides (List.mem_singleton_self _) (List.mem_singleton_self _) hroot with he | hc
  · have hlen : a.groupRoots.length = b.groupRoots.length := by
      have hkinds := congrArg List.length (ha.ordered.trans hb.ordered.symm)
      simpa [groupRoots] using hkinds
    rcases groups_agree_or_collide ha hb (Digest.flatMap_inj hlen he) with hg | hc
    · exact .inl (agrees_of_groups ha.ordered hb.ordered hg)
    · exact .inr (hc.mono (List.subset_append_left ..) (List.subset_append_left ..))
  · exact .inr (hc.mono (List.subset_append_right ..) (List.subset_append_right ..))

/-! ## The tree behind an id -/

omit [Hasher] in
theorem leaf?_revealAll {t : Tree} (h : t.groups.map (·.kind) = GroupKind.all) {kind : GroupKind} {i : Nat} {l : Leaf}
    (hl : (ofTree t .revealAll).leaf? kind i = some l) :
    ∃ g b n, t.group? kind = some g ∧ g.leaves[i]? = some b ∧ g.nonces[i]? = some n ∧ l = .visible b n := by
  unfold leaf? at hl
  rw [group?_ofTree h] at hl
  obtain ⟨v, hv, hl⟩ := Option.bind_eq_some_iff.mp hl
  obtain ⟨g, hg, rfl⟩ := Option.map_eq_some_iff.mp hv
  obtain ⟨b, n, _, hb, hn, -, he⟩ := getElem?_maskLeaves hl
  rw [if_pos (shows_revealAll ..)] at he
  exact ⟨g, b, n, hg, hb, hn, he⟩

theorem Agrees.shows {t : Tree} (h : t.groups.map (·.kind) = GroupKind.all) (hagree : a.Agrees (ofTree t .revealAll)) :
    a.Shows t := by
  intro kind i b n hb
  have hhash := hagree.hashes kind i
  rw [leafHash?_eq_map, leafHash?_eq_map, hb] at hhash
  obtain ⟨l, hl, -⟩ := Option.map_eq_some_iff.mp hhash.symm
  obtain ⟨g, b', n', hg, hb', hn', rfl⟩ := leaf?_revealAll h hl
  obtain ⟨rfl, rfl⟩ := hagree.shown kind i b n b' n' hb hl
  exact ⟨g, hg, hb', hn'⟩

/-- What a view of the right shape shows under an id is all that can be shown under it: any
    other such view agrees with it, and so does any tree that was built with that id, or two
    different strings with one digest are found among those hashed on either side. -/
theorem disclosure_binding (p : Padding) (id : TransactionId) {a : View} (hshape : a.checkShape p = .ok ())
    (hverify : a.verify id = .ok ()) :
    (∀ b : View, b.checkShape p = .ok () → b.verify id = .ok () →
      a.Agrees b ∨ ∃ x y, collision? a.hashed b.hashed = some (x, y) ∧ x ≠ y ∧ digest x = digest y) ∧
    (∀ tx r t, Tree.build tx r p = .ok t → t.id = id →
      a.Shows t ∨ ∃ x y, collision? a.hashed (ofTree t .revealAll).hashed = some (x, y) ∧ x ≠ y ∧
        digest x = digest y) := by
  have hboth (b : View) (hshape' : b.checkShape p = .ok ()) (hverify' : b.verify id = .ok ()) :
      a.Agrees b ∨ Collides a.hashed b.hashed := by
    have hroot := (verify_eq_ok.mp hverify).2.trans (verify_eq_ok.mp hverify').2.symm
    exact agrees_or_collides (checkShape_eq_ok.mp hshape) (checkShape_eq_ok.mp hshape') hroot
  refine ⟨fun b hshape' hverify' => (hboth b hshape' hverify').imp_right Collides.collision?, ?_⟩
  rintro tx r t hbuild rfl
  have hfits := Tree.fits_of_build hbuild
  rcases hboth _ (checkShape_ofTree hfits .revealAll) (verify_ofTree hfits .revealAll) with hagree | hc
  · exact .inl (hagree.shows hfits.kinds)
  · exact .inr hc.collision?

end

/-! ## A transaction with one input -/

def oneInput : Transaction where
  inputs := [⟨.zero, 0⟩]
  outputs := []
  commands := []
  attachments := []
  notary := none
  timeWindow := none
  signers := []
  references := []
  parameters := none
  salt := ⟨⟨1 :: Bytes.zeros 31, rfl⟩⟩

/-- The view of its verifier and one that shows everything have its input in common. -/
theorem oneInput_binding : ∃ (t : Tree) (a b : View), Tree.build oneInput .builtin .standard = .ok t ∧
    (a.checkShape .standard = .ok () ∧ a.verify t.id = .ok ()) ∧
    (b.checkShape .standard = .ok () ∧ b.verify t.id = .ok ()) ∧
    (∃ x n y m, a.leaf? .inputs 0 = some (.visible x n) ∧ b.leaf? .inputs 0 = some (.visible y m)) ∧
    (a.Agrees b ∨ ∃ x y, collision? a.hashed b.hashed = some (x, y) ∧ x ≠ y ∧ digest x = digest y) ∧
    (a.Shows t ∨ ∃ x y, collision? a.hashed (ofTree t .revealAll).hashed = some (x, y) ∧ x ≠ y ∧
      digest x = digest y) := by
  obtain ⟨t, ht, ⟨x, n, hx⟩, ⟨y, m, hy⟩⟩ : ∃ t, Tree.build oneInput .builtin .standard = .ok t ∧
      (∃ x n, (ofTree t .forVerifier).leaf? .inputs 0 = some (.visible x n)) ∧
      (∃ y m, (ofTree t .revealAll).leaf? .inputs 0 = some (.visible y m)) :=
    ⟨_, rfl, ⟨_, _, rfl⟩, ⟨_, _, rfl⟩⟩
  have hfits := Tree.fits_of_build ht
  have hshape (d : Disclosure) := checkShape_ofTree hfits d
  have hverify (d : Disclosure) := verify_ofTree hfits d
  obtain ⟨hviews, htrees⟩ := disclosure_binding .standard t.id (hshape .forVerifier) (hverify .forVerifier)
  exact ⟨t, _, _, ht, ⟨hshape .forVerifier, hverify .forVerifier⟩, ⟨hshape .revealAll, hverify .revealAll⟩,
    ⟨x, n, y, m, hx, hy⟩, hviews _ (hshape .revealAll) (hverify .revealAll), htrees _ _ t ht rfl⟩

end View

end VeiledLedger
