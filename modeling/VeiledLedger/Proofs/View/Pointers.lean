/-
  VeiledLedger.Proofs.View.Pointers — what a verifier reads in the view of a tree.

  Where a disclosure shows a whole group of pointers, they are read back as the transaction
  has them: no serialized pointer is taken for filler, since its type has an id, and filler
  is passed over. Where it hides a slot of the group, that is what the verifier is told,
  whether the slot holds a pointer or filler. A leaf hash is the tree's own, whether or not its
  slot is shown.

  Main statements: `pointersOf_masked`, `pointers_exact`, `leafHash?_ofTree`.
-/

import VeiledLedger.Proofs.Tree.Items
import VeiledLedger.Proofs.View.Binding

namespace VeiledLedger

/-! ## Hidden slots -/

namespace Disclosure

def firstHidden? (d : Disclosure) (kind : GroupKind) (i n : Nat) : Option Nat :=
  (List.range' i n).find? fun j => !d.shows kind j

theorem firstHidden?_succ (d : Disclosure) (kind : GroupKind) (i n : Nat) :
    d.firstHidden? kind i (n + 1) = if d.shows kind i then d.firstHidden? kind (i + 1) n else some i := by
  rw [firstHidden?, List.range'_succ, List.find?_cons]
  cases d.shows kind i <;> rfl

theorem firstHidden?_eq_none {d : Disclosure} {kind : GroupKind} {i n : Nat} :
    d.firstHidden? kind i n = none ↔ ∀ j, i ≤ j → j < i + n → d.shows kind j = true := by
  simp [firstHidden?]

def hiddenPointer? (d : Disclosure) (p : Padding) : Option (GroupKind × Nat) :=
  let slots := [GroupKind.inputs, .references].flatMap fun kind => (List.range (p.shape kind).capacity).map (kind, ·)
  slots.find? fun (kind, i) => !d.shows kind i

theorem hiddenPointer?_eq (d : Disclosure) (p : Padding) :
    d.hiddenPointer? p =
      ((d.firstHidden? .inputs 0 (p.shape .inputs).capacity).map (GroupKind.inputs, ·)).or
        ((d.firstHidden? .references 0 (p.shape .references).capacity).map (GroupKind.references, ·)) := by
  simp only [hiddenPointer?, List.flatMap_cons, List.flatMap_nil, List.append_nil, List.find?_append, List.find?_map,
    List.range_eq_range']
  rfl

theorem hiddenPointer?_eq_none {d : Disclosure} {p : Padding} :
    d.hiddenPointer? p = none ↔
      ∀ kind, kind = .inputs ∨ kind = .references → ∀ i < (p.shape kind).capacity, d.shows kind i = true := by
  simp [hiddenPointer?_eq, firstHidden?_eq_none]

end Disclosure

namespace View

/-! ## A group that is shown -/

section
variable {d : Disclosure} {kind : GroupKind}

theorem maskLeaves_of_shows [Hasher] (hd : ∀ i, d.shows kind i = true) : ∀ {i : Nat} {bs : List Bytes} {ns : List Nonce},
    maskLeaves d kind i bs ns (List.zipWith leafHash ns bs) = List.zipWith Leaf.visible bs ns
  | _, [], _ => by simp [maskLeaves]
  | _, _ :: _, [] => by simp [maskLeaves]
  | i, b :: bs, n :: ns => by
    rw [List.zipWith_cons_cons, maskLeaves, maskLeaves_of_shows hd, if_pos (hd i), List.zipWith_cons_cons]

theorem shows_forVerifier (h : kind = .inputs ∨ kind = .references) (i : Nat) :
    Disclosure.forVerifier.shows kind i = true := by
  rcases h with rfl | rfl
  · rfl
  · rfl

theorem isFiller_zeros (n : Nat) : Group.isFiller (Bytes.zeros n) = true := by
  simp [Group.isFiller, Bytes.isZero, Bytes.zeros]

inductive HoldsPointer (r : Registry) : Option StatePointer → Bytes → Prop
  | filler {b : Bytes} : Group.isFiller b = true → HoldsPointer r none b
  | pointer {q : StatePointer} {b : Bytes} : Group.isFiller b = false → r.deserializeComponent StatePointer b = .ok q →
      HoldsPointer r (some q) b

/-- All pointers of a group are read, or else the first hidden slot is named, whatever it holds. -/
theorem readPointers_maskLeaves {r : Registry} {os : List (Option StatePointer)} {bs : List Bytes}
    (h : List.Forall₂ (HoldsPointer r) os bs) : ∀ {i : Nat} {ns : List Nonce} {hs : List Digest},
      bs.length = ns.length → hs.length = ns.length →
      readPointers kind r i (maskLeaves d kind i bs ns hs) =
        match d.firstHidden? kind i bs.length with
        | none => .ok (os.filterMap id)
        | some j => .error (.undisclosed kind j) := by
  induction h with
  | nil =>
    intro i ns hs _ _
    rw [maskLeaves]
    · rfl
    · simp
  | @cons o b os bs hb _ ih =>
    intro i ns hs hns hhs
    obtain ⟨n, ns, rfl⟩ := List.exists_cons_of_length_eq_add_one hns.symm
    obtain ⟨x, hs, rfl⟩ := List.exists_cons_of_length_eq_add_one hhs
    have hrest := ih (i := i + 1) (Nat.succ.inj hns) (Nat.succ.inj hhs)
    rw [maskLeaves, List.length_cons, Disclosure.firstHidden?_succ]
    cases d.shows kind i with
    | false => rfl
    | true =>
      show readPointers kind r i (.visible b n :: _) =
        match d.firstHidden? kind (i + 1) bs.length with | none => _ | some j => _
      rw [readPointers, hrest]
      cases hb with
      | filler hfiller =>
        rw [if_pos hfiller]
        rfl
      | @pointer q _ hcontent hq =>
        rw [if_neg (by rw [hcontent]; decide), hq]
        cases d.firstHidden? kind (i + 1) bs.length <;> rfl

end

section
variable [Hasher] {tx : Transaction} {r : Registry} {p : Padding} {t : Tree}

/-! ## Leaf hashes -/

/-- A leaf hash does not depend on what is shown. -/
theorem leafHash?_ofTree (h : t.Fits p) (d : Disclosure) (kind : GroupKind) (i : Nat) :
    (ofTree t d).leafHash? kind i = (t.group? kind).bind (·.leafHashes[i]?) := by
  unfold leafHash?
  rw [group?_ofTree h.kinds]
  cases hg : t.group? kind with
  | none => rfl
  | some g =>
    have hfits := h.groups g (List.mem_of_getElem? hg)
    have hhash : (maskLeaves d g.kind 0 g.leaves g.nonces (List.zipWith leafHash g.nonces g.leaves)).map Leaf.hash =
        List.zipWith leafHash g.nonces g.leaves := map_hash_maskLeaves
    rw [Option.bind_some, hfits.leafHashes, ← hhash, List.getElem?_map]
    simp only [Option.map_some, bind, Option.bind_some, pure, hfits.leafHashes]
    cases (maskLeaves d g.kind 0 g.leaves g.nonces (List.zipWith leafHash g.nonces g.leaves))[i]? <;> rfl

/-! ## The pointers of a transaction -/

/-- A pointer starts with the id of its type, which is not 0, so it is not taken for filler. -/
theorem holdsPointer_of_writes (hr : r.Built) {q : StatePointer} {b : Bytes} (h : r.Writes (.ofComponent q) b)
    (size : Nat) : HoldsPointer r (some q) (Bytes.padTo size b) := by
  have hid : (TypedValue.ofComponent q).typeId ≠ 0 := by
    show (1 : TypeId) ≠ 0
    decide
  have hcap : ∀ n ∈ (Component.layout StatePointer).capacities, n < 2 ^ 32 := by
    simp [Component.layout, Layout.capacities, Layout.fieldCapacities]
  exact .pointer (h.isZero hid _) (h.deserializeComponent hr rfl rfl hcap _)

/-- A group that holds pointers, under any disclosure. -/
theorem pointersOf_masked (hr : r.Built) (h : Tree.build tx r p = .ok t) (d : Disclosure) {kind : GroupKind}
    {qs : List StatePointer} (hqs : tx.items kind = qs.map .ofComponent) :
    (ofTree t d).pointersOf kind r =
      match d.firstHidden? kind 0 (p.shape kind).capacity with
      | none => .ok qs
      | some i => .error (.undisclosed kind i) := by
  obtain ⟨bs, hbs, hcap, hgroup⟩ := Tree.group?_of_build h kind
  rw [hqs, List.forall₂_map_left_iff] at hbs
  have hitems : List.Forall₂ (HoldsPointer r) (qs.map some) (bs.map (Bytes.padTo (p.shape kind).leafSize)) := by
    rw [List.forall₂_map_left_iff, List.forall₂_map_right_iff]
    exact hbs.imp fun q b hb => holdsPointer_of_writes hr hb _
  have hfiller (n : Nat) : List.Forall₂ (HoldsPointer r) (List.replicate n none)
      (List.replicate n (Bytes.zeros (p.shape kind).leafSize)) := by
    refine List.forall₂_iff_get.mpr ⟨by simp, fun i _ _ => ?_⟩
    simpa using HoldsPointer.filler (isFiller_zeros _)
  have hleaves : List.Forall₂ (HoldsPointer r)
      (qs.map some ++ List.replicate ((p.shape kind).capacity - bs.length) none) (Group.fill (p.shape kind) bs) :=
    List.rel_append hitems (hfiller _)
  have hread (n : Nat) : (qs.map some ++ List.replicate n none).filterMap id = qs := by
    simp
  have hlen : (Group.fill (p.shape kind) bs).length = (p.shape kind).capacity := by
    rw [Group.fill, List.length_append, List.length_map, List.length_replicate]
    omega
  unfold pointersOf
  rw [group?_ofTree (Tree.fits_of_build h).kinds, hgroup]
  simp only [Option.map_some, Group.ofLeaves]
  rw [readPointers_maskLeaves hleaves (by simp) (by simp), hlen, hread]

/-- A group that holds pointers and is shown. -/
theorem pointersOf_ofTree (hr : r.Built) (h : Tree.build tx r p = .ok t) {d : Disclosure} {kind : GroupKind}
    (hd : ∀ i, d.shows kind i = true) {qs : List StatePointer} (hqs : tx.items kind = qs.map .ofComponent) :
    (ofTree t d).pointersOf kind r = .ok qs := by
  rw [pointersOf_masked hr h d hqs, Disclosure.firstHidden?_eq_none.mpr fun i _ _ => hd i]

/-- What a verifier reads is what the transaction spends and refers to. -/
theorem pointers_ofTree (hr : r.Built) (h : Tree.build tx r p = .ok t) :
    (ofTree t .forVerifier).pointers r = .ok tx.pointers := by
  have hspent : (ofTree t .forVerifier).pointersOf .inputs r = .ok tx.inputs :=
    pointersOf_ofTree hr h (shows_forVerifier (.inl rfl)) rfl
  have hnamed : (ofTree t .forVerifier).pointersOf .references r = .ok tx.references :=
    pointersOf_ofTree hr h (shows_forVerifier (.inr rfl)) rfl
  unfold pointers
  rw [hspent, hnamed]
  rfl

/-- A view of a built tree, under any disclosure. If every slot of the inputs and of the references
    is shown, the verifier reads what the transaction spends and then what it refers to; otherwise
    the first hidden slot is named, inputs before references, whatever it holds. -/
theorem pointers_exact (hr : r.Built) (h : Tree.build tx r p = .ok t) (d : Disclosure) :
    (d.hiddenPointer? p = none ↔
      ∀ kind, kind = .inputs ∨ kind = .references → ∀ i < (p.shape kind).capacity, d.shows kind i = true) ∧
    (ofTree t d).pointers r = (match d.hiddenPointer? p with
      | none => .ok (tx.inputs ++ tx.references)
      | some (kind, i) => .error (.undisclosed kind i)) ∧
    (ofTree t d).dependencies r = (match d.hiddenPointer? p with
      | none => .ok tx.dependencies
      | some (kind, i) => .error (.undisclosed kind i)) := by
  have hpointers : (ofTree t d).pointers r = (match d.hiddenPointer? p with
      | none => .ok (tx.inputs ++ tx.references)
      | some (kind, i) => .error (.undisclosed kind i)) := by
    have hspent : tx.items .inputs = tx.inputs.map .ofComponent := rfl
    have hnamed : tx.items .references = tx.references.map .ofComponent := rfl
    unfold pointers
    rw [pointersOf_masked hr h d hspent, pointersOf_masked hr h d hnamed, Disclosure.hiddenPointer?_eq]
    cases d.firstHidden? .inputs 0 (p.shape .inputs).capacity with
    | some i => rfl
    | none => cases d.firstHidden? .references 0 (p.shape .references).capacity <;> rfl
  refine ⟨Disclosure.hiddenPointer?_eq_none, hpointers, ?_⟩
  rw [dependencies, hpointers]
  cases d.hiddenPointer? p <;> rfl

end

/-- The input of the transaction is the pointer that is all zeros but for the id of its type. It is
    read, and one who sees it alone learns that the filler behind it is hidden. -/
theorem oneInput_pointers : ∃ t, Tree.build oneInput .builtin .standard = .ok t ∧
    (ofTree t .forVerifier).pointers .builtin = .ok [⟨.zero, 0⟩] ∧
    (ofTree t .forVerifier).dependencies .builtin = .ok [.zero] ∧
    (ofTree t (Disclosure.hideAll.reveal .inputs 0)).pointers .builtin = .error (.undisclosed .inputs 1) := by
  obtain ⟨t, ht⟩ : ∃ t, Tree.build oneInput .builtin .standard = .ok t := ⟨_, rfl⟩
  obtain ⟨-, hread, hnamed⟩ := pointers_exact .builtin ht .forVerifier
  obtain ⟨-, hhidden, -⟩ := pointers_exact .builtin ht (Disclosure.hideAll.reveal .inputs 0)
  have hone : oneInput.dependencies = [.zero] := by decide +kernel
  exact ⟨t, ht, hread, hnamed.trans (congrArg Except.ok hone), hhidden⟩

end View

end VeiledLedger
