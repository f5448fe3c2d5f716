/-
  VeiledLedger.Proofs.View.Shape — what the checks of a view say.

  A view passes the check of its shape exactly if it has the nine groups in hashing order, as
  many slots in each as the padding says, and the declared width in each visible slot. Whatever
  its shape, no more pointers are read from a view than it has slots.

  Main statements: `checkShape_eq_ok`, `verify_eq_ok`, `length_pointers_le`.
-/

import VeiledLedger.Proofs.Outcome
import VeiledLedger.View
import Mathlib.Data.List.Flatten

namespace VeiledLedger.View

def Ordered (v : View) : Prop := v.groups.map (·.kind) = GroupKind.all

structure Shaped (v : View) (p : Padding) : Prop where
  ordered : v.Ordered
  counts : ∀ g ∈ v.groups, g.leaves.length = (p.shape g.kind).capacity
  widths : ∀ g ∈ v.groups, ∀ b n, Leaf.visible b n ∈ g.leaves → b.length = (p.shape g.kind).leafSize

variable {v : View} {p : Padding}

theorem checkKinds_eq_ok : ∀ {i : Nat} {gs : List ViewGroup} {kinds : List GroupKind}, gs.length = kinds.length →
    (checkKinds i gs kinds = .ok () ↔ gs.map (·.kind) = kinds)
  | _, [], [], _ => by simp [checkKinds]
  | i, g :: gs, kind :: kinds, hlen => by
    unfold checkKinds
    split
    · rename_i hk
      rw [checkKinds_eq_ok (by simpa using hlen), List.map_cons, hk]
      simp
    · rename_i hk
      simp [hk]

theorem checkOrder_eq_ok : v.checkOrder = .ok () ↔ v.Ordered := by
  unfold checkOrder Ordered
  split
  · rename_i hlen
    refine ⟨fun h => (by cases h), fun h => absurd ?_ hlen⟩
    have := congrArg List.length h
    rwa [List.length_map] at this
  · rename_i hlen
    exact checkKinds_eq_ok (Decidable.not_not.mp hlen)

theorem checkWidths_eq_ok {kind : GroupKind} {size : Nat} : ∀ {i : Nat} {leaves : List Leaf},
    checkWidths kind size i leaves = .ok () ↔ ∀ b n, Leaf.visible b n ∈ leaves → b.length = size
  | _, [] => by simp [checkWidths]
  | i, .hidden d :: rest => by
    rw [checkWidths, checkWidths_eq_ok]
    simp
  | i, .visible b n :: rest => by
    rw [checkWidths]
    split
    · rename_i hb
      rw [checkWidths_eq_ok]
      refine ⟨fun h c m hm => ?_, fun h c m hm => h c m (List.mem_cons_of_mem _ hm)⟩
      rcases List.mem_cons.mp hm with hm | hm
      · cases hm
        exact hb
      · exact h c m hm
    · rename_i hb
      exact ⟨fun h => (by cases h), fun h => absurd (h b n List.mem_cons_self) hb⟩

theorem checkGroup_eq_ok {g : ViewGroup} : checkGroup p g = .ok () ↔
    g.leaves.length = (p.shape g.kind).capacity ∧
      ∀ b n, Leaf.visible b n ∈ g.leaves → b.length = (p.shape g.kind).leafSize := by
  simp only [checkGroup]
  split
  · rename_i hlen
    rw [checkWidths_eq_ok]
    exact ⟨fun h => ⟨hlen, h⟩, fun h => h.2⟩
  · rename_i hlen
    exact ⟨fun h => (by cases h), fun h => absurd h.1 hlen⟩

theorem checkGroups_eq_ok : ∀ {gs : List ViewGroup},
    checkGroups p gs = .ok () ↔ ∀ g ∈ gs, checkGroup p g = .ok ()
  | [] => by simp [checkGroups]
  | g :: gs => by
    rw [checkGroups, Except.bind_eq_ok, List.forall_mem_cons]
    exact ⟨fun ⟨_, hg, hgs⟩ => ⟨hg, checkGroups_eq_ok.mp hgs⟩, fun ⟨hg, hgs⟩ => ⟨(), hg, checkGroups_eq_ok.mpr hgs⟩⟩

theorem checkShape_eq_ok : v.checkShape p = .ok () ↔ v.Shaped p := by
  unfold checkShape
  rw [Except.bind_eq_ok]
  constructor
  · rintro ⟨_, horder, hgroups⟩
    rw [checkGroups_eq_ok] at hgroups
    exact ⟨checkOrder_eq_ok.mp horder, fun g hg => (checkGroup_eq_ok.mp (hgroups g hg)).1,
      fun g hg => (checkGroup_eq_ok.mp (hgroups g hg)).2⟩
  · intro h
    refine ⟨(), checkOrder_eq_ok.mpr h.ordered, checkGroups_eq_ok.mpr fun g hg => ?_⟩
    exact checkGroup_eq_ok.mpr ⟨h.counts g hg, h.widths g hg⟩

theorem root_eq_ok [Hasher] {id : TransactionId} :
    v.root = .ok id ↔ v.Ordered ∧ transactionRoot v.groupRoots = id := by
  unfold root
  rw [Except.bind_eq_ok, ← checkOrder_eq_ok]
  constructor
  · rintro ⟨_, horder, hroot⟩
    cases hroot
    exact ⟨horder, rfl⟩
  · rintro ⟨horder, rfl⟩
    exact ⟨(), horder, rfl⟩

theorem verify_eq_ok [Hasher] {id : TransactionId} :
    v.verify id = .ok () ↔ v.Ordered ∧ transactionRoot v.groupRoots = id := by
  unfold verify root
  rw [← checkOrder_eq_ok]
  cases v.checkOrder with
  | error e => simp [bind, Except.bind]
  | ok u =>
    simp only [bind, Except.bind, pure, Except.pure, true_and]
    split
    · rename_i hroot
      simp [hroot]
    · rename_i hroot
      simp [hroot, throw, throwThe, MonadExceptOf.throw]

/-- In an ordered view each group stands at the place of its kind. -/
theorem Ordered.group? (h : v.Ordered) (k : GroupKind) : v.group? k = v.groups[k.index]? := by
  have hk := k.all_getElem?_index
  rw [← h, List.getElem?_map] at hk
  unfold View.group?
  cases hg : v.groups[k.index]? with
  | none => rfl
  | some g =>
    rw [hg] at hk
    exact if_pos (Option.some.inj hk)

/-! ## How many pointers there may be -/

theorem length_readPointers_le {kind : GroupKind} {r : Registry} :
    ∀ {i : Nat} {leaves : List Leaf} {ps : List StatePointer}, readPointers kind r i leaves = .ok ps →
      ps.length ≤ leaves.length
  | _, [], _, h => by
    cases h
    exact Nat.le_refl 0
  | _, .hidden _ :: _, _, h => by cases h
  | i, .visible b n :: rest, ps, h => by
    rw [readPointers] at h
    split at h
    · exact Nat.le_succ_of_le (length_readPointers_le h)
    · simp only [Except.bind_eq_ok] at h
      obtain ⟨p, -, qs, hqs, hret⟩ := h
      cases hret
      exact Nat.succ_le_succ (length_readPointers_le hqs)

theorem length_pointersOf_le {kind : GroupKind} {r : Registry} {ps : List StatePointer}
    (h : v.pointersOf kind r = .ok ps) : ∃ g, v.groups[kind.index]? = some g ∧ ps.length ≤ g.leaves.length := by
  unfold pointersOf group? at h
  cases hg : v.groups[kind.index]? with
  | none => simp [hg] at h
  | some g =>
    rw [hg] at h
    by_cases hkind : g.kind = kind
    · simp only [hkind, if_true] at h
      exact ⟨g, rfl, length_readPointers_le h⟩
    · simp [hkind] at h

/-- A view of the declared shape shows no more pointers of a kind than the padding has slots for. -/
theorem Shaped.length_pointersOf_le (h : v.Shaped p) {kind : GroupKind} {r : Registry} {ps : List StatePointer}
    (hps : v.pointersOf kind r = .ok ps) : ps.length ≤ (p.shape kind).capacity := by
  obtain ⟨g, hg, hlen⟩ := View.length_pointersOf_le hps
  have hkind := kind.all_getElem?_index
  rw [← h.ordered, List.getElem?_map, hg] at hkind
  cases hkind
  rwa [h.counts g (List.mem_of_getElem? hg)] at hlen

/-- No slot belongs to two groups. -/
theorem length_leaves_le {i j : Nat} (hij : i < j) {g g' : ViewGroup} (hi : v.groups[i]? = some g)
    (hj : v.groups[j]? = some g') : g.leaves.length + g'.leaves.length ≤ (v.groups.flatMap (·.leaves)).length := by
  have hfirst : g ∈ v.groups.take j := List.mem_of_getElem? (by rw [List.getElem?_take_of_lt hij, hi])
  have hsecond : g' ∈ v.groups.drop j := List.mem_of_getElem? (i := 0) (by rw [List.getElem?_drop, Nat.add_zero, hj])
  have hpair : List.Sublist [g, g'] v.groups := by
    rw [← List.take_append_drop j v.groups]
    exact (List.singleton_sublist.mpr hfirst).append (List.singleton_sublist.mpr hsecond)
  simpa using (hpair.flatMap (·.leaves)).length_le

theorem length_pointers_le {r : Registry} {ps : List StatePointer} (h : v.pointers r = .ok ps) :
    ps.length ≤ (v.groups.flatMap (·.leaves)).length := by
  unfold pointers at h
  simp only [Except.bind_eq_ok] at h
  obtain ⟨spent, hspent, named, hnamed, hret⟩ := h
  cases hret
  obtain ⟨g, hg, hlen⟩ := length_pointersOf_le hspent
  obtain ⟨g', hg', hlen'⟩ := length_pointersOf_le hnamed
  have hslots := length_leaves_le (by decide) hg hg'
  rw [List.length_append]
  omega

end VeiledLedger.View
