/-
  VeiledLedger.Proofs.View.Errors — what the errors of a view say of it.

  A view is checked from its first group to its last, and each group from its first slot to its
  last, so an error is about the first thing that is wrong. What that is, is said here without
  the checks: a number of groups other than nine, a group that is not of the kind of its place,
  a group with more or fewer slots than declared, a visible slot of another width, a slot that
  is hidden or cannot be read. Each error is reported exactly where its own fact holds.

  One is not. Whoever reads the pointers of a kind looks for the group at its place alone, and
  if another one stands there he is told that the number of groups is wrong, also if there are
  nine (`misplaced_group_miscounted`). So what is said of the reading of pointers holds if the
  number is wrong or the group at the place of its kind.

  Main statement: `errors_truthful`.
-/

import VeiledLedger.Digest.Sha256
import VeiledLedger.Proofs.View.Shape

namespace VeiledLedger

/-! ## Order -/

namespace View

variable {v : View} {p : Padding} {r : Registry} {e : ViewError}

inductive Misordered (v : View) : ViewError → Prop
  | count : v.groups.length ≠ 9 → Misordered v (.groupCount 9 v.groups.length)
  | order {position : Nat} {g : ViewGroup} {kind : GroupKind} : v.groups.length = 9 →
      FirstAt (fun place => place.1.kind ≠ place.2) (v.groups.zip GroupKind.all) position (g, kind) →
      Misordered v (.groupOrder position kind g.kind)

theorem checkKinds_eq_error {i : Nat} {gs : List ViewGroup} {kinds : List GroupKind} :
    checkKinds i gs kinds = .error e ↔ ∃ k place,
      FirstAt (fun place => place.1.kind ≠ place.2) (gs.zip kinds) k place ∧
        e = .groupOrder (i + k) place.2 place.1.kind := by
  induction gs generalizing i kinds with
  | nil => simp [checkKinds, not_firstAt_nil]
  | cons g gs ih =>
    cases kinds with
    | nil => simp [checkKinds, not_firstAt_nil]
    | cons kind kinds =>
      simp only [checkKinds, List.zip_cons_cons, firstAt_cons]
      split
      · rename_i hkind
        rw [ih]
        constructor
        · rintro ⟨k, place, hfirst, rfl⟩
          exact ⟨k + 1, place, .inr ⟨not_not.mpr hkind, k, rfl, hfirst⟩, by rw [Nat.add_assoc, Nat.add_comm 1 k]⟩
        · rintro ⟨_, place, ⟨hne, -⟩ | ⟨-, k, rfl, hfirst⟩, rfl⟩
          · exact absurd hkind hne
          · exact ⟨k, place, hfirst, by rw [Nat.add_assoc, Nat.add_comm 1 k]⟩
      · rename_i hkind
        constructor
        · intro h
          cases h
          exact ⟨0, (g, kind), .inl ⟨hkind, rfl, rfl⟩, rfl⟩
        · rintro ⟨_, _, ⟨-, rfl, rfl⟩ | ⟨hsame, -⟩, rfl⟩
          · rfl
          · exact absurd hkind hsame

theorem checkOrder_eq_error : v.checkOrder = .error e ↔ v.Misordered e := by
  unfold checkOrder
  split
  · rename_i hcount
    constructor
    · intro h
      cases h
      exact .count hcount
    · rintro (_ | ⟨hnine, -⟩)
      · rfl
      · exact absurd hnine hcount
  · rename_i hnine
    rw [checkKinds_eq_error]
    constructor
    · rintro ⟨k, ⟨g, kind⟩, hfirst, rfl⟩
      rw [Nat.zero_add]
      exact .order (Decidable.not_not.mp hnine) hfirst
    · rintro (hcount | ⟨-, hfirst⟩)
      · exact absurd hcount hnine
      · exact ⟨_, _, hfirst, by rw [Nat.zero_add]⟩

end View

/-! ## Shape -/

def Leaf.MissesWidth (size : Nat) (leaf : Leaf) : Prop := ∃ b, leaf.bytes? = some b ∧ b.length ≠ size

/-- There are more or fewer slots than declared, or one is the first that is visible and has
    another width. -/
inductive ViewGroup.Misshapen (p : Padding) (g : ViewGroup) : ViewError → Prop
  | count : g.leaves.length ≠ (p.shape g.kind).capacity →
      Misshapen p g (.slotCount g.kind (p.shape g.kind).capacity g.leaves.length)
  | width {i : Nat} {leaf : Leaf} {b : Bytes} : g.leaves.length = (p.shape g.kind).capacity →
      FirstAt (Leaf.MissesWidth (p.shape g.kind).leafSize) g.leaves i leaf → leaf.bytes? = some b →
      Misshapen p g (.slotWidth g.kind i (p.shape g.kind).leafSize b.length)

namespace View

variable {v : View} {p : Padding} {r : Registry} {e : ViewError}

theorem checkWidths_eq_error {kind : GroupKind} {size i : Nat} {leaves : List Leaf} :
    checkWidths kind size i leaves = .error e ↔ ∃ k leaf, FirstAt (Leaf.MissesWidth size) leaves k leaf ∧
      ∃ b, leaf.bytes? = some b ∧ e = .slotWidth kind (i + k) size b.length := by
  refine Except.error_of_steps (F := fun i leaf e => ∃ b, leaf.bytes? = some b ∧ e = .slotWidth kind i size b.length)
    (checkWidths kind size) (fun i e h => (by cases h)) fun i leaf rest e => ?_
  cases leaf with
  | hidden d => simp [checkWidths, Leaf.MissesWidth, Leaf.bytes?]
  | visible b n =>
    by_cases hb : b.length = size
    · simp [checkWidths, Leaf.MissesWidth, Leaf.bytes?, hb]
    · simp [checkWidths, Leaf.MissesWidth, Leaf.bytes?, hb, eq_comm (b := e)]

theorem checkGroup_eq_error {g : ViewGroup} : checkGroup p g = .error e ↔ g.Misshapen p e := by
  unfold checkGroup
  dsimp only
  split
  · rename_i hcount
    rw [checkWidths_eq_error]
    constructor
    · rintro ⟨k, leaf, hfirst, b, hb, rfl⟩
      rw [Nat.zero_add]
      exact .width hcount hfirst hb
    · rintro (hother | ⟨-, hfirst, hb⟩)
      · exact absurd hcount hother
      · exact ⟨_, _, hfirst, _, hb, by rw [Nat.zero_add]⟩
  · rename_i hcount
    constructor
    · intro h
      cases h
      exact .count hcount
    · rintro (_ | ⟨hsame, -, -⟩)
      · rfl
      · exact absurd hsame hcount

/-- The first group that has not the declared shape is reported. -/
theorem checkGroups_eq_error {gs : List ViewGroup} : checkGroups p gs = .error e ↔
    ∃ k g, FirstAt (fun g => ∃ e, g.Misshapen p e) gs k g ∧ g.Misshapen p e := by
  refine Except.error_of_steps (F := fun _ g e => g.Misshapen p e) (fun _ : Nat => checkGroups p)
    (fun i e h => (by cases h)) (i := 0) fun i g gs e => ?_
  rw [checkGroups, Except.bind_eq_error]
  simp only [← checkGroup_eq_error]
  constructor
  · rintro (h | ⟨_, hg, h⟩)
    · exact .inl ⟨⟨e, h⟩, h⟩
    · refine .inr ⟨?_, h⟩
      rintro ⟨e', he'⟩
      cases hg.symm.trans he'
  · rintro (⟨-, h⟩ | ⟨hg, h⟩)
    · exact .inl h
    · rw [Except.exists_error_iff, not_not] at hg
      obtain ⟨a, ha⟩ := hg
      exact .inr ⟨a, ha, h⟩

theorem checkShape_eq_error : v.checkShape p = .error e ↔ v.Misordered e ∨
    v.Ordered ∧ ∃ k g, FirstAt (fun g => ∃ e, g.Misshapen p e) v.groups k g ∧ g.Misshapen p e := by
  unfold checkShape
  rw [Except.bind_eq_error, checkOrder_eq_error, checkGroups_eq_error, ← checkOrder_eq_ok]
  refine or_congr Iff.rfl ⟨fun ⟨_, horder, h⟩ => ⟨horder, h⟩, fun ⟨horder, h⟩ => ⟨(), horder, h⟩⟩

end View

/-! ## Pointers -/

def Leaf.Reads (r : Registry) (leaf : Leaf) : Prop :=
  ∃ b, leaf.bytes? = some b ∧ (Group.isFiller b = true ∨ ∃ q, r.deserializeComponent StatePointer b = .ok q)

/-- The leaf in slot `i` is hidden, or it is neither filler nor a pointer. -/
inductive Leaf.Unread (r : Registry) (kind : GroupKind) (i : Nat) : Leaf → ViewError → Prop
  | hidden {d : Digest} : Unread r kind i (.hidden d) (.undisclosed kind i)
  | unreadable {b : Bytes} {n : Nonce} {cause : RegistryError} : Group.isFiller b = false →
      r.deserializeComponent StatePointer b = .error cause → Unread r kind i (.visible b n) (.registry cause)

namespace View

/-- There is no group at the place of the kind and the groups are not nine, or a slot of the
    group is the first that is hidden or cannot be read. -/
inductive Unread (v : View) (r : Registry) (kind : GroupKind) : ViewError → Prop
  | absent : v.groups.length ≠ 9 → v.group? kind = none → Unread v r kind (.groupCount 9 v.groups.length)
  | leaf {g : ViewGroup} {i : Nat} {leaf : Leaf} {e : ViewError} : v.group? kind = some g →
      FirstAt (fun leaf => ¬leaf.Reads r) g.leaves i leaf → leaf.Unread r kind i e → Unread v r kind e

variable {v : View} {p : Padding} {r : Registry} {kind : GroupKind} {e : ViewError}

theorem readPointers_eq_error {i : Nat} {leaves : List Leaf} : readPointers kind r i leaves = .error e ↔
    ∃ k leaf, FirstAt (fun leaf => ¬leaf.Reads r) leaves k leaf ∧ leaf.Unread r kind (i + k) e := by
  refine Except.error_of_steps (F := fun i leaf e => leaf.Unread r kind i e) (readPointers kind r)
    (fun i e h => (by cases h)) fun i leaf rest e => ?_
  cases leaf with
  | hidden d =>
    have hunread : ¬(Leaf.hidden d).Reads r := fun ⟨_, hb, _⟩ => (by cases hb)
    rw [readPointers]
    constructor
    · intro h
      cases h
      exact .inl ⟨hunread, .hidden⟩
    · rintro (⟨-, ⟨⟩⟩ | ⟨hreads, -⟩)
      · rfl
      · exact absurd hunread hreads
  | visible b n =>
    rw [readPointers]
    split
    · rename_i hfiller
      have hreads : (Leaf.visible b n).Reads r := ⟨b, rfl, .inl hfiller⟩
      simp [hreads]
    · rename_i hcontent
      rw [Bool.not_eq_true] at hcontent
      simp only [Except.bind_eq_error, Except.mapError_eq_error, Except.mapError_eq_ok]
      cases hq : r.deserializeComponent StatePointer b with
      | ok q =>
        have hreads : (Leaf.visible b n).Reads r := ⟨b, rfl, .inr ⟨q, hq⟩⟩
        simp [hreads, pure, Except.pure]
      | error cause =>
        have hunread : ¬(Leaf.visible b n).Reads r := by
          rintro ⟨_, hb, hfiller | ⟨q, hok⟩⟩
          · cases hb
            cases hcontent.symm.trans hfiller
          · cases hb
            cases hq.symm.trans hok
        simp only [hunread, not_false_eq_true, true_and, not_true_eq_false, false_and, or_false]
        constructor
        · rintro (⟨_, ⟨⟩, rfl⟩ | ⟨_, ⟨⟩, -⟩)
          exact .unreadable hcontent hq
        · intro h
          cases h with
          | unreadable _ hcause => exact .inl ⟨_, hq.symm.trans hcause, rfl⟩

/-- Whoever looks for a group and does not find it is told how many there are. -/
theorem pointersOf_eq_error : v.pointersOf kind r = .error e ↔
    (v.group? kind = none ∧ e = .groupCount 9 v.groups.length) ∨
    ∃ g, v.group? kind = some g ∧ ∃ i leaf, FirstAt (fun leaf => ¬leaf.Reads r) g.leaves i leaf ∧
      leaf.Unread r kind i e := by
  unfold pointersOf
  cases v.group? kind with
  | none => simp [eq_comm]
  | some g => simp [readPointers_eq_error]

/-- What is said of the pointers of a kind is right, unless there are nine groups and another one
    stands at the place of the kind. -/
theorem pointersOf_truthful (hplace : v.groups.length = 9 → ∃ g, v.group? kind = some g) :
    v.pointersOf kind r = .error e ↔ v.Unread r kind e := by
  rw [pointersOf_eq_error]
  constructor
  · rintro (⟨hnone, rfl⟩ | ⟨g, hg, i, leaf, hfirst, hleaf⟩)
    · refine .absent (fun hnine => ?_) hnone
      obtain ⟨g, hg⟩ := hplace hnine
      cases hg.symm.trans hnone
    · exact .leaf hg hfirst hleaf
  · rintro (⟨-, hnone⟩ | ⟨hg, hfirst, hleaf⟩)
    · exact .inl ⟨hnone, rfl⟩
    · exact .inr ⟨_, hg, _, _, hfirst, hleaf⟩

theorem pointers_eq_error : v.pointers r = .error e ↔ v.pointersOf .inputs r = .error e ∨
    (∃ qs, v.pointersOf .inputs r = .ok qs) ∧ v.pointersOf .references r = .error e := by
  unfold pointers
  simp only [Except.bind_eq_error, pure, Except.pure, reduceCtorEq, and_false, exists_false, or_false,
    exists_and_right]

/-! ## Errors -/

section
variable [Hasher]

theorem root_eq_error : v.root = .error e ↔ v.Misordered e := by
  unfold root
  simp [Except.bind_eq_error, checkOrder_eq_error, pure, Except.pure]

theorem verify_eq_error {claimed : TransactionId} : v.verify claimed = .error e ↔ v.Misordered e ∨
    v.Ordered ∧ transactionRoot v.groupRoots ≠ claimed ∧ e = .rootMismatch claimed (transactionRoot v.groupRoots) := by
  unfold verify
  rw [Except.bind_eq_error, root_eq_error]
  refine or_congr Iff.rfl ?_
  constructor
  · rintro ⟨computed, hroot, h⟩
    obtain ⟨hordered, rfl⟩ := root_eq_ok.mp hroot
    split at h
    · cases h
    · rename_i hne
      cases h
      exact ⟨hordered, hne, rfl⟩
  · rintro ⟨hordered, hne, rfl⟩
    exact ⟨_, root_eq_ok.mpr ⟨hordered, rfl⟩, if_neg hne⟩

/-- Whatever the groups of a view, each error is reported exactly where its fact holds, and the
    shape of a view is accepted exactly if there is nothing to report. A wrong number of groups
    is reported to the reader of pointers also if there are nine and the group of the kind is not
    at its place. -/
theorem errors_truthful (v : View) (p : Padding) (r : Registry) (claimed : TransactionId) :
    (∀ e, v.root = .error e ↔ v.Misordered e) ∧
    (∀ e, v.verify claimed = .error e ↔ v.Misordered e ∨ v.Ordered ∧ transactionRoot v.groupRoots ≠ claimed ∧
      e = .rootMismatch claimed (transactionRoot v.groupRoots)) ∧
    (∀ e, v.checkShape p = .error e ↔ v.Misordered e ∨
      v.Ordered ∧ ∃ i g, FirstAt (fun g => ∃ e, g.Misshapen p e) v.groups i g ∧ g.Misshapen p e) ∧
    (v.checkShape p = .ok () ↔ v.Shaped p) ∧
    (∀ kind, (v.groups.length = 9 → ∃ g, v.group? kind = some g) →
      ∀ e, v.pointersOf kind r = .error e ↔ v.Unread r kind e) ∧
    ∀ e, v.pointers r = .error e ↔ v.pointersOf .inputs r = .error e ∨
      (∃ qs, v.pointersOf .inputs r = .ok qs) ∧ v.pointersOf .references r = .error e :=
  ⟨fun _ => root_eq_error, fun _ => verify_eq_error, fun _ => checkShape_eq_error, checkShape_eq_ok,
    fun _ hplace _ => pointersOf_truthful hplace, fun _ => pointers_eq_error⟩

end

/-! ## A group that is called another -/

/-- Nine groups without slots but for one hidden reference, the first of them called outputs. -/
def misnamed : View :=
  ⟨GroupKind.all.map fun kind =>
    ⟨if kind = .inputs then .outputs else kind, if kind = .references then [.hidden .zero] else []⟩⟩

/-- The order is reported to whoever rebuilds the id, and the hidden reference to whoever reads
    the references. -/
theorem misnamed_reported : misnamed.root = .error (.groupOrder 0 .inputs .outputs) ∧
    misnamed.Misordered (.groupOrder 0 .inputs .outputs) ∧
    (misnamed.groups.length = 9 → ∃ g, misnamed.group? .references = some g) ∧
    misnamed.pointersOf .references .builtin = .error (.undisclosed .references 0) ∧
    misnamed.Unread .builtin .references (.undisclosed .references 0) := by
  obtain ⟨hroot, -, -, -, hpointers, -⟩ := errors_truthful misnamed .standard .builtin .zero
  have horder : misnamed.root = .error (.groupOrder 0 .inputs .outputs) := rfl
  have hplace : misnamed.groups.length = 9 → ∃ g, misnamed.group? .references = some g := fun _ => ⟨_, rfl⟩
  have hhidden : misnamed.pointersOf .references .builtin = .error (.undisclosed .references 0) := rfl
  exact ⟨horder, (hroot _).mp horder, hplace, hhidden, (hpointers .references hplace _).mp hhidden⟩

/-- There are nine groups, and whoever reads the inputs is told that nine are expected and there
    are nine. -/
theorem misplaced_group_miscounted : misnamed.groups.length = 9 ∧
    misnamed.checkOrder = .error (.groupOrder 0 .inputs .outputs) ∧
    misnamed.pointersOf .inputs .builtin = .error (.groupCount 9 9) ∧
    ¬∀ v : View, ∀ kind r expected actual, v.pointersOf kind r = .error (.groupCount expected actual) →
      v.groups.length = actual ∧ actual ≠ expected := by
  have hcount : misnamed.pointersOf .inputs .builtin = .error (.groupCount 9 9) := rfl
  exact ⟨rfl, rfl, hcount, fun h => (h _ _ _ _ _ hcount).2 rfl⟩

end View

end VeiledLedger
