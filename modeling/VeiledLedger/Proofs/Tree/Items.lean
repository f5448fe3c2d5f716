/-
  VeiledLedger.Proofs.Tree.Items — what the leaves of a built tree hold.

  A transaction has a list of items for each group, and components are items like any other
  value. The leaves of a group are its items as the registry writes them, padded to the slot
  width, and then filler; the nonces follow from the salt and the place of each slot.

  Main statements: `Tree.buildGroup_eq_ok`, `Tree.group?_of_build`, `Transaction.eq_of_items`.
-/

import VeiledLedger.Proofs.Collision
import VeiledLedger.Proofs.Registry
import VeiledLedger.Proofs.Tree

namespace VeiledLedger

namespace Transaction

/-! ## Items -/

def items (tx : Transaction) : GroupKind → List TypedValue
  | .inputs => tx.inputs.map .ofComponent
  | .outputs => tx.outputs
  | .commands => tx.commands
  | .attachments => tx.attachments.map .ofComponent
  | .notary => tx.notary.toList.map .ofComponent
  | .timeWindow => tx.timeWindow.toList.map .ofComponent
  | .signers => tx.signers.map .ofComponent
  | .references => tx.references.map .ofComponent
  | .parameters => tx.parameters.toList.map .ofComponent

theorem ofComponent_injective (α : Type) [Component α] :
    Function.Injective (TypedValue.ofComponent : α → TypedValue) := by
  intro c d h
  have hvalue := congrArg (fun v => (Component.ofValue? v.value : Option α)) h
  simpa only [TypedValue.ofComponent, Component.ofValue?_toValue, Option.some.injEq] using hvalue

theorem toList_injective {α : Type} : Function.Injective (Option.toList : Option α → List α) := by
  intro a b h
  cases a <;> cases b <;> simp_all

/-- Nothing else is in a transaction. -/
theorem eq_of_items {tx tx' : Transaction} (h : ∀ kind, tx.items kind = tx'.items kind) (hsalt : tx.salt = tx'.salt) :
    tx = tx' := by
  have list {α : Type} [Component α] {cs ds : List α} (he : cs.map TypedValue.ofComponent = ds.map .ofComponent) :
      cs = ds :=
    List.map_injective_iff.mpr (ofComponent_injective α) he
  have option {α : Type} [Component α] {c d : Option α}
      (he : c.toList.map TypedValue.ofComponent = d.toList.map .ofComponent) : c = d :=
    toList_injective (list he)
  cases tx
  cases tx'
  congr
  · exact list (h .inputs)
  · exact h .outputs
  · exact h .commands
  · exact list (h .attachments)
  · exact option (h .notary)
  · exact option (h .timeWindow)
  · exact list (h .signers)
  · exact list (h .references)
  · exact option (h .parameters)

variable {r : Registry} {kind : GroupKind}

theorem serializeItems_eq_ok {α : Type} {serialize : String → α → Except RegistryError Bytes} {item : α → TypedValue}
    (hs : ∀ path x b, serialize path x = .ok b ↔ r.Writes (item x) b) {i : Nat} {xs : List α} {bs : List Bytes} :
    serializeItems serialize kind i xs = .ok bs ↔ List.Forall₂ r.Writes (xs.map item) bs := by
  rw [List.forall₂_map_left_iff]
  refine Except.forall₂_of_steps (serializeItems serialize kind) (fun i => rfl) fun i x xs bs => ?_
  rw [serializeItems]
  simp only [Except.bind_eq_ok, hs]
  constructor
  · rintro ⟨b, hb, rest, hrest, he⟩
    cases he
    exact ⟨b, rest, hb, hrest, rfl⟩
  · rintro ⟨b, rest, hb, hrest, rfl⟩
    exact ⟨b, hb, rest, hrest, rfl⟩

theorem components_eq_ok {tx : Transaction} {bs : List Bytes} :
    tx.components r kind = .ok bs ↔ List.Forall₂ r.Writes (tx.items kind) bs := by
  have values {i : Nat} {vs : List TypedValue} :
      serializeItems r.serializeAt kind i vs = .ok bs ↔ List.Forall₂ r.Writes vs bs := by
    have hs (path : String) (v : TypedValue) (b : Bytes) : r.serializeAt path v = .ok b ↔ r.Writes (id v) b :=
      Registry.serializeAt_eq_ok
    rw [serializeItems_eq_ok hs, List.map_id]
  have parts {α : Type} [Component α] {i : Nat} {cs : List α} :
      serializeItems r.serializeComponent kind i cs = .ok bs ↔ List.Forall₂ r.Writes (cs.map .ofComponent) bs := by
    have hs (path : String) (c : α) (b : Bytes) : r.serializeComponent path c = .ok b ↔ r.Writes (.ofComponent c) b :=
      Registry.serializeAt_eq_ok
    exact serializeItems_eq_ok hs
  cases kind with
  | outputs | commands => exact values
  | inputs | attachments | notary | timeWindow | signers | references | parameters => exact parts

end Transaction

/-! ## Leaves -/

namespace Group

def fill (shape : Shape) (components : List Bytes) : List Bytes :=
  components.map (Bytes.padTo shape.leafSize) ++
    List.replicate (shape.capacity - components.length) (Bytes.zeros shape.leafSize)

/-- A group is built exactly if it has a slot for each component, and each slot the room. -/
theorem build_eq_ok [Hasher] {kind : GroupKind} {components : List Bytes} {shape : Shape} {salt : Bytes} {g : Group} :
    build kind components shape salt = .ok g ↔
      components.length ≤ shape.capacity ∧ (∀ b ∈ components, b.length ≤ shape.leafSize) ∧
        g = ofLeaves kind (fill shape components) components.length salt := by
  unfold build
  split
  · rename_i hcap
    exact ⟨fun h => (by cases h), fun h => absurd h.1 (Nat.not_le.mpr hcap)⟩
  · rename_i hcap
    simp only [Except.bind_eq_ok, padLeaves_eq_ok, Bytes.copies_eq_replicate]
    constructor
    · rintro ⟨_, ⟨hwidth, rfl⟩, h⟩
      cases h
      exact ⟨Nat.not_lt.mp hcap, hwidth, rfl⟩
    · rintro ⟨-, hwidth, rfl⟩
      exact ⟨_, ⟨hwidth, rfl⟩, rfl⟩

end Group

namespace Tree

variable [Hasher] {tx : Transaction} {r : Registry} {p : Padding}

theorem buildGroups_eq_ok {kinds : List GroupKind} {groups : List Group} :
    buildGroups tx r p kinds = .ok groups ↔
      List.Forall₂ (fun kind g => buildGroup tx r p kind = .ok g) kinds groups := by
  refine Except.forall₂_of_steps (fun _ => buildGroups tx r p) (i := 0) (fun i => rfl) fun i kind kinds groups => ?_
  simp only [buildGroups, Except.bind_eq_ok]
  constructor
  · rintro ⟨g, hg, rest, hrest, he⟩
    cases he
    exact ⟨g, rest, hg, hrest, rfl⟩
  · rintro ⟨g, rest, hg, hrest, rfl⟩
    exact ⟨g, hg, rest, hrest, rfl⟩

theorem buildGroup_eq_ok {kind : GroupKind} {g : Group} : buildGroup tx r p kind = .ok g ↔
    ∃ bs, List.Forall₂ r.Writes (tx.items kind) bs ∧ bs.length ≤ (p.shape kind).capacity ∧
      (∀ b ∈ bs, b.length ≤ (p.shape kind).leafSize) ∧
      g = .ofLeaves kind (Group.fill (p.shape kind) bs) bs.length tx.salt.bytes.toBytes := by
  unfold buildGroup
  simp only [Except.bind_eq_ok, Except.mapError_eq_ok, Transaction.components_eq_ok, Group.build_eq_ok]

theorem exists_group?_of_build {t : Tree} (h : build tx r p = .ok t) (kind : GroupKind) :
    ∃ g, t.group? kind = some g ∧ buildGroup tx r p kind = .ok g := by
  obtain ⟨groups, hgroups, ht⟩ := Except.bind_eq_ok.mp h
  cases ht
  exact exists_getElem? (buildGroups_eq_ok.mp hgroups) kind.all_getElem?_index

/-- Each group of a built tree holds the items of the transaction and nothing else. -/
theorem group?_of_build {t : Tree} (h : build tx r p = .ok t) (kind : GroupKind) :
    ∃ bs, List.Forall₂ r.Writes (tx.items kind) bs ∧ bs.length ≤ (p.shape kind).capacity ∧
      t.group? kind = some (.ofLeaves kind (Group.fill (p.shape kind) bs) bs.length tx.salt.bytes.toBytes) := by
  obtain ⟨g, hg, hbuild⟩ := exists_group?_of_build h kind
  obtain ⟨bs, hbs, hcap, -, rfl⟩ := buildGroup_eq_ok.mp hbuild
  exact ⟨bs, hbs, hcap, hg⟩

theorem items_fit {t : Tree} (h : build tx r p = .ok t) (kind : GroupKind) :
    (tx.items kind).length ≤ (p.shape kind).capacity := by
  obtain ⟨bs, hbs, hcap, -⟩ := group?_of_build h kind
  rw [hbs.length_eq]
  exact hcap

end Tree

end VeiledLedger
