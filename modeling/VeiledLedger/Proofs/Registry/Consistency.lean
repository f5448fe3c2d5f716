/-
  VeiledLedger.Proofs.Registry.Consistency — what holds of a registry after any additions.

  Types and version families are asked to be added one after another, and some of them are
  refused. A refused addition changes nothing. An accepted one puts new registrations behind
  the old ones, and none of them has a name or an id that was taken. So every look-up that
  found something finds the same for ever (`Grows`), and what the five lists of a registry say
  about each other is kept by each addition (`Consistent`):

  - no two registrations share a name or an id, no two families a marker, and no version has
    two conversions;
  - the commands are those between neighbours of the families, in the families' order, and
    each of them is registered;
  - each type is a builtin one, was asked for, or is a version or a command (`Origin`).

  What an accepted family puts in is `Addition.Held`: its versions in upgrade order under ids
  that count up, and for each but the first the conversion from the one before it.

  Main statement: `additions_consistent`.
-/

import Mathlib.Data.List.Induction
import VeiledLedger.Digest.Sha256
import VeiledLedger.Proofs.Registry
import VeiledLedger.Proofs.Registry.UpgradeOrder

namespace VeiledLedger

namespace Registry

inductive Addition where
  | type (name : String) (id : TypeId) (layout : Layout)
  | family (family : VersionFamily) (first : TypeId)

section
variable [Hasher]

def Addition.outcome (r : Registry) : Addition → Except RegistryError Registry
  | .type name id layout => r.register name id layout
  | .family f first => r.registerFamily f first

/-- A refused addition leaves the registry as it was. -/
def add (r : Registry) (a : Addition) : Registry :=
  match a.outcome r with
  | .ok r' => r'
  | .error _ => r

def afterAdditions (as : List Addition) : Registry := as.foldl add builtin

/-- Whether `a` is accepted once the additions before it have been asked for. -/
def Addition.Accepted (before : List Addition) (a : Addition) : Prop :=
  ∃ r, a.outcome (afterAdditions before) = .ok r

instance (before : List Addition) (a : Addition) : Decidable (a.Accepted before) :=
  match h : a.outcome (afterAdditions before) with
  | .ok r => .isTrue ⟨r, h⟩
  | .error _ => .isFalse fun ⟨_, hr⟩ => by rw [h] at hr; cases hr

theorem add_of_ok {r r' : Registry} {a : Addition} (h : a.outcome r = .ok r') : r.add a = r' := by
  simp only [add, h]

theorem add_of_error {r : Registry} {a : Addition} {e : RegistryError} (h : a.outcome r = .error e) : r.add a = r := by
  simp only [add, h]

theorem afterAdditions_concat (as : List Addition) (a : Addition) :
    afterAdditions (as ++ [a]) = (afterAdditions as).add a := by
  rw [afterAdditions, List.foldl_append]
  rfl

/-- What holds at first and is kept by every accepted addition holds after any additions. -/
theorem afterAdditions_induction {P : Registry → Prop} (hbuiltin : P builtin)
    (hkept : ∀ {r r' : Registry} {a : Addition}, P r → a.outcome r = .ok r' → P r') (as : List Addition) :
    P (afterAdditions as) := by
  induction as using List.reverseRecOn with
  | nil => exact hbuiltin
  | append_singleton as a ih =>
    rw [afterAdditions_concat]
    cases houtcome : a.outcome (afterAdditions as) with
    | error e =>
      rw [add_of_error houtcome]
      exact ih
    | ok r =>
      rw [add_of_ok houtcome]
      exact hkept ih houtcome

end

/-! ## One name, one id -/

theorem nodup_map_concat {α β : Type} [DecidableEq β] {key : α → β} {l : List α} {x : α} (h : (l.map key).Nodup)
    (hx : l.find? (fun y => key y = key x) = none) : ((l ++ [x]).map key).Nodup := by
  rw [← List.concat_eq_append, List.map_concat]
  refine (List.nodup_concat _ _).mpr ⟨fun hmem => ?_, h⟩
  obtain ⟨y, hy, hsame⟩ := List.mem_map.mp hmem
  simpa [hsame] using List.find?_eq_none.mp hx y hy

structure Distinct (types : List Registration) : Prop where
  names : (types.map (·.name)).Nodup
  ids : (types.map (·.id)).Nodup

theorem Distinct.concat {types types' : List Registration} {new : Registration} (h : Distinct types)
    (hok : insert types new = .ok types') : Distinct types' := by
  unfold insert at hok
  split at hok
  · cases hok
  · rename_i hname
    split at hok
    · cases hok
    · rename_i hid
      cases hok
      exact ⟨nodup_map_concat h.names hname, nodup_map_concat h.ids hid⟩

theorem Distinct.insertAll {types types' news : List Registration} (h : Distinct types)
    (hok : insertAll types news = .ok types') : Distinct types' := by
  induction news generalizing types with
  | nil =>
    cases hok
    exact h
  | cons new news ih =>
    obtain ⟨next, hnext, hrest⟩ := Except.bind_eq_ok.mp hok
    exact ih (h.concat hnext) hrest

/-! ## What an addition puts in -/

def memberType (marker : String) (first : TypeId) (k : Nat) (m : VersionedType) : Registration :=
  ⟨m.name, UInt32.ofNat (first.toNat + k), m.layout, some (marker, k)⟩

/-- The versions of a chain, place by place. Their ids are no reserved ones and do not run past the last. -/
theorem versionTypes_eq {marker : String} {first : TypeId} {k : Nat} {ms : List VersionedType}
    {versions : List Registration} (h : versionTypes marker first k ms = .ok versions) :
    (∀ i < ms.length, first.toNat + (k + i) < 2 ^ 32 ∧ reservedIds < UInt32.ofNat (first.toNat + (k + i))) ∧
      versions = ms.mapIdx fun i => memberType marker first (k + i) := by
  induction ms generalizing k versions with
  | nil =>
    cases h
    exact ⟨fun i hi => absurd hi (Nat.not_lt_zero i), rfl⟩
  | cons m ms ih =>
    unfold versionTypes at h
    split at h
    · cases h
    rename_i hfits
    dsimp only at h
    split at h
    · cases h
    rename_i hfree
    obtain ⟨rest, hrest, hv⟩ := Except.bind_eq_ok.mp h
    cases hv
    obtain ⟨hids, rfl⟩ := ih hrest
    refine ⟨fun i hi => ?_, ?_⟩
    · cases i with
      | zero => exact ⟨Nat.not_le.mp hfits, UInt32.not_le.mp hfree⟩
      | succ i =>
        rw [Nat.add_comm i, ← Nat.add_assoc k]
        exact hids i (Nat.lt_of_succ_lt_succ hi)
    · rw [List.mapIdx_cons]
      simp only [Nat.add_assoc, Nat.add_comm 1]
      rfl

section
variable {marker : String} {first : TypeId} {ms : List VersionedType} {versions : List Registration}

theorem versions_eq (h : versionTypes marker first 0 ms = .ok versions) :
    (∀ i < ms.length, first.toNat + i < 2 ^ 32 ∧ reservedIds < UInt32.ofNat (first.toNat + i)) ∧
      versions = ms.mapIdx (memberType marker first) := by
  simpa only [Nat.zero_add] using versionTypes_eq h

theorem names_versions (h : versionTypes marker first 0 ms = .ok versions) :
    versions.map (·.name) = ms.map (·.name) := by
  rw [(versions_eq h).2]
  refine List.ext_getElem (by simp) fun i _ _ => ?_
  simp only [List.getElem_map, List.getElem_mapIdx]
  rfl

end

section
variable [Hasher]

def commandsBetween (names : List String) : List UpgradeCommand :=
  (names.zip names.tail).flatMap fun (source, target) => UpgradeVisibility.all.map (UpgradeCommand.make source target)

theorem chainCommands_eq (chain : List VersionedType) : chainCommands chain = commandsBetween (chain.map (·.name)) := by
  match chain with
  | [] => rfl
  | [_] => rfl
  | a :: b :: rest =>
    show _ ++ chainCommands (b :: rest) = _
    rw [chainCommands_eq (b :: rest)]
    rfl

theorem id_of_mem_commandsBetween {names : List String} {c : UpgradeCommand} (h : c ∈ commandsBetween names) :
    c.id = TypeName.stableId c.name := by
  obtain ⟨_, -, h⟩ := List.mem_flatMap.mp h
  obtain ⟨_, -, rfl⟩ := List.mem_map.mp h
  rfl

omit [Hasher] in
theorem register_inv {r r' : Registry} {name : String} {id : TypeId} {layout : Layout}
    (h : r.register name id layout = .ok r') :
    ∃ types, insertAll r.types [⟨name, id, layout, none⟩] = .ok types ∧ r' = { r with types } := by
  unfold register at h
  split at h
  · cases h
  · obtain ⟨types, htypes, hr⟩ := Except.bind_eq_ok.mp h
    cases hr
    exact ⟨types, htypes, rfl⟩

omit [Hasher] in
theorem reserved_lt_of_register {r r' : Registry} {name : String} {id : TypeId} {layout : Layout}
    (h : r.register name id layout = .ok r') : reservedIds < id := by
  unfold register at h
  split at h
  · cases h
  · rename_i hid
    exact UInt32.not_le.mp hid

def conversionsOf (chain : List VersionedType) : List (String × String × Conversion) :=
  chain.filterMap fun m => m.upgradesFrom.map fun u => (m.name, u)

theorem registerFamily_inv {r r' : Registry} {f : VersionFamily} {first : TypeId}
    (h : r.registerFamily f first = .ok r') :
    f.marker ∉ r.families.map (·.1) ∧
    ∃ chain versions types, f.ordered = .ok chain ∧ versionTypes f.marker first 0 chain = .ok versions ∧
      insertAll r.types (versions ++ (chainCommands chain).map commandType) = .ok types ∧
      r' = ⟨types, r.conversions ++ conversionsOf chain, r.families ++ [(f.marker, chain.map (·.name))],
        r.commands ++ chainCommands chain⟩ := by
  unfold registerFamily at h
  split at h
  · cases h
  rename_i hnew
  obtain ⟨chain, hchain, h⟩ := Except.bind_eq_ok.mp h
  obtain ⟨versions, hversions, h⟩ := Except.bind_eq_ok.mp h
  obtain ⟨types, htypes, h⟩ := Except.bind_eq_ok.mp h
  cases h
  exact ⟨fun hmem => hnew (List.contains_iff_mem.mpr hmem), chain, versions, types, hchain, hversions, htypes, rfl⟩

/-! ## Additions only append -/

structure Grows (r r' : Registry) : Prop where
  types : r.types <+: r'.types
  conversions : r.conversions <+: r'.conversions
  families : r.families <+: r'.families

omit [Hasher] in
theorem Grows.refl (r : Registry) : r.Grows r := ⟨List.prefix_rfl, List.prefix_rfl, List.prefix_rfl⟩

omit [Hasher] in
theorem Grows.trans {r s t : Registry} (h : r.Grows s) (h' : s.Grows t) : r.Grows t :=
  ⟨h.types.trans h'.types, h.conversions.trans h'.conversions, h.families.trans h'.families⟩

theorem grows_add (r : Registry) (a : Addition) : r.Grows (r.add a) := by
  cases houtcome : a.outcome r with
  | error e =>
    rw [add_of_error houtcome]
    exact .refl r
  | ok r' =>
    rw [add_of_ok houtcome]
    cases a with
    | type name id layout =>
      obtain ⟨types, htypes, rfl⟩ := register_inv houtcome
      exact ⟨⟨_, (insertAll_eq_ok htypes).symm⟩, List.prefix_rfl, List.prefix_rfl⟩
    | family f first =>
      obtain ⟨-, chain, versions, types, -, -, htypes, rfl⟩ := registerFamily_inv houtcome
      exact ⟨⟨_, (insertAll_eq_ok htypes).symm⟩, List.prefix_append .., List.prefix_append ..⟩

theorem grows_afterAdditions (before later : List Addition) :
    (afterAdditions before).Grows (afterAdditions (before ++ later)) := by
  induction later using List.reverseRecOn with
  | nil =>
    rw [List.append_nil]
    exact .refl _
  | append_singleton later a ih =>
    rw [← List.append_assoc, afterAdditions_concat]
    exact ih.trans (grows_add _ a)

inductive Addition.Held (r : Registry) : Addition → Prop
  | type {name : String} {id : TypeId} {layout : Layout} : ⟨name, id, layout, none⟩ ∈ r.types → Held r (.type name id layout)
  | family {f : VersionFamily} {first : TypeId} {chain : List VersionedType} : f.ordered = .ok chain →
      (f.marker, chain.map (·.name)) ∈ r.families →
      (∀ (k : Nat) m, chain[k]? = some m → first.toNat + k < 2 ^ 32 ∧ memberType f.marker first k m ∈ r.types) →
      (∀ m ∈ chain, ∀ u, m.upgradesFrom = some u → (m.name, u) ∈ r.conversions) → Held r (.family f first)

omit [Hasher] in
theorem Addition.Held.grows {r r' : Registry} {a : Addition} (h : a.Held r) (hg : r.Grows r') : a.Held r' := by
  cases h with
  | type hmem => exact .type (hg.types.subset hmem)
  | family hordered hlisted hmember hconverted =>
    refine .family hordered (hg.families.subset hlisted) (fun k m hm => ?_) fun m hm u hu => ?_
    · exact ⟨(hmember k m hm).1, hg.types.subset (hmember k m hm).2⟩
    · exact hg.conversions.subset (hconverted m hm u hu)

theorem Addition.held {r r' : Registry} {a : Addition} (h : a.outcome r = .ok r') : a.Held r' := by
  cases a with
  | type name id layout =>
    obtain ⟨types, htypes, rfl⟩ := register_inv h
    refine .type ?_
    rw [insertAll_eq_ok htypes]
    exact List.mem_append_right _ (List.mem_singleton.mpr rfl)
  | family f first =>
    obtain ⟨-, chain, versions, types, hordered, hversions, htypes, rfl⟩ := registerFamily_inv h
    refine .family hordered (List.mem_append_right _ (List.mem_singleton.mpr rfl)) (fun k m hm => ?_) fun m hm u hu => ?_
    · obtain ⟨hids, rfl⟩ := versions_eq hversions
      obtain ⟨hk, rfl⟩ := List.getElem?_eq_some_iff.mp hm
      refine ⟨(hids k hk).1, ?_⟩
      rw [insertAll_eq_ok htypes]
      exact List.mem_append_right _ (List.mem_append_left _ (List.mem_mapIdx.mpr ⟨k, hk, rfl⟩))
    · refine List.mem_append_right _ (List.mem_filterMap.mpr ⟨m, hm, ?_⟩)
      rw [hu]
      rfl

/-- So an accepted addition is there for ever. -/
theorem Addition.Accepted.held {before : List Addition} {a : Addition} (h : a.Accepted before) (later : List Addition) :
    a.Held (afterAdditions (before ++ a :: later)) := by
  obtain ⟨r, hr⟩ := h
  have hnow : a.Held (afterAdditions (before ++ [a])) := by
    rw [afterAdditions_concat, add_of_ok hr]
    exact Addition.held hr
  have hgrows := grows_afterAdditions (before ++ [a]) later
  rw [List.append_assoc, List.singleton_append] at hgrows
  exact hnow.grows hgrows

end

/-! ## What the lists of a registry say about each other -/

structure Consistent [Hasher] (r : Registry) : Prop where
  distinct : Distinct r.types
  markers : (r.families.map (·.1)).Nodup
  /-- No version has two conversions. -/
  targets : (r.conversions.map (·.1)).Nodup
  registered : ∀ c ∈ r.conversions, c.1 ∈ r.types.map (·.name)
  commands : r.commands = r.families.flatMap fun (_, names) => commandsBetween names
  commandTypes : ∀ c ∈ r.commands, commandType c ∈ r.types

theorem names_conversionsOf (chain : List VersionedType) :
    ((conversionsOf chain).map (·.1)).Sublist (chain.map (·.name)) := by
  induction chain with
  | nil => exact .slnil
  | cons m ms ih =>
    unfold conversionsOf at ih ⊢
    rw [List.filterMap_cons]
    cases m.upgradesFrom with
    | none => exact ih.cons _
    | some u => exact ih.cons_cons _

section
variable [Hasher]

theorem consistent_builtin : Consistent builtin where
  distinct := ⟨by decide, by decide⟩
  markers := .nil
  targets := .nil
  registered := fun _ h => by cases h
  commands := rfl
  commandTypes := fun _ h => by cases h

theorem Consistent.register {r r' : Registry} {name : String} {id : TypeId} {layout : Layout} (h : r.Consistent)
    (hok : r.register name id layout = .ok r') : r'.Consistent := by
  obtain ⟨types, htypes, rfl⟩ := register_inv hok
  have hgrows : r.types ⊆ types := by
    rw [insertAll_eq_ok htypes]
    exact List.subset_append_left ..
  exact { h with
    distinct := h.distinct.insertAll htypes
    registered := fun c hc => List.map_subset _ hgrows (h.registered c hc)
    commandTypes := fun c hc => hgrows (h.commandTypes c hc) }

theorem Consistent.registerFamily {r r' : Registry} {f : VersionFamily} {first : TypeId} (h : r.Consistent)
    (hok : r.registerFamily f first = .ok r') : r'.Consistent := by
  obtain ⟨hmarker, chain, versions, types, -, hversions, htypes, rfl⟩ := registerFamily_inv hok
  have hall := insertAll_eq_ok htypes
  have hdistinct := h.distinct.insertAll htypes
  have hnames : types.map (·.name) =
      r.types.map (·.name) ++ (chain.map (·.name) ++ ((chainCommands chain).map commandType).map (·.name)) := by
    rw [hall, List.map_append, List.map_append, names_versions hversions]
  have hfresh := hdistinct.names
  rw [hnames, List.nodup_append] at hfresh
  obtain ⟨-, hnew, hdisjoint⟩ := hfresh
  exact {
    distinct := hdistinct
    markers := by
      rw [List.map_append, List.map_singleton, ← List.concat_eq_append]
      exact (List.nodup_concat _ _).mpr ⟨hmarker, h.markers⟩
    targets := by
      -- the versions are new names, so none of them had a conversion before
      rw [List.map_append, List.nodup_append]
      refine ⟨h.targets, (names_conversionsOf chain).nodup (List.nodup_append.mp hnew).1, fun old hold new hnew' => ?_⟩
      obtain ⟨c, hc, rfl⟩ := List.mem_map.mp hold
      exact hdisjoint _ (h.registered c hc) _ (List.mem_append_left _ ((names_conversionsOf chain).subset hnew'))
    registered := fun c hc => by
      rw [hnames]
      rcases List.mem_append.mp hc with hc | hc
      · exact List.mem_append_left _ (h.registered c hc)
      · exact List.mem_append_right _
          (List.mem_append_left _ ((names_conversionsOf chain).subset (List.mem_map_of_mem hc)))
    commands := by
      rw [List.flatMap_append, ← h.commands, List.flatMap_singleton, chainCommands_eq]
    commandTypes := fun c hc => by
      rw [hall]
      rcases List.mem_append.mp hc with hc | hc
      · exact List.mem_append_left _ (h.commandTypes c hc)
      · exact List.mem_append_right _ (List.mem_append_right _ (List.mem_map_of_mem hc)) }

theorem Consistent.outcome {r r' : Registry} {a : Addition} (h : r.Consistent) (hok : a.outcome r = .ok r') :
    r'.Consistent := by
  cases a with
  | type name id layout => exact h.register hok
  | family f first => exact h.registerFamily hok

theorem consistent_afterAdditions (as : List Addition) : (afterAdditions as).Consistent :=
  afterAdditions_induction consistent_builtin Consistent.outcome as

theorem Consistent.id_of_mem_commands {r : Registry} (h : r.Consistent) {c : UpgradeCommand} (hc : c ∈ r.commands) :
    c.id = TypeName.stableId c.name := by
  rw [h.commands] at hc
  obtain ⟨_, -, hc⟩ := List.mem_flatMap.mp hc
  exact id_of_mem_commandsBetween hc

/-- Each family of a registry was asked for and accepted. -/
theorem accepted_of_mem_families {as : List Addition} {marker : String} {names : List String}
    (h : (marker, names) ∈ (afterAdditions as).families) :
    ∃ before f first later, as = before ++ .family f first :: later ∧ f.marker = marker ∧
      (Addition.family f first).Accepted before := by
  induction as using List.reverseRecOn with
  | nil => cases h
  | append_singleton as a ih =>
    have hold (h : (marker, names) ∈ (afterAdditions as).families) :
        ∃ before f first later, as ++ [a] = before ++ .family f first :: later ∧ f.marker = marker ∧
          (Addition.family f first).Accepted before := by
      obtain ⟨before, f, first, later, rfl, hmarker, haccepted⟩ := ih h
      exact ⟨before, f, first, later ++ [a], by simp, hmarker, haccepted⟩
    rw [afterAdditions_concat] at h
    cases houtcome : a.outcome (afterAdditions as) with
    | error e =>
      rw [add_of_error houtcome] at h
      exact hold h
    | ok r =>
      rw [add_of_ok houtcome] at h
      cases a with
      | type name id layout =>
        obtain ⟨types, -, rfl⟩ := register_inv houtcome
        exact hold h
      | family f first =>
        have haccepted : (Addition.family f first).Accepted as := ⟨r, houtcome⟩
        obtain ⟨-, chain, versions, types, -, -, -, rfl⟩ := registerFamily_inv houtcome
        rcases List.mem_append.mp h with h | h
        · exact hold h
        · cases List.mem_singleton.mp h
          exact ⟨as, f, first, [], rfl, rfl, haccepted⟩

end

/-! ## Where the types come from -/

/-- A type is a builtin one, was asked for by itself, is a version in its place in the chain of its
    family, or is that of a command. -/
inductive Origin (r : Registry) : Registration → Prop
  | builtin {t : Registration} : t ∈ builtin.types → Origin r t
  | type {name : String} {id : TypeId} {layout : Layout} : reservedIds < id → Origin r ⟨name, id, layout, none⟩
  | version {marker : String} {first : TypeId} {names : List String} {k : Nat} {m : VersionedType} :
      (marker, names) ∈ r.families → names[k]? = some m.name → reservedIds < (memberType marker first k m).id →
      Origin r (memberType marker first k m)
  | command {c : UpgradeCommand} : c ∈ r.commands → Origin r (commandType c)

theorem Origin.mono {r r' : Registry} {t : Registration} (h : r.Origin t) (hfamilies : r.families ⊆ r'.families)
    (hcommands : r.commands ⊆ r'.commands) : r'.Origin t := by
  cases h with
  | builtin hmem => exact .builtin hmem
  | type hid => exact .type hid
  | version hlisted hname hid => exact .version (hfamilies hlisted) hname hid
  | command hc => exact .command (hcommands hc)

section
variable [Hasher]

theorem origin_outcome {r r' : Registry} {a : Addition} (h : ∀ t ∈ r.types, r.Origin t)
    (hok : a.outcome r = .ok r') : ∀ t ∈ r'.types, r'.Origin t := by
  intro t ht
  cases a with
  | type name id layout =>
    obtain ⟨types, htypes, rfl⟩ := register_inv hok
    rw [insertAll_eq_ok htypes] at ht
    rcases List.mem_append.mp ht with ht | ht
    · exact (h t ht).mono (List.Subset.refl _) (List.Subset.refl _)
    · cases List.mem_singleton.mp ht
      exact .type (reserved_lt_of_register hok)
  | family f first =>
    obtain ⟨-, chain, versions, types, -, hversions, htypes, rfl⟩ := registerFamily_inv hok
    obtain ⟨hids, rfl⟩ := versions_eq hversions
    rw [insertAll_eq_ok htypes] at ht
    rcases List.mem_append.mp ht with ht | ht
    · exact (h t ht).mono (List.subset_append_left ..) (List.subset_append_left ..)
    rcases List.mem_append.mp ht with ht | ht
    · obtain ⟨k, hk, rfl⟩ := List.mem_mapIdx.mp ht
      refine .version (List.mem_append_right _ List.mem_cons_self) ?_ (hids k hk).2
      rw [List.getElem?_map, List.getElem?_eq_getElem hk]
      rfl
    · -- no id is compared with `reservedIds` here
      obtain ⟨c, hc, rfl⟩ := List.mem_map.mp ht
      exact .command (List.mem_append_right _ hc)

theorem origin_afterAdditions (as : List Addition) : ∀ t ∈ (afterAdditions as).types, (afterAdditions as).Origin t :=
  afterAdditions_induction (fun _ => .builtin) origin_outcome as

end

/-! ## What look-ups say -/

theorem identify_eq_ok {r : Registry} {name : String} {id : TypeId} :
    r.identify name = .ok id ↔ ∃ t, r.findName? name = some t ∧ t.id = id := by
  unfold identify
  cases r.findName? name <;> simp

section
variable [Hasher] {r : Registry}

theorem Consistent.lookup (h : r.Consistent) {id : TypeId} {t : Registration} :
    r.lookup id = .ok t ↔ t ∈ r.types ∧ t.id = id :=
  lookup_eq_ok.trans (find?_key_eq_some _ h.distinct.ids)

theorem Consistent.identify (h : r.Consistent) {name : String} {id : TypeId} :
    r.identify name = .ok id ↔ ∃ t ∈ r.types, t.name = name ∧ t.id = id := by
  rw [identify_eq_ok]
  unfold findName?
  simp only [find?_key_eq_some _ h.distinct.names, and_assoc]

theorem Consistent.family? (h : r.Consistent) {marker : String} {names : List String} :
    r.family? marker = some names ↔ (marker, names) ∈ r.families := by
  unfold Registry.family?
  rw [Option.map_eq_some_iff]
  constructor
  · rintro ⟨⟨_, _⟩, hfind, rfl⟩
    obtain ⟨hmem, rfl⟩ := (find?_key_eq_some _ h.markers).mp hfind
    exact hmem
  · exact fun hmem => ⟨_, (find?_key_eq_some _ h.markers).mpr ⟨hmem, rfl⟩, rfl⟩

theorem Consistent.conversion (h : r.Consistent) {target source : String} {convert : Conversion}
    (hmem : (target, source, convert) ∈ r.conversions) :
    r.conversions.find? (·.1 = target) = some (target, source, convert) :=
  (find?_key_eq_some _ h.targets).mpr ⟨hmem, rfl⟩

/-- A registration of `r` as it is found by its id and by its name. -/
def Finds (r : Registry) (t : Registration) : Prop := r.lookup t.id = .ok t ∧ r.identify t.name = .ok t.id

theorem Consistent.finds (h : r.Consistent) {t : Registration} (ht : t ∈ r.types) : r.Finds t :=
  ⟨h.lookup.mpr ⟨ht, rfl⟩, h.identify.mpr ⟨t, ht, rfl, rfl⟩⟩

def Addition.Found (r : Registry) : Addition → Prop
  | .type name id layout => r.Finds ⟨name, id, layout, none⟩
  | .family f first =>
    ∃ chain, f.ordered = .ok chain ∧ (∀ m ∈ f.members, m ∈ chain) ∧
      r.family? f.marker = some (chain.map (·.name)) ∧
      (∀ (k : Nat) m, chain[k]? = some m →
        ∃ id, id.toNat = first.toNat + k ∧ r.Finds ⟨m.name, id, m.layout, some (f.marker, k)⟩) ∧
      ∀ (k : Nat) source target, chain[k]? = some source → chain[k + 1]? = some target →
        ∃ convert, target.upgradesFrom = some (source.name, convert) ∧
          r.conversions.find? (·.1 = target.name) = some (target.name, source.name, convert)

theorem Addition.Held.found {a : Addition} (ha : a.Held r) (h : r.Consistent) : a.Found r := by
  cases ha with
  | type hmem => exact h.finds hmem
  | @family f first chain hordered hlisted hmember hconverted =>
    have horder := VersionFamily.upgradeOrder_of_ordered hordered
    refine ⟨chain, hordered, fun m hm => horder.all.mem_iff.mpr hm, h.family?.mpr hlisted, fun k m hm => ?_,
      fun k source target hs ht => ?_⟩
    · obtain ⟨hlt, hmem⟩ := hmember k m hm
      exact ⟨_, UInt32.toNat_ofNat_of_lt' hlt, h.finds hmem⟩
    · obtain ⟨hk, rfl⟩ := List.getElem?_eq_some_iff.mp ht
      obtain ⟨hk', rfl⟩ := List.getElem?_eq_some_iff.mp hs
      obtain ⟨⟨_, convert⟩, hu, rfl⟩ := Option.map_eq_some_iff.mp (List.isChain_iff_getElem.mp horder.upgrades k hk)
      exact ⟨convert, hu, h.conversion (hconverted _ (List.getElem_mem hk) _ hu)⟩

end

/-- A registry after any additions, accepted and refused ones. -/
theorem additions_consistent [Hasher] (as : List Addition) :
    let r := afterAdditions as
    -- names and ids are in one-to-one correspondence
    (∀ name id, r.identify name = .ok id → ∃ t, r.lookup id = .ok t ∧ t.name = name) ∧
    (∀ id t, r.lookup id = .ok t → r.identify t.name = .ok id) ∧
    -- what was there at first and what was accepted is found unchanged
    (∀ t ∈ builtin.types, r.Finds t) ∧
    (∀ before a later, as = before ++ a :: later → a.Accepted before → a.Found r) ∧
    -- each family was accepted under some first id, and its versions count up from there
    (∀ marker names, r.family? marker = some names →
      ∃ before f first later, as = before ++ .family f first :: later ∧ f.marker = marker ∧
        (Addition.family f first).Accepted before ∧
        ∀ (k : Nat) name, names[k]? = some name →
          (∃ id layout, id.toNat = first.toNat + k ∧ r.Finds ⟨name, id, layout, some (marker, k)⟩) ∧
          ∀ (j : Nat) source, k = j + 1 → names[j]? = some source →
            ∃ convert, r.conversions.find? (·.1 = name) = some (name, source, convert)) ∧
    -- the commands are three for each two neighbours of a family
    r.commands = r.families.flatMap (fun (_, names) => commandsBetween names) ∧
    ∀ c ∈ r.commands, c.id = TypeName.stableId c.name ∧ r.Finds ⟨c.name, c.id, .struct [], none⟩ := by
  intro r
  have h : r.Consistent := consistent_afterAdditions as
  have hfound before (a : Addition) later (he : as = before ++ a :: later) (ha : a.Accepted before) : a.Found r := by
    subst he
    exact (ha.held later).found h
  refine ⟨fun name id hid => ?_, fun id t ht => ?_, fun t ht => ?_, hfound, fun marker names hfamily => ?_, h.commands,
    fun c hc => ⟨h.id_of_mem_commands hc, h.finds (h.commandTypes c hc)⟩⟩
  · obtain ⟨t, ht, rfl, rfl⟩ := h.identify.mp hid
    exact ⟨t, (h.finds ht).1, rfl⟩
  · obtain ⟨hmem, rfl⟩ := h.lookup.mp ht
    exact (h.finds hmem).2
  · exact h.finds ((grows_afterAdditions [] as).types.subset ht)
  · obtain ⟨before, f, first, later, has, rfl, haccepted⟩ := accepted_of_mem_families (h.family?.mp hfamily)
    refine ⟨before, f, first, later, has, rfl, haccepted, ?_⟩
    obtain ⟨chain, -, -, hfamily', hmember, hconverted⟩ := hfound _ _ _ has haccepted
    rw [hfamily] at hfamily'
    cases hfamily'
    intro k name hk
    rw [List.getElem?_map, Option.map_eq_some_iff] at hk
    obtain ⟨m, hm, rfl⟩ := hk
    refine ⟨?_, fun j source hj hsource => ?_⟩
    · obtain ⟨id, hid, hfinds⟩ := hmember k m hm
      exact ⟨id, m.layout, hid, hfinds⟩
    · rw [List.getElem?_map, Option.map_eq_some_iff] at hsource
      obtain ⟨s, hs, rfl⟩ := hsource
      subst hj
      obtain ⟨convert, -, hfind⟩ := hconverted j s m hs hm
      exact ⟨convert, hfind⟩

def coins : VersionFamily :=
  ⟨"coin", [⟨"app::CoinV2", .struct [], some ("app::Coin", .ok)⟩, ⟨"app::Coin", .struct [], none⟩]⟩

/-- The ids of the coins are 100 and 101, so neither the name of the first nor the id of the
    second is to be had afterwards. -/
def coinAdditions : List Addition :=
  [.family coins 100, .type "app::Coin" 200 (.struct []), .type "app::Note" 101 (.struct []),
    .type "app::Note" 102 (.struct [])]

theorem coins_found :
    (Addition.family coins 100).Accepted [] ∧
    ¬(Addition.type "app::Coin" 200 (.struct [])).Accepted (coinAdditions.take 1) ∧
    ¬(Addition.type "app::Note" 101 (.struct [])).Accepted (coinAdditions.take 2) ∧
    (Addition.type "app::Note" 102 (.struct [])).Accepted (coinAdditions.take 3) ∧
    (Addition.family coins 100).Found (afterAdditions coinAdditions) ∧
    (Addition.type "app::Note" 102 (.struct [])).Found (afterAdditions coinAdditions) := by
  have hcoins : (Addition.family coins 100).Accepted [] := by decide +kernel
  have hnote : (Addition.type "app::Note" 102 (.struct [])).Accepted (coinAdditions.take 3) := by decide +kernel
  obtain ⟨-, -, -, hfound, -⟩ := additions_consistent coinAdditions
  exact ⟨hcoins, by decide +kernel, by decide +kernel, hnote, hfound [] _ _ rfl hcoins, hfound _ _ [] rfl hnote⟩

end Registry

end VeiledLedger
