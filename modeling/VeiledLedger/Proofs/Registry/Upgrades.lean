/-
  VeiledLedger.Proofs.Registry.Upgrades — a value upgraded through several versions.

  Each version but the first of a family takes a value of the one before over: it converts the
  value, and what comes out has to fit its own layout. An upgrade goes through the versions
  behind the present one up to the target, so one that stops on the way and goes on from there
  ends as one that does not, in the same value or in the same error.

  What an upgrade needs to find, the marker's chain, the places in it and the conversions, is
  there in every registry that came about by additions (`Placed`). So the only upgrades that
  have no path are those to no later version of the same family.

  Main statements: `Addition.Found.upgrade_eq`, `placed_afterAdditions`, `upgrades_compose`.
-/

import VeiledLedger.Proofs.Registry.Consistency

namespace VeiledLedger

/-! ## From version to version -/

namespace VersionedType

/-- The conversion that `m` declares; the first version of a family leaves a value as it is. -/
def convert (m : VersionedType) (v : Value) : Except LayoutError Value :=
  match m.upgradesFrom with
  | some (_, convert) => convert v
  | none => .ok v

def takeOver (m : VersionedType) (v : Value) : Except LayoutError Value := do
  let v ← m.convert v
  let _ ← m.layout.encodeAt m.name v
  return v

theorem takeOver_eq_ok {m : VersionedType} {v w : Value} :
    m.takeOver v = .ok w ↔ m.convert v = .ok w ∧ ∃ b, m.layout.encodeAt m.name w = .ok b := by
  unfold takeOver
  simp only [Except.bind_eq_ok]
  constructor
  · rintro ⟨w', hw, b, hb, he⟩
    cases he
    exact ⟨hw, b, hb⟩
  · rintro ⟨hw, b, hb⟩
    exact ⟨w, hw, b, hb, rfl⟩

def handOn (versions : List VersionedType) (v : Value) : Except LayoutError Value :=
  versions.foldlM (fun v m => m.takeOver v) v

/-- Does all conversions in turn and looks at no layout. -/
def convertAll (versions : List VersionedType) (v : Value) : Except LayoutError Value :=
  versions.foldlM (fun v m => m.convert v) v

theorem handOn_append (versions later : List VersionedType) (v : Value) :
    handOn (versions ++ later) v = handOn versions v >>= handOn later :=
  List.foldlM_append

/-- A value that has been handed on is the composition of the conversions, and fits the last layout. -/
theorem handOn_eq_ok {versions : List VersionedType} {v w : Value} (h : handOn versions v = .ok w) :
    convertAll versions v = .ok w ∧
      ∀ m, versions.getLast? = some m → ∃ b, m.layout.encodeAt m.name w = .ok b := by
  induction versions using List.reverseRecOn generalizing w with
  | nil => exact ⟨h, fun m hm => (by cases hm)⟩
  | append_singleton versions last ih =>
    rw [handOn_append] at h
    obtain ⟨u, hu, hw⟩ := Except.bind_eq_ok.mp h
    obtain ⟨w', hw', he⟩ := Except.bind_eq_ok.mp hw
    cases he
    obtain ⟨hconverted, hfits⟩ := takeOver_eq_ok.mp hw'
    refine ⟨?_, fun m hm => ?_⟩
    · unfold convertAll
      rw [List.foldlM_append]
      refine Except.bind_eq_ok.mpr ⟨u, (ih hu).1, ?_⟩
      exact Except.bind_eq_ok.mpr ⟨w, hconverted, rfl⟩
    · rw [List.getLast?_concat] at hm
      cases hm
      exact hfits

def between (chain : List VersionedType) (i k : Nat) : List VersionedType := (chain.take (k + 1)).drop (i + 1)

theorem between_append {chain : List VersionedType} {i j k : Nat} (hij : i ≤ j) (hjk : j ≤ k)
    (hj : j < chain.length) : between chain i j ++ between chain j k = between chain i k := by
  have hfront : chain.take (j + 1) = (chain.take (k + 1)).take (j + 1) := by
    rw [List.take_take, Nat.min_eq_left (Nat.succ_le_succ hjk)]
  have hlen : i + 1 ≤ (chain.take (j + 1)).length := by
    rw [List.length_take]
    omega
  unfold between
  rw [← List.drop_append_of_le_length hlen, hfront, List.take_append_drop]

theorem getLast?_between {chain : List VersionedType} {i k : Nat} (hik : i < k) (hk : k < chain.length) :
    (between chain i k).getLast? = chain[k]? := by
  unfold between
  rw [List.getLast?_drop, if_neg (by rw [List.length_take]; omega), List.getLast?_take, if_neg (Nat.succ_ne_zero k),
    Nat.add_sub_cancel, List.getElem?_eq_getElem hk]
  rfl

/-- None of them is the first version. -/
theorem mem_between {chain : List VersionedType} {i k : Nat} {m : VersionedType} (h : m ∈ between chain i k) :
    ∃ j, chain[j + 1]? = some m := by
  obtain ⟨n, hn⟩ := List.mem_iff_getElem?.mp h
  rw [between, List.getElem?_drop, List.getElem?_take] at hn
  split at hn
  · exact ⟨i + n, by rwa [Nat.add_right_comm] at hn⟩
  · cases hn

end VersionedType

open VersionedType

namespace Registry

/-! ## An upgrade hands a value on -/

theorem lookupName_of_finds {r : Registry} {t : Registration} (h : r.Finds t) : r.lookupName t.name = .ok t := by
  rw [lookupName, h.2]
  exact h.1

theorem convertThrough_eq {r : Registry} {versions : List VersionedType} (noPath : RegistryError)
    (h : ∀ m ∈ versions,
      (∃ source convert, m.upgradesFrom = some (source, convert) ∧
        r.conversions.find? (·.1 = m.name) = some (m.name, source, convert)) ∧
      ∃ t, r.lookupName m.name = .ok t ∧ t.layout = m.layout) (v : Value) :
    r.convertThrough noPath (versions.map (·.name)) v = liftLayout (handOn versions v) := by
  induction versions generalizing v with
  | nil => rfl
  | cons m versions ih =>
    obtain ⟨⟨source, convert, hupgrades, hfind⟩, t, ht, hlayout⟩ := h m List.mem_cons_self
    have ih := ih fun m' hm' => h m' (List.mem_cons_of_mem _ hm')
    have hconvert : m.convert v = convert v := by
      unfold VersionedType.convert
      rw [hupgrades]
    rw [List.map_cons, convertThrough, hfind]
    dsimp only
    rw [ht, show handOn (m :: versions) v = m.takeOver v >>= handOn versions from List.foldlM_cons, takeOver, hconvert]
    cases convert v with
    | error e => rfl
    | ok w =>
      show (liftLayout (t.layout.encodeAt m.name w) >>= fun _ => _) =
        liftLayout ((m.layout.encodeAt m.name w >>= _) >>= _)
      rw [hlayout]
      cases m.layout.encodeAt m.name w with
      | error e => rfl
      | ok b => exact ih w

section
variable {r : Registry} {f : VersionFamily} {first : TypeId} {chain : List VersionedType} {a b c : VersionedType}
  {i j k : Nat} {x : TypedValue}

/-- What an upgrade to a later version answers: the value as it is handed on, under the id of the target. -/
theorem Addition.Found.upgrade_eq (h : (Addition.family f first).Found r) (hchain : f.ordered = .ok chain)
    (ha : chain[i]? = some a) (hc : chain[k]? = some c) (hik : i ≤ k) (hx : r.identify a.name = .ok x.typeId) :
    ∃ id, r.identify c.name = .ok id ∧ (∃ t, r.lookup id = .ok t ∧ t.layout = c.layout) ∧
      r.upgrade x c.name = (liftLayout (handOn (between chain i k) x.value)).map (⟨id, ·⟩) := by
  obtain ⟨chain', hchain', -, hfamily, hmember, hconverted⟩ := h
  cases hchain.symm.trans hchain'
  obtain ⟨idA, -, hfindsA⟩ := hmember i a ha
  obtain ⟨idC, -, hfindsC⟩ := hmember k c hc
  cases hx.symm.trans hfindsA.2
  refine ⟨idC, hfindsC.2, ⟨_, hfindsC.1, rfl⟩, ?_⟩
  -- behind the first version, each one is registered with its conversion
  have hsteps (noPath : RegistryError) :
      r.convertThrough noPath ((between chain i k).map (·.name)) x.value =
        liftLayout (handOn (between chain i k) x.value) := by
    refine convertThrough_eq noPath (fun m hm => ?_) x.value
    obtain ⟨j, hj⟩ := mem_between hm
    obtain ⟨hlt, -⟩ := List.getElem?_eq_some_iff.mp hj
    obtain ⟨convert, hupgrades, hfind⟩ := hconverted j _ m (List.getElem?_eq_getElem (Nat.lt_of_succ_lt hlt)) hj
    obtain ⟨id, -, hfinds⟩ := hmember (j + 1) m hj
    exact ⟨⟨_, convert, hupgrades, hfind⟩, _, lookupName_of_finds hfinds, rfl⟩
  have hnames : (between chain i k).map (·.name) = ((chain.map (·.name)).take (k + 1)).drop (i + 1) := by
    rw [between, List.map_drop, List.map_take]
  unfold upgrade
  rw [hfindsA.1, lookupName_of_finds hfindsC]
  show (if f.marker ≠ f.marker ∨ k < i then _ else _) = _
  rw [if_neg (by simpa using hik), hfamily]
  dsimp only
  rw [← hnames, hsteps]
  rfl

/-- Whether an upgrade stops at a version on its way makes no difference. -/
theorem Addition.Found.upgrade_upgrade (h : (Addition.family f first).Found r) (hchain : f.ordered = .ok chain)
    (ha : chain[i]? = some a) (hb : chain[j]? = some b) (hc : chain[k]? = some c) (hij : i ≤ j) (hjk : j ≤ k)
    (hx : r.identify a.name = .ok x.typeId) :
    r.upgrade x c.name = (do r.upgrade (← r.upgrade x b.name) c.name) := by
  obtain ⟨idB, hidB, -, hfirst⟩ := h.upgrade_eq hchain ha hb hij hx
  obtain ⟨idC, hidC, -, hwhole⟩ := h.upgrade_eq hchain ha hc (Nat.le_trans hij hjk) hx
  rw [hfirst, hwhole, ← between_append hij hjk (List.getElem?_eq_some_iff.mp hb).1, handOn_append]
  cases handOn (between chain i j) x.value with
  | error e => rfl
  | ok w =>
    obtain ⟨id, hid, -, hsecond⟩ := h.upgrade_eq (x := ⟨idB, w⟩) hchain hb hc hjk hidB
    cases hidC.symm.trans hid
    exact hsecond.symm

/-- An upgraded value is of the target's type, is the composition of the conversions and, unless it
    was of that type before, can be written. -/
theorem Addition.Found.upgrade_eq_ok (h : (Addition.family f first).Found r) (hchain : f.ordered = .ok chain)
    (ha : chain[i]? = some a) (hc : chain[k]? = some c) (hik : i ≤ k) (hx : r.identify a.name = .ok x.typeId)
    {y : TypedValue} (hy : r.upgrade x c.name = .ok y) :
    r.identify c.name = .ok y.typeId ∧ convertAll (between chain i k) x.value = .ok y.value ∧
      (i < k → ∃ bytes, r.serialize y = .ok bytes) := by
  obtain ⟨id, hid, ⟨t, ht, hlayout⟩, heq⟩ := h.upgrade_eq hchain ha hc hik hx
  rw [heq] at hy
  obtain ⟨w, hw, rfl⟩ := Except.map_eq_ok.mp hy
  obtain ⟨hconverted, hfits⟩ := handOn_eq_ok (Except.mapError_eq_ok.mp hw)
  refine ⟨hid, hconverted, fun hlt => ?_⟩
  obtain ⟨bytes, hbytes⟩ := hfits c ((getLast?_between hlt (List.getElem?_eq_some_iff.mp hc).1).trans hc)
  rw [← hlayout] at hbytes
  have hwritten : t.layout.encodeAt "" w = .ok bytes := Layout.encodeAt_eq_ok.mpr (Layout.encodeAt_eq_ok.mp hbytes)
  exact ⟨_, serialize_eq_ok.mpr ⟨t, bytes, lookup_eq_ok.mp ht, hwritten, rfl⟩⟩

end

/-! ## Versions and their places -/

def Placed (r : Registry) : Prop :=
  ∀ t ∈ r.types, ∀ marker k, t.version = some (marker, k) →
    ∃ names, (marker, names) ∈ r.families ∧ names[k]? = some t.name

theorem placed_afterAdditions [Hasher] (as : List Addition) : (afterAdditions as).Placed := by
  intro t ht marker k hversion
  cases origin_afterAdditions as t ht with
  | builtin hmem =>
    have hbuiltin : ∀ t ∈ builtin.types, t.version = none := by decide
    cases (hbuiltin t hmem).symm.trans hversion
  | type => cases hversion
  | version hlisted hname =>
    cases hversion
    exact ⟨_, hlisted, hname⟩
  | command => cases hversion

/-! ## Which upgrades have no path -/

end Registry

/-- `t` and `goal` are versions of one family, and `goal` is no earlier one. -/
def Registration.LeadsTo (t goal : Registration) : Prop :=
  ∃ marker i k, t.version = some (marker, i) ∧ goal.version = some (marker, k) ∧ i ≤ k

namespace Registry

section
variable {r : Registry} {x : TypedValue} {target : String} {t goal : Registration}

/-- That there is no path is said of two registered types only. -/
theorem exists_types_of_noUpgradePath {source aim : String}
    (h : r.upgrade x target = .error (.noUpgradePath source aim)) :
    ∃ t goal, r.lookup x.typeId = .ok t ∧ r.lookupName target = .ok goal := by
  unfold upgrade at h
  rcases Except.bind_eq_error.mp h with h | ⟨t, ht, h⟩
  · cases lookup_eq_error h
  rcases Except.bind_eq_error.mp h with h | ⟨goal, hgoal, -⟩
  · rcases lookupName_eq_error h with he | ⟨id, he⟩ <;> cases he
  exact ⟨t, goal, ht, hgoal⟩

theorem upgrade_of_not_leadsTo (ht : r.lookup x.typeId = .ok t) (hgoal : r.lookupName target = .ok goal)
    (h : ¬t.LeadsTo goal) : r.upgrade x target = .error (.noUpgradePath t.name target) := by
  unfold upgrade
  rw [ht, hgoal]
  dsimp only [bind, Except.bind]
  split
  · rename_i marker i marker' k hversion hversion'
    by_cases hback : marker ≠ marker' ∨ k < i
    · rw [if_pos hback]
    · obtain ⟨hsame, hle⟩ := not_or.mp hback
      cases Decidable.not_not.mp hsame
      exact absurd ⟨marker, i, k, hversion, hversion', Nat.not_lt.mp hle⟩ h
  · rfl

section
variable [Hasher]

theorem Consistent.lookupName (h : r.Consistent) {name : String} :
    r.lookupName name = .ok t ↔ t ∈ r.types ∧ t.name = name := by
  unfold Registry.lookupName
  simp only [Except.bind_eq_ok, h.identify, h.lookup]
  constructor
  · rintro ⟨_, ⟨t', ht', rfl, rfl⟩, ht, hid⟩
    cases List.inj_on_of_nodup_map h.distinct.ids ht ht' hid
    exact ⟨ht, rfl⟩
  · rintro ⟨ht, rfl⟩
    exact ⟨t.id, ⟨t, ht, rfl, rfl⟩, ht, rfl⟩

theorem exists_found_of_mem_families {as : List Addition} {marker : String} {names : List String}
    (h : (marker, names) ∈ (afterAdditions as).families) :
    ∃ f first chain, (Addition.family f first).Found (afterAdditions as) ∧ f.ordered = .ok chain ∧
      names = chain.map (·.name) := by
  have hr := consistent_afterAdditions as
  obtain ⟨before, f, first, later, rfl, rfl, haccepted⟩ := accepted_of_mem_families h
  have hfound := (haccepted.held later).found hr
  obtain ⟨chain, hchain, -, hfamily, -⟩ := id hfound
  cases (hr.family?.mpr h).symm.trans hfamily
  exact ⟨f, first, chain, hfound, hchain, rfl⟩

/-- Both versions have their places in one chain. -/
theorem exists_chain_of_versions {as : List Addition} {marker : String} {i k : Nat}
    (ht : t ∈ (afterAdditions as).types) (hgoal : goal ∈ (afterAdditions as).types)
    (hversion : t.version = some (marker, i)) (hversion' : goal.version = some (marker, k)) :
    ∃ names, (marker, names) ∈ (afterAdditions as).families ∧ names[i]? = some t.name ∧ names[k]? = some goal.name := by
  have hr := consistent_afterAdditions as
  obtain ⟨names, hmem, hname⟩ := placed_afterAdditions as t ht marker i hversion
  obtain ⟨names', hmem', hname'⟩ := placed_afterAdditions as goal hgoal marker k hversion'
  cases (hr.family?.mpr hmem).symm.trans (hr.family?.mpr hmem')
  exact ⟨names, hmem, hname, hname'⟩

theorem upgrade_of_leadsTo {as : List Addition} (ht : t ∈ (afterAdditions as).types)
    (hgoal : goal ∈ (afterAdditions as).types) (hx : x.typeId = t.id) (h : t.LeadsTo goal) :
    ∃ answer : Except LayoutError TypedValue, (afterAdditions as).upgrade x goal.name = liftLayout answer := by
  have hr := consistent_afterAdditions as
  obtain ⟨marker, i, k, hversion, hversion', hle⟩ := h
  obtain ⟨names, hmem, hi, hk⟩ := exists_chain_of_versions ht hgoal hversion hversion'
  obtain ⟨f, first, chain, hfound, hchain, rfl⟩ := exists_found_of_mem_families hmem
  rw [List.getElem?_map, Option.map_eq_some_iff] at hi hk
  obtain ⟨a, ha, hname⟩ := hi
  obtain ⟨c, hc, hname'⟩ := hk
  obtain ⟨id, -, -, heq⟩ := hfound.upgrade_eq hchain ha hc hle (x := x) (by rw [hname, hx]; exact (hr.finds ht).2)
  rw [← hname', heq]
  exact ⟨(handOn (between chain i k) x.value).map (⟨id, ·⟩), by cases handOn (between chain i k) x.value <;> rfl⟩

theorem upgrade_eq_noUpgradePath {as : List Addition} {source aim : String} :
    (afterAdditions as).upgrade x target = .error (.noUpgradePath source aim) ↔
      ∃ t goal, (afterAdditions as).lookup x.typeId = .ok t ∧ (afterAdditions as).lookupName target = .ok goal ∧
        ¬t.LeadsTo goal ∧ source = t.name ∧ aim = target := by
  have hr := consistent_afterAdditions as
  constructor
  · intro h
    obtain ⟨t, goal, ht, hgoal⟩ := exists_types_of_noUpgradePath h
    by_cases hleads : t.LeadsTo goal
    · obtain ⟨htmem, hid⟩ := hr.lookup.mp ht
      obtain ⟨hgoalmem, rfl⟩ := hr.lookupName.mp hgoal
      obtain ⟨answer, heq⟩ := upgrade_of_leadsTo htmem hgoalmem hid.symm hleads
      rw [heq] at h
      cases answer <;> cases h
    · rw [upgrade_of_not_leadsTo ht hgoal hleads] at h
      cases h
      exact ⟨t, goal, ht, hgoal, hleads, rfl, rfl⟩
  · rintro ⟨t, goal, ht, hgoal, hleads, rfl, rfl⟩
    exact upgrade_of_not_leadsTo ht hgoal hleads

end

end

/-- Upgrades in a registry after any additions, accepted and refused ones. -/
theorem upgrades_compose [Hasher] (as : List Addition) :
    let r := afterAdditions as
    (∀ before f first later, as = before ++ .family f first :: later → (Addition.family f first).Accepted before →
      ∃ chain, f.ordered = .ok chain ∧
        ∀ (i j k : Nat) a b c, i ≤ j → j ≤ k → chain[i]? = some a → chain[j]? = some b → chain[k]? = some c →
        ∀ x, r.identify a.name = .ok x.typeId →
          -- the value is handed on from version to version, and a stop on the way makes no difference
          (∃ id, r.identify c.name = .ok id ∧
            r.upgrade x c.name = (liftLayout (handOn (between chain i k) x.value)).map (⟨id, ·⟩)) ∧
          r.upgrade x c.name = (do r.upgrade (← r.upgrade x b.name) c.name) ∧
          ∀ y, r.upgrade x c.name = .ok y →
            r.identify c.name = .ok y.typeId ∧ convertAll (between chain i k) x.value = .ok y.value ∧
            (i < k → ∃ bytes, r.serialize y = .ok bytes)) ∧
    -- there is no path exactly between types that are not an earlier and a later version of one family
    (∀ x target source aim, r.upgrade x target = .error (.noUpgradePath source aim) ↔
      ∃ t goal, r.lookup x.typeId = .ok t ∧ r.lookupName target = .ok goal ∧ ¬t.LeadsTo goal ∧
        source = t.name ∧ aim = target) ∧
    -- and where there is one, both of its ends lie in the chain that it is cut from
    (∀ (x : TypedValue) target t goal marker (i k : Nat), r.lookup x.typeId = .ok t → r.lookupName target = .ok goal →
      t.version = some (marker, i) → goal.version = some (marker, k) →
      ∃ names, r.family? marker = some names ∧ names[i]? = some t.name ∧ names[k]? = some target) := by
  intro r
  have hr : r.Consistent := consistent_afterAdditions as
  refine ⟨fun before f first later he haccepted => ?_, fun _ _ _ _ => upgrade_eq_noUpgradePath,
    fun x target t goal marker i k ht hgoal hversion hversion' => ?_⟩
  · subst he
    have hfound : (Addition.family f first).Found r := (haccepted.held later).found hr
    obtain ⟨chain, hchain, -⟩ := id hfound
    refine ⟨chain, hchain, fun i j k a b c hij hjk ha hb hc x hx => ⟨?_,
      hfound.upgrade_upgrade hchain ha hb hc hij hjk hx,
      fun y => hfound.upgrade_eq_ok hchain ha hc (Nat.le_trans hij hjk) hx⟩⟩
    obtain ⟨id, hid, -, heq⟩ := hfound.upgrade_eq hchain ha hc (Nat.le_trans hij hjk) hx
    exact ⟨id, hid, heq⟩
  · obtain ⟨htmem, -⟩ := hr.lookup.mp ht
    obtain ⟨hgoalmem, rfl⟩ := hr.lookupName.mp hgoal
    obtain ⟨names, hmem, hplaces⟩ := exists_chain_of_versions htmem hgoalmem hversion hversion'
    exact ⟨names, hr.family?.mpr hmem, hplaces⟩

def tokenV1 : VersionedType := ⟨"app::Token", .struct [("owner", .string .latin1 4)], none⟩
def tokenV2 : VersionedType :=
  ⟨"app::TokenV2", .struct [("owner", .string .latin1 4), ("issuer", .string .latin1 4)],
    some ("app::Token", .ofFields "app::Token" [.copied 0, .constant (.string "mint")])⟩
def tokenV3 : VersionedType :=
  ⟨"app::TokenV3", .struct [("issuer", .string .latin1 4), ("owner", .string .latin1 2)],
    some ("app::TokenV2", .ofFields "app::TokenV2" [.copied 1, .copied 0])⟩

def tokens : VersionFamily := ⟨"token", [tokenV2, tokenV3, tokenV1]⟩

def tokenAdditions : List Addition := [.family coins 100, .family tokens 200, .type "app::TokenV2" 300 (.struct [])]

def tokenOf (owner : String) : TypedValue := ⟨200, .struct [.string owner]⟩

/-- A short owner goes through to the last version, a long one is refused by its layout, whether or
    not the upgrade stops at the second version, and nothing leads back or to a coin. -/
theorem tokens_upgraded :
    let r := afterAdditions tokenAdditions
    (Addition.family tokens 200).Accepted (tokenAdditions.take 1) ∧
    r.upgrade (tokenOf "me") "app::TokenV3" = .ok ⟨202, .struct [.string "mint", .string "me"]⟩ ∧
    (∃ bytes, r.serialize ⟨202, .struct [.string "mint", .string "me"]⟩ = .ok bytes) ∧
    (do r.upgrade (← r.upgrade (tokenOf "you") "app::TokenV2") "app::TokenV3") =
      .error (.layout (.misfit "app::TokenV3.owner" (.overLength 2 3))) ∧
    r.upgrade ⟨202, .struct []⟩ "app::TokenV2" = .error (.noUpgradePath "app::TokenV3" "app::TokenV2") ∧
    r.upgrade (tokenOf "me") "app::Coin" = .error (.noUpgradePath "app::Token" "app::Coin") := by
  intro r
  have haccepted : (Addition.family tokens 200).Accepted (tokenAdditions.take 1) := by decide +kernel
  have hcoins : (Addition.family coins 100).Accepted [] := by decide +kernel
  have hr : r.Consistent := consistent_afterAdditions _
  -- what is registered of the tokens and of the coins
  have htoken (k : Nat) (m : VersionedType) (hm : [tokenV1, tokenV2, tokenV3][k]? = some m) (id : TypeId)
      (hid : UInt32.ofNat (200 + k) = id) : r.Finds ⟨m.name, id, m.layout, some ("token", k)⟩ := by
    subst hid
    cases haccepted.held [.type "app::TokenV2" 300 (.struct [])] with
    | family hordered _ hmember _ =>
      cases (show tokens.ordered = .ok [tokenV1, tokenV2, tokenV3] from rfl).symm.trans hordered
      exact hr.finds (hmember k m hm).2
  have hV1 : r.Finds ⟨"app::Token", 200, tokenV1.layout, some ("token", 0)⟩ := htoken 0 tokenV1 rfl 200 rfl
  have hV2 : r.Finds ⟨"app::TokenV2", 201, tokenV2.layout, some ("token", 1)⟩ := htoken 1 tokenV2 rfl 201 rfl
  have hV3 : r.Finds ⟨"app::TokenV3", 202, tokenV3.layout, some ("token", 2)⟩ := htoken 2 tokenV3 rfl 202 rfl
  have hcoin : r.Finds ⟨"app::Coin", 100, .struct [], some ("coin", 0)⟩ := by
    cases hcoins.held (tokenAdditions.drop 1) with
    | family hordered _ hmember _ =>
      cases (show coins.ordered = .ok coins.members.reverse from rfl).symm.trans hordered
      exact hr.finds (hmember 0 _ rfl).2
  obtain ⟨hfamily, hpath, -⟩ := upgrades_compose tokenAdditions
  obtain ⟨chain, hchain, hupgrades⟩ := hfamily [.family coins 100] tokens 200 _ rfl haccepted
  cases (show tokens.ordered = .ok [tokenV1, tokenV2, tokenV3] from rfl).symm.trans hchain
  have hupgrades (owner : String) :=
    hupgrades 0 1 2 tokenV1 tokenV2 tokenV3 (by decide) (by decide) rfl rfl rfl (tokenOf owner) hV1.2
  obtain ⟨⟨id, hid, hme⟩, -, hwritten⟩ := hupgrades "me"
  cases hV3.2.symm.trans hid
  have hme : r.upgrade (tokenOf "me") "app::TokenV3" = .ok ⟨202, .struct [.string "mint", .string "me"]⟩ :=
    hme.trans rfl
  obtain ⟨⟨_, -, hyou⟩, hstop, -⟩ := hupgrades "you"
  have hnone {t goal : Registration} (ht : r.Finds t) (hgoal : r.Finds goal) (h : ¬t.LeadsTo goal) (v : Value) :
      r.upgrade ⟨t.id, v⟩ goal.name = .error (.noUpgradePath t.name goal.name) :=
    (hpath _ _ _ _).mpr ⟨t, goal, ht.1, lookupName_of_finds hgoal, h, rfl, rfl⟩
  refine ⟨haccepted, hme, (hwritten _ hme).2.2 (by decide), hstop.symm.trans (hyou.trans rfl),
    hnone hV3 hV2 ?_ _, hnone hV1 hcoin ?_ _⟩
  · rintro ⟨marker, i, k, h, h', hle⟩
    cases h
    cases h'
    exact absurd hle (by decide)
  · rintro ⟨marker, i, k, h, h', -⟩
    cases h
    simp at h'

end Registry

end VeiledLedger
