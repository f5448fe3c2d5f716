/-
  VeiledLedger.Proofs.Registry.UpgradeOrder — which families have an upgrade order.

  What `ordered` answers is read off the members and their upgrades alone (`Verdict`): the
  checks before its walks leave at most one upgrade from and to each member, and the walks
  then find the chain of all members that are reached from the initial version, or a member
  outside that chain and what it belongs to.

  Main statements: `verdict_ordered`, `ordered_exact`.
-/

import VeiledLedger.Proofs.Registry.Walks

namespace VeiledLedger.VersionFamily

variable {f : VersionFamily}

/-! ## The checks before the walks -/

theorem nodup_of_firstRepeated? {earlier : List String} {ms : List VersionedType}
    (h : firstRepeated? earlier ms = none) : (ms.map (·.name)).Nodup ∧ ∀ m ∈ ms, m.name ∉ earlier := by
  induction ms generalizing earlier with
  | nil => simp
  | cons m ms ih =>
    unfold firstRepeated? at h
    split at h
    · cases h
    · rename_i hnew
      obtain ⟨hnodup, hnot⟩ := ih h
      refine ⟨List.nodup_cons.mpr ⟨fun hmem => ?_, hnodup⟩, fun x hx => ?_⟩
      · obtain ⟨x, hx, hname⟩ := List.mem_map.mp hmem
        exact hnot x hx (by rw [hname]; exact List.mem_cons_self)
      · rcases List.mem_cons.mp hx with rfl | hx
        · exact hnew
        · exact fun hmem => hnot x hx (List.mem_cons_of_mem _ hmem)

def Repeated {β : Type} (key : VersionedType → β) (k : β) (ms : List VersionedType) : Prop :=
  ∃ a b, [a, b].Sublist ms ∧ key a = k ∧ key b = k

section
variable {β : Type} {key : VersionedType → β} {k : β} {m : VersionedType} {ms : List VersionedType}

theorem Repeated.cons (h : Repeated key k ms) : Repeated key k (m :: ms) := by
  obtain ⟨a, b, hab, ha, hb⟩ := h
  exact ⟨a, b, hab.cons m, ha, hb⟩

theorem Repeated.of_mem {b : VersionedType} (hm : key m = k) (hb : b ∈ ms) (hkey : key b = k) :
    Repeated key k (m :: ms) :=
  ⟨m, b, (List.singleton_sublist.mpr hb).cons_cons m, hm, hkey⟩

end

/-- A name that is found repeated is that of two members, or of one where it was met before. -/
theorem repeated_of_firstRepeated? {earlier : List String} {ms : List VersionedType} {name : String}
    (h : firstRepeated? earlier ms = some name) :
    (name ∈ earlier ∧ ∃ m ∈ ms, m.name = name) ∨ Repeated VersionedType.name name ms := by
  induction ms generalizing earlier with
  | nil => cases h
  | cons m ms ih =>
    unfold firstRepeated? at h
    split at h
    · rename_i hmet
      cases h
      exact .inl ⟨hmet, m, List.mem_cons_self, rfl⟩
    · rcases ih h with ⟨hmet, b, hb, hname⟩ | htwice
      · rcases List.mem_cons.mp hmet with hm | hmet
        · exact .inr (.of_mem hm.symm hb hname)
        · exact .inl ⟨hmet, b, List.mem_cons_of_mem _ hb, hname⟩
      · exact .inr htwice.cons

theorem checkPredecessors_eq_ok {taken : List String} {ms : List VersionedType}
    (h : f.checkPredecessors taken ms = .ok ()) :
    (∀ m ∈ ms, ∀ source, m.predecessor = some source → (f.find? source).isSome ∧ source ∉ taken) ∧
      ms.Pairwise fun a b => ∀ source, a.predecessor = some source → b.predecessor ≠ some source := by
  induction ms generalizing taken with
  | nil => simp
  | cons m ms ih =>
    unfold checkPredecessors at h
    split at h
    · rename_i hnone
      obtain ⟨hknown, hapart⟩ := ih h
      refine ⟨List.forall_mem_cons.mpr ⟨fun source hs => ?_, hknown⟩,
        List.pairwise_cons.mpr ⟨fun b _ source hs => ?_, hapart⟩⟩
      · rw [hnone] at hs
        cases hs
      · rw [hnone] at hs
        cases hs
    rename_i source hsource
    split at h
    · cases h
    rename_i hfound
    split at h
    · cases h
    rename_i hnew
    obtain ⟨hknown, hapart⟩ := ih h
    refine ⟨List.forall_mem_cons.mpr ⟨fun s hs => ?_, fun b hb s hs => ?_⟩,
      List.pairwise_cons.mpr ⟨fun b hb s hs hb' => ?_, hapart⟩⟩
    · cases hsource.symm.trans hs
      exact ⟨Option.isSome_iff_ne_none.mpr fun he => hfound (Option.isNone_iff_eq_none.mpr he), hnew⟩
    · obtain ⟨hsome, hnot⟩ := hknown b hb s hs
      exact ⟨hsome, fun hmem => hnot (List.mem_cons_of_mem _ hmem)⟩
    · cases hsource.symm.trans hs
      exact (hknown b hb source hb').2 List.mem_cons_self

/-- What the members `ms` are refused for, where earlier ones upgrade from `taken`. -/
inductive Refused (f : VersionFamily) (taken : List String) (ms : List VersionedType) : RegistryError → Prop
  | unknown {m : VersionedType} {source : String} : m ∈ ms → m.predecessor = some source → f.find? source = none →
      Refused f taken ms (.unknownPredecessor f.marker m.name source)
  | branching {source : String} {p : VersionedType} : f.find? source = some p →
      (source ∈ taken ∧ ∃ m ∈ ms, m.predecessor = some source) ∨ Repeated VersionedType.predecessor (some source) ms →
      Refused f taken ms (.branchingUpgrade f.marker source)

theorem Refused.cons {taken taken' : List String} {m : VersionedType} {ms : List VersionedType} {e : RegistryError}
    (h : f.Refused taken' ms e) (htaken : ∀ source ∈ taken', source ∈ taken ∨ m.predecessor = some source) :
    f.Refused taken (m :: ms) e := by
  cases h with
  | unknown hb hsource hnone => exact .unknown (List.mem_cons_of_mem _ hb) hsource hnone
  | branching hfound hmet =>
    refine .branching hfound ?_
    rcases hmet with ⟨hmet, b, hb, hsource⟩ | htwice
    · rcases htaken _ hmet with hmet | hm
      · exact .inl ⟨hmet, b, List.mem_cons_of_mem _ hb, hsource⟩
      · exact .inr (.of_mem hm hb hsource)
    · exact .inr htwice.cons

theorem refused_of_checkPredecessors {taken : List String} {ms : List VersionedType} {e : RegistryError}
    (h : f.checkPredecessors taken ms = .error e) : f.Refused taken ms e := by
  induction ms generalizing taken with
  | nil => cases h
  | cons m ms ih =>
    unfold checkPredecessors at h
    split at h
    · exact (ih h).cons fun _ hmet => .inl hmet
    rename_i source hsource
    split at h
    · rename_i hnone
      cases h
      exact .unknown List.mem_cons_self hsource (Option.isNone_iff_eq_none.mp hnone)
    rename_i hfound
    obtain ⟨p, hp⟩ := Option.ne_none_iff_exists'.mp fun he => hfound (Option.isNone_iff_eq_none.mpr he)
    split at h
    · rename_i hmet
      cases h
      exact .branching hp (.inl ⟨hmet, m, List.mem_cons_self, hsource⟩)
    · refine (ih h).cons fun s hs => ?_
      rcases List.mem_cons.mp hs with rfl | hs
      · exact .inr hsource
      · exact .inl hs

theorem linked_of_checks (hdistinct : firstRepeated? [] f.members = none)
    (hchecked : f.checkPredecessors [] f.members = .ok ()) : f.Linked := by
  obtain ⟨hknown, hapart⟩ := checkPredecessors_eq_ok hchecked
  have hnames := (nodup_of_firstRepeated? hdistinct).1
  refine ⟨hnames, fun m hm source hs => ?_, ?_⟩
  · obtain ⟨p, hp⟩ := Option.isSome_iff_exists.mp (hknown m hm source hs).1
    exact ⟨p, (find?_eq_some hnames).mp hp⟩
  · rintro a b c ⟨-, hb, hab⟩ ⟨-, hc, hac⟩
    by_contra hne
    have hsym : Std.Symm fun a b : VersionedType =>
        ∀ source, a.predecessor = some source → b.predecessor ≠ some source :=
      ⟨fun a b h source hb ha => h source ha hb⟩
    exact hapart.forall hb hc hne a.name hab hac

structure Orderable (f : VersionFamily) : Prop extends Linked f where
  nonempty : f.members ≠ []
  initial : ∃! m, m ∈ f.members ∧ m.predecessor = none
  reachable : ∀ start ∈ f.members, start.predecessor = none → ∀ m ∈ f.members,
    Relation.ReflTransGen f.Upgrades start m

/-- `chain` holds all members, first one without a predecessor and each later one behind the member
    that it upgrades from. -/
structure UpgradeOrder (f : VersionFamily) (chain : List VersionedType) : Prop where
  all : chain.Perm f.members
  initial : ∀ m, chain.head? = some m → m.predecessor = none
  upgrades : chain.IsChain (fun a b => b.predecessor = some a.name)

/-! ## What the ordering answers -/

/-- What `ordered` answers of a family, read off its members and their upgrades. -/
inductive Verdict (f : VersionFamily) : Except RegistryError (List VersionedType) → Prop
  | duplicate {name : String} : Repeated VersionedType.name name f.members →
      Verdict f (.error (.duplicateMember f.marker name))
  | unknown {m : VersionedType} {source : String} : m ∈ f.members → m.predecessor = some source →
      (∀ p ∈ f.members, p.name ≠ source) → Verdict f (.error (.unknownPredecessor f.marker m.name source))
  | branching {p : VersionedType} : p ∈ f.members → Repeated VersionedType.predecessor (some p.name) f.members →
      Verdict f (.error (.branchingUpgrade f.marker p.name))
  | empty : f.members = [] → Verdict f (.error (.missingChainStart f.marker))
  /-- An empty name stands for no member at all. -/
  | nameless {m : VersionedType} : f.Linked → f.members.head? = some m → m.name = "" →
      (∀ s ∈ f.members, s.predecessor ≠ none) → Verdict f (.error (.missingChainStart f.marker))
  | cyclic {m : VersionedType} : f.Linked → m ∈ f.members → Relation.TransGen f.Upgrades m m →
      Verdict f (.error (.cyclicUpgrade f.marker m.name))
  | unreachable {m start e : VersionedType} : f.Linked → m ∈ f.members → start ∈ f.members →
      start.predecessor = none → ¬Relation.ReflTransGen f.Upgrades start m → e ∈ f.members → e.predecessor = none →
      Relation.ReflTransGen f.Upgrades e m → Verdict f (.error (.unreachableVersion f.marker m.name start.name))
  | complete {start : VersionedType} {rest : List VersionedType} : f.Linked → start ∈ f.members →
      start.predecessor = none → f.UpgradeOrder (start :: rest) → Verdict f (.ok (start :: rest))

theorem verdict_ordered (f : VersionFamily) : f.Verdict f.ordered := by
  unfold ordered
  split
  · rename_i name hrepeated
    exact .duplicate ((repeated_of_firstRepeated? hrepeated).resolve_left fun h => List.not_mem_nil h.1)
  rename_i hrepeated
  have hnames := (nodup_of_firstRepeated? hrepeated).1
  split
  · rename_i e hrefused
    cases refused_of_checkPredecessors hrefused with
    | unknown hm hsource hnone =>
      refine .unknown hm hsource fun p hp hname => ?_
      rw [(find?_eq_some hnames).mpr ⟨hp, hname⟩] at hnone
      cases hnone
    | branching hfound hmet =>
      obtain ⟨hp, rfl⟩ := (find?_eq_some hnames).mp hfound
      exact .branching hp (hmet.resolve_left fun h => List.not_mem_nil h.1)
  rename_i hchecked
  have hlinked := linked_of_checks hrepeated hchecked
  split
  · rename_i hnone
    have hsources : ∀ m ∈ f.members, m.predecessor ≠ none := fun m hm he =>
      List.find?_eq_none.mp hnone m hm (by rw [he]; rfl)
    have hcycle {m : VersionedType} (hm : m ∈ f.members) := transGen_of_startless hlinked hsources hm
    dsimp only
    cases hfirst : f.members.head? with
    | none => exact .empty (List.head?_eq_none_iff.mp hfirst)
    | some m =>
      have hm := List.mem_of_head? hfirst
      split
      · rename_i hname
        exact .nameless hlinked hfirst hname hsources
      · exact .cyclic hlinked hm (hcycle hm)
  rename_i start hfound
  have hstart := List.mem_of_find?_eq_some hfound
  have hinitial : start.predecessor = none := by simpa using List.find?_some hfound
  obtain ⟨hwalk, hnodup⟩ := follows_of_initial hnames hstart hinitial
  dsimp only
  split
  · rename_i hstray
    refine .complete hlinked hstart hinitial
      ⟨?_, fun m hm => (Option.some.inj hm) ▸ hinitial, isChain_followUpgrades _ _⟩
    have hmem : ∀ m ∈ start :: f.followUpgrades f.members.length start, m ∈ f.members :=
      List.forall_mem_cons.mpr ⟨hstart, fun _ => mem_of_mem_followUpgrades⟩
    refine (List.perm_ext_iff_of_nodup hnodup (List.Nodup.of_map _ hnames)).mpr fun m => ⟨hmem m, fun hm => ?_⟩
    have hname : m.name ∈ (start :: f.followUpgrades f.members.length start).map (·.name) := by
      by_contra hout
      exact List.find?_eq_none.mp hstray m hm (decide_eq_true hout)
    obtain ⟨x, hx, hsame⟩ := List.mem_map.mp hname
    rwa [← List.inj_on_of_nodup_map hnames (hmem x hx) hm hsame]
  · rename_i stray hstray
    have hm := List.mem_of_find?_eq_some hstray
    have hout : stray ∉ start :: f.followUpgrades f.members.length start := fun hmem =>
      absurd (List.mem_map_of_mem hmem) (by simpa using List.find?_some hstray)
    have hback := retraces_of_linked hlinked hm
    split
    · rename_i hreturns
      exact .cyclic hlinked hm ((hreturns ▸ hback).self hlinked hm)
    · rename_i hreturns
      rw [Bool.eq_false_iff.mpr hreturns] at hback
      obtain ⟨e, he, hnone, hlead⟩ := hback.initial hlinked hm
      exact .unreachable hlinked hm hstart hinitial
        (fun h => hout (hwalk.mem_of_reflTransGen hlinked hstart h)) he hnone hlead

theorem upgradeOrder_of_ordered {chain : List VersionedType} (h : f.ordered = .ok chain) : f.UpgradeOrder chain := by
  have hverdict := f.verdict_ordered
  rw [h] at hverdict
  cases hverdict with
  | complete _ _ _ horder => exact horder

/-! ## Which families are ordered -/

theorem Repeated.not_nodup {β : Type} {key : VersionedType → β} {k : β} {ms : List VersionedType}
    (h : Repeated key k ms) : ¬(ms.map key).Nodup := by
  obtain ⟨a, b, hab, ha, hb⟩ := h
  intro hnodup
  have hpair : ([a, b].map key).Nodup := (hab.map key).nodup hnodup
  simp [ha, hb] at hpair

theorem Linked.not_branching (h : f.Linked) {p : VersionedType} (hp : p ∈ f.members) :
    ¬Repeated VersionedType.predecessor (some p.name) f.members := by
  rintro ⟨a, b, hab, ha, hb⟩
  have hne : a ≠ b := by simpa using hab.nodup (List.Nodup.of_map _ h.distinct)
  have hmem {m : VersionedType} (hm : m ∈ [a, b]) : m ∈ f.members := hab.subset hm
  exact hne (h.unbranched ⟨hp, hmem (by simp), ha⟩ ⟨hp, hmem (by simp), hb⟩)

theorem Orderable.not_cyclic (h : f.Orderable) {m : VersionedType} (hm : m ∈ f.members) :
    ¬Relation.TransGen f.Upgrades m m := by
  obtain ⟨start, ⟨hstart, hinitial⟩, -⟩ := h.initial
  exact not_transGen_of_reflTransGen (leftUnique_upgrades h.distinct) (not_upgrades hinitial)
    (h.reachable start hstart hinitial m hm)

theorem orderable_of_ordered {chain : List VersionedType} (h : f.ordered = .ok chain) : f.Orderable := by
  have hverdict := f.verdict_ordered
  rw [h] at hverdict
  cases hverdict with
  | @complete start rest hlinked hstart hinitial horder =>
    have hreach : ∀ m ∈ f.members, Relation.ReflTransGen f.Upgrades start m := fun m hm =>
      reflTransGen_of_isChain_cons (isChain_upgrades horder.upgrades fun _ => horder.all.mem_iff.mp) m
        (horder.all.mem_iff.mpr hm)
    have hfirst : ∀ m, m ∈ f.members ∧ m.predecessor = none → m = start := by
      rintro m ⟨hm, hnone⟩
      rcases Relation.ReflTransGen.cases_tail (hreach m hm) with rfl | ⟨a, -, hstep⟩
      · rfl
      · exact absurd hstep (not_upgrades hnone a)
    exact {
      toLinked := hlinked
      nonempty := List.ne_nil_of_mem hstart
      initial := ⟨start, ⟨hstart, hinitial⟩, hfirst⟩
      reachable := fun s hs hnone => (hfirst s ⟨hs, hnone⟩) ▸ hreach }

theorem exists_ordered_of_orderable (h : f.Orderable) : ∃ chain, f.ordered = .ok chain := by
  have hverdict := f.verdict_ordered
  cases hordered : f.ordered with
  | ok chain => exact ⟨chain, rfl⟩
  | error e =>
    rw [hordered] at hverdict
    cases hverdict with
    | duplicate htwice => exact absurd h.distinct htwice.not_nodup
    | unknown hm hsource hnone =>
      obtain ⟨p, hp, hname⟩ := h.known _ hm _ hsource
      exact absurd hname (hnone p hp)
    | branching hp htwice => exact absurd htwice (h.not_branching hp)
    | empty hnil => exact absurd hnil h.nonempty
    | nameless _ _ _ hsources =>
      obtain ⟨start, ⟨hstart, hinitial⟩, -⟩ := h.initial
      exact absurd hinitial (hsources _ hstart)
    | cyclic _ hm hcycle => exact absurd hcycle (h.not_cyclic hm)
    | unreachable _ hm hstart hinitial hout => exact absurd (h.reachable _ hstart hinitial _ hm) hout

theorem UpgradeOrder.unique (h : f.Orderable) {chain other : List VersionedType} (hchain : f.UpgradeOrder chain)
    (hother : f.UpgradeOrder other) : other = chain := by
  have hmem {l : List VersionedType} (hl : f.UpgradeOrder l) : ∀ m ∈ l, m ∈ f.members := fun _ => hl.all.mem_iff.mp
  have hlen := (hother.all.trans hchain.all.symm).length_eq
  match other, chain with
  | [], [] => rfl
  | a :: rest, b :: rest' =>
    obtain ⟨start, -, honly⟩ := h.initial
    have ha := honly a ⟨hmem hother a List.mem_cons_self, hother.initial a rfl⟩
    have hb := honly b ⟨hmem hchain b List.mem_cons_self, hchain.initial b rfl⟩
    subst ha hb
    rw [eq_of_isChain_cons h.unbranched (isChain_upgrades hother.upgrades (hmem hother))
      (isChain_upgrades hchain.upgrades (hmem hchain)) (Nat.succ.inj hlen)]

theorem ordered_eq_ok {chain : List VersionedType} : f.ordered = .ok chain ↔ f.Orderable ∧ f.UpgradeOrder chain := by
  constructor
  · exact fun h => ⟨orderable_of_ordered h, upgradeOrder_of_ordered h⟩
  · rintro ⟨h, horder⟩
    obtain ⟨other, hother⟩ := exists_ordered_of_orderable h
    rw [hother, UpgradeOrder.unique h horder (upgradeOrder_of_ordered hother)]

/-- The order in which the members are declared makes no difference. -/
theorem Orderable.perm {g : VersionFamily} (h : f.Orderable) (hperm : g.members.Perm f.members) : g.Orderable := by
  have hmem {m : VersionedType} : m ∈ g.members ↔ m ∈ f.members := hperm.mem_iff
  have hupgrades : g.Upgrades = f.Upgrades := by
    funext a b
    simp only [Upgrades, hmem]
  exact {
    distinct := (hperm.map _).nodup_iff.mpr h.distinct
    known := by simpa only [hmem] using h.known
    unbranched := hupgrades ▸ h.unbranched
    nonempty := fun hnil => h.nonempty (List.nil_perm.mp (hnil ▸ hperm))
    initial := by simpa only [hmem] using h.initial
    reachable := by simpa only [hmem, hupgrades] using h.reachable }

theorem UpgradeOrder.perm {g : VersionFamily} {chain : List VersionedType} (h : f.UpgradeOrder chain)
    (hperm : g.members.Perm f.members) : g.UpgradeOrder chain :=
  ⟨h.all.trans hperm.symm, h.initial, h.upgrades⟩

/-- A family is ordered exactly if it has one initial version, from which all members are reached
    without branching; the chain is then its only upgrade order, whatever order the members are
    declared in. Both walks come to an end by themselves in every family they are begun in. -/
theorem ordered_exact (f : VersionFamily) :
    ((∃ chain, f.ordered = .ok chain) ↔ f.Orderable) ∧
    (∀ chain, f.ordered = .ok chain → f.UpgradeOrder chain ∧ ∀ other, f.UpgradeOrder other → other = chain) ∧
    (∀ g : VersionFamily, g.members.Perm f.members → ∀ chain, g.ordered = .ok chain ↔ f.ordered = .ok chain) ∧
    (firstRepeated? [] f.members = none → f.checkPredecessors [] f.members = .ok () → ∀ m ∈ f.members,
      (m.predecessor = none → f.Follows m (f.followUpgrades f.members.length m)) ∧
      f.Retraces m.name m (f.returnsTo m.name f.members.length m)) := by
  refine ⟨⟨fun ⟨_, h⟩ => orderable_of_ordered h, exists_ordered_of_orderable⟩, fun chain h => ?_,
    fun g hperm chain => ?_, fun hdistinct hchecked m hm => ?_⟩
  · have horder := upgradeOrder_of_ordered h
    exact ⟨horder, fun other => UpgradeOrder.unique (orderable_of_ordered h) horder⟩
  · rw [ordered_eq_ok, ordered_eq_ok]
    constructor
    · exact fun ⟨h, horder⟩ => ⟨h.perm hperm.symm, horder.perm hperm.symm⟩
    · exact fun ⟨h, horder⟩ => ⟨h.perm hperm, horder.perm hperm⟩
  · have hlinked := linked_of_checks hdistinct hchecked
    exact ⟨fun hinitial => (follows_of_initial hlinked.distinct hm hinitial).1, retraces_of_linked hlinked hm⟩

def noteV1 : VersionedType := ⟨"app::Note", .struct [], none⟩
def noteV2 : VersionedType := ⟨"app::NoteV2", .struct [], some ("app::Note", .ok)⟩
def noteV3 : VersionedType := ⟨"app::NoteV3", .struct [], some ("app::NoteV2", .ok)⟩

def notes : VersionFamily := ⟨"note", [noteV3, noteV2, noteV1]⟩

def giftCoupon : VersionedType := ⟨"app::Gift", .struct [], some ("app::Bonus", .ok)⟩
def bonusCoupon : VersionedType := ⟨"app::Bonus", .struct [], some ("app::Gift", .ok)⟩

def notesAndCoupons : VersionFamily := ⟨"note", [giftCoupon, noteV3, bonusCoupon, noteV2, noteV1]⟩

theorem notes_ordered :
    notes.Orderable ∧ (∀ other, notes.UpgradeOrder other → other = [noteV1, noteV2, noteV3]) ∧
    (⟨"note", [noteV2, noteV3, noteV1]⟩ : VersionFamily).ordered = .ok [noteV1, noteV2, noteV3] ∧
    ¬notesAndCoupons.Orderable ∧ notesAndCoupons.Follows noteV1 [noteV2, noteV3] ∧
    notesAndCoupons.Retraces "app::Gift" giftCoupon true := by
  have hnotes : notes.ordered = .ok [noteV1, noteV2, noteV3] := rfl
  have hcoupons : notesAndCoupons.ordered = .error (.cyclicUpgrade "note" "app::Gift") := rfl
  obtain ⟨hiff, horder, hperm, -⟩ := ordered_exact notes
  obtain ⟨hiff', -, -, hwalks⟩ := ordered_exact notesAndCoupons
  refine ⟨hiff.mp ⟨_, hnotes⟩, (horder _ hnotes).2, (hperm _ (.swap ..) _).mpr hnotes, fun h => ?_,
    (hwalks rfl rfl noteV1 (by simp [notesAndCoupons])).1 rfl,
    (hwalks rfl rfl giftCoupon (by simp [notesAndCoupons])).2⟩
  obtain ⟨chain, hchain⟩ := hiff'.mpr h
  rw [hcoupons] at hchain
  cases hchain

end VeiledLedger.VersionFamily
