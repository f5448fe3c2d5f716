/-
  VeiledLedger.Proofs.Registry.Defects — what is wrong with a family that is refused.

  The error of a refused family names a defect that the family has, and blames a member that
  has it: one that is said to be on a cycle is itself on it and is not merely led to from
  there, and one that is said to be unreachable comes from another initial version.

  An empty name stands for "no member" where the first member is asked for. So a family whose
  members all upgrade from each other, the first of them without a name, is said to have no
  initial version (`nameless_cycle`).

  Main statement: `defect_of_refusal`.
-/

import VeiledLedger.Proofs.Registry.UpgradeOrder

namespace VeiledLedger.VersionFamily

variable {f : VersionFamily}

/-- The defect of `f` that an error claims. -/
def Defect (f : VersionFamily) : RegistryError → Prop
  | .duplicateMember family name => family = f.marker ∧ Repeated VersionedType.name name f.members
  | .unknownPredecessor family member source =>
    family = f.marker ∧ ∃ m ∈ f.members, m.name = member ∧ m.predecessor = some source ∧
      ∀ p ∈ f.members, p.name ≠ source
  | .branchingUpgrade family source =>
    family = f.marker ∧ ∃ p ∈ f.members, p.name = source ∧ Repeated VersionedType.predecessor (some source) f.members
  | .missingChainStart family => family = f.marker ∧ f.members = []
  | .cyclicUpgrade family member =>
    family = f.marker ∧ ∃ m ∈ f.members, m.name = member ∧ Relation.TransGen f.Upgrades m m
  | .unreachableVersion family member start =>
    family = f.marker ∧ ∃ m ∈ f.members, ∃ s ∈ f.members, m.name = member ∧ s.name = start ∧ s.predecessor = none ∧
      ¬Relation.ReflTransGen f.Upgrades s m ∧
      ∃ e ∈ f.members, e.predecessor = none ∧ e.name ≠ start ∧ Relation.ReflTransGen f.Upgrades e m
  | _ => False

theorem defect_of_verdict {e : RegistryError} (h : f.Verdict (.error e)) :
    f.Defect e ∨ ∃ m, f.members.head? = some m ∧ m.name = "" ∧ ∀ s ∈ f.members, s.predecessor ≠ none := by
  cases h with
  | duplicate htwice => exact .inl ⟨rfl, htwice⟩
  | unknown hm hsource hnone => exact .inl ⟨rfl, _, hm, rfl, hsource, hnone⟩
  | branching hp htwice => exact .inl ⟨rfl, _, hp, rfl, htwice⟩
  | empty hnil => exact .inl ⟨rfl, hnil⟩
  | nameless _ hfirst hname hsources => exact .inr ⟨_, hfirst, hname, hsources⟩
  | cyclic _ hm hcycle => exact .inl ⟨rfl, _, hm, rfl, hcycle⟩
  | unreachable hlinked hm hstart hinitial hout he hnone hlead =>
    refine .inl ⟨rfl, _, hm, _, hstart, rfl, rfl, hinitial, hout, _, he, hnone, fun hname => hout ?_, hlead⟩
    rwa [List.inj_on_of_nodup_map hlinked.distinct he hstart hname] at hlead

/-- The error of a family that is refused names a defect of it, and the start of the chain is missing
    in the family without members only. This takes a first member with a name, or else an initial
    version. -/
theorem defect_of_refusal (f : VersionFamily)
    (hnamed : ∀ m, f.members.head? = some m → m.name ≠ "" ∨ ∃ s ∈ f.members, s.predecessor = none) :
    (∀ e, f.ordered = .error e → f.Defect e) ∧
    ((∃ family, f.ordered = .error (.missingChainStart family)) ↔ f.members = []) := by
  have hdefect (e : RegistryError) (he : f.ordered = .error e) : f.Defect e := by
    have hverdict := f.verdict_ordered
    rw [he] at hverdict
    refine (defect_of_verdict hverdict).resolve_right ?_
    rintro ⟨m, hfirst, hname, hsources⟩
    rcases hnamed m hfirst with hne | ⟨s, hs, hinitial⟩
    · exact hne hname
    · exact hsources s hs hinitial
  refine ⟨hdefect, fun ⟨family, he⟩ => (hdefect _ he).2, fun hnil => ⟨f.marker, ?_⟩⟩
  obtain ⟨marker, members⟩ := f
  subst hnil
  rfl

/-- The coupon that is blamed is on the cycle, and the note that is blamed comes from another
    initial version. -/
theorem coupons_and_notes_blamed :
    notesAndCoupons.ordered = .error (.cyclicUpgrade "note" "app::Gift") ∧
    notesAndCoupons.Defect (.cyclicUpgrade "note" "app::Gift") ∧
    (⟨"note", [noteV1, ⟨"app::Bill", .struct [], none⟩, ⟨"app::BillV2", .struct [], some ("app::Bill", .ok)⟩]⟩ :
      VersionFamily).Defect (.unreachableVersion "note" "app::Bill" "app::Note") ∧
    ∃ family, (⟨"note", []⟩ : VersionFamily).ordered = .error (.missingChainStart family) := by
  have hnamed (g : VersionFamily) {m : VersionedType} (hfirst : g.members.head? = some m) (hname : m.name ≠ "") :
      ∀ x, g.members.head? = some x → x.name ≠ "" ∨ ∃ s ∈ g.members, s.predecessor = none := fun x hx => by
    cases hfirst.symm.trans hx
    exact .inl hname
  have hcoupons : notesAndCoupons.ordered = .error (.cyclicUpgrade "note" "app::Gift") := rfl
  refine ⟨hcoupons, (defect_of_refusal _ (hnamed _ (m := giftCoupon) rfl (by decide))).1 _ hcoupons,
    (defect_of_refusal _ (hnamed _ (m := noteV1) rfl (by decide))).1 _ rfl,
    (defect_of_refusal _ (fun _ h => by cases h)).2.mpr rfl⟩

def nameless : VersionFamily := ⟨"note", [⟨"", .struct [], some ("", .ok)⟩]⟩

/-- It is not blamed for the cycle that it is: the family is taken for one without members. -/
theorem nameless_cycle :
    nameless.ordered = .error (.missingChainStart "note") ∧
    ¬((∃ family, nameless.ordered = .error (.missingChainStart family)) ↔ nameless.members = []) ∧
    nameless.Defect (.cyclicUpgrade "note" "") := by
  have hordered : nameless.ordered = .error (.missingChainStart "note") := rfl
  refine ⟨hordered, fun hiff => ?_, rfl, _, List.mem_cons_self, rfl,
    .single ⟨List.mem_cons_self, List.mem_cons_self, rfl⟩⟩
  cases hiff.mp ⟨_, hordered⟩

end VeiledLedger.VersionFamily
