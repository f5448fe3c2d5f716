/-
  VeiledLedger.Proofs.Registry.Walks — following the upgrades of a family.

  A family is ordered by a walk from its initial version along the upgrades, and a member that
  was not met is looked into by a walk back along the predecessors. The walks that have no
  bound of their own are `Follows` and `Retraces`. No member upgrades from two members, so the
  walk along the upgrades never comes to a member twice: it would have come to its start
  before, and nothing leads there. Where no two members upgrade from one, the walk along the
  predecessors comes back to the member it started from before it comes to any other twice. So
  each ends within as many steps as there are members, and the bounds in `followUpgrades` and
  `returnsTo` are never what ends it.

  Main statements: `follows_of_initial`, `retraces_of_linked`, and for what the walks find
  `Follows.mem_of_reflTransGen`, `Retraces.self` and `Retraces.initial`.
-/

import Mathlib.Data.List.Chain
import Mathlib.Data.List.Nodup
import Mathlib.Data.List.Perm.Subperm
import Mathlib.Logic.Relator
import VeiledLedger.Registry.Family

namespace VeiledLedger

/-! ## Walks that pass no place twice -/

section
variable {α : Type} {R : α → α → Prop}

/-- With one way on from each place, a walk that is at its last place for the first time passes no
    other place twice: the second time it would not have gone on to the end. -/
theorem nodup_of_isChain_concat (hR : Relator.RightUnique R) {l : List α} {x : α} (h : (l ++ [x]).IsChain R)
    (hx : x ∉ l) : (l ++ [x]).Nodup := by
  induction l with
  | nil => exact List.nodup_singleton x
  | cons a l ih =>
    obtain ⟨hne, hx⟩ := not_or.mp (List.mem_cons.not.mp hx)
    rw [List.cons_append] at h ⊢
    obtain ⟨hfirst, htail⟩ := List.isChain_cons.mp h
    have hnodup := ih htail hx
    refine List.nodup_cons.mpr ⟨fun hmem => ?_, hnodup⟩
    have hmem : a ∈ l := (List.mem_append.mp hmem).resolve_right fun h => hne (List.mem_singleton.mp h).symm
    obtain ⟨i, hi, rfl⟩ := List.getElem_of_mem hmem
    -- what follows the second visit is what followed the first
    have hlt : i + 1 < (l ++ [x]).length := by
      rw [List.length_append, List.length_singleton]
      omega
    have hnext : R l[i] (l ++ [x])[i + 1] := by
      have := List.isChain_iff_getElem.mp htail i hlt
      rwa [List.getElem_append_left hi] at this
    have hhead : R l[i] (l ++ [x])[0] := hfirst _ (by
      rw [List.head?_eq_getElem?, List.getElem?_eq_getElem (by omega)]
      rfl)
    have hsame := (List.Nodup.getElem_inj_iff hnodup).mp (hR hnext hhead)
    omega

/-- With one way to each place, a walk that never comes back to its first place passes no place
    twice. -/
theorem nodup_of_isChain_cons (hR : Relator.LeftUnique R) {l : List α} {x : α} (h : (x :: l).IsChain R)
    (hx : x ∉ l) : (x :: l).Nodup := by
  rw [← List.nodup_reverse, List.reverse_cons]
  refine nodup_of_isChain_concat (R := fun a b => R b a) (fun _ _ _ hab hac => hR hab hac) ?_ fun hmem =>
    hx (List.mem_reverse.mp hmem)
  rw [← List.reverse_cons]
  exact List.isChain_reverse.mpr h

/-- With one way on from each place, two walks of one length from one place are the same. -/
theorem eq_of_isChain_cons (hR : Relator.RightUnique R) {l l' : List α} {x : α} (h : (x :: l).IsChain R)
    (h' : (x :: l').IsChain R) (hlen : l.length = l'.length) : l = l' := by
  induction l generalizing l' x with
  | nil => exact (List.length_eq_zero_iff.mp hlen.symm).symm
  | cons a l ih =>
    cases l' with
    | nil => cases hlen
    | cons b l' =>
      obtain ⟨ha, hl⟩ := List.isChain_cons_cons.mp h
      obtain ⟨hb, hl'⟩ := List.isChain_cons_cons.mp h'
      obtain rfl := hR ha hb
      rw [ih hl hl' (Nat.succ.inj hlen)]

/-- All places of a walk are reached from its first. -/
theorem reflTransGen_of_isChain_cons {l : List α} {x : α} (h : (x :: l).IsChain R) :
    ∀ y ∈ x :: l, Relation.ReflTransGen R x y := by
  induction l generalizing x with
  | nil =>
    intro y hy
    rw [List.mem_singleton.mp hy]
  | cons a l ih =>
    obtain ⟨ha, hl⟩ := List.isChain_cons_cons.mp h
    intro y hy
    rcases List.mem_cons.mp hy with rfl | hy
    · exact .refl
    · exact .head ha (ih hl y hy)

/-- With one way to each place, what is reached from a place to which nothing leads is on no cycle. -/
theorem not_transGen_of_reflTransGen (hR : Relator.LeftUnique R) {x y : α} (hx : ∀ a, ¬R a x)
    (h : Relation.ReflTransGen R x y) : ¬Relation.TransGen R y y := by
  induction h with
  | refl =>
    intro hcycle
    obtain ⟨a, -, ha⟩ := Relation.TransGen.tail'_iff.mp hcycle
    exact hx a ha
  | tail _ hstep ih =>
    intro hcycle
    obtain ⟨a, hto, ha⟩ := Relation.TransGen.tail'_iff.mp hcycle
    obtain rfl := hR ha hstep
    exact ih (Relation.TransGen.head' hstep hto)

end

/-- Where no two items share a key, looking a key up finds the item that has it. -/
theorem find?_key_eq_some {α β : Type} [DecidableEq β] (key : α → β) {l : List α} (h : (l.map key).Nodup) {k : β}
    {x : α} : l.find? (fun y => key y = k) = some x ↔ x ∈ l ∧ key x = k := by
  constructor
  · exact fun hx => ⟨List.mem_of_find?_eq_some hx, by simpa using List.find?_some hx⟩
  · rintro ⟨hx, rfl⟩
    cases hfind : l.find? (fun y => key y = key x) with
    | none => simpa using List.find?_eq_none.mp hfind x hx
    | some y =>
      have hkey : key y = key x := by simpa using List.find?_some hfind
      rw [List.inj_on_of_nodup_map h (List.mem_of_find?_eq_some hfind) hx hkey]

namespace VersionFamily

variable {f : VersionFamily}

/-! ## The upgrade relation -/

def Upgrades (f : VersionFamily) (a b : VersionedType) : Prop :=
  a ∈ f.members ∧ b ∈ f.members ∧ b.predecessor = some a.name

/-- What is checked of the members before any walk. -/
structure Linked (f : VersionFamily) : Prop where
  distinct : (f.members.map (·.name)).Nodup
  known : ∀ m ∈ f.members, ∀ source, m.predecessor = some source → ∃ p ∈ f.members, p.name = source
  unbranched : Relator.RightUnique f.Upgrades

theorem not_upgrades {m : VersionedType} (h : m.predecessor = none) (a : VersionedType) : ¬f.Upgrades a m := by
  rintro ⟨-, -, hsource⟩
  rw [h] at hsource
  cases hsource

theorem find?_eq_some (h : (f.members.map (·.name)).Nodup) {name : String} {m : VersionedType} :
    f.find? name = some m ↔ m ∈ f.members ∧ m.name = name :=
  find?_key_eq_some VersionedType.name h

theorem leftUnique_upgrades (h : (f.members.map (·.name)).Nodup) : Relator.LeftUnique f.Upgrades := by
  rintro a b c ⟨ha, -, hac⟩ ⟨hb, -, hbc⟩
  exact List.inj_on_of_nodup_map h ha hb (Option.some.inj (hac.symm.trans hbc))

theorem isChain_upgrades {l : List VersionedType} (h : l.IsChain (fun a b => b.predecessor = some a.name))
    (hmem : ∀ m ∈ l, m ∈ f.members) : l.IsChain f.Upgrades :=
  (List.IsChain.iff_mem.mp h).imp fun _ _ ⟨ha, hb, hab⟩ => ⟨hmem _ ha, hmem _ hb, hab⟩

/-! ## The walks without a bound -/

/-- Following upgrades from `m` meets the members `rest` and ends. -/
inductive Follows (f : VersionFamily) : (m : VersionedType) → (rest : List VersionedType) → Prop
  | last {m : VersionedType} : f.members.find? (fun next => next.predecessor = some m.name) = none → Follows f m []
  | next {m next : VersionedType} {rest : List VersionedType} :
      f.members.find? (fun next => next.predecessor = some m.name) = some next → Follows f next rest →
      Follows f m (next :: rest)

/-- Following predecessors from `m` ends: in a member called `name`, if `back`, or else in one that
    has no predecessor among the members. -/
inductive Retraces (f : VersionFamily) (name : String) : (m : VersionedType) → (back : Bool) → Prop
  | first {m : VersionedType} : m.predecessor.bind f.find? = none → Retraces f name m false
  | back {m before : VersionedType} : m.predecessor.bind f.find? = some before → before.name = name →
      Retraces f name m true
  | step {m before : VersionedType} {back : Bool} : m.predecessor.bind f.find? = some before → before.name ≠ name →
      Retraces f name before back → Retraces f name m back

/-- Each member that is met upgrades from the one met before it. -/
theorem isChain_followUpgrades (fuel : Nat) (m : VersionedType) :
    (m :: f.followUpgrades fuel m).IsChain (fun a b => b.predecessor = some a.name) := by
  induction fuel generalizing m with
  | zero => exact .singleton m
  | succ fuel ih =>
    unfold followUpgrades
    split
    · exact .singleton m
    · rename_i next hnext
      exact .cons_cons (by simpa using List.find?_some hnext) (ih next)

theorem mem_of_mem_followUpgrades {fuel : Nat} {m x : VersionedType} (h : x ∈ f.followUpgrades fuel m) :
    x ∈ f.members := by
  induction fuel generalizing m with
  | zero => cases h
  | succ fuel ih =>
    unfold followUpgrades at h
    split at h
    · cases h
    · rename_i next hnext
      rcases List.mem_cons.mp h with rfl | h
      · exact List.mem_of_find?_eq_some hnext
      · exact ih h

theorem follows_of_length_lt {fuel : Nat} {m : VersionedType} (h : (f.followUpgrades fuel m).length < fuel) :
    f.Follows m (f.followUpgrades fuel m) := by
  induction fuel generalizing m with
  | zero => exact absurd h (Nat.not_lt_zero _)
  | succ fuel ih =>
    unfold followUpgrades at h ⊢
    split
    · rename_i hnext
      exact .last hnext
    · rename_i next hnext
      rw [hnext] at h
      exact .next hnext (ih (Nat.lt_of_succ_lt_succ h))

theorem predecessor_of_mem_followUpgrades {fuel : Nat} {m x : VersionedType} (h : x ∈ f.followUpgrades fuel m) :
    x.predecessor ≠ none := by
  induction fuel generalizing m with
  | zero => cases h
  | succ fuel ih =>
    unfold followUpgrades at h
    split at h
    · cases h
    · rename_i next hnext
      rcases List.mem_cons.mp h with rfl | h
      · have hsource : x.predecessor = some m.name := by simpa using List.find?_some hnext
        rw [hsource]
        exact Option.some_ne_none _
      · exact ih h

/-- The walk from an initial version ends by itself, whatever else the family holds, and meets no
    member twice. -/
theorem follows_of_initial (hdistinct : (f.members.map (·.name)).Nodup) {start : VersionedType}
    (hstart : start ∈ f.members) (hinitial : start.predecessor = none) :
    f.Follows start (f.followUpgrades f.members.length start) ∧
      (start :: f.followUpgrades f.members.length start).Nodup := by
  have hmem : ∀ m ∈ start :: f.followUpgrades f.members.length start, m ∈ f.members :=
    List.forall_mem_cons.mpr ⟨hstart, fun _ => mem_of_mem_followUpgrades⟩
  have hnodup := nodup_of_isChain_cons (leftUnique_upgrades hdistinct)
    (isChain_upgrades (isChain_followUpgrades _ start) hmem) fun h => predecessor_of_mem_followUpgrades h hinitial
  exact ⟨follows_of_length_lt (hnodup.subperm hmem).length_le, hnodup⟩

theorem bind_find?_eq_some (h : f.Linked) {m before : VersionedType} (hm : m ∈ f.members) :
    m.predecessor.bind f.find? = some before ↔ f.Upgrades before m := by
  rw [Option.bind_eq_some_iff]
  constructor
  · rintro ⟨source, hsource, hfind⟩
    obtain ⟨hbefore, rfl⟩ := (find?_eq_some h.distinct).mp hfind
    exact ⟨hbefore, hm, hsource⟩
  · rintro ⟨hbefore, -, hsource⟩
    exact ⟨_, hsource, (find?_eq_some h.distinct).mpr ⟨hbefore, rfl⟩⟩

/-- The predecessors of `m` have been followed back to `x`, along the upgrades from `x` to `m`, and
    `m` was not among them. -/
theorem retraces_of_path (h : f.Linked) {m : VersionedType} (hm : m ∈ f.members) {fuel : Nat} {x : VersionedType}
    {l : List VersionedType} (hhead : (l ++ [m]).head? = some x) (hpath : (l ++ [m]).IsChain f.Upgrades)
    (hmem : ∀ y ∈ l ++ [m], y ∈ f.members) (hnew : m ∉ l) (hfuel : fuel + l.length = f.members.length) :
    f.Retraces m.name x (f.returnsTo m.name fuel x) := by
  unfold returnsTo
  split
  · rename_i hnone
    exact .first hnone
  rename_i before hbefore
  split
  · rename_i hname
    exact .back hbefore hname
  rename_i hname
  have hstep : f.Upgrades before x := (bind_find?_eq_some h (hmem x (List.mem_of_head? hhead))).mp hbefore
  have hpath : (before :: l ++ [m]).IsChain f.Upgrades :=
    List.isChain_cons.mpr ⟨fun y hy => (Option.some.inj (hhead.symm.trans hy)) ▸ hstep, hpath⟩
  have hmem : ∀ y ∈ before :: l ++ [m], y ∈ f.members := List.forall_mem_cons.mpr ⟨hstep.1, hmem⟩
  have hnew : m ∉ before :: l := List.not_mem_cons_of_ne_of_not_mem (fun he => hname (congrArg _ he.symm)) hnew
  -- all of the path are different members, so there is a step left
  have hlen := ((nodup_of_isChain_concat h.unbranched hpath hnew).subperm hmem).length_le
  rw [List.length_append, List.length_cons, List.length_singleton] at hlen
  cases fuel with
  | zero => omega
  | succ fuel => exact .step hbefore hname (retraces_of_path h hm rfl hpath hmem hnew (by rw [List.length_cons]; omega))

/-- Going back from a member ends by itself too. -/
theorem retraces_of_linked (h : f.Linked) {m : VersionedType} (hm : m ∈ f.members) :
    f.Retraces m.name m (f.returnsTo m.name f.members.length m) :=
  retraces_of_path h hm (l := []) rfl (.singleton m) (by simpa using hm) List.not_mem_nil (Nat.add_zero _)

/-! ## Where the walks lead -/

theorem Retraces.cycle (h : f.Linked) {name : String} {m : VersionedType} (hm : m ∈ f.members)
    (hback : f.Retraces name m true) : ∃ b ∈ f.members, b.name = name ∧ Relation.TransGen f.Upgrades b m := by
  generalize he : true = back at hback
  induction hback with
  | first => cases he
  | back hbefore hname =>
    have hstep := (bind_find?_eq_some h hm).mp hbefore
    exact ⟨_, hstep.1, hname, .single hstep⟩
  | step hbefore _ _ ih =>
    have hstep := (bind_find?_eq_some h hm).mp hbefore
    obtain ⟨b, hb, hname, hlead⟩ := ih hstep.1 he
    exact ⟨b, hb, hname, hlead.tail hstep⟩

theorem Retraces.initial (h : f.Linked) {name : String} {m : VersionedType} (hm : m ∈ f.members)
    (hback : f.Retraces name m false) :
    ∃ e ∈ f.members, e.predecessor = none ∧ Relation.ReflTransGen f.Upgrades e m := by
  generalize he : false = back at hback
  induction hback with
  | @first m hnone =>
    cases hsource : m.predecessor with
    | none => exact ⟨m, hm, hsource, .refl⟩
    | some source =>
      obtain ⟨p, hp, rfl⟩ := h.known m hm source hsource
      rw [(bind_find?_eq_some h hm).mpr ⟨hp, hm, hsource⟩] at hnone
      cases hnone
  | back => cases he
  | step hbefore _ _ ih =>
    have hstep := (bind_find?_eq_some h hm).mp hbefore
    obtain ⟨e, hinitial, hnone, hlead⟩ := ih hstep.1 he
    exact ⟨e, hinitial, hnone, hlead.tail hstep⟩

/-- A member whose predecessors lead back to its name is on a cycle. -/
theorem Retraces.self (h : f.Linked) {m : VersionedType} (hm : m ∈ f.members) (hback : f.Retraces m.name m true) :
    Relation.TransGen f.Upgrades m m := by
  obtain ⟨b, hb, hname, hlead⟩ := hback.cycle h hm
  rwa [List.inj_on_of_nodup_map h.distinct hb hm hname] at hlead

/-- The walk along the upgrades leaves out nothing that is reached from its start. -/
theorem Follows.closed (h : f.Linked) {m : VersionedType} {rest : List VersionedType} (hm : m ∈ f.members)
    (hwalk : f.Follows m rest) : ∀ a ∈ m :: rest, ∀ b, f.Upgrades a b → b ∈ m :: rest := by
  induction hwalk with
  | last hnone =>
    intro a ha b hab
    cases List.mem_singleton.mp ha
    exact absurd (decide_eq_true hab.2.2) (List.find?_eq_none.mp hnone b hab.2.1)
  | @next m next rest hnext _ ih =>
    have hstep : f.Upgrades m next := ⟨hm, List.mem_of_find?_eq_some hnext, by simpa using List.find?_some hnext⟩
    intro a ha b hab
    rcases List.mem_cons.mp ha with rfl | ha
    · rw [h.unbranched hab hstep]
      exact List.mem_cons_of_mem _ List.mem_cons_self
    · exact List.mem_cons_of_mem _ (ih hstep.2.1 a ha b hab)

theorem Follows.mem_of_reflTransGen (h : f.Linked) {start m : VersionedType} {rest : List VersionedType}
    (hstart : start ∈ f.members) (hwalk : f.Follows start rest) (hm : Relation.ReflTransGen f.Upgrades start m) :
    m ∈ start :: rest := by
  induction hm with
  | refl => exact List.mem_cons_self
  | tail _ hstep ih => exact hwalk.closed h hstart _ ih _ hstep

/-- Where no member is initial, each is on a cycle. -/
theorem transGen_of_startless (h : f.Linked) (hnone : ∀ m ∈ f.members, m.predecessor ≠ none) {m : VersionedType}
    (hm : m ∈ f.members) : Relation.TransGen f.Upgrades m m := by
  have hwalk := retraces_of_linked h hm
  cases hback : f.returnsTo m.name f.members.length m with
  | true => exact (hback ▸ hwalk).self h hm
  | false =>
    obtain ⟨e, he, hinitial, -⟩ := (hback ▸ hwalk).initial h hm
    exact absurd hinitial (hnone e he)

end VersionFamily

end VeiledLedger
