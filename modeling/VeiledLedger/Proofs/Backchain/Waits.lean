/-
  VeiledLedger.Proofs.Backchain.Waits — who waits for whom.

  A request waits for the owner of a slot, and has one wait at a time. A wait may outlive the
  owner it was begun for: the slot may be given back, and another request may take it before
  the waiting one has woken. So an edge between requests appears in two ways. A request begins
  to wait, and has made sure that no loop closes; or it takes a slot that others wait for, and
  then it does not wait itself. Neither closes a loop (`acyclic_of_exits`, `acyclic_of_sink`).

  Without loops, whoever follows the waits meets no request twice, so a search that goes on for
  one owner more than there are waits misses nothing (`wouldDeadlock_iff`).

  Main statement: `waits_acyclic`. The last section is for the cases in which a loop would have
  closed: then the transactions lie on a cycle of pointers (`closed_on_cycle`).
-/

import Mathlib.Data.List.Perm.Subperm
import Mathlib.Logic.Relation
import VeiledLedger.Proofs.Backchain.Ownership

namespace VeiledLedger.Backchain

open Relation

namespace Table

def WaitsFor (t : Table) (r q : RequestId) : Prop :=
  ∃ id, t.waiting.get? r = some id ∧ t.slot? id = some (.verifying q)

def Acyclic (t : Table) : Prop := ∀ r, ¬TransGen t.WaitsFor r r

/-- Following owners and what they wait for leads from `id` to a slot of `request`. -/
def Leads (t : Table) (request : RequestId) (id : TransactionId) : Prop :=
  ∃ owner, t.slot? id = some (.verifying owner) ∧ ReflTransGen t.WaitsFor owner request

variable {t : Table} {request : RequestId} {id : TransactionId}

/-! ## The search along the waits -/

theorem leads_of_leadsTo {fuel : Nat} (h : t.leadsTo request fuel id = true) : t.Leads request id := by
  induction fuel generalizing id with
  | zero => cases h
  | succ fuel ih =>
    unfold leadsTo at h
    split at h
    · rename_i owner hs
      by_cases howner : owner = request
      · subst howner
        exact ⟨owner, hs, .refl⟩
      · rw [if_neg howner] at h
        split at h
        · rename_i next hn
          obtain ⟨owner', hs', hpath⟩ := ih h
          exact ⟨owner, hs, .head ⟨next, hn, hs'⟩ hpath⟩
        · cases h
    · cases h

theorem leadsTo_mono {fuel fuel' : Nat} (hle : fuel ≤ fuel') (h : t.leadsTo request fuel id = true) :
    t.leadsTo request fuel' id = true := by
  induction fuel generalizing fuel' id with
  | zero => cases h
  | succ fuel ih =>
    cases fuel' with
    | zero => omega
    | succ fuel' =>
      unfold leadsTo at h ⊢
      split at h
      · by_cases howner : ‹RequestId› = request
        · rw [if_pos howner]
        · rw [if_neg howner] at h ⊢
          split at h
          · exact ih (by omega) h
          · cases h
      · cases h

/-- Without loops the requests on the way are distinct, and all but the last one wait. -/
theorem leadsTo_of_path (hacyclic : t.Acyclic) {owner : RequestId} (hpath : ReflTransGen t.WaitsFor owner request) :
    ∃ visited : List RequestId, visited.Nodup ∧ (∀ x ∈ visited, ReflTransGen t.WaitsFor owner x) ∧
      (∀ x ∈ visited, ∃ next, t.waiting.get? x = some next) ∧
      ∀ id, t.slot? id = some (.verifying owner) → t.leadsTo request (visited.length + 1) id = true := by
  induction hpath using ReflTransGen.head_induction_on with
  | refl =>
    refine ⟨[], List.nodup_nil, by simp, by simp, fun id hs => ?_⟩
    unfold leadsTo
    simp [hs]
  | @head a b hab _ ih =>
    obtain ⟨visited, hnodup, hreached, hwait, hlead⟩ := ih
    obtain ⟨next, hnext, hslot⟩ := id hab
    have hfresh : a ∉ visited := fun ha => hacyclic a (.head' hab (hreached a ha))
    refine ⟨a :: visited, List.nodup_cons.mpr ⟨hfresh, hnodup⟩, fun x hx => ?_, fun x hx => ?_, fun id hs => ?_⟩
    · rcases List.mem_cons.mp hx with rfl | hx
      · exact .refl
      · exact .head hab (hreached x hx)
    · rcases List.mem_cons.mp hx with rfl | hx
      · exact ⟨next, hnext⟩
      · exact hwait x hx
    · rw [List.length_cons]
      unfold leadsTo
      simp only [hs, hnext]
      by_cases ha : a = request
      · rw [if_pos ha]
      · rw [if_neg ha]
        exact hlead next hslot

/-- The search goes far enough: it stops one owner after the number of waits. -/
theorem wouldDeadlock_iff (hacyclic : t.Acyclic) (request : RequestId) (id : TransactionId) :
    t.wouldDeadlock request id = true ↔ t.Leads request id := by
  constructor
  · exact leads_of_leadsTo
  · intro h
    obtain ⟨owner, hs, hpath⟩ := h
    obtain ⟨visited, hnodup, -, hwait, hlead⟩ := leadsTo_of_path hacyclic hpath
    have hkeys : visited ⊆ t.waiting.keys := by
      intro x hx
      obtain ⟨next, hnext⟩ := hwait x hx
      exact Assoc.mem_keys_of_get? hnext
    have hlength : visited.length ≤ t.waiting.length := by
      have hle := (hnodup.subperm hkeys).length_le
      rwa [Assoc.length_keys] at hle
    exact leadsTo_mono (by omega) (hlead id hs)

theorem waitsFor_of_wake {r a b : RequestId} (h : (t.wake r).WaitsFor a b) : t.WaitsFor a b := by
  obtain ⟨x, hx, hs⟩ := h
  rw [waiting_wake] at hx
  split at hx
  · cases hx
  · exact ⟨x, hx, hs⟩

theorem Leads.of_wake {r : RequestId} (h : (t.wake r).Leads request id) : t.Leads request id := by
  obtain ⟨owner, hs, hpath⟩ := h
  exact ⟨owner, hs, ReflTransGen.mono (fun _ _ => waitsFor_of_wake) _ _ hpath⟩

/-- Whoever is led to holds a slot. -/
theorem Leads.slot (h : t.Leads request id) : ∃ id, t.slot? id = some (.verifying request) := by
  obtain ⟨owner, hs, hpath⟩ := h
  rcases hpath.cases_tail with rfl | ⟨b, -, x, -, hx⟩
  · exact ⟨id, hs⟩
  · exact ⟨x, hx⟩

theorem Acyclic.wake (h : t.Acyclic) (r : RequestId) : (t.wake r).Acyclic :=
  fun x hx => h x (TransGen.mono (fun _ _ => waitsFor_of_wake) _ _ hx)

end Table

/-- Who finds a loop closed is led back to itself. -/
theorem Walk.Looks.leads {S : Type} {a : Surroundings (StateM S)} {t t' : Table} {σ σ' : S} {w : Walk} {target : Claim}
    (hl : Looks a t σ w target t' σ') {owner : RequestId} (hs : t.slot? target.id = some (.verifying owner))
    (h : owner = w.request ∨ t'.wouldDeadlock w.request target.id = true) : t.Leads w.request target.id := by
  rcases h with rfl | h
  · exact ⟨_, hs, .refl⟩
  · cases hl with
    | first => exact Table.leads_of_leadsTo h
    | again => exact (Table.leads_of_leadsTo h).of_wake

/-! ## Edges that close no loop -/

section
variable {R R' : RequestId → RequestId → Prop} {r : RequestId}

/-- New edges start at `r`, and from where they lead there was no way to `r`. -/
theorem acyclic_of_exits (hacyclic : ∀ x, ¬TransGen R x x)
    (hedge : ∀ a b, R' a b → R a b ∨ a = r ∧ ¬ReflTransGen R b r) : ∀ x, ¬TransGen R' x x := by
  -- up to its first visit to `r`, a way along `R'` is one along `R`
  have hback : ∀ a, ReflTransGen R' a r → ReflTransGen R a r := by
    intro a ha
    induction ha using ReflTransGen.head_induction_on with
    | refl => exact .refl
    | @head a b hab _ ih =>
      rcases hedge a b hab with h | ⟨rfl, -⟩
      · exact .head h ih
      · exact .refl
  have hsplit : ∀ {a b}, TransGen R' a b → TransGen R a b ∨ ReflTransGen R' a r ∧ TransGen R' r b := by
    intro a b h
    induction h with
    | single hab =>
      rcases hedge _ _ hab with h | ⟨rfl, -⟩
      · exact .inl (.single h)
      · exact .inr ⟨.refl, .single hab⟩
    | tail hprev hbc ih =>
      rcases ih with ih | ⟨har, hrb⟩
      · rcases hedge _ _ hbc with h | ⟨rfl, -⟩
        · exact .inl (.tail ih h)
        · exact .inr ⟨hprev.to_reflTransGen, .single hbc⟩
      · exact .inr ⟨har, .tail hrb hbc⟩
  intro x hx
  rcases hsplit hx with h | ⟨hxr, hrx⟩
  · exact hacyclic x h
  · obtain ⟨b, hrb, hbr⟩ := TransGen.head'_iff.mp (hrx.trans_left hxr)
    rcases hedge r b hrb with h | ⟨-, h⟩
    · exact hacyclic r (.head' h (hback b hbr))
    · exact h (hback b hbr)

/-- New edges lead to `r`, and none leads on from there. -/
theorem acyclic_of_sink (hacyclic : ∀ x, ¬TransGen R x x) (hexit : ∀ b, ¬R' r b)
    (hedge : ∀ a b, R' a b → b ≠ r → R a b) : ∀ x, ¬TransGen R' x x := by
  have hold : ∀ {a b}, TransGen R' a b → b ≠ r → TransGen R a b := by
    intro a b h
    induction h with
    | single hab => exact fun hb => .single (hedge _ _ hab hb)
    | @tail b c _ hbc ih =>
      intro hc
      have hb : b ≠ r := fun e => hexit c (e ▸ hbc)
      exact .tail (ih hb) (hedge _ _ hbc hc)
  intro x hx
  obtain ⟨b, hxb, -⟩ := TransGen.head'_iff.mp hx
  have hne : x ≠ r := fun e => hexit b (e ▸ hxb)
  exact hacyclic x (hold hx hne)

end

/-! ## Runs -/

/-- The waits are those of the blocked walks, and they close no loop. -/
structure Orderly (s : World) : Prop where
  owned : Owned s
  blocked : ∀ (i : RequestId) (w : Walk) (target : Claim), s.walks[i]? = some w → w.phase = .blocked target →
    s.table.waiting.get? i = some target.id
  distinct : s.table.waiting.keys.Nodup
  acyclic : s.table.Acyclic

theorem orderly_start (σ : RecordStore) : Orderly (.start σ) := by
  refine ⟨owned_start σ, fun i w target h => (by cases h), List.nodup_nil, fun r h => ?_⟩
  obtain ⟨b, ⟨id, hwait, -⟩, -⟩ := TransGen.head'_iff.mp h
  cases hwait

theorem orderly_enroll {s : World} (h : Orderly s) (id : TransactionId) : Orderly (s.enroll id) := by
  refine ⟨owned_enroll h.owned id, fun i w target hi hp => ?_, h.distinct, h.acyclic⟩
  rcases World.walk_of_enroll hi with hi | rfl
  · exact h.blocked i w target hi hp
  · cases hp

section
variable {s : World} {a : Around} {w w' : Walk} {t' : Table} {σ' : RecordStore}

/-- A step that ends blocked adds one wait, and the search has found nothing in its way. -/
theorem acyclic_of_blocked (h : s.table.Acyclic) (hstep : Walk.Step a s.table s.store w t' σ' w') {target : Claim}
    (hp : w'.phase = .blocked target) : t'.Acyclic := by
  obtain ⟨t₁, owner, hl, -, hfree, rfl⟩ := hstep.blocked hp
  have h₁ : t₁.Acyclic := by
    cases hl with
    | first => exact h
    | again => exact h.wake w.request
  refine acyclic_of_exits (R := t₁.WaitsFor) (r := w.request) h₁ fun a b hab => ?_
  obtain ⟨x, hx, hslot⟩ := hab
  rw [Table.waiting_wait] at hx
  by_cases ha : a = w.request
  · rw [if_pos ha] at hx
    cases hx
    refine .inr ⟨ha, fun hback => ?_⟩
    have hfound := (Table.wouldDeadlock_iff h₁ w.request target.id).mpr ⟨b, hslot, hback⟩
    exact absurd (hfound.symm.trans hfree) (by simp)
  · rw [if_neg ha] at hx
    exact .inl ⟨x, hx, hslot⟩

/-- A step that does not end blocked leaves its request without a wait. -/
theorem acyclic_of_not_blocked (h : Orderly s) {i : RequestId} (hi : s.walks[i]? = some w)
    (hstep : Walk.Step a s.table s.store w t' σ' w') (hp : ∀ target, w'.phase ≠ .blocked target) : t'.Acyclic := by
  have hr : w.request = i := h.owned.request i w hi
  have hnone : ∀ id, t'.waiting.get? i ≠ some id := by
    intro id hq
    rcases hstep.waiting hq with ⟨-, target, hb, -⟩ | ⟨hold, hfree⟩
    · exact hp target hb
    · obtain ⟨x, target, hx, hb, -⟩ := h.owned.waits i id hold
      cases hi.symm.trans hx
      exact hfree hr.symm target hb
  refine acyclic_of_sink (r := i) h.acyclic (fun b hb => ?_) fun a b hab hb => ?_
  · obtain ⟨x, hx, -⟩ := hb
    exact hnone x hx
  · obtain ⟨x, hx, hslot⟩ := hab
    have ha : a ≠ w.request := by
      intro ha
      rw [ha, hr] at hx
      exact hnone x hx
    refine ⟨x, (hstep.waiting_of_ne ha).symm.trans hx, ?_⟩
    rcases hstep.verifying_slot hslot with hold | ⟨rfl, -⟩
    · exact hold
    · exact absurd hr hb

end

theorem orderly_proceed {s : World} (h : Orderly s) (i : RequestId) (a : Around) : Orderly (s.proceed i a) := by
  cases hi : s.walks[i]? with
  | none =>
    rw [World.proceed_of_none hi]
    exact h
  | some w =>
    obtain ⟨w', hstep, hi'⟩ := World.proceed_step hi a
    have hr : w.request = i := h.owned.request i w hi
    refine ⟨owned_proceed h.owned i a, fun j x target hj hp => ?_, hstep.waiting_distinct h.distinct, ?_⟩
    · by_cases hji : j = i
      · subst hji
        cases hi'.symm.trans hj
        obtain ⟨t₁, owner, -, -, -, he⟩ := hstep.blocked hp
        rw [he, Table.waiting_wait, if_pos hr.symm]
      · have hx : s.walks[j]? = some x := (World.proceed_of_ne hji s a).symm.trans hj
        have hne : j ≠ w.request := fun e => hji (e.trans hr)
        exact (hstep.waiting_of_ne hne).trans (h.blocked j x target hx hp)
    · by_cases hp : ∃ target, w'.phase = .blocked target
      · obtain ⟨target, hp⟩ := hp
        exact acyclic_of_blocked h.acyclic hstep hp
      · exact acyclic_of_not_blocked h hi hstep fun target hb => hp ⟨target, hb⟩

theorem orderly_after (σ : RecordStore) (events : List Event) : Orderly ((World.start σ).after events) := by
  refine World.after_induction (orderly_start σ) fun e _ s h => ?_
  cases e with
  | request id => exact orderly_enroll h id
  | step i a => exact orderly_proceed h i a

/-- Whatever fails and in whatever order steps fall, the waits are those of the blocked
    requests, one for each, and close no loop. When a request looks at a slot, for the first
    time or after its wait has been taken away, the search tells exactly whether the waits lead
    back to it. -/
theorem waits_acyclic (σ : RecordStore) (events : List Event) :
    let t := ((World.start σ).after events).table
    (∀ r id, t.waiting.get? r = some id ↔
      ∃ w target, ((World.start σ).after events).walks[r]? = some w ∧ w.phase = .blocked target ∧ target.id = id) ∧
    t.waiting.keys.Nodup ∧
    (∀ r, ¬TransGen t.WaitsFor r r) ∧
    ∀ r id, (t.wouldDeadlock r id = true ↔ t.Leads r id) ∧
      ((t.wake r).wouldDeadlock r id = true ↔ (t.wake r).Leads r id) := by
  intro t
  have h := orderly_after σ events
  refine ⟨fun r id => ⟨h.owned.waits r id, ?_⟩, h.distinct, h.acyclic, fun r id => ⟨?_, ?_⟩⟩
  · intro hb
    obtain ⟨w, target, hw, hp, rfl⟩ := hb
    exact h.blocked r w target hw hp
  · exact Table.wouldDeadlock_iff h.acyclic r id
  · exact Table.wouldDeadlock_iff (h.acyclic.wake r) r id

/-! ## A loop of waits is a cycle

  `R` is any relation along which walks descend: each frame of a walk leads down to the
  transaction that the walk looks at.
-/

/-- Each walk that looks at a transaction, or is about to, has come down to it along `R`. -/
def Descends (R : TransactionId → TransactionId → Prop) (s : World) : Prop :=
  ∀ w ∈ s.walks, ∀ target, w.phase = .visit target ∨ w.phase = .blocked target →
    ∀ f ∈ w.stack, TransGen R f.claim.id target.id

section
variable {R : TransactionId → TransactionId → Prop} {s : World}

/-- From a transaction that a waiting request holds, the one it waits for is reached. -/
theorem waits_reach (ho : Owned s) (hd : Descends R s) {r : RequestId} {id next : TransactionId}
    (hid : s.table.slot? id = some (.verifying r)) (hr : s.table.waiting.get? r = some next) : TransGen R id next := by
  obtain ⟨w, target, hw, hp, rfl⟩ := ho.waits r next hr
  obtain ⟨w', hw', claim, hmem, rfl⟩ := ho.owner id r hid
  cases hw.symm.trans hw'
  simp only [Walk.claims, hp, Phase.claims, List.nil_append] at hmem
  obtain ⟨f, hf, rfl⟩ := List.mem_map.mp hmem
  exact hd w (List.mem_of_getElem? hw) target (.inr hp) f hf

theorem leads_reaches (ho : Owned s) (hd : Descends R s) {r : RequestId} {id : TransactionId}
    (h : s.table.Leads r id) : ∃ y, ReflTransGen R id y ∧ s.table.slot? y = some (.verifying r) := by
  obtain ⟨owner, hs, hpath⟩ := h
  induction hpath using ReflTransGen.head_induction_on generalizing id with
  | refl => exact ⟨id, .refl, hs⟩
  | head hab _ ih =>
    obtain ⟨next, hnext, hslot⟩ := hab
    obtain ⟨y, hy, hyr⟩ := ih hslot
    exact ⟨y, (waits_reach ho hd hs hnext).to_reflTransGen.trans hy, hyr⟩

/-- A walk that finds a loop closed stands on a cycle. -/
theorem closed_on_cycle (ho : Owned s) (hd : Descends R s) {i : RequestId} {w : Walk} (hw : s.walks[i]? = some w)
    {a : Around} {target : Claim} {t' : Table} {σ' : RecordStore}
    (hl : Walk.Looks a s.table s.store w target t' σ') {owner : RequestId}
    (hs : s.table.slot? target.id = some (.verifying owner))
    (h : owner = w.request ∨ t'.wouldDeadlock w.request target.id = true) : TransGen R target.id target.id := by
  obtain ⟨y, hy, hyr⟩ := leads_reaches ho hd (hl.leads hs h)
  -- the owner is the walk itself, so `y` is the transaction of one of its frames
  obtain ⟨w', hw', claim, hmem, rfl⟩ := ho.owner y w.request hyr
  rw [ho.request i w hw, hw] at hw'
  cases hw'
  rw [hl.claims] at hmem
  obtain ⟨f, hf, rfl⟩ := List.mem_map.mp hmem
  exact .trans_right hy (hd w (List.mem_of_getElem? hw) target hl.phase f hf)

end

end VeiledLedger.Backchain
