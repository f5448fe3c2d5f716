/-
  VeiledLedger.Proofs.Backchain.Checks — no transaction is checked twice without a reason.

  The request that checks a transaction holds its slot from before the check until the slot is
  settled (`Past`). There are two ways out: the transaction is decided, and then its slot stays
  as it is for ever; or the request fails for a reason that may go away, and gives the slot
  back (`GivesBack`). Only after that another check can begin.

  Main statement: `checked_at_most_once`.
-/

import VeiledLedger.Proofs.Backchain.Claims
import VeiledLedger.Proofs.Backchain.Verdict

namespace VeiledLedger.Backchain

def Walk.falters (w : Walk) : Bool :=
  match w.phase with
  | .unwind _ f => !f.cause.isFinal
  | _ => false

def World.falters (s : World) : Bool := s.walks.any Walk.falters

/-- The next step of request `i` takes its name off the slot of `id`, and leaves the slot free:
    the request has failed, and not for good. -/
structure GivesBack (s : World) (i : RequestId) (a : Around) (id : TransactionId) : Prop where
  held : s.table.slot? id = some (.verifying i)
  free : (s.proceed i a).table.slot? id = none
  failure : ∃ w claim cs f, s.walks[i]? = some w ∧ w.phase = .unwind (claim :: cs) f ∧ claim.id = id ∧
    f.cause.isFinal = false

/-- Request `i` holds the transaction, and does not check it any more. -/
structure Past (s : World) (i : RequestId) (id : TransactionId) : Prop where
  slot : s.table.slot? id = some (.verifying i)
  checked : ¬s.Checking i id

variable {s : World} {i j : RequestId} {id : TransactionId} {a : Around}

theorem GivesBack.falters (h : GivesBack s i a id) : s.falters = true := by
  obtain ⟨w, claim, cs, f, hw, hp, -, hf⟩ := h.failure
  refine List.any_eq_true.mpr ⟨w, List.mem_of_getElem? hw, ?_⟩
  simp [Walk.falters, hp, hf]

namespace World

/-- After a step a request is at a check if it was there before, or if it has found the slot free. -/
theorem checking_of_proceed (h : (s.proceed i a).Checking j id) :
    s.table.slot? id = none ∨ j ≠ i ∧ s.Checking j id := by
  obtain ⟨x, claim, hx, hp, rfl⟩ := h
  rcases walk_of_proceed hx with ⟨hne, hold⟩ | ⟨rfl, w, hw, hstep⟩
  · exact .inr ⟨hne, x, claim, hold, hp, rfl⟩
  · exact .inl (hstep.at_check hp)

theorem checking_of_enroll {root : TransactionId} (h : (s.enroll root).Checking j id) : s.Checking j id := by
  obtain ⟨x, claim, hx, hp, hid⟩ := h
  rcases walk_of_enroll hx with hold | rfl
  · exact ⟨x, claim, hold, hp, hid⟩
  · cases hp

end World

/-! ## From one check to the next -/

namespace Exclusive

theorem past_of_examination (h : Exclusive s) {e : Event} {x : Examination} (hx : s.examination? e = some x) :
    Past (s.next e) x.request x.id := by
  obtain ⟨a, rfl, hc, -⟩ := World.examination?_eq_some hx
  have hs := h.checking hc
  constructor
  · obtain ⟨w, claim, hw, hp, hid⟩ := hc
    cases h.turn x.request a x.id with
    | stays he => exact he.trans hs
    | claimed hn => cases hn.symm.trans hs
    | verified _ hw' hp' | settled _ hw' hp' =>
      cases hw.symm.trans hw'
      cases hp.symm.trans hp'
  · intro hc'
    rcases World.checking_of_proceed hc' with hn | ⟨hne, -⟩
    · cases hn.symm.trans hs
    · exact hne rfl

theorem past_next (h : Exclusive s) (hp : Past s i id) (e : Event) :
    Past (s.next e) i id ∨ (s.next e).table.Decided id ∨ ∃ a, e = .step i a ∧ GivesBack s i a id := by
  cases e with
  | request root => exact .inl ⟨hp.slot, fun hc => hp.checked (World.checking_of_enroll hc)⟩
  | step j a =>
    cases h.turn j a id with
    | stays he =>
      refine .inl ⟨he.trans hp.slot, fun hc => ?_⟩
      rcases World.checking_of_proceed hc with hn | ⟨-, hc⟩
      · cases hn.symm.trans hp.slot
      · exact hp.checked hc
    | claimed hn => cases hn.symm.trans hp.slot
    | verified _ _ _ _ hs => exact .inr (.inl (.inl ⟨_, hs⟩))
    | @settled w claim cs f ho hw hphase hid hs =>
      cases ho.symm.trans hp.slot
      cases hf : f.cause.isFinal with
      | true =>
        rw [hf, if_pos rfl] at hs
        exact .inr (.inl (.inr ⟨f, hs⟩))
      | false =>
        rw [hf, if_neg Bool.false_ne_true] at hs
        exact .inr (.inr ⟨a, rfl, ho, hs, w, claim, cs, f, hw, hphase, hid, hf⟩)

theorem past_after (h : Exclusive s) (hp : Past s i id) (events : List Event) :
    Past (s.after events) i id ∨ (s.after events).table.Decided id ∨
      ∃ mid a rest, events = mid ++ .step i a :: rest ∧ GivesBack (s.after mid) i a id := by
  induction events generalizing s with
  | nil => exact .inl hp
  | cons e es ih =>
    rcases h.past_next hp e with hpast | hd | ⟨a, rfl, hback⟩
    · rcases ih (exclusive_next h e) hpast with hend | hd | ⟨mid, a, rest, rfl, hback⟩
      · exact .inl hend
      · exact .inr (.inl hd)
      · exact .inr (.inr ⟨e :: mid, a, rest, rfl, hback⟩)
    · exact .inr (.inl (hd.of_eq ((exclusive_next h e).decided_after hd es)))
    · exact .inr (.inr ⟨[], a, es, rfl, hback⟩)

theorem checking_unique (h : Exclusive s) (hi : s.Checking i id) (hj : s.Checking j id) : i = j := by
  have hslot := (h.checking hi).symm.trans (h.checking hj)
  exact Slot.verifying.inj (Option.some.inj hslot)

theorem decided_unchecked (h : Exclusive s) (hd : s.table.Decided id) (events : List Event) (i : RequestId) :
    ¬(s.after events).Checking i id := by
  intro hc
  have hslot := (h.after events).checking hc
  rw [h.decided_after hd events] at hslot
  exact hd.not_verifying i hslot

/-- The request that made the first of two checks has given the slot back before the second. -/
theorem givesBack_between (h : Exclusive s) {e e' : Event} {between : List Event} {x y : Examination}
    (hx : s.examination? e = some x) (hy : ((s.next e).after between).examination? e' = some y) (hid : x.id = y.id) :
    ∃ mid a rest, between = mid ++ .step x.request a :: rest ∧ GivesBack ((s.next e).after mid) x.request a x.id := by
  have hnext := exclusive_next h e
  obtain ⟨_, -, hc, -⟩ := World.examination?_eq_some hy
  rw [← hid] at hc
  have hslot := (hnext.after between).checking hc
  rcases hnext.past_after (h.past_of_examination hx) between with hpast | hd | hback
  · have hsame : y.request = x.request := Slot.verifying.inj (Option.some.inj (hslot.symm.trans hpast.slot))
    exact absurd (hsame ▸ hc) hpast.checked
  · exact absurd hslot (hd.not_verifying y.request)
  · exact hback

theorem examinations_nodup (h : Exclusive s) {events : List Event}
    (hfinal : ∀ before, before <+: events → (s.after before).falters = false) :
    ((s.examinations events).map Examination.id).Nodup := by
  induction events generalizing s with
  | nil => exact List.nodup_nil
  | cons e es ih =>
    have hrest := ih (exclusive_next h e) fun before hb => hfinal (e :: before) (List.cons_prefix_cons.mpr ⟨rfl, hb⟩)
    unfold World.examinations
    cases hx : s.examination? e with
    | none => exact hrest
    | some x =>
      refine List.nodup_cons.mpr ⟨fun hmem => ?_, hrest⟩
      obtain ⟨y, hlater, hid⟩ := List.mem_map.mp hmem
      obtain ⟨between, e', rest, rfl, hy⟩ := World.mem_examinations hlater
      obtain ⟨mid, a, rest', rfl, hback⟩ := h.givesBack_between hx hy hid.symm
      -- the request that gave the slot back was failing just before
      have hprefix : e :: mid <+: e :: (mid ++ .step x.request a :: rest' ++ e' :: rest) :=
        ⟨.step x.request a :: rest' ++ e' :: rest, by simp⟩
      exact absurd (hback.falters.symm.trans (hfinal (e :: mid) hprefix)) (by simp)

end Exclusive

/-- Whatever fails and in whatever order steps fall: no two requests check a transaction at the
    same time; once it is verified or rejected its slot stays as it is and no check begins
    again; between two checks the request that made the first has given the slot back, because
    of a failure that was not final; and where there are no such failures no transaction is
    checked twice. -/
theorem checked_at_most_once (σ : RecordStore) (events : List Event) :
    let s := (World.start σ).after events
    (∀ i j id, s.Checking i id → s.Checking j id → i = j) ∧
    (∀ id, s.table.Decided id → ∀ more, (s.after more).table.slot? id = s.table.slot? id ∧
      ∀ i, ¬(s.after more).Checking i id) ∧
    (∀ e between e' x y, s.examination? e = some x → ((s.next e).after between).examination? e' = some y →
      x.id = y.id → ∃ mid a rest, between = mid ++ .step x.request a :: rest ∧
        GivesBack ((s.next e).after mid) x.request a x.id) ∧
    ((∀ before, before <+: events → ((World.start σ).after before).falters = false) →
      (((World.start σ).examinations events).map Examination.id).Nodup) := by
  intro s
  have h := exclusive_after σ events
  refine ⟨fun i j id => h.checking_unique, fun id hd more => ?_, fun e between e' x y => h.givesBack_between, ?_⟩
  · exact ⟨h.decided_after hd more, h.decided_unchecked hd more⟩
  · exact (exclusive_start σ).examinations_nodup

/-! ## A source that is out of reach for a while -/

def outage : Conditions := { calm with outage := fun _ => some (.backend "source down") }

def stepOf (c : Conditions) (i : RequestId) : Event := .step i (c.surroundings loneLedger)

def atCheck : List Event := [.request .zero, .request .zero, stepOf calm 0, stepOf calm 0, stepOf calm 0]

def handOver : List Event := [stepOf calm 0, stepOf calm 1, stepOf calm 1, stepOf calm 1]

/-- Under the outage the transaction is checked by one request and then by the other; without
    it there is one check. -/
theorem outage_checked_twice :
    let s := (World.start .empty).after atCheck
    ((s.examinations (stepOf outage 0 :: handOver ++ [stepOf calm 1])).map fun x => (x.request, x.id)) =
      [(0, .zero), (1, .zero)] ∧
    (∃ mid a rest, handOver = mid ++ .step 0 a :: rest ∧
      GivesBack ((s.next (stepOf outage 0)).after mid) 0 a .zero) ∧
    (((World.start .empty).examinations (atCheck ++ [stepOf calm 0])).map Examination.id) = [.zero] ∧
    (((World.start .empty).examinations (atCheck ++ [stepOf calm 0])).map Examination.id).Nodup := by
  intro s
  have htwice := checked_at_most_once .empty atCheck
  have honce := checked_at_most_once .empty (atCheck ++ [stepOf calm 0])
  refine ⟨rfl, ?_, rfl, honce.2.2.2 ?_⟩
  · exact htwice.2.2.1 (stepOf outage 0) handOver (stepOf calm 1) ⟨0, .zero, _⟩ ⟨1, .zero, _⟩ rfl rfl rfl
  · intro before hb
    have hall : ∀ n < 7, ((World.start .empty).after ((atCheck ++ [stepOf calm 0]).take n)).falters = false := by
      decide
    rw [List.prefix_iff_eq_take.mp hb]
    exact hall before.length (Nat.lt_succ_of_le hb.length_le)

end VeiledLedger.Backchain
