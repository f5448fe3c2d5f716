/-
  VeiledLedger.Proofs.Backchain.Verdict — the verdict on a transaction, whoever asks and when.

  While nothing around the verifier changes, a request is answered with a record exactly if
  all that is reached from its transaction passes its own check and no cycle of pointers is
  reached. Who else asks, and how the steps of all requests fall, has no part in it.

  A record is right because stores are closed (`Closure`). An error is right because each
  rejected slot, and each transaction that an unwinding walk still holds, cannot be verified
  (`Justified`). The one verdict that needs more than its own walk is a loop of waits: it is a
  cycle of pointers (`Waits`), since walks descend along pointers.

  Main statement: `verdict_iff_verifiable`.
-/

import VeiledLedger.Proofs.Backchain.Closure
import VeiledLedger.Proofs.Backchain.Waits

namespace VeiledLedger.Backchain

open Relation

namespace Conditions

structure Calm (c : Conditions) : Prop where
  stop : c.stop = none
  readFault : c.readFault = none
  writeFault : c.writeFault = none

/-- The transaction is in the source, passes its check, and has readable pointers. -/
def Passes (c : Conditions) (l : Ledger) (id : TransactionId) : Prop :=
  ∃ tx r ps, c.source l id = .ok (some tx) ∧ c.judgment tx = .ok r ∧ tx.view.pointers l.registry = .ok ps

def Verifiable (c : Conditions) (l : Ledger) (id : TransactionId) : Prop :=
  (∀ x, ReflTransGen l.Points id x → c.Passes l x) ∧ ¬l.ReachesCycle id

def Returns (c : Conditions) (l : Ledger) (r : Record) : Prop :=
  ∃ tx, c.source l r.id = .ok (some tx) ∧ c.judgment tx = .ok r

end Conditions

def Move.Under (c : Conditions) : Move → Prop
  | .request _ => True
  | .advance _ c' => c' = c
  | .restart => False

variable {l : Ledger} {c : Conditions}

namespace Conditions

theorem Verifiable.of_reaches {a b : TransactionId} (h : c.Verifiable l a) (hab : ReflTransGen l.Points a b) :
    c.Verifiable l b :=
  ⟨fun x hx => h.1 x (hab.trans hx), fun hb => h.2 (hb.of_reaches hab)⟩

theorem Verifiable.examine {id : TransactionId} (h : c.Verifiable l id) : ∃ x, c.examine l id = .ok x := by
  obtain ⟨tx, r, ps, hs, hj, hp⟩ := h.1 id .refl
  exact ⟨(r, ps), examine_eq_ok.mpr ⟨tx, hs, hj, hp⟩⟩

theorem not_verifiable_of_error {id : TransactionId} {e : CheckError} (h : c.examine l id = .error e) :
    ¬c.Verifiable l id := by
  intro hv
  obtain ⟨x, hx⟩ := hv.examine
  cases h.symm.trans hx

theorem not_verifiable_of_cycle {id : TransactionId} (h : TransGen l.Points id id) : ¬c.Verifiable l id :=
  fun hv => hv.2 ⟨id, .refl, h⟩

theorem returns_of_examine (hnamed : c.judgment.Named) {id : TransactionId} {r : Record} {ps : List StatePointer}
    (h : c.examine l id = .ok (r, ps)) : r.id = id ∧ c.Returns l r := by
  have hid := id_of_examine hnamed h
  obtain ⟨tx, hs, hj, -⟩ := examine_eq_ok.mp h
  exact ⟨hid, tx, by rw [hid, hs], hj⟩

theorem Returns.unique {r r' : Record} (h : c.Returns l r) (h' : c.Returns l r') (hid : r.id = r'.id) : r = r' := by
  obtain ⟨tx, hs, hj⟩ := h
  obtain ⟨tx', hs', hj'⟩ := h'
  rw [hid] at hs
  cases hs.symm.trans hs'
  exact Except.ok.inj (hj.symm.trans hj')

end Conditions

/-! ## A stored transaction can be verified -/

theorem Closed.passes {s : World} (h : Closed l (c.Returns l) s) {id : TransactionId} (hid : s.store.Holds id) :
    c.Passes l id ∧ ∀ x, l.Points id x → s.store.Holds x := by
  obtain ⟨r, hr⟩ := hid
  obtain ⟨⟨tx, hs, hj⟩, ⟨ps, hps, hall⟩, -⟩ := h.records r (RecordStore.mem_of_get? hr)
  rw [RecordStore.id_of_get? hr] at hs hps
  constructor
  · have hcontent := (Conditions.source_eq_some.mp hs).2
    cases hp : tx.view.pointers l.registry with
    | ok qs => exact ⟨tx, r, qs, hs, hj, hp⟩
    | error e => simp [Ledger.pointers?, hcontent, hp, Except.toOption] at hps
  · rintro x ⟨qs, hqs, q, hq, rfl⟩
    cases hps.symm.trans hqs
    exact hall q hq

theorem Closed.holds_of_reaches {s : World} (h : Closed l (c.Returns l) s) {id x : TransactionId}
    (hid : s.store.Holds id) (hx : ReflTransGen l.Points id x) : s.store.Holds x := by
  induction hx with
  | refl => exact hid
  | tail _ hp ih => exact (h.passes ih).2 _ hp

theorem Closed.verifiable {s : World} (h : Closed l (c.Returns l) s) {id : TransactionId} (hid : s.store.Holds id) :
    c.Verifiable l id := by
  refine ⟨fun x hx => (h.passes (h.holds_of_reaches hid hx)).1, ?_⟩
  obtain ⟨r, hr⟩ := hid
  have hg := (h.records r (RecordStore.mem_of_get? hr)).grounded
  rw [RecordStore.id_of_get? hr] at hg
  exact hg.not_reachesCycle

/-! ## Walks descend along pointers -/

section
variable {passed : Record → Prop} {σ : RecordStore} {root : TransactionId} {claim : Claim} {stack : List Frame}

/-- The descent goes along pointers: each frame points to the one below. -/
theorem Descent.frame_reaches (h : Descent l passed σ root claim stack) :
    ∀ f ∈ stack, TransGen l.Points f.claim.id claim.id := by
  induction h with
  | root => intro f hf; cases hf
  | down g done p _ _ hps _ ih =>
    have hg : l.Points g.claim.id p.txId := ⟨_, hps, p, by simp, rfl⟩
    intro f hf
    rcases List.mem_cons.mp hf with rfl | hf
    · exact .single hg
    · exact (ih f hf).tail hg

theorem Descent.reaches (h : Descent l passed σ root claim stack) : ReflTransGen l.Points root claim.id := by
  induction h with
  | root => exact .refl
  | down g done p _ _ hps _ ih => exact ih.tail ⟨_, hps, p, by simp, rfl⟩

theorem Closed.descends {s : World} (h : Closed l passed s) : Descends l.Points s := by
  intro w hw target hp
  have hd := h.walks w hw
  rcases hp with hp | hp <;> simp only [Walk.OnTrack, hp] at hd <;> exact hd.frame_reaches

end

/-! ## A failed transaction cannot be verified -/

variable (l c) in
def Walk.Justified (w : Walk) : Prop :=
  match w.phase with
  | .judge claim _ => ¬c.Verifiable l claim.id
  | .unwind claims _ => (∀ claim ∈ claims, ¬c.Verifiable l claim.id) ∧ ¬c.Verifiable l w.root
  | .done (.error _) => ¬c.Verifiable l w.root
  | _ => True

variable (l c) in
structure Justified (s : World) : Prop where
  walks : ∀ w ∈ s.walks, w.Justified l c
  slots : ∀ id f, s.table.slot? id = some (.rejected f) → ¬c.Verifiable l id

namespace Walk

variable {passed : Record → Prop} {t t' : Table} {σ σ' : RecordStore} {w w' : Walk}

theorem follow_justified (w : Walk) (f : Frame) (stack : List Frame) : (w.follow f stack).Justified l c := by
  unfold follow
  split <;> trivial

theorem resolved_justified (w : Walk) (r : Record) : (w.resolved r).Justified l c := by
  unfold resolved
  split
  · trivial
  · exact follow_justified ..

theorem frames_not_verifiable {claim : Claim} (hd : Descent l passed σ w.root claim w.stack)
    (h : ¬c.Verifiable l claim.id) : ∀ x ∈ w.stack.map Frame.claim, ¬c.Verifiable l x.id := by
  intro x hx hv
  obtain ⟨f, hf, rfl⟩ := List.mem_map.mp hx
  exact h (hv.of_reaches (hd.frame_reaches f hf).to_reflTransGen)

theorem met_justified {target : Claim} (f : Failure) (hd : Descent l passed σ w.root target w.stack)
    (h : ¬c.Verifiable l target.id) : (w.met target f).Justified l c :=
  ⟨frames_not_verifiable hd h, fun hv => h (hv.of_reaches hd.reaches)⟩

theorem failed_justified {claim : Claim} (cause : Cause) (hd : Descent l passed σ w.root claim w.stack)
    (h : ¬c.Verifiable l claim.id) : (w.failed claim cause).Justified l c := by
  refine ⟨fun x hx => ?_, fun hv => h (hv.of_reaches hd.reaches)⟩
  rcases List.mem_cons.mp hx with rfl | hx
  · exact h
  · exact frames_not_verifiable hd h x hx

end Walk

theorem put_returned {σ : RecordStore} {r : Record} {e : StoreError} (h : ∀ x ∈ σ.records, c.Returns l x)
    (hr : c.Returns l r) : σ.put r ≠ .error e := by
  intro hput
  obtain ⟨-, stored, hget, hne⟩ := RecordStore.put_eq_error.mp hput
  exact hne ((h stored (RecordStore.mem_of_get? hget)).unique hr (RecordStore.id_of_get? hget))

theorem step_justified (hcalm : c.Calm) {s : World} (ho : Owned s) (hc : Closed l (c.Returns l) s)
    (hj : Justified l c s) {i : RequestId} {w : Walk} (hw : s.walks[i]? = some w) {t' : Table} {σ' : RecordStore}
    {w' : Walk} (h : Walk.Step (c.surroundings l) s.table s.store w t' σ' w') : w'.Justified l c := by
  have hmem := List.mem_of_getElem? hw
  have htrack := hc.walks w hmem
  have hjust := hj.walks w hmem
  cases h with
  | stopped _ he | stoppedWaiting _ he => cases hcalm.stop.symm.trans he
  | unreadable _ he => cases (Conditions.find_eq_ok.mpr ⟨hcalm.readFault, rfl⟩).symm.trans he
  | entered | missing | waits | takes | keeps => trivial
  | found | known | publishes => exact Walk.resolved_justified ..
  | passed => exact Walk.follow_justified ..
  | refused hl hf => exact Walk.met_justified _ (hl.descent htrack) (hj.slots _ _ hf)
  | closed hl hs hloop =>
    exact Walk.met_justified _ (hl.descent htrack)
      (Conditions.not_verifiable_of_cycle (closed_on_cycle ho hc.descends hw hl hs hloop))
  | faulted _ he => exact Conditions.not_verifiable_of_error he
  | rejects hp he =>
    simp only [Walk.OnTrack, hp] at htrack
    exact Walk.failed_justified _ htrack (Conditions.not_verifiable_of_error he)
  | judged hp =>
    simp only [Walk.OnTrack, hp] at htrack
    simp only [Walk.Justified, hp] at hjust
    exact Walk.failed_justified _ htrack hjust
  | loses hp he =>
    simp only [Walk.OnTrack, hp] at htrack
    have hput := Conditions.put_of_keep hcalm.writeFault he
    exact absurd hput (put_returned (fun x hx => (hc.records x hx).passed) htrack.2.passed)
  | settles hp =>
    simp only [Walk.Justified, hp] at hjust
    exact ⟨fun x hx => hjust.1 x (List.mem_cons_of_mem _ hx), hjust.2⟩
  | fails hp =>
    simp only [Walk.Justified, hp] at hjust
    exact hjust.2
  | rests => exact hjust

theorem justified_move (hcalm : c.Calm) {s : World} (ho : Owned s) (hc : Closed l (c.Returns l) s)
    (hj : Justified l c s) {m : Move} (hm : m.Under c) : Justified l c (s.move l m) := by
  cases m with
  | request id =>
    refine ⟨fun w hw => ?_, hj.slots⟩
    rcases List.mem_append.mp hw with hw | hw
    · exact hj.walks w hw
    · rw [List.mem_singleton.mp hw]
      trivial
  | advance i c' =>
    cases show c' = c from hm
    rw [World.move, World.advance_eq_proceed]
    rcases World.proceed_cases s i (c.surroundings l) with he | ⟨w, t', σ', w', hi, hstep, he⟩
    · rw [he]
      exact hj
    · rw [he]
      refine ⟨fun x hx => ?_, fun id f hf => ?_⟩
      · rcases List.mem_or_eq_of_mem_set hx with hx | rfl
        · exact hj.walks x hx
        · exact step_justified hcalm ho hc hj hi hstep
      · rcases hstep.rejected_slot hf with hold | ⟨claim, cs, hp, rfl, -⟩
        · exact hj.slots id f hold
        · have hjust := hj.walks w (List.mem_of_getElem? hi)
          simp only [Walk.Justified, hp] at hjust
          exact hjust.1 claim List.mem_cons_self
  | restart => exact hm.elim

/-! ## The verdict -/

/-- Everything that is known of a world in which nothing around the verifier has changed. -/
structure Steady (l : Ledger) (c : Conditions) (s : World) : Prop where
  named : c.judgment.Named
  owned : Owned s
  closed : Closed l (c.Returns l) s
  justified : Justified l c s

theorem steady_start (l : Ledger) (hnamed : c.judgment.Named) : Steady l c (.start .empty) :=
  ⟨hnamed, owned_start .empty, closed_start, fun w hw => (by cases hw), fun id f hf => (by cases hf)⟩

theorem steady_run (hcalm : c.Calm) {s : World} (h : Steady l c s) {schedule : List Move}
    (hs : ∀ m ∈ schedule, m.Under c) : Steady l c (s.run l schedule) := by
  induction schedule generalizing s with
  | nil => exact h
  | cons m ms ih =>
    have hm := hs m List.mem_cons_self
    refine ih ⟨h.named, owned_move h.owned m, closed_move h.closed fun id r ps hcheck => ?_,
      justified_move hcalm h.owned h.closed h.justified hm⟩ fun x hx => hs x (List.mem_cons_of_mem _ hx)
    obtain ⟨i, c', rfl, hx⟩ := World.checkOf?_eq_some hcheck
    cases show c' = c from hm
    exact Conditions.returns_of_examine h.named hx

theorem Steady.verdict {s : World} (h : Steady l c s) {w : Walk} (hw : w ∈ s.walks)
    {res : Except BackchainError Record} (hres : w.result? = some res) : res.isOk = true ↔ c.Verifiable l w.root := by
  have htrack := h.closed.walks w hw
  have hjust := h.justified.walks w hw
  simp only [Walk.OnTrack, Walk.Justified, Walk.result?_eq_some.mp hres] at htrack hjust
  cases res with
  | ok r => exact ⟨fun _ => h.closed.verifiable ⟨r, htrack⟩, fun _ => rfl⟩
  | error e => exact ⟨fun h => (by cases h), fun hv => absurd hv hjust⟩

/-- Nothing changes around the verifier, and records carry the id of their transaction. Every
    request that completes is answered with a record exactly if all that is reached from its
    transaction passes and no cycle is reached; so two requests for one transaction agree, also
    across runs. -/
theorem verdict_iff_verifiable (l : Ledger) (c : Conditions) (hcalm : c.Calm) (hnamed : c.judgment.Named)
    {schedule : List Move} (hs : ∀ m ∈ schedule, m.Under c) {w : Walk} (hw : w ∈ ((World.start .empty).run l schedule).walks)
    {res : Except BackchainError Record} (hres : w.result? = some res) :
    (res.isOk = true ↔ c.Verifiable l w.root) ∧
    ∀ schedule', (∀ m ∈ schedule', m.Under c) → ∀ w' ∈ ((World.start .empty).run l schedule').walks,
      ∀ res', w'.result? = some res' → w'.root = w.root → res'.isOk = res.isOk := by
  have hv := (steady_run hcalm (steady_start l hnamed) hs).verdict hw hres
  refine ⟨hv, fun schedule' hs' w' hw' res' hres' hroot => ?_⟩
  have hv' := (steady_run hcalm (steady_start l hnamed) hs').verdict hw' hres'
  rw [hroot] at hv'
  exact Bool.eq_iff_iff.mpr (hv'.trans hv.symm)

/-! ## Two requests for one transaction -/

def twoRequests : List Move :=
  [.request .zero, .request .zero] ++ [0, 0, 0, 1, 1, 1, 1, 0, 0, 0, 1].map fun i => .advance i calm

theorem twoRequests_verdict :
    ((World.start .empty).run loneLedger twoRequests).walks.map Walk.result? =
      [some (.ok ⟨.zero, .zero, [], true⟩), some (.ok ⟨.zero, .zero, [], true⟩)] ∧
    calm.Verifiable loneLedger .zero := by
  refine ⟨rfl, ?_⟩
  have hs : ∀ m ∈ twoRequests, m.Under calm := by simp [twoRequests, Move.Under]
  obtain ⟨w, hw, hroot, hres⟩ : ∃ w ∈ ((World.start .empty).run loneLedger twoRequests).walks,
      w.root = .zero ∧ w.result? = some (.ok ⟨.zero, .zero, [], true⟩) := ⟨_, .tail _ (.head _), rfl, rfl⟩
  exact hroot ▸ (verdict_iff_verifiable loneLedger calm ⟨rfl, rfl, rfl⟩ named_alwaysPasses hs hw hres).1.mp rfl

end VeiledLedger.Backchain
