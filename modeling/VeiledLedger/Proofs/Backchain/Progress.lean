/-
  VeiledLedger.Proofs.Backchain.Progress — a request that is left alone comes to its end.

  A request is alone at its verifier, nothing around it fails, and pointers cannot be followed
  for ever from its transaction. If all that is reached from there can be verified, the walk
  leaves each transaction that it enters with a record of it (`Resolves`). This is shown from
  the ancestors upwards: the pointers of a transaction are worked off one by one, and what they
  lead to is grounded at a smaller height. No slot gets in the way: the walk is the only
  owner, so a slot that is being verified would close a cycle, and a rejected one is justified.

  Main statements: `resolves_of_verifiable` and `answered_of_verifiable`, which adds what the
  request leaves behind: a record of its transaction, and nothing reached from there that does
  not count as verified.
-/

import VeiledLedger.Proofs.Backchain.Verdict

namespace VeiledLedger.Backchain

open Relation

def World.alone (t : Table) (σ : RecordStore) (w : Walk) : World := ⟨⟨t, 1⟩, σ, [w]⟩

theorem World.eq_of_alone {t t' : Table} {σ σ' : RecordStore} {w w' : Walk} (h : alone t σ w = alone t' σ' w') :
    ((t, w), σ) = ((t', w'), σ') := by
  simp only [alone, World.mk.injEq, Verifier.mk.injEq, List.cons.injEq, and_true] at h
  obtain ⟨rfl, rfl, rfl⟩ := h
  rfl

def Leads (l : Ledger) (c : Conditions) (s s' : World) : Prop :=
  ∃ n, s.run l (List.replicate n (.advance 0 c)) = s'

variable {l : Ledger} {c : Conditions} {t t' : Table} {σ σ' : RecordStore} {w w' : Walk}

/-! ## Steps -/

theorem advance_alone (l : Ledger) (c : Conditions) (t : Table) (σ : RecordStore) (w : Walk) :
    (World.alone t σ w).advance l 0 c =
      (let x := (w.step (c.surroundings l) t).run σ; World.alone x.1.1 x.2 x.1.2) := rfl

namespace Leads

theorem trans {s s' s'' : World} (h : Leads l c s s') (h' : Leads l c s' s'') : Leads l c s s'' := by
  obtain ⟨n, rfl⟩ := h
  obtain ⟨m, rfl⟩ := h'
  refine ⟨n + m, ?_⟩
  rw [← List.replicate_append_replicate]
  exact List.foldl_append

theorem of_step (h : (w.step (c.surroundings l) t).run σ = ((t', w'), σ')) :
    Leads l c (.alone t σ w) (.alone t' σ' w') := by
  refine ⟨1, ?_⟩
  show (World.alone t σ w).advance l 0 c = World.alone t' σ' w'
  rw [advance_alone, h]

theorem steady (hcalm : c.Calm) {s s' : World} (h : Leads l c s s') (hs : Steady l c s) : Steady l c s' := by
  obtain ⟨n, rfl⟩ := h
  refine steady_run hcalm hs fun m hm => ?_
  rw [List.eq_of_mem_replicate hm]
  rfl

end Leads

namespace Walk

theorem step_entered (hcalm : c.Calm) {target : Claim} (hp : w.phase = .enter target) :
    (w.step (c.surroundings l) t).run σ = ((t, { w with phase := .lookUp target }), σ) := by
  have hstop : (c.surroundings l).stopped.run σ = (none, σ) := by
    show (c.stop, σ) = _
    rw [hcalm.stop]
  exact step_enter hp hstop

theorem step_found (hcalm : c.Calm) {target : Claim} {r : Record} (hp : w.phase = .lookUp target)
    (hr : σ.get? target.id = some r) : (w.step (c.surroundings l) t).run σ = ((t, w.resolved r), σ) := by
  have hfind : ((c.surroundings l).find target.id).run σ = (.ok (some r), σ) := by
    show (c.find σ target.id, σ) = _
    rw [Conditions.find, hcalm.readFault, hr]
  exact step_lookUp hp hfind

theorem step_missing (hcalm : c.Calm) {target : Claim} (hp : w.phase = .lookUp target)
    (hr : σ.get? target.id = none) :
    (w.step (c.surroundings l) t).run σ = ((t, { w with phase := .visit target }), σ) := by
  have hfind : ((c.surroundings l).find target.id).run σ = (.ok none, σ) := by
    show (c.find σ target.id, σ) = _
    rw [Conditions.find, hcalm.readFault, hr]
  exact step_lookUp hp hfind

theorem step_passed {claim : Claim} {r : Record} {ps : List StatePointer} (hp : w.phase = .check claim)
    (he : c.examine l claim.id = .ok (r, ps)) :
    (w.step (c.surroundings l) t).run σ = ((t, w.follow ⟨claim, ps, r⟩ w.stack), σ) := by
  have hcheck : ((c.surroundings l).check claim.id).run σ = (.ok (r, ps), σ) := by
    show (c.examine l claim.id, σ) = _
    rw [he]
  exact step_check hp hcheck

theorem step_kept (hcalm : c.Calm) {f : Frame} (hp : w.phase = .store f) (hput : σ.put f.record = .ok σ') :
    (w.step (c.surroundings l) t).run σ = ((t, { w with phase := .publish f }), σ') := by
  have hkeep : ((c.surroundings l).store f.record).run σ = (.ok (), σ') := by
    show c.keep σ f.record = _
    rw [Conditions.keep, hcalm.writeFault, hput]
  exact step_store hp hkeep

end Walk

/-! ## What is in the way of a walk -/

namespace Steady

theorem request_alone (hs : Steady l c (.alone t σ w)) {r : RequestId} {w' : Walk}
    (h : (World.alone t σ w).walks[r]? = some w') : w' = w ∧ r = w.request := by
  have hr := hs.owned.request r w' h
  cases r with
  | zero =>
    cases h
    exact ⟨rfl, hr.symm⟩
  | succ r => cases h

/-- A walk that is alone finds nothing at a transaction that can be verified, unless it is
    verified already. -/
theorem visits (hs : Steady l c (.alone t σ w)) {target : Claim} (hp : w.phase = .visit target)
    (hv : c.Verifiable l target.id) : t.slot? target.id = none ∨ ∃ r, t.slot? target.id = some (.verified r) := by
  cases hslot : t.slot? target.id with
  | none => exact .inl rfl
  | some s =>
    cases s with
    | verified r => exact .inr ⟨r, rfl⟩
    | rejected f => exact absurd hv (hs.justified.slots _ f hslot)
    | verifying owner =>
      obtain ⟨w', hw', -⟩ := hs.owned.owner target.id owner hslot
      obtain ⟨-, howner⟩ := hs.request_alone hw'
      have hcycle := closed_on_cycle hs.owned hs.closed.descends (i := 0) rfl
        (.first (a := c.surroundings l) hp) hslot (.inl howner)
      exact absurd hv (Conditions.not_verifiable_of_cycle hcycle)

end Steady

/-! ## From a transaction back to where the walk entered it -/

variable (l c) in
/-- Whatever lies above it, a walk that enters the transaction goes on with a record of it. -/
def Resolves (id : TransactionId) : Prop :=
  ∀ t σ w via, w.phase = .enter ⟨id, via⟩ → Steady l c (.alone t σ w) →
    ∃ t' σ' r, Leads l c (.alone t σ w) (.alone t' σ' (w.resolved r))

/-- A transaction with nothing left below it is stored and published. -/
theorem store_leads (hcalm : c.Calm) {f : Frame} (hp : w.phase = .store f) (hs : Steady l c (.alone t σ w)) :
    ∃ t' σ', Leads l c (.alone t σ w) (.alone t' σ' (w.resolved f.record)) := by
  have htrack := hs.closed.walks w List.mem_cons_self
  simp only [Walk.OnTrack, hp] at htrack
  cases hput : σ.put f.record with
  | error e =>
    have hreturned : ∀ x ∈ σ.records, c.Returns l x := fun x hx => (hs.closed.records x hx).passed
    exact absurd hput (put_returned hreturned htrack.2.passed)
  | ok σ' =>
    have hstore := Leads.of_step (t := t) (Walk.step_kept (l := l) hcalm hp hput)
    have hpublish := Leads.of_step (t := t) (σ := σ')
      (Walk.step_publish (a := c.surroundings l) (w := { w with phase := .publish f }) rfl)
    rw [Walk.resolved_phase] at hpublish
    exact ⟨_, σ', hstore.trans hpublish⟩

/-- The pointers of a transaction are worked off one by one. -/
theorem follow_leads (hcalm : c.Calm) (f : Frame) (stack : List Frame) : ∀ (pending : List StatePointer),
    (∀ p ∈ pending, Resolves l c p.txId) → ∀ {t : Table} {σ : RecordStore},
    Steady l c (.alone t σ (w.follow { f with pending } stack)) →
    ∃ t' σ', Leads l c (.alone t σ (w.follow { f with pending } stack))
      (.alone t' σ' ({ w with stack }.resolved f.record))
  | [], _, t, σ, hs => by
    have hstore := store_leads (f := { f with pending := [] }) hcalm rfl hs
    rwa [show w.follow { f with pending := [] } stack = { { w with stack } with phase := .store { f with pending := [] } }
      from rfl, Walk.resolved_phase] at hstore
  | p :: ps, hps, t, σ, hs => by
    obtain ⟨t₁, σ₁, r, hfirst⟩ := hps p List.mem_cons_self t σ _ (some p) rfl hs
    -- the walk has come back to the frame, which has one pointer less to follow
    have hback : Leads l c (.alone t σ (w.follow { f with pending := p :: ps } stack))
        (.alone t₁ σ₁ (w.follow { f with pending := ps } stack)) := hfirst
    obtain ⟨t₂, σ₂, hrest⟩ :=
      follow_leads hcalm f stack ps (fun q hq => hps q (List.mem_cons_of_mem _ hq)) (hback.steady hcalm hs)
    exact ⟨t₂, σ₂, hback.trans hrest⟩

theorem resolves_of_verifiable (hcalm : c.Calm) {id : TransactionId} (hg : l.Grounded id) (hv : c.Verifiable l id) :
    Resolves l c id := by
  induction hg with
  | intro id _ ih =>
    intro t σ w via hp hs
    have henter := Leads.of_step (t := t) (σ := σ) (Walk.step_entered (l := l) hcalm hp)
    cases hget : σ.get? id with
    | some r =>
      have hfound := Leads.of_step (t := t)
        (Walk.step_found (l := l) (w := { w with phase := .lookUp ⟨id, via⟩ }) hcalm rfl hget)
      rw [Walk.resolved_phase] at hfound
      exact ⟨t, σ, r, henter.trans hfound⟩
    | none =>
      have hmissing := Leads.of_step (t := t)
        (Walk.step_missing (l := l) (w := { w with phase := .lookUp ⟨id, via⟩ }) hcalm rfl hget)
      have hvisit := henter.trans hmissing
      rcases (hvisit.steady hcalm hs).visits rfl hv with hslot | ⟨r, hslot⟩
      · obtain ⟨⟨r, ps⟩, he⟩ := hv.examine
        have htakes := Leads.of_step (σ := σ)
          (Walk.step_takes (a := c.surroundings l) (w := { w with phase := .visit ⟨id, via⟩ }) rfl hslot)
        have hcheck := Leads.of_step (t := t.setSlot id (.verifying w.request)) (σ := σ)
          (Walk.step_passed (l := l) (w := { w with phase := .check ⟨id, via⟩ }) rfl he)
        have hbelow := hvisit.trans (htakes.trans hcheck)
        have hps : ∀ p ∈ ps, Resolves l c p.txId := by
          intro p hp
          have hpoints : l.Points id p.txId := ⟨ps, Conditions.pointers?_of_examine he, p, hp, rfl⟩
          exact ih p.txId hpoints (hv.of_reaches (.single hpoints))
        obtain ⟨t', σ', hfollow⟩ := follow_leads hcalm ⟨⟨id, via⟩, [], r⟩ w.stack ps hps (hbelow.steady hcalm hs)
        exact ⟨t', σ', r, hbelow.trans hfollow⟩
      · have hknown := Leads.of_step (σ := σ)
          (Walk.step_known (a := c.surroundings l) (w := { w with phase := .visit ⟨id, via⟩ }) rfl hslot)
        rw [Walk.resolved_phase] at hknown
        exact ⟨t, σ, r, hvisit.trans hknown⟩

/-! ## The first request of a verifier -/

/-- Following the walk to its end is the schedule that lets it do all steps. -/
theorem run_alone (n : Nat) (t : Table) (σ : RecordStore) (w : Walk) :
    (World.alone t σ w).run l (List.replicate n (.advance 0 c)) =
      (let x := (Walk.run (c.surroundings l) n t w).run σ; .alone x.1.1 x.2 x.1.2) := by
  induction n generalizing t σ w with
  | zero => rfl
  | succ n ih =>
    show ((World.alone t σ w).advance l 0 c).run l (List.replicate n (.advance 0 c)) = _
    rw [advance_alone, Walk.run_succ]
    exact ih ..

/-- The first request of a verifier over an empty store asks for `id` and is answered with `r`;
    the verifier and the store are left as given. -/
def Answered (l : Ledger) (c : Conditions) (id : TransactionId) (r : Record) (v : Verifier) (σ : RecordStore) : Prop :=
  ∃ n, ∀ m ≥ n, ∃ w, (Walk.run (c.surroundings l) m Verifier.fresh.table (Verifier.fresh.request id).2).run .empty =
    ((v.table, w), σ) ∧ w.result? = some (.ok r)

/-- A transaction that has been stored counts as verified once the only walk is done. -/
theorem Steady.status_verified (hs : Steady l c (.alone t σ w)) (hcalm : c.Calm) (hclaims : w.claims = [])
    {x : TransactionId} (hx : σ.Holds x) :
    ((Verifier.mk t 1).status (c.surroundings l).find x).run σ = (.ok .verified, σ) := by
  obtain ⟨r, hr⟩ := hx
  unfold Verifier.status
  cases hslot : t.slot? x with
  | none =>
    show (Except.map Status.ofStored (c.find σ x), σ) = _
    rw [Conditions.find, hcalm.readFault, hr]
    rfl
  | some s =>
    cases s with
    | verified r => rfl
    | rejected f =>
      have hv : c.Verifiable l x := hs.closed.verifiable ⟨r, hr⟩
      exact absurd hv (hs.justified.slots x f hslot)
    | verifying owner =>
      obtain ⟨w', hw', claim, hmem, -⟩ := hs.owned.owner x owner hslot
      obtain ⟨rfl, -⟩ := hs.request_alone hw'
      rw [hclaims] at hmem
      cases hmem

theorem answered_of_verifiable (hcalm : c.Calm) (hnamed : c.judgment.Named) {id : TransactionId} (hg : l.Grounded id)
    (hv : c.Verifiable l id) :
    ∃ r v σ, r.id = id ∧ c.Returns l r ∧ Answered l c id r v σ ∧
      ∀ x, ReflTransGen l.Points id x → (v.status (c.surroundings l).find x).run σ = (.ok .verified, σ) := by
  have hstart : Steady l c ((World.start .empty).run l [.request id]) := by
    refine steady_run hcalm (steady_start l hnamed) fun m hm => ?_
    rw [List.mem_singleton.mp hm]
    trivial
  obtain ⟨t, σ, r, hleads⟩ := resolves_of_verifiable hcalm hg hv .empty .empty (.start 0 id) none rfl hstart
  have hend := hleads.steady hcalm hstart
  have hr : σ.get? id = some r := hend.closed.walks _ List.mem_cons_self
  have hid := RecordStore.id_of_get? hr
  have hreturns : c.Returns l r := (hend.closed.records r (RecordStore.mem_of_get? hr)).passed
  refine ⟨r, ⟨t, 1⟩, σ, hid, hreturns, ?_, fun x hx => ?_⟩
  · obtain ⟨n, hn⟩ := hleads
    refine ⟨n, fun m hm => ⟨(Walk.start 0 id).resolved r, ?_, rfl⟩⟩
    obtain ⟨k, rfl⟩ := Nat.exists_eq_add_of_le hm
    -- the walk is done after `n` steps, and rests for the others
    have hrun : (World.alone .empty .empty (.start 0 id)).run l (List.replicate (n + k) (.advance 0 c)) =
        .alone t σ ((Walk.start 0 id).resolved r) := by
      rw [← List.replicate_append_replicate, World.run, List.foldl_append]
      show World.run l (World.run l _ _) _ = _
      rw [hn, run_alone, Walk.run_of_done _ rfl]
      rfl
    rw [run_alone] at hrun
    exact World.eq_of_alone hrun
  · exact hend.status_verified hcalm rfl (hend.closed.holds_of_reaches ⟨r, hr⟩ hx)

end VeiledLedger.Backchain
