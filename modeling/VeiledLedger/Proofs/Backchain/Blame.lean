/-
  VeiledLedger.Proofs.Backchain.Blame — nothing is rejected, or called cyclic, without cause.

  A failure names a culprit and the pointers that lead to it. The pointers are put together
  piece by piece: a walk that unwinds goes up the trail it came down, and a walk that meets a
  rejected transaction continues the path that stands in its slot. What is shown of each
  failure, in a walk, in a slot or in an answer: its path goes along pointers, and the
  culprit's own check has failed as it says, or the culprit lies on a cycle (`Explained`).

  Sources, backends and stores may fail at any time. The only assumption is that a source which
  can be read shows what it always shows (`Around.Reads`).

  Main statement: `rejected_with_cause`.
-/

import VeiledLedger.Proofs.Backchain.Verdict

namespace VeiledLedger.Backchain

open Relation

/-! ## What a source shows -/

structure Archive where
  registry : Registry
  content : TransactionId → Option Published

namespace Archive

def Names (x : Archive) (id : TransactionId) (p : StatePointer) : Prop :=
  ∃ tx ps, x.content id = some tx ∧ tx.view.pointers x.registry = .ok ps ∧ p ∈ ps

def Points (x : Archive) (a b : TransactionId) : Prop := ∃ p, x.Names a p ∧ p.txId = b

inductive Chain (x : Archive) : TransactionId → List StatePointer → TransactionId → Prop
  | nil (id : TransactionId) : Chain x id [] id
  | cons {id p path culprit} : x.Names id p → Chain x p.txId path culprit → Chain x id (p :: path) culprit

end Archive

def inspect (registry : Registry) (source : TransactionSource) (judge : Published → Except CheckError Record)
    (id : TransactionId) : Except CheckError (Record × List StatePointer) := do
  let tx ← source.fetch id
  let record ← judge tx
  let pointers ← (tx.view.pointers registry).mapError .disclosure
  return (record, pointers)

/-- Each check inspects some source, which may be out of reach or lack a transaction, but shows
    nothing else than the archive. -/
def Around.Reads (x : Archive) (a : Around) : Prop :=
  ∀ id σ, ∃ source judge, (∀ id tx, source id = .ok (some tx) → x.content id = some tx) ∧
    ((a.check id).run σ).1 = inspect x.registry source judge id

def Event.Reads (x : Archive) : Event → Prop
  | .request _ => True
  | .step _ a => a.Reads x

def Ledger.archive (l : Ledger) : Archive := ⟨l.registry, l.content⟩

theorem Conditions.surroundings_reads (c : Conditions) (l : Ledger) : Around.Reads l.archive (c.surroundings l) := by
  intro id σ
  exact ⟨c.source l, c.judgment, fun id tx h => (source_eq_some.mp h).2, rfl⟩

section
variable {x : Archive} {a : Around} {id : TransactionId} {σ : RecordStore}

theorem Around.Reads.names (ha : a.Reads x) {r : Record} {ps : List StatePointer}
    (h : ((a.check id).run σ).1 = .ok (r, ps)) : ∀ p ∈ ps, x.Names id p := by
  obtain ⟨source, judge, hsource, he⟩ := ha id σ
  rw [he] at h
  unfold inspect at h
  simp only [Except.bind_eq_ok, Except.mapError_eq_ok, Conditions.fetch_eq_ok] at h
  obtain ⟨tx, hs, r', -, ps', hps, hpair⟩ := h
  cases hpair
  exact fun p hp => ⟨tx, ps, hsource id tx hs, hps, hp⟩

end

/-! ## Trails -/

variable (x : Archive)

/-- The claims above `claim`, the nearest first: each names the pointer that leads on. -/
inductive Trail (root : TransactionId) : Claim → List Claim → Prop
  | root : Trail root ⟨root, none⟩ []
  | down {above : Claim} {p : StatePointer} {claims : List Claim} :
      Trail root above claims → x.Names above.id p → Trail root ⟨p.txId, some p⟩ (above :: claims)

/-- The failure is told as the first claim sees it, or as the root does when no claim is left. -/
def Seen (root : TransactionId) : List Claim → Failure → Prop
  | [], f => x.Chain root f.path f.culprit
  | claim :: claims, f => Trail x root claim claims ∧ x.Chain claim.id f.path f.culprit

variable {x}

theorem Trail.reaches {root : TransactionId} {claim : Claim} {claims : List Claim} (h : Trail x root claim claims) :
    ∀ c ∈ claims, TransGen x.Points c.id claim.id := by
  induction h with
  | root =>
    intro c hc
    cases hc
  | @down above p claims _ hp ih =>
    have hlast : x.Points above.id p.txId := ⟨p, hp, rfl⟩
    intro c hc
    rcases List.mem_cons.mp hc with rfl | hc
    · exact .single hlast
    · exact (ih c hc).tail hlast

/-- A failure is seen from one step further up. -/
theorem Trail.seen_through {root : TransactionId} {claim : Claim} {claims : List Claim}
    (h : Trail x root claim claims) {f : Failure} (hf : x.Chain claim.id f.path f.culprit) :
    Seen x root claims (f.through claim.via) := by
  cases h with
  | root => exact hf
  | down habove hp => exact ⟨habove, .cons hp hf⟩

/-! ## Explained failures

  `told` is what is known of the answers that checks have given.
-/

variable (x) (told : TransactionId → CheckError → Prop)

def Failure.Caused (f : Failure) : Prop :=
  match f.cause with
  | .cycle => TransGen x.Points f.culprit f.culprit
  | .check reason => told f.culprit reason
  | .store _ | .interrupted _ => True

/-- What an answer to a request for `root` says of its culprit is so, and so is the way there. -/
def AnswerExplained (root : TransactionId) : BackchainError → Prop
  | .cyclic culprit chain =>
    chain.root = root ∧ x.Chain root chain.links culprit ∧ TransGen x.Points culprit culprit
  | .rejected culprit chain reason => chain.root = root ∧ x.Chain root chain.links culprit ∧ told culprit reason
  | .store _ | .interrupted _ => True

def Phase.Explained (root : TransactionId) (above : List Claim) : Phase → Prop
  | .enter claim | .lookUp claim | .visit claim | .blocked claim | .check claim => Trail x root claim above
  | .judge claim e => Trail x root claim above ∧ told claim.id (.backend e)
  | .store f | .publish f => Trail x root f.claim above
  | .unwind claims f => Seen x root claims f ∧ f.Caused x told
  | .done (.error e) => AnswerExplained x told root e
  | .done (.ok _) => True

structure Walk.Explained (w : Walk) : Prop where
  phase : w.phase.Explained x told w.root (w.stack.map Frame.claim)
  pending : ∀ f ∈ w.stack, ∀ p ∈ f.pending, x.Names f.claim.id p

structure Explained (s : World) : Prop where
  walks : ∀ w ∈ s.walks, w.Explained x told
  slots : ∀ id f, s.table.slot? id = some (.rejected f) →
    x.Chain id f.path f.culprit ∧ f.Caused x told ∧ f.cause.isFinal = true

variable {x told}

theorem Failure.toError_explained {f : Failure} {root : TransactionId} (hf : x.Chain root f.path f.culprit)
    (hc : f.Caused x told) : AnswerExplained x told root (f.toError root) := by
  unfold Caused at hc
  unfold toError
  cases hcause : f.cause with
  | cycle | check =>
    simp only [hcause] at hc
    exact ⟨rfl, hf, hc⟩
  | store | interrupted => trivial

namespace Walk

variable {a : Around} {t t' : Table} {σ σ' : RecordStore} {w w' : Walk}

/-! ## A step keeps its walk explained -/

theorem follow_explained {f : Frame} {stack : List Frame} (ht : Trail x w.root f.claim (stack.map Frame.claim))
    (hf : ∀ p ∈ f.pending, x.Names f.claim.id p) (hs : ∀ g ∈ stack, ∀ p ∈ g.pending, x.Names g.claim.id p) :
    (w.follow f stack).Explained x told := by
  unfold follow
  split
  · rename_i p ps hpending
    rw [hpending] at hf
    refine ⟨.down ht (hf p List.mem_cons_self), ?_⟩
    intro g hg
    rcases List.mem_cons.mp hg with rfl | hg
    · exact fun q hq => hf q (List.mem_cons_of_mem _ hq)
    · exact hs g hg
  · exact ⟨ht, hs⟩

theorem resolved_explained {target : Claim} (ht : Trail x w.root target (w.stack.map Frame.claim))
    (hs : ∀ g ∈ w.stack, ∀ p ∈ g.pending, x.Names g.claim.id p) (r : Record) : (w.resolved r).Explained x told := by
  unfold resolved
  split
  · exact ⟨trivial, hs⟩
  · rename_i f stack he
    rw [he] at ht hs
    cases ht with
    | down habove _ =>
      exact follow_explained habove (hs f List.mem_cons_self) fun g hg => hs g (List.mem_cons_of_mem _ hg)

theorem met_explained {target : Claim} {f : Failure} (ht : Trail x w.root target (w.stack.map Frame.claim))
    (hf : x.Chain target.id f.path f.culprit) (hc : f.Caused x told) : (w.met target f).Explained x told :=
  ⟨⟨ht.seen_through hf, hc⟩, by simp [met]⟩

theorem failed_explained {claim : Claim} {cause : Cause} (ht : Trail x w.root claim (w.stack.map Frame.claim))
    (hc : (Failure.ofCause claim.id cause).Caused x told) : (w.failed claim cause).Explained x told :=
  ⟨⟨⟨ht, .nil claim.id⟩, hc⟩, by simp [failed]⟩

theorem Looks.trail {target : Claim} (h : Looks a t σ w target t' σ') (hw : w.Explained x told) :
    Trail x w.root target (w.stack.map Frame.claim) := by
  have hp := hw.phase
  cases h with
  | first he | again he =>
    rw [he] at hp
    exact hp

end Walk

theorem Explained.descends {s : World} (h : Explained x told s) : Descends x.Points s := by
  intro w hw target hp f hf
  have hphase := (h.walks w hw).phase
  have ht : Trail x w.root target (w.stack.map Frame.claim) := by
    rcases hp with hp | hp <;> rw [hp] at hphase <;> exact hphase
  exact ht.reaches f.claim (List.mem_map_of_mem hf)

theorem step_explained {s : World} (ho : Owned s) (h : Explained x told s) {i : RequestId} {w : Walk}
    (hw : s.walks[i]? = some w) {a : Around} (ha : a.Reads x)
    (hcheck : ∀ claim e, w.phase = .check claim → ((a.check claim.id).run s.store).1 = .error e → told claim.id e)
    {t' : Table} {σ' : RecordStore} {w' : Walk} (hstep : Walk.Step a s.table s.store w t' σ' w') :
    w'.Explained x told := by
  have hexpl := h.walks w (List.mem_of_getElem? hw)
  have hphase := hexpl.phase
  cases hstep with
  | stopped hp | unreadable hp | stoppedWaiting hp =>
    rw [hp] at hphase
    exact Walk.met_explained hphase (.nil _) trivial
  | entered hp | missing hp =>
    rw [hp] at hphase
    exact ⟨hphase, hexpl.pending⟩
  | found hp =>
    rw [hp] at hphase
    exact Walk.resolved_explained hphase hexpl.pending _
  | known hl => exact Walk.resolved_explained (hl.trail hexpl) hexpl.pending _
  | refused hl hf =>
    obtain ⟨hchain, hc, -⟩ := h.slots _ _ hf
    exact Walk.met_explained (hl.trail hexpl) hchain hc
  | closed hl hs hloop =>
    have hcycle := closed_on_cycle ho h.descends hw hl hs hloop
    exact Walk.met_explained (hl.trail hexpl) (.nil _) hcycle
  | waits hl | takes hl => exact ⟨hl.trail hexpl, hexpl.pending⟩
  | passed hp he =>
    rw [hp] at hphase
    exact Walk.follow_explained hphase (ha.names he) hexpl.pending
  | faulted hp he =>
    have htold := hcheck _ _ hp he
    rw [hp] at hphase
    exact ⟨⟨hphase, htold⟩, hexpl.pending⟩
  | rejects hp he =>
    have htold := hcheck _ _ hp he
    rw [hp] at hphase
    exact Walk.failed_explained hphase htold
  | judged hp =>
    rw [hp] at hphase
    obtain ⟨htrail, htold⟩ := hphase
    refine Walk.failed_explained htrail ?_
    split
    · trivial
    · exact htold
  | keeps hp =>
    rw [hp] at hphase
    exact ⟨hphase, hexpl.pending⟩
  | loses hp =>
    rw [hp] at hphase
    exact Walk.failed_explained hphase trivial
  | publishes hp =>
    rw [hp] at hphase
    exact Walk.resolved_explained hphase hexpl.pending _
  | settles hp =>
    rw [hp] at hphase
    obtain ⟨⟨htrail, hchain⟩, hc⟩ := hphase
    exact ⟨⟨htrail.seen_through hchain, hc⟩, hexpl.pending⟩
  | fails hp =>
    rw [hp] at hphase
    exact ⟨Failure.toError_explained hphase.1 hphase.2, hexpl.pending⟩
  | rests => exact hexpl

/-! ## Events -/

theorem explained_start (σ : RecordStore) : Explained x told (.start σ) where
  walks := by
    intro w hw
    cases hw
  slots := by
    intro id f hf
    cases hf

theorem explained_next {s : World} (ho : Owned s) (h : Explained x told s) {e : Event} (he : e.Reads x)
    (hsaid : ∀ y reason, s.examination? e = some y → y.answer = .error reason → told y.id reason) :
    Explained x told (s.next e) := by
  cases e with
  | request id =>
    refine ⟨?_, h.slots⟩
    intro w hw
    rcases List.mem_append.mp hw with hw | hw
    · exact h.walks w hw
    · rw [List.mem_singleton.mp hw]
      exact ⟨.root, by simp [Walk.start]⟩
  | step i a =>
    show Explained x told (s.proceed i a)
    rcases World.proceed_cases s i a with hsame | ⟨w, t', σ', w', hi, hstep, hnew⟩
    · rw [hsame]
      exact h
    · have hcheck : ∀ claim reason, w.phase = .check claim → ((a.check claim.id).run s.store).1 = .error reason →
          told claim.id reason := by
        intro claim reason hp hr
        exact hsaid ⟨i, claim.id, _⟩ reason (by simp [World.examination?, hi, hp]) hr
      rw [hnew]
      refine ⟨?_, ?_⟩
      · intro y hy
        rcases List.mem_or_eq_of_mem_set hy with hy | rfl
        · exact h.walks y hy
        · exact step_explained ho h hi he hcheck hstep
      · intro id f hf
        rcases hstep.rejected_slot hf with hold | ⟨claim, cs, hp, rfl, hfinal⟩
        · exact h.slots id f hold
        · have hphase := (h.walks w (List.mem_of_getElem? hi)).phase
          rw [hp] at hphase
          obtain ⟨⟨-, hchain⟩, hc⟩ := hphase
          exact ⟨hchain, hc, hfinal⟩

theorem explained_after {s : World} (ho : Owned s) (h : Explained x told s) {events : List Event}
    (hreads : ∀ e ∈ events, e.Reads x)
    (hsaid : ∀ y ∈ s.examinations events, ∀ reason, y.answer = .error reason → told y.id reason) :
    Explained x told (s.after events) := by
  induction events generalizing s with
  | nil => exact h
  | cons e es ih =>
    have hfirst : Explained x told (s.next e) :=
      explained_next ho h (hreads e List.mem_cons_self) fun y reason hy =>
        hsaid y (List.mem_append_left _ (Option.mem_toList.mpr hy)) reason
    exact ih (owned_next ho e) hfirst (fun e he => hreads e (List.mem_cons_of_mem _ he))
      fun y hy => hsaid y (List.mem_append_right _ hy)

/-- In the course of the events the check of the transaction has failed for this reason. -/
def World.CheckFailed (s : World) (events : List Event) (id : TransactionId) (reason : CheckError) : Prop :=
  ∃ y ∈ s.examinations events, y.id = id ∧ y.answer = .error reason

/-- Whatever fails and in whatever order steps fall, if a source that can be read shows what it
    always shows: the path in a rejected slot goes along pointers to the culprit, and there the
    check has failed for a reason that no retry does away with, or there is a cycle of pointers
    through the culprit. The same is so of each answer, but its reason may be one that goes
    away. -/
theorem rejected_with_cause (x : Archive) (σ : RecordStore) {events : List Event}
    (hreads : ∀ e ∈ events, e.Reads x) :
    let s := (World.start σ).after events
    (∀ id f, s.table.slot? id = some (.rejected f) → x.Chain id f.path f.culprit ∧
      ((∃ reason, f.cause = .check reason ∧ reason.retryable = false ∧
          (World.start σ).CheckFailed events f.culprit reason) ∨
        (f.cause = .cycle ∧ TransGen x.Points f.culprit f.culprit))) ∧
    (∀ w ∈ s.walks, ∀ culprit chain, w.result? = some (.error (.cyclic culprit chain)) →
      chain.root = w.root ∧ x.Chain w.root chain.links culprit ∧ TransGen x.Points culprit culprit) ∧
    ∀ w ∈ s.walks, ∀ culprit chain reason, w.result? = some (.error (.rejected culprit chain reason)) →
      chain.root = w.root ∧ x.Chain w.root chain.links culprit ∧
        (World.start σ).CheckFailed events culprit reason := by
  intro s
  have h : Explained x ((World.start σ).CheckFailed events) s :=
    explained_after (owned_start σ) (explained_start σ) hreads fun y hy reason he => ⟨y, hy, rfl, he⟩
  have hanswer : ∀ w ∈ s.walks, ∀ e, w.result? = some (.error e) →
      AnswerExplained x ((World.start σ).CheckFailed events) w.root e := by
    intro w hw e he
    have hphase := (h.walks w hw).phase
    rw [Walk.result?_eq_some.mp he] at hphase
    exact hphase
  refine ⟨?_, fun w hw culprit chain => hanswer w hw _, fun w hw culprit chain reason => hanswer w hw _⟩
  intro id f hf
  obtain ⟨hchain, hc, hfinal⟩ := h.slots id f hf
  refine ⟨hchain, ?_⟩
  unfold Failure.Caused at hc
  cases hcause : f.cause with
  | cycle =>
    simp only [hcause] at hc
    exact .inr ⟨rfl, hc⟩
  | check reason =>
    simp only [hcause] at hc
    rw [hcause] at hfinal
    exact .inl ⟨reason, rfl, by simpa [Cause.isFinal] using hfinal, hc⟩
  | store | interrupted =>
    rw [hcause] at hfinal
    cases hfinal

/-! ## A transaction that points to itself -/

def toItself : StatePointer := ⟨.zero, 0⟩

def circularLedger : Ledger where
  registry := .builtin
  content id := if id = .zero then some (spending .zero .zero) else none
  id_content := by
    intro id tx h
    split at h
    · rename_i hid
      cases h
      exact hid.symm
    · cases h

def absent : TransactionId := ⟨UInt8.ofNat 1 :: Bytes.zeros 31, rfl⟩

/-- The first request comes back to where it started; the second asks for a transaction that
    the source does not have. -/
def circularEvents : List Event :=
  [.request .zero, .request absent] ++
    [0, 0, 0, 0, 0, 0, 0, 0, 0, 1, 1, 1, 1, 1, 1].map fun i => .step i (calm.surroundings circularLedger)

theorem circular_blamed :
    let s := (World.start .empty).after circularEvents
    s.table.slot? .zero = some (.rejected ⟨.cycle, .zero, [toItself]⟩) ∧
    circularLedger.archive.Chain .zero [toItself] .zero ∧
    TransGen circularLedger.archive.Points .zero .zero ∧
    s.walks.map Walk.result? = [some (.error (.cyclic .zero ⟨.zero, [toItself]⟩)),
      some (.error (.rejected absent ⟨absent, []⟩ (.missingTransaction absent)))] ∧
    (World.start .empty).CheckFailed circularEvents absent (.missingTransaction absent) := by
  intro s
  have hsteps (i : RequestId) : (Event.step i (calm.surroundings circularLedger)).Reads circularLedger.archive :=
    calm.surroundings_reads circularLedger
  have hrequest (id : TransactionId) : (Event.request id).Reads circularLedger.archive := trivial
  have hreads : ∀ e ∈ circularEvents, e.Reads circularLedger.archive := by simp [circularEvents, hsteps, hrequest]
  obtain ⟨hslots, -, hanswers⟩ := rejected_with_cause circularLedger.archive .empty hreads
  have hslot : s.table.slot? .zero = some (.rejected ⟨.cycle, .zero, [toItself]⟩) := rfl
  obtain ⟨hchain, ⟨reason, hreason, -⟩ | ⟨-, hcycle⟩⟩ := hslots .zero _ hslot
  · cases hreason
  · obtain ⟨w, hw, hres⟩ : ∃ w ∈ s.walks,
        w.result? = some (.error (.rejected absent ⟨absent, []⟩ (.missingTransaction absent))) :=
      ⟨_, .tail _ (.head _), rfl⟩
    exact ⟨hslot, hchain, hcycle, rfl, (hanswers w hw _ _ _ hres).2.2⟩

end VeiledLedger.Backchain
