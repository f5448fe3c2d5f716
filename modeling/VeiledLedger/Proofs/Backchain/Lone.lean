/-
  VeiledLedger.Proofs.Backchain.Lone — a walk that no other request disturbs.

  The surroundings may live anywhere: a store of records stands behind their state, and they
  speak the truth about it (`Surroundings.Truthful`). Any question may go without an answer,
  and a store that says it has failed may have kept the record all the same, unless it is `Sure`.

  While only one walk is on its way each slot that is being verified is its own, so it never
  waits. What it has not claimed keeps its slot; what it has claimed is not stored until its own
  record is. So a transaction that ends up as rejected has no record, and the answer of the
  walk tells what the slot of its root says (`Walk.Stands`).

  Main statement: `Lone.step`.
-/

import VeiledLedger.Proofs.Backchain.Claims
import VeiledLedger.Proofs.Backchain.Records

namespace VeiledLedger.Backchain

/-! ## Surroundings that speak for a store -/

def room (txs : List Published) (id : TransactionId) : Nat :=
  ((txs.find? (·.id = id)).map fun tx => (tx.view.groups.flatMap (·.leaves)).length).getD 0

section
variable {S : Type}

/-- What the surroundings say is true of the store behind them, and of the transactions `txs`. -/
structure Surroundings.Truthful (a : Surroundings (StateM S)) (behind : S → RecordStore → Prop)
    (txs : List Published) : Prop where
  stopped : ∀ {x σ}, behind x σ → behind (a.stopped.run x).2 σ
  find : ∀ {x σ} id, behind x σ → behind ((a.find id).run x).2 σ
  found : ∀ {x σ id found}, behind x σ → ((a.find id).run x).1 = .ok found → σ.get? id = found
  check : ∀ {x σ} id, behind x σ → behind ((a.check id).run x).2 σ
  checked : ∀ {x σ id r ps}, behind x σ → ((a.check id).run x).1 = .ok (r, ps) →
    r.id = id ∧ ps.length ≤ room txs id
  kept : ∀ {x σ r}, behind x σ → ((a.store r).run x).1 = .ok () →
    ∃ σ', behind ((a.store r).run x).2 σ' ∧ σ.put r = .ok σ'
  lost : ∀ {x σ r e}, behind x σ → ((a.store r).run x).1 = .error e →
    ∃ σ', behind ((a.store r).run x).2 σ' ∧ (σ' = σ ∨ σ.put r = .ok σ')

/-- A record that the store says it has lost is lost. -/
def Surroundings.Sure (a : Surroundings (StateM S)) (behind : S → RecordStore → Prop) : Prop :=
  ∀ {x σ r e}, behind x σ → ((a.store r).run x).1 = .error e → behind ((a.store r).run x).2 σ

namespace Walk

variable {a : Surroundings (StateM S)} {behind : S → RecordStore → Prop} {txs : List Published} {sure : Prop}
  {t t' : Table} {x x' : S} {σ : RecordStore} {w w' : Walk}

/-- What a step of `w`, which becomes `w'`, may do to the store. -/
inductive Stores (sure : Prop) (w : Walk) (σ : RecordStore) (w' : Walk) : RecordStore → Prop
  | same : (∀ f, w.phase ≠ .store f) → Stores sure w σ w' σ
  | kept {f σ'} : w.phase = .store f → w' = { w with phase := .publish f } → σ.put f.record = .ok σ' →
      Stores sure w σ w' σ'
  | lost {f e σ'} : w.phase = .store f → w' = w.failed f.claim (.store e) →
      (σ' = σ ∨ ¬sure ∧ σ.put f.record = .ok σ') → Stores sure w σ w' σ'

theorem Looks.still (ha : a.Truthful behind txs) {target : Claim} (h : Looks a t x w target t' x')
    (hx : behind x σ) : behind x' σ := by
  cases h with
  | first => exact hx
  | again => exact ha.stopped hx

theorem Step.stores (ha : a.Truthful behind txs) (hsure : sure → a.Sure behind) (h : Step a t x w t' x' w')
    (hx : behind x σ) : ∃ σ', behind x' σ' ∧ Stores sure w σ w' σ' := by
  cases h with
  | keeps hp hk =>
    obtain ⟨σ', hx', hput⟩ := ha.kept hx hk
    exact ⟨σ', hx', .kept hp rfl hput⟩
  | @loses f e hp hk =>
    by_cases hs : sure
    · exact ⟨σ, hsure hs hx hk, .lost hp rfl (.inl rfl)⟩
    · obtain ⟨σ', hx', hput⟩ := ha.lost hx hk
      exact ⟨σ', hx', .lost hp rfl (hput.imp_right fun h => ⟨hs, h⟩)⟩
  | stopped hp | entered hp | stoppedWaiting hp | judged hp => exact ⟨σ, ha.stopped hx, .same (by simp [hp])⟩
  | unreadable hp | found hp | missing hp => exact ⟨σ, ha.find _ hx, .same (by simp [hp])⟩
  | passed hp | faulted hp | rejects hp => exact ⟨σ, ha.check _ hx, .same (by simp [hp])⟩
  | publishes hp | settles hp | fails hp | rests hp => exact ⟨σ, hx, .same (by simp [hp])⟩
  | known hl | refused hl | closed hl | waits hl | takes hl =>
    refine ⟨σ, hl.still ha hx, .same ?_⟩
    rcases hl.phase with hp | hp <;> simp [hp]

theorem Stores.extends {σ' : RecordStore} (h : Stores sure w σ w' σ') : σ'.Extends σ := by
  cases h with
  | same => exact .refl σ
  | kept _ _ hput => exact RecordStore.extends_put hput
  | lost _ _ h =>
    rcases h with rfl | ⟨-, hput⟩
    · exact .refl _
    · exact RecordStore.extends_put hput

end Walk

end

/-! ## Between two requests -/

/-- No request is on its way: what counts as verified is stored, and what counts as rejected was
    rejected for good and is not. -/
structure Rested (t : Table) (σ : RecordStore) : Prop where
  idle : ∀ id r, t.slot? id ≠ some (.verifying r)
  verified : ∀ id r, t.slot? id = some (.verified r) → σ.get? id = some r
  rejected : ∀ id f, t.slot? id = some (.rejected f) → f.cause.isFinal = true ∧ σ.get? id = none

theorem rested_empty : Rested .empty .empty where
  idle := by
    intro id r h
    cases h
  verified := by
    intro id r h
    cases h
  rejected := by
    intro id f h
    cases h

/-! ## A request that is alone -/

def Cause.OfStore (cause : Cause) : Prop := ∃ e, cause = .store e

theorem Cause.not_ofStore {cause : Cause} (h : cause.isFinal = true) : ¬cause.OfStore := by
  rintro ⟨e, rfl⟩
  cases h

section
variable (sure : Prop) (t₀ : Table) (σ₀ : RecordStore)

def Unknown (id : TransactionId) : Prop := t₀.slot? id = none ∧ σ₀.get? id = none

def Leaves (t : Table) (σ : RecordStore) (root : TransactionId) (f : Failure) : Prop :=
  if f.cause.isFinal then t.slot? root = some (.rejected f)
  else t.slot? root = t₀.slot? root ∧ (¬f.cause.OfStore ∨ sure → σ.get? root = σ₀.get? root)

namespace Walk

/-- The claims lead down from the root, of which nothing was known. -/
def Under (root : TransactionId) (claims : List Claim) : Prop :=
  claims.getLast? = some ⟨root, none⟩ ∧ Unknown t₀ σ₀ root

/-- The walk comes to `target`. At its root nothing has been done yet. -/
def Comes (t : Table) (σ : RecordStore) (w : Walk) (target : Claim) : Prop :=
  match w.stack with
  | [] => target = ⟨w.root, none⟩ ∧ t = t₀ ∧ σ = σ₀
  | f :: stack => Under t₀ σ₀ w.root ((f :: stack).map Frame.claim)

def Stands (t : Table) (σ : RecordStore) (w : Walk) : Prop :=
  match w.phase with
  | .enter target | .lookUp target => w.Comes t₀ σ₀ t σ target
  | .visit target => σ.get? target.id = none ∧ w.Comes t₀ σ₀ t σ target
  | .blocked _ => False
  | .check claim | .judge claim _ => σ.get? claim.id = none ∧ Under t₀ σ₀ w.root (claim :: w.stack.map Frame.claim)
  | .store f => f.Named ∧ σ.get? f.claim.id = none ∧ Under t₀ σ₀ w.root (f.claim :: w.stack.map Frame.claim)
  | .publish f => σ.get? f.claim.id = some f.record ∧ Under t₀ σ₀ w.root (f.claim :: w.stack.map Frame.claim)
  | .unwind [] f => Leaves sure t₀ σ₀ t σ w.root f
  | .unwind (claim :: cs) f =>
    (¬f.cause.OfStore ∨ sure → ∀ c ∈ claim :: cs, σ.get? c.id = none) ∧ Under t₀ σ₀ w.root (claim :: cs)
  | .done (.ok r) => σ.get? w.root = some r
  | .done (.error e) => ∃ f, Leaves sure t₀ σ₀ t σ w.root f ∧ e = f.toError w.root

end Walk

/-- The walk `w` is the only one on its way, and it has started from `t₀` and `σ₀`. -/
structure Lone (t : Table) (σ : RecordStore) (w : Walk) : Prop where
  owner : ∀ id r, t.slot? id = some (.verifying r) → r = w.request ∧ w.Holds id
  holds : ∀ claim ∈ w.claims, t.slot? claim.id = some (.verifying w.request)
  distinct : (w.claims.map Claim.id).Nodup
  cleared : w.Cleared
  verified : ∀ id r, t.slot? id = some (.verified r) → σ.get? id = some r
  rejected : ∀ id f, t.slot? id = some (.rejected f) → f.cause.isFinal = true ∧ σ.get? id = none
  decided : ∀ id, t₀.Decided id → t.slot? id = t₀.slot? id
  extends_start : σ.Extends σ₀
  stack : ∀ f ∈ w.stack, f.Named ∧ σ.get? f.claim.id = none
  stands : w.Stands sure t₀ σ₀ t σ

end

section
variable {S : Type} {a : Surroundings (StateM S)} {behind : S → RecordStore → Prop} {txs : List Published}
  {sure : Prop} {t₀ t t' : Table} {x x' : S} {σ₀ σ σ' : RecordStore} {w w' : Walk}

theorem lone_start (h : Rested t₀ σ₀) (request : RequestId) (root : TransactionId) :
    Lone sure t₀ σ₀ t₀ σ₀ (.start request root) where
  owner id r hs := absurd hs (h.idle id r)
  holds := by
    intro claim hmem
    cases hmem
  distinct := List.nodup_nil
  cleared := trivial
  verified := h.verified
  rejected := h.rejected
  decided _ _ := rfl
  extends_start := .refl σ₀
  stack := by
    intro f hf
    cases hf
  stands := ⟨rfl, rfl, rfl⟩

/-! ## Where a step leaves the walk -/

namespace Walk

theorem under_stack {target : Claim} (hc : w.Comes t₀ σ₀ t σ target) (hs : w.stack ≠ []) :
    Under t₀ σ₀ w.root (w.stack.map Frame.claim) := by
  unfold Comes at hc
  split at hc
  · contradiction
  · rename_i f stack he
    rw [he]
    exact hc

theorem Under.cons {root : TransactionId} {claims : List Claim} (h : Under t₀ σ₀ root claims) (target : Claim) :
    Under t₀ σ₀ root (target :: claims) := by
  obtain ⟨hlast, hunknown⟩ := h
  refine ⟨?_, hunknown⟩
  cases claims with
  | nil => cases hlast
  | cons => rwa [List.getLast?_cons_cons]

theorem met_stands {target : Claim} {f : Failure} (hc : w.Comes t₀ σ₀ t σ target)
    (hs : ∀ g ∈ w.stack, g.Named ∧ σ.get? g.claim.id = none) (hroot : w.stack = [] → Leaves sure t₀ σ₀ t σ w.root f) :
    (w.met target f).Stands sure t₀ σ₀ t σ := by
  unfold Comes at hc
  unfold Stands met
  cases he : w.stack with
  | nil =>
    rw [he] at hc
    obtain ⟨rfl, -⟩ := hc
    exact hroot he
  | cons g stack =>
    rw [he] at hc
    refine ⟨fun _ c hmem => ?_, hc⟩
    obtain ⟨g', hg', rfl⟩ := List.mem_map.mp (List.map_cons (f := Frame.claim) ▸ hmem)
    exact (hs g' (he ▸ hg')).2

theorem failed_stands {claim : Claim} {cause : Cause} (hu : Under t₀ σ₀ w.root (claim :: w.stack.map Frame.claim))
    (hs : ∀ g ∈ w.stack, σ.get? g.claim.id = none)
    (hclaim : ¬cause.OfStore ∨ sure → σ.get? claim.id = none) :
    (w.failed claim cause).Stands sure t₀ σ₀ t σ := by
  refine ⟨fun h c hmem => ?_, hu⟩
  rcases List.mem_cons.mp hmem with rfl | hmem
  · exact hclaim h
  · obtain ⟨g, hg, rfl⟩ := List.mem_map.mp hmem
    exact hs g hg

theorem follow_stands {f : Frame} {stack : List Frame} (hf : f.Named) (hfree : σ.get? f.claim.id = none)
    (hu : Under t₀ σ₀ w.root (f.claim :: stack.map Frame.claim)) : (w.follow f stack).Stands sure t₀ σ₀ t σ := by
  unfold follow
  split
  · exact hu
  · exact ⟨hf, hfree, hu⟩

theorem resolved_stands {target : Claim} {r : Record} (hr : σ.get? target.id = some r)
    (hu : w.stack = [] → target.id = w.root) (hs : w.stack ≠ [] → Under t₀ σ₀ w.root (w.stack.map Frame.claim))
    (hstack : ∀ g ∈ w.stack, g.Named ∧ σ.get? g.claim.id = none) : (w.resolved r).Stands sure t₀ σ₀ t σ := by
  unfold resolved
  cases he : w.stack with
  | nil => exact hu he ▸ hr
  | cons f stack =>
    obtain ⟨hf, hfree⟩ := hstack f (by simp [he])
    have hu' := hs (by simp [he])
    rw [he] at hu'
    exact follow_stands hf hfree hu'

theorem follow_stack {P : Frame → Prop} {f : Frame} {stack : List Frame} (hf : P { f with pending := f.pending.tail })
    (hs : ∀ g ∈ stack, P g) : ∀ g ∈ (w.follow f stack).stack, P g := by
  unfold follow
  split
  · rename_i p ps hps
    rw [hps] at hf
    exact List.forall_mem_cons.mpr ⟨hf, hs⟩
  · exact hs

theorem resolved_stack {P : Frame → Prop} {r : Record} (hmono : ∀ f, P f → P { f with pending := f.pending.tail })
    (hs : ∀ g ∈ w.stack, P g) : ∀ g ∈ (w.resolved r).stack, P g := by
  unfold resolved
  cases he : w.stack with
  | nil =>
    rw [he] at hs
    exact hs
  | cons f stack =>
    rw [he] at hs
    obtain ⟨hf, hs⟩ := List.forall_mem_cons.mp hs
    exact follow_stack (hmono f hf) hs

/-- A frame on the stack was there before, or its transaction has just passed its check. -/
theorem Step.stack {P : Frame → Prop} (hmono : ∀ f, P f → P { f with pending := f.pending.tail })
    (h : Step a t x w t' x' w') (hs : ∀ g ∈ w.stack, P g)
    (hnew : ∀ claim r ps, w.phase = .check claim → ((a.check claim.id).run x).1 = .ok (r, ps) → P ⟨claim, ps, r⟩) :
    ∀ g ∈ w'.stack, P g := by
  cases h with
  | stopped | unreadable | stoppedWaiting | refused | closed | rejects | judged | loses =>
    intro g hg
    cases hg
  | entered | missing | waits | takes | faulted | keeps | settles | fails | rests => exact hs
  | found | known | publishes => exact resolved_stack hmono hs
  | passed hp he => exact follow_stack (hmono _ (hnew _ _ _ hp he)) hs

end Walk

namespace Lone

variable (ha : a.Truthful behind txs) (hx : behind x σ) (hl : Lone sure t₀ σ₀ t σ w) (h : Walk.Step a t x w t' x' w')

include ha hx hl h

/-- As long as nothing is stored the walk goes on as it should. -/
theorem stands_of_same (hsame : ∀ f, w.phase ≠ .store f) : w'.Stands sure t₀ σ₀ t' σ := by
  have hs := hl.stands
  unfold Walk.Stands at hs
  -- the walk does not wait, so it looks at the slot for the first time
  have first {target : Claim} {t₁ : Table} {y : S} (hlooks : Walk.Looks a t x w target t₁ y) :
      t₁ = t ∧ σ.get? target.id = none ∧ w.Comes t₀ σ₀ t σ target := by
    cases hlooks with
    | first hp => simp only [hp] at hs; exact ⟨rfl, hs⟩
    | again hp => simp only [hp] at hs
  have unheld : ∀ g ∈ w.stack, σ.get? g.claim.id = none := fun g hg => (hl.stack g hg).2
  cases h with
  | stopped hp =>
    simp only [hp] at hs
    exact Walk.met_stands hs hl.stack fun he => by
      simp only [Walk.Comes, he] at hs
      exact ⟨by rw [hs.2.1], fun _ => by rw [hs.2.2]⟩
  | entered hp => simp only [hp] at hs; exact hs
  | unreadable hp =>
    simp only [hp] at hs
    exact Walk.met_stands hs hl.stack fun he => by
      simp only [Walk.Comes, he] at hs
      exact ⟨by rw [hs.2.1], fun _ => by rw [hs.2.2]⟩
  | found hp hf =>
    simp only [hp] at hs
    exact Walk.resolved_stands (ha.found hx hf) (fun he => by simp only [Walk.Comes, he] at hs; rw [hs.1])
      (Walk.under_stack hs) hl.stack
  | missing hp hf => simp only [hp] at hs; exact ⟨ha.found hx hf, hs⟩
  | stoppedWaiting hp => simp only [hp] at hs
  | known hlooks hr => exact absurd ((hl.verified _ _ hr).symm.trans (first hlooks).2.1) (by simp)
  | refused hlooks hf =>
    obtain ⟨rfl, -, hc⟩ := first hlooks
    refine Walk.met_stands hc hl.stack fun he => ?_
    simp only [Walk.Comes, he] at hc
    rw [hc.1] at hf
    rw [Leaves, if_pos (hl.rejected _ _ hf).1]
    exact hf
  | closed hlooks ho =>
    obtain ⟨rfl, -, hc⟩ := first hlooks
    refine Walk.met_stands hc hl.stack fun he => ?_
    -- a walk that holds nothing yet closes no cycle
    obtain ⟨-, claim, hmem, -⟩ := hl.owner _ _ ho
    rw [hlooks.claims, he] at hmem
    cases hmem
  | waits hlooks ho hne => exact absurd (hl.owner _ _ ho).1 hne
  | @takes target _ _ hlooks hn =>
    obtain ⟨rfl, hfree, hc⟩ := first hlooks
    refine ⟨hfree, ?_⟩
    cases he : w.stack with
    | nil =>
      simp only [Walk.Comes, he] at hc
      obtain ⟨rfl, rfl, rfl⟩ := hc
      exact ⟨rfl, hn, hfree⟩
    | cons f stack => exact he ▸ (Walk.under_stack hc (by simp [he])).cons target
  | passed hp he =>
    simp only [hp] at hs
    exact Walk.follow_stands (ha.checked hx he).1 hs.1 hs.2
  | faulted hp => simp only [hp] at hs; exact hs
  | rejects hp => simp only [hp] at hs; exact Walk.failed_stands hs.2 unheld fun _ => hs.1
  | judged hp => simp only [hp] at hs; exact Walk.failed_stands hs.2 unheld fun _ => hs.1
  | keeps hp | loses hp => exact absurd hp (hsame _)
  | publishes hp =>
    simp only [hp] at hs
    obtain ⟨hr, hlast, hunknown⟩ := hs
    refine Walk.resolved_stands hr (fun he => ?_) (fun he => ?_) hl.stack
    · rw [he] at hlast
      exact congrArg Claim.id (Option.some.inj hlast)
    · refine ⟨?_, hunknown⟩
      obtain ⟨g, stack, hstack⟩ := List.exists_cons_of_ne_nil he
      rw [hstack] at hlast ⊢
      rwa [List.map_cons, List.getLast?_cons_cons] at hlast
  | @settles claim cs f hp =>
    simp only [hp] at hs
    obtain ⟨hfree, hlast, hunknown⟩ := hs
    cases cs with
    | nil =>
      obtain rfl : claim = ⟨w.root, none⟩ := Option.some.inj hlast
      show Leaves sure t₀ σ₀ (t.settle w.root f) σ w.root f
      unfold Leaves
      rw [Table.slot?_settle, if_pos rfl]
      split
      · rfl
      · exact ⟨hunknown.1.symm, fun hkept => (hfree hkept _ List.mem_cons_self).trans hunknown.2.symm⟩
    | cons c cs =>
      rw [List.getLast?_cons_cons] at hlast
      exact ⟨fun hf c hmem => hfree hf c (List.mem_cons_of_mem _ hmem), hlast, hunknown⟩
  | @fails f hp => simp only [hp] at hs; exact ⟨f, hs, rfl⟩
  | rests => exact hl.stands

omit ha hx in
/-- A slot changes while it is free, or while the walk holds it. -/
theorem slot_of_decided {id : TransactionId} (hd : t.Decided id) : t'.slot? id = t.slot? id := by
  cases h.slot id with
  | same hs => exact hs
  | claimed _ _ hn => exact absurd hn hd.ne_none
  | published hp hid =>
    subst hid
    exact absurd (hl.holds _ (by simp [Walk.claims, Phase.claims, hp])) (hd.not_verifying _)
  | settled hp hid =>
    subst hid
    exact absurd (hl.holds _ (by simp [Walk.claims, Phase.claims, hp])) (hd.not_verifying _)

omit ha hx h in
/-- The record that a step stores is that of the transaction where the walk stands: it makes no
    difference to what the walk does not hold, nor to the frames on its stack. -/
theorem get?_of_stores {σ' : RecordStore} (hstores : Walk.Stores sure w σ w' σ') {id : TransactionId}
    (hid : t.slot? id ≠ some (.verifying w.request) ∨ id ∈ (w.stack.map Frame.claim).map Claim.id) :
    σ'.get? id = σ.get? id := by
  have put {f : Frame} {σ' : RecordStore} (hp : w.phase = .store f) (hput : σ.put f.record = .ok σ') :
      σ'.get? id = σ.get? id := by
    have hs := hl.stands
    simp only [Walk.Stands, hp] at hs
    have hnamed : f.record.id = f.claim.id := hs.1
    rw [RecordStore.get?_put hput, hnamed, if_neg]
    rintro rfl
    rcases hid with hslot | hmem
    · exact hslot (hl.holds f.claim (by simp [Walk.claims, Phase.claims, hp]))
    · have hdistinct := hl.distinct
      simp only [Walk.claims, Phase.claims, hp, List.singleton_append, List.map_cons] at hdistinct
      exact (List.nodup_cons.mp hdistinct).1 hmem
  cases hstores with
  | same => rfl
  | kept hp _ hput => exact put hp hput
  | lost hp _ hlost =>
    rcases hlost with rfl | ⟨-, hput⟩
    · rfl
    · exact put hp hput

theorem stands_step {σ' : RecordStore} (hstores : Walk.Stores sure w σ w' σ') : w'.Stands sure t₀ σ₀ t' σ' := by
  have hs := hl.stands
  have hstack (g : Frame) (hg : g ∈ w.stack) : σ'.get? g.claim.id = none :=
    (hl.get?_of_stores hstores (.inr (List.mem_map_of_mem (List.mem_map_of_mem hg)))).trans (hl.stack g hg).2
  cases hstores with
  | same hsame => exact hl.stands_of_same ha hx h hsame
  | kept hp hw' hput =>
    subst hw'
    simp only [Walk.Stands, hp] at hs
    obtain ⟨hnamed, -, hunder⟩ := hs
    exact ⟨hnamed ▸ RecordStore.get?_put_self hput, hunder⟩
  | @lost f e σ' hp hw' hlost =>
    subst hw'
    simp only [Walk.Stands, hp] at hs
    obtain ⟨-, hfree, hunder⟩ := hs
    refine Walk.failed_stands hunder hstack fun hkept => ?_
    rcases hlost with rfl | ⟨hnot, -⟩
    · exact hfree
    · exact absurd (hkept.resolve_left fun h => h ⟨e, rfl⟩) hnot

theorem stack_step {σ' : RecordStore} (hstores : Walk.Stores sure w σ w' σ') :
    ∀ f ∈ w'.stack, f.Named ∧ σ'.get? f.claim.id = none := by
  have hold : ∀ f ∈ w.stack, f.Named ∧ σ'.get? f.claim.id = none := by
    intro f hf
    obtain ⟨hnamed, hfree⟩ := hl.stack f hf
    have hmem : f.claim.id ∈ (w.stack.map Frame.claim).map Claim.id := List.mem_map_of_mem (List.mem_map_of_mem hf)
    exact ⟨hnamed, (hl.get?_of_stores hstores (.inr hmem)).trans hfree⟩
  refine h.stack (fun _ hf => hf) hold fun claim r ps hp he => ?_
  have hs := hl.stands
  simp only [Walk.Stands, hp] at hs
  cases hstores with
  | same => exact ⟨(ha.checked hx he).1, hs.1⟩
  | kept hp' => cases hp.symm.trans hp'
  | lost hp' => cases hp.symm.trans hp'

omit ha hx in
theorem verified_step {σ' : RecordStore} (hσ : σ'.Extends σ) {id : TransactionId} {r : Record}
    (hr : t'.slot? id = some (.verified r)) : σ'.get? id = some r := by
  rcases h.verified_slot hr with hold | ⟨f, hp, rfl, rfl⟩
  · exact hσ _ _ (hl.verified id r hold)
  · have hs := hl.stands
    simp only [Walk.Stands, hp] at hs
    exact hσ _ _ hs.1

omit ha hx in
theorem rejected_step {σ' : RecordStore} (hstores : Walk.Stores sure w σ w' σ') {id : TransactionId} {f : Failure}
    (hf : t'.slot? id = some (.rejected f)) : f.cause.isFinal = true ∧ σ'.get? id = none := by
  rcases h.rejected_slot hf with hold | ⟨claim, cs, hp, rfl, hfinal⟩
  · obtain ⟨hfinal, hfree⟩ := hl.rejected id f hold
    exact ⟨hfinal, (hl.get?_of_stores hstores (.inl (by simp [hold]))).trans hfree⟩
  · have hs := hl.stands
    simp only [Walk.Stands, hp] at hs
    refine ⟨hfinal, ?_⟩
    cases hstores with
    | same => exact hs.1 (.inl (Cause.not_ofStore hfinal)) claim List.mem_cons_self
    | kept hp' => cases hp.symm.trans hp'
    | lost hp' => cases hp.symm.trans hp'

theorem step (hsure : sure → a.Sure behind) : ∃ σ', behind x' σ' ∧ Lone sure t₀ σ₀ t' σ' w' := by
  obtain ⟨σ', hx', hstores⟩ := h.stores ha hsure hx
  have hrequest := h.request
  obtain ⟨hholds, hdistinct⟩ := h.effect.holds rfl hl.holds hl.distinct
  refine ⟨σ', hx', ?_⟩
  exact {
    owner := by
      intro id r hs
      rcases h.verifying_slot hs with hold | ⟨rfl, target, hp, hid⟩
      · obtain ⟨rfl, hw⟩ := hl.owner id r hold
        exact ⟨hrequest.symm, h.holds hw hs⟩
      · exact ⟨hrequest.symm, target, by simp [Walk.claims, Phase.claims, hp], hid⟩
    holds := hrequest ▸ hholds
    distinct := hdistinct
    cleared := h.cleared hl.cleared
    verified := fun _ _ hr => hl.verified_step h hstores.extends hr
    rejected := fun _ _ hf => hl.rejected_step h hstores hf
    decided := fun id hd => (hl.slot_of_decided h (hd.of_eq (hl.decided id hd))).trans (hl.decided id hd)
    extends_start := fun id r hr => hstores.extends id r (hl.extends_start id r hr)
    stack := hl.stack_step ha hx h hstores
    stands := hl.stands_step ha hx h hstores }

end Lone
end

end VeiledLedger.Backchain
