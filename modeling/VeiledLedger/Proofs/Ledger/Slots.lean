/-
  VeiledLedger.Proofs.Ledger.Slots — what stands in the slots of a rebuilt public input.

  A verifier reads the pointers of a transaction off its view and asks the ancestors for the
  hashes of the outputs that they name. It makes exactly as many of them as the padding has
  slots: where there are fewer pointers it fills up, and where there are more it cuts. So no
  pointer is dropped exactly if the view shows no more than there are slots for, and it shows no
  more if it has the shape that the padding declares.

  Main statements: `missesFirst_of_outputHashes`, `rebuilt_iff`, `publicInput_rebuilt`.
-/

import VeiledLedger.Proofs.Argument.Packing
import VeiledLedger.Proofs.Ledger.PublicInput

namespace VeiledLedger.Rules

section
variable [Hasher]

/-! ## The outputs that are named -/

def Gives (source : TransactionSource) (q : StatePointer) (h : Digest) : Prop :=
  ∃ a, source q.txId = .ok (some a) ∧ a.view.outputHash? q.index = some h

inductive Misses (source : TransactionSource) (q : StatePointer) : CheckError → Prop
  | unreadable {e : StoreError} : source q.txId = .error e → Misses source q (.source e)
  | unknown : source q.txId = .ok none → Misses source q (.missingTransaction q.txId)
  | noOutput {a : Published} : source q.txId = .ok (some a) → a.view.outputHash? q.index = none →
      Misses source q (.missingOutput q)

def MissesFirst (source : TransactionSource) (qs : List StatePointer) (e : CheckError) : Prop :=
  ∃ before q after, qs = before ++ q :: after ∧ (∀ b ∈ before, ∃ h, Gives source b h) ∧ Misses source q e

section
variable {source : TransactionSource} {q : StatePointer} {qs : List StatePointer} {e : CheckError}

theorem gives_or_misses (source : TransactionSource) (q : StatePointer) :
    (∃ h, Gives source q h) ∨ ∃ e, Misses source q e := by
  cases hsource : source q.txId with
  | error e => exact .inr ⟨_, .unreadable hsource⟩
  | ok found =>
    cases found with
    | none => exact .inr ⟨_, .unknown hsource⟩
    | some a =>
      cases hhash : a.view.outputHash? q.index with
      | none => exact .inr ⟨_, .noOutput hsource hhash⟩
      | some h => exact .inl ⟨h, a, hsource, hhash⟩

theorem outputHashes_cons_of_gives {h : Digest} (hq : Gives source q h) :
    outputHashes source (q :: qs) = (outputHashes source qs).map (h :: ·) := by
  obtain ⟨a, hsource, hhash⟩ := hq
  rw [outputHashes, TransactionSource.fetch, hsource]
  dsimp only [bind, Except.bind]
  rw [hhash]
  cases outputHashes source qs <;> rfl

theorem outputHashes_cons_of_misses (hq : Misses source q e) : outputHashes source (q :: qs) = .error e := by
  rw [outputHashes, TransactionSource.fetch]
  cases hq with
  | unreadable hsource =>
    rw [hsource]
    rfl
  | unknown hsource =>
    rw [hsource]
    rfl
  | @noOutput a hsource hhash =>
    rw [hsource]
    dsimp only [bind, Except.bind]
    rw [hhash]

/-- An error is about the first pointer that the source gives nothing for. -/
theorem missesFirst_of_outputHashes (h : outputHashes source qs = .error e) : MissesFirst source qs e := by
  induction qs with
  | nil => cases h
  | cons q qs ih =>
    rcases gives_or_misses source q with ⟨hash, hq⟩ | ⟨e', hq⟩
    · rw [outputHashes_cons_of_gives hq] at h
      obtain ⟨before, x, after, rfl, hbefore, hx⟩ := ih (Except.map_eq_error.mp h)
      exact ⟨q :: before, x, after, rfl, List.forall_mem_cons.mpr ⟨⟨hash, hq⟩, hbefore⟩, hx⟩
    · rw [outputHashes_cons_of_misses hq] at h
      cases h
      exact ⟨[], q, qs, rfl, fun b hb => absurd hb List.not_mem_nil, hq⟩

/-! ## The slots of one group -/

/-- The slots hold the hash of what each pointer names, in their order, and behind those nothing but
    the hash of a slot that names nothing. -/
def Rebuilt (source : TransactionSource) (capacity size : Nat) (qs : List StatePointer) (slots : List Digest) : Prop :=
  ∃ hs, List.Forall₂ (Gives source) qs hs ∧
    slots = hs ++ List.replicate (capacity - qs.length) (PublicInput.paddingHash size) ∧ slots.length = capacity

section
variable {capacity size : Nat} {slots : List Digest}

theorem slotHashes_eq_ok : slotHashes source capacity size qs = .ok slots ↔
    ∃ hs, List.Forall₂ (Gives source) qs hs ∧
      slots = hs.take capacity ++ List.replicate (capacity - qs.length) (PublicInput.paddingHash size) := by
  unfold slotHashes
  simp only [Except.bind_eq_ok, outputHashes_eq_ok, Bytes.copies_eq_replicate]
  constructor
  · rintro ⟨hs, hgives, he⟩
    cases he
    exact ⟨hs, hgives, by rw [hgives.length_eq]⟩
  · rintro ⟨hs, hgives, rfl⟩
    exact ⟨hs, hgives, by rw [hgives.length_eq]; rfl⟩

/-- There are as many as the padding says, however many pointers there are. -/
theorem length_slotHashes (h : slotHashes source capacity size qs = .ok slots) : slots.length = capacity := by
  obtain ⟨hs, hgives, rfl⟩ := slotHashes_eq_ok.mp h
  rw [List.length_append, List.length_take, List.length_replicate, hgives.length_eq]
  omega

/-- Nothing is cut off exactly if there are no more pointers than slots. -/
theorem rebuilt_iff (h : slotHashes source capacity size qs = .ok slots) :
    Rebuilt source capacity size qs slots ↔ qs.length ≤ capacity := by
  constructor
  · rintro ⟨hs, hgives, rfl, hlen⟩
    rw [List.length_append, ← hgives.length_eq] at hlen
    omega
  · intro hle
    have hlen := length_slotHashes h
    obtain ⟨hs, hgives, rfl⟩ := slotHashes_eq_ok.mp h
    rw [List.take_of_length_le (hgives.length_eq ▸ hle)] at hlen ⊢
    exact ⟨hs, hgives, rfl, hlen⟩

theorem missesFirst_of_slotHashes (h : slotHashes source capacity size qs = .error e) : MissesFirst source qs e := by
  rcases Except.bind_eq_error.mp h with h | ⟨_, -, h⟩
  · exact missesFirst_of_outputHashes h
  · cases h

end

end

/-! ## The whole input -/

section
variable {rules : Rules} {source : TransactionSource} {tx : Published}

theorem publicInput_eq_ok {input : PublicInput} : rules.publicInput source tx = .ok input ↔
    tx.padding = rules.padding ∧ input.txId = tx.id ∧ ∃ spent named,
      tx.view.pointersOf .inputs rules.registry = .ok spent ∧
      tx.view.pointersOf .references rules.registry = .ok named ∧
      slotHashes source rules.padding.inputs rules.padding.utxoSize spent = .ok input.inputs ∧
      slotHashes source rules.padding.references rules.padding.utxoSize named = .ok input.references := by
  unfold publicInput
  by_cases hpadding : tx.padding = rules.padding
  · rw [if_neg (not_not.mpr hpadding), hpadding]
    simp only [Except.bind_eq_ok, Except.mapError_eq_ok, true_and]
    constructor
    · rintro ⟨spent, hspent, inputs, hinputs, named, hnamed, references, hreferences, he⟩
      cases he
      exact ⟨rfl, spent, named, hspent, hnamed, hinputs, hreferences⟩
    · rintro ⟨hid, spent, named, hspent, hnamed, hinputs, hreferences⟩
      refine ⟨spent, hspent, _, hinputs, named, hnamed, _, hreferences, ?_⟩
      rw [← hid]
      rfl
  · rw [if_pos hpadding]
    exact iff_of_false (fun h => by cases h) fun h => hpadding h.1

def Missing (e : CheckError) : Prop := (∃ id, e = .missingTransaction id) ∨ ∃ q, e = .missingOutput q

/-- It is said of the first pointer that is missed, and of the references only if all inputs were found. -/
theorem missesFirst_of_publicInput {e : CheckError} (h : rules.publicInput source tx = .error e) (he : Missing e) :
    ∃ spent, tx.view.pointersOf .inputs rules.registry = .ok spent ∧
      (MissesFirst source spent e ∨ (∀ q ∈ spent, ∃ h, Gives source q h) ∧
        ∃ named, tx.view.pointersOf .references rules.registry = .ok named ∧ MissesFirst source named e) := by
  have hread {qs : Except ViewError (List StatePointer)} : qs.mapError CheckError.disclosure ≠ .error e := by
    intro hqs
    obtain ⟨e', -, rfl⟩ := Except.mapError_eq_error.mp hqs
    rcases he with ⟨id, he⟩ | ⟨q, he⟩ <;> cases he
  unfold publicInput at h
  split at h
  · cases h
    rcases he with ⟨id, he⟩ | ⟨q, he⟩ <;> cases he
  rcases Except.bind_eq_error.mp h with h | ⟨spent, hspent, h⟩
  · exact absurd h hread
  refine ⟨spent, Except.mapError_eq_ok.mp hspent, ?_⟩
  rcases Except.bind_eq_error.mp h with h | ⟨inputs, hinputs, h⟩
  · exact .inl (missesFirst_of_slotHashes h)
  rcases Except.bind_eq_error.mp h with h | ⟨named, hnamed, h⟩
  · exact absurd h hread
  rcases Except.bind_eq_error.mp h with h | ⟨references, hreferences, h⟩
  · obtain ⟨hs, hgives, -⟩ := slotHashes_eq_ok.mp hinputs
    exact .inr ⟨forall_mem_left (fun q h hq => ⟨h, hq⟩) hgives, named, Except.mapError_eq_ok.mp hnamed,
      missesFirst_of_slotHashes h⟩
  · cases h

/-- A rebuilt public input has the id of the transaction, the length that the padding fixes, and in
    the slots of each group all of its pointers exactly if they are no more than the slots, as they
    are in a view of the declared shape. Where it cannot be rebuilt for want of a transaction or of
    an output, the first pointer is named that wants it. -/
theorem publicInput_rebuilt (rules : Rules) (source : TransactionSource) (tx : Published) :
    (∀ input, rules.publicInput source tx = .ok input →
      input.txId = tx.id ∧
      (∀ n, PublicInput.byteSize? rules.padding = some n → input.toBytes.length = n) ∧
      ∃ spent named, tx.view.pointersOf .inputs rules.registry = .ok spent ∧
        tx.view.pointersOf .references rules.registry = .ok named ∧
        (Rebuilt source rules.padding.inputs rules.padding.utxoSize spent input.inputs ↔
          spent.length ≤ rules.padding.inputs) ∧
        (Rebuilt source rules.padding.references rules.padding.utxoSize named input.references ↔
          named.length ≤ rules.padding.references)) ∧
    (tx.view.checkShape rules.padding = .ok () → ∀ kind qs, tx.view.pointersOf kind rules.registry = .ok qs →
      qs.length ≤ (rules.padding.shape kind).capacity) ∧
    ∀ e, rules.publicInput source tx = .error e → Missing e →
      ∃ spent, tx.view.pointersOf .inputs rules.registry = .ok spent ∧
        (MissesFirst source spent e ∨ (∀ q ∈ spent, ∃ h, Gives source q h) ∧
          ∃ named, tx.view.pointersOf .references rules.registry = .ok named ∧ MissesFirst source named e) := by
  refine ⟨fun input h => ?_, fun h kind qs => (View.checkShape_eq_ok.mp h).length_pointersOf_le,
    fun e => missesFirst_of_publicInput⟩
  obtain ⟨-, hid, spent, named, hspent, hnamed, hinputs, hreferences⟩ := publicInput_eq_ok.mp h
  refine ⟨hid, fun n hn => ?_, spent, named, hspent, hnamed, rebuilt_iff hinputs, rebuilt_iff hreferences⟩
  rw [PublicInput.length_toBytes, length_slotHashes hinputs, length_slotHashes hreferences,
    PublicInput.byteSize?_eq_some hn]

end

end

def oneSlot : Padding := { Padding.standard with inputs := 1 }

def spendingBoth (t : Tree) : Transaction := { View.oneInput with inputs := [⟨t.id, 0⟩, ⟨t.id, 1⟩] }

/-- What a verifier finds in the slots of a transaction that spends one output, and what it is told
    where nobody has the transaction that it spends from. -/
theorem spending_rebuilt : ∃ t t' input, Tree.build issue .builtin .standard = .ok t ∧
    Tree.build (spending ⟨t.id, 0⟩) .builtin .standard = .ok t' ∧
    let tx : Published := ⟨t'.id, [], .standard, View.ofTree t' .forVerifier⟩
    (Rules.mk .builtin .standard).publicInput (sourceOf t) tx = .ok input ∧
    input.txId = t'.id ∧ input.toBytes.length = 132 ∧
    Rebuilt (sourceOf t) 2 64 [⟨t.id, 0⟩] input.inputs ∧ Rebuilt (sourceOf t) 1 64 [] input.references ∧
    (Rules.mk .builtin .standard).publicInput (fun _ => .ok none) tx = .error (.missingTransaction t.id) ∧
    MissesFirst (fun _ => .ok none) [⟨t.id, 0⟩] (.missingTransaction t.id) := by
  obtain ⟨t, t', h, ht, ht', hhash⟩ : ∃ t t' h, Tree.build issue .builtin .standard = .ok t ∧
      Tree.build (spending ⟨t.id, 0⟩) .builtin .standard = .ok t' ∧
      (View.ofTree t .forVerifier).outputHash? 0 = some h := ⟨_, _, _, rfl, rfl, rfl⟩
  have hspent : (View.ofTree t' .forVerifier).pointersOf .inputs .builtin = .ok [⟨t.id, 0⟩] :=
    View.pointersOf_ofTree .builtin ht' (View.shows_forVerifier (.inl rfl)) rfl
  have hnamed : (View.ofTree t' .forVerifier).pointersOf .references .builtin = .ok [] :=
    View.pointersOf_ofTree .builtin ht' (View.shows_forVerifier (.inr rfl)) rfl
  have hgives : Gives (sourceOf t) ⟨t.id, 0⟩ h := ⟨_, by rw [sourceOf, if_pos rfl], hhash⟩
  have hinputs : slotHashes (sourceOf t) 2 64 [⟨t.id, 0⟩] = .ok [h, PublicInput.paddingHash 64] :=
    slotHashes_eq_ok.mpr ⟨[h], .cons hgives .nil, rfl⟩
  have hreferences : slotHashes (sourceOf t) 1 64 [] = .ok [PublicInput.paddingHash 64] :=
    slotHashes_eq_ok.mpr ⟨[], .nil, rfl⟩
  have hinput : (Rules.mk .builtin .standard).publicInput (sourceOf t)
      ⟨t'.id, [], .standard, View.ofTree t' .forVerifier⟩ = .ok ⟨t'.id, _, _⟩ :=
    publicInput_eq_ok.mpr ⟨rfl, rfl, _, _, hspent, hnamed, hinputs, hreferences⟩
  have hmissing : (Rules.mk .builtin .standard).publicInput (fun _ => .ok none)
      ⟨t'.id, [], .standard, View.ofTree t' .forVerifier⟩ = .error (.missingTransaction t.id) := by
    rw [publicInput, if_neg (not_not.mpr rfl), hspent]
    rfl
  obtain ⟨hok, -⟩ := publicInput_rebuilt (Rules.mk .builtin .standard) (sourceOf t) _
  obtain ⟨-, -, herror⟩ := publicInput_rebuilt (Rules.mk .builtin .standard) (fun _ => .ok none) _
  obtain ⟨hid, hlen, spent, named, hspent', hnamed', hall, hnone⟩ := hok _ hinput
  cases hspent.symm.trans hspent'
  cases hnamed.symm.trans hnamed'
  obtain ⟨spent, hspent', hfirst⟩ := herror _ hmissing (.inl ⟨_, rfl⟩)
  cases hspent.symm.trans hspent'
  refine ⟨t, t', _, ht, ht', hinput, hid, hlen 132 (by decide), hall.mpr (Nat.le_succ 1), hnone.mpr (Nat.zero_le 1), hmissing,
    hfirst.resolve_right ?_⟩
  rintro ⟨hgiven, -⟩
  obtain ⟨_, _, hsource, _⟩ := hgiven _ List.mem_cons_self
  cases hsource

/-- Where the view has a slot more than the padding it declares, the second output that is spent is
    left out of the public input, although the shape of the view is refused where it is looked at. -/
theorem second_spent_dropped : ∃ t t' h h', Tree.build issue .builtin .standard = .ok t ∧
    Tree.build (spendingBoth t) .builtin .standard = .ok t' ∧
    Gives (sourceOf t) ⟨t.id, 0⟩ h ∧ Gives (sourceOf t) ⟨t.id, 1⟩ h' ∧
    let tx : Published := ⟨t'.id, [], oneSlot, View.ofTree t' .forVerifier⟩
    tx.view.pointersOf .inputs .builtin = .ok [⟨t.id, 0⟩, ⟨t.id, 1⟩] ∧
    (Rules.mk .builtin oneSlot).publicInput (sourceOf t) tx = .ok ⟨t'.id, [h], [PublicInput.paddingHash 64]⟩ ∧
    ¬Rebuilt (sourceOf t) 1 64 [⟨t.id, 0⟩, ⟨t.id, 1⟩] [h] ∧
    tx.view.checkShape oneSlot = .error (.slotCount .inputs 1 2) := by
  obtain ⟨t, t', h, h', ht, ht', hhash, hhash', hshape⟩ : ∃ t t' h h', Tree.build issue .builtin .standard = .ok t ∧
      Tree.build (spendingBoth t) .builtin .standard = .ok t' ∧
      (View.ofTree t .forVerifier).outputHash? 0 = some h ∧ (View.ofTree t .forVerifier).outputHash? 1 = some h' ∧
      (View.ofTree t' .forVerifier).checkShape oneSlot = .error (.slotCount .inputs 1 2) :=
    ⟨_, _, _, _, rfl, rfl, rfl, rfl, rfl⟩
  have hspent : (View.ofTree t' .forVerifier).pointersOf .inputs .builtin = .ok [⟨t.id, 0⟩, ⟨t.id, 1⟩] :=
    View.pointersOf_ofTree .builtin ht' (View.shows_forVerifier (.inl rfl)) rfl
  have hnamed : (View.ofTree t' .forVerifier).pointersOf .references .builtin = .ok [] :=
    View.pointersOf_ofTree .builtin ht' (View.shows_forVerifier (.inr rfl)) rfl
  have hgives : Gives (sourceOf t) ⟨t.id, 0⟩ h := ⟨_, by rw [sourceOf, if_pos rfl], hhash⟩
  have hgives' : Gives (sourceOf t) ⟨t.id, 1⟩ h' := ⟨_, by rw [sourceOf, if_pos rfl], hhash'⟩
  have hinputs : slotHashes (sourceOf t) 1 64 [⟨t.id, 0⟩, ⟨t.id, 1⟩] = .ok [h] :=
    slotHashes_eq_ok.mpr ⟨[h, h'], .cons hgives (.cons hgives' .nil), rfl⟩
  have hreferences : slotHashes (sourceOf t) 1 64 [] = .ok [PublicInput.paddingHash 64] :=
    slotHashes_eq_ok.mpr ⟨[], .nil, rfl⟩
  refine ⟨t, t', h, h', ht, ht', hgives, hgives', hspent,
    publicInput_eq_ok.mpr ⟨rfl, rfl, _, _, hspent, hnamed, hinputs, hreferences⟩, fun hall => ?_, hshape⟩
  have hle : 2 ≤ 1 := (rebuilt_iff hinputs).mp hall
  exact absurd hle (by decide)

end VeiledLedger.Rules
