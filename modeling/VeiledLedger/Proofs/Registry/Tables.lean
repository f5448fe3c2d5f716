/-
  VeiledLedger.Proofs.Registry.Tables — a registry that is written in place.

  While it is built, a registry is five tables, and a call writes them one entry after another
  (`Call`). Nothing takes back what has been written when a call fails, and a write under a key
  that is taken replaces what stood there. So that a failed call leaves no trace, and that a
  call overwrites nothing, rests on the order of its steps: a batch is checked against the
  tables and against itself before its first entry is written, and no later step fails
  (`call_eq`).

  The calls on tables do what `register` and `registerFamily` say of a registry, down to the
  error (`Shows.call`). There a batch is not checked first; its registrations are added one
  by one to a list that is dropped if one of them collides.

  Main statement: `all_or_nothing`.
-/

import VeiledLedger.Assoc
import VeiledLedger.Proofs.Registry.Consistency

namespace VeiledLedger

/-! ## Many entries in a map -/

namespace Assoc

variable {α β γ : Type} [DecidableEq α]

def setAll (m new : Assoc α β) : Assoc α β := new.foldl (fun m e => m.set e.1 e.2) m

theorem get?_append (m new : Assoc α β) (x : α) : get? (m ++ new) x = (m.get? x).or (new.get? x) := by
  unfold get?
  rw [List.find?_append, Option.map_or]

theorem get?_map (key : γ → α) (val : γ → β) (l : List γ) (x : α) :
    get? (l.map fun n => (key n, val n)) x = (l.find? (fun n => key n = x)).map val := by
  unfold get?
  rw [List.find?_map, Option.map_map]
  rfl

/-- No key of `new` stands in `m`, and none of them stands in `new` twice. -/
structure Fresh (m new : Assoc α β) : Prop where
  nodup : new.keys.Nodup
  absent : ∀ e ∈ new, m.get? e.1 = none

/-- What is found in `m'` is what is found in `m` and what `new` holds. -/
def Gains (m new m' : Assoc α β) : Prop := ∀ x y, m'.get? x = some y ↔ m.get? x = some y ∨ (x, y) ∈ new

theorem get?_eq_some_iff {m : Assoc α β} (hkeys : m.keys.Nodup) {x : α} {y : β} : m.get? x = some y ↔ (x, y) ∈ m := by
  refine ⟨mem_of_get?, fun hmem => get?_of_mem hmem fun y' hmem' => ?_⟩
  exact congrArg Prod.snd (List.inj_on_of_nodup_map hkeys hmem' hmem rfl)

namespace Fresh

variable {m new : Assoc α β} (h : m.Fresh new)
include h

theorem tail {e : α × β} {rest : Assoc α β} (hnew : new = e :: rest) : (m.set e.1 e.2).Fresh rest := by
  subst hnew
  obtain ⟨hfirst, hkeys⟩ := List.nodup_cons.mp h.nodup
  refine ⟨hkeys, fun e' he' => ?_⟩
  rw [get?_set, if_neg fun heq : e'.1 = e.1 => hfirst (List.mem_map.mpr ⟨e', he', heq⟩)]
  exact h.absent e' (List.mem_cons_of_mem _ he')

/-- Entries under fresh keys take nothing away. -/
theorem get?_setAll (x : α) : (m.setAll new).get? x = (m.get? x).or (new.get? x) := by
  induction new generalizing m with
  | nil => simp [setAll]
  | cons e new ih =>
    show ((m.set e.1 e.2).setAll new).get? x = _
    rw [ih (h.tail rfl), get?_set, get?_cons]
    by_cases hx : x = e.1
    · subst hx
      simp [h.absent e List.mem_cons_self]
    · simp [hx, Ne.symm hx]

theorem gains : m.Gains new (m.setAll new) := by
  intro x y
  rw [h.get?_setAll, Option.or_eq_some_iff, get?_eq_some_iff h.nodup]
  constructor
  · rintro (hold | ⟨-, hnew⟩)
    · exact .inl hold
    · exact .inr hnew
  · rintro (hold | hnew)
    · exact .inl hold
    · exact .inr ⟨h.absent _ hnew, hnew⟩

end Fresh

/-- A map that holds what is found in `l` has no key of new items if no key stands twice in both lists. -/
theorem fresh_map {key : γ → α} {val val' : γ → β} {m : Assoc α β} {l news : List γ}
    (hm : ∀ x, m.get? x = (l.find? (fun n => key n = x)).map val) (hl : (l.map key).Nodup) :
    ((l ++ news).map key).Nodup ↔ m.Fresh (news.map fun n => (key n, val' n)) := by
  have hkeys : keys (news.map fun n => (key n, val' n)) = news.map key := List.map_map
  have habsent (x : α) : m.get? x = none ↔ ∀ y ∈ l, key y ≠ x := by
    rw [hm, Option.map_eq_none_iff, List.find?_eq_none]
    simp only [decide_eq_true_eq, ne_eq]
  rw [List.map_append, List.nodup_append]
  constructor
  · rintro ⟨-, hnews, hdisjoint⟩
    refine ⟨hkeys ▸ hnews, fun e he => ?_⟩
    obtain ⟨n, hn, rfl⟩ := List.mem_map.mp he
    exact (habsent _).mpr fun y hy => hdisjoint _ (List.mem_map_of_mem hy) _ (List.mem_map_of_mem hn)
  · intro h
    refine ⟨hl, hkeys ▸ h.nodup, fun x hx y hy => ?_⟩
    obtain ⟨o, ho, rfl⟩ := List.mem_map.mp hx
    obtain ⟨n, hn, rfl⟩ := List.mem_map.mp hy
    exact (habsent _).mp (h.absent _ (List.mem_map_of_mem hn)) o ho

/-- What is found in `old` or else in `m` is what is found in a list of items, and stays so when a
    new item is added to both. -/
theorem or_get?_set {key : γ → α} {val : γ → β} {old : α → Option β} {m : Assoc α β} {l : List γ}
    (h : ∀ x, (old x).or (m.get? x) = (l.find? (fun n => key n = x)).map val) {new : γ}
    (hnew : l.find? (fun n => key n = key new) = none) (x : α) :
    (old x).or ((m.set (key new) (val new)).get? x) = ((l ++ [new]).find? (fun n => key n = x)).map val := by
  rw [get?_set, List.find?_append, Option.map_or, ← h x]
  by_cases hx : x = key new
  · subst hx
    obtain ⟨hold, hm⟩ := Option.or_eq_none_iff.mp ((h (key new)).trans (by rw [hnew]; rfl))
    simp [hold, hm]
  · simp [hx, Ne.symm hx]

end Assoc

namespace Registry

/-! ## Tables and the calls that write them -/

structure Tables where
  /-- The id under each name. -/
  ids : Assoc String TypeId
  types : Assoc TypeId Registration
  /-- For each version but the first, the version before it and the conversion. -/
  conversions : Assoc String (String × Conversion)
  families : Assoc String (List String)
  commands : List UpgradeCommand

/-- What works on the tables and may fail. What it has written until then stays written. -/
abbrev Call := ExceptT RegistryError (StateM Tables)

def Call.on {α : Type} (c : Call α) (t : Tables) : Except RegistryError α × Tables := StateT.run (ExceptT.run c) t

namespace Tables

/-- Checks a batch against the tables and against itself: `names` and `taken` are those of the
    registrations that have passed. -/
def check (t : Tables) : (names : Assoc String TypeId) → (taken : Assoc TypeId String) → List Registration →
    Except RegistryError Unit
  | _, _, [] => .ok ()
  | names, taken, new :: news =>
    match (t.ids.get? new.name).or (names.get? new.name) with
    | some old => .error (.duplicateType new.name old)
    | none =>
      match ((t.types.get? new.id).map (·.name)).or (taken.get? new.id) with
      | some old => .error (.duplicateId new.id new.name old)
      | none => check t (names.set new.name new.id) (taken.set new.id new.name) news

def put (t : Tables) (new : Registration) : Tables :=
  { t with ids := t.ids.set new.name new.id, types := t.types.set new.id new }

def putConversion (t : Tables) (m : VersionedType) : Tables :=
  match m.upgradesFrom with
  | some u => { t with conversions := t.conversions.set m.name u }
  | none => t

def builtin : Tables := Registry.builtin.types.foldl put ⟨[], [], [], [], []⟩

end Tables

namespace Call

def insertAll (batch : List Registration) : Call Unit := do
  ofExcept ((← get).check [] [] batch)
  batch.forM fun new => modify (·.put new)

def register (name : String) (id : TypeId) (layout : Layout) : Call Unit := do
  if id ≤ reservedIds then throw (.reservedId id)
  insertAll [⟨name, id, layout, none⟩]

def registerFamily [Hasher] (family : VersionFamily) (first : TypeId) : Call Unit := do
  if ((← get).families.get? family.marker).isSome then throw (.duplicateFamily family.marker)
  let chain ← ofExcept family.ordered
  let versions ← ofExcept (versionTypes family.marker first 0 chain)
  let commands := chainCommands chain
  insertAll (versions ++ commands.map commandType)
  chain.forM fun m => modify (·.putConversion m)
  modify fun t => { t with commands := t.commands ++ commands }
  modify fun t => { t with families := t.families.set family.marker (chain.map (·.name)) }

def ofAddition [Hasher] : Addition → Call Unit
  | .type name id layout => register name id layout
  | .family f first => registerFamily f first

/-! ## What the steps of a call do -/

section
variable {α β : Type}

theorem on_bind (c : Call α) (k : α → Call β) (t : Tables) :
    (c >>= k).on t = match c.on t with
      | (.ok a, t') => (k a).on t'
      | (.error e, t') => (.error e, t') := by
  show StateT.run (ExceptT.run c >>= ExceptT.bindCont k) t = _
  rw [StateT.run_bind]
  show (match StateT.run (ExceptT.run c) t with | (x, t') => StateT.run (ExceptT.bindCont k x) t') = _
  unfold Call.on
  rcases StateT.run (ExceptT.run c) t with ⟨_ | a, t'⟩ <;> rfl

theorem on_ofExcept (x : Except RegistryError α) (t : Tables) : (ofExcept x : Call α).on t = (x, t) := by
  cases x <;> rfl

theorem on_throw (e : RegistryError) (t : Tables) : (throw e : Call α).on t = (.error e, t) := rfl

theorem on_get (t : Tables) : (get : Call Tables).on t = (.ok t, t) := rfl

theorem on_modify (g : Tables → Tables) (t : Tables) : (modify g : Call Unit).on t = (.ok (), g t) := rfl

theorem on_forM_modify (g : α → Tables → Tables) (l : List α) (t : Tables) :
    (l.forM fun x => modify (g x) : Call Unit).on t = (.ok (), l.foldl (fun t x => g x t) t) := by
  induction l generalizing t with
  | nil => rfl
  | cons x l ih =>
    show ((modify (g x) : Call Unit) >>= fun _ => l.forM fun x => modify (g x)).on t = _
    rw [on_bind, on_modify]
    exact ih (g x t)

end

theorem on_insertAll (batch : List Registration) (t : Tables) :
    (insertAll batch).on t = match t.check [] [] batch with
      | .ok _ => (.ok (), batch.foldl Tables.put t)
      | .error e => (.error e, t) := by
  unfold insertAll
  simp only [on_bind, on_get, on_ofExcept]
  cases t.check [] [] batch with
  | error e => rfl
  | ok => exact on_forM_modify (fun new t => t.put new) batch t

end Call

/-! ## All that a call writes -/

structure Batch where
  types : List Registration
  conversions : List (String × String × Conversion)
  families : List (String × List String)
  commands : List UpgradeCommand

def Addition.batch [Hasher] : Addition → Except RegistryError Batch
  | .type name id layout =>
    if id ≤ reservedIds then .error (.reservedId id) else .ok ⟨[⟨name, id, layout, none⟩], [], [], []⟩
  | .family f first => do
    let chain ← f.ordered
    let versions ← versionTypes f.marker first 0 chain
    return ⟨versions ++ (chainCommands chain).map commandType, conversionsOf chain,
      [(f.marker, chain.map (·.name))], chainCommands chain⟩

namespace Tables

def gain (t : Tables) (b : Batch) : Tables where
  ids := t.ids.setAll (b.types.map fun n => (n.name, n.id))
  types := t.types.setAll (b.types.map fun n => (n.id, n))
  conversions := t.conversions.setAll b.conversions
  families := t.families.setAll b.families
  commands := t.commands ++ b.commands

theorem foldl_put (t : Tables) (news : List Registration) :
    news.foldl put t = { t with
      ids := t.ids.setAll (news.map fun n => (n.name, n.id))
      types := t.types.setAll (news.map fun n => (n.id, n)) } := by
  induction news generalizing t with
  | nil => rfl
  | cons new news ih =>
    rw [List.foldl_cons, ih]
    rfl

theorem foldl_putConversion (t : Tables) (chain : List VersionedType) :
    chain.foldl putConversion t = { t with conversions := t.conversions.setAll (conversionsOf chain) } := by
  induction chain generalizing t with
  | nil => rfl
  | cons m chain ih =>
    rw [List.foldl_cons, ih]
    unfold putConversion conversionsOf
    rw [List.filterMap_cons]
    cases m.upgradesFrom <;> rfl

/-- A family whose marker is taken is refused before it is looked at. -/
def checkMarker (t : Tables) : Addition → Except RegistryError Unit
  | .type .. => .ok ()
  | .family f _ => if (t.families.get? f.marker).isSome then .error (.duplicateFamily f.marker) else .ok ()

def vet [Hasher] (t : Tables) (a : Addition) : Except RegistryError Batch := do
  t.checkMarker a
  let b ← a.batch
  t.check [] [] b.types
  return b

def settle (t : Tables) : Except RegistryError Batch → Except RegistryError Unit × Tables
  | .ok b => (.ok (), t.gain b)
  | .error e => (.error e, t)

theorem on_ofExcept_bind {α : Type} {t : Tables} {x : Except RegistryError α} {k : α → Call Unit}
    {g : α → Except RegistryError Batch} (h : ∀ a, (k a).on t = t.settle (g a)) :
    (ofExcept x >>= k).on t = t.settle (x >>= g) := by
  rw [Call.on_bind, Call.on_ofExcept]
  cases x with
  | ok a => exact h a
  | error e => rfl

/-- A call fails before it writes, or it writes all that the addition brings. -/
theorem call_eq [Hasher] (t : Tables) (a : Addition) : (Call.ofAddition a).on t = t.settle (t.vet a) := by
  cases a with
  | type name id layout =>
    unfold Call.ofAddition Call.register vet checkMarker Addition.batch
    by_cases hid : id ≤ reservedIds
    · simp only [if_pos hid, Call.on_bind, Call.on_throw]
      rfl
    · simp only [if_neg hid, Call.on_insertAll, foldl_put]
      show _ = t.settle (t.check [] [] [⟨name, id, layout, none⟩] >>= fun _ =>
        pure ⟨[⟨name, id, layout, none⟩], [], [], []⟩)
      cases t.check [] [] [⟨name, id, layout, none⟩] with
      | error e => rfl
      | ok =>
        show _ = (Except.ok (), t.gain ⟨[⟨name, id, layout, none⟩], [], [], []⟩)
        rw [gain, List.append_nil]
        rfl
  | family f first =>
    unfold Call.ofAddition Call.registerFamily vet checkMarker
    rw [Call.on_bind, Call.on_get]
    dsimp only
    split
    · rw [Call.on_bind]
      rfl
    · show Call.on _ t = t.settle ((Addition.family f first).batch >>= _)
      unfold Addition.batch
      simp only [bind_assoc, pure_bind]
      refine on_ofExcept_bind fun chain => on_ofExcept_bind fun versions => ?_
      rw [Call.on_bind, Call.on_insertAll]
      cases t.check [] [] (versions ++ (chainCommands chain).map commandType) with
      | error e => rfl
      | ok =>
        simp only [Call.on_bind, Call.on_forM_modify, Call.on_modify, foldl_put, foldl_putConversion]
        rfl

end Tables

/-! ## The tables of a registry -/

def gain (r : Registry) (b : Batch) : Registry :=
  ⟨r.types ++ b.types, r.conversions ++ b.conversions, r.families ++ b.families, r.commands ++ b.commands⟩

/-- Under each key the tables hold what is found in `r`. -/
structure Tables.Shows (t : Tables) (r : Registry) : Prop where
  ids : ∀ name, t.ids.get? name = (r.findName? name).map (·.id)
  types : ∀ id, t.types.get? id = r.findId? id
  conversions : ∀ name, t.conversions.get? name = Assoc.get? r.conversions name
  families : ∀ marker, t.families.get? marker = r.family? marker
  commands : t.commands = r.commands

structure Tables.Fits (t : Tables) (b : Batch) : Prop where
  ids : t.ids.Fresh (b.types.map fun n => (n.name, n.id))
  types : t.types.Fresh (b.types.map fun n => (n.id, n))
  conversions : t.conversions.Fresh b.conversions
  families : t.families.Fresh b.families

structure Tables.Gains (t : Tables) (b : Batch) (t' : Tables) : Prop where
  ids : t.ids.Gains (b.types.map fun n => (n.name, n.id)) t'.ids
  types : t.types.Gains (b.types.map fun n => (n.id, n)) t'.types
  conversions : t.conversions.Gains b.conversions t'.conversions
  families : t.families.Gains b.families t'.families
  commands : t'.commands = t.commands ++ b.commands

theorem Tables.Fits.gains {t : Tables} {b : Batch} (h : t.Fits b) : t.Gains b (t.gain b) :=
  ⟨h.ids.gains, h.types.gains, h.conversions.gains, h.families.gains, rfl⟩

namespace Tables

/-- Checking a batch against tables is adding it, one registration after another, to the list that
    the tables show. -/
theorem check_eq {t : Tables} {names : Assoc String TypeId} {taken : Assoc TypeId String}
    {types news : List Registration}
    (hnames : ∀ x, (t.ids.get? x).or (names.get? x) = (types.find? (fun n => n.name = x)).map (·.id))
    (htaken : ∀ x, ((t.types.get? x).map (·.name)).or (taken.get? x) = (types.find? (fun n => n.id = x)).map (·.name)) :
    t.check names taken news = (Registry.insertAll types news).map fun _ => () := by
  induction news generalizing names taken types with
  | nil => rfl
  | cons new news ih =>
    unfold check Registry.insertAll insert
    rw [hnames, htaken]
    cases hname : types.find? (fun n => n.name = new.name) with
    | some old => rfl
    | none =>
      cases hid : types.find? (fun n => n.id = new.id) with
      | some old => rfl
      | none => exact ih (Assoc.or_get?_set hnames hname) (Assoc.or_get?_set htaken hid)

theorem Shows.check {t : Tables} {r : Registry} (h : t.Shows r) (news : List Registration) :
    t.check [] [] news = (Registry.insertAll r.types news).map fun _ => () :=
  check_eq (fun x => by rw [Assoc.get?_nil, Option.or_none, h.ids]; rfl) fun x => by
    rw [Assoc.get?_nil, Option.or_none, h.types]
    rfl

/-- A batch that passes its check is what the list of registrations gains. -/
theorem Shows.insertAll {t : Tables} {r : Registry} (h : t.Shows r) (b : Batch) :
    Except.map r.gain (t.check [] [] b.types >>= fun _ => pure b) = Registry.insertAll r.types b.types >>= fun types =>
      pure ⟨types, r.conversions ++ b.conversions, r.families ++ b.families, r.commands ++ b.commands⟩ := by
  rw [h.check]
  cases htypes : Registry.insertAll r.types b.types with
  | error e => rfl
  | ok types =>
    rw [insertAll_eq_ok htypes]
    rfl

theorem Shows.contains_marker {t : Tables} {r : Registry} (h : t.Shows r) (marker : String) :
    (r.families.map (·.1)).contains marker = (t.families.get? marker).isSome := by
  rw [h.families, Registry.family?, Option.isSome_map, Bool.eq_iff_iff, List.contains_iff_mem, List.mem_map,
    List.find?_isSome]
  simp only [decide_eq_true_eq]

/-- What refuses an addition to the tables refuses it to the registry that they show. -/
theorem Shows.outcome [Hasher] {t : Tables} {r : Registry} (h : t.Shows r) (a : Addition) :
    a.outcome r = (t.vet a).map r.gain := by
  cases a with
  | type name id layout =>
    show r.register name id layout = _
    unfold register vet checkMarker Addition.batch
    dsimp only
    split
    · rfl
    · refine Eq.trans ?_ (h.insertAll ⟨[⟨name, id, layout, none⟩], [], [], []⟩).symm
      simp only [List.append_nil]
  | family f first =>
    show r.registerFamily f first = _
    unfold registerFamily vet checkMarker Addition.batch
    rw [h.contains_marker]
    dsimp only
    split
    · rfl
    · cases f.ordered with
      | error e => rfl
      | ok chain =>
        show versionTypes f.marker first 0 chain >>= _ =
          Except.map r.gain ((versionTypes f.marker first 0 chain >>= _) >>= _)
        cases versionTypes f.marker first 0 chain with
        | error e => rfl
        | ok versions => exact (h.insertAll ⟨_, _, _, _⟩).symm

end Tables

/-! ## Which batches are admitted -/

theorem find?_eq_none_of_nodup {α β : Type} [DecidableEq β] {key : α → β} {l rest : List α} {x : α}
    (h : ((l ++ x :: rest).map key).Nodup) : l.find? (fun y => key y = key x) = none := by
  rw [List.map_append, List.nodup_append] at h
  refine List.find?_eq_none.mpr fun y hy hsame => ?_
  exact h.2.2 _ (List.mem_map_of_mem hy) _ List.mem_cons_self (of_decide_eq_true hsame)

theorem insertAll_of_distinct {types news : List Registration} (h : Distinct (types ++ news)) :
    insertAll types news = .ok (types ++ news) := by
  induction news generalizing types with
  | nil =>
    rw [List.append_nil]
    rfl
  | cons new news ih =>
    have hinsert : insert types new = .ok (types ++ [new]) := by
      unfold insert
      rw [find?_eq_none_of_nodup h.names, find?_eq_none_of_nodup h.ids]
    rw [List.append_cons] at h ⊢
    show (insert types new >>= fun types => insertAll types news) = _
    rw [hinsert]
    exact ih h

section
variable [Hasher] {t : Tables} {r : Registry} {a : Addition} {b : Batch}

theorem Addition.batch_family_inv {f : VersionFamily} {first : TypeId} (h : (Addition.family f first).batch = .ok b) :
    ∃ chain versions, f.ordered = .ok chain ∧ versionTypes f.marker first 0 chain = .ok versions ∧
      b = ⟨versions ++ (chainCommands chain).map commandType, conversionsOf chain,
        [(f.marker, chain.map (·.name))], chainCommands chain⟩ := by
  obtain ⟨chain, hchain, h⟩ := Except.bind_eq_ok.mp h
  obtain ⟨versions, hversions, h⟩ := Except.bind_eq_ok.mp h
  cases h
  exact ⟨chain, versions, hchain, hversions, rfl⟩

theorem Addition.batch_type_inv {name : String} {id : TypeId} {layout : Layout}
    (h : (Addition.type name id layout).batch = .ok b) : b = ⟨[⟨name, id, layout, none⟩], [], [], []⟩ := by
  unfold Addition.batch at h
  dsimp only at h
  split at h
  · cases h
  · cases h
    rfl

/-- A family brings its versions and its commands, and none of them stands past the last id. -/
theorem Addition.batch_family {f : VersionFamily} {first : TypeId} {chain : List VersionedType}
    (hchain : f.ordered = .ok chain) (h : (Addition.family f first).batch = .ok b) :
    first.toNat + chain.length ≤ 2 ^ 32 ∧
      b.types = chain.mapIdx (memberType f.marker first) ++ (chainCommands chain).map commandType := by
  obtain ⟨chain', versions, hchain', hversions, rfl⟩ := Addition.batch_family_inv h
  cases hchain.symm.trans hchain'
  obtain ⟨hids, rfl⟩ := versions_eq hversions
  refine ⟨?_, rfl⟩
  rcases Nat.eq_zero_or_pos chain.length with hnone | hsome
  · have := first.toNat_lt
    omega
  · have := (hids (chain.length - 1) (by omega)).1
    omega

/-- What a batch converts to is among what it registers. -/
theorem Addition.targets_batch (h : a.batch = .ok b) : (b.conversions.map (·.1)).Sublist (b.types.map (·.name)) := by
  cases a with
  | type name id layout =>
    rw [Addition.batch_type_inv h]
    exact List.nil_sublist _
  | family f first =>
    obtain ⟨chain, versions, -, hversions, rfl⟩ := Addition.batch_family_inv h
    rw [List.map_append, names_versions hversions]
    exact (names_conversionsOf chain).trans (List.sublist_append_left ..)

theorem Tables.checkMarker_eq_ok (h : a.batch = .ok b) : t.checkMarker a = .ok () ↔ t.families.Fresh b.families := by
  cases a with
  | type name id layout =>
    rw [Addition.batch_type_inv h]
    exact ⟨fun _ => ⟨.nil, fun e he => by cases he⟩, fun _ => rfl⟩
  | family f first =>
    obtain ⟨chain, versions, -, -, rfl⟩ := Addition.batch_family_inv h
    unfold Tables.checkMarker
    dsimp only
    split
    · rename_i hmarker
      refine ⟨(by cases ·), fun hfresh => ?_⟩
      rw [hfresh.absent _ (List.mem_singleton.mpr rfl)] at hmarker
      cases hmarker
    · rename_i hmarker
      refine ⟨fun _ => ⟨List.nodup_singleton _, fun e he => ?_⟩, fun _ => rfl⟩
      rw [List.mem_singleton.mp he]
      exact Option.not_isSome_iff_eq_none.mp hmarker

omit [Hasher] in
theorem Tables.Shows.check_eq_ok (h : t.Shows r) (hr : Distinct r.types) {news : List Registration} :
    t.check [] [] news = .ok () ↔ Distinct (r.types ++ news) := by
  rw [h.check]
  constructor
  · intro hok
    cases htypes : Registry.insertAll r.types news with
    | error e =>
      rw [htypes] at hok
      cases hok
    | ok types =>
      rw [← insertAll_eq_ok htypes]
      exact hr.insertAll htypes
  · intro hdistinct
    rw [insertAll_of_distinct hdistinct]
    rfl

omit [Hasher] in
theorem Tables.Shows.distinct_append (h : t.Shows r) (hr : Distinct r.types) {news : List Registration} :
    Distinct (r.types ++ news) ↔
      t.ids.Fresh (news.map fun n => (n.name, n.id)) ∧ t.types.Fresh (news.map fun n => (n.id, n)) := by
  rw [← Assoc.fresh_map h.ids hr.names, ← Assoc.fresh_map (fun x => (h.types x).trans Option.map_id'.symm) hr.ids]
  exact ⟨fun hd => ⟨hd.names, hd.ids⟩, fun hd => ⟨hd.1, hd.2⟩⟩

/-- What is asked for is admitted if it is well-formed and all its keys are new. -/
theorem Tables.Shows.vet_eq_ok (h : t.Shows r) (hr : r.Consistent) :
    t.vet a = .ok b ↔ a.batch = .ok b ∧ t.Fits b := by
  unfold Tables.vet
  simp only [Except.bind_eq_ok]
  constructor
  · rintro ⟨_, hmarker, b, hb, _, hcheck, hb'⟩
    cases hb'
    have hdistinct := (h.check_eq_ok hr.distinct).mp hcheck
    obtain ⟨hids, htypes⟩ := (h.distinct_append hr.distinct).mp hdistinct
    have htargets := Addition.targets_batch hb
    have hnames := hdistinct.names
    rw [List.map_append, List.nodup_append] at hnames
    obtain ⟨-, hnew, hdisjoint⟩ := hnames
    refine ⟨hb, hids, htypes, ⟨htargets.nodup hnew, fun c hc => ?_⟩, (checkMarker_eq_ok hb).mp hmarker⟩
    -- a version is a new name, and no name had a conversion before it was registered
    cases hold : t.conversions.get? c.1 with
    | none => rfl
    | some u =>
      rw [h.conversions] at hold
      have hregistered := hr.registered _ (Assoc.mem_of_get? hold)
      exact absurd rfl (hdisjoint _ hregistered _ (htargets.subset (List.mem_map.mpr ⟨c, hc, rfl⟩)))
  · rintro ⟨hb, hfits⟩
    exact ⟨(), (checkMarker_eq_ok hb).mpr hfits.families, b, hb, (),
      (h.check_eq_ok hr.distinct).mpr ((h.distinct_append hr.distinct).mpr ⟨hfits.ids, hfits.types⟩), rfl⟩

end

/-! ## One call, and any number of them -/

section
variable [Hasher] {t : Tables} {r : Registry} {a : Addition} {b : Batch}

omit [Hasher] in
theorem Tables.Shows.gain (h : t.Shows r) (hfits : t.Fits b) : (t.gain b).Shows (r.gain b) where
  ids name := by
    show (t.ids.setAll _).get? name = ((r.types ++ b.types).find? _).map _
    rw [hfits.ids.get?_setAll, h.ids, Assoc.get?_map, List.find?_append, Option.map_or]
    rfl
  types id := by
    show (t.types.setAll _).get? id = (r.types ++ b.types).find? _
    rw [hfits.types.get?_setAll, h.types, Assoc.get?_map, List.find?_append, Option.map_id']
    rfl
  conversions name := by
    show (t.conversions.setAll _).get? name = _
    rw [hfits.conversions.get?_setAll, h.conversions]
    exact (Assoc.get?_append ..).symm
  families marker := by
    show (t.families.setAll _).get? marker = _
    rw [hfits.families.get?_setAll, h.families]
    exact (Assoc.get?_append ..).symm
  commands := by
    show t.commands ++ b.commands = r.commands ++ b.commands
    rw [h.commands]

/-- A call on tables does what the addition does to the registry that they show. -/
theorem Tables.Shows.call (h : t.Shows r) (hr : r.Consistent) (a : Addition) :
    ((Call.ofAddition a).on t).1 = (a.outcome r).map (fun _ => ()) ∧ ((Call.ofAddition a).on t).2.Shows (r.add a) := by
  have houtcome := h.outcome a
  rw [Tables.call_eq]
  cases hvet : t.vet a with
  | error e =>
    rw [hvet] at houtcome
    rw [houtcome, add_of_error houtcome]
    exact ⟨rfl, h⟩
  | ok b =>
    rw [hvet] at houtcome
    rw [houtcome, add_of_ok houtcome]
    exact ⟨rfl, h.gain ((h.vet_eq_ok hr).mp hvet).2⟩

/-- The tables once the calls have been made, those that fail among them. -/
def Tables.after (as : List Addition) : Tables := as.foldl (fun t a => ((Call.ofAddition a).on t).2) .builtin

omit [Hasher] in
theorem Tables.shows_builtin : Tables.builtin.Shows Registry.builtin := by
  have hempty : Tables.Shows ⟨[], [], [], [], []⟩ ⟨[], [], [], []⟩ :=
    ⟨fun _ => rfl, fun _ => rfl, fun _ => rfl, fun _ => rfl, rfl⟩
  have hfits : Tables.Fits ⟨[], [], [], [], []⟩ ⟨Registry.builtin.types, [], [], []⟩ :=
    ⟨⟨by decide, fun _ _ => rfl⟩, ⟨by decide, fun _ _ => rfl⟩, ⟨.nil, fun _ _ => rfl⟩, ⟨.nil, fun _ _ => rfl⟩⟩
  rw [Tables.builtin, Tables.foldl_put]
  exact hempty.gain hfits

theorem Tables.shows_after (as : List Addition) : (Tables.after as).Shows (afterAdditions as) := by
  induction as using List.reverseRecOn with
  | nil => exact Tables.shows_builtin
  | append_singleton as a ih =>
    rw [afterAdditions_concat, Tables.after, List.foldl_append]
    exact (ih.call (consistent_afterAdditions as) a).2

/-- A call after any others, ones that failed among them. -/
theorem all_or_nothing (as : List Addition) (a : Addition) :
    let t := Tables.after as
    let outcome := ((Call.ofAddition a).on t).1
    let t' := ((Call.ofAddition a).on t).2
    -- one that fails, whatever it fails with, leaves the tables as they were
    (∀ e, outcome = .error e → t' = t) ∧
    -- it succeeds if what is asked for is well-formed, and all its keys are new and different
    (outcome = .ok () ↔ ∃ b, a.batch = .ok b ∧ t.Fits b) ∧
    -- and then that is added, and all that was there is still there
    (∀ b, outcome = .ok () → a.batch = .ok b → t.Fits b ∧ t.Gains b t') ∧
    -- for a family these are its versions, none of them past the last id, and its commands
    (∀ f first chain b, a = .family f first → f.ordered = .ok chain → a.batch = .ok b →
      first.toNat + chain.length ≤ 2 ^ 32 ∧
      b.types = chain.mapIdx (memberType f.marker first) ++ (chainCommands chain).map commandType) ∧
    -- the calls do what the additions do to a registry
    outcome = (a.outcome (afterAdditions as)).map (fun _ => ()) ∧ t'.Shows ((afterAdditions as).add a) := by
  intro t outcome t'
  have h : t.Shows (afterAdditions as) := Tables.shows_after as
  have hr := consistent_afterAdditions as
  have hcall : (outcome, t') = t.settle (t.vet a) := Tables.call_eq t a
  have hvetted (hok : outcome = .ok ()) : ∃ b, a.batch = .ok b ∧ t.Fits b ∧ t' = t.gain b := by
    cases hvet : t.vet a with
    | error e =>
      rw [hvet, hok] at hcall
      cases congrArg Prod.fst hcall
    | ok b =>
      rw [hvet] at hcall
      obtain ⟨hb, hfits⟩ := (h.vet_eq_ok hr).mp hvet
      exact ⟨b, hb, hfits, congrArg Prod.snd hcall⟩
  refine ⟨fun e he => ?_, ⟨fun hok => ?_, fun ⟨b, hb, hfits⟩ => ?_⟩, fun b hok hb => ?_,
    fun f first chain b ha hchain hb => ?_, h.call hr a⟩
  · cases hvet : t.vet a with
    | error e => exact congrArg Prod.snd (hcall.trans (by rw [hvet]))
    | ok b =>
      rw [hvet, he] at hcall
      cases congrArg Prod.fst hcall
  · obtain ⟨b, hb, hfits, -⟩ := hvetted hok
    exact ⟨b, hb, hfits⟩
  · rw [(h.vet_eq_ok hr).mpr ⟨hb, hfits⟩] at hcall
    exact congrArg Prod.fst hcall
  · obtain ⟨b', hb', hfits, ht'⟩ := hvetted hok
    cases hb.symm.trans hb'
    rw [ht']
    exact ⟨hfits, hfits.gains⟩
  · subst ha
    exact Addition.batch_family hchain hb

end

/-- A note stands under the id that the second coin would have from 100 on, and none does from 200 on. -/
theorem coins_all_or_nothing :
    let t := Tables.after [.type "app::Note" 101 (.struct [])]
    let refused := (Call.ofAddition (.family coins 100)).on t
    let added := (Call.ofAddition (.family coins 200)).on t
    refused.1 = .error (.duplicateId 101 "app::CoinV2" "app::Note") ∧ refused.2 = t ∧
    ∃ b, (Addition.family coins 200).batch = .ok b ∧ t.Fits b ∧ t.Gains b added.2 := by
  intro t refused added
  have hrefused : refused.1 = .error (.duplicateId 101 "app::CoinV2" "app::Note") := by decide +kernel
  have hadded : added.1 = .ok () := by decide +kernel
  obtain ⟨hfailed, -⟩ := all_or_nothing [.type "app::Note" 101 (.struct [])] (.family coins 100)
  obtain ⟨-, hok, hgains, -⟩ := all_or_nothing [.type "app::Note" 101 (.struct [])] (.family coins 200)
  obtain ⟨b, hb, hfits⟩ := hok.mp hadded
  exact ⟨hrefused, hfailed _ hrefused, b, hb, hgains b hadded hb⟩

end Registry

end VeiledLedger
