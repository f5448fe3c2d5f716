/-
  VeiledLedger.Proofs.Registry — registries as they are built, and what is written under them.

  A registry is built from the builtin components by adding types and families, and what is
  added stands behind what was there. So each builtin component is found under its own id in
  every registry that was built.

  A serialized value starts with the id of its type, and the layout of that type says how long
  the rest is. So it is read back off the front of every byte string that starts with it, and
  one byte string starts with one serialized value at most.

  Main statements: `Built.findId?`, `deserializePrefix_of_front`, `Writes.deserializePrefix`,
  `Writes.unique`.
-/

import VeiledLedger.Proofs.Layout.RoundTrip
import VeiledLedger.Registry.Wire

namespace VeiledLedger

def TypedValue.ofComponent {α : Type} [Component α] (c : α) : TypedValue := ⟨Component.id α, Component.toValue c⟩

namespace Registry

/-! ## How a registry comes about -/

inductive Built [Hasher] : Registry → Prop
  | builtin : Built .builtin
  | register {r r' : Registry} {name : String} {id : TypeId} {layout : Layout} :
      Built r → r.register name id layout = .ok r' → Built r'
  | registerFamily {r r' : Registry} {family : VersionFamily} {first : TypeId} :
      Built r → r.registerFamily family first = .ok r' → Built r'

theorem insert_eq_ok {types types' : List Registration} {new : Registration} (h : insert types new = .ok types') :
    types' = types ++ [new] := by
  unfold insert at h
  split at h
  · cases h
  · split at h
    · cases h
    · cases h
      rfl

theorem insertAll_eq_ok {types types' news : List Registration} (h : insertAll types news = .ok types') :
    types' = types ++ news := by
  induction news generalizing types with
  | nil =>
    cases h
    rw [List.append_nil]
  | cons new news ih =>
    obtain ⟨next, hnext, hrest⟩ := Except.bind_eq_ok.mp h
    rw [ih hrest, insert_eq_ok hnext, List.append_assoc, List.singleton_append]

section
variable [Hasher] {r : Registry}

theorem Built.types (h : r.Built) : ∃ added, r.types = Registry.builtin.types ++ added := by
  induction h with
  | builtin => exact ⟨[], (List.append_nil _).symm⟩
  | register _ hreg ih =>
    obtain ⟨added, hadded⟩ := ih
    unfold Registry.register at hreg
    split at hreg
    · cases hreg
    · obtain ⟨types, htypes, hr⟩ := Except.bind_eq_ok.mp hreg
      cases hr
      exact ⟨_, by rw [insertAll_eq_ok htypes, hadded, List.append_assoc]⟩
  | registerFamily _ hreg ih =>
    obtain ⟨added, hadded⟩ := ih
    unfold Registry.registerFamily at hreg
    split at hreg
    · cases hreg
    · obtain ⟨chain, -, hreg⟩ := Except.bind_eq_ok.mp hreg
      obtain ⟨versions, -, hreg⟩ := Except.bind_eq_ok.mp hreg
      obtain ⟨types, htypes, hr⟩ := Except.bind_eq_ok.mp hreg
      cases hr
      exact ⟨_, by rw [insertAll_eq_ok htypes, hadded, List.append_assoc]⟩

/-- Whatever has been added, a builtin type is found under its own id. -/
theorem Built.findId? (h : r.Built) {t : Registration} (ht : Registry.builtin.findId? t.id = some t) :
    r.findId? t.id = some t := by
  obtain ⟨added, hadded⟩ := h.types
  unfold Registry.findId? at ht ⊢
  rw [hadded, List.find?_append, ht]
  rfl

end

/-! ## What is written for a value -/

def Writes (r : Registry) (v : TypedValue) (b : Bytes) : Prop :=
  ∃ t x, r.findId? v.typeId = some t ∧ t.layout.encodeAt "" v.value = .ok x ∧ b = Bytes.ofNat 4 v.typeId.toNat ++ x

theorem id_of_findId? {r : Registry} {id : TypeId} {t : Registration} (h : r.findId? id = some t) : t.id = id := by
  simpa using List.find?_some h

theorem lookup_eq_ok {r : Registry} {id : TypeId} {t : Registration} :
    r.lookup id = .ok t ↔ r.findId? id = some t := by
  unfold lookup
  cases r.findId? id <;> simp

theorem lookup_eq_error {r : Registry} {id : TypeId} {e : RegistryError} (h : r.lookup id = .error e) :
    e = .unknownId id := by
  unfold lookup at h
  split at h <;> cases h
  rfl

theorem lookupName_eq_error {r : Registry} {name : String} {e : RegistryError} (h : r.lookupName name = .error e) :
    e = .unknownType name ∨ ∃ id, e = .unknownId id := by
  rcases Except.bind_eq_error.mp h with h | ⟨id, -, h⟩
  · unfold identify at h
    split at h <;> cases h
    exact .inl rfl
  · exact .inr ⟨id, lookup_eq_error h⟩

theorem serializeAt_eq_ok {r : Registry} {path : String} {v : TypedValue} {b : Bytes} :
    r.serializeAt path v = .ok b ↔ r.Writes v b := by
  unfold serializeAt liftLayout Writes
  simp only [Except.bind_eq_ok, Except.mapError_eq_ok, lookup_eq_ok, Layout.encodeAt_eq_ok]
  constructor
  · rintro ⟨t, ht, x, hx, hb⟩
    cases hb
    exact ⟨t, x, ht, hx, by rw [id_of_findId? ht]⟩
  · rintro ⟨t, x, ht, hx, rfl⟩
    exact ⟨t, ht, x, hx, by rw [id_of_findId? ht]; rfl⟩

variable {r : Registry} {v w : TypedValue} {b b' : Bytes}

theorem serialize_eq_ok : r.serialize v = .ok b ↔ r.Writes v b := serializeAt_eq_ok

theorem Writes.type (h : r.Writes v b) : ∃ t ∈ r.types, r.findId? v.typeId = some t := by
  obtain ⟨t, -, ht, -, -⟩ := h
  exact ⟨t, List.mem_of_find?_eq_some ht, ht⟩

/-- Whichever way the type has been found, what is written behind the id is the value in its layout. -/
theorem Writes.payload (h : r.Writes v b) {t : Registration} (ht : r.findId? v.typeId = some t) :
    ∃ x, t.layout.encode v.value = .ok x ∧ b = Bytes.ofNat 4 v.typeId.toNat ++ x := by
  obtain ⟨t', x, ht', hx, hb⟩ := h
  cases ht.symm.trans ht'
  exact ⟨x, (Layout.encodeAt_eq_ok.mp hx).2, hb⟩

theorem toNat_typeId (id : TypeId) : Bytes.toNat (Bytes.ofNat 4 id.toNat) = id.toNat := by
  rw [Bytes.toNat_ofNat]
  exact Nat.mod_eq_of_lt id.toNat_lt

/-- Filler starts with the id 0, so it is no value unless a type has that id. -/
theorem Writes.isZero (h : r.Writes v b) (hid : v.typeId ≠ 0) (z : Bytes) : Bytes.isZero (b ++ z) = false := by
  obtain ⟨t, x, -, -, rfl⟩ := h
  refine Bool.eq_false_iff.mpr fun hzero => hid ?_
  have hfront : Bytes.isZero (Bytes.ofNat 4 v.typeId.toNat) = true := by
    simp only [Bytes.isZero, List.all_append, Bool.and_eq_true] at hzero ⊢
    exact hzero.1.1
  have hnat := Bytes.toNat_of_isZero hfront
  rw [toNat_typeId] at hnat
  exact UInt32.toNat_inj.mp hnat

/-- No byte string starts with two serialized values. -/
theorem Writes.unique (hcap : ∀ t ∈ r.types, ∀ c ∈ t.layout.capacities, c < 2 ^ 32) (hv : r.Writes v b)
    (hw : r.Writes w b') {z z' : Bytes} (he : b ++ z = b' ++ z') : v = w := by
  obtain ⟨t, -, ht, -, -⟩ := id hv
  obtain ⟨t', -, ht', -, -⟩ := id hw
  obtain ⟨x, hx, rfl⟩ := hv.payload ht
  obtain ⟨x', hx', rfl⟩ := hw.payload ht'
  rw [List.append_assoc, List.append_assoc] at he
  obtain ⟨hid, hrest⟩ := List.append_inj he (by rw [Bytes.length_ofNat, Bytes.length_ofNat])
  have htype : v.typeId = w.typeId := by
    have := congrArg Bytes.toNat hid
    rw [toNat_typeId, toNat_typeId] at this
    exact UInt32.toNat_inj.mp this
  -- one id is one type, and one layout fixes one length
  rw [← htype, ht] at ht'
  cases ht'
  obtain ⟨hxx, -⟩ := List.append_inj hrest ((Layout.length_encode hx).trans (Layout.length_encode hx').symm)
  subst hxx
  have hvalue := Layout.encode_inj (hcap t (List.mem_of_find?_eq_some ht)) hx hx'
  cases v
  cases w
  simp_all

/-- What is written for a value has the length that its type declares. -/
theorem Writes.wireSize? (h : r.Writes v b) {t : Registration} (ht : r.findId? v.typeId = some t)
    (hsize : t.wireSize?.isSome) : t.wireSize? = some b.length := by
  obtain ⟨x, hx, rfl⟩ := h.payload ht
  obtain ⟨n, hn⟩ := Option.isSome_iff_exists.mp hsize
  obtain ⟨k, hk, hwire⟩ := Option.bind_eq_some_iff.mp hn
  rw [hn, List.length_append, Bytes.length_ofNat, Layout.length_encode hx, Layout.size_eq_of_size? hk,
    (word?_eq_some.mp hwire).2]

/-- A byte string that starts with the id of a type is read by the layout of that type. -/
theorem deserializePrefix_of_front {id : TypeId} {t : Registration} {n : Nat} (ht : r.findId? id = some t)
    (hn : t.wireSize? = some n) (x : Bytes) :
    r.deserializePrefix (Bytes.ofNat 4 id.toNat ++ x) =
      if 4 + x.length < n then .error (.truncated n (4 + x.length))
      else do return (⟨id, ← liftLayout (t.layout.decode (x.take (n - 4)))⟩, n) := by
  have hlen : (Bytes.ofNat 4 id.toNat ++ x).length = 4 + x.length := by
    rw [List.length_append, Bytes.length_ofNat]
  have hid : UInt32.ofNat (Bytes.toNat ((Bytes.ofNat 4 id.toNat ++ x).take 4)) = id := by
    rw [List.take_left' (Bytes.length_ofNat ..), toNat_typeId, UInt32.ofNat_toNat]
  have hpayload : ((Bytes.ofNat 4 id.toNat ++ x).take n).drop 4 = x.take (n - 4) := by
    rw [List.drop_take, List.drop_left' (Bytes.length_ofNat ..)]
  unfold Registry.deserializePrefix
  rw [if_neg (by omega), hid, lookup_eq_ok.mpr ht, hlen]
  simp only [bind, Except.bind, hn, hpayload, id_of_findId? ht]

/-- What is read off the front is no more than all the bytes, and holds an id at least. -/
theorem bounds_of_deserializePrefix {n : Nat} (h : r.deserializePrefix b = .ok (v, n)) : 4 ≤ n ∧ n ≤ b.length := by
  unfold Registry.deserializePrefix at h
  split at h
  · cases h
  · obtain ⟨t, -, h⟩ := Except.bind_eq_ok.mp h
    split at h
    · cases h
    · rename_i hn
      obtain ⟨k, -, hwire⟩ := Option.bind_eq_some_iff.mp hn
      obtain ⟨-, hk⟩ := word?_eq_some.mp hwire
      split at h
      · cases h
      · rename_i hlen
        obtain ⟨_, -, h⟩ := Except.bind_eq_ok.mp h
        cases h
        exact ⟨hk ▸ Nat.le_add_right 4 k, Nat.not_lt.mp hlen⟩

/-- A serialized value is read back, whatever follows it. -/
theorem Writes.deserializePrefix (h : r.Writes v b) {t : Registration} (ht : r.findId? v.typeId = some t)
    (hsize : t.wireSize?.isSome) (hcap : ∀ c ∈ t.layout.capacities, c < 2 ^ 32) (rest : Bytes) :
    r.deserializePrefix (b ++ rest) = .ok (v, b.length) := by
  have hn := h.wireSize? ht hsize
  obtain ⟨x, hx, rfl⟩ := h.payload ht
  have hlen : (Bytes.ofNat 4 v.typeId.toNat ++ x).length = 4 + x.length := by
    rw [List.length_append, Bytes.length_ofNat]
  obtain ⟨k, hk, -⟩ := Option.bind_eq_some_iff.mp hn
  have hdecode : t.layout.decode x = .ok v.value := by
    refine Layout.decode_of_spells (Layout.reservable_of_encode hx) ?_ (Layout.spells_of_encode hcap hx)
    rw [hk, Layout.length_encode hx, Layout.size_eq_of_size? hk]
  rw [List.append_assoc, deserializePrefix_of_front ht hn, hlen, if_neg (by rw [List.length_append]; omega),
    Nat.add_sub_cancel_left, List.take_left, hdecode]
  rfl

/-- So is a builtin component, whatever has been added to the registry. -/
theorem Writes.deserializeComponent [Hasher] {α : Type} [Component α] {c : α} (hr : r.Built)
    (hα : Registry.builtin.findId? (Component.id α) = some (builtinType α)) (hsize : (builtinType α).wireSize?.isSome)
    (hcap : ∀ n ∈ (Component.layout α).capacities, n < 2 ^ 32) (h : r.Writes (.ofComponent c) b) (rest : Bytes) :
    r.deserializeComponent α (b ++ rest) = .ok c := by
  have hfront := h.deserializePrefix (hr.findId? (t := builtinType α) hα) hsize hcap rest
  unfold Registry.deserializeComponent
  rw [hfront]
  show (if Component.id α = Component.id α then liftLayout (Component.ofValue α (Component.toValue c)) else _) = _
  rw [if_pos rfl, Component.ofValue, Component.ofValue?_toValue]
  rfl

end Registry

end VeiledLedger
