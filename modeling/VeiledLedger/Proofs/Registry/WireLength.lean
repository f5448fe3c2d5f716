/-
  VeiledLedger.Proofs.Registry.WireLength — reading a value whose length may not fit a word.

  Before it looks at the payload, the reader of serialized values adds the length of the type to
  the four bytes of the id. It does not look out for overflow there, and no type is refused for
  its length when it is registered. So what the reader does depends on the arithmetic it was
  built with: one that is checked stops at the first sum or product that does not fit a word,
  and one that wraps goes on with what is left in the word and cuts the payload out where that
  says, which can be before the payload begins.

  Neither happens if the length of the type that the bytes name fits a word, and then the two
  readers do what `deserializePrefix` does. If there is room for the lists of that type too, they
  come to a value or an error.

  Main statements: `Layout.declared?_checked`, `Layout.declared?_wrapping`, `scanPrefix_checked`,
  `scanPrefix_wrapping`, `reading_safe`, `vast_breaks_down`, `maybeCrowd_breaks_down`.
-/

import VeiledLedger.Proofs.Layout.Cursor
import VeiledLedger.Proofs.Registry.Consistency

namespace VeiledLedger

/-- What becomes of a sum or product that does not fit a 64-bit word. -/
inductive Arithmetic where
  | checked
  | wrapping

def Arithmetic.word? : Arithmetic → Nat → Option Nat
  | checked, n => VeiledLedger.word? n
  | wrapping, n => some (n % 2 ^ 64)

/-! ## The length as the reader counts it -/

namespace Layout

mutual

/-- The length in bytes, the fields of a structure summed up from the first. -/
def declared? (m : Arithmetic) : Layout → Option Nat
  | .bool => some 1
  | .unsigned w => some w.bytes
  | .signed w => some w.bytes
  | .exactBytes n => m.word? n
  | .bytes c => m.word? (countWidth c + c)
  | .string _ c => m.word? (countWidth c + c)
  | .list c e => do
    let slots ← m.word? (c * (← declared? m e))
    m.word? (countWidth c + slots)
  | .exactList n e => do m.word? (n * (← declared? m e))
  | .nullable e => do m.word? (1 + (← declared? m e))
  | .struct fs => addDeclared? m fs 0

def addDeclared? (m : Arithmetic) : List (String × Layout) → Nat → Option Nat
  | [], sum => some sum
  | (_, t) :: fs, sum => do addDeclared? m fs (← m.word? (sum + (← declared? m t)))

end

/-- Three numbers can be added up in words from either side. -/
theorem word?_add_assoc {a b c : Nat} :
    ((word? (a + b)).bind fun n => word? (n + c)) = (word? (b + c)).bind fun n => word? (a + n) := by
  rcases Nat.lt_or_ge (a + b + c) (2 ^ 64) with h | h
  · rw [word?, if_pos (by omega), word?, if_pos (by omega), Option.bind_some, Option.bind_some, Nat.add_assoc]
  · have hover : word? (a + b + c) = none := if_neg (Nat.not_lt.mpr h)
    have hleft : ((word? (a + b)).bind fun n => word? (n + c)) = none := by
      unfold word? at hover ⊢
      split
      · exact hover
      · rfl
    have hright : ((word? (b + c)).bind fun n => word? (a + n)) = none := by
      rw [Nat.add_assoc] at hover
      unfold word? at hover ⊢
      split
      · exact hover
      · rfl
    rw [hleft, hright]

mutual

/-- Checked, it is counted exactly if it is counted with care. -/
theorem declared?_checked : ∀ t : Layout, t.declared? .checked = t.size?
  | .bool | .unsigned _ | .signed _ | .exactBytes _ | .bytes _ | .string _ _ => rfl
  | .list c e => by
    simp only [declared?, size?, declared?_checked e, Arithmetic.word?, Nat.add_comm (countWidth c)]
  | .exactList n e => by
    simp only [declared?, size?, declared?_checked e, Arithmetic.word?]
  | .nullable e => by
    simp only [declared?, size?, declared?_checked e, Arithmetic.word?, Nat.add_comm 1]
  | .struct fs => by
    rw [declared?, addDeclared?_checked fs 0 (by decide), size?]
    cases h : sizeFields? fs with
    | none => rfl
    | some n =>
      show word? (0 + n) = some n
      rw [Nat.zero_add]
      exact word?_eq_some.mpr ⟨lt_of_sizeFields? h, rfl⟩

theorem addDeclared?_checked : ∀ (fs : List (String × Layout)) (sum : Nat), sum < 2 ^ 64 →
    addDeclared? .checked fs sum = (sizeFields? fs).bind fun n => word? (sum + n)
  | [], sum, h => (word?_eq_some.mpr ⟨h, rfl⟩).symm
  | (_, t) :: fs, sum, _ => by
    rw [addDeclared?, sizeFields?, declared?_checked t]
    cases t.size? with
    | none => rfl
    | some k =>
      show ((word? (sum + k)).bind fun n => addDeclared? .checked fs n) =
        ((sizeFields? fs).bind fun rest => word? (k + rest)).bind fun n => word? (sum + n)
      cases hrest : sizeFields? fs with
      | none =>
        refine Option.bind_eq_none_iff.mpr fun n hn => ?_
        obtain ⟨hlt, rfl⟩ := word?_eq_some.mp hn
        rw [addDeclared?_checked fs _ hlt, hrest]
        rfl
      | some rest =>
        rw [Option.bind_some, ← word?_add_assoc]
        refine Option.bind_congr fun n hn => ?_
        obtain ⟨hlt, rfl⟩ := word?_eq_some.mp hn
        rw [addDeclared?_checked fs _ hlt, hrest]
        rfl

end

mutual

/-- Wrapping, what is left of the length is counted. -/
theorem declared?_wrapping : ∀ t : Layout, t.declared? .wrapping = some (t.size % 2 ^ 64)
  | .bool => rfl
  | .unsigned w | .signed w => by cases w <;> rfl
  | .exactBytes _ | .bytes _ | .string _ _ => rfl
  | .list c e => by
    rw [declared?, declared?_wrapping e, size]
    show some ((countWidth c + c * (e.size % 2 ^ 64) % 2 ^ 64) % 2 ^ 64) = _
    rw [Nat.mul_mod_mod, Nat.add_mod_mod]
  | .exactList n e => by
    rw [declared?, declared?_wrapping e, size]
    show some (n * (e.size % 2 ^ 64) % 2 ^ 64) = _
    rw [Nat.mul_mod_mod]
  | .nullable e => by
    rw [declared?, declared?_wrapping e, size]
    show some ((1 + e.size % 2 ^ 64) % 2 ^ 64) = _
    rw [Nat.add_mod_mod]
  | .struct fs => by
    rw [declared?, addDeclared?_wrapping fs 0 (by decide), size, Nat.zero_add]

theorem addDeclared?_wrapping : ∀ (fs : List (String × Layout)) (sum : Nat), sum < 2 ^ 64 →
    addDeclared? .wrapping fs sum = some ((sum + sizeFields fs) % 2 ^ 64)
  | [], sum, h => by
    rw [addDeclared?, sizeFields, Nat.add_zero, Nat.mod_eq_of_lt h]
  | (_, t) :: fs, sum, _ => by
    rw [addDeclared?, declared?_wrapping t, sizeFields]
    show addDeclared? .wrapping fs ((sum + t.size % 2 ^ 64) % 2 ^ 64) = _
    rw [addDeclared?_wrapping fs _ (Nat.mod_lt _ (by decide)), Nat.add_mod_mod, Nat.mod_add_mod, Nat.add_assoc]

end

end Layout

/-- The length of a serialized value as the reader counts it, its id included. -/
def Registration.declaredWireSize? (m : Arithmetic) (t : Registration) : Option Nat := do
  m.word? (4 + (← t.layout.declared? m))

namespace Registration

theorem declaredWireSize?_checked (t : Registration) : t.declaredWireSize? .checked = t.wireSize? := by
  rw [declaredWireSize?, Layout.declared?_checked]
  rfl

theorem declaredWireSize?_wrapping (t : Registration) :
    t.declaredWireSize? .wrapping = some ((4 + t.layout.size) % 2 ^ 64) := by
  rw [declaredWireSize?, Layout.declared?_wrapping]
  show some ((4 + t.layout.size % 2 ^ 64) % 2 ^ 64) = _
  rw [Nat.add_mod_mod]

theorem wireSize?_eq_some {t : Registration} {n : Nat} (h : t.wireSize? = some n) :
    (∃ k, t.layout.size? = some k ∧ 4 + k = n) ∧ n = 4 + t.layout.size ∧ n < 2 ^ 64 := by
  obtain ⟨k, hk, h⟩ := Option.bind_eq_some_iff.mp h
  obtain ⟨hlt, rfl⟩ := word?_eq_some.mp h
  exact ⟨⟨k, hk, rfl⟩, by rw [Layout.size_eq_of_size? hk], hlt⟩

/-- A length that fits a word is the same to every reader. -/
theorem declaredWireSize?_of_fits {t : Registration} {n : Nat} (h : t.wireSize? = some n) (m : Arithmetic) :
    t.declaredWireSize? m = some n := by
  cases m with
  | checked => rw [declaredWireSize?_checked, h]
  | wrapping =>
    obtain ⟨-, hn, hlt⟩ := wireSize?_eq_some h
    rw [declaredWireSize?_wrapping, ← hn, Nat.mod_eq_of_lt hlt]

end Registration

/-! ## The reader as it stands -/

namespace Registry

/-- Why a reader gives no value. -/
inductive Halt where
  | refused (e : RegistryError)
  /-- A length does not fit a word. -/
  | overflow
  /-- Bytes are asked for that are not there. -/
  | outside

def Halt.ofStop : Cursor.Stop LayoutError → Halt
  | .failed e => .refused (.layout e)
  | .beyond => .outside

def slice (b : Bytes) (i k : Nat) : Except Halt Bytes :=
  if i ≤ k ∧ k ≤ b.length then .ok ((b.take k).drop i) else .error .outside

def scanPrefix (m : Arithmetic) (r : Registry) (b : Bytes) : Except Halt (TypedValue × Nat) := do
  if b.length < 4 then .error (.refused (.truncated 4 b.length))
  else
    let t ← (r.lookup (UInt32.ofNat (Bytes.toNat (b.take 4)))).mapError .refused
    match t.declaredWireSize? m with
    | none => .error .overflow
    | some n =>
      if b.length < n then .error (.refused (.truncated n b.length))
      else
        let payload ← slice b 4 n
        let v ← (t.layout.scanAll payload).1.mapError .ofStop
        return (⟨t.id, v⟩, n)

def scan (m : Arithmetic) (r : Registry) (b : Bytes) : Except Halt TypedValue := do
  let (v, n) ← r.scanPrefix m b
  if n = b.length then return v else .error (.refused (.layout (.misfit "" (.otherSize n b.length))))

def scanComponent (α : Type) [Component α] (m : Arithmetic) (r : Registry) (b : Bytes) : Except Halt α := do
  let (v, _) ← r.scanPrefix m b
  if v.typeId = Component.id α then (liftLayout (Component.ofValue α v.value)).mapError .refused
  else .error (.refused (.layout (.misfit "" (.otherType (Component.typeName α)))))

def Names (r : Registry) (b : Bytes) (t : Registration) : Prop :=
  4 ≤ b.length ∧ r.lookup (UInt32.ofNat (Bytes.toNat (b.take 4))) = .ok t

section
variable {r : Registry} {b : Bytes} {t : Registration} {m : Arithmetic}

/-- The payload is read without a look at its end, and nothing from behind it is taken. -/
theorem scanAll_eq (t : Layout) (b : Bytes) :
    (t.scanAll b).1.mapError Halt.ofStop = (liftLayout (t.decode b)).mapError .refused := by
  by_cases hn : t.size? = some b.length
  · obtain ⟨s, hscan, -⟩ := Layout.scanAll_of_length hn
    rw [hscan]
    cases t.decode b <;> rfl
  · obtain ⟨e, hdecode, hscan⟩ := Layout.scanAll_of_refused hn
    rw [hdecode, hscan]
    rfl

theorem scanPrefix_of_length_lt (h : b.length < 4) :
    r.scanPrefix m b = .error (.refused (.truncated 4 b.length)) := if_pos h

theorem scanPrefix_of_unknown (hlen : 4 ≤ b.length) {e : RegistryError}
    (h : r.lookup (UInt32.ofNat (Bytes.toNat (b.take 4))) = .error e) : r.scanPrefix m b = .error (.refused e) := by
  rw [scanPrefix, if_neg (Nat.not_lt.mpr hlen), h]
  rfl

theorem Names.scanPrefix_of_none (h : r.Names b t) (hn : t.declaredWireSize? m = none) :
    r.scanPrefix m b = .error .overflow := by
  rw [scanPrefix, if_neg (Nat.not_lt.mpr h.1), h.2]
  show (match t.declaredWireSize? m with | none => _ | some n => _) = _
  rw [hn]

theorem Names.scanPrefix_of_some (h : r.Names b t) {n : Nat} (hn : t.declaredWireSize? m = some n) :
    r.scanPrefix m b =
      if b.length < n then .error (.refused (.truncated n b.length))
      else if n < 4 then .error .outside
      else ((liftLayout (t.layout.decode ((b.take n).drop 4))).map fun v => (⟨t.id, v⟩, n)).mapError .refused := by
  rw [scanPrefix, if_neg (Nat.not_lt.mpr h.1), h.2]
  show (match t.declaredWireSize? m with | none => _ | some n => _) = _
  rw [hn]
  dsimp only
  by_cases hlen : b.length < n
  · rw [if_pos hlen, if_pos hlen]
  · rw [if_neg hlen, if_neg hlen, slice]
    by_cases hfour : n < 4
    · rw [if_pos hfour, if_neg (by omega)]
      rfl
    · rw [if_neg hfour, if_pos (by omega)]
      show ((t.layout.scanAll ((b.take n).drop 4)).1.mapError Halt.ofStop >>= _) = _
      rw [scanAll_eq]
      cases liftLayout (t.layout.decode ((b.take n).drop 4)) <;> rfl

theorem Names.deserializePrefix_of_none (h : r.Names b t) (hn : t.wireSize? = none) :
    r.deserializePrefix b = .error (.lengthOverflow t.name) := by
  rw [deserializePrefix, if_neg (Nat.not_lt.mpr h.1), h.2]
  show (match t.wireSize? with | none => _ | some n => _) = _
  rw [hn]

theorem Names.deserializePrefix_of_some (h : r.Names b t) {n : Nat} (hn : t.wireSize? = some n) :
    r.deserializePrefix b =
      if b.length < n then .error (.truncated n b.length)
      else (liftLayout (t.layout.decode ((b.take n).drop 4))).map fun v => (⟨t.id, v⟩, n) := by
  rw [deserializePrefix, if_neg (Nat.not_lt.mpr h.1), h.2]
  show (match t.wireSize? with | none => _ | some n => _) = _
  rw [hn]
  dsimp only
  split
  · rfl
  · cases liftLayout (t.layout.decode ((b.take n).drop 4)) <;> rfl

/-- Where the length fits a word, the reader does what it should. -/
theorem scanPrefix_eq (h : ∀ t, r.Names b t → t.wireSize?.isSome) (m : Arithmetic) :
    r.scanPrefix m b = (r.deserializePrefix b).mapError .refused := by
  rcases Nat.lt_or_ge b.length 4 with hlen | hlen
  · rw [scanPrefix_of_length_lt hlen, deserializePrefix, if_pos hlen]
    rfl
  · cases ht : r.lookup (UInt32.ofNat (Bytes.toNat (b.take 4))) with
    | error e =>
      rw [scanPrefix_of_unknown hlen ht, deserializePrefix, if_neg (Nat.not_lt.mpr hlen), ht]
      rfl
    | ok t =>
      have hnames : r.Names b t := ⟨hlen, ht⟩
      obtain ⟨n, hn⟩ := Option.isSome_iff_exists.mp (h t hnames)
      obtain ⟨⟨k, -, hk⟩, -⟩ := Registration.wireSize?_eq_some hn
      rw [hnames.scanPrefix_of_some (Registration.declaredWireSize?_of_fits hn m), hnames.deserializePrefix_of_some hn,
        if_neg (by omega : ¬n < 4)]
      split <;> rfl

theorem mapError_refused_ne {α : Type} (x : Except RegistryError α) :
    x.mapError Halt.refused ≠ .error .overflow ∧ x.mapError Halt.refused ≠ .error .outside := by
  cases x with
  | ok a => exact ⟨nofun, nofun⟩
  | error e => exact ⟨nofun, nofun⟩

/-- A checked reader stops exactly where the length does not fit a word. -/
theorem scanPrefix_checked :
    (r.scanPrefix .checked b = .error .overflow ↔ ∃ t, r.Names b t ∧ t.wireSize? = none) ∧
    r.scanPrefix .checked b ≠ .error .outside := by
  by_cases hnone : ∃ t, r.Names b t ∧ t.wireSize? = none
  · obtain ⟨t, hnames, hn⟩ := id hnone
    rw [hnames.scanPrefix_of_none (t.declaredWireSize?_checked.trans hn)]
    exact ⟨iff_of_true rfl hnone, nofun⟩
  · rw [scanPrefix_eq fun t ht => Option.isSome_iff_ne_none.mpr fun hn => hnone ⟨t, ht, hn⟩]
    obtain ⟨hoverflow, houtside⟩ := mapError_refused_ne (r.deserializePrefix b)
    exact ⟨iff_of_false hoverflow hnone, houtside⟩

/-- A wrapping reader never stops at a length. It asks for bytes that are not there exactly where
    less than the length of the id is left of the whole length. -/
theorem scanPrefix_wrapping :
    (r.scanPrefix .wrapping b = .error .outside ↔ ∃ t, r.Names b t ∧ (4 + t.layout.size) % 2 ^ 64 < 4) ∧
    r.scanPrefix .wrapping b ≠ .error .overflow := by
  by_cases hnames : ∃ t, r.Names b t
  · obtain ⟨t, hnames⟩ := hnames
    have honly : (∃ t, r.Names b t ∧ (4 + t.layout.size) % 2 ^ 64 < 4) ↔ (4 + t.layout.size) % 2 ^ 64 < 4 := by
      refine ⟨fun ⟨t', hnames', hlt⟩ => ?_, fun hlt => ⟨t, hnames, hlt⟩⟩
      cases hnames.2.symm.trans hnames'.2
      exact hlt
    rw [honly, hnames.scanPrefix_of_some t.declaredWireSize?_wrapping]
    have hlen := hnames.1
    split
    · exact ⟨iff_of_false nofun (by omega), nofun⟩
    · split
      · rename_i hlt
        exact ⟨iff_of_true rfl hlt, nofun⟩
      · rename_i hlt
        obtain ⟨hoverflow, houtside⟩ := mapError_refused_ne
          ((liftLayout (t.layout.decode ((b.take ((4 + t.layout.size) % 2 ^ 64)).drop 4))).map
            fun v => ((⟨t.id, v⟩ : TypedValue), (4 + t.layout.size) % 2 ^ 64))
        exact ⟨iff_of_false houtside hlt, hoverflow⟩
  · rw [scanPrefix_eq fun t ht => absurd ⟨t, ht⟩ hnames]
    obtain ⟨hoverflow, houtside⟩ := mapError_refused_ne (r.deserializePrefix b)
    exact ⟨iff_of_false houtside fun ⟨t, ht, _⟩ => hnames ⟨t, ht⟩, hoverflow⟩

/-- It is the place where `deserializePrefix` gives no answer about the bytes. -/
theorem deserializePrefix_eq_lengthOverflow {name : String} :
    r.deserializePrefix b = .error (.lengthOverflow name) ↔ ∃ t, r.Names b t ∧ t.wireSize? = none ∧ t.name = name := by
  constructor
  · intro h
    rcases Nat.lt_or_ge b.length 4 with hlen | hlen
    · rw [deserializePrefix, if_pos hlen] at h
      cases h
    · cases ht : r.lookup (UInt32.ofNat (Bytes.toNat (b.take 4))) with
      | error e =>
        rw [deserializePrefix, if_neg (Nat.not_lt.mpr hlen), ht] at h
        cases lookup_eq_error ht
        cases h
      | ok t =>
        have hnames : r.Names b t := ⟨hlen, ht⟩
        cases hn : t.wireSize? with
        | none =>
          rw [hnames.deserializePrefix_of_none hn] at h
          cases h
          exact ⟨t, hnames, hn, rfl⟩
        | some n =>
          rw [hnames.deserializePrefix_of_some hn] at h
          split at h
          · cases h
          · cases hv : t.layout.decode ((b.take n).drop 4) <;> rw [hv] at h <;> cases h
  · rintro ⟨t, hnames, hn, rfl⟩
    exact hnames.deserializePrefix_of_none hn

end

/-- The type that the bytes name can be read: its length fits a word, and there is room for its lists. -/
def Readable (r : Registry) (b : Bytes) : Prop := ∀ t, r.Names b t → t.wireSize?.isSome ∧ t.layout.Reservable

section
variable {r : Registry} {b : Bytes}

theorem lookup_not_breaksDown {id : TypeId} {e : RegistryError} (h : r.lookup id = .error e) : e.breaksDown = false := by
  rw [lookup_eq_error h]
  rfl

theorem Readable.deserializePrefix (h : r.Readable b) {e : RegistryError} (he : r.deserializePrefix b = .error e) :
    e.breaksDown = false := by
  rcases Nat.lt_or_ge b.length 4 with hlen | hlen
  · rw [Registry.deserializePrefix, if_pos hlen] at he
    cases he
    rfl
  · cases ht : r.lookup (UInt32.ofNat (Bytes.toNat (b.take 4))) with
    | error e' =>
      rw [Registry.deserializePrefix, if_neg (Nat.not_lt.mpr hlen), ht] at he
      cases he
      exact lookup_not_breaksDown ht
    | ok t =>
      have hnames : r.Names b t := ⟨hlen, ht⟩
      obtain ⟨hsize, hroom⟩ := h t hnames
      obtain ⟨n, hn⟩ := Option.isSome_iff_exists.mp hsize
      rw [hnames.deserializePrefix_of_some hn] at he
      split at he
      · cases he
        rfl
      · obtain ⟨cause, hcause, rfl⟩ := Except.mapError_eq_error.mp (Except.map_eq_error.mp he)
        cases cause with
        | misfit | oversized => rfl
        | noRoom => exact absurd hcause (Layout.decode_ne_noRoom hroom _)

theorem Readable.deserialize (h : r.Readable b) {e : RegistryError} (he : r.deserialize b = .error e) :
    e.breaksDown = false := by
  rcases Except.bind_eq_error.mp he with he | ⟨⟨v, n⟩, -, he⟩
  · exact h.deserializePrefix he
  · simp only at he
    split at he
    · cases he
    · cases he
      rfl

theorem Readable.deserializeComponent {α : Type} [Component α] (h : r.Readable b) {e : RegistryError}
    (he : r.deserializeComponent α b = .error e) : e.breaksDown = false := by
  rcases Except.bind_eq_error.mp he with he | ⟨⟨v, n⟩, -, he⟩
  · exact h.deserializePrefix he
  · simp only [Component.ofValue] at he
    split at he
    · split at he
      · cases he
      · cases he
        rfl
    · cases he
      rfl

end

/-- Reading any bytes, with whatever arithmetic: if the length of the type that they name fits a
    word, and there is room for its lists, the readers come to the value or the refusal they should
    come to and do not break down, the length is counted to the end, and the payload is cut out of
    the bytes behind the id. -/
theorem reading_safe (r : Registry) (b : Bytes) (m : Arithmetic) (h : r.Readable b) :
    r.scanPrefix m b = (r.deserializePrefix b).mapError .refused ∧
    r.scan m b = (r.deserialize b).mapError .refused ∧
    (∀ (α : Type) [Component α], r.scanComponent α m b = (r.deserializeComponent α b).mapError .refused) ∧
    (∀ e, r.deserializePrefix b = .error e → e.breaksDown = false) ∧
    (∀ e, r.deserialize b = .error e → e.breaksDown = false) ∧
    (∀ (α : Type) [Component α] e, r.deserializeComponent α b = .error e → e.breaksDown = false) ∧
    (∀ t, r.Names b t → ∃ n, t.declaredWireSize? m = some n ∧ n = 4 + t.layout.size ∧ n < 2 ^ 64) ∧
    ∀ v n, r.scanPrefix m b = .ok (v, n) → 4 ≤ n ∧ n ≤ b.length := by
  have hfront := scanPrefix_eq (fun t ht => (h t ht).1) m
  refine ⟨hfront, ?_, fun α _ => ?_, fun e => h.deserializePrefix, fun e => h.deserialize,
    fun α _ e => h.deserializeComponent, fun t ht => ?_, fun v n hv => ?_⟩
  · rw [scan, Registry.deserialize, hfront]
    cases r.deserializePrefix b with
    | error e => rfl
    | ok x =>
      show (if x.2 = b.length then _ else _) = Except.mapError _ (if x.2 = b.length then _ else _)
      split <;> rfl
  · rw [scanComponent, Registry.deserializeComponent, hfront]
    cases r.deserializePrefix b with
    | error e => rfl
    | ok x =>
      show (if x.1.typeId = Component.id α then _ else _) =
        Except.mapError _ (if x.1.typeId = Component.id α then _ else _)
      split <;> rfl
  · obtain ⟨n, hn⟩ := Option.isSome_iff_exists.mp (h t ht).1
    obtain ⟨-, heq, hlt⟩ := Registration.wireSize?_eq_some hn
    exact ⟨n, Registration.declaredWireSize?_of_fits hn m, heq, hlt⟩
  · rw [hfront] at hv
    exact bounds_of_deserializePrefix (Except.mapError_eq_ok.mp hv)

/-- Twice as many bytes as can be counted, and what is left of that with the id is two bytes. -/
def vast : Layout := .exactList 2 (.exactBytes (2 ^ 64 - 1))

def vastAdditions : List Addition := [.type "app::Vast" 100 vast, .type "app::Amount" 200 (.unsigned .eight)]

def amountBytes : Bytes := [0, 0, 0, 200, 0, 0, 0, 0, 0, 0, 0, 7]

def vastBytes : Bytes := [0, 0, 0, 100, 0, 0, 0, 0, 0, 0, 0, 7]

/-- The number is read whatever the arithmetic, although a type beside it is too long to be counted. -/
theorem amount_read : (afterAdditions vastAdditions).Readable amountBytes ∧
    ∀ m, (afterAdditions vastAdditions).scan m amountBytes = .ok ⟨200, .unsigned .eight 7⟩ := by
  have hlookup : (afterAdditions vastAdditions).lookup 200 = .ok ⟨"app::Amount", 200, .unsigned .eight, none⟩ := rfl
  have hreadable : (afterAdditions vastAdditions).Readable amountBytes := by
    rintro t ⟨-, ht⟩
    cases hlookup.symm.trans ht
    exact ⟨rfl, trivial⟩
  have hread : (afterAdditions vastAdditions).deserialize amountBytes = .ok ⟨200, .unsigned .eight 7⟩ := rfl
  refine ⟨hreadable, fun m => ?_⟩
  obtain ⟨-, hscan, -⟩ := reading_safe _ _ m hreadable
  rw [hscan, hread]
  rfl

/-- The long type is accepted, and bytes that name it break every reader down, although the same
    payload is refused where it is decoded by itself. -/
theorem vast_breaks_down :
    (Addition.type "app::Vast" 100 vast).Accepted [] ∧ 2 ^ 64 ≤ 4 + vast.size ∧
    (afterAdditions vastAdditions).scanPrefix .checked vastBytes = .error .overflow ∧
    (afterAdditions vastAdditions).scan .checked vastBytes = .error .overflow ∧
    (afterAdditions vastAdditions).scanComponent Digest .checked vastBytes = .error .overflow ∧
    (afterAdditions vastAdditions).scanPrefix .wrapping vastBytes = .error .outside ∧
    (afterAdditions vastAdditions).scan .wrapping vastBytes = .error .outside ∧
    (afterAdditions vastAdditions).scanComponent Digest .wrapping vastBytes = .error .outside ∧
    vast.decode (vastBytes.drop 4) = .error (.oversized "list[2] of bytes[18446744073709551615]") :=
  ⟨by decide, by decide, rfl, rfl, rfl, rfl, rfl, rfl, rfl⟩

/-- A crowd that may be missing: one byte in all, and no room to read it. -/
def crowdAdditions : List Addition := [.type "app::MaybeCrowd" 100 (.nullable Layout.crowd)]

/-- It is accepted, its length is counted, and yet every reader breaks down. -/
theorem maybeCrowd_breaks_down :
    (Addition.type "app::MaybeCrowd" 100 (.nullable Layout.crowd)).Accepted [] ∧
    (afterAdditions crowdAdditions).deserializePrefix [0, 0, 0, 100, 0] = .error (.layout .noRoom) ∧
    (∀ m, (afterAdditions crowdAdditions).scanPrefix m [0, 0, 0, 100, 0] = .error (.refused (.layout .noRoom))) :=
  ⟨by decide, rfl, fun m => by cases m <;> rfl⟩

end Registry

end VeiledLedger
