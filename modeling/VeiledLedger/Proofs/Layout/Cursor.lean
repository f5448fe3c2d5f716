/-
  VeiledLedger.Proofs.Layout.Cursor — reading at a position, without a look at the end.

  A cursor reads a byte string from a position on. It takes bytes without a test whether there
  are that many left, and one that takes some from behind the end breaks down, which is no
  misfit. Only the length of the whole is tested, before the first byte is taken. The cursor
  keeps a log of what it takes and of the values that it has read, and where.

  The test at the front is enough: a cursor with as many bytes before it as its layout is
  long does what the reader does that tests each step. It never takes what is not there, and each
  value that it has read took the length of its layout, whatever stands in the bytes. It says
  nothing of the room for elements, which is asked for apart from the bytes: where there is not
  enough of it the reader breaks down, and only there.

  Main statements: `Cursor.Tracks.bind`, `tracks_scan`, `answers_read`, `decode_in_bounds`,
  `crowd_breaks_down`.
-/

import VeiledLedger.Proofs.Layout.Rewritten

namespace VeiledLedger

namespace Cursor

/-- Why there is no value. -/
inductive Stop (ε : Type) where
  | failed (e : ε)
  /-- Bytes from behind the end were asked for. -/
  | beyond

inductive Event where
  /-- `n` bytes are taken from `pos` on. -/
  | take (pos n : Nat)
  /-- A value of the layout has been read, from `start` to `stop`. -/
  | value (layout : Layout) (start stop : Nat)

structure State where
  pos : Nat
  log : List Event

def Stop.map {ε ε' : Type} (f : ε → ε') : Stop ε → Stop ε'
  | failed e => failed (f e)
  | beyond => beyond

end Cursor

/-- Reads in a byte string from a position on, and keeps the log also when it stops. -/
abbrev Cursor := ReaderT Bytes (ExceptT (Cursor.Stop Obstacle) (StateM Cursor.State))

namespace Cursor

def stop {α : Type} (e : Stop Obstacle) : Cursor α := fun _ s => (.error e, s)

def fail {α : Type} (m : Misfit) : Cursor α := stop (.failed m.here)

def under {α : Type} (step : PathStep) (c : Cursor α) : Cursor α := fun b s =>
  ((c b s).1.mapError (Stop.map (Obstacle.under step)), (c b s).2)

def take (n : Nat) : Cursor Bytes := fun b s =>
  (if s.pos + n ≤ b.length then .ok ((b.drop s.pos).take n) else .error .beyond,
    ⟨s.pos + n, s.log ++ [.take s.pos n]⟩)

def reserve (n : Nat) : Cursor Unit := fun _ s => ((VeiledLedger.reserve n Value.width).mapError .failed, s)

def front (n : Nat) (x : Bytes) : Cursor Bytes := if n ≤ x.length then pure (x.take n) else stop .beyond

def call (t : Layout) (c : Cursor Value) : Cursor Value := fun b s =>
  match c b s with
  | (.ok v, s') => (.ok v, { s' with log := s'.log ++ [.value t s.pos s'.pos] })
  | (.error e, s') => (.error e, s')

def number (width : Nat) : Cursor Nat := do return Bytes.toNat (← take width)

def flag : Cursor Nat := number 1

def count (capacity : Nat) : Cursor Nat := do
  let n ← number (countWidth capacity)
  if n ≤ capacity then return n else fail (.badCount n capacity)

def room (capacity : Nat) : Cursor Bytes := do
  let n ← count capacity
  front n (← take capacity)

def text (charset : Charset) (b : Bytes) : Cursor String :=
  match charset with
  | .latin1 => return String.ofList (b.map (fun x => Char.ofNat x.toNat))
  | .utf8 =>
    match Text.Utf8.decode? b with
    | some s => return s
    | none => fail .badUtf8

def slots (read : Cursor Value) (i : Nat) : Nat → Cursor (List Value)
  | 0 => return []
  | n + 1 => do
    let v ← under (.slot i) read
    return v :: (← slots read (i + 1) n)

end Cursor

namespace Layout

open Cursor (Stop State)

mutual

def scan : Layout → Cursor Value
  | .bool => do
    let x ← Cursor.flag
    if x = 0 then return .bool false
    else if x = 1 then return .bool true
    else Cursor.fail (.badFlag .boolean (UInt8.ofNat x))
  | .unsigned w => do return .unsigned w (BitVec.ofNat _ (← Cursor.number w.bytes))
  | .signed w => do return .signed w (BitVec.ofNat _ (← Cursor.number w.bytes))
  | .exactBytes n => do return .bytes (← Cursor.take n)
  | .bytes c => do return .bytes (← Cursor.room c)
  | .string charset c => do return .string (← Cursor.text charset (← Cursor.room c))
  | .list c e => do
    let n ← Cursor.count c
    return .list ((← Cursor.slots (.call e (scan e)) 0 c).take n)
  | .exactList n e => do
    Cursor.reserve n
    return .list (← Cursor.slots (.call e (scan e)) 0 n)
  | .nullable e => do
    let x ← Cursor.flag
    let v ← Cursor.call e (scan e)
    if x = 0 then return .nullable none
    else if x = 1 then return .nullable (some v)
    else Cursor.fail (.badFlag .presence (UInt8.ofNat x))
  | .struct fs => do return .struct (← scanFields fs)

def scanFields : List (String × Layout) → Cursor (List Value)
  | [] => return []
  | (field, t) :: fs => do
    let v ← Cursor.under (.field field) (.call t (scan t))
    return v :: (← scanFields fs)

end

def scanAll (t : Layout) (b : Bytes) : Except (Stop LayoutError) Value × State :=
  match t.size? with
  | none => (.error (.failed (.oversized t.name)), ⟨0, []⟩)
  | some n =>
    if b.length = n then
      let (r, s) := Cursor.call t (scan t) b ⟨0, []⟩
      (r.mapError (Stop.map (LayoutError.ofObstacle "")), s)
    else (.error (.failed (.misfit "" (.otherSize n b.length))), ⟨0, []⟩)

end Layout

namespace Cursor

/-! ## A cursor with enough bytes before it -/

def Event.Sound (len : Nat) : Event → Prop
  | .take pos n => pos + n ≤ len
  | .value t start stop => ∃ n, t.size? = some n ∧ stop = start + n

theorem bind_of_ok {α β : Type} {c : Cursor α} {f : α → Cursor β} {b : Bytes} {s s' : State} {a : α}
    (h : c b s = (.ok a, s')) : (c >>= f) b s = f a b s' := by
  have hrun : (c >>= f) b s = ExceptT.bindCont (f · b) (c b s).1 (c b s).2 := rfl
  rw [hrun, h]
  rfl

theorem bind_of_error {α β : Type} {c : Cursor α} {f : α → Cursor β} {b : Bytes} {s s' : State}
    {e : Stop Obstacle} (h : c b s = (.error e, s')) : (c >>= f) b s = (.error e, s') := by
  have hrun : (c >>= f) b s = ExceptT.bindCont (f · b) (c b s).1 (c b s).2 := rfl
  rw [hrun, h]
  rfl

/-- With `n` bytes before it the cursor does what the reader does with the bytes that are left: it
    takes just these `n`, or meets the same misfit. Nothing in its log goes beyond the end. -/
def Tracks {α : Type} (c : Cursor α) (r : Reader α) (n : Nat) : Prop :=
  ∀ (b : Bytes) (s : State), s.pos + n ≤ b.length → (∀ e ∈ s.log, e.Sound b.length) →
    ∃ s', (∀ e ∈ s'.log, e.Sound b.length) ∧
      ((∃ a, r (b.drop s.pos) = .ok (a, b.drop s'.pos) ∧ c b s = (.ok a, s') ∧ s'.pos = s.pos + n) ∨
        ∃ m, r (b.drop s.pos) = .error m ∧ c b s = (.error (.failed m), s'))

def Returns {α : Type} (r : Reader α) (a : α) : Prop := ∃ x rest, r x = .ok (a, rest)

namespace Tracks

variable {α β : Type} {c : Cursor α} {r : Reader α} {n k : Nat}

theorem pure (a : α) : Tracks (Pure.pure a) (Pure.pure a) 0 :=
  fun _ s _ hs => ⟨s, hs, .inl ⟨a, rfl, rfl, rfl⟩⟩

theorem fail (m : Misfit) (n : Nat) : Tracks (α := α) (Cursor.fail m) (Reader.fail m) n :=
  fun _ s _ hs => ⟨s, hs, .inr ⟨m.here, rfl, rfl⟩⟩

/-- What follows has to be tracked only for what the first reader can give. -/
theorem bind {f : α → Cursor β} {g : α → Reader β} (hc : Tracks c r n)
    (hf : ∀ a, Returns r a → Tracks (f a) (g a) k) : Tracks (c >>= f) (r >>= g) (n + k) := by
  intro b s hroom hs
  have hread : (r >>= g) (b.drop s.pos) = (r (b.drop s.pos) >>= fun p => g p.1 p.2) := rfl
  obtain ⟨s', hs', ⟨a, hr, hc, hpos⟩ | ⟨m, hr, hc⟩⟩ := hc b s (by omega) hs
  · have hnext : (r >>= g) (b.drop s.pos) = g a (b.drop s'.pos) := by
      rw [hread, hr]
      rfl
    obtain ⟨s'', hs'', h⟩ := hf a ⟨_, _, hr⟩ b s' (by omega) hs'
    refine ⟨s'', hs'', ?_⟩
    rwa [hnext, bind_of_ok hc, ← Nat.add_assoc, ← hpos]
  · refine ⟨s', hs', .inr ⟨m, ?_, bind_of_error hc⟩⟩
    rw [hread, hr]
    rfl

theorem map (hc : Tracks c r n) (f : α → β) : Tracks (do return f (← c)) (do return f (← r)) n :=
  hc.bind fun a _ => pure (f a)

theorem under (hc : Tracks c r n) (step : PathStep) : Tracks (Cursor.under step c) (Reader.under step r) n := by
  intro b s hroom hs
  obtain ⟨s', hs', ⟨a, hr, hc, hpos⟩ | ⟨m, hr, hc⟩⟩ := hc b s hroom hs
  · refine ⟨s', hs', .inl ⟨a, ?_, ?_, hpos⟩⟩
    · rw [Reader.under, hr]
      rfl
    · rw [Cursor.under, hc]
      rfl
  · refine ⟨s', hs', .inr ⟨m.under step, ?_, ?_⟩⟩
    · rw [Reader.under, hr]
      rfl
    · rw [Cursor.under, hc]
      rfl

theorem call {c : Cursor Value} {r : Reader Value} {t : Layout} (hc : Tracks c r n) (hn : t.size? = some n) :
    Tracks (Cursor.call t c) r n := by
  intro b s hroom hs
  obtain ⟨s', hs', ⟨v, hr, hc, hpos⟩ | ⟨m, hr, hc⟩⟩ := hc b s hroom hs
  · refine ⟨{ s' with log := s'.log ++ [.value t s.pos s'.pos] }, ?_, .inl ⟨v, hr, ?_, hpos⟩⟩
    · exact List.forall_mem_append.mpr ⟨hs', List.forall_mem_singleton.mpr ⟨n, hn, hpos⟩⟩
    · rw [Cursor.call, hc]
  · exact ⟨s', hs', .inr ⟨m, hr, by rw [Cursor.call, hc]⟩⟩

/-! ## Numbers, counts and rooms -/

theorem take (n : Nat) : Tracks (Cursor.take n) (Reader.take n) n := by
  intro b s hroom hs
  have hlen : ((b.drop s.pos).take n).length = n := by
    rw [List.length_take, List.length_drop]
    omega
  refine ⟨⟨s.pos + n, s.log ++ [.take s.pos n]⟩, ?_, .inl ⟨(b.drop s.pos).take n, ?_, ?_, rfl⟩⟩
  · exact List.forall_mem_append.mpr ⟨hs, List.forall_mem_singleton.mpr hroom⟩
  · simp only [Reader.take, hlen, if_true, List.drop_drop]
  · rw [Cursor.take, if_pos hroom]

theorem reserve (n : Nat) : Tracks (Cursor.reserve n) (Reader.reserve n) 0 := by
  intro b s _ hs
  unfold Cursor.reserve Reader.reserve
  cases VeiledLedger.reserve n Value.width with
  | ok u => exact ⟨s, hs, .inl ⟨u, rfl, rfl, rfl⟩⟩
  | error e => exact ⟨s, hs, .inr ⟨e, rfl, rfl⟩⟩

theorem number (width : Nat) : Tracks (Cursor.number width) (Reader.number width) width := (take width).map _

theorem flag : Tracks Cursor.flag Reader.flag 1 := number 1

theorem count (capacity : Nat) : Tracks (Cursor.count capacity) (Reader.count capacity) (countWidth capacity) := by
  refine (number _).bind (k := 0) fun n _ => ?_
  split
  · exact pure n
  · exact fail _ 0

theorem room (capacity : Nat) :
    Tracks (Cursor.room capacity) (Reader.room capacity) (countWidth capacity + capacity) := by
  refine (count capacity).bind fun n hn => (take capacity).bind (k := 0) fun x hx => ?_
  -- the room has as many bytes as its capacity says, and the count has been tested against it
  obtain ⟨_, _, hn⟩ := hn
  obtain ⟨_, hp, -⟩ := Reader.count_inv hn
  obtain ⟨_, _, hx⟩ := hx
  obtain ⟨hlen, -⟩ := Reader.take_inv hx
  rw [front, if_pos (hlen.symm ▸ hp.le)]
  exact pure _

theorem text (charset : Charset) (x : Bytes) : Tracks (Cursor.text charset x) (Reader.text charset x) 0 := by
  cases charset with
  | latin1 => exact pure _
  | utf8 =>
    unfold Cursor.text Reader.text
    cases Text.Utf8.decode? x with
    | none => exact fail _ 0
    | some s => exact pure s

theorem slots {c : Cursor Value} {r : Reader Value} (hc : Tracks c r k) :
    ∀ i n : Nat, Tracks (Cursor.slots c i n) (Reader.slots r i n) (n * k)
  | _, 0 => by
    rw [Nat.zero_mul]
    exact pure []
  | i, n + 1 => by
    rw [Nat.succ_mul, Nat.add_comm (n * k)]
    exact (hc.under (.slot i)).bind fun v _ => (hc.slots (i + 1) n).map (v :: ·)

end Tracks

end Cursor

namespace Layout

open Cursor (Tracks)

mutual

/-- As many bytes as the layout is long are enough to read a value at the position. -/
theorem tracks_scan : ∀ {t : Layout} {n : Nat}, t.size? = some n → Tracks (scan t) (read t) n
  | .bool, _, h => by
    cases h
    refine Tracks.flag.bind (k := 0) fun x _ => ?_
    split
    · exact .pure _
    · split
      · exact .pure _
      · exact .fail _ 0
  | .unsigned w, _, h => by
    cases h
    exact (Tracks.number w.bytes).map _
  | .signed w, _, h => by
    cases h
    exact (Tracks.number w.bytes).map _
  | .exactBytes k, _, h => by
    obtain ⟨-, rfl⟩ := word?_eq_some.mp h
    exact (Tracks.take k).map _
  | .bytes c, _, h => by
    obtain ⟨-, rfl⟩ := word?_eq_some.mp h
    exact (Tracks.room c).map _
  | .string charset c, _, h => by
    obtain ⟨-, rfl⟩ := word?_eq_some.mp h
    exact (Tracks.room c).bind fun x _ => (Tracks.text charset x).map _
  | .list c e, _, h => by
    obtain ⟨k, hk, h⟩ := Option.bind_eq_some_iff.mp h
    obtain ⟨slots, hslots, h⟩ := Option.bind_eq_some_iff.mp h
    obtain ⟨-, rfl⟩ := word?_eq_some.mp hslots
    obtain ⟨-, rfl⟩ := word?_eq_some.mp h
    rw [Nat.add_comm]
    exact (Tracks.count c).bind fun n _ => (((tracks_scan hk).call hk).slots 0 c).map _
  | .exactList count e, _, h => by
    obtain ⟨k, hk, h⟩ := Option.bind_eq_some_iff.mp h
    obtain ⟨-, rfl⟩ := word?_eq_some.mp h
    rw [← Nat.zero_add (count * k)]
    exact (Tracks.reserve count).bind fun _ _ => (((tracks_scan hk).call hk).slots 0 count).map _
  | .nullable e, _, h => by
    obtain ⟨k, hk, h⟩ := Option.bind_eq_some_iff.mp h
    obtain ⟨-, rfl⟩ := word?_eq_some.mp h
    rw [Nat.add_comm]
    refine Tracks.flag.bind fun x _ => ((tracks_scan hk).call hk).bind (k := 0) fun v _ => ?_
    split
    · exact .pure _
    · split
      · exact .pure _
      · exact .fail _ 0
  | .struct fs, n, h => by
    have hfields : sizeFields? fs = some n := h
    exact (tracks_scanFields hfields).map _

theorem tracks_scanFields : ∀ {fs : List (String × Layout)} {n : Nat}, sizeFields? fs = some n →
    Tracks (scanFields fs) (readFields fs) n
  | [], _, h => by
    cases h
    exact .pure []
  | (field, t) :: fs, _, h => by
    obtain ⟨k, hk, h⟩ := Option.bind_eq_some_iff.mp h
    obtain ⟨m, hm, h⟩ := Option.bind_eq_some_iff.mp h
    obtain ⟨-, rfl⟩ := word?_eq_some.mp h
    exact (((tracks_scan hk).call hk).under (.field field)).bind fun v _ => (tracks_scanFields hm).map (v :: ·)

end

/-- A byte string of another length is refused before anything is taken. -/
theorem scanAll_of_refused {t : Layout} {b : Bytes} (hn : t.size? ≠ some b.length) :
    ∃ e, t.decode b = .error e ∧ t.scanAll b = (.error (.failed e), ⟨0, []⟩) := by
  unfold decode scanAll
  cases h : t.size? with
  | none => exact ⟨_, rfl, rfl⟩
  | some n =>
    have hlen : b.length ≠ n := fun he => hn (by rw [h, he])
    exact ⟨_, if_neg hlen, if_neg hlen⟩

theorem scanAll_of_length {t : Layout} {b : Bytes} (hn : t.size? = some b.length) :
    ∃ s, t.scanAll b = ((t.decode b).mapError .failed, s) ∧ (∀ e ∈ s.log, e.Sound b.length) ∧
      ∀ v, t.decode b = .ok v → s.pos = b.length := by
  have hscan : t.scanAll b = ((Cursor.call t (scan t) b ⟨0, []⟩).1.mapError (.map (LayoutError.ofObstacle "")),
      (Cursor.call t (scan t) b ⟨0, []⟩).2) := by
    rw [scanAll, hn]
    exact if_pos rfl
  have hdecode : t.decode b = ((read t b).mapError (LayoutError.ofObstacle "")).map (·.1) := by
    rw [decode, hn]
    exact if_pos rfl
  obtain ⟨s, hs, ⟨v, hr, hc, hpos⟩ | ⟨m, hr, hc⟩⟩ := (tracks_scan hn).call hn b ⟨0, []⟩ (by simp) (by simp)
  · rw [List.drop_zero] at hr
    refine ⟨s, ?_, hs, fun _ _ => hpos.trans (Nat.zero_add _)⟩
    rw [hscan, hdecode, hc, hr]
    rfl
  · rw [List.drop_zero] at hr
    have herror : t.decode b = .error (.ofObstacle "" m) := by
      rw [hdecode, hr]
      rfl
    refine ⟨s, ?_, hs, fun v hv => ?_⟩
    · rw [hscan, herror, hc]
      rfl
    · rw [herror] at hv
      cases hv

end Layout

/-! ## Readers that have room -/

namespace Reader

variable {α β : Type} {r : Reader α}

/-- Whatever the bytes, there is a value or a misfit. -/
def Answers (r : Reader α) : Prop := ∀ b, r b ≠ .error .noRoom

namespace Answers

theorem pure (a : α) : Answers (Pure.pure a) := nofun

theorem fail (m : Misfit) : Answers (α := α) (Reader.fail m) := nofun

theorem bind {f : α → Reader β} (hr : Answers r) (hf : ∀ a, Answers (f a)) : Answers (r >>= f) := by
  intro b h
  rcases Except.bind_eq_error.mp h with h | ⟨⟨a, rest⟩, -, h⟩
  · exact hr b h
  · exact hf a rest h

theorem map (hr : Answers r) (f : α → β) : Answers (do return f (← r)) := hr.bind fun a => pure (f a)

theorem under (hr : Answers r) (step : PathStep) : Answers (Reader.under step r) := by
  intro b h
  obtain ⟨e, he, hunder⟩ := Except.mapError_eq_error.mp h
  cases e with
  | misfit => cases hunder
  | noRoom => exact hr b he

theorem take (n : Nat) : Answers (Reader.take n) := by
  intro b h
  simp only [Reader.take] at h
  split at h <;> cases h

theorem reserve {n : Nat} (h : n * Value.width < 2 ^ 63) : Answers (Reader.reserve n) := by
  intro b hb
  rw [Reader.reserve, (reserve_eq_ok (u := ())).mpr h] at hb
  cases hb

theorem number (width : Nat) : Answers (Reader.number width) := (take width).map _

theorem flag : Answers Reader.flag := number 1

theorem count (capacity : Nat) : Answers (Reader.count capacity) := by
  refine (number _).bind fun n => ?_
  split
  · exact pure n
  · exact fail _

theorem room (capacity : Nat) : Answers (Reader.room capacity) :=
  (count capacity).bind fun n => (take capacity).map (List.take n)

theorem text (charset : Charset) (x : Bytes) : Answers (Reader.text charset x) := by
  cases charset with
  | latin1 => exact pure _
  | utf8 =>
    unfold Reader.text
    cases Text.Utf8.decode? x with
    | none => exact fail _
    | some s => exact pure s

/-- A row without slots has room whatever its elements are. -/
theorem slots {r : Reader Value} : ∀ {i n : Nat}, (n ≠ 0 → Answers r) → Answers (Reader.slots r i n)
  | _, 0, _ => pure []
  | i, n + 1, hr => by
    have hslot := hr (Nat.succ_ne_zero n)
    exact (hslot.under (.slot i)).bind fun v => (slots fun _ => hslot).map (v :: ·)

end Answers

end Reader

namespace Layout

open Reader (Answers)

mutual

theorem answers_read : ∀ {t : Layout}, t.Reservable → Answers (read t)
  | .bool, _ => by
    refine Answers.flag.bind fun x => ?_
    split
    · exact .pure _
    · split
      · exact .pure _
      · exact .fail _
  | .unsigned w, _ => (Answers.number w.bytes).map _
  | .signed w, _ => (Answers.number w.bytes).map _
  | .exactBytes n, _ => (Answers.take n).map _
  | .bytes c, _ => (Answers.room c).map _
  | .string charset c, _ => (Answers.room c).bind fun x => (Answers.text charset x).map _
  | .list c e, h =>
    have hslots : Answers (Reader.slots (read e) 0 c) := .slots fun hc => answers_read (h hc)
    (Answers.count c).bind fun _ => hslots.map _
  | .exactList _ e, h =>
    (Answers.reserve h.1).bind fun _ => (Answers.slots fun hn => answers_read (h.2 hn)).map _
  | .nullable e, h => by
    refine Answers.flag.bind fun x => (answers_read (t := e) h).bind fun v => ?_
    split
    · exact .pure _
    · split
      · exact .pure _
      · exact .fail _
  | .struct fs, h => (answers_readFields (show ReservableFields fs from h)).map _

theorem answers_readFields : ∀ {fs : List (String × Layout)}, ReservableFields fs → Answers (readFields fs)
  | [], _ => .pure []
  | (field, _) :: _, ⟨ht, hfs⟩ =>
    ((answers_read ht).under (.field field)).bind fun v => (answers_readFields hfs).map (v :: ·)

end

theorem decode_ne_noRoom {t : Layout} (ht : t.Reservable) (b : Bytes) : t.decode b ≠ .error .noRoom := by
  intro h
  unfold decode at h
  split at h
  · cases h
  · split at h
    · obtain ⟨e, he, hplaced⟩ := Except.mapError_eq_error.mp (Except.map_eq_error.mp h)
      cases e with
      | misfit => cases hplaced
      | noRoom => exact answers_read ht b he
    · cases h

/-- To decode any bytes in any layout, the cursor comes to the value or the error that the reader
    comes to, and if there is room for the lists of the layout it does not break down. Nothing that
    it takes goes beyond the end. If the bytes are as many as the layout is long, each value in it
    was read from as many bytes as its own layout is long, and a cursor that has read the whole
    stands at the end. -/
theorem decode_in_bounds (t : Layout) (b : Bytes) :
    (t.scanAll b).1 = (t.decode b).mapError .failed ∧
    (t.Reservable → t.decode b ≠ .error .noRoom) ∧
    (∀ pos n, .take pos n ∈ (t.scanAll b).2.log → pos + n ≤ b.length) ∧
    ∀ n, t.size? = some n → b.length = n →
      (∀ u start stop, .value u start stop ∈ (t.scanAll b).2.log → ∃ k, u.size? = some k ∧ stop = start + k) ∧
      ∀ v, t.decode b = .ok v → (t.scanAll b).2.pos = n := by
  have hanswers (ht : t.Reservable) : t.decode b ≠ .error .noRoom := decode_ne_noRoom ht b
  by_cases hlen : t.size? = some b.length
  · obtain ⟨s, hscan, hsound, hpos⟩ := scanAll_of_length hlen
    rw [hscan]
    refine ⟨rfl, hanswers, fun pos n he => hsound _ he, fun n hn hb => ⟨fun u start stop he => hsound _ he, fun v hv => ?_⟩⟩
    rw [hpos v hv, hb]
  · obtain ⟨e, hdecode, hscan⟩ := scanAll_of_refused hlen
    refine ⟨by rw [hscan, hdecode]; rfl, hanswers, fun pos n he => ?_, fun n hn hb => ?_⟩
    · rw [hscan] at he
      cases he
    · exact absurd (hb ▸ hn) hlen

/-- The loose bytes of the holdings are read to their end, and the share of the first owner lies
    in the two bytes from 7 on. The flawed ones are refused for the flag of the unused slot, when
    the place behind it has been read. -/
theorem holdings_scanned : holdings.size? = some 33 ∧ looseBytes.length = 33 ∧
    (holdings.scanAll looseBytes).2.pos = 33 ∧ .value (.signed .two) 7 9 ∈ (holdings.scanAll looseBytes).2.log ∧
    (holdings.scanAll flawedBytes).1 = .error (.failed (.misfit "owners[2]" (.badFlag .presence 2))) ∧
    (holdings.scanAll flawedBytes).2.pos = 25 ∧ ∀ b, holdings.decode b ≠ .error .noRoom := by
  have hn : holdings.size? = some 33 := by decide
  have hread : holdings.decode looseBytes = .ok holdingsOfOne := rfl
  have hrefused : holdings.decode flawedBytes = .error (.misfit "owners[2]" (.badFlag .presence 2)) := rfl
  have hshare : (holdings.scanAll looseBytes).2.log[6]? = some (.value (.signed .two) 7 9) := rfl
  have hmodest : holdings.Modest := by decide
  obtain ⟨-, -, -, hloose⟩ := decode_in_bounds holdings looseBytes
  obtain ⟨hflawed, -⟩ := decode_in_bounds holdings flawedBytes
  rw [hrefused] at hflawed
  refine ⟨hn, rfl, (hloose 33 hn rfl).2 _ hread, List.mem_of_getElem? hshare, hflawed, rfl, fun b => ?_⟩
  exact (decode_in_bounds holdings b).2.1 hmodest.reservable

/-- A crowd takes no byte, and one behind a flag takes one, whatever it says; who reads them breaks
    down, although the bytes are as many as the layout is long. -/
theorem crowd_breaks_down : crowd.size? = some 0 ∧ crowd.decode [] = .error .noRoom ∧
    (nullable crowd).size? = some 1 ∧ ∀ x, (nullable crowd).decode [x] = .error .noRoom :=
  ⟨rfl, rfl, rfl, fun _ => rfl⟩

end Layout

end VeiledLedger
