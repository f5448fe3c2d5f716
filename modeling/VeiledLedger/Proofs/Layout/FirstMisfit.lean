/-
  VeiledLedger.Proofs.Layout.FirstMisfit — which values fit a layout, and what is said of one that does not.

  A value fits its layout if it has the same form at every depth, as many fields as are
  declared, no more elements or bytes than there is room for, and no character that its
  charset cannot write. A value that does not fit has a part that does not fit by itself,
  whatever the parts below it hold. The parts have an order: a value stands before its own
  parts, and those stand in declared order. The first misfit in that order is the one that
  is reported, and the steps to its part make the path.

  All that is written fits. That all that fits is written, and that no more is said of the rest
  than its first misfit, takes room for the fillers and for the whole: without it the writer
  breaks down before it comes to the end, or even to the value.

  Main statements: `fits_of_encode`, `Modest.takes_of_fits`, `Modest.error?_encode`,
  `encodeAt_blames_first`, `crowd_not_written`.
-/

import VeiledLedger.Proofs.Layout.Rewritten

namespace VeiledLedger

def Charset.Covers : Charset → Char → Prop
  | .latin1, c => c.toNat ≤ 255
  | .utf8, _ => True

instance (charset : Charset) (c : Char) : Decidable (charset.Covers c) :=
  match charset with
  | .latin1 => inferInstanceAs (Decidable (c.toNat ≤ 255))
  | .utf8 => isTrue trivial

namespace Layout

mutual

/-- The value has the form of the layout at every depth, and the room it declares is enough. -/
def Fits : Layout → Value → Prop
  | .bool, v => ∃ b, v = .bool b
  | .unsigned w, v => ∃ n, v = .unsigned w n
  | .signed w, v => ∃ n, v = .signed w n
  | .exactBytes n, v => ∃ x, v = .bytes x ∧ x.length = n
  | .bytes c, v => ∃ x, v = .bytes x ∧ x.length ≤ c
  | .string charset c, v => ∃ s, v = .string s ∧ (∀ x ∈ s.toList, charset.Covers x) ∧ charset.textSize s ≤ c
  | .list c e, v => ∃ vs, v = .list vs ∧ vs.length ≤ c ∧ ∀ w ∈ vs, Fits e w
  | .exactList n e, v => ∃ vs, v = .list vs ∧ vs.length = n ∧ ∀ w ∈ vs, Fits e w
  | .nullable e, v => v = .nullable none ∨ ∃ w, v = .nullable (some w) ∧ Fits e w
  | .struct fs, v => ∃ vs, v = .struct vs ∧ FitsFields fs vs

def FitsFields : List (String × Layout) → List Value → Prop
  | [], vs => vs = []
  | (_, t) :: fs, vs => ∃ w ws, vs = w :: ws ∧ Fits t w ∧ FitsFields fs ws

end

def textMisfit? (charset : Charset) (c : Nat) (s : String) : Option Misfit :=
  match s.toList.find? (fun x => ¬charset.Covers x) with
  | some x => some (.foreignCharacter x)
  | none => if charset.textSize s ≤ c then none else some (.overLength c (charset.textSize s))

def misfit? : Layout → Value → Option Misfit
  | .bool, .bool _ => none
  | .unsigned w, .unsigned w' _ => if w = w' then none else some (.otherType (name (.unsigned w)))
  | .signed w, .signed w' _ => if w = w' then none else some (.otherType (name (.signed w)))
  | .exactBytes n, .bytes x => if x.length = n then none else some (.otherSize n x.length)
  | .bytes c, .bytes x => if x.length ≤ c then none else some (.overCapacity c x.length)
  | .string charset c, .string s => textMisfit? charset c s
  | .list c _, .list vs => if vs.length ≤ c then none else some (.overCapacity c vs.length)
  | .exactList n _, .list vs => if vs.length = n then none else some (.otherSize n vs.length)
  | .nullable _, .nullable _ => none
  | .struct fs, .struct vs => if fs.length = vs.length then none else some (.otherType (name (.struct fs)))
  | t, _ => some (.otherType (name t))

/-- A part of a value: the steps that lead to it, and the layout it is to be written in. -/
structure Part where
  steps : List PathStep
  layout : Layout
  value : Value

namespace Part

def under (step : PathStep) (p : Part) : Part := { p with steps := step :: p.steps }

def misfit? (p : Part) : Option Obstacle := (p.layout.misfit? p.value).map (.misfit p.steps)

end Part

def partsOfSlots (parts : Value → List Part) (i : Nat) : List Value → List Part
  | [] => []
  | v :: vs => (parts v).map (.under (.slot i)) ++ partsOfSlots parts (i + 1) vs

mutual

/-- The value itself and all that is in it: a value before its own parts, and those in declared
    order. The value behind a flag stands where the flag does. -/
def parts (t : Layout) (v : Value) : List Part :=
  ⟨[], t, v⟩ ::
    match t, v with
    | .list _ e, .list vs => partsOfSlots (parts e) 0 vs
    | .exactList _ e, .list vs => partsOfSlots (parts e) 0 vs
    | .nullable e, .nullable (some w) => parts e w
    | .struct fs, .struct vs => partsOfFields fs vs
    | _, _ => []

def partsOfFields : List (String × Layout) → List Value → List Part
  | (field, t) :: fs, v :: vs => (parts t v).map (.under (.field field)) ++ partsOfFields fs vs
  | _, _ => []

end

/-! ## Texts -/

theorem error?_encodeLatin1 : ∀ cs : List Char, Except.error? (encodeLatin1 cs) =
    (cs.find? fun x => ¬Charset.Covers .latin1 x).map fun x => (Misfit.foreignCharacter x).here
  | [] => rfl
  | x :: cs => by
    by_cases hx : x.toNat ≤ 255
    · have hcovered : Charset.Covers .latin1 x := hx
      rw [encodeLatin1, if_pos hx, Except.error?_map, error?_encodeLatin1 cs, List.find?_cons_of_neg (by simpa)]
    · have hforeign : ¬Charset.Covers .latin1 x := hx
      rw [encodeLatin1, if_neg hx, List.find?_cons_of_pos (by simpa)]
      rfl

theorem error?_encodeText (charset : Charset) (s : String) : Except.error? (encodeText charset s) =
    (s.toList.find? fun x => ¬charset.Covers x).map fun x => (Misfit.foreignCharacter x).here := by
  cases charset with
  | latin1 => exact error?_encodeLatin1 s.toList
  | utf8 =>
    have hnone : s.toList.find? (fun x => ¬Charset.Covers .utf8 x) = none := by
      simp [Charset.Covers]
    rw [hnone]
    rfl

/-- A text can be written if its charset covers each character. -/
theorem encodeText_isOk {charset : Charset} {s : String} :
    (∃ x, encodeText charset s = .ok x) ↔ ∀ x ∈ s.toList, charset.Covers x := by
  rw [← Except.error?_eq_none, error?_encodeText]
  simp

/-! ## The values that are written -/

mutual

theorem fits_of_encode : ∀ {t : Layout} {v : Value} {b : Bytes}, encode t v = .ok b → t.Fits v
  | .bool, _, _, h => by
    obtain ⟨x, hv, -⟩ := encode_bool_eq_ok.mp h
    exact ⟨x, hv⟩
  | .unsigned _, _, _, h => by
    obtain ⟨n, hv, -⟩ := encode_unsigned_eq_ok.mp h
    exact ⟨n, hv⟩
  | .signed _, _, _, h => by
    obtain ⟨n, hv, -⟩ := encode_signed_eq_ok.mp h
    exact ⟨n, hv⟩
  | .exactBytes _, _, b, h => ⟨b, encode_exactBytes_eq_ok.mp h⟩
  | .bytes _, _, _, h => by
    obtain ⟨x, hv, hx, -⟩ := encode_bytes_eq_ok.mp h
    exact ⟨x, hv, hx⟩
  | .string _ _, _, _, h => by
    obtain ⟨s, x, hv, hs, hx, -⟩ := encode_string_eq_ok.mp h
    exact ⟨s, hv, encodeText_isOk.mp ⟨x, hs⟩, length_of_encodeText hs ▸ hx⟩
  | .list _ e, _, _, h => by
    obtain ⟨vs, used, -, hv, hlen, hused, -, -⟩ := encode_list_eq_ok.mp h
    have hslots := encodeSlots_isOk.mp ⟨used, hused⟩
    exact ⟨vs, hv, hlen, fun w hw => have ⟨_, hx⟩ := hslots w hw; fits_of_encode hx⟩
  | .exactList _ e, _, b, h => by
    obtain ⟨vs, hv, hlen, -, hb⟩ := encode_exactList_eq_ok.mp h
    have hslots := encodeSlots_isOk.mp ⟨b, hb⟩
    exact ⟨vs, hv, hlen, fun w hw => have ⟨_, hx⟩ := hslots w hw; fits_of_encode hx⟩
  | .nullable e, _, _, h => by
    rcases encode_nullable_eq_ok.mp h with ⟨w, x, hv, hx, -⟩ | ⟨w, x, hv, -, -, -⟩
    · exact .inr ⟨w, hv, fits_of_encode hx⟩
    · exact .inl hv
  | .struct fs, _, _, h => by
    obtain ⟨vs, hv, hlen, hfields⟩ := encode_struct_eq_ok.mp h
    exact ⟨vs, hv, fitsFields_of_encode hlen hfields⟩

theorem fitsFields_of_encode : ∀ {fs : List (String × Layout)} {vs : List Value} {b : Bytes},
    fs.length = vs.length → encodeFields fs vs = .ok b → FitsFields fs vs
  | [], [], _, _, _ => rfl
  | (_, _) :: _, w :: ws, _, hlen, h => by
    obtain ⟨x, y, hx, hy, -⟩ := encodeFields_cons_eq_ok.mp h
    exact ⟨w, ws, rfl, fits_of_encode hx, fitsFields_of_encode (by simpa using hlen) hy⟩

end

mutual

/-- With room for them, the fillers of a list and of a missing value are never in the way. -/
theorem Modest.takes_of_fits : ∀ {t : Layout}, t.Modest → ∀ {v : Value}, t.Fits v → t.Takes v
  | .bool, _, _, ⟨x, hv⟩ => ⟨_, encode_bool_eq_ok.mpr ⟨x, hv, rfl⟩⟩
  | .unsigned _, _, _, ⟨n, hv⟩ => ⟨_, encode_unsigned_eq_ok.mpr ⟨n, hv, rfl⟩⟩
  | .signed _, _, _, ⟨n, hv⟩ => ⟨_, encode_signed_eq_ok.mpr ⟨n, hv, rfl⟩⟩
  | .exactBytes _, _, _, ⟨x, hv, hx⟩ => ⟨x, encode_exactBytes_eq_ok.mpr ⟨hv, hx⟩⟩
  | .bytes _, _, _, ⟨x, hv, hx⟩ => ⟨_, encode_bytes_eq_ok.mpr ⟨x, hv, hx, rfl⟩⟩
  | .string _ _, _, _, ⟨s, hv, hcovered, hsize⟩ => by
    obtain ⟨x, hs⟩ := encodeText_isOk.mpr hcovered
    exact ⟨_, encode_string_eq_ok.mpr ⟨s, x, hv, hs, length_of_encodeText hs ▸ hsize, rfl⟩⟩
  | .list c e, h, _, ⟨vs, hv, hlen, hfits⟩ => by
    obtain ⟨w, x, hw, hx⟩ := Modest.exists_written_filler (t := e) h
    obtain ⟨used, hused⟩ := encodeSlots_isOk.mpr fun v hv => Modest.takes_of_fits (t := e) h (hfits v hv)
    obtain ⟨unused, hunused, -⟩ := exists_fillers hw hx vs.length (c - vs.length)
    exact ⟨_, encode_list_eq_ok.mpr ⟨vs, used, unused, hv, hlen, hused, hunused, rfl⟩⟩
  | .exactList n e, h, _, ⟨vs, hv, hlen, hfits⟩ => by
    obtain ⟨hroom, helement⟩ := modest_exactList.mp h
    obtain ⟨b, hb⟩ := encodeSlots_isOk.mpr fun v hv => Modest.takes_of_fits (t := e) helement (hfits v hv)
    exact ⟨b, encode_exactList_eq_ok.mpr ⟨vs, hv, hlen, hroom, hb⟩⟩
  | .nullable e, h, _, hfits => by
    rcases hfits with hv | ⟨w, hv, hw⟩
    · obtain ⟨w, x, hw, hx, -⟩ := Modest.exists_written_filler (t := e) h
      exact ⟨_, encode_nullable_eq_ok.mpr (.inr ⟨w, x, hv, hw, hx, rfl⟩)⟩
    · obtain ⟨x, hx⟩ := Modest.takes_of_fits (t := e) h hw
      exact ⟨_, encode_nullable_eq_ok.mpr (.inl ⟨w, x, hv, hx, rfl⟩)⟩
  | .struct fs, h, _, ⟨vs, hv, hfits⟩ => by
    have hfields := ModestFields.takes_of_fits (show ModestFields fs from h) hfits
    exact hv ▸ takes_struct.mpr hfields

theorem ModestFields.takes_of_fits : ∀ {fs : List (String × Layout)}, ModestFields fs → ∀ {vs : List Value},
    FitsFields fs vs → List.Forall₂ (fun f v => f.2.Takes v) fs vs
  | [], _, _, hvs => by
    have hnil : _ = [] := hvs
    exact hnil ▸ .nil
  | (_, _) :: _, h, _, ⟨w, ws, hvs, hw, hws⟩ => by
    obtain ⟨hfirst, hrest⟩ := modestFields_cons.mp h
    exact hvs ▸ .cons (hfirst.takes_of_fits hw) (ModestFields.takes_of_fits hrest hws)

end

/-! ## The misfit that is reported -/

theorem misfit?_under (step : PathStep) (p : Part) :
    (p.under step).misfit? = p.misfit?.map (Obstacle.under step) := by
  unfold Part.misfit? Part.under
  cases p.layout.misfit? p.value <;> rfl

/-- One step further in, the first misfit is the same, and the step leads to it. -/
theorem error?_under {α : Type} {step : PathStep} {r : Except Obstacle α} {ps : List Part}
    (h : Except.error? r = ps.findSome? Part.misfit?) :
    Except.error? (Except.under step r) = (ps.map (.under step)).findSome? Part.misfit? := by
  have hstep : Part.misfit? ∘ Part.under step = Option.map (Obstacle.under step) ∘ Part.misfit? :=
    funext (misfit?_under step)
  rw [Except.under, Except.error?_mapError, h, List.findSome?_map, hstep, List.map_findSome?]

theorem error?_encodeSlots {write : Value → Except Obstacle Bytes} {parts : Value → List Part}
    (hw : ∀ v, Except.error? (write v) = (parts v).findSome? Part.misfit?) : ∀ {i : Nat} {vs : List Value},
      Except.error? (encodeSlots write i vs) = (partsOfSlots parts i vs).findSome? Part.misfit?
  | _, [] => rfl
  | i, v :: vs => by
    have hrest (first : Bytes) : Except.error? (do .ok (first ++ (← encodeSlots write (i + 1) vs))) =
        (partsOfSlots parts (i + 1) vs).findSome? Part.misfit? := by
      rw [Except.error?_bind_ok, error?_encodeSlots hw]
    rw [encodeSlots, partsOfSlots, List.findSome?_append, Except.error?_bind (fun first _ => hrest first),
      error?_under (hw v)]

theorem Modest.error?_encodeFillers {e : Layout} (he : e.Modest) (i n : Nat) :
    Except.error? (encodeFillers (encode e) e i n) = none := by
  obtain ⟨w, x, hw, hx⟩ := he.exists_written_filler
  obtain ⟨y, hy, -⟩ := exists_fillers hw hx i n
  exact Except.error?_eq_none.mpr ⟨y, hy⟩

theorem findSome?_parts {t : Layout} {v : Value} : (parts t v).findSome? Part.misfit? =
    ((t.misfit? v).map Misfit.here).or ((parts t v).tail.findSome? Part.misfit?) := by
  obtain ⟨ps, hps⟩ : ∃ ps, parts t v = ⟨[], t, v⟩ :: ps := ⟨_, parts.eq_def t v⟩
  rw [hps, List.findSome?_cons, List.tail_cons, Part.misfit?]
  cases t.misfit? v <;> rfl

mutual

/-- A value is refused for the first of its parts that does not fit by itself. -/
theorem Modest.error?_encode : ∀ {t : Layout}, t.Modest → ∀ v : Value,
    Except.error? (encode t v) = (parts t v).findSome? Part.misfit?
  | .bool, _, v => by cases v <;> rfl
  | .unsigned w, _, v => by
    cases v with
    | unsigned w' n =>
      rw [findSome?_parts, encode, misfit?]
      split <;> rfl
    | _ => rfl
  | .signed w, _, v => by
    cases v with
    | signed w' n =>
      rw [findSome?_parts, encode, misfit?]
      split <;> rfl
    | _ => rfl
  | .exactBytes n, _, v => by
    cases v with
    | bytes x =>
      rw [findSome?_parts, encode, misfit?]
      split <;> rfl
    | _ => rfl
  | .bytes c, _, v => by
    cases v with
    | bytes x =>
      rw [findSome?_parts, encode, misfit?]
      split <;> rfl
    | _ => rfl
  | .string charset c, _, v => by
    cases v with
    | string s =>
      have hroom (x : Bytes) (hx : encodeText charset s = .ok x) :
          Except.error? (if x.length ≤ c then .ok (writeBytes c x) else .error (Misfit.overLength c x.length).here) =
            if charset.textSize s ≤ c then none else some (Misfit.overLength c (charset.textSize s)).here := by
        rw [length_of_encodeText hx]
        split <;> rfl
      rw [findSome?_parts, encode, Except.error?_bind hroom, error?_encodeText, misfit?, textMisfit?]
      cases s.toList.find? fun x => ¬charset.Covers x with
      | none => split <;> rfl
      | some x => rfl
    | _ => rfl
  | .list c e, h, v => by
    cases v with
    | list vs =>
      have hunused (used : Bytes) : Except.error? (do
          .ok (writeCount c vs.length ++ used ++ (← encodeFillers (encode e) e vs.length (c - vs.length)))) = none := by
        rw [Except.error?_bind_ok, Modest.error?_encodeFillers (e := e) h]
      rw [findSome?_parts, encode, misfit?]
      split
      · rw [Except.error?_bind (fun used _ => hunused used), Option.or_none,
          error?_encodeSlots (Modest.error?_encode (t := e) h)]
        rfl
      · rfl
    | _ => rfl
  | .exactList n e, h, v => by
    cases v with
    | list vs =>
      rw [findSome?_parts, encode, misfit?]
      split
      · obtain ⟨hroom, helement⟩ := modest_exactList.mp h
        rw [(reserve_eq_ok (u := ())).mpr hroom]
        exact error?_encodeSlots (Modest.error?_encode (t := e) helement)
      · rfl
    | _ => rfl
  | .nullable e, h, v => by
    cases v with
    | nullable o =>
      rw [findSome?_parts, misfit?]
      cases o with
      | none =>
        obtain ⟨w, x, hw, hx, -⟩ := Modest.exists_written_filler (t := e) h
        have hnull : encode (.nullable e) (.nullable none) = .ok (0 :: x) :=
          encode_nullable_eq_ok.mpr (.inr ⟨w, x, rfl, hw, hx, rfl⟩)
        rw [hnull]
        rfl
      | some w =>
        rw [encode, Except.error?_map]
        exact Modest.error?_encode (t := e) h w
    | _ => rfl
  | .struct fs, h, v => by
    cases v with
    | struct vs =>
      rw [findSome?_parts, encode, misfit?]
      split
      · exact ModestFields.error?_encode (show ModestFields fs from h) vs
      · rfl
    | _ => rfl

theorem ModestFields.error?_encode : ∀ {fs : List (String × Layout)}, ModestFields fs → ∀ vs : List Value,
    Except.error? (encodeFields fs vs) = (partsOfFields fs vs).findSome? Part.misfit?
  | [], _, vs => by cases vs <;> rfl
  | _ :: _, _, [] => rfl
  | (field, t) :: fs, h, v :: vs => by
    obtain ⟨ht, hfs⟩ := modestFields_cons.mp h
    have hrest (first : Bytes) : Except.error? (do .ok (first ++ (← encodeFields fs vs))) =
        (partsOfFields fs vs).findSome? Part.misfit? := by
      rw [Except.error?_bind_ok, ModestFields.error?_encode hfs]
    rw [encodeFields, partsOfFields, List.findSome?_append, Except.error?_bind (fun first _ => hrest first),
      error?_under (ht.error?_encode v)]

end

/-- All that is written fits. With room for the whole and for the fillers, a value is written if it
    fits its layout. If it does not, then of all its parts, a value before its own and those in
    declared order, the first that does not fit by itself is reported, under `path` and the steps
    that lead to it. The value that fills unused room fits. -/
theorem encodeAt_blames_first (t : Layout) (v : Value) (path : String) :
    ((∃ b, t.encodeAt path v = .ok b) → t.Fits v) ∧
    (t.Modest → t.HasRoom →
      (t.Fits v → ∃ b, t.encodeAt path v = .ok b) ∧
      (¬t.Fits v → ∃ before part after m, t.parts v = before ++ part :: after ∧
        (∀ p ∈ before, p.layout.misfit? p.value = none) ∧ part.layout.misfit? part.value = some m ∧
        t.encodeAt path v = .error (.misfit (part.steps.foldl PathStep.extend path) m)) ∧
      ∃ w, t.filler = .ok w ∧ t.Fits w) := by
  refine ⟨fun ⟨b, hb⟩ => fits_of_encode (encodeAt_eq_ok.mp hb).2, fun ht hroom => ⟨fun hfits => ?_, fun hnot => ?_, ?_⟩⟩
  · obtain ⟨b, hb⟩ := ht.takes_of_fits hfits
    exact ⟨b, encodeAt_eq_ok.mpr ⟨hroom, hb⟩⟩
  · have hrefused : ∃ e, encode t v = .error e := Except.exists_error_iff.mpr fun ⟨b, hb⟩ => hnot (fits_of_encode hb)
    obtain ⟨e, he⟩ := hrefused
    have hfirst : (parts t v).findSome? Part.misfit? = some e := by
      rw [← ht.error?_encode, Except.error?_eq_some, he]
    obtain ⟨before, part, after, hparts, hpart, hbefore⟩ := List.findSome?_eq_some_iff.mp hfirst
    obtain ⟨m, hm, rfl⟩ := Option.map_eq_some_iff.mp hpart
    refine ⟨before, part, after, m, hparts, fun p hp => Option.map_eq_none_iff.mp (hbefore p hp), hm, ?_⟩
    rw [encodeAt, (reserveAll_eq_ok (u := ())).mpr hroom]
    show Except.mapError _ (encode t v) = _
    rw [he]
    rfl
  · obtain ⟨w, x, hw, hx, -⟩ := ht.exists_written_filler
    exact ⟨w, hw, fits_of_encode hx⟩

def holdingsOfTwo : Value :=
  .struct [.list [.nullable none, .nullable (some (.struct [.string "Chloé", .signed .two 0]))],
    .string "long", .list [.bytes [7], .bytes []]]

theorem holdings_blamed : ¬holdings.Fits holdingsOfTwo ∧ ∃ before part after,
    holdings.parts holdingsOfTwo = before ++ part :: after ∧ (∀ p ∈ before, p.layout.misfit? p.value = none) ∧
    part.layout.misfit? part.value = some (.overLength 4 5) ∧
    part.steps.foldl PathStep.extend "outputs[0]" = "outputs[0].owners[1].name" := by
  have hrefused : holdings.encodeAt "outputs[0]" holdingsOfTwo =
      .error (.misfit "outputs[0].owners[1].name" (.overLength 4 5)) := by decide
  obtain ⟨-, hroom⟩ := encodeAt_blames_first holdings holdingsOfTwo "outputs[0]"
  obtain ⟨hwritten, hblamed, -⟩ := hroom (by decide) ⟨33, by decide, by decide⟩
  have hnot : ¬holdings.Fits holdingsOfTwo := fun hfits => by
    obtain ⟨b, hb⟩ := hwritten hfits
    cases hrefused.symm.trans hb
  obtain ⟨before, part, after, m, hparts, hbefore, hpart, herror⟩ := hblamed hnot
  rw [hrefused, Except.error.injEq, LayoutError.misfit.injEq] at herror
  obtain ⟨hpath, rfl⟩ := herror
  exact ⟨hnot, before, part, after, hparts, hbefore, hpart, hpath.symm⟩

/-- A crowd that is missing fits, but there is no room for its filler. A flag does not fit as many
    bytes as there is no room for, but nothing is said of it. -/
theorem crowd_not_written :
    (nullable crowd).size? = some 1 ∧ (nullable crowd).Fits .null ∧
    (nullable crowd).encodeAt "" .null = .error .noRoom ∧
    (exactBytes (2 ^ 63)).size? = some (2 ^ 63) ∧ ¬(exactBytes (2 ^ 63)).Fits (.bool true) ∧
    (exactBytes (2 ^ 63)).misfit? (.bool true) = some (.otherType "bytes[9223372036854775808]") ∧
    (exactBytes (2 ^ 63)).encodeAt "" (.bool true) = .error .noRoom :=
  ⟨rfl, .inl rfl, rfl, rfl, nofun, by decide, rfl⟩

end Layout

end VeiledLedger
