/-
  VeiledLedger.Proofs.Json.Reading — a decoder that is given what was written.

  A decoder reads a value off some tokens if it does so whatever follows them (`Reads`). So the
  decoders of a structure's parts, one after another, read the structure: an array item by
  item, an object member by member, each member changing a state that `Decoder.members` carries
  along (`Steps`).

  Main statements: `Reads.all` (a text that was written is read), `reads_array` and
  `reads_fields`.
-/

import VeiledLedger.Proofs.Json.Lexing

namespace VeiledLedger.Json

namespace Datum

/-! ## The tokens of arrays and objects -/

def itemTokens : (first : Bool) → List Datum → List Token
  | _, [] => [.closeArray]
  | first, d :: ds => (if first then [] else [.comma]) ++ (d.tokens ++ itemTokens false ds)

def memberTokens : (first : Bool) → List (String × Datum) → List Token
  | _, [] => [.closeObject]
  | first, (name, d) :: ms =>
    (if first then [] else [.comma]) ++ (.string (some name) :: .colon :: (d.tokens ++ memberTokens false ms))

theorem tokens_array (ds : List Datum) : (array ds).tokens = .openArray :: itemTokens true ds := by
  have hjoined : ∀ ds, (Lexeme.joined (itemLexemes ds) ++ [Lexeme.closeArray]).map Lexeme.token = itemTokens true ds := by
    intro ds
    induction ds with
    | nil => rfl
    | cons d ds ih =>
      cases ds with
      | nil => simp [itemLexemes, Lexeme.joined, itemTokens, tokens, Lexeme.token]
      | cons e es =>
        show ((d.lexemes ++ Lexeme.comma :: Lexeme.joined (itemLexemes (e :: es))) ++ [Lexeme.closeArray]).map
          Lexeme.token = _
        rw [List.append_assoc, List.cons_append, List.map_append, List.map_cons, ih]
        rfl
  exact congrArg _ (hjoined ds)

theorem tokens_object (ms : List (String × Datum)) : (object ms).tokens = .openObject :: memberTokens true ms := by
  have hjoined : ∀ ms, (Lexeme.joined (memberLexemes ms) ++ [Lexeme.closeObject]).map Lexeme.token = memberTokens true ms := by
    intro ms
    induction ms with
    | nil => rfl
    | cons m ms ih =>
      obtain ⟨name, d⟩ := m
      cases ms with
      | nil => simp [memberLexemes, Lexeme.joined, memberTokens, tokens, Lexeme.token]
      | cons e es =>
        obtain ⟨other, e⟩ := e
        show _ = Token.string (some name) :: .colon :: (d.tokens ++ .comma :: memberTokens true ((other, e) :: es))
        rw [← ih]
        simp [memberLexemes, Lexeme.joined, tokens, Lexeme.token]
  exact congrArg _ (hjoined ms)

/-- No value begins like what ends or continues an array. -/
theorem exists_tokens (d : Datum) : ∃ t ts, d.tokens = t :: ts ∧ t ≠ .closeArray ∧ t ≠ .comma := by
  cases d <;> exact ⟨_, _, rfl, nofun, nofun⟩

end Datum

namespace Decoder

variable {α β σ : Type}

/-- The decoder takes these tokens off the front and makes `x` of them. -/
def Reads (r : Decoder α) (ts : List Token) (x : α) : Prop := ∀ rest, r (ts ++ rest) = .ok (x, rest)

theorem bind_of_ok {r : Decoder α} {f : α → Decoder β} {ts rest : List Token} {x : α} (h : r ts = .ok (x, rest)) :
    (r >>= f) ts = f x rest := by
  show (r ts >>= fun p => f p.1 p.2) = _
  rw [h]
  rfl

theorem peek_bind (f : Option Token → Decoder β) (t : Token) (ts : List Token) :
    (peek >>= f) (t :: ts) = f (some t) (t :: ts) := rfl

theorem drop_bind (f : Unit → Decoder β) (t : Token) (ts : List Token) : (drop >>= f) (t :: ts) = f () ts := rfl

theorem Reads.map {r : Decoder α} {ts : List Token} {x : α} (h : r.Reads ts x) (f : α → β) : Reads (f <$> r) ts (f x) := by
  intro rest
  show (r (ts ++ rest) >>= fun p => Except.ok (f p.1, p.2)) = _
  rw [h rest]
  rfl

/-- What was written is read. -/
theorem Reads.all {r : Decoder α} {d : Datum} {x : α} (h : r.Reads d.tokens x) (hplain : d.Plain) :
    r.all d.text = .ok x := by
  have hend := h []
  rw [List.append_nil] at hend
  unfold Decoder.all
  rw [Datum.tokens_text hplain, hend]

theorem Reads.leading {r : Decoder α} {d : Datum} {x : α} (h : r.Reads d.tokens x) (hplain : d.Plain) :
    r.leading d.text = .ok x := by
  have hend := h []
  rw [List.append_nil] at hend
  unfold Decoder.leading
  rw [Datum.tokens_text hplain, hend]
  rfl

/-! ## Single values -/

theorem reads_string (s : String) : string.Reads (Datum.string s).tokens s := fun _ => rfl

theorem reads_natural (n : Nat) : natural.Reads (Datum.integer n).tokens n := fun _ => rfl

theorem reads_meaning {f : String → Option α} {s : String} {x : α} (h : f s = some x) :
    (meaning f).Reads (Datum.string s).tokens x := by
  intro rest
  unfold meaning
  rw [bind_of_ok (reads_string s rest), h]
  rfl

theorem reads_datum_string (room : Nat) (s : String) : (datum room).Reads (Datum.string s).tokens (.string s) := by
  intro rest
  cases room <;> rfl

/-! ## Arrays -/

theorem itemsFrom_eq {item : Decoder α} {d : α → Datum} {xs : List α} (h : ∀ x ∈ xs, item.Reads (d x).tokens x)
    {fuel : Nat} (hfuel : xs.length < fuel) (first : Bool) (rest : List Token) :
    itemsFrom item fuel first (Datum.itemTokens first (xs.map d) ++ rest) = .ok (xs, rest) := by
  induction xs generalizing fuel first with
  | nil =>
    obtain ⟨fuel, rfl⟩ : ∃ k, fuel = k + 1 := ⟨fuel - 1, by omega⟩
    cases first <;> rfl
  | cons x xs ih =>
    obtain ⟨fuel, rfl⟩ : ∃ k, fuel = k + 1 := ⟨fuel - 1, by omega⟩
    have hitem := h x List.mem_cons_self (Datum.itemTokens false (xs.map d) ++ rest)
    have hrest : itemsFrom item fuel false (Datum.itemTokens false (xs.map d) ++ rest) = .ok (xs, rest) :=
      ih (fun y hy => h y (List.mem_cons_of_mem _ hy)) (by simpa using hfuel) false
    have hboth : (item >>= fun y => itemsFrom item fuel false >>= fun ys => pure (y :: ys))
        ((d x).tokens ++ (Datum.itemTokens false (xs.map d) ++ rest)) = .ok (x :: xs, rest) := by
      rw [bind_of_ok hitem, bind_of_ok hrest]
      rfl
    obtain ⟨t, ts, ht, hclose, hcomma⟩ := (d x).exists_tokens
    unfold itemsFrom
    cases first with
    | true =>
      show (peek >>= _) ((d x).tokens ++ Datum.itemTokens false (xs.map d) ++ rest) = _
      rw [List.append_assoc]
      rw [ht, List.cons_append] at hboth ⊢
      simp only [peek_bind, ↓reduceIte]
      cases t with
      | closeArray => exact absurd rfl hclose
      | comma => exact absurd rfl hcomma
      | _ => exact hboth
    | false =>
      show (peek >>= _) (.comma :: ((d x).tokens ++ Datum.itemTokens false (xs.map d) ++ rest)) = _
      rw [List.append_assoc]
      rw [ht, List.cons_append] at hboth ⊢
      simp only [peek_bind, drop_bind, Bool.false_eq_true, if_false]
      rw [if_neg fun he => hclose (Option.some.inj he)]
      exact hboth

theorem reads_array {item : Decoder α} {d : α → Datum} {xs : List α} (h : ∀ x ∈ xs, item.Reads (d x).tokens x) :
    (array item).Reads (Datum.array (xs.map d)).tokens xs := by
  intro rest
  have hlength : ∀ first, xs.length ≤ (Datum.itemTokens first (xs.map d)).length := by
    clear h
    induction xs with
    | nil => exact fun _ => Nat.zero_le _
    | cons x xs ih =>
      intro first
      obtain ⟨t, ts, ht, -⟩ := (d x).exists_tokens
      have hrest := ih false
      simp only [List.map_cons, Datum.itemTokens, ht, List.length_append, List.length_cons]
      omega
  have hfuel : xs.length < (Datum.itemTokens true (xs.map d) ++ rest).length + 1 := by
    have := hlength true
    rw [List.length_append]
    omega
  rw [Datum.tokens_array]
  exact itemsFrom_eq h hfuel true rest

/-! ## Objects -/

/-- The members take the state from `s` to `s'`, one after another. -/
inductive Steps (member : String → σ → Decoder σ) : List (String × Datum) → σ → σ → Prop
  | nil (s : σ) : Steps member [] s s
  | cons {name : String} {d : Datum} {ms : List (String × Datum)} {s s' s'' : σ} :
      (member name s).Reads (.colon :: d.tokens) s' → Steps member ms s' s'' → Steps member ((name, d) :: ms) s s''

theorem membersFrom_eq {member : String → σ → Decoder σ} {ms : List (String × Datum)} {s s' : σ}
    (h : Steps member ms s s') {fuel : Nat} (hfuel : ms.length < fuel) (first : Bool) (rest : List Token) :
    membersFrom member fuel first s (Datum.memberTokens first ms ++ rest) = .ok (s', rest) := by
  induction h generalizing fuel first with
  | nil s =>
    obtain ⟨fuel, rfl⟩ : ∃ k, fuel = k + 1 := ⟨fuel - 1, by omega⟩
    cases first <;> rfl
  | @cons name d ms s s' s'' hmember _ ih =>
    obtain ⟨fuel, rfl⟩ : ∃ k, fuel = k + 1 := ⟨fuel - 1, by omega⟩
    have hrest : membersFrom member fuel false s' (Datum.memberTokens false ms ++ rest) = .ok (s'', rest) :=
      ih (by simpa using hfuel) false
    have hboth : (member name s >>= membersFrom member fuel false)
        (.colon :: (d.tokens ++ (Datum.memberTokens false ms ++ rest))) = .ok (s'', rest) := by
      have hfirst := hmember (Datum.memberTokens false ms ++ rest)
      rw [List.cons_append] at hfirst
      rw [bind_of_ok hfirst, hrest]
    unfold membersFrom
    cases first with
    | true =>
      show (peek >>= _) (.string (some name) :: .colon :: (d.tokens ++ Datum.memberTokens false ms ++ rest)) = _
      simp only [List.append_assoc, peek_bind, drop_bind, if_true]
      exact hboth
    | false =>
      show (peek >>= _) (.comma :: .string (some name) :: .colon :: (d.tokens ++ Datum.memberTokens false ms ++ rest)) = _
      simp only [List.append_assoc, peek_bind, drop_bind, Bool.false_eq_true, if_false]
      exact hboth

theorem Steps.reads {member : String → σ → Decoder σ} {ms : List (String × Datum)} {s s' : σ}
    (h : Steps member ms s s') : (members member s).Reads (Datum.memberTokens true ms) s' := by
  intro rest
  have hlength : ∀ first, ms.length ≤ (Datum.memberTokens first ms).length := by
    clear h
    induction ms with
    | nil => exact fun _ => Nat.zero_le _
    | cons m ms ih =>
      intro first
      obtain ⟨name, d⟩ := m
      have hrest := ih false
      simp only [Datum.memberTokens, List.length_append, List.length_cons]
      omega
  have hfuel : ms.length < (Datum.memberTokens true ms ++ rest).length + 1 := by
    have := hlength true
    rw [List.length_append]
    omega
  exact membersFrom_eq h hfuel true rest

/-! ## Structures -/

structure Filled (α : Type) where
  field : Field α
  datum : Datum
  value : α

namespace Filled

def member (p : Filled α) : String × Datum := (p.field.name, p.datum)

variable {done todo : List (Filled α)} {p : Filled α}

theorem findIdx?_eq (hnames : ((done ++ p :: todo).map (·.field.name)).Nodup) :
    ((done ++ p :: todo).map (·.field)).findIdx? (·.name = p.field.name) = some done.length := by
  rw [List.map_append, List.map_cons, List.nodup_append] at hnames
  have hnot : (done.map (·.field)).findIdx? (·.name = p.field.name) = none := by
    refine List.findIdx?_eq_none_iff.mpr fun f hf => decide_eq_false fun he => ?_
    obtain ⟨q, hq, rfl⟩ := List.mem_map.mp hf
    exact hnames.2.2 _ (List.mem_map_of_mem hq) _ List.mem_cons_self he
  rw [List.map_append, List.findIdx?_append, hnot, List.map_cons, List.findIdx?_cons]
  simp

/-- Each member finds its place free and puts its value there. -/
theorem steps (hnames : ((done ++ todo).map (·.field.name)).Nodup)
    (h : ∀ p ∈ todo, p.field.read.Reads p.datum.tokens p.value) :
    Steps (fieldNamed ((done ++ todo).map (·.field))) (todo.map member)
      (done.map (fun p => some p.value) ++ todo.map (fun _ => none)) ((done ++ todo).map fun p => some p.value) := by
  induction todo generalizing done with
  | nil =>
    rw [List.map_nil, List.append_nil, List.map_nil, List.append_nil]
    exact .nil _
  | cons p todo ih =>
    have hnext : done ++ p :: todo = (done ++ [p]) ++ todo := by rw [List.append_assoc, List.singleton_append]
    have hrest := @ih (done ++ [p]) (by rw [← hnext]; exact hnames) fun q hq => h q (List.mem_cons_of_mem _ hq)
    rw [← hnext] at hrest
    refine .cons (fun rest => ?_) hrest
    unfold fieldNamed
    rw [findIdx?_eq hnames]
    have hplace : (done.map (fun p => some p.value) ++ (p :: todo).map fun _ => none)[done.length]? = some none := by
      simp
    have hfield : ((done ++ p :: todo).map (·.field))[done.length]? = some p.field := by simp
    simp only [hplace, hfield]
    have hcolon : expect .colon (.colon :: (p.datum.tokens ++ rest)) = .ok ((), p.datum.tokens ++ rest) := rfl
    rw [List.cons_append, bind_of_ok hcolon, bind_of_ok (h p List.mem_cons_self rest)]
    simp
    rfl

end Filled

theorem reads_fields {ps : List (Filled α)} (hnames : (ps.map (·.field.name)).Nodup)
    (h : ∀ p ∈ ps, p.field.read.Reads p.datum.tokens p.value) :
    (fields (ps.map (·.field))).Reads (Datum.object (ps.map Filled.member)).tokens (ps.map (·.value)) := by
  intro rest
  have hmembers : members (fieldNamed (ps.map (·.field))) ((ps.map (·.field)).map fun _ => none)
      (Datum.memberTokens true (ps.map Filled.member) ++ rest) = .ok (ps.map fun p => some p.value, rest) := by
    rw [List.map_map]
    exact (@Filled.steps _ [] ps hnames h).reads rest
  have hvalues : (List.zipWith (fun (f : Field α) x => x <|> f.fallback) (ps.map (·.field))
      (ps.map fun p => some p.value)).mapM id = some (ps.map (·.value)) := by
    clear hnames h hmembers
    induction ps with
    | nil => rfl
    | cons p ps ih =>
      rw [List.map_cons, List.map_cons, List.zipWith_cons_cons, List.mapM_cons, ih]
      rfl
  rw [Datum.tokens_object]
  unfold fields
  simp only [List.cons_append, peek_bind, drop_bind]
  rw [bind_of_ok hmembers]
  simp only [hvalues]
  rfl

end Decoder

end VeiledLedger.Json
