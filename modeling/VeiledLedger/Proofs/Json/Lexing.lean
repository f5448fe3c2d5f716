/-
  VeiledLedger.Proofs.Json.Lexing — a written text is cut into the tokens it was written from.

  A lexeme is found again in front of whatever follows it, except that a number goes on as long
  as digits, a point or an exponent do. In the text of a value no two numbers are neighbours,
  so the text is cut exactly where one lexeme ends and the next begins.

  Main statement: `tokens_text`.
-/

import Mathlib.Data.List.Chain
import VeiledLedger.Json.Text

namespace VeiledLedger.Json

/-! ## Strings -/

theorem characters?_unit {n : Nat} (h : n < 0xD800) (ps : List Piece) :
    characters? (.unit n :: ps) = (characters? ps).map (Char.ofNat n :: ·) := by
  have hhigh : isHighUnit n = false := by
    unfold isHighUnit
    exact decide_eq_false (by omega)
  have hlow : isLowUnit n = false := by
    unfold isLowUnit
    exact decide_eq_false (by omega)
  cases ps with
  | nil => simp [characters?, hhigh, hlow]
  | cons p ps => cases p <;> simp [characters?, hhigh, hlow]

def pieceOf (c : Char) : Piece :=
  match shortEscape? c with
  | some _ => .char c
  | none => if c.toNat < 32 then .unit c.toNat else .char c

theorem characters?_pieceOf (c : Char) (ps : List Piece) :
    characters? (pieceOf c :: ps) = (characters? ps).map (c :: ·) := by
  unfold pieceOf
  split
  · rfl
  · split
    · rw [characters?_unit (by omega), Char.ofNat_toNat]
    · rfl

theorem hexDigit?_digitChar : ∀ n < 16, hexDigit? (Nat.digitChar n) = some n := by decide

theorem escaped?_of_shortEscape? {c letter : Char} (h : shortEscape? c = some letter) :
    escaped? letter = some c ∧ letter ≠ 'u' := by
  unfold shortEscape? at h
  split at h <;> cases h <;> decide

theorem pieces?_escape (c : Char) (cs : List Char) :
    pieces? (escape c ++ cs) = (pieces? cs).map fun (ps, rest) => (pieceOf c :: ps, rest) := by
  cases hshort : shortEscape? c with
  | some letter =>
    obtain ⟨hback, hnot⟩ := escaped?_of_shortEscape? hshort
    simp only [escape, pieceOf, hshort, List.cons_append, List.nil_append]
    rw [pieces?.eq_3 letter cs fun _ _ _ _ _ hu => absurd hu hnot, hback]
    cases pieces? cs <;> rfl
  | none =>
    simp only [escape, pieceOf, hshort]
    split
    · have hunit : unit? '0' '0' (Nat.digitChar (c.toNat / 16)) (Nat.digitChar (c.toNat % 16)) = some c.toNat := by
        have hzero : hexDigit? '0' = some 0 := rfl
        simp only [unit?, hzero, hexDigit?_digitChar _ (show c.toNat / 16 < 16 by omega),
          hexDigit?_digitChar _ (show c.toNat % 16 < 16 by omega)]
        exact congrArg some (by omega)
      simp only [List.cons_append, List.nil_append]
      rw [pieces?.eq_2, hunit]
      cases pieces? cs <;> rfl
    · rename_i hplain
      have hquote : c ≠ '"' := fun h => by subst h; cases hshort
      have hback : c ≠ '\\' := fun h => by subst h; cases hshort
      simp only [List.cons_append, List.nil_append]
      rw [pieces?.eq_4 c cs hquote (fun _ _ _ _ _ h => absurd h hback) fun _ _ h => absurd h hback, if_neg hplain]
      cases pieces? cs <;> rfl

theorem stringRest_escape (s rest : List Char) :
    stringRest (s.flatMap escape ++ '"' :: rest) = some (some (String.ofList s), rest) := by
  have hpieces : pieces? (s.flatMap escape ++ '"' :: rest) = some (s.map pieceOf, rest) := by
    induction s with
    | nil => rfl
    | cons c s ih =>
      rw [List.flatMap_cons, List.append_assoc, pieces?_escape, ih]
      rfl
  have hcharacters : characters? (s.map pieceOf) = some s := by
    clear hpieces
    induction s with
    | nil => rfl
    | cons c s ih =>
      rw [List.map_cons, characters?_pieceOf, ih]
      rfl
  unfold stringRest
  rw [hpieces, Option.map_some]
  simp only [hcharacters, Option.map_some]

/-! ## Numbers -/

/-- What may stand behind a number: nothing that would make it longer. -/
def EndsNumber (cs : List Char) : Prop := ∀ c, cs.head? = some c → c.isDigit = false ∧ c ≠ '.' ∧ c ≠ 'e' ∧ c ≠ 'E'

theorem le_ofDigitChars (ds : List Char) (m : Nat) : m ≤ Nat.ofDigitChars 10 ds m := by
  induction ds generalizing m with
  | nil => exact Nat.le_refl m
  | cons d ds ih =>
    rw [Nat.ofDigitChars_cons]
    exact Nat.le_trans (by omega) (ih _)

theorem absorb_eq {m : Nat} {ds : List Char} (h : Nat.ofDigitChars 10 ds m < 2 ^ 64) :
    Scaled.absorb m ds = (Nat.ofDigitChars 10 ds m, []) := by
  induction ds generalizing m with
  | nil => rfl
  | cons d ds ih =>
    rw [Nat.ofDigitChars_cons] at h ⊢
    have hnext : 10 * m + Scaled.digitValue d < 2 ^ 64 := Nat.lt_of_le_of_lt (le_ofDigitChars ds _) h
    unfold Scaled.absorb
    rw [if_pos hnext]
    exact ih h

/-- Only zero begins with a zero. -/
theorem head?_toDigits {n : Nat} (h : (Nat.toDigits 10 n).head? = some '0') : n = 0 := by
  induction n using Nat.strongRecOn with
  | ind n ih =>
    rw [Nat.toDigits_eq_if (by decide)] at h
    split at h
    · rename_i hlt
      have hall : ∀ k < 10, Nat.digitChar k = '0' → k = 0 := by decide
      exact hall n hlt (Option.some.inj h)
    · rename_i hge
      obtain ⟨d, ds, hds⟩ := List.exists_cons_of_ne_nil (Nat.toDigits_ne_nil (b := 10) (n := n / 10))
      have hzero := ih (n / 10) (by omega) (by rw [hds] at h ⊢; exact h)
      omega

theorem digits?_append {ds rest : List Char} (hds : ∀ c ∈ ds, c.isDigit) (hne : ds ≠ []) (hrest : EndsNumber rest) :
    digits? (ds ++ rest) = some (ds, rest) := by
  have hstop : rest.takeWhile Char.isDigit = [] ∧ rest.dropWhile Char.isDigit = rest := by
    cases rest with
    | nil => exact ⟨rfl, rfl⟩
    | cons c cs =>
      have hc := (hrest c rfl).1
      simp [hc]
  unfold digits?
  rw [List.takeWhile_append_of_pos hds, List.dropWhile_append_of_pos hds, hstop.1, hstop.2, List.append_nil]
  simp only [if_neg hne]

theorem fraction?_of_ends {rest : List Char} (hrest : EndsNumber rest) : fraction? rest = some ([], rest) := by
  unfold fraction?
  split
  · exact absurd rfl (hrest '.' rfl).2.1
  · rfl

theorem exponent?_of_ends {rest : List Char} (hrest : EndsNumber rest) : exponent? rest = some (none, rest) := by
  cases rest with
  | nil => rfl
  | cons c cs =>
    obtain ⟨-, -, he, hE⟩ := hrest c rfl
    simp only [exponent?, he, hE, or_self, if_false]

theorem number?_toDigits {n : Nat} (h : n < 2 ^ 64) {rest : List Char} (hrest : EndsNumber rest) :
    number? (Nat.toDigits 10 n ++ rest) = some (.natural n, rest) := by
  have hdigits : ∀ c ∈ Nat.toDigits 10 n, c.isDigit := fun c => Nat.isDigit_of_mem_toDigits (by decide) (by decide)
  have hvalue : Nat.ofDigitChars 10 (Nat.toDigits 10 n) 0 = n := Nat.ofDigitChars_toDigits (by decide) (by decide)
  have hsign : ∀ cs, Nat.toDigits 10 n ++ rest ≠ '-' :: cs := by
    intro cs he
    obtain ⟨d, ds, hds⟩ := List.exists_cons_of_ne_nil (Nat.toDigits_ne_nil (b := 10) (n := n))
    rw [hds] at he hdigits
    cases he
    exact absurd (hdigits '-' List.mem_cons_self) (by decide)
  have hwhole : wholePart? (Nat.toDigits 10 n ++ rest) = some (Nat.toDigits 10 n, rest) := by
    unfold wholePart?
    rw [digits?_append hdigits Nat.toDigits_ne_nil hrest]
    dsimp only
    rw [if_neg]
    rintro ⟨hhead, hlong⟩
    rw [head?_toDigits hhead] at hlong
    exact hlong rfl
  have hclass : classify false (Nat.toDigits 10 n) [] none = .natural n := by
    unfold classify
    rw [absorb_eq (by rw [hvalue]; exact h), hvalue]
  unfold number?
  split
  rename_i negative cs hcs
  split at hcs
  · rename_i he
    exact absurd he (hsign _)
  · cases hcs
    simp only [hwhole, fraction?_of_ends hrest, exponent?_of_ends hrest, Option.bind_eq_bind, Option.bind_some, hclass]
    rfl

/-! ## Lexemes -/

namespace Lexeme

def Plain : Lexeme → Prop
  | integer n => 0 ≤ n ∧ n < 2 ^ 64
  | number => False
  | _ => True

def isNumber : Lexeme → Bool
  | integer _ | number => true
  | _ => false

def token : Lexeme → Token
  | openArray => .openArray
  | closeArray => .closeArray
  | openObject => .openObject
  | closeObject => .closeObject
  | comma => .comma
  | colon => .colon
  | null => .null
  | bool b => .bool b
  | integer n => .number (.natural n.toNat)
  | number => .number .other
  | string s => .string (some s)

theorem token?_digit {c : Char} (h : c.isDigit) (cs : List Char) :
    token? (c :: cs) = (number? (c :: cs)).map fun (n, rest) => (.number n, rest) := by
  unfold token?
  split <;> first | rfl | (rename_i he; cases he; exact absurd h (by decide))

theorem token?_chars {l : Lexeme} (h : l.Plain) {rest : List Char} (hrest : l.isNumber → EndsNumber rest) :
    token? (l.chars ++ rest) = some (l.token, rest) := by
  cases l with
  | number => cases h
  | integer n =>
    obtain ⟨n, rfl⟩ := Int.eq_ofNat_of_zero_le h.1
    have hn : n < 2 ^ 64 := by exact_mod_cast h.2
    obtain ⟨d, ds, hds⟩ := List.exists_cons_of_ne_nil (Nat.toDigits_ne_nil (b := 10) (n := n))
    have hd : d.isDigit :=
      Nat.isDigit_of_mem_toDigits (b := 10) (n := n) (by decide) (by decide) (by rw [hds]; exact List.mem_cons_self)
    show token? (Nat.toDigits 10 n ++ rest) = _
    rw [hds, List.cons_append, token?_digit hd, ← List.cons_append, ← hds, number?_toDigits hn (hrest rfl)]
    rfl
  | string s =>
    show (stringRest (s.toList.flatMap escape ++ ['"'] ++ rest)).map _ = _
    rw [List.append_assoc, List.singleton_append, stringRest_escape, String.ofList_toList]
    rfl
  | bool b => cases b <;> rfl
  | _ => rfl

theorem exists_chars (l : Lexeme) : ∃ c cs, l.chars = c :: cs ∧ isBlank c = false := by
  have hdigits (n : Nat) : ∃ c cs, Nat.toDigits 10 n = c :: cs ∧ isBlank c = false := by
    obtain ⟨d, ds, hds⟩ := List.exists_cons_of_ne_nil (Nat.toDigits_ne_nil (b := 10) (n := n))
    have hd : d.isDigit :=
      Nat.isDigit_of_mem_toDigits (b := 10) (n := n) (by decide) (by decide) (by rw [hds]; exact List.mem_cons_self)
    refine ⟨d, ds, hds, Bool.eq_false_iff.mpr fun hblank => ?_⟩
    rcases of_decide_eq_true hblank with rfl | rfl | rfl | rfl <;> exact absurd hd (by decide)
  cases l with
  | bool b => cases b <;> exact ⟨_, _, rfl, rfl⟩
  | integer n =>
    cases n with
    | ofNat n => exact hdigits n
    | negSucc n => exact ⟨_, _, rfl, rfl⟩
  | _ => exact ⟨_, _, rfl, rfl⟩

theorem endsNumber_chars {l : Lexeme} (h : l.isNumber = false) (rest : List Char) : EndsNumber (l.chars ++ rest) := by
  intro c hc
  cases l with
  | bool b => cases b <;> cases hc <;> decide
  | integer n => cases h
  | number => cases h
  | _ => cases hc; decide

/-- No two numbers are neighbours. -/
def Apart (ls : List Lexeme) : Prop := ls.IsChain fun a b => a.isNumber → b.isNumber = false

theorem tokensFrom_chars {ls : List Lexeme} (hplain : ∀ l ∈ ls, l.Plain) (hapart : Apart ls) {fuel : Nat}
    (hfuel : ls.length ≤ fuel) : tokensFrom fuel (ls.flatMap chars) = ls.map token := by
  induction ls generalizing fuel with
  | nil => cases fuel <;> rfl
  | cons l ls ih =>
    obtain ⟨fuel, rfl⟩ : ∃ k, fuel = k + 1 := ⟨fuel - 1, by simp only [List.length_cons] at hfuel; omega⟩
    obtain ⟨c, cs, hcs, hblank⟩ := l.exists_chars
    have hends : l.isNumber → EndsNumber (ls.flatMap chars) := by
      intro hnumber
      cases ls with
      | nil => intro _ hc; cases hc
      | cons l' ls => exact endsNumber_chars ((List.isChain_cons_cons.mp hapart).1 hnumber) _
    have htoken := token?_chars (hplain l List.mem_cons_self) hends
    have htail := ih (fun x hx => hplain x (List.mem_cons_of_mem _ hx)) hapart.tail
      (Nat.le_of_succ_le_succ hfuel)
    rw [List.flatMap_cons, List.map_cons, ← htail]
    rw [hcs, List.cons_append] at htoken ⊢
    rw [tokensFrom, List.dropWhile_cons_of_neg (by simp [hblank])]
    simp only [htoken]

theorem length_le_chars (ls : List Lexeme) : ls.length ≤ (ls.flatMap chars).length := by
  induction ls with
  | nil => exact Nat.le_refl 0
  | cons l ls ih =>
    obtain ⟨c, cs, hcs, -⟩ := l.exists_chars
    rw [List.flatMap_cons, hcs, List.length_append, List.length_cons, List.length_cons]
    omega

/-! ## Values -/

theorem apart_cons {l : Lexeme} (hl : l.isNumber = false) {ls : List Lexeme} (h : Apart ls) : Apart (l :: ls) := by
  refine List.isChain_cons.mpr ⟨fun _ _ hnumber => ?_, h⟩
  rw [hl] at hnumber
  cases hnumber

/-- What is no number may stand behind anything. -/
theorem apart_append {first rest : List Lexeme} {l : Lexeme} (hl : l.isNumber = false) (h : Apart first)
    (hrest : Apart (l :: rest)) : Apart (first ++ l :: rest) := by
  refine List.isChain_append.mpr ⟨h, hrest, ?_⟩
  rintro a - b hb -
  cases hb
  exact hl

theorem apart_joined {items : List (List Lexeme)} (h : ∀ x ∈ items, Apart x) : Apart (joined items) := by
  induction items with
  | nil => exact .nil
  | cons x xs ih =>
    cases xs with
    | nil => exact h x (List.mem_singleton_self x)
    | cons y ys =>
      have htail : Apart (joined (y :: ys)) := ih fun z hz => h z (List.mem_cons_of_mem _ hz)
      show Apart (x ++ comma :: joined (y :: ys))
      exact apart_append rfl (h x List.mem_cons_self) (apart_cons rfl htail)

theorem plain_joined {items : List (List Lexeme)} (h : ∀ x ∈ items, ∀ l ∈ x, l.Plain) : ∀ l ∈ joined items, l.Plain := by
  induction items with
  | nil => intro l hl; cases hl
  | cons x xs ih =>
    cases xs with
    | nil => exact h x (List.mem_singleton_self x)
    | cons y ys =>
      intro l hl
      rcases List.mem_append.mp hl with hl | hl
      · exact h x List.mem_cons_self l hl
      · rcases List.mem_cons.mp hl with rfl | hl
        · trivial
        · exact ih (fun z hz => h z (List.mem_cons_of_mem _ hz)) l hl

theorem plain_enclosed {first last : Lexeme} {ls : List Lexeme} (hfirst : first.Plain) (hlast : last.Plain)
    (h : ∀ l ∈ ls, l.Plain) : ∀ l ∈ first :: (ls ++ [last]), l.Plain := by
  intro l hl
  rcases List.mem_cons.mp hl with rfl | hl
  · exact hfirst
  · rcases List.mem_append.mp hl with hl | hl
    · exact h l hl
    · cases List.mem_singleton.mp hl
      exact hlast

/-- Brackets around. -/
theorem apart_enclosed {first last : Lexeme} {ls : List Lexeme} (hfirst : first.isNumber = false)
    (hlast : last.isNumber = false) (h : Apart ls) : Apart (first :: (ls ++ [last])) :=
  apart_cons hfirst (apart_append hlast h (.singleton last))

end Lexeme

namespace Datum

mutual

theorem apart_lexemes : (d : Datum) → Lexeme.Apart d.lexemes
  | .null | .bool _ | .integer _ | .number | .string _ => .singleton _
  | .array items => Lexeme.apart_enclosed rfl rfl (Lexeme.apart_joined (apart_itemLexemes items))
  | .object members => Lexeme.apart_enclosed rfl rfl (Lexeme.apart_joined (apart_memberLexemes members))

theorem apart_itemLexemes : (items : List Datum) → ∀ x ∈ itemLexemes items, Lexeme.Apart x
  | [] => by simp [itemLexemes]
  | d :: ds => by
    intro x hx
    rcases List.mem_cons.mp hx with rfl | hx
    · exact apart_lexemes d
    · exact apart_itemLexemes ds x hx

theorem apart_memberLexemes : (members : List (String × Datum)) → ∀ x ∈ memberLexemes members, Lexeme.Apart x
  | [] => by simp [memberLexemes]
  | (name, d) :: ms => by
    intro x hx
    rcases List.mem_cons.mp hx with rfl | hx
    · exact Lexeme.apart_cons rfl (Lexeme.apart_cons rfl (apart_lexemes d))
    · exact apart_memberLexemes ms x hx

end

def Plain (d : Datum) : Prop := ∀ l ∈ d.lexemes, l.Plain

theorem plain_string (s : String) : (string s).Plain := by
  intro l hl
  cases List.mem_singleton.mp hl
  trivial

theorem plain_natural {n : Nat} (h : n < 2 ^ 64) : (integer n).Plain := by
  intro l hl
  cases List.mem_singleton.mp hl
  exact ⟨Int.natCast_nonneg n, by exact_mod_cast h⟩

theorem plain_array {ds : List Datum} (h : ∀ d ∈ ds, d.Plain) : (array ds).Plain := by
  have hitems : ∀ x ∈ itemLexemes ds, ∀ l ∈ x, l.Plain := by
    induction ds with
    | nil => intro x hx; cases hx
    | cons d ds ih =>
      intro x hx
      rcases List.mem_cons.mp hx with rfl | hx
      · exact h d List.mem_cons_self
      · exact ih (fun e he => h e (List.mem_cons_of_mem _ he)) x hx
  exact Lexeme.plain_enclosed trivial trivial (Lexeme.plain_joined hitems)

theorem plain_object {ms : List (String × Datum)} (h : ∀ m ∈ ms, m.2.Plain) : (object ms).Plain := by
  have hmembers : ∀ x ∈ memberLexemes ms, ∀ l ∈ x, l.Plain := by
    induction ms with
    | nil => intro x hx; cases hx
    | cons m ms ih =>
      intro x hx l hl
      rcases List.mem_cons.mp hx with rfl | hx
      · rcases List.mem_cons.mp hl with rfl | hl
        · trivial
        · rcases List.mem_cons.mp hl with rfl | hl
          · trivial
          · exact h m List.mem_cons_self l hl
      · exact ih (fun e he => h e (List.mem_cons_of_mem _ he)) x hx l hl
  exact Lexeme.plain_enclosed trivial trivial (Lexeme.plain_joined hmembers)

def tokens (d : Datum) : List Token := d.lexemes.map Lexeme.token

theorem tokens_text {d : Datum} (h : d.Plain) : Json.tokens d.text = d.tokens := by
  unfold Json.tokens text tokens
  rw [String.toList_ofList, String.length_ofList]
  exact Lexeme.tokensFrom_chars h d.apart_lexemes (Nat.le_succ_of_le (Lexeme.length_le_chars _))

end Datum

end VeiledLedger.Json
