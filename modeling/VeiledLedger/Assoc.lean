/-
  VeiledLedger.Assoc — finite maps as lists of pairs.

  The lists are short, and a key stands in them at most once when they are built by `set` and
  `erase`. The view of a map is `get?`; the lemmas say what each operation does to it.
-/

namespace VeiledLedger

/-- Keys and what stands under them. -/
abbrev Assoc (α β : Type) := List (α × β)

namespace Assoc

variable {α β : Type} [DecidableEq α]

def get? (m : Assoc α β) (a : α) : Option β := (m.find? (fun e => e.1 = a)).map (·.2)

def erase (m : Assoc α β) (a : α) : Assoc α β := m.filter (fun e => e.1 ≠ a)

def set (m : Assoc α β) (a : α) (b : β) : Assoc α β := (a, b) :: m.erase a

@[simp] theorem get?_nil (a : α) : get? ([] : Assoc α β) a = none := rfl

theorem get?_cons (e : α × β) (m : Assoc α β) (a : α) :
    get? (e :: m) a = if e.1 = a then some e.2 else get? m a := by
  unfold get?
  rw [List.find?_cons]
  by_cases h : e.1 = a <;> simp [h]

theorem get?_erase (m : Assoc α β) (a x : α) : (m.erase a).get? x = if x = a then none else m.get? x := by
  induction m with
  | nil => simp [erase]
  | cons e m ih =>
    simp only [erase, List.filter_cons] at ih ⊢
    by_cases h : e.1 = a
    · simp only [h, ne_eq, not_true_eq_false, decide_false, Bool.false_eq_true, if_false, ih, get?_cons]
      by_cases hx : x = a
      · simp [hx]
      · have : ¬a = x := fun e => hx e.symm
        simp [hx, this]
    · simp only [ne_eq, h, not_false_eq_true, decide_true, if_true, get?_cons, ih]
      by_cases hx : e.1 = x
      · have : ¬x = a := fun e' => h (hx.trans e')
        simp [hx, this]
      · simp [hx]

theorem get?_set (m : Assoc α β) (a : α) (b : β) (x : α) :
    (m.set a b).get? x = if x = a then some b else m.get? x := by
  rw [set, get?_cons, get?_erase]
  by_cases h : x = a
  · simp [h]
  · have : ¬a = x := fun e => h e.symm
    simp [h, this]

theorem mem_of_get? {m : Assoc α β} {a : α} {b : β} (h : m.get? a = some b) : (a, b) ∈ m := by
  obtain ⟨e, he, rfl⟩ := Option.map_eq_some_iff.mp h
  have hkey : e.1 = a := by simpa using List.find?_some he
  rw [← hkey]
  exact List.mem_of_find?_eq_some he

theorem exists_get?_of_mem {m : Assoc α β} {a : α} {b : β} (hmem : (a, b) ∈ m) : ∃ b', m.get? a = some b' := by
  cases h : m.get? a with
  | some b' => exact ⟨b', rfl⟩
  | none =>
    have hnone := List.find?_eq_none.mp (Option.map_eq_none_iff.mp h) (a, b) hmem
    simp at hnone

/-- What stands under a key is found there if nothing else does. -/
theorem get?_of_mem {m : Assoc α β} {a : α} {b : β} (hmem : (a, b) ∈ m) (huniq : ∀ b', (a, b') ∈ m → b' = b) :
    m.get? a = some b := by
  obtain ⟨b', hb'⟩ := exists_get?_of_mem hmem
  rw [hb', huniq b' (mem_of_get? hb')]

/-! ## Each key stands in a map once -/

def keys (m : Assoc α β) : List α := m.map (·.1)

theorem nodup_erase {m : Assoc α β} (h : m.keys.Nodup) (a : α) : (m.erase a).keys.Nodup :=
  (List.filter_sublist.map _).nodup h

theorem nodup_set {m : Assoc α β} (h : m.keys.Nodup) (a : α) (b : β) : (m.set a b).keys.Nodup := by
  refine List.nodup_cons.mpr ⟨fun hmem => ?_, nodup_erase h a⟩
  obtain ⟨e, he, hkey⟩ := List.mem_map.mp hmem
  have hne := (List.mem_filter.mp he).2
  simp [hkey] at hne

theorem mem_keys_of_get? {m : Assoc α β} {a : α} {b : β} (h : m.get? a = some b) : a ∈ m.keys :=
  List.mem_map_of_mem (mem_of_get? h)

omit [DecidableEq α] in
@[simp] theorem length_keys (m : Assoc α β) : m.keys.length = m.length := List.length_map _

end Assoc

end VeiledLedger
