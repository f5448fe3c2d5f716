/-
  VeiledLedger.Proofs.Interchange — what members of a ledger write, they read.

  Every structure is written as an object with its fields in declared order, and each field is
  read by its own decoder. Digests and byte strings survive as hexadecimal digits, leaves by the
  word that tells their kind. Numbers survive if they fit a 64-bit word, so all but the numbers
  of a padding are read back without a condition.

  Main statements: `readDigests_text`, `readPadding_text`, `readView_text` and
  `Published.ofJson_text`.
-/

import VeiledLedger.Json.Text
import VeiledLedger.Interchange
import VeiledLedger.Proofs.Json.Reading

namespace VeiledLedger.Interchange

open Json Json.Decoder

/-! ## Digests and byte strings -/

theorem bytesOf?_encode (b : Bytes) : bytesOf? (Text.Hex.encode b) = some b := by
  rw [bytesOf?, Text.Hex.decode_encode]
  rfl

theorem reads_digest (d : Digest) : (meaning Digest.ofHex?).Reads (digest d).tokens d :=
  reads_meaning (Digest.ofHex?_hex d)

theorem reads_hex (b : Bytes) : (meaning bytesOf?).Reads (hex b).tokens b := reads_meaning (bytesOf?_encode b)

theorem reads_digests (l : List Digest) : readDigests.Reads (digests l).tokens l :=
  reads_array fun d _ => reads_digest d

/-! ## Structures of numbers -/

def Sound (p : Filled Part) : Prop := p.field.read.Reads p.datum.tokens p.value

theorem reads_structured {α : Type} (filled : List (Filled Part)) {build : List Part → Option α} {x : α}
    (hnames : (filled.map (·.field.name)).Nodup) (h : ∀ p ∈ filled, Sound p)
    (hbuild : build (filled.map (·.value)) = some x) :
    (structured (filled.map (·.field)) build).Reads (Datum.object (filled.map Filled.member)).tokens x := by
  intro rest
  unfold structured
  rw [bind_of_ok (reads_fields hnames h rest), hbuild]
  rfl

def filledNumber (name : String) (n : Nat) : Filled Part := ⟨numberField name, natural n, .number n⟩

theorem sound_number (name : String) (n : Nat) : Sound (filledNumber name n) := (reads_natural n).map Part.number

theorem reads_shape (s : Shape) : readShape.Reads (shape s).tokens s := by
  refine reads_structured [filledNumber "capacity" s.capacity, filledNumber "leaf_len" s.leafSize]
    (show ["capacity", "leaf_len"].Nodup by decide) ?_ rfl
  simp only [List.mem_cons, List.not_mem_nil, or_false, forall_eq_or_imp, forall_eq]
  exact ⟨sound_number _ _, sound_number _ _⟩

def filledShape (name : String) (s : Shape) : Filled Part := ⟨shapeField name, shape s, .shape s⟩

theorem sound_shape (name : String) (s : Shape) : Sound (filledShape name s) := (reads_shape s).map Part.shape

theorem reads_padding (p : Padding) : readPadding.Reads (padding p).tokens p := by
  refine reads_structured
    [filledNumber "inputs" p.inputs, filledShape "outputs" p.outputs, filledShape "commands" p.commands,
      filledNumber "attachments" p.attachments, filledNumber "signers" p.signers,
      filledNumber "references" p.references, filledNumber "utxo_leaf_len" p.utxoSize]
    (show ["inputs", "outputs", "commands", "attachments", "signers", "references", "utxo_leaf_len"].Nodup by decide)
    ?_ rfl
  simp only [List.mem_cons, List.not_mem_nil, or_false, forall_eq_or_imp, forall_eq]
  exact ⟨sound_number _ _, sound_shape _ _, sound_shape _ _, sound_number _ _, sound_number _ _, sound_number _ _,
    sound_number _ _⟩

/-! ## Views -/

theorem reads_kind (k : GroupKind) : readKind.Reads (Datum.string k.name).tokens k := by
  intro rest
  have hname : GroupKind.ofName? k.name = some k := by cases k <;> rfl
  exact reads_meaning hname rest

theorem leafMember_kind {word : String} {kind : LeafKind} (h : leafKind? word = some kind)
    (members : List (String × Datum)) :
    (leafMember "kind" (none, members)).Reads (.colon :: (Datum.string word).tokens) (some kind, members) := by
  intro rest
  have hcolon : expect .colon (.colon :: ((Datum.string word).tokens ++ rest)) =
      .ok ((), (Datum.string word).tokens ++ rest) := rfl
  unfold leafMember
  simp only [if_true, Option.isSome_none, Bool.false_eq_true, if_false, List.cons_append]
  rw [bind_of_ok hcolon, bind_of_ok (reads_meaning h rest)]
  rfl

theorem leafMember_string {name : String} (h : name ≠ "kind") (s : Option LeafKind × List (String × Datum))
    (content : String) :
    (leafMember name s).Reads (.colon :: (Datum.string content).tokens) (s.1, s.2 ++ [(name, .string content)]) := by
  intro rest
  have hcolon : expect .colon (.colon :: ((Datum.string content).tokens ++ rest)) =
      .ok ((), (Datum.string content).tokens ++ rest) := rfl
  unfold leafMember
  rw [if_neg h, List.cons_append, bind_of_ok hcolon, bind_of_ok (reads_datum_string leafRoom content rest)]
  rfl

/-- A leaf is an object whose first member tells its kind. -/
theorem reads_leaf_of_steps {members found : List (String × Datum)} {kind : LeafKind} {x : Leaf}
    (h : Steps leafMember members (none, []) (some kind, found)) (hx : leafOfMembers? kind found = some x) :
    readLeaf.Reads (Datum.object members).tokens x := by
  intro rest
  rw [Datum.tokens_object]
  unfold readLeaf
  simp only [List.cons_append, peek_bind, drop_bind]
  rw [bind_of_ok (h.reads rest)]
  simp only [hx]
  rfl

theorem reads_leaf (x : Leaf) : readLeaf.Reads (leaf x).tokens x := by
  cases x with
  | visible b nonce =>
    refine reads_leaf_of_steps (.cons (leafMember_kind rfl []) (.cons (leafMember_string (by decide) _ _)
      (.cons (leafMember_string (by decide) _ _) (.nil _)))) ?_
    show (do leafOfValues? .visible [.string (Text.Hex.encode b), .string nonce.hex]) = _
    simp [leafOfValues?, bytesOf?_encode]
  | hidden d =>
    refine reads_leaf_of_steps (.cons (leafMember_kind rfl []) (.cons (leafMember_string (by decide) _ _) (.nil _))) ?_
    show (do leafOfValues? .hidden [.string d.hex]) = _
    simp [leafOfValues?]

theorem reads_group (g : ViewGroup) : readGroup.Reads (group g).tokens g := by
  refine reads_structured
    [⟨{ name := "kind", read := Part.kind <$> readKind }, .string g.kind.name, .kind g.kind⟩,
      ⟨{ name := "leaves", read := Part.leaves <$> Decoder.array readLeaf }, .array (g.leaves.map leaf), .leaves g.leaves⟩]
    (show ["kind", "leaves"].Nodup by decide) ?_ rfl
  simp only [List.mem_cons, List.not_mem_nil, or_false, forall_eq_or_imp, forall_eq]
  exact ⟨(reads_kind g.kind).map Part.kind, (reads_array fun x _ => reads_leaf x).map Part.leaves⟩

theorem reads_view (v : View) : readView.Reads (view v).tokens v :=
  (reads_array fun g _ => reads_group g).map View.mk

theorem reads_published (p : Published) : readPublished.Reads (published p).tokens p := by
  refine reads_structured
    [⟨{ name := "id", read := Part.digest <$> Decoder.meaning Digest.ofHex? }, digest p.id, .digest p.id⟩,
      ⟨{ name := "proof", read := Part.bytes <$> Decoder.meaning bytesOf? }, hex p.proof, .bytes p.proof⟩,
      ⟨{ name := "padding", read := Part.padding <$> readPadding }, padding p.padding, .padding p.padding⟩,
      ⟨{ name := "groups", read := Part.view <$> readView }, view p.view, .view p.view⟩]
    (show ["id", "proof", "padding", "groups"].Nodup by decide) ?_ rfl
  simp only [List.mem_cons, List.not_mem_nil, or_false, forall_eq_or_imp, forall_eq]
  exact ⟨(reads_digest p.id).map Part.digest, (reads_hex p.proof).map Part.bytes,
    (reads_padding p.padding).map Part.padding, (reads_view p.view).map Part.view⟩

/-! ## Texts -/

theorem plain_digest (d : Digest) : (digest d).Plain := Datum.plain_string _

theorem plain_digests (l : List Digest) : (digests l).Plain := by
  refine Datum.plain_array fun d hd => ?_
  obtain ⟨x, -, rfl⟩ := List.mem_map.mp hd
  exact plain_digest x

theorem plain_leaf (x : Leaf) : (leaf x).Plain := by
  cases x with
  | visible b nonce =>
    refine Datum.plain_object ?_
    simp only [List.mem_cons, List.not_mem_nil, or_false, forall_eq_or_imp, forall_eq]
    exact ⟨Datum.plain_string _, Datum.plain_string _, plain_digest nonce⟩
  | hidden d =>
    refine Datum.plain_object ?_
    simp only [List.mem_cons, List.not_mem_nil, or_false, forall_eq_or_imp, forall_eq]
    exact ⟨Datum.plain_string _, plain_digest d⟩

theorem plain_view (v : View) : (view v).Plain := by
  refine Datum.plain_array fun d hd => ?_
  obtain ⟨g, -, rfl⟩ := List.mem_map.mp hd
  refine Datum.plain_object ?_
  simp only [List.mem_cons, List.not_mem_nil, or_false, forall_eq_or_imp, forall_eq]
  refine ⟨Datum.plain_string _, Datum.plain_array fun d hd => ?_⟩
  obtain ⟨x, -, rfl⟩ := List.mem_map.mp hd
  exact plain_leaf x

end VeiledLedger.Interchange

namespace VeiledLedger

def Padding.Words (p : Padding) : Prop :=
  p.inputs < 2 ^ 64 ∧ p.outputs.capacity < 2 ^ 64 ∧ p.outputs.leafSize < 2 ^ 64 ∧ p.commands.capacity < 2 ^ 64 ∧
    p.commands.leafSize < 2 ^ 64 ∧ p.attachments < 2 ^ 64 ∧ p.signers < 2 ^ 64 ∧ p.references < 2 ^ 64 ∧
    p.utxoSize < 2 ^ 64

instance (p : Padding) : Decidable p.Words := inferInstanceAs (Decidable (_ ∧ _))

namespace Interchange

open Json

theorem plain_padding {p : Padding} (h : p.Words) : (padding p).Plain := by
  obtain ⟨hinputs, houtputs, houtputSize, hcommands, hcommandSize, hattachments, hsigners, hreferences, hutxo⟩ := h
  have hshape {s : Shape} (hcapacity : s.capacity < 2 ^ 64) (hsize : s.leafSize < 2 ^ 64) : (shape s).Plain := by
    refine Datum.plain_object ?_
    simp only [List.mem_cons, List.not_mem_nil, or_false, forall_eq_or_imp, forall_eq]
    exact ⟨Datum.plain_natural hcapacity, Datum.plain_natural hsize⟩
  refine Datum.plain_object ?_
  simp only [List.mem_cons, List.not_mem_nil, or_false, forall_eq_or_imp, forall_eq]
  exact ⟨Datum.plain_natural hinputs, hshape houtputs houtputSize, hshape hcommands hcommandSize,
    Datum.plain_natural hattachments, Datum.plain_natural hsigners, Datum.plain_natural hreferences,
    Datum.plain_natural hutxo⟩

theorem readDigests_text (l : List Digest) : readDigests.all (digests l).text = .ok l :=
  (reads_digests l).all (plain_digests l)

theorem readView_text (v : View) : readView.all (view v).text = .ok v := (reads_view v).all (plain_view v)

theorem readPadding_text {p : Padding} (h : p.Words) : readPadding.all (padding p).text = .ok p :=
  (reads_padding p).all (plain_padding h)

theorem plain_published {p : Published} (h : p.padding.Words) : (published p).Plain := by
  refine Datum.plain_object ?_
  simp only [List.mem_cons, List.not_mem_nil, or_false, forall_eq_or_imp, forall_eq]
  exact ⟨plain_digest p.id, Datum.plain_string _, plain_padding h, plain_view p.view⟩

end Interchange

/-- A published transaction can be passed on as text. -/
theorem Published.ofJson_text {p : Published} (h : p.padding.Words) : ofJson (Interchange.published p).text = .ok p :=
  (Interchange.reads_published p).all (Interchange.plain_published h)

/-- Nor does it matter what follows the text. -/
theorem Published.leading_text {p : Published} (h : p.padding.Words) :
    Interchange.readPublished.leading (Interchange.published p).text = .ok p :=
  (Interchange.reads_published p).leading (Interchange.plain_published h)

end VeiledLedger
