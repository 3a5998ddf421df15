import MyClaw.Storage.Serde
import Mathlib.Logic.Equiv.List

set_option autoImplicit false

/-!
# A codec for concrete runs

`plainSerde` writes a message of one text part, whose role and text are printable ASCII
without quotes and backslashes, as the compact JSON that `serde_json` writes for it.  Every other
message, such as one with tool calls, gets a code of its own that is no JSON: a concrete run needs no
more of it than the laws of `Serde`, which hold for every message.

## Main definitions

* `PlainSerde.json` — the compact JSON of a plain text message.
* `plainSerde` — the codec.

## Main results

* `plainSerde_readLine_eq_none` — a line that ends in another byte than a record does is no
  message.
-/

namespace MyClaw

open Lines

namespace PlainSerde

/-! ## The JSON of a plain text message -/

/-- The double quote. -/
def quote : UInt8 := 0x22

/-- A printable ASCII character other than the quote and the backslash. -/
def PlainChar (c : Char) : Prop :=
  0x20 ≤ c.toNat ∧ c.toNat ≤ 0x7E ∧ c.toNat ≠ 0x22 ∧ c.toNat ≠ 0x5C

instance (c : Char) : Decidable (PlainChar c) := inferInstanceAs (Decidable (_ ∧ _ ∧ _ ∧ _))

/-- A text of such characters. -/
def PlainText (s : String) : Prop := ∀ c ∈ s.toList, PlainChar c

instance (s : String) : Decidable (PlainText s) :=
  inferInstanceAs (Decidable (∀ c ∈ s.toList, PlainChar c))

/-- The bytes of an ASCII text. -/
def ascii (s : String) : Bytes := s.toList.map fun c => UInt8.ofNat c.toNat

/-- The JSON up to the role, its opening quote included. -/
def head : Bytes :=
  [0x7B, 0x22, 0x72, 0x6F, 0x6C, 0x65, 0x22, 0x3A, 0x22]

/-- The JSON between the closing quote of the role and the text, its opening quote included. -/
def mid : Bytes :=
  [0x2C, 0x22, 0x70, 0x61, 0x72, 0x74, 0x73, 0x22, 0x3A, 0x5B, 0x7B, 0x22, 0x74, 0x79, 0x70,
    0x65, 0x22, 0x3A, 0x22, 0x74, 0x65, 0x78, 0x74, 0x22, 0x2C, 0x22, 0x74, 0x65, 0x78, 0x74,
    0x22, 0x3A, 0x22]

/-- The JSON after the closing quote of the text. -/
def tail : Bytes := [0x7D, 0x5D, 0x7D]

/-- The compact JSON of `ChatMessage::text(role, text)`. -/
def json (role text : String) : Bytes :=
  head ++ (ascii role ++ quote :: (mid ++ (ascii text ++ quote :: tail)))

/-- A byte of a printable ASCII character. -/
def Printable (b : UInt8) : Prop := 0x20 ≤ b.toNat ∧ b.toNat ≤ 0x7E

instance (b : UInt8) : Decidable (Printable b) := inferInstanceAs (Decidable (_ ∧ _))

lemma PlainChar.toNat_ofNat {c : Char} (h : PlainChar c) :
    (UInt8.ofNat c.toNat).toNat = c.toNat := by
  have := h.2.1
  simp only [UInt8.toNat_ofNat']
  omega

lemma PlainText.printable {s : String} (h : PlainText s) : ∀ b ∈ ascii s, Printable b := by
  intro b hb
  obtain ⟨c, hc, rfl⟩ := List.mem_map.1 hb
  have hn := (h c hc).toNat_ofNat
  rw [Printable, hn]
  exact ⟨(h c hc).1, (h c hc).2.1⟩

lemma PlainText.quote_notMem {s : String} (h : PlainText s) : quote ∉ ascii s := by
  intro hq
  obtain ⟨c, hc, hcq⟩ := List.mem_map.1 hq
  have hn := (h c hc).toNat_ofNat
  rw [hcq] at hn
  exact (h c hc).2.2.1 hn.symm

lemma printable_json {role text : String} (hr : PlainText role) (ht : PlainText text) :
    ∀ b ∈ json role text, Printable b := by
  have h₁ : ∀ b ∈ head, Printable b := by simp [head, Printable]
  have h₂ : ∀ b ∈ mid, Printable b := by simp [mid, Printable]
  have h₃ : ∀ b ∈ tail, Printable b := by simp [tail, Printable]
  have hq : Printable quote := by decide
  intro b hb
  simp only [json, List.mem_append, List.mem_cons] at hb
  rcases hb with hb | hb | rfl | hb | hb | rfl | hb
  · exact h₁ b hb
  · exact hr.printable b hb
  · exact hq
  · exact h₂ b hb
  · exact ht.printable b hb
  · exact hq
  · exact h₃ b hb

/-- Plain texts with the same bytes are equal. -/
lemma ascii_inj {s t : String} (hs : PlainText s) (ht : PlainText t) (h : ascii s = ascii t) :
    s = t := by
  have hn : s.toList.map Char.toNat = t.toList.map Char.toNat := by
    have hback : ∀ u : String, PlainText u →
        (ascii u).map UInt8.toNat = u.toList.map Char.toNat := by
      intro u hu
      rw [ascii, List.map_map]
      exact List.map_congr_left fun c hc => (hu c hc).toNat_ofNat
    rw [← hback s hs, ← hback t ht, h]
  have hinj : Function.Injective Char.toNat := fun _ _ hc => Char.toNat_inj.1 hc
  exact String.toList_injective (List.map_injective_iff.2 hinj hn)

/-- A byte string is cut at its first quote in one way only. -/
lemma append_quote_inj : ∀ {xs ys rs ss : Bytes}, quote ∉ xs → quote ∉ ys →
    xs ++ quote :: rs = ys ++ quote :: ss → xs = ys ∧ rs = ss
  | [], [], _, _, _, _, h => ⟨rfl, by simpa using h⟩
  | [], y :: ys, _, _, _, hy, h => by simp_all
  | x :: xs, [], _, _, hx, _, h => by simp_all
  | x :: xs, y :: ys, _, _, hx, hy, h => by
    simp only [List.cons_append, List.cons.injEq] at h
    obtain ⟨rfl, rfl⟩ := append_quote_inj (fun hm => hx (List.mem_cons_of_mem _ hm))
      (fun hm => hy (List.mem_cons_of_mem _ hm)) h.2
    exact ⟨by rw [h.1], rfl⟩

/-- The JSON of a plain text message determines its role and its text. -/
lemma json_inj {r r' t t' : String} (hr : PlainText r) (hr' : PlainText r')
    (ht : PlainText t) (ht' : PlainText t') (h : json r t = json r' t') :
    r = r' ∧ t = t' := by
  obtain ⟨h₁, h₂⟩ := append_quote_inj hr.quote_notMem hr'.quote_notMem
    (List.append_cancel_left h)
  obtain ⟨h₃, -⟩ := append_quote_inj ht.quote_notMem ht'.quote_notMem
    (List.append_cancel_left h₂)
  exact ⟨ascii_inj hr hr' h₁, ascii_inj ht ht' h₃⟩

/-! ## The other messages -/

instance countableString : Countable String :=
  have hchar : Function.Injective Char.toNat := fun _ _ h => Char.toNat_inj.1 h
  have : Countable Char := hchar.countable
  have hlist : Function.Injective String.toList := fun _ _ h => String.toList_injective h
  hlist.countable

/-- The fields of a content part. -/
def partFields : ContentPart →
    String ⊕ (String × Option String × Option String × Option Nat) ⊕ (String × Option String)
  | .text t => .inl t
  | .file p m n s => .inr (.inl (p, m, n, s))
  | .thinking t s => .inr (.inr (t, s))

instance : Countable ContentPart := by
  refine Function.Injective.countable (show Function.Injective partFields from ?_)
  intro p q h
  cases p <;> cases q <;> simp_all [partFields]

instance : Countable ToolCall := by
  refine Function.Injective.countable
    (show Function.Injective fun c : ToolCall => (c.id, c.name, c.arguments) from ?_)
  rintro ⟨⟩ ⟨⟩ h
  simp_all

instance : Countable ChatMessageUsage := by
  refine Function.Injective.countable (show Function.Injective fun u : ChatMessageUsage =>
    (u.provider, u.model, u.inputTokens, u.cachedInputTokens, u.outputTokens, u.reasoningTokens,
      u.cacheWriteTokens, u.stopReason) from ?_)
  rintro ⟨⟩ ⟨⟩ h
  simp_all

instance : Countable ChatMessage := by
  refine Function.Injective.countable (show Function.Injective fun m : ChatMessage =>
    (m.role, m.parts, m.name, m.toolCallId, m.toolCalls, m.isError, m.model, m.usage) from ?_)
  rintro ⟨⟩ ⟨⟩ h
  simp_all

/-- A number for each message. -/
noncomputable def index : ChatMessage → Nat := (exists_injective_nat ChatMessage).choose

lemma index_injective : Function.Injective index := (exists_injective_nat ChatMessage).choose_spec

/-! ## Writing -/

/-- The role and the text of a plain text message. -/
def plain? (m : ChatMessage) : Option (String × String) :=
  match m.parts with
  | [.text t] =>
    if m = ChatMessage.text m.role t ∧ PlainText m.role ∧ PlainText t then some (m.role, t)
    else none
  | _ => none

lemma plain?_eq_some {m : ChatMessage} {r t : String} (h : plain? m = some (r, t)) :
    m = ChatMessage.text r t ∧ PlainText r ∧ PlainText t := by
  unfold plain? at h
  split at h
  · split at h
    case isTrue hm =>
      simp only [Option.some.injEq, Prod.mk.injEq] at h
      obtain ⟨rfl, rfl⟩ := h
      exact hm
    case isFalse => simp at h
  · simp at h

/-- The mark that the other messages are written with. -/
def mark : UInt8 := 0x78

/-- The bytes written for a message. -/
noncomputable def write (m : ChatMessage) : Bytes :=
  match plain? m with
  | some (r, t) => json r t
  | none => List.replicate (index m + 1) mark

lemma printable_write (m : ChatMessage) : ∀ b ∈ write m, Printable b := by
  unfold write
  split
  case h_1 r t h => exact printable_json (plain?_eq_some h).2.1 (plain?_eq_some h).2.2
  case h_2 =>
    intro b hb
    rw [List.eq_of_mem_replicate hb]
    decide

/-- A record starts with an opening brace or with the mark. -/
lemma exists_write_eq_cons (m : ChatMessage) :
    ∃ bs, write m = 0x7B :: bs ∨ write m = mark :: bs := by
  unfold write
  split
  · exact ⟨_, .inl rfl⟩
  · exact ⟨_, .inr rfl⟩

/-- A record ends with a closing brace or with the mark. -/
lemma getLast?_write (m : ChatMessage) :
    (write m).getLast? = some 0x7D ∨ (write m).getLast? = some mark := by
  unfold write
  split
  case h_1 r t _ =>
    left
    have h : json r t = (head ++ (ascii r ++ quote :: (mid ++ (ascii t ++ [quote, 0x7D, 0x5D])))) ++
        [0x7D] := by simp [json, tail]
    rw [h, List.getLast?_concat]
  case h_2 =>
    right
    rw [List.replicate_succ', List.getLast?_concat]

lemma write_injective : Function.Injective write := by
  intro m n h
  cases hm : plain? m with
  | some p =>
    obtain ⟨rfl, hr, ht⟩ := plain?_eq_some (r := p.1) (t := p.2) hm
    cases hn : plain? n with
    | some q =>
      obtain ⟨rfl, hr', ht'⟩ := plain?_eq_some (r := q.1) (t := q.2) hn
      simp only [write, hm, hn] at h
      obtain ⟨hrr, htt⟩ := json_inj hr hr' ht ht' h
      rw [hrr, htt]
    | none =>
      simp only [write, hm, hn] at h
      simp [json, head, mark, List.replicate_succ] at h
  | none =>
    cases hn : plain? n with
    | some q =>
      simp only [write, hm, hn] at h
      simp [json, head, mark, List.replicate_succ] at h
    | none =>
      simp only [write, hm, hn, List.replicate_inj] at h
      exact index_injective (by omega)

/-! ## Reading -/

/-- A line that holds a record, with carriage returns after it. -/
def Holds (l : Bytes) (m : ChatMessage) : Prop := ∃ k, l = write m ++ List.replicate k cr

/-- A record does not end in a carriage return. -/
lemma getLast?_write_ne (m : ChatMessage) : (write m).getLast? ≠ some cr := by
  rcases getLast?_write m with h | h <;> rw [h] <;> decide

lemma Holds.unique {l : Bytes} {m n : ChatMessage} (hm : Holds l m) (hn : Holds l n) :
    m = n := by
  obtain ⟨j, rfl⟩ := hm
  obtain ⟨k, h⟩ := hn
  apply write_injective
  induction j generalizing k with
  | zero =>
    cases k with
    | zero => simpa using h
    | succ k =>
      have hl := congrArg List.getLast? h
      rw [List.replicate_succ', ← List.append_assoc, List.getLast?_concat] at hl
      simp only [List.replicate_zero, List.append_nil] at hl
      exact absurd hl (getLast?_write_ne m)
  | succ j ih =>
    cases k with
    | zero =>
      have hl := congrArg List.getLast? h
      rw [List.replicate_succ', ← List.append_assoc, List.getLast?_concat] at hl
      simp only [List.replicate_zero, List.append_nil] at hl
      exact absurd hl.symm (getLast?_write_ne n)
    | succ k =>
      rw [List.replicate_succ', List.replicate_succ', ← List.append_assoc, ← List.append_assoc] at h
      exact ih k (List.append_cancel_right h)

lemma holds_append_cr {l : Bytes} {m : ChatMessage} : Holds (l ++ [cr]) m ↔ Holds l m := by
  constructor
  · rintro ⟨k, h⟩
    cases k with
    | zero =>
      have hl := congrArg List.getLast? h
      rw [List.getLast?_concat] at hl
      simp only [List.replicate_zero, List.append_nil] at hl
      exact absurd hl.symm (getLast?_write_ne m)
    | succ k =>
      rw [List.replicate_succ', ← List.append_assoc] at h
      exact ⟨k, List.append_cancel_right h⟩
  · rintro ⟨k, rfl⟩
    exact ⟨k + 1, by rw [List.replicate_succ', List.append_assoc]⟩

open Classical in
/-- The message that a line holds. -/
noncomputable def read (l : Bytes) : Option ChatMessage :=
  if h : ∃ m, Holds l m then some h.choose else none

lemma read_eq_some {l : Bytes} {m : ChatMessage} : read l = some m ↔ Holds l m := by
  unfold read
  constructor
  · intro h
    split at h
    case isTrue hm =>
      simp only [Option.some.injEq] at h
      rw [← h]
      exact hm.choose_spec
    case isFalse => simp at h
  · intro h
    rw [dif_pos ⟨m, h⟩, Option.some.injEq]
    exact Holds.unique (Exists.choose_spec ⟨m, h⟩) h

lemma validUtf8_of_printable {bs : Bytes} (h : ∀ b ∈ bs, Printable b) : validUtf8 bs = true := by
  have hrun : utf8Run .start bs = .start := by
    induction bs with
    | nil => rfl
    | cons b bs ih =>
      have hb : b ≤ 0x7F := by
        have := (h b (by simp)).2
        rw [UInt8.le_iff_toNat_le]
        exact this.trans (by decide)
      have hnext : Utf8State.start.next b = .start := by simp [Utf8State.next, hb]
      rw [utf8Run, List.foldl_cons, hnext]
      exact ih fun c hc => h c (List.mem_cons_of_mem _ hc)
  simp [validUtf8, hrun]

end PlainSerde

open PlainSerde

/-- **A codec for concrete runs**: a plain text message is written as its compact JSON. -/
noncomputable def plainSerde : Serde where
  toString := PlainSerde.write
  fromStr := PlainSerde.read
  fromStr_toString m := read_eq_some.2 ⟨0, by simp⟩
  lf_notMem_toString m h := absurd (printable_write m lf h).1 (show ¬ 0x20 ≤ lf.toNat by decide)
  validUtf8_toString m := validUtf8_of_printable (printable_write m)
  fromStr_blank l h := by
    rw [Option.eq_none_iff_forall_ne_some]
    intro m hm
    obtain ⟨k, rfl⟩ := read_eq_some.1 hm
    obtain ⟨bs, hbs | hbs⟩ := exists_write_eq_cons m
    · rw [hbs] at h
      exact absurd h (by simp [trimIsEmpty])
    · rw [hbs] at h
      exact absurd h (by simp [trimIsEmpty, mark])
  fromStr_cr l := by
    ext m
    rw [read_eq_some, read_eq_some, holds_append_cr]

/-- A line whose last byte ends no record is no message. -/
theorem plainSerde_readLine_eq_none {l : Bytes} {b : UInt8} (hl : l.getLast? = some b)
    (hb : b ≠ cr ∧ b ≠ 0x7D ∧ b ≠ mark) : plainSerde.readLine l = none := by
  have hread : PlainSerde.read l = none := by
    rw [Option.eq_none_iff_forall_ne_some]
    intro m hm
    obtain ⟨k, rfl⟩ := read_eq_some.1 hm
    cases k with
    | zero =>
      rw [List.replicate_zero, List.append_nil] at hl
      rcases getLast?_write m with h | h <;> rw [h, Option.some.injEq] at hl
      · exact hb.2.1 hl.symm
      · exact hb.2.2 hl.symm
    | succ k =>
      rw [List.replicate_succ', ← List.append_assoc, List.getLast?_concat,
        Option.some.injEq] at hl
      exact hb.1 hl.symm
  rw [Serde.readLine_eq]
  split
  · exact hread
  · rfl

end MyClaw
