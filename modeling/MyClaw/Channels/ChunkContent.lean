import MyClaw.Channels.Turns

set_option autoImplicit false

/-!
# The chunks of a message have its text

The parts of the chunks that come from the message are, in order and without white space, the message;
the other parts are lines that open and close blocks of code, heads of tables and inline markers
(`channels/message/chunking.rs`).

## Main definitions

* `Piece.Wrapped` — what a chunk adds to the text of the message.
* `Piece.withoutBlocks` — a chunk without what it adds for blocks of code and tables.

## Main results

* `splitMessagePieces_conserves` — nothing visible is lost, repeated or moved, and the splitter
  ends on every message that does not lead it to a search without end.
* `splitMessagePieces_ends_iff` — the splitter ends exactly on these messages.
* `splitMessagePieces_inline_markers` — a message whose chunks repeat its markers.
-/

namespace MyClaw

variable {limit : ℕ} {unit : LenUnit} {st : SplitState}

/-- Around the text of the message, a chunk has a line that opens a block of code or the head of a
table, inline markers, and a line that closes a block of code. -/
structure Piece.Wrapped (p : Piece) : Prop where
  block : p.blockPrefix = [] ∨ (∃ fc : FenceCarry, p.blockPrefix = fc.openLine) ∨
    ∃ chunk rest, openTableHeader chunk rest = some p.blockPrefix
  reopen : ∃ markers, p.inlineReopen = markerTokens markers
  close : ∃ markers, p.inlineClose = markerTokens markers
  suffix : p.closeSuffix = [] ∨ ∃ fc : FenceCarry, p.closeSuffix = fc.closeSuffix

/-- The chunk without what it adds for blocks of code and tables. -/
def Piece.withoutBlocks (p : Piece) : List Char := p.inlineReopen ++ p.body ++ p.inlineClose

lemma SplitState.Sound.blockPrefix (hst : st.Sound) :
    st.blockPrefix = [] ∨ (∃ fc : FenceCarry, st.blockPrefix = fc.openLine) ∨
      ∃ chunk rest, openTableHeader chunk rest = some st.blockPrefix := by
  unfold SplitState.blockPrefix
  split
  · next fc _ => exact Or.inr (Or.inl ⟨fc, rfl⟩)
  · cases htable : st.tableCarry with
    | none => exact Or.inl rfl
    | some header => exact Or.inr (Or.inr (hst.table header htable))

/-- A turn adds nothing else to the text. -/
lemma TurnResult.wrapped {piece : Piece} {next : Option SplitState} (hst : st.Sound)
    (h : TurnResult limit unit st piece next) : piece.Wrapped := by
  have hblock := hst.blockPrefix
  have hreopen : ∃ markers, st.inlineReopen = markerTokens markers := ⟨_, rfl⟩
  cases h with
  | last => exact ⟨hblock, hreopen, ⟨[], rfl⟩, Or.inl rfl⟩
  | lastClosed fc => exact ⟨hblock, hreopen, ⟨[], rfl⟩, Or.inr ⟨fc, rfl⟩⟩
  | overflow fc split => exact ⟨hblock, hreopen, ⟨[], rfl⟩, Or.inr ⟨_, rfl⟩⟩
  | cut split =>
    unfold cutPiece
    dsimp only
    split
    · next fc _ => exact ⟨hblock, hreopen, ⟨[], rfl⟩, Or.inr ⟨fc, rfl⟩⟩
    · exact ⟨hblock, hreopen, ⟨_, rfl⟩, Or.inl rfl⟩

/-! ## The whole message -/

/-- The text of a message that is not split is in its one chunk. -/
lemma wholeMessage_visible {message : List Char} {piece : Piece}
    (h : wholeMessage message limit unit = some piece) :
    visible piece.body = visible message ∧ piece.Wrapped := by
  unfold wholeMessage at h
  split at h
  · split at h
    · next fc _ =>
      split at h
      · cases h
        exact ⟨visible_trimEnd message, Or.inl rfl, ⟨[], rfl⟩, ⟨[], rfl⟩, Or.inr ⟨fc, rfl⟩⟩
      · cases h
    · cases h
      exact ⟨rfl, Or.inl rfl, ⟨[], rfl⟩, ⟨[], rfl⟩, Or.inl rfl⟩
  · cases h

/-- The chunks of the loop have the text that remains. -/
lemma splitLoop_visible {fuel : ℕ} {pieces : List Piece}
    (h : splitLoop limit unit fuel st = some pieces) :
    (pieces.flatMap fun p => visible p.body) = visible st.remaining := by
  refine Loop.flatMap_output (fun st => visible st.remaining) (fun p => visible p.body)
    (fun st hdone => ?_) (fun st f p hgo hturn => ?_) (fun st f p next hgo hturn => ?_) h
  · have hnil : st.remaining = [] := List.isEmpty_iff.1 hdone
    rw [hnil]
    rfl
  · have hvisible := (turnResult_of_turn (SplitState.ne_nil_of_done hgo) hturn).visible_eq
    exact hvisible.trans (List.append_nil _)
  · exact (turnResult_of_turn (SplitState.ne_nil_of_done hgo) hturn).visible_eq

lemma splitLoop_wrapped {fuel : ℕ} {pieces : List Piece} (hst : st.Sound) (hgo : st.done = false)
    (h : splitLoop limit unit fuel st = some pieces) : ∀ p ∈ pieces, p.Wrapped := by
  refine (Loop.forall_output_iff SplitState.Sound (fun _ => True) Piece.Wrapped
    (turn_steady limit unit) turn_sound (fun st f p o hst hgo hturn => ?_) hst hgo h).2
    fun _ _ => trivial
  have hwrapped := (turnResult_of_turn (SplitState.ne_nil_of_done hgo) hturn).wrapped hst
  exact ⟨fun _ => trivial, fun _ => hwrapped⟩

/-- The loop ends if every turn that it comes to settles. -/
lemma splitLoop_ends (hst : st.Sound) (hgo : st.done = false)
    (h : ∀ st', Loop.Reached SplitState.done (fun fuel => turn fuel limit unit) st st' →
      st'.Settles limit unit) :
    ∃ fuel pieces, splitLoop limit unit fuel st = some pieces := by
  refine Loop.exists_run SplitState.Sound (fun st => st.remaining.length) turn_sound
    (fun st f p next hst hgo hturn => ?_) hst hgo fun st' hreach => ?_
  · have hne := SplitState.ne_nil_of_done hgo
    exact (turnResult_of_turn hne hturn).shorter hne hst
  · exact ⟨_, turn_of_settles (h st' hreach)⟩

/-- **The splitter ends exactly on the messages that do not lead it to a search without end**. -/
theorem splitMessagePieces_ends_iff (message : List Char) (limit : ℕ) (unit : LenUnit) :
    (∃ fuel pieces, splitMessagePieces fuel message limit unit = some pieces) ↔
      ∀ st, ReachedState message limit unit st → st.Settles limit unit := by
  unfold splitMessagePieces
  cases hwhole : wholeMessage message limit unit with
  | some piece =>
    refine iff_of_true ⟨0, _, rfl⟩ fun st hst => ?_
    rw [ReachedState, hwhole] at hst
    cases hst.1
  | none =>
    dsimp only
    have hstart := start_done hwhole
    constructor
    · rintro ⟨fuel, pieces, hpieces⟩ st ⟨-, hreach⟩
      obtain ⟨f, r, hturn⟩ := Loop.turn_of_run (turn_steady limit unit) hstart hpieces hreach
      have hgo := (hreach.induct turn_sound (SplitState.Sound.start message) hstart).2
      exact (turn_eq_some (SplitState.ne_nil_of_done hgo) hturn).1
    · intro h
      exact splitLoop_ends (SplitState.Sound.start message) hstart fun st' hreach =>
        h st' ⟨hwhole, hreach⟩

/-- **Chunking conserves content**: around the text of the message, the chunks have only what they add
for blocks of code, tables and inline markers, and without it they have the visible characters of the
message, in order. The splitter ends on every message that does not lead it to a search without end. -/
theorem splitMessagePieces_conserves (message : List Char) (limit : ℕ) (unit : LenUnit) :
    (∀ fuel pieces, splitMessagePieces fuel message limit unit = some pieces →
      (∀ p ∈ pieces, p.Wrapped) ∧ visible (pieces.flatMap Piece.body) = visible message) ∧
    ((∀ st, ReachedState message limit unit st → st.Settles limit unit) →
      ∃ fuel pieces, splitMessagePieces fuel message limit unit = some pieces) := by
  refine ⟨fun fuel pieces h => ?_, (splitMessagePieces_ends_iff message limit unit).2⟩
  unfold splitMessagePieces at h
  cases hwhole : wholeMessage message limit unit with
  | some piece =>
    rw [hwhole] at h
    cases h
    obtain ⟨hvisible, hwrapped⟩ := wholeMessage_visible hwhole
    rw [List.flatMap_singleton]
    exact ⟨List.forall_mem_singleton.2 hwrapped, hvisible⟩
  | none =>
    rw [hwhole] at h
    have hflat : visible (pieces.flatMap Piece.body) = pieces.flatMap fun p => visible p.body :=
      List.filter_flatMap
    exact ⟨splitLoop_wrapped (SplitState.Sound.start message) (start_done hwhole) h,
      hflat.trans (splitLoop_visible h)⟩

/-- The splitter does not end on a message with a block of code whose first line is beyond the limit:
the search comes back to the same cut. -/
lemma splitMessagePieces_long_info (fuel : ℕ) :
    splitMessagePieces fuel "```aaaaaaaaaaaaaaaa\nb\n```".toList 13 .codepoints = none := by
  by_contra hsome
  obtain ⟨pieces, hpieces⟩ := Option.ne_none_iff_exists'.1 hsome
  have hsettles := (splitMessagePieces_ends_iff _ _ _).1 ⟨fuel, pieces, hpieces⟩
    (SplitState.start "```aaaaaaaaaaaaaaaa\nb\n```".toList)
    ⟨by decide +kernel, Relation.ReflTransGen.refl⟩
  rw [SplitState.Settles, if_neg (by decide +kernel)] at hsettles
  have hcut := hsettles 21 ⟨'`', 3, "aaaaaaaaaaaaaaaa".toList⟩ (by decide +kernel)
  exact absurd hcut (by decide +kernel)

/-- On a message with bold text that is cut, the chunks have more than the message once what they add
for blocks of code and tables is gone; on one with a long first line of a block, there are none. -/
theorem splitMessagePieces_inline_markers :
    (splitMessagePieces 6 "**aaaa bbbb**".toList 10 .codepoints).map
        (fun pieces => visible (pieces.flatMap Piece.withoutBlocks)) =
      some "**aaa****a****bbb****b**".toList ∧
    visible "**aaaa bbbb**".toList = "**aaaabbbb**".toList ∧
    ∀ fuel, splitMessagePieces fuel "```aaaaaaaaaaaaaaaa\nb\n```".toList 13 .codepoints = none :=
  ⟨by decide +kernel, by decide +kernel, splitMessagePieces_long_info⟩

end MyClaw
