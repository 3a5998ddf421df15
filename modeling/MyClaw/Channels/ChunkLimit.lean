import MyClaw.Channels.Turns

set_option autoImplicit false

/-!
# The chunks of a message and the limit

When every chunk of a message is within the limit of its channel (`channels/message/chunking.rs`).

A cut in a block of code always leaves room for the line that closes the block. A cut outside blocks
may leave inline markers open; the loop keeps room for closing them only in a turn that does not begin
in a block, and it takes one character even where nothing fits.

## Main definitions

* `SplitState.Fits` — the chunk of this turn has room in the limit.

## Main results

* `TurnResult.fits_iff` — the chunk of a turn is within the limit exactly when it has room.
* `splitMessageChunk_le_iff` — all chunks of a message are within the limit exactly when the
  chunk of every turn that the loop takes has room.
-/

namespace MyClaw

variable {limit : ℕ} {unit : LenUnit} {st : SplitState}

/-- The chunk of this turn has room in the limit. If the text fits, but not with the line that closes a
block of code, one character has to fit with this line. If the text is cut outside blocks of code, then
the turn begins outside blocks too and has room for a character, or the chunk leaves room for closing
the markers that are open at the cut. -/
def SplitState.Fits (limit : ℕ) (unit : LenUnit) (st : SplitState) : Prop :=
  if measure st.remaining unit ≤ st.contentLimit limit unit then
    ∀ fc, trailingOpenCarry st.remaining st.fenceCarry = some fc →
      measure (lastPiece st fc.closeSuffix).text unit ≤ limit ∨
        st.prefixCost unit + costOf unit st.remaining 1 + measure fc.closeSuffix unit ≤ limit
  else
    ∀ fuel split, findSplitPoint fuel st.remaining (st.contentLimit limit unit) unit st.fenceCarry
        st.inlineCarry = some split →
      split.fenceCarry = none →
        (st.fenceCarry = none ∧ costOf unit st.remaining 1 ≤ st.contentLimit limit unit) ∨
          st.prefixCost unit + measure (trimEnd (st.remaining.take split.index)) unit +
            measure (markerTokens split.markers) unit ≤ limit

lemma Piece.measure_text (p : Piece) (unit : LenUnit) :
    measure p.text unit = measure p.blockPrefix unit + measure p.inlineReopen unit +
      measure p.body unit + measure p.inlineClose unit + measure p.closeSuffix unit := by
  simp only [Piece.text, measure_append]

lemma costOf_one_pos (unit : LenUnit) {text : List Char} (h : text ≠ []) : 0 < costOf unit text 1 := by
  cases text with
  | nil => exact absurd rfl h
  | cons c text => exact Nat.add_pos_left (charCost_pos unit c) _

lemma closeSuffix_pos (unit : LenUnit) (fc : FenceCarry) : 0 < measure fc.closeSuffix unit :=
  Nat.add_pos_left (charCost_pos unit _) _

/-- The first character of a text costs no more than a beginning of the text. -/
lemma costOf_one_le_of_isPrefix (unit : LenUnit) {s text : List Char} (hs : s ≠ []) (h : s <+: text) :
    costOf unit text 1 ≤ measure s unit := by
  obtain ⟨rest, rfl⟩ := h
  cases s with
  | nil => exact absurd rfl hs
  | cons c s => exact Nat.add_le_add_left (Nat.zero_le _) _

/-- The text of a turn that leaves room for a closing line is within its budget, or one character. -/
lemma measure_bodyWithin (st : SplitState) (unit : LenUnit) (head : List Char) (budget : ℕ) :
    measure (bodyWithin st unit head budget) unit ≤ budget ∨
      measure (bodyWithin st unit head budget) unit = costOf unit st.remaining 1 := by
  unfold bodyWithin
  dsimp only
  split
  · exact Or.inr rfl
  · exact Or.inl (measure_trimToUnitBudget_le _ _)

/-- **A turn that leaves room for a closing line** is within the limit if one character is. -/
lemma overflowPiece_le_iff {fc : FenceCarry} {split : SplitPoint} (hgo : st.remaining ≠ [])
    (hst : st.Sound)
    (hroom : Roomy unit st.remaining st.fenceCarry (st.bodyLimit limit unit fc))
    (hsplit : settledSplit st.remaining (st.bodyLimit limit unit fc) unit st.fenceCarry
      st.inlineCarry = split) :
    measure (overflowPiece limit unit st fc split).1.text unit ≤ limit ↔
      st.prefixCost unit + costOf unit st.remaining 1 + measure fc.closeSuffix unit ≤ limit := by
  have hone := costOf_one_pos unit hgo
  obtain ⟨hindex, hfence, -⟩ := settledSplit_spec hgo hroom hst.markers hsplit
  have hfirst : costOf unit st.remaining 1 ≤ costOf unit st.remaining split.index :=
    costOf_mono unit st.remaining hindex
  -- the text is a beginning of what remains
  generalize hpos : (if split.index = 0 ∨ st.remaining.length ≤ split.index then
    min 1 (st.remaining.length - 1) else split.index) = pos
  generalize hbudget : limit - st.prefixCost unit -
    measure (split.fenceCarry.getD fc).closeSuffix unit = budget
  have htext : measure (overflowPiece limit unit st fc split).1.text unit =
      st.prefixCost unit + measure (bodyWithin st unit (st.remaining.take pos) budget) unit +
        measure (split.fenceCarry.getD fc).closeSuffix unit := by
    rw [Piece.measure_text, ← hpos, ← hbudget]
    rfl
  have hbody := measure_bodyWithin st unit (st.remaining.take pos) budget
  have hle := costOf_one_le_of_isPrefix unit (bodyWithin_ne_nil hgo _ _)
    (bodyWithin_isPrefix unit (List.take_prefix pos _) budget)
  have hclose := closeSuffix_pos unit fc
  rw [htext]
  cases hcarry : split.fenceCarry with
  | none =>
    rw [hcarry] at hbudget
    simp only [Option.getD_none] at hbudget ⊢
    omega
  | some c =>
    have hcost := hfence c hcarry
    have hclose' := closeSuffix_pos unit c
    unfold SplitState.bodyLimit at hcost
    rw [hcarry] at hbudget
    simp only [Option.getD_some] at hbudget ⊢
    omega

/-- A chunk that ends in a block of code is within the limit. -/
lemma cutPiece_le_of_fence {split : SplitPoint} {fc : FenceCarry}
    (hcarry : split.fenceCarry = some fc)
    (hcost : costOf unit st.remaining split.index + measure fc.closeSuffix unit ≤
      st.contentLimit limit unit) :
    measure (cutPiece st split).1.text unit ≤ limit := by
  have htext : measure (cutPiece st split).1.text unit =
      st.prefixCost unit + measure (trimEnd (st.remaining.take split.index)) unit +
        measure fc.closeSuffix unit := by
    rw [Piece.measure_text, cutPiece, hcarry]
    rfl
  have htrim : measure (trimEnd (st.remaining.take split.index)) unit ≤
      costOf unit st.remaining split.index := measure_trimEnd_le _ unit
  have hclose := closeSuffix_pos unit fc
  unfold SplitState.contentLimit at hcost
  omega

/-- A chunk that ends outside blocks of code has the tokens of the open markers at its end. -/
lemma cutPiece_measure (unit : LenUnit) {split : SplitPoint} (hcarry : split.fenceCarry = none) :
    measure (cutPiece st split).1.text unit =
      st.prefixCost unit + measure (trimEnd (st.remaining.take split.index)) unit +
        measure (markerTokens split.markers) unit := by
  rw [Piece.measure_text, cutPiece, hcarry]
  dsimp only
  rw [measure_markerTokens_reverse]
  rfl

/-- A chunk that begins and ends outside blocks of code is within the limit, if there is room for a
character. -/
lemma cutPiece_le_of_plain {split : SplitPoint} (hcarry : split.fenceCarry = none)
    (hmarkers : MarkersPlaced split.markers) (hfence : st.fenceCarry = none)
    (hone : costOf unit st.remaining 1 ≤ st.contentLimit limit unit) (hgo : st.remaining ≠ [])
    (hcost : costOf unit st.remaining split.index ≤ st.contentLimit limit unit ∨ split.index = 1) :
    measure (cutPiece st split).1.text unit ≤ limit := by
  have hpos := costOf_one_pos unit hgo
  have htokens := hmarkers.measure_tokens_le unit
  have htrim : measure (trimEnd (st.remaining.take split.index)) unit ≤
      costOf unit st.remaining split.index := measure_trimEnd_le _ unit
  have hwithin : costOf unit st.remaining split.index ≤ st.contentLimit limit unit := by
    rcases hcost with hcost | hindex
    · exact hcost
    · rw [hindex]
      exact hone
  rw [cutPiece_measure unit hcarry]
  unfold SplitState.contentLimit at hone hwithin
  rw [hfence] at hone hwithin
  simp only [Option.isSome_none, Bool.false_eq_true, if_false] at hone hwithin
  omega

/-- **The chunk of a turn** is within the limit exactly when it has room. -/
theorem TurnResult.fits_iff {piece : Piece} {next : Option SplitState} (hgo : st.remaining ≠ [])
    (hst : st.Sound) (h : TurnResult limit unit st piece next) :
    measure piece.text unit ≤ limit ↔ st.Fits limit unit := by
  unfold SplitState.Fits
  cases h with
  | last hfits hopen =>
    rw [if_pos hfits, hopen]
    refine iff_of_true ?_ nofun
    have hpos := costOf_one_pos unit hgo
    have hone := costOf_one_le_of_isPrefix unit hgo (List.prefix_refl _)
    have htrim := measure_trimEnd_le st.remaining unit
    have htext : measure (lastPiece st []).text unit =
        st.prefixCost unit + measure (trimEnd st.remaining) unit := Piece.measure_text _ unit
    rw [htext]
    unfold SplitState.contentLimit at hfits
    omega
  | lastClosed fc hfits hopen hclosed =>
    rw [if_pos hfits, hopen]
    refine iff_of_true hclosed fun fc' hfc => ?_
    cases hfc
    exact Or.inl hclosed
  | overflow fc split hfits hopen hclosed hroom hsplit =>
    rw [if_pos hfits, hopen, overflowPiece_le_iff hgo hst hroom hsplit]
    simp only [Option.some.injEq, forall_eq', hclosed, false_or]
  | cut split hfits hroom hsplit =>
    rw [if_neg hfits]
    obtain ⟨-, hfence, hplain, hmarkers⟩ := settledSplit_spec hgo hroom hst.markers hsplit
    constructor
    · intro hle fuel split' hfound hcarry
      obtain ⟨-, rfl⟩ := findSplitPoint_eq_some hgo hfound
      rw [hsplit] at hcarry ⊢
      exact Or.inr (cutPiece_measure unit hcarry ▸ hle)
    · intro h
      cases hcarry : split.fenceCarry with
      | some fc => exact cutPiece_le_of_fence hcarry (hfence fc hcarry)
      | none =>
        have hfound := findSplitPoint_of_roomy hroom st.inlineCarry 0
        rw [hsplit] at hfound
        rcases h 1 split hfound hcarry with ⟨hstart, hone⟩ | hle
        · exact cutPiece_le_of_plain hcarry hmarkers hstart hone hgo (hplain hcarry)
        · exact (cutPiece_measure unit hcarry).trans_le hle

/-! ## The whole message -/

/-- A message that is not split is within the limit. -/
lemma wholeMessage_le {message : List Char} {piece : Piece}
    (h : wholeMessage message limit unit = some piece) : measure piece.text unit ≤ limit := by
  unfold wholeMessage at h
  split at h
  · next hfits =>
    split at h
    · split at h
      · next hclosed =>
        cases h
        simpa [Piece.text] using hclosed
      · cases h
    · cases h
      simpa [Piece.text] using hfits
  · cases h

/-- **The chunks of a message are within the limit** exactly when the chunk of every turn that the loop
takes has room. -/
theorem splitMessageChunk_le_iff {fuel : ℕ} {message : List Char} {chunks : List (List Char)}
    (h : splitMessageChunk fuel message limit unit = some chunks) :
    (∀ chunk ∈ chunks, measure chunk unit ≤ limit) ↔
      ∀ st, ReachedState message limit unit st → st.Fits limit unit := by
  obtain ⟨pieces, hpieces, rfl⟩ := Option.map_eq_some_iff.1 h
  rw [List.forall_mem_map]
  unfold splitMessagePieces at hpieces
  cases hwhole : wholeMessage message limit unit with
  | some piece =>
    rw [hwhole] at hpieces
    cases hpieces
    refine iff_of_true (List.forall_mem_singleton.2 (wholeMessage_le hwhole)) fun st hst => ?_
    rw [ReachedState, hwhole] at hst
    cases hst.1
  | none =>
    rw [hwhole] at hpieces
    have hiff := Loop.forall_output_iff SplitState.Sound (SplitState.Fits limit unit)
      (fun p => measure p.text unit ≤ limit) (turn_steady limit unit) turn_sound
      (fun st f p o hst hgo hturn => (turnResult_of_turn (SplitState.ne_nil_of_done hgo) hturn).fits_iff
        (SplitState.ne_nil_of_done hgo) hst)
      (SplitState.Sound.start message) (start_done hwhole) hpieces
    rw [hiff]
    simp only [ReachedState, hwhole, true_and]

/-- A message whose chunks are within the limit: every turn has room. -/
theorem splitMessageChunk_le_bold :
    splitMessageChunk 6 "**aaaa bbbb**".toList 10 .codepoints =
      some ["**aaa**".toList, "**a**".toList, "**bbb**".toList, "**b**".toList] ∧
    ∀ st, ReachedState "**aaaa bbbb**".toList 10 .codepoints st → st.Fits 10 .codepoints := by
  have h : splitMessageChunk 6 "**aaaa bbbb**".toList 10 .codepoints =
      some ["**aaa**".toList, "**a**".toList, "**bbb**".toList, "**b**".toList] := by
    decide +kernel
  exact ⟨h, (splitMessageChunk_le_iff h).1 (by decide +kernel)⟩

/-- A block of code that is continued in the third chunk and closed there, before bold text that is cut:
the chunk is over the limit, which has room for the lines that open and close the block and for the
reserve. -/
theorem splitMessageChunk_over_limit :
    splitMessageChunk 8 "```\nxxxxxxxxxxxxxxxxxxxx\n```\n**aaaaaaa\nbbbbbbbbbbbbbbbb".toList 20
        .codepoints =
      some ["```\nxxxxxxx\n```".toList, "```\nxxxxxxxxxxxx\n```".toList,
        "```\nx\n```\n**aaaaaaa**".toList, "**bbbbbbbbbbbbb**".toList, "**bbb".toList] ∧
    20 < measure "```\nx\n```\n**aaaaaaa**".toList .codepoints ∧
    ∀ r ∈ scanFenceRegions "```\nxxxxxxxxxxxxxxxxxxxx\n```\n**aaaaaaa\nbbbbbbbbbbbbbbbb".toList none,
      measure r.carry.openLine .codepoints + measure r.carry.closeSuffix .codepoints +
        inlineReserve .codepoints ≤ 20 := by
  decide +kernel

end MyClaw
