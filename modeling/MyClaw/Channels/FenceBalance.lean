import MyClaw.Channels.FenceChunks
import MyClaw.Channels.Turns

set_option autoImplicit false

/-!
# The chunks of a message are balanced

A message whose blocks of code are all closed is cut into chunks whose blocks of code are all
closed, and each line of the message is in a block of code in its chunk exactly when it is in one in
the message (`split_message_chunk` in `channels/message/chunking.rs`), as long as no line at the
edge of a chunk is read as another line there.

## Main definitions

* `FencesBalanced` — all blocks of code of a text are closed.
* `FencesKeptFrom` — chunks that are balanced and have the lines of a message where they were.
* `SplitState.EdgesKept` — the lines at the edges of the chunk of a turn are read as in the
  message.
* `FencesAligned` — what remains of a message is read as in the message.

## Main results

* `TurnResult.fencesKept` — what one turn keeps.
* `splitMessagePieces_fencesKept` — what a whole run keeps.
* `not_splitMessagePieces_fencesKept` — a closing token that hides the end of a block of code.
-/

namespace MyClaw

open LineScan

/-- All blocks of code of a text are closed. -/
def FencesBalanced (text : List Char) : Prop :=
  ∀ r ∈ scanFenceRegions text none, r.closed = true

instance (text : List Char) : Decidable (FencesBalanced text) :=
  inferInstanceAs (Decidable (∀ r ∈ scanFenceRegions text none, r.closed = true))

/-- A text is balanced exactly when no block of code is open at its end. -/
lemma fencesBalanced_iff (text : List Char) :
    FencesBalanced text ↔ after fenceStep none text = none := by
  constructor
  · intro h
    rw [← trailingOpenCarry_eq, trailingOpenCarry, Option.bind_eq_none_iff]
    intro r hr
    rw [if_neg]
    simp [h r (List.mem_of_getLast? hr)]
  · exact fun h r hr => (mem_scanFenceRegions h hr).1

/-- The chunk is balanced, and its part of the message, which begins at `offset`, is in blocks of code
where it is in the message. -/
structure Piece.FencesKept (message : List Char) (offset : ℕ) (p : Piece) : Prop where
  balanced : FencesBalanced p.text
  inside : ∀ k < p.body.length,
    (regionContaining (scanFenceRegions p.text none)
        (p.blockPrefix.length + p.inlineReopen.length + k)).isSome =
      (regionContaining (scanFenceRegions message none) (offset + k)).isSome

/-- The chunks have the message from a position on, in order and but for white space, and each is
balanced and has its part in blocks of code where it is in the message. -/
def FencesKeptFrom (message : List Char) : ℕ → List Piece → Prop
  | i, [] => ∀ c ∈ message.drop i, isWhiteSpace c = true
  | i, p :: pieces => ∃ white rest, message.drop i = white ++ (p.body ++ rest) ∧
      (∀ c ∈ white, isWhiteSpace c = true) ∧ p.FencesKept message (i + white.length) ∧
      FencesKeptFrom message (i + white.length + p.body.length) pieces

/-! ## The lines at the edges of a chunk -/

/-- The lines at a cut are read as in the message: those at the edges of the chunk, the line that is
cut, and what the next chunk begins with. -/
structure SplitState.CutKept (st : SplitState) (split : SplitPoint) : Prop where
  edges : EdgesRead st.fenceCarry st.inlineReopen (trimEnd (st.remaining.take split.index))
    (markerTokens split.markers.reverse)
      (before fenceStep st.fenceCarry (st.remaining.take split.index))
  line : lastLine (st.remaining.take split.index) ≠ [] →
    fenceStep (before fenceStep st.fenceCarry (st.remaining.take split.index))
        (lastLine (st.remaining.take split.index) ++ firstLine (st.remaining.drop split.index)) =
      before fenceStep st.fenceCarry (st.remaining.take split.index)
  next : fenceStep (before fenceStep st.fenceCarry (st.remaining.take split.index))
      (firstLine (if (before fenceStep st.fenceCarry (st.remaining.take split.index)).isSome then
          st.remaining.drop split.index
        else (st.remaining.drop split.index).dropWhile isBlankChar)) =
    fenceStep (before fenceStep st.fenceCarry (st.remaining.take split.index))
      (lastLine (st.remaining.take split.index) ++ firstLine (st.remaining.drop split.index))

/-- The lines at the edges of the chunk of this turn are read as in the message. -/
structure SplitState.EdgesKept (limit : ℕ) (unit : LenUnit) (st : SplitState) : Prop where
  reopened : ∀ fc, st.fenceCarry = some fc → trailingOpenCarry fc.openLine none = some fc
  last : measure st.remaining unit ≤ st.contentLimit limit unit →
    EdgesRead st.fenceCarry st.inlineReopen (trimEnd st.remaining) [] none
  cut : ¬measure st.remaining unit ≤ st.contentLimit limit unit →
    st.CutKept (settledSplit st.remaining (st.contentLimit limit unit) unit st.fenceCarry
      st.inlineCarry)

/-- What remains of a message from a position on is read as it is in the message. -/
structure FencesAligned (message : List Char) (offset : ℕ) (st : SplitState) : Prop where
  remaining : message.drop offset = st.remaining
  inside : ∀ k, inFence none message (offset + k) = inFence st.fenceCarry st.remaining k
  balanced : after fenceStep st.fenceCarry st.remaining = none
  valid : ∀ fc, st.fenceCarry = some fc → fc.Valid
  table : ∀ header, st.tableCarry = some header →
    before fenceStep none header = none ∧ lastLine header = []

variable {message : List Char} {offset limit : ℕ} {unit : LenUnit} {st : SplitState}

lemma FencesAligned.start (h : FencesBalanced message) :
    FencesAligned message 0 (SplitState.start message) :=
  ⟨rfl, fun k => by rw [Nat.zero_add]; rfl, (fencesBalanced_iff message).1 h, nofun, nofun⟩

/-- What a chunk begins with opens the block of code that is open. -/
lemma FencesAligned.blockPrefix (halign : FencesAligned message offset st)
    (h : ∀ fc, st.fenceCarry = some fc → trailingOpenCarry fc.openLine none = some fc) :
    before fenceStep none st.blockPrefix = st.fenceCarry ∧ lastLine st.blockPrefix = [] := by
  unfold SplitState.blockPrefix
  cases hcarry : st.fenceCarry with
  | some fc =>
    have hline : lastLine fc.openLine = [] := by
      have hlast : lastLine (List.replicate fc.len fc.marker ++ fc.info ++ ([] ++ '\n' :: [])) =
          lastLine [] := lastLine_append_newline List.not_mem_nil
      exact hlast
    have hopen := h fc hcarry
    rw [trailingOpenCarry_eq, after, hline, fenceStep_nil] at hopen
    exact ⟨hopen, hline⟩
  | none =>
    dsimp only
    cases htable : st.tableCarry with
    | none => exact ⟨rfl, rfl⟩
    | some header => exact halign.table header htable

lemma newline_notMem_markerTokens (markers : List Marker) : '\n' ∉ markerTokens markers := by
  unfold markerTokens
  rw [List.mem_flatMap]
  rintro ⟨m, -, hmem⟩
  cases m <;> exact absurd hmem (by decide)

/-- **The chunk of a turn** is balanced, and its part of the message is in blocks of code where it is in
the message, if the lines at its edges are read as in the message. -/
lemma FencesAligned.fencesKept {piece : Piece} {rest : List Char} {last : Option FenceCarry}
    (halign : FencesAligned message offset st)
    (hreopened : ∀ fc, st.fenceCarry = some fc → trailingOpenCarry fc.openLine none = some fc)
    (hpre : piece.blockPrefix = st.blockPrefix) (hreopen : piece.inlineReopen = st.inlineReopen)
    (hclose : '\n' ∉ piece.inlineClose)
    (hsuffix : piece.closeSuffix = (last.map FenceCarry.closeSuffix).getD [])
    (hvalid : ∀ fc, last = some fc → fc.Valid) (hrest : st.remaining = piece.body ++ rest)
    (hedges : EdgesRead st.fenceCarry st.inlineReopen piece.body piece.inlineClose last)
    (hmessage : lastLine piece.body ≠ [] →
      fenceStep (before fenceStep st.fenceCarry piece.body) (lastLine piece.body ++ firstLine rest) =
        last) : piece.FencesKept message offset := by
  obtain ⟨hstart, hline⟩ := halign.blockPrefix hreopened
  have htokens : '\n' ∉ st.inlineReopen := newline_notMem_markerTokens st.inlineCarry
  have htext : piece.text = st.blockPrefix ++ (st.inlineReopen ++ (piece.body ++
      (piece.inlineClose ++ piece.closeSuffix))) := by
    rw [Piece.text, hpre, hreopen]
    simp only [List.append_assoc]
  have hend := after_chunk hstart hline htokens hclose hedges
  constructor
  · rw [fencesBalanced_iff, htext, hsuffix]
    cases hlast : last with
    | none => simpa [hlast] using hend
    | some fc =>
      have hclosed := after_closeSuffix (hend.trans hlast) (hvalid fc hlast)
      rw [Option.map_some, Option.getD_some]
      simpa only [List.append_assoc] using hclosed
  · intro k hk
    have hsuffixLine : piece.closeSuffix = [] ∨ ∃ line, piece.closeSuffix = '\n' :: line := by
      rw [hsuffix]
      cases last with
      | none => exact Or.inl rfl
      | some fc => exact Or.inr ⟨_, rfl⟩
    have hlength := congrArg List.length halign.remaining
    rw [List.length_drop, hrest, List.length_append] at hlength
    have hin := inFence_chunk hstart hline htokens hclose hsuffixLine hedges hmessage hk
    rw [isSome_regionContaining, isSome_regionContaining, halign.inside, hrest, ← hin, ← htext, hpre,
      hreopen, Nat.add_assoc]
    · omega
    · rw [htext, hpre, hreopen]
      simp only [List.length_append]
      omega

/-- **What remains after a cut is read as in the message**, if what it begins with is. -/
lemma FencesAligned.drop {next : SplitState} {part : List Char}
    (halign : FencesAligned message offset st) (hrest : st.remaining = part ++ next.remaining)
    (hcarry : next.fenceCarry = before fenceStep st.fenceCarry part)
    (hnext : fenceStep next.fenceCarry (lastLine part ++ firstLine next.remaining) =
      fenceStep next.fenceCarry (firstLine next.remaining))
    (htable : ∀ header, next.tableCarry = some header →
      before fenceStep none header = none ∧ lastLine header = []) :
    FencesAligned message (offset + part.length) next := by
  refine ⟨?_, fun k => ?_, ?_, fun fc hfc => ?_, htable⟩
  · rw [← List.drop_drop, halign.remaining, hrest, List.drop_left]
  · rw [Nat.add_assoc, halign.inside, hrest]
    exact seenAt_append hcarry.symm hnext
  · have hbalanced := halign.balanced
    rwa [hrest, after_append hcarry.symm hnext] at hbalanced
  · rw [hcarry] at hfc
    exact valid_of_foldl halign.valid hfc

/-- The search for a cut takes no inline marker for open in a block of code. -/
lemma settledSplit_markers {text : List Char} {startCarry : Option FenceCarry}
    {startMarkers : List Marker} {split : SplitPoint} {fc : FenceCarry}
    (h : settledSplit text limit unit startCarry startMarkers = split)
    (hcarry : split.fenceCarry = some fc) : split.markers = [] := by
  subst h
  unfold settledSplit SplitPoint.ofCut at hcarry ⊢
  dsimp only at hcarry ⊢
  split
  · rfl
  · rename_i hcut
    rw [hcut] at hcarry
    cases hcarry

/-- The chunk that ends at a cut, and what remains. -/
lemma cutPiece_spec (split : SplitPoint)
    (hmarkers : ∀ fc, split.fenceCarry = some fc → split.markers = []) :
    (cutPiece st split).1 =
        { blockPrefix := st.blockPrefix
          inlineReopen := st.inlineReopen
          body := trimEnd (st.remaining.take split.index)
          inlineClose := markerTokens split.markers.reverse
          closeSuffix := (split.fenceCarry.map FenceCarry.closeSuffix).getD [] } ∧
      (cutPiece st split).2.fenceCarry = split.fenceCarry ∧
      (cutPiece st split).2.remaining = (if split.fenceCarry.isSome then st.remaining.drop split.index
        else (st.remaining.drop split.index).dropWhile isBlankChar) ∧
      ∀ header, (cutPiece st split).2.tableCarry = some header → split.fenceCarry = none ∧
        openTableHeader (cutPiece st split).1.text (st.remaining.drop split.index) = some header := by
  unfold cutPiece
  dsimp only
  cases hcarry : split.fenceCarry with
  | some fc =>
    rw [hmarkers fc hcarry]
    exact ⟨rfl, rfl, rfl, nofun⟩
  | none => exact ⟨rfl, rfl, rfl, fun header hheader => ⟨rfl, hheader⟩⟩

/-- **The last chunk** is kept. -/
lemma FencesAligned.last (halign : FencesAligned message offset st) (hedges : st.EdgesKept limit unit)
    (hfits : measure st.remaining unit ≤ st.contentLimit limit unit) :
    (lastPiece st []).FencesKept message offset ∧ ∃ white,
      (∀ c ∈ white, isWhiteSpace c = true) ∧ st.remaining = (lastPiece st []).body ++ white := by
  obtain ⟨white, htext, hwhite⟩ := trimEnd_append st.remaining
  refine ⟨?_, white, hwhite, htext⟩
  have hnone : ∀ fc, (none : Option FenceCarry) = some fc → fc.Valid := nofun
  refine halign.fencesKept hedges.reopened rfl rfl List.not_mem_nil rfl hnone htext
    (hedges.last hfits) fun hne => ?_
  have hbalanced := halign.balanced
  rw [htext] at hbalanced
  have hstep : fenceStep (before fenceStep st.fenceCarry (trimEnd st.remaining))
      (lastLine (trimEnd st.remaining) ++ firstLine (white ++ [])) = none := by
    refine step_lastLine_trimmed hwhite (fun _ => ?_) (fun hmem => ?_) hne
    · exact (congrArg _ (List.append_nil _)).trans hbalanced
    · rw [← after_eq_before hwhite hmem, hbalanced]
  rwa [List.append_nil] at hstep

/-- The blanks that are taken from what remains. -/
lemma blanks_of_dropWhile {rest next : List Char} (inside : Bool)
    (h : next = if inside then rest else rest.dropWhile isBlankChar) :
    ∃ blanks, rest = blanks ++ next ∧ '\n' ∉ blanks ∧ ∀ c ∈ blanks, isWhiteSpace c = true := by
  cases inside with
  | true => exact ⟨[], h.symm, List.not_mem_nil, nofun⟩
  | false =>
    refine ⟨rest.takeWhile isBlankChar, ?_, newline_notMem_takeWhile (by decide) rest, fun c hc => ?_⟩
    · rw [h]
      exact (List.takeWhile_append_dropWhile ..).symm
    · exact isWhiteSpace_of_isBlankChar c (List.mem_takeWhile_imp hc)

/-- **A chunk that ends at a cut** is kept, and what remains is read as in the message. -/
lemma FencesAligned.cut {split : SplitPoint} (hgo : st.remaining ≠ [])
    (halign : FencesAligned message offset st) (hedges : st.EdgesKept limit unit)
    (hfits : ¬measure st.remaining unit ≤ st.contentLimit limit unit)
    (hsplit : settledSplit st.remaining (st.contentLimit limit unit) unit st.fenceCarry
      st.inlineCarry = split) :
    (cutPiece st split).1.FencesKept message offset ∧ ∃ white,
      (∀ c ∈ white, isWhiteSpace c = true) ∧
      st.remaining = (cutPiece st split).1.body ++ (white ++ (cutPiece st split).2.remaining) ∧
      FencesAligned message (offset + (cutPiece st split).1.body.length + white.length)
        (cutPiece st split).2 := by
  have hkept := hedges.cut hfits
  rw [hsplit] at hkept
  have hcarry := settledSplit_fenceCarry hgo halign.balanced (Nat.not_le.1 hfits) hsplit hkept.line
  obtain ⟨hpiece, hnextCarry, hnextRemaining, htable⟩ :=
    @cutPiece_spec st split fun fc => settledSplit_markers hsplit
  have hbody : (cutPiece st split).1.body = trimEnd (st.remaining.take split.index) := by rw [hpiece]
  have hclose : (cutPiece st split).1.inlineClose = markerTokens split.markers.reverse := by rw [hpiece]
  have hnext := hkept.next
  rw [← hcarry, ← hnextRemaining, ← hnextCarry] at hnext
  obtain ⟨hedge, hcutLine, -⟩ := hkept
  rw [← hcarry] at hedge hcutLine
  obtain ⟨blanks, hblanks, hblankLine, hblankSpace⟩ := blanks_of_dropWhile _ hnextRemaining
  obtain ⟨white, htext, hwhite⟩ := trimEnd_append (st.remaining.take split.index)
  have hparts := List.take_append_drop split.index st.remaining
  generalize st.remaining.take split.index = part at *
  generalize st.remaining.drop split.index = rest at *
  have hrest : st.remaining = (cutPiece st split).1.body ++ (white ++ rest) := by
    rw [← hparts, hbody, ← List.append_assoc, ← htext]
  have hvalid : ∀ fc, split.fenceCarry = some fc → fc.Valid := by
    rw [hcarry]
    exact fun fc hfc => valid_of_foldl halign.valid hfc
  have hkept : (cutPiece st split).1.FencesKept message offset := by
    refine halign.fencesKept hedges.reopened (by rw [hpiece]) (by rw [hpiece]) ?_ (by rw [hpiece])
      hvalid hrest ?_ fun hne => ?_
    · rw [hclose]
      exact newline_notMem_markerTokens _
    · rw [hbody, hclose]
      exact hedge
    · rw [hbody] at hne ⊢
      rw [htext] at hcutLine hcarry
      refine step_lastLine_trimmed hwhite (fun hline => ?_) (fun _ => hcarry.symm) hne
      rw [← hcarry]
      exact hcutLine hline
  refine ⟨hkept, white ++ blanks, fun c hc => ?_, ?_, ?_⟩
  · exact (List.mem_append.1 hc).elim (hwhite c) (hblankSpace c)
  · rw [hrest, hblanks, List.append_assoc]
  · have halign' : FencesAligned message (offset + (part ++ blanks).length) (cutPiece st split).2 := by
      refine halign.drop ?_ ?_ ?_ fun header hheader => ?_
      · rw [← hparts, hblanks, List.append_assoc]
      · rw [hnextCarry, before_append_of_notMem hblankLine, hcarry]
      · rw [lastLine_append hblankLine, List.append_assoc, hnext, hblanks,
          firstLine_append_of_notMem hblankLine]
      · obtain ⟨hnone, htable⟩ := htable header hheader
        refine openTableHeader_before ?_ htable
        exact (fencesBalanced_iff _).1 hkept.balanced
    have hlength := congrArg List.length htext
    rw [List.length_append] at halign' hlength ⊢
    rwa [hbody, Nat.add_assoc, ← Nat.add_assoc _ white.length, ← hlength]

/-- What a turn gives is kept, and what remains is read as in the message. -/
theorem TurnResult.fencesKept {piece : Piece} {next : Option SplitState} (hgo : st.remaining ≠ [])
    (halign : FencesAligned message offset st) (hedges : st.EdgesKept limit unit)
    (h : TurnResult limit unit st piece next) :
    piece.FencesKept message offset ∧ ∃ white,
      (∀ c ∈ white, isWhiteSpace c = true) ∧
      st.remaining = piece.body ++ (white ++ (next.map SplitState.remaining).getD []) ∧
      ∀ st', next = some st' →
        FencesAligned message (offset + piece.body.length + white.length) st' := by
  cases h with
  | last hfits hopen =>
    obtain ⟨hkept, white, hwhite, hrest⟩ := halign.last hedges hfits
    exact ⟨hkept, white, hwhite, hrest.trans (congrArg _ (List.append_nil white).symm), nofun⟩
  | lastClosed fc hfits hopen =>
    rw [trailingOpenCarry_eq, halign.balanced] at hopen
    cases hopen
  | overflow fc split hfits hopen =>
    rw [trailingOpenCarry_eq, halign.balanced] at hopen
    cases hopen
  | cut split hfits hroom hsplit =>
    obtain ⟨hkept, white, hwhite, hrest, hnext⟩ := halign.cut hgo hedges hfits hsplit
    refine ⟨hkept, white, hwhite, hrest, fun st' hst' => ?_⟩
    cases hst'
    exact hnext

/-! ## The whole message -/

/-- **What a run keeps**: the chunks of what remains.

**Proof sketch.** One turn keeps its chunk and leaves what remains to be read as in the message; the
white space that it leaves out is in front of the next chunk. -/
lemma splitLoop_fencesKept {fuel : ℕ} {pieces : List Piece}
    (hedges : ∀ st', Loop.Reached SplitState.done (fun fuel => turn fuel limit unit) st st' →
      st'.EdgesKept limit unit)
    (halign : FencesAligned message offset st) (h : splitLoop limit unit fuel st = some pieces) :
    FencesKeptFrom message offset pieces := by
  refine Loop.run_rel (fun st pieces => (st.done = false → ∀ st', Loop.Reached SplitState.done
      (fun fuel => turn fuel limit unit) st st' → st'.EdgesKept limit unit) →
      ∀ i white, message.drop i = white ++ st.remaining → (∀ c ∈ white, isWhiteSpace c = true) →
        FencesAligned message (i + white.length) st → FencesKeptFrom message i pieces)
    (fun st hdone _ i white hrest hwhite _ => ?_) (fun st f p hgo hturn hedges i white hrest hwhite
      halign => ?_) (fun st f p next pieces hgo hturn ih hedges i white hrest hwhite halign => ?_) h
    (fun _ => hedges) offset [] halign.remaining nofun halign
  · have hnil : st.remaining = [] := List.isEmpty_iff.1 hdone
    rw [hnil, List.append_nil] at hrest
    rw [FencesKeptFrom, hrest]
    exact hwhite
  · have hne := SplitState.ne_nil_of_done hgo
    obtain ⟨hkept, later, hlater, hbody, -⟩ := (turnResult_of_turn hne hturn).fencesKept hne halign
      (hedges hgo st Relation.ReflTransGen.refl)
    rw [Option.map_none, Option.getD_none, List.append_nil] at hbody
    refine ⟨white, later, by rw [hrest, hbody], hwhite, hkept, ?_⟩
    have hend : message.drop (i + white.length + p.body.length) = later := by
      rw [Nat.add_assoc, ← List.drop_drop, hrest, hbody, ← List.append_assoc]
      exact List.drop_left' (List.length_append ..)
    rw [FencesKeptFrom, hend]
    exact hlater
  · have hne := SplitState.ne_nil_of_done hgo
    obtain ⟨hkept, later, hlater, hbody, hnext⟩ := (turnResult_of_turn hne hturn).fencesKept hne halign
      (hedges hgo st Relation.ReflTransGen.refl)
    rw [Option.map_some, Option.getD_some] at hbody
    refine ⟨white, later ++ next.remaining, by rw [hrest, hbody], hwhite, hkept, ?_⟩
    have hend : message.drop (i + white.length + p.body.length) = later ++ next.remaining := by
      rw [Nat.add_assoc, ← List.drop_drop, hrest, hbody, ← List.append_assoc]
      exact List.drop_left' (List.length_append ..)
    refine ih (fun hnextgo st' hreach => hedges hgo st' ?_) _ later hend hlater (hnext next rfl)
    exact Relation.ReflTransGen.head ⟨⟨f, p, hturn⟩, hnextgo⟩ hreach

/-- **The chunks of a balanced message are balanced**, and a line of the message is in a block of
code in its chunk exactly when it is in one in the message, if in each turn the lines at the edges
of the chunk are read as in the message. -/
theorem splitMessagePieces_fencesKept (message : List Char) (limit : ℕ) (unit : LenUnit) (fuel : ℕ)
    (pieces : List Piece) (hbalanced : FencesBalanced message)
    (hedges : ∀ st, ReachedState message limit unit st → st.EdgesKept limit unit)
    (h : splitMessagePieces fuel message limit unit = some pieces) :
    FencesKeptFrom message 0 pieces := by
  unfold splitMessagePieces at h
  cases hwhole : wholeMessage message limit unit with
  | none =>
    rw [hwhole] at h
    exact splitLoop_fencesKept (fun st' hreach => hedges st' ⟨hwhole, hreach⟩)
      (FencesAligned.start hbalanced) h
  | some piece =>
    rw [hwhole] at h
    cases h
    have hopen : trailingOpenCarry message none = none := by
      rw [trailingOpenCarry_eq, (fencesBalanced_iff message).1 hbalanced]
    have hpiece : piece = ⟨[], [], message, [], []⟩ := by
      unfold wholeMessage at hwhole
      rw [hopen] at hwhole
      split at hwhole
      · exact (Option.some.inj hwhole).symm
      · cases hwhole
    have htext : piece.text = message := by simp [hpiece, Piece.text]
    refine ⟨[], [], by simp [hpiece], nofun, ⟨by rwa [htext], fun k _ => ?_⟩, ?_⟩
    · rw [htext, hpiece]
      simp
    · rw [FencesKeptFrom, hpiece]
      simp

/-- The chunks of a message that is cut inside a block of code: both are balanced. -/
theorem splitMessagePieces_fencesKept_code :
    ∃ pieces, splitMessagePieces 50 "```\naaaa\nbbbb\ncccc\n```".toList 20 .codepoints = some pieces ∧
      pieces.map Piece.text = ["```\naaaa\n```".toList, "```\nbbbb\ncccc\n```".toList] ∧
      FencesKeptFrom "```\naaaa\nbbbb\ncccc\n```".toList 0 pieces := by
  obtain ⟨pieces, hpieces⟩ : ∃ pieces, splitMessagePieces 50 "```\naaaa\nbbbb\ncccc\n```".toList 20
      .codepoints = some pieces := Option.isSome_iff_exists.1 (by decide +kernel)
  refine ⟨pieces, hpieces, ?_, ?_⟩
  · have htexts : (splitMessagePieces 50 "```\naaaa\nbbbb\ncccc\n```".toList 20 .codepoints).map
        (·.map Piece.text) =
          some ["```\naaaa\n```".toList, "```\nbbbb\ncccc\n```".toList] := by decide +kernel
    rw [hpieces] at htexts
    exact Option.some.inj htexts
  · refine splitMessagePieces_fencesKept _ 20 .codepoints 50 pieces (by decide +kernel) ?_ hpieces
    rintro st ⟨-, hreach⟩
    let rest : SplitState := ⟨"bbbb\ncccc\n```".toList, some ⟨'`', 3, []⟩, none, []⟩
    have hfirst : ∃ piece, turn 5 20 .codepoints
        (SplitState.start "```\naaaa\nbbbb\ncccc\n```".toList) = some (piece, some rest) :=
      ⟨⟨[], [], "```\naaaa".toList, [], "\n```".toList⟩, by decide +kernel⟩
    have hsecond : ∃ piece, turn 5 20 .codepoints rest = some (piece, none) :=
      ⟨⟨"```\n".toList, [], "bbbb\ncccc\n```".toList, [], []⟩, by decide +kernel⟩
    obtain ⟨piece, hfirst⟩ := hfirst
    obtain ⟨piece', hsecond⟩ := hsecond
    rcases (Loop.reached_iff (turn_steady 20 .codepoints) (by decide) hfirst (by decide)).1 hreach with
      rfl | hreach
    · exact ⟨nofun, fun hfits => absurd hfits (by decide +kernel),
        fun _ => ⟨⟨by decide +kernel, by decide +kernel⟩, by decide +kernel, by decide +kernel⟩⟩
    · rw [Loop.reached_of_last (turn_steady 20 .codepoints) (by decide) hsecond hreach]
      exact ⟨fun fc hfc => by cases hfc; decide +kernel,
        fun _ => ⟨by decide +kernel, by decide +kernel⟩,
        fun hfits => absurd (by decide +kernel) hfits⟩

/-- The token that closes bold text is put behind the line that closes a block of code, so that the
block stays open in the chunk: the message is balanced and its first chunk is not. -/
theorem not_splitMessagePieces_fencesKept :
    FencesBalanced "**a\n```\nx\n```\nbbbbbbbbbbbbbbbbbbbbbbbbbbbbbbbb".toList ∧
    ∃ pieces, splitMessagePieces 50 "**a\n```\nx\n```\nbbbbbbbbbbbbbbbbbbbbbbbbbbbbbbbb".toList 24
        .codepoints = some pieces ∧
      pieces.head?.map Piece.text = some "**a\n```\nx\n```**".toList ∧
      ¬FencesBalanced "**a\n```\nx\n```**".toList ∧
      ¬FencesKeptFrom "**a\n```\nx\n```\nbbbbbbbbbbbbbbbbbbbbbbbbbbbbbbbb".toList 0 pieces := by
  refine ⟨by decide +kernel, ?_⟩
  obtain ⟨pieces, hpieces⟩ : ∃ pieces, splitMessagePieces 50
      "**a\n```\nx\n```\nbbbbbbbbbbbbbbbbbbbbbbbbbbbbbbbb".toList 24 .codepoints = some pieces :=
    Option.isSome_iff_exists.1 (by decide +kernel)
  have hhead : ((splitMessagePieces 50 "**a\n```\nx\n```\nbbbbbbbbbbbbbbbbbbbbbbbbbbbbbbbb".toList 24
      .codepoints).bind List.head?).map Piece.text = some "**a\n```\nx\n```**".toList := by
    decide +kernel
  rw [hpieces, Option.bind_some] at hhead
  have hopen : ¬FencesBalanced "**a\n```\nx\n```**".toList := by decide +kernel
  refine ⟨pieces, hpieces, hhead, hopen, ?_⟩
  cases pieces with
  | nil => cases hhead
  | cons p pieces =>
    rintro ⟨_, _, _, _, hkept, _⟩
    have htext : p.text = _ := Option.some.inj hhead
    exact hopen (htext ▸ hkept.balanced)

end MyClaw
