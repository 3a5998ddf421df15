import MyClaw.Channels.Chunking

set_option autoImplicit false

/-!
# What one turn of the splitter does

The facts of one turn of the loop that the results about a whole message rest on: which turns end, what
a turn takes from the text, and what it leaves open for the next one.

## Main definitions

* `SplitState.Settles` — the search for a cut ends in this turn.
* `visible` — the characters of a text that are not white space.
* `SplitState.Sound` — what is carried from turn to turn is well formed.
* `ReachedState` — the states in which the loop takes a turn.

## Main results

* `turn_eq_some`, `turn_of_settles` — a turn ends if and only if it settles.
-/

namespace MyClaw

variable {limit : ℕ} {unit : LenUnit} {st : SplitState}

/-- The search for a cut that this turn makes, if it makes one, ends. -/
def SplitState.Settles (limit : ℕ) (unit : LenUnit) (st : SplitState) : Prop :=
  if measure st.remaining unit ≤ st.contentLimit limit unit then
    ∀ fc, trailingOpenCarry st.remaining st.fenceCarry = some fc →
      measure (lastPiece st fc.closeSuffix).text unit ≤ limit ∨
        Roomy unit st.remaining st.fenceCarry (st.bodyLimit limit unit fc)
  else Roomy unit st.remaining st.fenceCarry (st.contentLimit limit unit)

/-- What a turn gives when it ends. -/
def settledTurn (limit : ℕ) (unit : LenUnit) (st : SplitState) : Piece × Option SplitState :=
  let split (limit : ℕ) := settledSplit st.remaining limit unit st.fenceCarry st.inlineCarry
  if measure st.remaining unit ≤ st.contentLimit limit unit then
    match trailingOpenCarry st.remaining st.fenceCarry with
    | some fc =>
      if measure (lastPiece st fc.closeSuffix).text unit ≤ limit then
        (lastPiece st fc.closeSuffix, none)
      else (overflowPiece limit unit st fc (split (st.bodyLimit limit unit fc))).map id some
    | none => (lastPiece st [], none)
  else (cutPiece st (split (st.contentLimit limit unit))).map id some

/-- A turn that ends settles, and gives the same on any fuel. -/
lemma turn_eq_some (hgo : st.remaining ≠ []) {fuel : ℕ} {r : Piece × Option SplitState}
    (h : turn fuel limit unit st = some r) : st.Settles limit unit ∧ r = settledTurn limit unit st := by
  unfold turn at h
  unfold SplitState.Settles settledTurn
  dsimp only at h ⊢
  split at h
  · next hfits =>
    rw [if_pos hfits, if_pos hfits]
    cases hopen : trailingOpenCarry st.remaining st.fenceCarry with
    | none =>
      rw [hopen] at h
      cases h
      exact ⟨nofun, rfl⟩
    | some fc =>
      rw [hopen] at h
      dsimp only at h ⊢
      split at h
      · next hclosed =>
        cases h
        rw [if_pos hclosed]
        refine ⟨fun fc' hfc => ?_, rfl⟩
        cases hfc
        exact Or.inl hclosed
      · next hclosed =>
        obtain ⟨split, hsplit, rfl⟩ := Option.map_eq_some_iff.1 h
        obtain ⟨hroom, rfl⟩ := findSplitPoint_eq_some hgo hsplit
        rw [if_neg hclosed]
        refine ⟨fun fc' hfc => ?_, rfl⟩
        cases hfc
        exact Or.inr hroom
  · next hfits =>
    rw [if_neg hfits, if_neg hfits]
    obtain ⟨split, hsplit, rfl⟩ := Option.map_eq_some_iff.1 h
    obtain ⟨hroom, rfl⟩ := findSplitPoint_eq_some hgo hsplit
    exact ⟨hroom, rfl⟩

/-- **A turn that settles ends**. -/
lemma turn_of_settles (h : st.Settles limit unit) (fuel : ℕ) :
    turn (fuel + 1) limit unit st = some (settledTurn limit unit st) := by
  unfold SplitState.Settles at h
  unfold turn settledTurn
  dsimp only
  split at h
  · next hfits =>
    rw [if_pos hfits, if_pos hfits]
    cases hopen : trailingOpenCarry st.remaining st.fenceCarry with
    | none => rfl
    | some fc =>
      dsimp only
      by_cases hclosed : measure (lastPiece st fc.closeSuffix).text unit ≤ limit
      · rw [if_pos hclosed, if_pos hclosed]
      · have hroom := (h fc hopen).resolve_left hclosed
        rw [if_neg hclosed, if_neg hclosed, findSplitPoint_of_roomy hroom, Option.map_some]
  · next hfits =>
    rw [if_neg hfits, if_neg hfits, findSplitPoint_of_roomy h, Option.map_some]

/-- What a turn gives: the last chunk, a chunk that leaves room for the line that closes a block of
code, or a chunk that ends at a cut. -/
inductive TurnResult (limit : ℕ) (unit : LenUnit) (st : SplitState) :
    Piece → Option SplitState → Prop
  | last (hfits : measure st.remaining unit ≤ st.contentLimit limit unit)
      (hopen : trailingOpenCarry st.remaining st.fenceCarry = none) :
      TurnResult limit unit st (lastPiece st []) none
  | lastClosed (fc : FenceCarry) (hfits : measure st.remaining unit ≤ st.contentLimit limit unit)
      (hopen : trailingOpenCarry st.remaining st.fenceCarry = some fc)
      (hclosed : measure (lastPiece st fc.closeSuffix).text unit ≤ limit) :
      TurnResult limit unit st (lastPiece st fc.closeSuffix) none
  | overflow (fc : FenceCarry) (split : SplitPoint)
      (hfits : measure st.remaining unit ≤ st.contentLimit limit unit)
      (hopen : trailingOpenCarry st.remaining st.fenceCarry = some fc)
      (hclosed : ¬measure (lastPiece st fc.closeSuffix).text unit ≤ limit)
      (hroom : Roomy unit st.remaining st.fenceCarry (st.bodyLimit limit unit fc))
      (hsplit : settledSplit st.remaining (st.bodyLimit limit unit fc) unit st.fenceCarry
        st.inlineCarry = split) :
      TurnResult limit unit st (overflowPiece limit unit st fc split).1
        (some (overflowPiece limit unit st fc split).2)
  | cut (split : SplitPoint) (hfits : ¬measure st.remaining unit ≤ st.contentLimit limit unit)
      (hroom : Roomy unit st.remaining st.fenceCarry (st.contentLimit limit unit))
      (hsplit : settledSplit st.remaining (st.contentLimit limit unit) unit st.fenceCarry
        st.inlineCarry = split) :
      TurnResult limit unit st (cutPiece st split).1 (some (cutPiece st split).2)

/-- **A turn that ends** has one of these results. -/
theorem turnResult_of_turn (hgo : st.remaining ≠ []) {fuel : ℕ} {piece : Piece}
    {next : Option SplitState} (h : turn fuel limit unit st = some (piece, next)) :
    TurnResult limit unit st piece next := by
  obtain ⟨hsettles, hresult⟩ := turn_eq_some hgo h
  unfold SplitState.Settles at hsettles
  unfold settledTurn at hresult
  dsimp only at hresult
  split at hresult
  · next hfits =>
    rw [if_pos hfits] at hsettles
    split at hresult
    · next fc hopen =>
      split at hresult
      · next hclosed =>
        cases hresult
        exact .lastClosed fc hfits hopen hclosed
      · next hclosed =>
        cases hresult
        exact .overflow fc _ hfits hopen hclosed ((hsettles fc hopen).resolve_left hclosed) rfl
    · next hopen =>
      cases hresult
      exact .last hfits hopen
  · next hfits =>
    rw [if_neg hfits] at hsettles
    cases hresult
    exact .cut _ hfits hsettles rfl

/-! ## What a turn takes from the text -/

/-- The characters of a text that are not white space. -/
def visible (text : List Char) : List Char := text.filter fun c => !isWhiteSpace c

lemma visible_append (s t : List Char) : visible (s ++ t) = visible s ++ visible t :=
  List.filter_append ..

lemma visible_dropWhile {p : Char → Bool} (hp : ∀ c, p c → isWhiteSpace c) (s : List Char) :
    visible (s.dropWhile p) = visible s := by
  induction s with
  | nil => rfl
  | cons c s ih =>
    rw [List.dropWhile_cons]
    split
    · next hc => rw [ih, visible, visible, List.filter_cons_of_neg (by simp [hp c hc])]
    · rfl

lemma visible_reverse (s : List Char) : visible s.reverse = (visible s).reverse :=
  List.filter_reverse

lemma visible_trimEnd (s : List Char) : visible (trimEnd s) = visible s := by
  rw [trimEnd, visible_reverse, visible_dropWhile (fun _ h => h), visible_reverse,
    List.reverse_reverse]

lemma isWhiteSpace_of_isBlankChar (c : Char) (h : isBlankChar c) : isWhiteSpace c := by
  unfold isBlankChar at h
  rcases Bool.or_eq_true_iff.1 h with h | h
  · rw [of_decide_eq_true h]
    decide
  · rw [of_decide_eq_true h]
    decide

lemma bodyWithin_ne_nil (hgo : st.remaining ≠ []) (head : List Char) (budget : ℕ) :
    bodyWithin st unit head budget ≠ [] := by
  unfold bodyWithin
  dsimp only
  split
  · simpa using hgo
  · assumption

lemma bodyWithin_isPrefix (unit : LenUnit) {head : List Char} (hhead : head <+: st.remaining)
    (budget : ℕ) :
    bodyWithin st unit head budget <+: st.remaining := by
  unfold bodyWithin
  dsimp only
  split
  · exact List.take_prefix _ _
  · exact (trimToUnitBudget_isPrefix ..).trans ((trimEnd_isPrefix _).trans hhead)

lemma overflowPiece_remaining (fc : FenceCarry) (split : SplitPoint) :
    (overflowPiece limit unit st fc split).2.remaining =
      st.remaining.drop (overflowPiece limit unit st fc split).1.body.length := rfl

/-- **A turn takes what it puts out from the text**, and nothing else but white space. -/
theorem TurnResult.visible_eq {piece : Piece} {next : Option SplitState}
    (h : TurnResult limit unit st piece next) :
    visible st.remaining =
      visible piece.body ++ visible ((next.map SplitState.remaining).getD []) := by
  cases h with
  | last => exact (visible_trimEnd _).symm.trans (List.append_nil _).symm
  | lastClosed => exact (visible_trimEnd _).symm.trans (List.append_nil _).symm
  | overflow fc split =>
    have hbegins : (overflowPiece limit unit st fc split).1.body <+: st.remaining :=
      bodyWithin_isPrefix unit (List.take_prefix _ _) _
    rw [Option.map_some, Option.getD_some, ← visible_append, overflowPiece_remaining,
      List.prefix_iff_eq_append.1 hbegins]
  | cut split =>
    have hbody : (cutPiece st split).1.body = trimEnd (st.remaining.take split.index) := by
      unfold cutPiece
      dsimp only
      split <;> rfl
    have hrest : visible (cutPiece st split).2.remaining =
        visible (st.remaining.drop split.index) := by
      unfold cutPiece
      dsimp only
      split
      · rfl
      · exact visible_dropWhile isWhiteSpace_of_isBlankChar _
    rw [Option.map_some, Option.getD_some, hbody, hrest, visible_trimEnd, ← visible_append,
      List.take_append_drop]

/-! ## What a turn leaves for the next one -/

/-- What is carried from turn to turn is well formed. -/
structure SplitState.Sound (st : SplitState) : Prop where
  markers : MarkersPlaced st.inlineCarry
  table : ∀ header, st.tableCarry = some header →
    ∃ chunk rest, openTableHeader chunk rest = some header

lemma SplitState.Sound.start (message : List Char) : (SplitState.start message).Sound :=
  ⟨MarkersPlaced.nil, nofun⟩

/-- A turn leaves what it carries well formed. -/
lemma TurnResult.sound {piece : Piece} {next : SplitState} (hgo : st.remaining ≠ [])
    (hst : st.Sound) (h : TurnResult limit unit st piece (some next)) : next.Sound := by
  cases h with
  | overflow fc split => exact ⟨MarkersPlaced.nil, nofun⟩
  | cut split hfits hroom hsplit =>
    have hmarkers := (settledSplit_spec hgo hroom hst.markers hsplit).2.2.2
    unfold cutPiece
    dsimp only
    split
    · exact ⟨MarkersPlaced.nil, nofun⟩
    · exact ⟨hmarkers, fun header htable => ⟨_, _, htable⟩⟩

/-- **Less text remains after a turn**. -/
theorem TurnResult.shorter {piece : Piece} {next : SplitState} (hgo : st.remaining ≠ [])
    (hst : st.Sound) (h : TurnResult limit unit st piece (some next)) :
    next.remaining.length < st.remaining.length := by
  have hlength := List.length_pos_iff.2 hgo
  cases h with
  | overflow fc split =>
    have hbody : 0 < (overflowPiece limit unit st fc split).1.body.length :=
      List.length_pos_iff.2 (bodyWithin_ne_nil hgo _ _)
    rw [overflowPiece_remaining, List.length_drop]
    omega
  | cut split hfits hroom hsplit =>
    have hindex := (settledSplit_spec hgo hroom hst.markers hsplit).1
    have hrest : (cutPiece st split).2.remaining.length ≤
        (st.remaining.drop split.index).length := by
      unfold cutPiece
      dsimp only
      split
      · exact Nat.le_refl _
      · exact (List.dropWhile_suffix _).length_le
    rw [List.length_drop] at hrest
    omega

/-! ## The loop -/

lemma SplitState.ne_nil_of_done {st : SplitState} (h : st.done = false) : st.remaining ≠ [] := by
  simpa [SplitState.done] using h

/-- The loop takes a turn in this state when it splits the message. -/
def ReachedState (message : List Char) (limit : ℕ) (unit : LenUnit) (st : SplitState) : Prop :=
  wholeMessage message limit unit = none ∧
    Loop.Reached SplitState.done (fun fuel => turn fuel limit unit) (SplitState.start message) st

/-- What a turn gives does not depend on its fuel. -/
lemma turn_steady (limit : ℕ) (unit : LenUnit) :
    Loop.Steady SplitState.done fun fuel => turn fuel limit unit := by
  intro st f g r r' hgo hr hr'
  have hne := SplitState.ne_nil_of_done hgo
  rw [(turn_eq_some hne hr).2, (turn_eq_some hne hr').2]

/-- A message that is split is not empty. -/
lemma ne_nil_of_split {message : List Char} (h : wholeMessage message limit unit = none) :
    message ≠ [] := by
  rintro rfl
  cases h

lemma start_done {message : List Char} (h : wholeMessage message limit unit = none) :
    (SplitState.start message).done = false := by
  simpa [SplitState.done, SplitState.start] using ne_nil_of_split h

lemma turn_sound (st : SplitState) (fuel : ℕ) (piece : Piece) (next : SplitState) (hst : st.Sound)
    (hgo : st.done = false) (h : turn fuel limit unit st = some (piece, some next)) : next.Sound :=
  have hne := SplitState.ne_nil_of_done hgo
  (turnResult_of_turn hne h).sound hne hst

end MyClaw
