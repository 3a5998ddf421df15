import MyClaw.Channels.QqDollars

set_option autoImplicit false

/-!
# Bold text in the messages of the QQ bot

`pad_bold_markers_for_cjk` (`channels/qqbot/markdown_sanitize.rs`) puts a space before an opening marker
and behind a closing one, where a character that is not ASCII stands there.  Whether a marker opens or
closes is told by those before it, in the same paragraph.

## Main definitions

* `boldTurn`, `padBoldMarkers` — one turn of the pass, and the pass.
* `sanitizeQqMarkdown` — both passes.
* `Padded` — a text with spaces before some of its stars and characters that are not ASCII.

## Main results

* `padBoldMarkers_padBoldMarkers` — a second pass changes nothing.
-/

namespace MyClaw

open Rewrite

/-! ## The pass -/

/-- `is_cjk_adjacent`. -/
def isCjkAdjacent (c : Char) : Bool := 128 ≤ c.toNat && c ≠ '\u200b'

/-- What the pass knows of the text before: the fence, the marker that is open, the last character. -/
structure BoldState where
  inFence : Bool
  boldOpen : Bool
  prev : Option Char

/-- The pass is at the beginning of a line. -/
def BoldState.lineStart (s : BoldState) : Bool := s.prev = none || s.prev = some '\n'

/-- The character of a fence at the beginning of a text. -/
def fenceChar : List Char → Option Char
  | '`' :: '`' :: '`' :: _ => some '`'
  | '~' :: '~' :: '~' :: _ => some '~'
  | _ => none

/-- The space that stands between a marker and this character. -/
def boldPad (c : Option Char) : List Char := if c.any isCjkAdjacent then [' '] else []

/-- The turn outside of fence lines. -/
def boldTextTurn (s : BoldState) : List Char → Rewrite.Turn BoldState Char
  | [] => ⟨[], [], s⟩
  | c :: rest =>
    if s.inFence then ⟨[c], rest, { s with prev := some c }⟩
    else if c = '*' ∧ rest.head? = some '*' then
      if s.boldOpen then
        ⟨'*' :: '*' :: boldPad rest.tail.head?, rest.tail,
          { s with boldOpen := false, prev := some '*' }⟩
      else
        ⟨boldPad s.prev ++ ['*', '*'], rest.tail, { s with boldOpen := true, prev := some '*' }⟩
    else
      -- a marker does not stay open over the end of a paragraph
      ⟨[c], rest, { s with
        boldOpen := if c = '\n' ∧ rest.head? = some '\n' then false else s.boldOpen
        prev := some c }⟩

/-- One turn of `pad_bold_markers_for_cjk`. -/
def boldTurn (s : BoldState) (text : List Char) : Rewrite.Turn BoldState Char :=
  match if s.lineStart then fenceChar text else none with
  | some fc =>
    ⟨text.takeWhile (· = fc), text.dropWhile (· = fc),
      { s with inFence := !s.inFence, prev := some fc }⟩
  | none => boldTextTurn s text

/-- `pad_bold_markers_for_cjk`. -/
def padBoldMarkers (input : List Char) : List Char := pass boldTurn ⟨false, false, none⟩ input

/-- `sanitize_qq_markdown`. -/
def sanitizeQqMarkdown (input : List Char) : List Char := padBoldMarkers (sanitizeDollars input)

example : sanitizeQqMarkdown "价 $99，**重要**提示".toList = "价 \\$99， **重要** 提示".toList := by decide

/-! ## Padding -/

/-- A text with spaces before some of its stars and characters that are not ASCII. -/
inductive Padded : List Char → List Char → Prop
  | nil : Padded [] []
  | keep (c : Char) {text out : List Char} (h : Padded text out) : Padded (c :: text) (c :: out)
  | pad {c : Char} {text out : List Char} (hc : c = '*' ∨ isCjkAdjacent c = true)
      (h : Padded (c :: text) out) : Padded (c :: text) (' ' :: out)

namespace Padded

variable {text out text' out' : List Char}

/-- A text that is kept before one that is padded. -/
lemma append_left (h : Padded text out) (before : List Char) :
    Padded (before ++ text) (before ++ out) := by
  induction before with
  | nil => exact h
  | cons c before ih => exact .keep c ih

/-- The space that may stand before a text. -/
lemma boldPad_append (h : Padded text out) : Padded text (boldPad text.head? ++ out) := by
  rw [boldPad]
  split_ifs with hc
  · cases text with
    | nil => cases hc
    | cons c text => exact .pad (.inr hc) h
  · exact h

/-- The first character is the same, or a space before a star or a character that is not ASCII. -/
lemma head? (h : Padded text out) : out.head? = text.head? ∨
    out.head? = some ' ' ∧ ∃ c, text.head? = some c ∧ (c = '*' ∨ isCjkAdjacent c = true) := by
  cases h with
  | nil => exact .inl rfl
  | keep c _ => exact .inl rfl
  | @pad c _ _ hc _ => exact .inr ⟨rfl, c, rfl, hc⟩

/-- The text begins with another character than a space only if it did before. -/
lemma head?_eq {c : Char} (h : Padded text out) (hc : c ≠ ' ') (hout : out.head? = some c) :
    text.head? = some c := by
  rcases h.head? with heq | ⟨hspace, -⟩
  · exact heq.symm.trans hout
  · exact absurd (Option.some.inj (hout.symm.trans hspace)) hc

/-- A newline stays at the beginning. -/
lemma head?_newline_iff (h : Padded text out) : out.head? = some '\n' ↔ text.head? = some '\n' := by
  refine ⟨h.head?_eq (by decide), fun htext => ?_⟩
  rcases h.head? with heq | ⟨-, c, hc, hpad⟩
  · exact heq.trans htext
  · obtain rfl := Option.some.inj (htext.symm.trans hc)
    exact absurd hpad (by decide)

/-- Fences are not made. -/
lemma fenceChar_eq_none {c : Char} (h : Padded text out) (hnone : fenceChar (c :: text) = none) :
    fenceChar (c :: out) = none := by
  have hpair {fc : Char} (hfc : fc ≠ ' ') {more : List Char} (hout : out = fc :: fc :: more) :
      ∃ rest, text = fc :: fc :: rest := by
    subst hout
    cases h with
    | keep _ h =>
      cases h with
      | keep _ _ => exact ⟨_, rfl⟩
      | pad _ _ => exact absurd rfl hfc
    | pad _ _ => exact absurd rfl hfc
  rw [fenceChar.eq_def]
  split
  · rename_i more heq
    obtain ⟨rfl, hout⟩ := List.cons.inj heq
    obtain ⟨rest, rfl⟩ := hpair (by decide) hout
    cases hnone
  · rename_i more heq
    obtain ⟨rfl, hout⟩ := List.cons.inj heq
    obtain ⟨rest, rfl⟩ := hpair (by decide) hout
    cases hnone
  · rfl

end Padded

/-! ## One turn -/

section OneTurn

variable {rest X : List Char} {c : Char} {s s₂ : BoldState}

/-- A fence begins with three of its characters. -/
lemma fenceChar_eq_some {text : List Char} {fc : Char} (h : fenceChar text = some fc) :
    (fc = '`' ∨ fc = '~') ∧ ∃ rest, text = fc :: fc :: fc :: rest := by
  rw [fenceChar.eq_def] at h
  split at h
  · obtain rfl := Option.some.inj h
    exact ⟨.inl rfl, _, rfl⟩
  · obtain rfl := Option.some.inj h
    exact ⟨.inr rfl, _, rfl⟩
  · cases h

lemma boldTurn_of_fence {text : List Char} {fc : Char} (hline : s.lineStart = true)
    (h : fenceChar text = some fc) :
    boldTurn s text = ⟨text.takeWhile (· = fc), text.dropWhile (· = fc),
      { s with inFence := !s.inFence, prev := some fc }⟩ := by
  rw [boldTurn, if_pos hline, h]

lemma boldTurn_of_text {text : List Char} (h : s.lineStart = true → fenceChar text = none) :
    boldTurn s text = boldTextTurn s text := by
  rw [boldTurn]
  cases hline : s.lineStart with
  | true => rw [if_pos rfl, h hline]
  | false => rfl

lemma boldTextTurn_inFence (h : s.inFence = true) (c : Char) (rest : List Char) :
    boldTextTurn s (c :: rest) = ⟨[c], rest, { s with prev := some c }⟩ := by
  rw [boldTextTurn, if_pos h]

lemma boldTextTurn_closing (h : s.inFence = false) (hopen : s.boldOpen = true) (rest : List Char) :
    boldTextTurn s ('*' :: '*' :: rest) =
      ⟨'*' :: '*' :: boldPad rest.head?, rest, { s with boldOpen := false, prev := some '*' }⟩ := by
  rw [boldTextTurn, h, if_neg nofun, if_pos ⟨rfl, rfl⟩, if_pos hopen]
  rfl

lemma boldTextTurn_opening (h : s.inFence = false) (hopen : s.boldOpen = false) (rest : List Char) :
    boldTextTurn s ('*' :: '*' :: rest) =
      ⟨boldPad s.prev ++ ['*', '*'], rest, { s with boldOpen := true, prev := some '*' }⟩ := by
  rw [boldTextTurn, h, if_neg nofun, if_pos ⟨rfl, rfl⟩, hopen, if_neg nofun]
  rfl

lemma boldTextTurn_plain (h : s.inFence = false) (hstars : ¬ (c = '*' ∧ rest.head? = some '*')) :
    boldTextTurn s (c :: rest) = ⟨[c], rest, { s with
      boldOpen := if c = '\n' ∧ rest.head? = some '\n' then false else s.boldOpen
      prev := some c }⟩ := by
  rw [boldTextTurn, h, if_neg nofun, if_neg hstars]

/-- The turns outside of fence lines: in a fence, at a marker that closes or opens, and elsewhere. -/
lemma boldTextTurn_cases (s : BoldState) (c : Char) (rest : List Char) :
    s.inFence = true ∨
      (s.inFence = false ∧ ∃ more, c = '*' ∧ rest = '*' :: more) ∨
        (s.inFence = false ∧ ¬ (c = '*' ∧ rest.head? = some '*')) := by
  cases hfence : s.inFence with
  | true => exact .inl rfl
  | false =>
    by_cases hstars : c = '*' ∧ rest.head? = some '*'
    · obtain ⟨more, hmore⟩ := List.head?_eq_some_iff.1 hstars.2
      exact .inr (.inl ⟨rfl, more, hstars.1, hmore⟩)
    · exact .inr (.inr ⟨rfl, hstars⟩)

/-- A turn reads something and leaves the rest. -/
lemma shrinks_boldTurn : Shrinks boldTurn := by
  intro s c rest
  have htext : (boldTextTurn s (c :: rest)).rest.length ≤ rest.length := by
    rcases boldTextTurn_cases s c rest with h | ⟨h, more, rfl, rfl⟩ | ⟨h, hstars⟩
    · rw [boldTextTurn_inFence h]
    · cases hopen : s.boldOpen with
      | true =>
        rw [boldTextTurn_closing h hopen]
        exact Nat.le_succ _
      | false =>
        rw [boldTextTurn_opening h hopen]
        exact Nat.le_succ _
    · rw [boldTextTurn_plain h hstars]
  by_cases hline : s.lineStart = true
  · cases hfence : fenceChar (c :: rest) with
    | none => rwa [boldTurn_of_text fun _ => hfence]
    | some fc =>
      obtain ⟨-, more, hmore⟩ := fenceChar_eq_some hfence
      obtain ⟨rfl, rfl⟩ := List.cons.inj hmore
      rw [boldTurn_of_fence hline hfence]
      dsimp only
      rw [List.dropWhile_cons_of_pos (by simp)]
      exact (List.dropWhile_suffix _).length_le
  · rwa [boldTurn_of_text fun h => absurd h hline]

/-- What may be written for the rest may be written behind what the turn has written. -/
lemma padded_boldTurn (h : Padded (boldTurn s (c :: rest)).rest X) :
    Padded (c :: rest) ((boldTurn s (c :: rest)).written ++ X) := by
  have htext (hrest : Padded (boldTextTurn s (c :: rest)).rest X) :
      Padded (c :: rest) ((boldTextTurn s (c :: rest)).written ++ X) := by
    rcases boldTextTurn_cases s c rest with hfence | ⟨hfence, more, rfl, rfl⟩ | ⟨hfence, hstars⟩
    · rw [boldTextTurn_inFence hfence] at hrest ⊢
      exact .keep c hrest
    · cases hopen : s.boldOpen with
      | true =>
        rw [boldTextTurn_closing hfence hopen] at hrest ⊢
        exact .keep _ (.keep _ hrest.boldPad_append)
      | false =>
        rw [boldTextTurn_opening hfence hopen] at hrest ⊢
        have hboth : Padded ('*' :: '*' :: more) (['*', '*'] ++ X) := .keep _ (.keep _ hrest)
        dsimp only
        rw [boldPad]
        split_ifs
        · exact .pad (.inl rfl) hboth
        · exact hboth
    · rw [boldTextTurn_plain hfence hstars] at hrest ⊢
      exact .keep c hrest
  by_cases hline : s.lineStart = true
  · cases hfence : fenceChar (c :: rest) with
    | none =>
      rw [boldTurn_of_text fun _ => hfence] at h ⊢
      exact htext h
    | some fc =>
      rw [boldTurn_of_fence hline hfence] at h ⊢
      have hpadded := h.append_left ((c :: rest).takeWhile (· = fc))
      rwa [List.takeWhile_append_dropWhile] at hpadded
  · rw [boldTurn_of_text fun h => absurd h hline] at h ⊢
    exact htext h

/-! ## A second pass -/

/-- The second pass knows as much as the first, but for a space that stands behind a closing marker. -/
structure SameBold (s : BoldState) (text : List Char) (s₂ : BoldState) : Prop where
  inFence : s₂.inFence = s.inFence
  boldOpen : s₂.boldOpen = s.boldOpen
  prev : s₂.prev = s.prev ∨
    s.inFence = false ∧ s.prev = some '*' ∧ s₂.prev = some ' ' ∧ text.head?.any isCjkAdjacent = true

/-- Before a text that begins in ASCII the states agree. -/
lemma SameBold.eq (h : SameBold s (c :: rest) s₂) (hc : isCjkAdjacent c = false) : s₂ = s := by
  obtain ⟨hfence, hopen, hprev | ⟨-, -, -, hhead⟩⟩ := h
  · cases s
    cases s₂
    simp_all
  · rw [List.head?_cons, Option.any_some, hc] at hhead
    cases hhead

/-- The second pass is at the beginning of a line only where the first was. -/
lemma SameBold.lineStart {text : List Char} (h : SameBold s text s₂) (hline : s₂.lineStart = true) :
    s.lineStart = true := by
  rcases h.prev with hprev | ⟨-, -, hprev, -⟩
  · rwa [BoldState.lineStart, hprev] at hline
  · rw [BoldState.lineStart, hprev] at hline
    exact absurd hline (by decide)

lemma boldPad_eq_nil {o : Option Char} (h : o.any isCjkAdjacent = false) : boldPad o = [] := by
  rw [boldPad, h]
  rfl

/-- The characters of a fence are kept. -/
lemma keeps_fence {fc : Char} (hline : s.lineStart = true) (hfence : fenceChar (c :: rest) = some fc)
    (hX : Padded ((c :: rest).dropWhile (· = fc)) X) :
    Keeps boldTurn X s ((c :: rest).takeWhile (· = fc))
      { s with inFence := !s.inFence, prev := some fc } := by
  obtain ⟨hfc, more, hmore⟩ := fenceChar_eq_some hfence
  have hspace : fc ≠ ' ' := by rcases hfc with rfl | rfl <;> decide
  have hX' : X.head? ≠ some fc := fun hhead => by
    have hdrop := hX.head?_eq hspace hhead
    have hnot := List.head?_dropWhile_not (fun d => decide (d = fc)) (c :: rest)
    rw [hdrop] at hnot
    exact absurd hnot (by simp)
  have hall : ∀ d ∈ (c :: rest).takeWhile (· = fc), decide (d = fc) = true := fun d hd =>
    List.mem_takeWhile_imp (p := fun d => decide (d = fc)) hd
  have htake : ((c :: rest).takeWhile (· = fc) ++ X).takeWhile (· = fc) =
      (c :: rest).takeWhile (· = fc) := by
    rw [takeWhile_append_of_head? _ fun d hd => ?_]
    · rw [List.takeWhile_takeWhile]
      simp
    · refine decide_eq_false ?_
      rintro rfl
      exact hX' hd
  have hdrop : ((c :: rest).takeWhile (· = fc) ++ X).dropWhile (· = fc) = X := by
    rw [List.dropWhile_append_of_pos hall]
    cases X with
    | nil => rfl
    | cons d X =>
      refine List.dropWhile_cons_of_neg ?_
      rw [decide_eq_true_eq]
      rintro rfl
      exact hX' rfl
  have hagain : fenceChar ((c :: rest).takeWhile (· = fc) ++ X) = some fc := by
    rw [hmore]
    rcases hfc with rfl | rfl <;> rfl
  have hne : (c :: rest).takeWhile (· = fc) ≠ [] := by
    rw [hmore, List.takeWhile_cons_of_pos (by simp)]
    exact List.cons_ne_nil _ _
  refine .single hne ?_
  rw [boldTurn_of_fence hline hagain, htake, hdrop]

/-- A closing marker is kept, with the space behind it. -/
lemma keeps_closing {more : List Char} (hfence : s.inFence = false) (hopen : s.boldOpen = true)
    (hX : Padded more X) :
    ∃ s₂', Keeps boldTurn X s ('*' :: '*' :: boldPad more.head?) s₂' ∧
      SameBold { s with boldOpen := false, prev := some '*' } more s₂' := by
  have hturn (X : List Char) : boldTurn s ('*' :: '*' :: X) =
      ⟨'*' :: '*' :: boldPad X.head?, X, { s with boldOpen := false, prev := some '*' }⟩ := by
    rw [boldTurn_of_text fun _ => rfl, boldTextTurn_closing hfence hopen]
  cases hpad : more.head?.any isCjkAdjacent with
  | false =>
    have hnone : X.head?.any isCjkAdjacent = false := by
      rcases hX.head? with heq | ⟨hspace, -⟩
      · rw [heq, hpad]
      · rw [hspace]
        rfl
    rw [boldPad_eq_nil hpad]
    refine ⟨_, .single (List.cons_ne_nil _ _) (hturn X |>.trans ?_), rfl, rfl, .inl rfl⟩
    rw [boldPad_eq_nil hnone]
  | true =>
    have hspace : boldPad more.head? = [' '] := by rw [boldPad, hpad]; rfl
    rw [hspace]
    refine ⟨{ s with boldOpen := false, prev := some ' ' },
      @Rewrite.Keeps.turn _ _ _ _ _ _ _ ['*', '*'] _ (List.cons_ne_nil _ _) (hturn (' ' :: X))
        (.single (List.cons_ne_nil _ _) ?_), rfl, rfl, .inr ⟨hfence, rfl, rfl, hpad⟩⟩
    rw [boldTurn_of_text fun _ => rfl]
    exact boldTextTurn_plain hfence (by rintro ⟨h, -⟩; exact absurd h (by decide))

/-- An opening marker is kept, with the space before it. -/
lemma keeps_opening (hfence : s.inFence = false) (hopen : s.boldOpen = false) :
    Keeps boldTurn X s (boldPad s.prev ++ ['*', '*'])
      { s with boldOpen := true, prev := some '*' } := by
  have hturn {s : BoldState} (hfence : s.inFence = false) (hopen : s.boldOpen = false)
      (hpad : s.prev.any isCjkAdjacent = false) : boldTurn s ('*' :: '*' :: X) =
      ⟨['*', '*'], X, { s with boldOpen := true, prev := some '*' }⟩ := by
    rw [boldTurn_of_text fun _ => rfl, boldTextTurn_opening hfence hopen, boldPad_eq_nil hpad]
    rfl
  cases hpad : s.prev.any isCjkAdjacent with
  | false =>
    rw [boldPad_eq_nil hpad]
    exact .single (List.cons_ne_nil _ _) (hturn hfence hopen hpad)
  | true =>
    obtain ⟨p, hp, hcjk⟩ := (Option.any_eq_true _ _).1 hpad
    have hline : ¬ s.lineStart = true := by
      rw [BoldState.lineStart, hp]
      intro h
      have hnewline : p = '\n' := by simpa using h
      rw [hnewline] at hcjk
      exact absurd hcjk (by decide)
    have hspace : boldPad s.prev = [' '] := by rw [boldPad, hpad]; rfl
    rw [hspace]
    refine @Rewrite.Keeps.turn _ _ _ _ _ { s with prev := some ' ' } _ [' '] _ (List.cons_ne_nil _ _) ?_
      (.single (List.cons_ne_nil _ _) (hturn (s := { s with prev := some ' ' }) hfence hopen rfl))
    rw [boldTurn_of_text fun h => absurd h hline]
    exact boldTextTurn_plain hfence (by rintro ⟨h, -⟩; exact absurd h (by decide))

/-- What is written outside of fence lines is kept. -/
lemma keeps_boldTextTurn (hs : SameBold s (c :: rest) s₂)
    (hnone : s.lineStart = true → fenceChar (c :: rest) = none)
    (hX : Padded (boldTextTurn s (c :: rest)).rest X) :
    ∃ s₂', Keeps boldTurn X s₂ (boldTextTurn s (c :: rest)).written s₂' ∧
      SameBold (boldTextTurn s (c :: rest)).next (boldTextTurn s (c :: rest)).rest s₂' := by
  have htext (h : Padded rest X) : boldTurn s₂ ([c] ++ X) = boldTextTurn s₂ (c :: X) :=
    boldTurn_of_text fun hline => h.fenceChar_eq_none (hnone (hs.lineStart hline))
  rcases boldTextTurn_cases s c rest with hfence | ⟨hfence, more, rfl, rfl⟩ | ⟨hfence, hstars⟩
  · rw [boldTextTurn_inFence hfence] at hX ⊢
    refine ⟨_, .single (List.cons_ne_nil _ _) ((htext hX).trans
      (boldTextTurn_inFence (hs.inFence.trans hfence) c X)), hs.inFence, hs.boldOpen, .inl rfl⟩
  · obtain rfl := hs.eq (by decide)
    cases hopen : s₂.boldOpen with
    | true =>
      rw [boldTextTurn_closing hfence hopen] at hX ⊢
      exact keeps_closing hfence hopen hX
    | false =>
      rw [boldTextTurn_opening hfence hopen]
      exact ⟨_, keeps_opening hfence hopen, rfl, rfl, .inl rfl⟩
  · rw [boldTextTurn_plain hfence hstars] at hX ⊢
    have hstars' : ¬ (c = '*' ∧ X.head? = some '*') := fun h =>
      hstars ⟨h.1, hX.head?_eq (by decide) h.2⟩
    refine ⟨_, .single (List.cons_ne_nil _ _) ((htext hX).trans
      (boldTextTurn_plain (hs.inFence.trans hfence) hstars')), hs.inFence, ?_, .inl rfl⟩
    exact if_congr (and_congr_right fun _ => hX.head?_newline_iff) rfl hs.boldOpen

/-- What a turn has written is kept. -/
lemma keeps_boldTurn (hs : SameBold s (c :: rest) s₂) (hX : Padded (boldTurn s (c :: rest)).rest X) :
    ∃ s₂', Keeps boldTurn X s₂ (boldTurn s (c :: rest)).written s₂' ∧
      SameBold (boldTurn s (c :: rest)).next (boldTurn s (c :: rest)).rest s₂' := by
  by_cases hline : s.lineStart = true
  · cases hfence : fenceChar (c :: rest) with
    | none =>
      rw [boldTurn_of_text fun _ => hfence] at hX ⊢
      exact keeps_boldTextTurn hs (fun _ => hfence) hX
    | some fc =>
      obtain ⟨hfc, more, hmore⟩ := fenceChar_eq_some hfence
      obtain rfl := hs.eq (by
        rw [(List.cons.inj hmore).1]
        rcases hfc with rfl | rfl <;> decide)
      rw [boldTurn_of_fence hline hfence] at hX ⊢
      exact ⟨_, keeps_fence hline hfence hX, rfl, rfl, .inl rfl⟩
  · rw [boldTurn_of_text fun h => absurd h hline] at hX ⊢
    exact keeps_boldTextTurn hs (fun h => absurd h hline) hX

end OneTurn

/-- **A second pass changes nothing**. -/
theorem padBoldMarkers_padBoldMarkers (input : List Char) :
    padBoldMarkers (padBoldMarkers input) = padBoldMarkers input :=
  pass_pass shrinks_boldTurn .nil (fun _ _ _ _ => padded_boldTurn) (fun _ _ _ _ _ => keeps_boldTurn)
    ⟨rfl, rfl, .inl rfl⟩

end MyClaw
