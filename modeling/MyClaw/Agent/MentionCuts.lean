import MyClaw.Agent.Mention

set_option autoImplicit false

/-!
# Where the deltas of an answer are cut

`RefRenderer` shows an answer in pieces, each rendered by itself.  A piece starts where a delta ends, or
at an open tag that is held back there.  Whether what is shown is `render_refs` of the whole answer
depends on where the deltas end: inside a tag that is shown by its name, and inside the text that
`render_refs` passes over.

## Main definitions

* `RefAt` — a tag that is shown by its name, at a place of a text.
* `Boundary`, `PieceStart` — where a delta ends, and where a piece starts.
* `ReadAnew` — the places of a text at which `render_refs` begins to look for the next tag, or is
  still looking.
* `CutsFit` — the cuts of the deltas do no harm.

## Main results

* `nextStart_iff` — the places where the pieces start are those that the boundaries tell.
* `noStartInside_iff` — no piece starts inside a tag exactly when each boundary inside it comes
  after its first four characters and before any other angle bracket.
* `refAt_drop_iff` — from a place that is read anew, the same tags are read.
* `streamed_eq_iff_cutsFit` — when the rendering of deltas is that of their text.
* `streamedMentions_iff` — when the two renderings of `collect_stream` are.

## Implementation notes

A place is the number of characters before it.
-/

namespace MyClaw

open Holes

variable {m : Mentions} {text rest : List Char} {place : ℕ} {id : List Char}

/-! ## The tags of a text and their places -/

variable (m) in
/-- `render_refs` shows a tag with this id at this place of the text by its name. -/
def RefAt (text : List Char) (place : ℕ) (id : List Char) : Prop :=
  HoleAt refTag (refPieces m text) place id

/-- The tag stands at its place. -/
lemma refAt_spec (h : RefAt m text place id) :
    ∃ before after, text = before ++ (refTag id ++ after) ∧ before.length = place := by
  obtain ⟨xs, ys, heq, hlen⟩ := h
  refine ⟨fill refTag xs, fill refTag ys, ?_, hlen⟩
  have hfill : fill refTag (refPieces m text) = text := fill_refTag_refPieces
  rw [← hfill, heq, fill_append, fill]

/-- The tags of a text are its first one, if that has a name, and those after it. -/
lemma refAt_iff :
    RefAt m text place id ↔
      ∃ before first after, firstRef text = some (before, first, after) ∧
        (place = before.length ∧ id = first ∧ (m.nameFor first).isSome ∨
          ∃ n, place = before.length + (refTag first).length + n ∧ RefAt m after n id) := by
  unfold RefAt
  rw [refPieces]
  split
  · rename_i hfirst
    simp [hfirst, not_holeAt_map_char]
  · rename_i before first after hfirst
    simp only [holeAt_append, not_holeAt_map_char, false_or, fill_map_char]
    constructor
    · rintro ⟨n, rfl, h⟩
      refine ⟨before, first, after, hfirst, ?_⟩
      split at h
      · rename_i hname
        rcases h with h | ⟨i, rfl, h⟩
        · rcases holeAt_hole_cons.1 h with ⟨rfl, rfl⟩ | ⟨i, -, h⟩
          · exact Or.inl ⟨rfl, rfl, hname⟩
          · exact absurd h not_holeAt_nil
        · refine Or.inr ⟨i, ?_, h⟩
          simp [fill, Nat.add_assoc]
      · rcases h with h | ⟨i, rfl, h⟩
        · exact absurd h not_holeAt_map_char
        · refine Or.inr ⟨i, ?_, h⟩
          rw [fill_map_char, Nat.add_assoc]
    · rintro ⟨before', first', after', hfirst', h⟩
      obtain ⟨rfl, rfl, rfl⟩ := by simpa [hfirst] using hfirst'
      rcases h with ⟨rfl, rfl, hname⟩ | ⟨n, rfl, h⟩
      · exact ⟨0, rfl, Or.inl (by simp [hname, holeAt_hole_cons])⟩
      · refine ⟨(refTag first).length + n, Nat.add_assoc _ _ _, Or.inr ⟨n, ?_, h⟩⟩
        split <;> simp [fill]

/-- A tag at the front of a text is its first one in a longer text, too. -/
lemma firstRef_append_of_some {before first after : List Char}
    (h : firstRef text = some (before, first, after)) :
    firstRef (text ++ rest) = some (before, first, after ++ rest) := by
  obtain ⟨htext, hid, hopen⟩ := firstRef_eq_some_iff.1 h
  refine firstRef_eq_some_iff.2 ⟨?_, hid, ?_⟩
  · rw [htext, List.append_assoc, List.append_assoc]
  · exact (findText_append_iff (List.cons_ne_nil _ _) (length_after_lt h).1).2 hopen

/-- The first tag of a longer text, if it ends within the text. -/
lemma firstRef_of_append {before first after : List Char}
    (h : firstRef (text ++ rest) = some (before, first, after))
    (hle : before.length + (refTag first).length ≤ text.length) :
    ∃ after', firstRef text = some (before, first, after') ∧ after = after' ++ rest := by
  obtain ⟨htext, hid, hopen⟩ := firstRef_eq_some_iff.1 h
  have hpre : before ++ refTag first <+: text := by
    have hlong : before ++ refTag first <+: text ++ rest := ⟨after, by rw [htext, List.append_assoc]⟩
    refine List.prefix_of_prefix_length_le hlong (List.prefix_append _ _) ?_
    rwa [List.length_append]
  obtain ⟨after', rfl⟩ := hpre
  have hpat : refOpen ≠ [] := List.cons_ne_nil _ _
  refine ⟨after', firstRef_eq_some_iff.2 ⟨List.append_assoc _ _ _, hid, ?_⟩, ?_⟩
  · refine (findText_append_iff hpat ?_).1 hopen
    simp only [List.length_append, length_refTag]
    omega
  · simpa [List.append_assoc] using htext.symm

/-- **The tags of a text** are those of a longer one that end within it. -/
theorem refAt_append_iff :
    RefAt m text place id ↔
      RefAt m (text ++ rest) place id ∧ place + (refTag id).length ≤ text.length := by
  induction hlen : text.length using Nat.strong_induction_on generalizing text place with
  | _ n ih =>
    have hpos : 0 < refOpen.length := by decide
    constructor
    · intro h
      obtain ⟨before, first, after, hfirst, hcase⟩ := refAt_iff.1 h
      have hsum := congrArg List.length (firstRef_eq_some_iff.1 hfirst).1
      simp only [List.length_append] at hsum
      rcases hcase with ⟨rfl, rfl, hname⟩ | ⟨i, rfl, hlater⟩
      · exact ⟨refAt_iff.2 ⟨_, _, _, firstRef_append_of_some hfirst, Or.inl ⟨rfl, rfl, hname⟩⟩,
          by omega⟩
      · have hlt : after.length < n := hlen ▸ (length_after_lt hfirst).2
        obtain ⟨hmore, hle⟩ := (ih _ hlt rfl).1 hlater
        exact ⟨refAt_iff.2 ⟨_, _, _, firstRef_append_of_some hfirst, Or.inr ⟨i, rfl, hmore⟩⟩,
          by omega⟩
    · rintro ⟨h, hle⟩
      obtain ⟨before, first, after, hfirst, hcase⟩ := refAt_iff.1 h
      have hend : before.length + (refTag first).length ≤ text.length := by
        rcases hcase with ⟨rfl, rfl, -⟩ | ⟨i, rfl, -⟩ <;> omega
      obtain ⟨after', hfirst', rfl⟩ := firstRef_of_append hfirst hend
      have hsum := congrArg List.length (firstRef_eq_some_iff.1 hfirst').1
      simp only [List.length_append] at hsum
      rcases hcase with ⟨rfl, rfl, hname⟩ | ⟨i, rfl, hlater⟩
      · exact refAt_iff.2 ⟨_, _, _, hfirst', Or.inl ⟨rfl, rfl, hname⟩⟩
      · have hlt : after'.length < n := hlen ▸ (length_after_lt hfirst').2
        refine refAt_iff.2 ⟨_, _, _, hfirst', Or.inr ⟨i, rfl, ?_⟩⟩
        exact (ih _ hlt rfl).2 ⟨hlater, by omega⟩

/-- The end of a text in which no tag ends has none. -/
lemma not_refAt_of_notMem (h : '>' ∉ text) : ¬ RefAt m text place id := by
  intro href
  obtain ⟨before, after, rfl, -⟩ := refAt_spec href
  exact h (by simp [refTag, refClose])

/-! ## Reading on from a place -/

/-- `render_refs` begins to look for the next tag at the place, or is still looking for it. -/
inductive ReadAnew : List Char → ℕ → Prop
  | looking {text : List Char} {place : ℕ} :
      (∀ o, findText refOpen text = some o → place ≤ o) → ReadAnew text place
  | after {text before first rest : List Char} {place : ℕ} :
      firstRef text = some (before, first, rest) → ReadAnew rest place →
        ReadAnew text (before.length + (refTag first).length + place)

/-- The first tag, from a place before it. -/
lemma firstRef_drop (h : ∀ o, findText refOpen text = some o → place ≤ o) :
    firstRef (text.drop place) =
      (firstRef text).map fun r => (r.1.drop place, r.2.1, r.2.2) := by
  have hpat : refOpen ≠ [] := List.cons_ne_nil _ _
  cases hfind : findText refOpen text with
  | none =>
    have hnone : findText refOpen (text.drop place) = none :=
      findText_eq_none_iff.2 fun hsub =>
        findText_eq_none_iff.1 hfind (hsub.trans (List.drop_suffix place text).isInfix)
    simp [firstRef, hfind, hnone]
  | some o =>
    have hle : place ≤ o := h o hfind
    obtain ⟨hpre, hfirst⟩ := findText_spec hfind
    have hdrop : findText refOpen (text.drop place) = some (o - place) := by
      refine (findText_eq_some_iff hpat).2 ⟨?_, fun j hj => ?_⟩
      · rwa [List.drop_drop, Nat.add_sub_cancel' hle]
      · rw [List.drop_drop]
        exact hfirst (place + j) (by omega)
    have hafter : (text.drop place).drop (o - place + refOpen.length) =
        text.drop (o + refOpen.length) := by
      rw [List.drop_drop, ← Nat.add_assoc, Nat.add_sub_cancel' hle]
    have hbefore : (text.drop place).take (o - place) = (text.take o).drop place := by
      rw [List.drop_take]
    unfold firstRef
    simp only [hfind, hdrop, Option.bind_some, hafter, hbefore]
    cases findText ['"'] (text.drop (o + refOpen.length)) with
    | none => rfl
    | some closeQuote =>
      simp only [Option.bind_some]
      split <;> rfl

/-- **From a place that is read anew** the same tags are read as from the beginning. -/
theorem refAt_drop_iff {start : ℕ} (h : ReadAnew text start) (hle : start ≤ place) :
    RefAt m (text.drop start) (place - start) id ↔ RefAt m text place id := by
  induction h generalizing place with
  | @looking text start hlook =>
    rw [refAt_iff, refAt_iff, firstRef_drop hlook]
    cases hfirst : firstRef text with
    | none => simp
    | some r =>
      obtain ⟨before, first, after⟩ := r
      have hstart : start ≤ before.length := hlook _ (firstRef_eq_some_iff.1 hfirst).2.2
      simp only [Option.map_some, Option.some.injEq, Prod.mk.injEq]
      constructor
      · rintro ⟨_, _, _, ⟨rfl, rfl, rfl⟩, hcase⟩
        refine ⟨_, _, _, ⟨rfl, rfl, rfl⟩, ?_⟩
        rw [List.length_drop] at hcase
        rcases hcase with ⟨hp, hid, hname⟩ | ⟨n, hp, h⟩
        · exact Or.inl ⟨by omega, hid, hname⟩
        · exact Or.inr ⟨n, by omega, h⟩
      · rintro ⟨_, _, _, ⟨rfl, rfl, rfl⟩, hcase⟩
        refine ⟨_, _, _, ⟨rfl, rfl, rfl⟩, ?_⟩
        rw [List.length_drop]
        rcases hcase with ⟨hp, hid, hname⟩ | ⟨n, hp, h⟩
        · exact Or.inl ⟨by omega, hid, hname⟩
        · exact Or.inr ⟨n, by omega, h⟩
  | @after text before first rest start hfirst hread ih =>
    obtain ⟨n, rfl⟩ := Nat.exists_eq_add_of_le hle
    have htext := (firstRef_eq_some_iff.1 hfirst).1
    have hdrop : text.drop (before.length + (refTag first).length + start) = rest.drop start := by
      rw [htext, ← List.drop_drop, ← List.drop_drop, List.drop_left, List.drop_left]
    have hpos : 0 < (refTag first).length := by simp
    rw [hdrop, Nat.add_sub_cancel_left]
    have hrest := ih (Nat.le_add_right start n)
    rw [Nat.add_sub_cancel_left] at hrest
    have hcases : RefAt m text (before.length + (refTag first).length + start + n) id ↔ _ := refAt_iff
    rw [hrest, hcases]
    constructor
    · exact fun h => ⟨_, _, _, hfirst, Or.inr ⟨start + n, by omega, h⟩⟩
    · rintro ⟨before', first', after', hfirst', hcase⟩
      obtain ⟨rfl, rfl, rfl⟩ := by simpa [hfirst] using hfirst'
      rcases hcase with ⟨hp, -, -⟩ | ⟨i, hp, h⟩
      · omega
      · rwa [show start + n = i by omega]

/-! ## Where the pieces start -/

variable {deltas pieces pre post : List (List Char)} {piece : List Char} {start : ℕ}

/-- One of the texts ends at the place, or the first one begins there. -/
def Boundary (texts : List (List Char)) (place : ℕ) : Prop :=
  ∃ earlier later, texts = earlier ++ later ∧ place = earlier.flatten.length

/-- The deltas end in an open tag at the place, whose first four characters came in one delta. -/
def OpenTagAt (deltas : List (List Char)) (place : ℕ) : Prop :=
  ∃ earlier u v later, deltas = earlier ++ (u ++ (refStart ++ v)) :: later ∧
    NoAngle (v ++ later.flatten) ∧ place = (earlier.flatten ++ u).length

/-- After these deltas the next piece starts at the place: at the open tag that they end in, or where
they end. -/
def NextStart (deltas : List (List Char)) (place : ℕ) : Prop :=
  OpenTagAt deltas place ∨ ¬ EndsInOpenTag deltas ∧ place = deltas.flatten.length

/-- A piece starts at the place after some of the deltas. -/
def PieceStart (deltas : List (List Char)) (place : ℕ) : Prop :=
  ∃ earlier later, deltas = earlier ++ later ∧ NextStart earlier place

/-- No piece starts between the two places. -/
def NoStart (deltas : List (List Char)) (lo hi : ℕ) : Prop :=
  ∀ start, PieceStart deltas start → start ≤ lo ∨ hi ≤ start

/-- An open tag at the end has its place. -/
lemma endsInOpenTag_iff : EndsInOpenTag deltas ↔ ∃ place, OpenTagAt deltas place :=
  ⟨fun ⟨earlier, u, v, later, heq, hv⟩ => ⟨_, earlier, u, v, later, heq, hv, rfl⟩,
    fun ⟨_, earlier, u, v, later, heq, hv, _⟩ => ⟨earlier, u, v, later, heq, hv⟩⟩

/-- The text that ends in an open tag. -/
lemma flatten_of_openTagAt (h : OpenTagAt deltas place) :
    ∃ x w, deltas.flatten = x ++ (refStart ++ w) ∧ NoAngle w ∧ place = x.length := by
  obtain ⟨earlier, u, v, later, rfl, hv, rfl⟩ := h
  exact ⟨earlier.flatten ++ u, v ++ later.flatten, by simp, hv, rfl⟩

/-- **The next piece starts** behind what has been let go. -/
theorem nextStart_iff : NextStart deltas place ↔ place = (letGo [] deltas).flatten.length := by
  have hheld : HeldTag [] := Or.inl rfl
  have hflat : (letGo [] deltas).flatten ++ heldBack [] deltas = deltas.flatten := flatten_letGo
  have hne : heldBack [] deltas ≠ [] ↔ EndsInOpenTag deltas := by
    rw [heldBack_ne_nil_iff hheld]
    simp
  have hopen (n : ℕ) (h : OpenTagAt deltas n) : n = (letGo [] deltas).flatten.length := by
    obtain ⟨x, w, htext, hw, rfl⟩ := flatten_of_openTagAt h
    have htag : HeldTag (heldBack [] deltas) := heldTag_heldBack hheld
    rcases htag with hnil | ⟨v, hv, hangle⟩
    · exact absurd hnil (hne.2 (endsInOpenTag_iff.2 ⟨_, h⟩))
    · -- The text has one last open tag.
      have hsplit : splitPending deltas.flatten = (x, refStart ++ w) := by
        rw [htext, splitPending_append hw]
      rw [← hflat, hv, splitPending_append hangle] at hsplit
      rw [(Prod.mk.inj hsplit).1]
  constructor
  · rintro (h | ⟨hends, rfl⟩)
    · exact hopen place h
    · have hnil : heldBack [] deltas = [] := not_not.1 (mt hne.1 hends)
      rw [← hflat, hnil, List.append_nil]
  · rintro rfl
    by_cases hends : EndsInOpenTag deltas
    · obtain ⟨n, hn⟩ := endsInOpenTag_iff.1 hends
      exact Or.inl (hopen n hn ▸ hn)
    · have hnil : heldBack [] deltas = [] := not_not.1 (mt hne.1 hends)
      exact Or.inr ⟨hends, by rw [← hflat, hnil, List.append_nil]⟩

/-- The pieces of deltas that come in two parts. -/
lemma letGo_append {pending : List Char} {earlier later : List (List Char)} :
    letGo pending (earlier ++ later) =
      letGo pending earlier ++ letGo (heldBack pending earlier) later := by
  induction earlier generalizing pending with
  | nil => rfl
  | cons delta earlier ih => rw [List.cons_append, letGo, letGo, ih, heldBack, List.cons_append]

/-- The first pieces are those of the first deltas. -/
lemma exists_of_letGo_eq_append {pending : List Char}
    (h : letGo pending deltas = pre ++ post) :
    ∃ earlier later, deltas = earlier ++ later ∧ letGo pending earlier = pre := by
  induction pre generalizing pending deltas with
  | nil => exact ⟨[], deltas, rfl, rfl⟩
  | cons piece pre ih =>
    cases deltas with
    | nil => exact absurd h (List.cons_ne_nil _ _).symm
    | cons delta deltas =>
      obtain ⟨hpiece, hrest⟩ := List.cons.inj h
      obtain ⟨earlier, later, rfl, hpre⟩ := ih hrest
      refine ⟨delta :: earlier, later, rfl, ?_⟩
      rw [letGo, hpre, hpiece]

/-- The pieces start where one of them ends, and at the beginning. -/
lemma pieceStart_iff : PieceStart deltas place ↔ Boundary (letGo [] deltas) place := by
  constructor
  · rintro ⟨earlier, later, rfl, h⟩
    exact ⟨_, _, letGo_append, nextStart_iff.1 h⟩
  · rintro ⟨pre, post, heq, rfl⟩
    obtain ⟨earlier, later, rfl, rfl⟩ := exists_of_letGo_eq_append heq
    exact ⟨earlier, later, rfl, nextStart_iff.2 rfl⟩

/-- No boundary lies inside one of the texts. -/
lemma boundary_le_or_le (h : Boundary (pre ++ piece :: post) place) :
    place ≤ pre.flatten.length ∨ pre.flatten.length + piece.length ≤ place := by
  obtain ⟨earlier, later, heq, rfl⟩ := h
  rcases List.append_eq_append_iff.1 heq with ⟨more, rfl, hmore⟩ | ⟨more, rfl, -⟩
  · cases more with
    | nil => simp
    | cons first more =>
      obtain ⟨rfl, -⟩ := List.cons.inj hmore
      right
      simp only [List.flatten_append, List.flatten_cons, List.length_append]
      omega
  · left
    simp

/-- A place behind a character lies in one of the texts, or at its end. -/
lemma exists_piece {n : ℕ} (hpos : 0 < n) (hle : n ≤ pieces.flatten.length) :
    ∃ pre piece post, pieces = pre ++ piece :: post ∧ pre.flatten.length < n ∧
      n ≤ pre.flatten.length + piece.length := by
  induction pieces generalizing n with
  | nil => exact absurd hle (Nat.not_le.2 hpos)
  | cons first pieces ih =>
    rw [List.flatten_cons, List.length_append] at hle
    rcases Nat.lt_or_ge first.length n with hlt | hge
    · obtain ⟨pre, piece, post, rfl, hpre, hpiece⟩ := ih (n := n - first.length) (by omega) (by omega)
      refine ⟨first :: pre, piece, post, rfl, ?_, ?_⟩ <;>
        (rw [List.flatten_cons, List.length_append]; omega)
    · exact ⟨[], first, pieces, rfl, hpos, by simpa using hge⟩

/-- **The tags of the pieces**: from a start the text is read as far as the next start. -/
theorem holeAt_pieces_iff :
    HoleAt refTag ((letGo [] deltas).flatMap (refPieces m) ++ (heldBack [] deltas).map .char)
        place id ↔
      ∃ start, PieceStart deltas start ∧ start ≤ place ∧
        NoStart deltas start (place + (refTag id).length) ∧
        RefAt m (deltas.flatten.drop start) (place - start) id := by
  have hflat : (letGo [] deltas).flatten ++ heldBack [] deltas = deltas.flatten := flatten_letGo
  have hfill (ts : List (List Char)) : fill refTag (ts.flatMap (refPieces m)) = ts.flatten := by
    simp only [fill_flatMap, fill_refTag_refPieces, List.flatMap_id']
  have hdrop {pre post : List (List Char)} {piece : List Char} (heq : letGo [] deltas = pre ++ piece :: post) :
      deltas.flatten.drop pre.flatten.length =
        piece ++ (post.flatten ++ heldBack [] deltas) := by
    rw [← hflat, heq, List.flatten_append, List.flatten_cons, List.append_assoc, List.drop_left,
      List.append_assoc]
  have hpos : 0 < (refTag id).length := by simp
  simp only [holeAt_append, not_holeAt_map_char, and_false, exists_false, or_false, holeAt_flatMap]
  constructor
  · rintro ⟨pre, piece, post, n, heq, rfl, h⟩
    have hlonger : RefAt m (piece ++ (post.flatten ++ heldBack [] deltas)) n id ∧ _ :=
      refAt_append_iff.1 h
    obtain ⟨hmore, hle⟩ := hlonger
    rw [hfill]
    refine ⟨pre.flatten.length, pieceStart_iff.2 ⟨pre, _, heq, rfl⟩, Nat.le_add_right _ _, ?_, ?_⟩
    · intro other hother
      rw [pieceStart_iff, heq] at hother
      rcases boundary_le_or_le hother with hbefore | hbehind
      · exact Or.inl hbefore
      · exact Or.inr (by omega)
    · rwa [hdrop heq, Nat.add_sub_cancel_left]
  · rintro ⟨start, hstart, hle, hno, h⟩
    simp only [NoStart, pieceStart_iff] at hstart hno
    have hend : place + (refTag id).length ≤ (letGo [] deltas).flatten.length := by
      by_contra hlt
      -- The last start would be this one, and nothing is shown by its name behind it.
      rcases hno _ ⟨letGo [] deltas, [], (List.append_nil _).symm, rfl⟩ with hlast | hlast
      · obtain ⟨n, hn⟩ := Nat.exists_eq_add_of_le hlast
        have hheld : deltas.flatten.drop start = (heldBack [] deltas).drop n := by
          rw [← hflat, hn, ← List.drop_drop, List.drop_left]
        rw [hheld] at h
        exact not_refAt_of_notMem
          (fun hmem => gt_notMem_heldBack (Or.inl rfl) (List.mem_of_mem_drop hmem)) h
      · exact hlt hlast
    obtain ⟨pre, piece, post, heq, hpre, hpiece⟩ :=
      exists_piece (n := place + (refTag id).length) (by omega) hend
    have hhere : start = pre.flatten.length := by
      rw [heq] at hstart
      have hle' := hno _ ⟨pre, _, heq, rfl⟩
      have hge := boundary_le_or_le hstart
      omega
    subst hhere
    refine ⟨pre, piece, post, place - pre.flatten.length, heq, ?_, ?_⟩
    · rw [hfill]
      omega
    · rw [hdrop heq] at h
      exact refAt_append_iff.2 ⟨h, by omega⟩

/-! ## Boundaries inside a tag -/

/-- The text of some of the deltas is the beginning of the whole one. -/
lemma take_flatten {earlier later : List (List Char)} :
    (earlier ++ later).flatten.take earlier.flatten.length = earlier.flatten := by
  rw [List.flatten_append, List.take_left]

/-- Two brackets in a text that has none behind the first one. -/
lemma eq_of_append_lt {x y w r : List Char} (hw : '<' ∉ w) (hle : x.length ≤ y.length)
    (h : x ++ '<' :: w = y ++ '<' :: r) : x = y := by
  rcases List.append_eq_append_iff.1 h with ⟨more, rfl, hmore⟩ | ⟨more, rfl, hmore⟩
  · cases more with
    | nil => exact (List.append_nil x).symm
    | cons c more =>
      have htail : w = more ++ '<' :: r := (List.cons.inj hmore).2
      exact absurd (htail ▸ List.mem_append_right _ List.mem_cons_self) hw
  · rw [List.length_append] at hle
    rw [List.eq_nil_of_length_eq_zero (l := more) (by omega), List.append_nil]

/-- The characters behind the bracket of an open tag. -/
lemma noAngle_behind {w : List Char} (hw : NoAngle w) : NoAngle ("ref".toList ++ w) :=
  noAngle_append.2 ⟨⟨by decide, by decide⟩, hw⟩

section Cut

variable {earlier : List (List Char)} {before after : List Char} {start : ℕ}

/-- **A piece that starts before a cut tag**: the tag is cut behind its first four characters, and what is
held back has no other angle bracket. -/
lemma cut_of_nextStart (hpre : earlier.flatten <+: before ++ (refTag id ++ after))
    (hnext : NextStart earlier start) (hstart : start ≤ before.length)
    (hlo : before.length < earlier.flatten.length) :
    before.length + refStart.length ≤ earlier.flatten.length ∧
      NoAngle (earlier.flatten.drop (before.length + 1)) := by
  rcases hnext with hopen | ⟨-, rfl⟩
  · obtain ⟨x, w, hx, hw, rfl⟩ := flatten_of_openTagAt hopen
    -- The bracket of the tag is the last one of these deltas.
    obtain ⟨r, hr⟩ : before ++ ['<'] <+: earlier.flatten := by
      refine List.prefix_of_prefix_length_le ⟨(refTag id).tail ++ after, ?_⟩ hpre ?_
      · rw [List.append_assoc]
        rfl
      · rwa [List.length_append]
    have hbracket : x ++ '<' :: ("ref".toList ++ w) = before ++ '<' :: r := by
      rw [← List.singleton_append (l := r), ← List.append_assoc, hr, hx]
      rfl
    obtain rfl : x = before := eq_of_append_lt (noAngle_behind hw).1 hstart hbracket
    rw [hx, ← List.drop_drop, List.drop_left]
    refine ⟨?_, noAngle_behind hw⟩
    simp only [List.length_append]
    omega
  · omega

/-- **An open tag behind the bracket of a tag** starts behind the whole tag, if a cut inside the tag comes
before its other angle brackets. -/
lemma le_of_openTagAt (hpre : earlier.flatten <+: before ++ (refTag id ++ after))
    (hopen : OpenTagAt earlier start) (hlo : before.length < start)
    (hangle : earlier.flatten.length < before.length + (refTag id).length →
      NoAngle (earlier.flatten.drop (before.length + 1))) :
    before.length + (refTag id).length ≤ start := by
  obtain ⟨x, w, hx, hw, rfl⟩ := flatten_of_openTagAt hopen
  by_contra hhi
  rcases Nat.lt_or_ge earlier.flatten.length (before.length + (refTag id).length) with hlt | hge
  · have hmem : '<' ∈ earlier.flatten.drop (before.length + 1) := by
      rw [hx, List.drop_append_of_le_length hlo]
      exact List.mem_append_right _ List.mem_cons_self
    exact (hangle hlt).1 hmem
  · -- The tag ends behind the open tag, which has no closing bracket.
    obtain ⟨inner, hinner⟩ : ∃ inner, refTag id = inner ++ ['>'] :=
      ⟨refOpen ++ (id ++ ['"', '/']), by simp [refTag, refClose]⟩
    obtain ⟨rest, hrest⟩ : before ++ refTag id <+: earlier.flatten := by
      refine List.prefix_of_prefix_length_le ⟨after, List.append_assoc _ _ _⟩ hpre ?_
      rwa [List.length_append]
    have heq : x ++ (refStart ++ w) = (before ++ inner) ++ ('>' :: rest) := by
      rw [← hx, ← hrest, hinner]
      simp
    have hxle : x.length ≤ (before ++ inner).length := by
      rw [hinner] at hhi
      simp only [List.length_append, List.length_singleton] at hhi ⊢
      omega
    have hgt : '>' ∈ refStart ++ w := by
      have hdrop : refStart ++ w = (x ++ (refStart ++ w)).drop x.length := List.drop_left.symm
      rw [hdrop, heq, List.drop_append_of_le_length hxle]
      exact List.mem_append_right _ List.mem_cons_self
    rcases List.mem_append.1 hgt with hgt | hgt
    · exact absurd hgt (by decide)
    · exact hw.2 hgt

/-- **Deltas that end inside a tag** end in an open one, if each of their ends inside it comes behind its
first four characters and the last one before its other angle brackets. -/
lemma endsInOpenTag_of_cuts (hpre : earlier.flatten <+: before ++ (refTag id ++ after))
    (hlo : before.length < earlier.flatten.length)
    (hcuts : ∀ b, Boundary earlier b → before.length < b → b < before.length + (refTag id).length →
      before.length + refStart.length ≤ b)
    (hfour : before.length + refStart.length ≤ earlier.flatten.length)
    (hangle : NoAngle (earlier.flatten.drop (before.length + 1))) : EndsInOpenTag earlier := by
  obtain ⟨tagRest, htagRest⟩ : refStart <+: refTag id :=
    ⟨" id=\"".toList ++ (id ++ '"' :: refClose), rfl⟩
  have htag : refStart.length ≤ (refTag id).length := List.IsPrefix.length_le ⟨tagRest, htagRest⟩
  obtain ⟨w, hw⟩ : before ++ refStart <+: earlier.flatten := by
    refine List.prefix_of_prefix_length_le ⟨tagRest ++ after, ?_⟩ hpre (by rwa [List.length_append])
    rw [← htagRest, List.append_assoc, List.append_assoc]
  -- The delta with the bracket of the tag has all four characters.
  obtain ⟨ds, d, ds', rfl, hds, hd⟩ := exists_piece (Nat.succ_pos before.length) hlo
  have hcut := hcuts (ds ++ [d]).flatten.length ⟨ds ++ [d], ds', by simp, rfl⟩
  have hflat : (ds ++ [d]).flatten = ds.flatten ++ d := by simp
  rw [hflat, List.length_append] at hcut
  have hroom : before.length + refStart.length ≤ ds.flatten.length + d.length := by
    by_contra hlt
    exact hlt (hcut (by omega) (by omega))
  obtain ⟨v, hv⟩ : before ++ refStart <+: ds.flatten ++ d := by
    refine List.prefix_of_prefix_length_le ⟨w, hw⟩ ⟨ds'.flatten, by simp⟩ ?_
    rwa [List.length_append, List.length_append]
  obtain ⟨u, rfl⟩ : ds.flatten <+: before := by
    have hbefore : before <+: ds.flatten ++ d := ⟨refStart ++ v, by rw [← hv, List.append_assoc]⟩
    exact List.prefix_of_prefix_length_le (List.prefix_append _ _) hbefore (Nat.le_of_lt_succ hds)
  have hdelta : d = u ++ (refStart ++ v) := by
    simpa [List.append_assoc] using hv.symm
  refine ⟨ds, u, v, ds', by rw [hdelta], ?_⟩
  have hbehind : (ds ++ d :: ds').flatten =
      (ds.flatten ++ u) ++ ('<' :: ("ref".toList ++ (v ++ ds'.flatten))) := by
    rw [hdelta]
    simp [refStart]
  rw [hbehind, ← List.drop_drop, List.drop_left] at hangle
  exact (noAngle_append.1 hangle).2

end Cut

/-- **No piece starts inside a tag** exactly when each boundary inside it comes after its first four
characters, and before any other angle bracket of it. -/
theorem noStartInside_iff {before after : List Char}
    (htext : deltas.flatten = before ++ (refTag id ++ after)) :
    NoStart deltas before.length (before.length + (refTag id).length) ↔
      ∀ b, Boundary deltas b → before.length < b → b < before.length + (refTag id).length →
        before.length + refStart.length ≤ b ∧
          NoAngle ((deltas.flatten.take b).drop (before.length + 1)) := by
  have hpre {earlier later : List (List Char)} (heq : deltas = earlier ++ later) :
      earlier.flatten <+: before ++ (refTag id ++ after) := by
    rw [← htext, heq, List.flatten_append]
    exact List.prefix_append _ _
  constructor
  · rintro hno b ⟨earlier, later, rfl, rfl⟩ hlo hhi
    rw [take_flatten]
    have hnext : NextStart earlier (letGo [] earlier).flatten.length := nextStart_iff.2 rfl
    have hle : (letGo [] earlier).flatten.length ≤ earlier.flatten.length := by
      have hflat : (letGo [] earlier).flatten ++ heldBack [] earlier = earlier.flatten :=
        flatten_letGo
      rw [← hflat, List.length_append]
      exact Nat.le_add_right _ _
    refine cut_of_nextStart (hpre rfl) hnext ?_ hlo
    rcases hno _ ⟨earlier, later, rfl, hnext⟩ with h | h <;> omega
  · rintro hall start ⟨earlier, later, rfl, hnext⟩
    have hcut : ∀ b, Boundary earlier b → before.length < b →
        b < before.length + (refTag id).length → before.length + refStart.length ≤ b := by
      rintro b ⟨ds, ds', rfl, rfl⟩ hlo hhi
      exact (hall _ ⟨ds, ds' ++ later, List.append_assoc _ _ _, rfl⟩ hlo hhi).1
    have hend := hall _ ⟨earlier, later, rfl, rfl⟩
    rw [take_flatten] at hend
    by_contra hinside
    rw [not_or, Nat.not_le, Nat.not_le] at hinside
    obtain ⟨hlo, hhi⟩ := hinside
    rcases hnext with hopen | ⟨hends, rfl⟩
    · have hlen : start ≤ earlier.flatten.length := by
        obtain ⟨x, w, hx, -, rfl⟩ := flatten_of_openTagAt hopen
        rw [hx, List.length_append]
        exact Nat.le_add_right _ _
      exact absurd (le_of_openTagAt (hpre rfl) hopen hlo fun hlt => (hend (by omega) hlt).2)
        (Nat.not_le.2 hhi)
    · obtain ⟨hfour, hangle⟩ := hend hlo hhi
      exact hends (endsInOpenTag_of_cuts (hpre rfl) hlo hcut hfour hangle)

/-! ## Cuts that do no harm -/

variable (m) in
/-- The ends of the deltas do no harm to the tags of their text. -/
structure CutsFit (deltas : List (List Char)) : Prop where
  /-- A delta that ends inside a tag that is shown by its name ends behind the first four characters of
  the tag, and before any other angle bracket of it. -/
  insideTag : ∀ place id, RefAt m deltas.flatten place id →
    ∀ b, Boundary deltas b → place < b → b < place + (refTag id).length →
      place + refStart.length ≤ b ∧ NoAngle ((deltas.flatten.take b).drop (place + 1))
  /-- A piece that starts where `render_refs` passes the text over, inside a tag or behind a broken one,
  has the tags of the text in it, and no other one. -/
  passedOver : ∀ start, PieceStart deltas start → ¬ ReadAnew deltas.flatten start →
    ∀ place id, start ≤ place → NoStart deltas start (place + (refTag id).length) →
      (RefAt m (deltas.flatten.drop start) (place - start) id ↔ RefAt m deltas.flatten place id)

/-- The same tags are rendered, told by the starts of the pieces. -/
lemma sameTags_iff :
    SameTags m deltas ↔ ∀ place id, RefAt m deltas.flatten place id ↔
      ∃ start, PieceStart deltas start ∧ start ≤ place ∧
        NoStart deltas start (place + (refTag id).length) ∧
        RefAt m (deltas.flatten.drop start) (place - start) id := by
  simp only [← holeAt_pieces_iff]
  refine ⟨fun h place id => by rw [RefAt, h], fun h => eq_of_holeAt (f := refTag) ?_ ?_ h⟩
  · exact fun _ => List.cons_ne_nil _ _
  · simp only [fill_append, fill_flatMap, fill_map_char, fill_refTag_refPieces, List.flatMap_id']
    have hflat : (letGo [] deltas).flatten ++ heldBack [] deltas = deltas.flatten := flatten_letGo
    exact hflat.symm

/-- Every place has a last start before it. -/
lemma exists_lastStart (deltas : List (List Char)) (place : ℕ) :
    ∃ start ≤ place, PieceStart deltas start ∧ NoStart deltas start (place + 1) := by
  induction place with
  | zero =>
    refine ⟨0, le_rfl, ⟨[], deltas, rfl, nextStart_iff.2 rfl⟩, fun other _ => ?_⟩
    exact (Nat.eq_zero_or_pos other).imp Nat.le_of_eq id
  | succ place ih =>
    by_cases hstart : PieceStart deltas (place + 1)
    · exact ⟨place + 1, le_rfl, hstart, fun other _ => Nat.lt_or_ge (place + 1) other |>.symm⟩
    · obtain ⟨start, hle, hpiece, hno⟩ := ih
      refine ⟨start, Nat.le_succ_of_le hle, hpiece, fun other hother => ?_⟩
      rcases hno other hother with hbefore | hbehind
      · exact Or.inl hbefore
      · have hne : other ≠ place + 1 := fun h => hstart (h ▸ hother)
        exact Or.inr (by omega)

/-- **The rendering of deltas is the rendering of their text** exactly when their ends do no harm.

**Proof sketch.** The two are equal when the same tags are shown by their names (`streamed_eq_iff`).  A
tag of the text is shown if no piece starts inside it (`noStartInside_iff`), and if reading from the last
start before it comes to it, which is so where that start is read anew (`refAt_drop_iff`). -/
theorem streamed_eq_iff_cutsFit :
    streamed m deltas = renderRefs m deltas.flatten ↔ CutsFit m deltas := by
  have hinside {place : ℕ} {id : List Char} (h : RefAt m deltas.flatten place id) :
      NoStart deltas place (place + (refTag id).length) ↔
        ∀ b, Boundary deltas b → place < b → b < place + (refTag id).length →
          place + refStart.length ≤ b ∧ NoAngle ((deltas.flatten.take b).drop (place + 1)) := by
    obtain ⟨before, after, htext, rfl⟩ := refAt_spec h
    exact noStartInside_iff htext
  rw [streamed_eq_iff, sameTags_iff]
  constructor
  · intro h
    constructor
    · intro place id href
      obtain ⟨start, -, hle, hno, -⟩ := (h place id).1 href
      exact (hinside href).1 fun other hother => (hno other hother).imp_left fun hs => hs.trans hle
    · intro start hstart _ place id hle hno
      refine ⟨fun href => (h place id).2 ⟨start, hstart, hle, hno, href⟩, fun href => ?_⟩
      obtain ⟨other, hother, hle', hno', href'⟩ := (h place id).1 href
      -- Both are the last start before the tag.
      have hpos : 0 < (refTag id).length := by simp
      have heq : other = start := by
        have h₁ := hno other hother
        have h₂ := hno' start hstart
        omega
      exact heq ▸ href'
  · rintro ⟨hcuts, hpassed⟩ place id
    have hread (start : ℕ) (hstart : PieceStart deltas start) (hle : start ≤ place)
        (hno : NoStart deltas start (place + (refTag id).length)) :
        RefAt m (deltas.flatten.drop start) (place - start) id ↔ RefAt m deltas.flatten place id := by
      by_cases hanew : ReadAnew deltas.flatten start
      · exact refAt_drop_iff hanew hle
      · exact hpassed start hstart hanew place id hle hno
    constructor
    · intro href
      obtain ⟨start, hle, hstart, hlast⟩ := exists_lastStart deltas place
      have hno : NoStart deltas start (place + (refTag id).length) := fun other hother => by
        rcases hlast other hother with hbefore | hbehind
        · exact Or.inl hbefore
        · rcases (hinside href).2 (hcuts place id href) other hother with hle' | hge
          · omega
          · exact Or.inr hge
      exact ⟨start, hstart, hle, hno, (hread start hstart hle hno).2 href⟩
    · rintro ⟨start, hstart, hle, hno, href⟩
      exact (hread start hstart hle hno).1 href

/-- **Streaming and whole-text rendering.**  The rendering of deltas is the rendering of their text
exactly when the ends of the deltas do no harm to its tags, and the text that is returned for a stream
is the rendering of its deltas exactly when they do not end in an open tag that is held back. -/
theorem streamedMentions_iff (m : Mentions) :
    (∀ deltas, streamed m deltas = renderRefs m deltas.flatten ↔ CutsFit m deltas) ∧
      ∀ events c reason, collectDisplayed (some m) events = .ok (c, reason) →
        (c.text.toList = renderRefs m (readDeltas events).flatten ↔
          ¬ EndsInOpenTag (readDeltas events)) :=
  ⟨fun _ => streamed_eq_iff_cutsFit, fun _ _ _ => collectDisplayed_text_iff⟩

/-- A registry with one user. -/
def oneUserMentions : Mentions where
  ns := "myclaw".toList
  registry :=
    { users := fun uid =>
        if uid = "myclaw/u/a" then some ⟨"myclaw/u/a", "ann", none, true, 0⟩ else none
      disk := ⟨[], []⟩ }

/-- A stream that ends outside a tag is returned as it is rendered. -/
theorem streamedMentions_iff_hello :
    ∃ c reason,
      collectDisplayed (some oneUserMentions) [.delta "hello", .done .endTurn] = .ok (c, reason) ∧
        c.text.toList =
          renderRefs oneUserMentions (readDeltas [.delta "hello", .done .endTurn]).flatten :=
  ⟨_, _, rfl, ((streamedMentions_iff oneUserMentions).2 _ _ _ rfl).2 (by
    rintro ⟨earlier, u, v, later, heq, -⟩
    have hmem : '<' ∈ (readDeltas [.delta "hello", .done .endTurn]).flatten := by
      rw [heq]
      simp [refStart]
    exact absurd hmem (by decide +kernel))⟩

/-- A tag that is cut after its first character is shown as it is, and an open tag at the end is
returned twice. -/
theorem not_streamedMentions :
    (¬ ∀ (m : Mentions) deltas, streamed m deltas = renderRefs m deltas.flatten) ∧
      ¬ ∀ (m : Mentions) events c reason, collectDisplayed (some m) events = .ok (c, reason) →
        c.text.toList = renderRefs m (readDeltas events).flatten := by
  constructor
  · intro h
    have heq := h oneUserMentions ["<".toList, "ref id=\"myclaw/u/a\"/>".toList]
    have hpieces : letGo [] ["<".toList, "ref id=\"myclaw/u/a\"/>".toList] =
        ["<".toList, "ref id=\"myclaw/u/a\"/>".toList] := by decide +kernel
    have hhead : (streamed oneUserMentions ["<".toList, "ref id=\"myclaw/u/a\"/>".toList]).head? =
        some '<' := by
      simp only [streamed, pushAll_eq, hpieces, List.flatMap_cons]
      rw [renderRefs_of_none (by decide +kernel)]
      rfl
    have hfirst : firstRef (["<".toList, "ref id=\"myclaw/u/a\"/>".toList].flatten) =
        some ([], "myclaw/u/a".toList, []) := by decide +kernel
    have hone : renderOneRef oneUserMentions "myclaw/u/a".toList = '@' :: "ann".toList := by
      decide +kernel
    rw [heq, renderRefs_of_some hfirst, hone] at hhead
    exact absurd hhead (by decide)
  · intro h
    have heq := h oneUserMentions [.delta "<ref", .done .endTurn] _ _ rfl
    refine (collectDisplayed_text_iff (m := oneUserMentions) rfl).1 heq ?_
    exact ⟨[], [], [], [], by decide, by simp [NoAngle]⟩

end MyClaw
