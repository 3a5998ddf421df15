import Mathlib.Data.List.Infix

set_option autoImplicit false

/-!
# Texts with holes

A text in which some places stand for another text: what a scan from the left takes as such a place, and
the text that comes out when they are filled.  A replacement of one text by another one is the case in
which all the holes have the same name.

## Main definitions

* `Holes.Piece`, `Holes.names`, `Holes.fill` — a text in pieces, its holes, and the text when they are
  filled.
* `Holes.HoleAt` — a hole at a place of the text.
* `Holes.cut` — the pieces of a text, for a rule that says where a hole stands.
* `Holes.findText` — the first place of one text in another one.
* `Holes.cutFirst` — the texts before and behind that place.
* `Holes.replaceAll`, `Holes.placeCount` — the text with each place of a pattern replaced, and how many
  there are.
* `Holes.between` — the rule of holes with an opening and a closing text.

## Main results

* `Holes.fill_eq_iff` — two fillings, one with texts that are nowhere longer, are equal exactly when
  they agree at each hole.
* `Holes.eq_of_fill_eq` — two fillings of a text tell its pieces.
* `Holes.eq_of_holeAt` — so do the places of its holes.
* `Holes.cutFirst_append_iff`, `Holes.eq_of_cutFirst` — when two parts with a text between come back.
* `Holes.replaceAll_eq_self_iff` — a replacement changes nothing exactly when the pattern does not occur
  or is its own replacement.
* `Holes.replaceAll_of_cutFirst`, `Holes.placeCount_of_cutFirst` — a replacement, place by place.
* `Holes.fill_cut_between_of_none`, `Holes.fill_cut_between` — the scan, up to its first hole.
-/

namespace Holes

variable {α κ : Type*}

/-! ## Pieces -/

/-- A piece of a text: a character, or a hole with its name. -/
inductive Piece (α κ : Type*)
  | char (x : α)
  | hole (k : κ)

/-- The names of the holes, in their order. -/
def names : List (Piece α κ) → List κ
  | [] => []
  | .char _ :: ps => names ps
  | .hole k :: ps => k :: names ps

/-- The text when each hole is filled. -/
def fill (f : κ → List α) : List (Piece α κ) → List α
  | [] => []
  | .char x :: ps => x :: fill f ps
  | .hole k :: ps => f k ++ fill f ps

variable {f g : κ → List α} {ps : List (Piece α κ)} {k : κ}

@[simp] lemma fill_append {qs : List (Piece α κ)} :
    fill f (ps ++ qs) = fill f ps ++ fill f qs := by
  induction ps with
  | nil => rfl
  | cons p ps ih => cases p <;> simp [fill, ih]

@[simp] lemma names_append {qs : List (Piece α κ)} : names (ps ++ qs) = names ps ++ names qs := by
  induction ps with
  | nil => rfl
  | cons p ps ih => cases p <;> simp [names, ih]

/-- The text of characters alone. -/
@[simp] lemma fill_map_char (t : List α) : fill f (t.map .char) = t := by
  induction t with
  | nil => rfl
  | cons x t ih => rw [List.map_cons, fill, ih]

/-- Characters have no holes. -/
@[simp] lemma names_map_char (t : List α) : names (t.map (.char : α → Piece α κ)) = [] := by
  induction t with
  | nil => rfl
  | cons x t ih => rw [List.map_cons, names, ih]

/-- Texts that are put together are filled one by one. -/
lemma fill_flatMap {β : Type*} (cutOne : β → List (Piece α κ)) (texts : List β) :
    fill f (texts.flatMap cutOne) = texts.flatMap fun t => fill f (cutOne t) := by
  induction texts with
  | nil => rfl
  | cons t texts ih => rw [List.flatMap_cons, List.flatMap_cons, fill_append, ih]

/-- The holes of texts that are put together. -/
lemma mem_names_flatMap {β : Type*} {cutOne : β → List (Piece α κ)} {texts : List β} :
    k ∈ names (texts.flatMap cutOne) ↔ ∃ t ∈ texts, k ∈ names (cutOne t) := by
  induction texts with
  | nil => simp [names]
  | cons t texts ih => simp [ih]

/-- Fillings that agree at the holes are equal. -/
lemma fill_congr (h : ∀ k ∈ names ps, f k = g k) : fill f ps = fill g ps := by
  induction ps with
  | nil => rfl
  | cons p ps ih =>
    cases p with
    | char x => rw [fill, fill, ih h]
    | hole k =>
      rw [fill, fill, h k List.mem_cons_self, ih fun j hj => h j (List.mem_cons_of_mem _ hj)]

/-- A filling with shorter texts is no longer. -/
lemma length_fill_le (h : ∀ k ∈ names ps, (f k).length ≤ (g k).length) :
    (fill f ps).length ≤ (fill g ps).length := by
  induction ps with
  | nil => exact le_rfl
  | cons p ps ih =>
    cases p with
    | char x => exact Nat.succ_le_succ (ih h)
    | hole k =>
      have hk := h k List.mem_cons_self
      have hrest := ih fun j hj => h j (List.mem_cons_of_mem _ hj)
      rw [fill, fill, List.length_append, List.length_append]
      exact Nat.add_le_add hk hrest

/-- **Two fillings, one with texts that are nowhere longer,** are equal exactly when they agree at each
hole. -/
theorem fill_eq_iff (h : ∀ k ∈ names ps, (f k).length ≤ (g k).length) :
    fill f ps = fill g ps ↔ ∀ k ∈ names ps, f k = g k := by
  refine ⟨fun heq => ?_, fill_congr⟩
  induction ps with
  | nil => exact fun k hk => absurd hk List.not_mem_nil
  | cons p ps ih =>
    cases p with
    | char x => exact ih h (List.cons.inj heq).2
    | hole k =>
      have hk := h k List.mem_cons_self
      have hrest : ∀ j ∈ names ps, (f j).length ≤ (g j).length :=
        fun j hj => h j (List.mem_cons_of_mem _ hj)
      have hle := length_fill_le hrest
      have hsum := congrArg List.length heq
      simp only [fill, List.length_append] at hsum
      obtain ⟨hfirst, htail⟩ := List.append_inj heq (by omega)
      intro j hj
      rcases List.mem_cons.1 hj with rfl | hj
      · exact hfirst
      · exact ih hrest htail j hj

/-- **The pieces of a text are known from two fillings of it** if the texts in the holes start with one
character in the one filling and with another one in the other, and a hole's name can be read off its
text in the one. -/
theorem eq_of_fill_eq {qs : List (Piece α κ)} {a b : α} (hab : a ≠ b)
    (hf : ∀ k, (f k).head? = some a) (hg : ∀ k, (g k).head? = some b)
    (hname : ∀ k ∈ names ps, ∀ j ∈ names qs, ∀ s t, f k ++ s = f j ++ t → k = j)
    (hfill : fill f ps = fill f qs) (hfill' : fill g ps = fill g qs) : ps = qs := by
  have hne (k : κ) : f k ≠ [] := fun h => by simpa [h] using hf k
  -- A character and a hole at one place differ in one of the two.
  have hchar (k : κ) (x : α) (s t s' t' : List α) (hx : x :: s = f k ++ t)
      (hx' : x :: s' = g k ++ t') : False := by
    have ha := congrArg List.head? hx
    have hb := congrArg List.head? hx'
    rw [List.head?_append, hf] at ha
    rw [List.head?_append, hg] at hb
    exact hab (Option.some.inj (ha.symm.trans hb))
  induction ps generalizing qs with
  | nil =>
    cases qs with
    | nil => rfl
    | cons q qs =>
      cases q with
      | char y => exact absurd hfill (List.cons_ne_nil _ _).symm
      | hole j => exact absurd hfill (List.append_ne_nil_of_left_ne_nil (hne j) _).symm
  | cons p ps ih =>
    cases qs with
    | nil =>
      cases p with
      | char x => exact absurd hfill (List.cons_ne_nil _ _)
      | hole k => exact absurd hfill (List.append_ne_nil_of_left_ne_nil (hne k) _)
    | cons q qs =>
      cases p with
      | char x =>
        cases q with
        | char y =>
          obtain ⟨rfl, hrest⟩ := List.cons.inj hfill
          have htail : ps = qs := ih hname hrest (List.cons.inj hfill').2
          rw [htail]
        | hole j => exact (hchar j x _ _ _ _ hfill hfill').elim
      | hole k =>
        cases q with
        | char y => exact (hchar k y _ _ _ _ hfill.symm hfill'.symm).elim
        | hole j =>
          obtain rfl := hname k List.mem_cons_self j List.mem_cons_self _ _ hfill
          have htail : ps = qs :=
            ih (fun k hk j hj => hname k (List.mem_cons_of_mem _ hk) j (List.mem_cons_of_mem _ hj))
              (List.append_cancel_left hfill) (List.append_cancel_left hfill')
          rw [htail]

/-! ## The places of the holes -/

/-- A hole stands behind so many characters of the text. -/
def HoleAt (f : κ → List α) (ps : List (Piece α κ)) (place : ℕ) (k : κ) : Prop :=
  ∃ xs ys, ps = xs ++ .hole k :: ys ∧ (fill f xs).length = place

variable {place : ℕ} {j : κ} {x : α} {qs : List (Piece α κ)}

/-- A text without pieces has no hole. -/
lemma not_holeAt_nil : ¬ HoleAt f [] place k := by
  rintro ⟨xs, ys, heq, -⟩
  exact absurd heq.symm (List.append_ne_nil_of_right_ne_nil _ (List.cons_ne_nil _ _))

/-- The holes behind a character. -/
lemma holeAt_char_cons :
    HoleAt f (.char x :: ps) place k ↔ ∃ n, place = n + 1 ∧ HoleAt f ps n k := by
  constructor
  · rintro ⟨xs, ys, heq, rfl⟩
    cases xs with
    | nil => exact absurd (List.cons.inj heq).1 nofun
    | cons p xs =>
      obtain ⟨rfl, htail⟩ := List.cons.inj heq
      exact ⟨_, rfl, xs, ys, htail, rfl⟩
  · rintro ⟨n, rfl, xs, ys, rfl, rfl⟩
    exact ⟨.char x :: xs, ys, rfl, rfl⟩

/-- A hole at the beginning, and the holes behind it. -/
lemma holeAt_hole_cons :
    HoleAt f (.hole j :: ps) place k ↔
      place = 0 ∧ k = j ∨ ∃ n, place = (f j).length + n ∧ HoleAt f ps n k := by
  constructor
  · rintro ⟨xs, ys, heq, rfl⟩
    cases xs with
    | nil =>
      obtain ⟨hk, -⟩ := List.cons.inj heq
      exact Or.inl ⟨rfl, (Piece.hole.inj hk).symm⟩
    | cons p xs =>
      obtain ⟨rfl, htail⟩ := List.cons.inj heq
      exact Or.inr ⟨_, List.length_append, xs, ys, htail, rfl⟩
  · rintro (⟨rfl, rfl⟩ | ⟨n, rfl, xs, ys, rfl, rfl⟩)
    · exact ⟨[], ps, rfl, rfl⟩
    · exact ⟨.hole j :: xs, ys, rfl, List.length_append⟩

/-- The holes of two texts that are put together. -/
lemma holeAt_append :
    HoleAt f (ps ++ qs) place k ↔
      HoleAt f ps place k ∨ ∃ n, place = (fill f ps).length + n ∧ HoleAt f qs n k := by
  induction ps generalizing place with
  | nil => simp [not_holeAt_nil, fill]
  | cons p ps ih =>
    cases p with
    | char x =>
      simp only [List.cons_append, holeAt_char_cons, ih, fill, List.length_cons]
      constructor
      · rintro ⟨n, rfl, h | ⟨i, rfl, h⟩⟩
        · exact Or.inl ⟨n, rfl, h⟩
        · exact Or.inr ⟨i, by omega, h⟩
      · rintro (⟨n, rfl, h⟩ | ⟨i, rfl, h⟩)
        · exact ⟨n, rfl, Or.inl h⟩
        · exact ⟨_, by omega, Or.inr ⟨i, rfl, h⟩⟩
    | hole j =>
      simp only [List.cons_append, holeAt_hole_cons, ih, fill, List.length_append]
      constructor
      · rintro (h | ⟨n, rfl, h | ⟨i, rfl, h⟩⟩)
        · exact Or.inl (Or.inl h)
        · exact Or.inl (Or.inr ⟨n, rfl, h⟩)
        · exact Or.inr ⟨i, by omega, h⟩
      · rintro ((h | ⟨n, rfl, h⟩) | ⟨i, rfl, h⟩)
        · exact Or.inl h
        · exact Or.inr ⟨n, rfl, Or.inl h⟩
        · exact Or.inr ⟨_, by omega, Or.inr ⟨i, rfl, h⟩⟩

/-- Characters have no hole at any place. -/
lemma not_holeAt_map_char {t : List α} : ¬ HoleAt f (t.map .char) place k := by
  induction t generalizing place with
  | nil => exact not_holeAt_nil
  | cons x t ih =>
    rw [List.map_cons, holeAt_char_cons]
    rintro ⟨n, -, h⟩
    exact ih h

/-- A hole of texts that are put together is one of one of them. -/
lemma holeAt_flatMap {β : Type*} {cutOne : β → List (Piece α κ)} {texts : List β} :
    HoleAt f (texts.flatMap cutOne) place k ↔
      ∃ pre t post n, texts = pre ++ t :: post ∧
        place = (fill f (pre.flatMap cutOne)).length + n ∧ HoleAt f (cutOne t) n k := by
  induction texts generalizing place with
  | nil => simp [not_holeAt_nil]
  | cons t texts ih =>
    rw [List.flatMap_cons, holeAt_append]
    constructor
    · rintro (h | ⟨n, rfl, h⟩)
      · exact ⟨[], t, texts, place, rfl, (Nat.zero_add place).symm, h⟩
      · obtain ⟨pre, u, post, i, rfl, rfl, hu⟩ := ih.1 h
        refine ⟨t :: pre, u, post, i, rfl, ?_, hu⟩
        rw [List.flatMap_cons, fill_append, List.length_append, Nat.add_assoc]
    · rintro ⟨pre, u, post, i, heq, rfl, h⟩
      cases pre with
      | nil =>
        obtain ⟨rfl, rfl⟩ := List.cons.inj heq
        exact Or.inl (by rwa [List.flatMap_nil, fill, List.length_nil, Nat.zero_add])
      | cons first pre =>
        obtain ⟨rfl, htail⟩ := List.cons.inj heq
        refine Or.inr ⟨_, ?_, ih.2 ⟨pre, u, post, i, htail, rfl, h⟩⟩
        rw [List.flatMap_cons, fill_append, List.length_append, Nat.add_assoc]

/-- **The pieces of a text are known from the places of its holes** if no hole stands for nothing. -/
theorem eq_of_holeAt (hne : ∀ k, f k ≠ []) (hfill : fill f ps = fill f qs)
    (h : ∀ place k, HoleAt f ps place k ↔ HoleAt f qs place k) : ps = qs := by
  have hpos (k : κ) : 0 < (f k).length := List.length_pos_iff.2 (hne k)
  induction ps generalizing qs with
  | nil =>
    cases qs with
    | nil => rfl
    | cons q qs =>
      cases q with
      | char y => exact absurd hfill (List.cons_ne_nil _ _).symm
      | hole j => exact absurd hfill (List.append_ne_nil_of_left_ne_nil (hne j) _).symm
  | cons p ps ih =>
    cases p with
    | char x =>
      cases qs with
      | nil => exact absurd hfill (List.cons_ne_nil _ _)
      | cons q qs =>
        cases q with
        | char y =>
          obtain ⟨rfl, hrest⟩ := List.cons.inj hfill
          have htail : ps = qs := ih hrest fun place k => by
            have hshift := h (place + 1) k
            simpa [holeAt_char_cons] using hshift
          rw [htail]
        | hole j =>
          have hstart := (h 0 j).2 (holeAt_hole_cons.2 (Or.inl ⟨rfl, rfl⟩))
          obtain ⟨n, hn, -⟩ := holeAt_char_cons.1 hstart
          exact absurd hn (Nat.succ_ne_zero n).symm
    | hole k =>
      cases qs with
      | nil => exact absurd hfill (List.append_ne_nil_of_left_ne_nil (hne k) _)
      | cons q qs =>
        have hstart := (h 0 k).1 (holeAt_hole_cons.2 (Or.inl ⟨rfl, rfl⟩))
        cases q with
        | char y =>
          obtain ⟨n, hn, -⟩ := holeAt_char_cons.1 hstart
          exact absurd hn (Nat.succ_ne_zero n).symm
        | hole j =>
          have hk : k = j := by
            rcases holeAt_hole_cons.1 hstart with ⟨-, hk⟩ | ⟨n, hn, -⟩
            · exact hk
            · exact absurd hn (Nat.ne_of_lt (Nat.add_pos_left (hpos j) n))
          subst hk
          have htail : ps = qs := ih (List.append_cancel_left hfill) fun place i => by
            have hshift := h ((f k).length + place) i
            simpa [holeAt_hole_cons, hne k] using hshift
          rw [htail]

/-! ## Cutting a text -/

/-- The pieces of a text after `skip` characters.  The rule gives the hole that a text starts with, and
the number of its characters after the first one. -/
def cut (rule : List α → Option (κ × ℕ)) : ℕ → List α → List (Piece α κ)
  | _, [] => []
  | skip + 1, _ :: xs => cut rule skip xs
  | 0, x :: xs =>
    match rule (x :: xs) with
    | some (k, n) => .hole k :: cut rule n xs
    | none => .char x :: cut rule 0 xs

variable {rule : List α → Option (κ × ℕ)} {text : List α} {n : ℕ}

/-- What is skipped is not there. -/
lemma cut_eq_drop (skip : ℕ) : cut rule skip text = cut rule 0 (text.drop skip) := by
  induction text generalizing skip with
  | nil => rw [List.drop_nil]; cases skip <;> rfl
  | cons x xs ih =>
    cases skip with
    | zero => rfl
    | succ skip => rw [List.drop_succ_cons, ← ih]; rfl

/-- A text up to its first hole. -/
lemma cut_eq_append (hnone : ∀ i < n, rule (text.drop i) = none) (hn : n ≤ text.length) :
    cut rule 0 text = (text.take n).map .char ++ cut rule 0 (text.drop n) := by
  induction n generalizing text with
  | zero => rfl
  | succ n ih =>
    cases text with
    | nil => exact absurd hn (Nat.not_succ_le_zero n)
    | cons x xs =>
      have hx : rule (x :: xs) = none := hnone 0 (Nat.succ_pos n)
      have hrest : cut rule 0 xs = (xs.take n).map .char ++ cut rule 0 (xs.drop n) :=
        ih (fun i hi => hnone (i + 1) (Nat.succ_lt_succ hi)) (Nat.le_of_succ_le_succ hn)
      simp only [cut, hx, hrest, List.take_succ_cons, List.map_cons, List.drop_succ_cons,
        List.cons_append]

/-- A text without a hole is what it is filled to. -/
lemma fill_cut_of_none (h : ∀ i < text.length, rule (text.drop i) = none) :
    fill f (cut rule 0 text) = text := by
  rw [cut_eq_append h le_rfl, fill_append, fill_map_char, List.drop_length, List.take_length]
  exact List.append_nil text

/-- A text up to and with its first hole, filled. -/
lemma fill_cut_of_some {m : ℕ} (hnone : ∀ i < n, rule (text.drop i) = none) (hn : n < text.length)
    (hrule : rule (text.drop n) = some (k, m)) :
    fill f (cut rule 0 text) = text.take n ++ (f k ++ fill f (cut rule 0 (text.drop (n + m + 1)))) := by
  have hdrop : text.drop n = text[n] :: text.drop (n + 1) := List.drop_eq_getElem_cons hn
  rw [cut_eq_append hnone hn.le, fill_append, fill_map_char]
  rw [hdrop] at hrule ⊢
  simp only [cut, hrule, fill]
  rw [cut_eq_drop m, List.drop_drop, Nat.add_right_comm]

/-- With the text of each hole put back, the text is as it was. -/
lemma fill_cut_eq_self {source : κ → List α}
    (h : ∀ t k m, rule t = some (k, m) → t = source k ++ t.drop (m + 1)) :
    fill source (cut rule 0 text) = text := by
  suffices ∀ skip, fill source (cut rule skip text) = text.drop skip from this 0
  induction text with
  | nil => intro skip; rw [List.drop_nil]; cases skip <;> rfl
  | cons x xs ih =>
    intro skip
    cases skip with
    | succ skip => exact ih skip
    | zero =>
      rw [cut, List.drop_zero]
      cases hrule : rule (x :: xs) with
      | none => simp only [fill, ih 0, List.drop_zero]
      | some r =>
        simp only [fill, ih r.2]
        exact (h _ r.1 r.2 hrule).symm

/-- There is no hole exactly when the rule finds none. -/
lemma names_cut_eq_nil_iff :
    names (cut rule 0 text) = [] ↔ ∀ i < text.length, rule (text.drop i) = none := by
  induction text with
  | nil => simp [cut, names]
  | cons x xs ih =>
    cases hrule : rule (x :: xs) with
    | none =>
      simp only [cut, hrule, names, ih]
      constructor
      · intro h i hi
        cases i with
        | zero => exact hrule
        | succ i => exact h i (Nat.lt_of_succ_lt_succ hi)
      · exact fun h i hi => h (i + 1) (Nat.succ_lt_succ hi)
    | some r =>
      simp only [cut, hrule, names]
      constructor
      · nofun
      · intro h
        rw [← List.drop_zero (l := x :: xs), h 0 (Nat.succ_pos _)] at hrule
        exact absurd hrule nofun

/-! ## The first place of a text -/

variable {pat repl pre : List α}

/-- A text occurs where a rest of the other one starts with it. -/
lemma infix_iff_exists_drop (hpat : pat ≠ []) :
    pat <:+: text ↔ ∃ i < text.length, pat <+: text.drop i := by
  rw [List.infix_iff_prefix_suffix]
  constructor
  · rintro ⟨rest, hpre, hsuffix⟩
    have hlen := hpre.length_le.trans_lt' (List.length_pos_iff.2 hpat)
    have hle := hsuffix.length_le
    exact ⟨text.length - rest.length, by omega, List.suffix_iff_eq_drop.1 hsuffix ▸ hpre⟩
  · rintro ⟨i, -, hpre⟩
    exact ⟨text.drop i, hpre, List.drop_suffix i text⟩

variable [DecidableEq α]

/-- The first place of one text in another one. -/
def findText (pat : List α) : List α → Option ℕ
  | [] => if pat = [] then some 0 else none
  | x :: xs => if pat <+: x :: xs then some 0 else (findText pat xs).map (· + 1)

/-- It is a place of the text, and the first one. -/
lemma findText_spec {i : ℕ} (h : findText pat text = some i) :
    pat <+: text.drop i ∧ ∀ j < i, ¬ pat <+: text.drop j := by
  induction text generalizing i with
  | nil =>
    rw [findText] at h
    split at h
    · rename_i hpat
      cases h
      exact ⟨hpat ▸ List.nil_prefix, fun j hj => absurd hj (Nat.not_lt_zero j)⟩
    · exact absurd h nofun
  | cons x xs ih =>
    rw [findText] at h
    split at h
    · cases h
      exact ⟨‹_›, fun j hj => absurd hj (Nat.not_lt_zero j)⟩
    · rename_i hx
      obtain ⟨i, hi, rfl⟩ := Option.map_eq_some_iff.1 h
      refine ⟨(ih hi).1, fun j hj => ?_⟩
      cases j with
      | zero => exact hx
      | succ j => exact (ih hi).2 j (Nat.lt_of_succ_lt_succ hj)

/-- There is no place exactly when the text does not occur. -/
lemma findText_eq_none_iff : findText pat text = none ↔ ¬ pat <:+: text := by
  induction text with
  | nil =>
    rw [findText, List.infix_nil]
    split <;> simp_all
  | cons x xs ih =>
    rw [findText, List.infix_cons_iff, not_or, ← ih]
    split <;> simp_all

/-- The first place, from its two properties. -/
lemma findText_eq_some_iff {i : ℕ} (hpat : pat ≠ []) :
    findText pat text = some i ↔ pat <+: text.drop i ∧ ∀ j < i, ¬ pat <+: text.drop j := by
  refine ⟨findText_spec, fun ⟨hpre, hfirst⟩ => ?_⟩
  have hlen := hpre.length_le.trans_lt' (List.length_pos_iff.2 hpat)
  rw [List.length_drop] at hlen
  have hsub : pat <:+: text := (infix_iff_exists_drop hpat).2 ⟨i, by omega, hpre⟩
  obtain ⟨j, hj⟩ := Option.ne_none_iff_exists'.1 (mt findText_eq_none_iff.1 (not_not.2 hsub))
  obtain ⟨hpre', hfirst'⟩ := findText_spec hj
  rcases Nat.lt_trichotomy i j with hlt | rfl | hgt
  · exact absurd hpre (hfirst' i hlt)
  · exact hj
  · exact absurd hpre' (hfirst j hgt)

/-- A place that lies within the text is the first one of a longer text exactly when it is of the
text. -/
lemma findText_append_iff {i : ℕ} (hpat : pat ≠ []) (h : i + pat.length ≤ text.length) :
    findText pat (text ++ pre) = some i ↔ findText pat text = some i := by
  have hdrop (j : ℕ) (hj : j ≤ i) : pat <+: (text ++ pre).drop j ↔ pat <+: text.drop j := by
    rw [List.drop_append_of_le_length (by omega)]
    refine ⟨fun hp => List.prefix_of_prefix_length_le hp (List.prefix_append _ _) ?_,
      fun hp => hp.trans (List.prefix_append _ _)⟩
    rw [List.length_drop]
    omega
  rw [findText_eq_some_iff hpat, findText_eq_some_iff hpat, hdrop i le_rfl]
  exact and_congr_right fun _ => forall₂_congr fun j hj => not_congr (hdrop j hj.le)

/-- What does not have the first character of the pattern is passed over. -/
lemma findText_cons_append {c : α} (h : c ∉ pre) :
    findText (c :: pat) (pre ++ text) = (findText (c :: pat) text).map (· + pre.length) := by
  induction pre with
  | nil => simp
  | cons x pre ih =>
    rw [List.mem_cons, not_or] at h
    have hx : ¬ c :: pat <+: x :: (pre ++ text) := fun hpre => h.1 (List.cons_prefix_cons.1 hpre).1
    rw [List.cons_append, findText, if_neg hx, ih h.2, Option.map_map]
    rfl

/-- What has no character of the pattern is passed over. -/
lemma findText_append_left (hpat : pat ≠ []) (h : ∀ x ∈ pre, x ∉ pat) :
    findText pat (pre ++ text) = (findText pat text).map (· + pre.length) := by
  obtain ⟨c, pat, rfl⟩ := List.exists_cons_of_ne_nil hpat
  exact findText_cons_append fun hc => h c hc List.mem_cons_self

/-- A place is the first one exactly when the pattern does not occur before the last character of it. -/
lemma findText_append_self_iff (hpat : pat ≠ []) :
    findText pat (pre ++ pat ++ text) = some pre.length ↔ ¬ pat <:+: pre ++ pat.dropLast := by
  have hlast : pre ++ pat = pre ++ pat.dropLast ++ [pat.getLast hpat] := by
    rw [List.append_assoc, List.dropLast_append_getLast]
  have hlen : (pre ++ pat.dropLast).length + 1 = pre.length + pat.length := by
    rw [List.length_append, List.length_dropLast, Nat.add_assoc,
      Nat.sub_add_cancel (List.length_pos_iff.2 hpat)]
  rw [findText_append_iff hpat (by rw [List.length_append])]
  constructor
  · intro hfirst hsub
    obtain ⟨i, hi⟩ := Option.ne_none_iff_exists'.1 (mt findText_eq_none_iff.1 (not_not.2 hsub))
    have hroom := (findText_spec hi).1.length_le
    rw [List.length_drop] at hroom
    have hpos := List.length_pos_iff.2 hpat
    have hsooner : findText pat (pre ++ pat) = some i := by
      rw [hlast]
      exact (findText_append_iff hpat (by omega)).2 hi
    have heq : i = pre.length := Option.some.inj (hsooner.symm.trans hfirst)
    omega
  · intro hsub
    have hpos := List.length_pos_iff.2 hpat
    have hhere : pat <+: (pre ++ pat).drop pre.length := by
      rw [List.drop_left]
    refine (findText_eq_some_iff hpat).2 ⟨hhere, fun j hj hearly => hsub ?_⟩
    refine (infix_iff_exists_drop hpat).2 ⟨j, by omega, ?_⟩
    rw [hlast, List.drop_append_of_le_length (by omega)] at hearly
    refine List.prefix_of_prefix_length_le hearly (List.prefix_append _ _) ?_
    rw [List.length_drop]
    omega

/-- The text before the first place of another one, and the text behind that place. -/
def cutFirst (pat text : List α) : Option (List α × List α) :=
  (findText pat text).map fun i => (text.take i, text.drop (i + pat.length))

/-- The parts of a cut are put together again. -/
lemma append_of_cutFirst {parts : List α × List α} (h : cutFirst pat text = some parts) :
    text = parts.1 ++ pat ++ parts.2 := by
  obtain ⟨i, hi, rfl⟩ := Option.map_eq_some_iff.1 h
  obtain ⟨rest, hrest⟩ := (findText_spec hi).1
  have hbehind : text.drop (i + pat.length) = rest := by
    rw [← List.drop_drop, ← hrest, List.drop_left]
  dsimp only
  rw [hbehind, List.append_assoc, hrest, List.take_append_drop]

/-- The parts come back exactly when the pattern does not occur before the last character of the
place. -/
lemma cutFirst_append_iff (hpat : pat ≠ []) :
    cutFirst pat (pre ++ pat ++ text) = some (pre, text) ↔ ¬ pat <:+: pre ++ pat.dropLast := by
  have hfind : findText pat (pre ++ pat ++ text) = some pre.length ↔ ¬ pat <:+: pre ++ pat.dropLast :=
    findText_append_self_iff hpat
  rw [← hfind, cutFirst]
  constructor
  · intro hcut
    obtain ⟨i, hi, hparts⟩ := Option.map_eq_some_iff.1 hcut
    have hpre : ((pre ++ pat ++ text).take i).length = pre.length := by
      rw [(Prod.mk.inj hparts).1]
    have hroom := (findText_spec hi).1.length_le
    rw [List.length_take] at hpre
    rw [List.length_drop] at hroom
    have heq : i = pre.length := by
      have hpos := List.length_pos_iff.2 hpat
      omega
    rw [hi, heq]
  · intro hfirst
    have hlen : pre.length + pat.length = (pre ++ pat).length := List.length_append.symm
    rw [hfirst, Option.map_some, hlen, List.drop_left, List.append_assoc, List.take_left]

/-- Parts that the cut brings back are told by the text. -/
theorem eq_of_cutFirst {pre' text' : List α} (hpat : pat ≠ [])
    (hpre : ¬ pat <:+: pre ++ pat.dropLast) (hpre' : ¬ pat <:+: pre' ++ pat.dropLast)
    (h : pre ++ pat ++ text = pre' ++ pat ++ text') : pre = pre' ∧ text = text' := by
  have hcut : cutFirst pat (pre ++ pat ++ text) = some (pre, text) := (cutFirst_append_iff hpat).2 hpre
  rw [h, (cutFirst_append_iff hpat).2 hpre'] at hcut
  exact Prod.mk.inj (Option.some.inj hcut.symm)

/-- A pattern that starts with a separator and another character stands behind parts that are separated,
if none of them starts with that character. -/
lemma findText_intercalate {sep c : α} {parts : List (List α)} (hsep : ∀ part ∈ parts, sep ∉ part)
    (hc : ∀ part ∈ parts, ∃ x rest, part = x :: rest ∧ x ≠ c) :
    findText (sep :: c :: pat) ([sep].intercalate parts ++ (sep :: c :: pat) ++ text) =
      some ([sep].intercalate parts).length := by
  have hhere : findText (sep :: c :: pat) ((sep :: c :: pat) ++ text) = some 0 := by
    rw [List.cons_append, findText, if_pos ⟨text, rfl⟩]
  induction parts with
  | nil => exact hhere
  | cons part parts ih =>
    have hpart := hsep part List.mem_cons_self
    cases parts with
    | nil =>
      rw [List.intercalate_singleton, List.append_assoc, findText_cons_append hpart, hhere]
      simp
    | cons next parts =>
      obtain ⟨x, rest, hnext, hx⟩ := hc next (List.mem_cons_of_mem _ List.mem_cons_self)
      have hstart : ∃ more, [sep].intercalate (next :: parts) = x :: more := by
        subst hnext
        cases parts with
        | nil => exact ⟨rest, List.intercalate_singleton⟩
        | cons p parts => exact ⟨_, by rw [List.intercalate_cons_cons]; rfl⟩
      obtain ⟨more, hmore⟩ := hstart
      have hih := ih (fun p hp => hsep p (List.mem_cons_of_mem _ hp))
        fun p hp => hc p (List.mem_cons_of_mem _ hp)
      rw [List.intercalate_cons_cons, List.append_assoc, List.append_assoc, List.append_assoc,
        findText_cons_append hpart, List.singleton_append, findText, if_neg ?_, ← List.append_assoc,
        hih]
      · simp [Nat.add_comm]
      · rw [hmore]
        intro hpre
        rw [List.cons_prefix_cons, List.cons_append, List.cons_prefix_cons] at hpre
        exact hx hpre.2.1.symm

/-- The first place of one character. -/
lemma findText_singleton_iff {c : α} {i : ℕ} :
    findText [c] text = some i ↔ ∃ s t, text = s ++ c :: t ∧ c ∉ s ∧ s.length = i := by
  constructor
  · intro h
    obtain ⟨⟨t, ht⟩, hfirst⟩ := findText_spec h
    have hdrop : text.drop i = c :: t := ht.symm
    have hi : i < text.length := by
      have hlen := congrArg List.length hdrop
      rw [List.length_drop, List.length_cons] at hlen
      omega
    refine ⟨text.take i, t, ?_, fun hc => ?_, by rw [List.length_take]; omega⟩
    · rw [← hdrop, List.take_append_drop]
    · obtain ⟨j, hj, hjc⟩ := List.mem_take_iff_getElem.1 hc
      refine hfirst j (by omega) ?_
      rw [List.drop_eq_getElem_cons (by omega), hjc]
      exact ⟨text.drop (j + 1), rfl⟩
  · rintro ⟨s, t, rfl, hc, rfl⟩
    have hs : ∀ x ∈ s, x ∉ [c] := fun x hx => by
      rw [List.mem_singleton]
      exact ne_of_mem_of_not_mem hx hc
    rw [findText_append_left (List.cons_ne_nil _ _) hs, findText, if_pos ⟨t, rfl⟩]
    simp

/-! ## Replacing -/

/-- The rule that takes each place of the pattern as a hole. -/
def placeOf (pat text : List α) : Option (Unit × ℕ) :=
  if pat <+: text then some ((), pat.length - 1) else none

/-- The text with each place of the pattern replaced, from the left. -/
def replaceAll (pat repl text : List α) : List α :=
  fill (fun _ => repl) (cut (placeOf pat) 0 text)

/-- The pattern is found by the rule exactly when it occurs. -/
lemma mem_names_cut_placeOf (hpat : pat ≠ []) :
    () ∈ names (cut (placeOf pat) 0 text) ↔ pat <:+: text := by
  have hmem : () ∈ names (cut (placeOf pat) 0 text) ↔ names (cut (placeOf pat) 0 text) ≠ [] :=
    ⟨List.ne_nil_of_mem, fun h => by
      obtain ⟨k, ks, hks⟩ := List.exists_cons_of_ne_nil h
      exact hks ▸ List.mem_cons_self⟩
  rw [hmem, infix_iff_exists_drop hpat, Ne, names_cut_eq_nil_iff]
  simp only [placeOf, ite_eq_right_iff, reduceCtorEq, imp_false, not_forall, not_not, exists_prop]

/-- **A replacement changes nothing** exactly when the pattern does not occur or is its own
replacement. -/
theorem replaceAll_eq_self_iff (hpat : pat ≠ []) :
    replaceAll pat repl text = text ↔ (pat <:+: text → repl = pat) := by
  have hsource : fill (fun _ => pat) (cut (placeOf pat) 0 text) = text := by
    refine fill_cut_eq_self fun t k m h => ?_
    unfold placeOf at h
    split at h
    · rename_i hpre
      cases h
      rw [Nat.sub_add_cancel (List.length_pos_iff.2 hpat)]
      exact List.prefix_iff_eq_append.1 hpre |>.symm
    · exact absurd h nofun
  have hiff : replaceAll pat repl text = fill (fun _ => pat) (cut (placeOf pat) 0 text) ↔
      ∀ k ∈ names (cut (placeOf pat) 0 text), repl = pat := by
    rcases Nat.le_total repl.length pat.length with hle | hle
    · exact fill_eq_iff fun _ _ => hle
    · rw [eq_comm, replaceAll, fill_eq_iff fun _ _ => hle]
      exact forall₂_congr fun _ _ => eq_comm
  rw [hsource] at hiff
  rw [hiff, ← mem_names_cut_placeOf hpat]
  exact ⟨fun h => h (), fun h _ => h⟩

/-- How many places are replaced. -/
def placeCount (pat text : List α) : ℕ := (names (cut (placeOf pat) 0 text)).length

/-- Nothing is replaced where the pattern does not occur. -/
lemma placeCount_eq_zero_iff (hpat : pat ≠ []) : placeCount pat text = 0 ↔ ¬ pat <:+: text := by
  rw [placeCount, List.length_eq_zero_iff, ← mem_names_cut_placeOf hpat]
  constructor
  · intro hnil hmem
    rw [hnil] at hmem
    exact absurd hmem List.not_mem_nil
  · exact fun h => List.eq_nil_iff_forall_not_mem.2 fun () hmem => h hmem

variable {parts : List α × List α}

/-- The pieces of a text up to and with the first place. -/
lemma cut_placeOf_of_cutFirst (hpat : pat ≠ []) (h : cutFirst pat text = some parts) :
    cut (placeOf pat) 0 text = parts.1.map .char ++ .hole () :: cut (placeOf pat) 0 parts.2 := by
  obtain ⟨i, hi, rfl⟩ := Option.map_eq_some_iff.1 h
  obtain ⟨hpre, hfirst⟩ := findText_spec hi
  have hpos := List.length_pos_iff.2 hpat
  have hlen := hpre.length_le
  rw [List.length_drop] at hlen
  have hdrop : text.drop i = text[i] :: text.drop (i + 1) := List.drop_eq_getElem_cons (by omega)
  have hrule : placeOf pat (text[i] :: text.drop (i + 1)) = some ((), pat.length - 1) := by
    rw [placeOf, ← hdrop, if_pos hpre]
  have hskip : i + 1 + (pat.length - 1) = i + pat.length := by omega
  dsimp only
  rw [cut_eq_append (fun j hj => if_neg (hfirst j hj)) (by omega), hdrop]
  simp only [cut, hrule]
  rw [cut_eq_drop, List.drop_drop, hskip]

/-- A replacement at the first place and behind it. -/
lemma replaceAll_of_cutFirst {repl : List α} (hpat : pat ≠ []) (h : cutFirst pat text = some parts) :
    replaceAll pat repl text = parts.1 ++ (repl ++ replaceAll pat repl parts.2) := by
  rw [replaceAll, cut_placeOf_of_cutFirst hpat h, fill_append, fill_map_char, fill, ← replaceAll]

/-- The first place is one more than those behind it. -/
lemma placeCount_of_cutFirst (hpat : pat ≠ []) (h : cutFirst pat text = some parts) :
    placeCount pat text = placeCount pat parts.2 + 1 := by
  rw [placeCount, cut_placeOf_of_cutFirst hpat h, names_append, names_map_char, names,
    List.nil_append, List.length_cons, ← placeCount]

/-! ## Holes with an opening and a closing text -/

/-- The rule of a hole that starts with the opening text and ends at the next closing text.  Its name is
what stands between them. -/
def between (opening closing text : List α) : Option (List α × ℕ) :=
  if opening <+: text then
    let rest := text.drop opening.length
    (findText closing rest).map fun i => (rest.take i, opening.length + i + closing.length - 1)
  else none

variable {opening closing : List α} {fillWith : List α → List α}

/-- Without an opening text, or without a closing one after the first of them, there is no hole. -/
lemma fill_cut_between_of_none (hopen : opening ≠ [])
    (h : ∀ i, findText opening text = some i →
      findText closing (text.drop (i + opening.length)) = none) :
    fill fillWith (cut (between opening closing) 0 text) = text := by
  refine fill_cut_of_none fun j hj => ?_
  unfold between
  split
  · rename_i hpre
    have hsub : opening <:+: text := (infix_iff_exists_drop hopen).2 ⟨j, hj, hpre⟩
    obtain ⟨i, hi⟩ := Option.ne_none_iff_exists'.1 (mt findText_eq_none_iff.1 (not_not.2 hsub))
    have hij : i ≤ j := not_lt.1 fun hlt => (findText_spec hi).2 j hlt hpre
    have hclose := findText_eq_none_iff.1 (h i hi)
    have hrest : (text.drop j).drop opening.length <:+: text.drop (i + opening.length) := by
      rw [List.drop_drop]
      exact (List.drop_suffix_drop_left text (Nat.add_le_add_right hij _)).isInfix
    exact Option.map_eq_none_iff.2 (findText_eq_none_iff.2 fun hc => hclose (hc.trans hrest))
  · rfl

/-- A scan up to and with its first hole. -/
lemma fill_cut_between {i j : ℕ} (hopen : opening ≠ [])
    (hi : findText opening text = some i)
    (hj : findText closing (text.drop (i + opening.length)) = some j) :
    fill fillWith (cut (between opening closing) 0 text) =
      text.take i ++ (fillWith ((text.drop (i + opening.length)).take j) ++
        fill fillWith (cut (between opening closing) 0
          (text.drop (i + opening.length + j + closing.length)))) := by
  have hpre := (findText_spec hi).1
  have hlen := hpre.length_le.trans_lt' (List.length_pos_iff.2 hopen)
  rw [List.length_drop] at hlen
  have hrule : between opening closing (text.drop i) =
      some ((text.drop (i + opening.length)).take j, opening.length + j + closing.length - 1) := by
    simp only [between, if_pos hpre, List.drop_drop, hj, Option.map_some]
  have hpos := List.length_pos_iff.2 hopen
  rw [fill_cut_of_some (fun m hm => if_neg ((findText_spec hi).2 m hm)) (by omega) hrule]
  congr 5
  omega

end Holes
