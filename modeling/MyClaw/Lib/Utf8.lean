import Mathlib.Data.List.Basic

set_option autoImplicit false

/-!
# UTF-8 and its lossy reading

The first octet of a sequence says in which ranges the octets after it have to lie.  A lossy reading
puts a replacement character in the place of each longest beginning of a sequence that breaks off.

## Main definitions

* `Utf8.tailRanges` — the ranges of the octets after the first one.
* `Utf8.chunk` — the first sequence, whole or broken off.
* `Utf8.isValid`, `Utf8.lossy` — validity, and the lossy reading.

## Main results

* `Utf8.lossy_eq_self_iff` — exactly the valid texts are read as they are.
-/

namespace Utf8

/-- The ranges of the octets after the first one, if it begins a sequence. -/
def tailRanges (b : UInt8) : Option (List (UInt8 × UInt8)) :=
  if b < 0x80 then some []
  else if 0xC2 ≤ b ∧ b ≤ 0xDF then some [(0x80, 0xBF)]
  else if b = 0xE0 then some [(0xA0, 0xBF), (0x80, 0xBF)]
  else if b = 0xED then some [(0x80, 0x9F), (0x80, 0xBF)]
  else if 0xE1 ≤ b ∧ b ≤ 0xEF then some [(0x80, 0xBF), (0x80, 0xBF)]
  else if b = 0xF0 then some [(0x90, 0xBF), (0x80, 0xBF), (0x80, 0xBF)]
  else if 0xF1 ≤ b ∧ b ≤ 0xF3 then some [(0x80, 0xBF), (0x80, 0xBF), (0x80, 0xBF)]
  else if b = 0xF4 then some [(0x80, 0x8F), (0x80, 0xBF), (0x80, 0xBF)]
  else none

/-- The longest beginning whose octets lie in the ranges, the rest, and whether all ranges are met. -/
def takeRanges : List (UInt8 × UInt8) → List UInt8 → List UInt8 × List UInt8 × Bool
  | [], l => ([], l, true)
  | _ :: _, [] => ([], [], false)
  | (lo, hi) :: ranges, b :: l =>
    if lo ≤ b ∧ b ≤ hi then
      let (taken, rest, whole) := takeRanges ranges l
      (b :: taken, rest, whole)
    else ([], b :: l, false)

/-- The first sequence of a text that begins with this octet, the rest, and whether the sequence is
whole. -/
def chunk (b : UInt8) (l : List UInt8) : List UInt8 × List UInt8 × Bool :=
  match tailRanges b with
  | none => ([b], l, false)
  | some ranges =>
    let (taken, rest, whole) := takeRanges ranges l
    (b :: taken, rest, whole)

/-- The replacement character. -/
def replacement : List UInt8 := [0xEF, 0xBF, 0xBD]

/-- Validity, for at most so many sequences. -/
def isValidUpTo : ℕ → List UInt8 → Bool
  | 0, _ => true
  | _ + 1, [] => true
  | n + 1, b :: l => (chunk b l).2.2 && isValidUpTo n (chunk b l).2.1

/-- The octets are valid UTF-8. -/
def isValid (l : List UInt8) : Bool := isValidUpTo l.length l

/-- The lossy reading of at most so many sequences. -/
def lossyUpTo : ℕ → List UInt8 → List UInt8
  | 0, _ => []
  | _ + 1, [] => []
  | n + 1, b :: l =>
    (if (chunk b l).2.2 then (chunk b l).1 else replacement) ++ lossyUpTo n (chunk b l).2.1

/-- The text with the broken sequences replaced. -/
def lossy (l : List UInt8) : List UInt8 := lossyUpTo l.length l

lemma takeRanges_append (ranges : List (UInt8 × UInt8)) (l : List UInt8) :
    (takeRanges ranges l).1 ++ (takeRanges ranges l).2.1 = l := by
  induction ranges generalizing l with
  | nil => rfl
  | cons range ranges ih =>
    cases l with
    | nil => rfl
    | cons b l =>
      unfold takeRanges
      split
      · simpa using ih l
      · rfl

/-- A text is its first sequence and the rest. -/
lemma chunk_append (b : UInt8) (l : List UInt8) : (chunk b l).1 ++ (chunk b l).2.1 = b :: l := by
  unfold chunk
  cases tailRanges b with
  | none => rfl
  | some ranges => simpa using takeRanges_append ranges l

lemma chunk_length (b : UInt8) (l : List UInt8) : (chunk b l).2.1.length ≤ l.length := by
  unfold chunk
  cases tailRanges b with
  | none => exact Nat.le_refl _
  | some ranges =>
    have h := congrArg List.length (takeRanges_append ranges l)
    rw [List.length_append] at h
    show (takeRanges ranges l).2.1.length ≤ l.length
    omega

lemma takeRanges_append_right (ranges : List (UInt8 × UInt8)) (l more : List UInt8)
    (h : (takeRanges ranges l).2.2 = true ∨ (takeRanges ranges l).2.1 ≠ []) :
    takeRanges ranges (l ++ more) =
      ((takeRanges ranges l).1, (takeRanges ranges l).2.1 ++ more, (takeRanges ranges l).2.2) := by
  induction ranges generalizing l with
  | nil => rfl
  | cons range ranges ih =>
    obtain ⟨lo, hi⟩ := range
    cases l with
    | nil => simp [takeRanges] at h
    | cons b l =>
      rw [List.cons_append, takeRanges, takeRanges]
      by_cases hrange : lo ≤ b ∧ b ≤ hi
      · rw [takeRanges, if_pos hrange] at h
        rw [if_pos hrange, if_pos hrange, ih l h]
      · rw [if_neg hrange, if_neg hrange]
        rfl

/-- **A sequence that is whole**, or breaks off in front of an octet, stays so when more octets come. -/
lemma chunk_append_right (b : UInt8) (l more : List UInt8)
    (h : (chunk b l).2.2 = true ∨ (chunk b l).2.1 ≠ [] ∨ tailRanges b = none) :
    chunk b (l ++ more) = ((chunk b l).1, (chunk b l).2.1 ++ more, (chunk b l).2.2) := by
  unfold chunk at h ⊢
  cases hranges : tailRanges b with
  | none => rfl
  | some ranges =>
    rw [hranges] at h
    have hmet : (takeRanges ranges l).2.2 = true ∨ (takeRanges ranges l).2.1 ≠ [] :=
      h.imp_right fun h => h.resolve_right nofun
    dsimp only
    rw [takeRanges_append_right ranges l more hmet]

/-- The replacement character is a whole sequence. -/
lemma chunk_replacement (l : List UInt8) : (chunk 0xEF (0xBF :: 0xBD :: l)).2.2 = true := rfl

lemma lossyUpTo_eq_self_iff (n : ℕ) (l : List UInt8) (h : l.length ≤ n) :
    lossyUpTo n l = l ↔ isValidUpTo n l = true := by
  induction n generalizing l with
  | zero =>
    obtain rfl := List.eq_nil_of_length_eq_zero (Nat.le_zero.1 h)
    exact iff_of_true rfl rfl
  | succ n ih =>
    cases l with
    | nil => exact iff_of_true rfl rfl
    | cons b l =>
      have hrest : (chunk b l).2.1.length ≤ n :=
        Nat.le_trans (chunk_length b l) (Nat.le_of_succ_le_succ h)
      simp only [lossyUpTo, isValidUpTo, Bool.and_eq_true]
      cases hwhole : (chunk b l).2.2 with
      | true =>
        simp only [if_true, true_and]
        rw [← ih _ hrest]
        have hsplit := chunk_append b l
        constructor
        · intro heq
          rw [← hsplit] at heq
          exact List.append_cancel_left heq
        · intro heq
          rw [heq, hsplit]
      | false =>
        -- a text that begins with the replacement character begins with a whole sequence
        refine iff_of_false (fun heq => ?_) (by simp)
        simp only [Bool.false_eq_true, if_false, replacement, List.cons_append,
          List.nil_append, List.cons.injEq] at heq
        obtain ⟨rfl, hl⟩ := heq
        rw [← hl, chunk_replacement] at hwhole
        cases hwhole

/-- **Exactly the valid texts are read as they are.** -/
theorem lossy_eq_self_iff (l : List UInt8) : lossy l = l ↔ isValid l = true :=
  lossyUpTo_eq_self_iff l.length l (Nat.le_refl _)

end Utf8
