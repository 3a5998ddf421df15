import Mathlib.Data.List.Basic

set_option autoImplicit false

/-!
# Readers that are resumed

A reader takes what it can from the front of its input and leaves the rest, to which more is appended
later.  It may be resumed if it takes from an input in two pieces what it takes from the whole.

## Main definitions

* `Resume.Resumable` — a reader may be resumed.
* `Resume.feedTwo` — two readers in a row on an input in pieces, each with a rest of its own.

## Main results

* `Resume.Resumable.feedTwo_eq` — the pieces do not matter.
-/

namespace Resume

universe u v w

variable {α : Type u} {β : Type v} {γ : Type w}

/-- What is left of a first piece is read with the second one. -/
def Resumable (read : List α → List β × List α) : Prop := ∀ x y,
  read (x ++ y) = ((read x).1 ++ (read ((read x).2 ++ y)).1, (read ((read x).2 ++ y)).2)

/-- A reader on pieces, and another one on what the first one takes from each. -/
def feedTwo (read : List α → List β × List α) (next : List β → List γ × List β) :
    List α → List β → List (List α) → List γ × List α × List β
  | rest, kept, [] => ([], rest, kept)
  | rest, kept, piece :: pieces =>
    let (out, rest) := read (rest ++ piece)
    let (items, kept) := next (kept ++ out)
    let (more, rest, kept) := feedTwo read next rest kept pieces
    (items ++ more, rest, kept)

namespace Resumable

variable {read : List α → List β × List α} {next : List β → List γ × List β}

/-- A reader takes nothing from what it has left. -/
lemma rest (h : Resumable read) (x : List α) : read (read x).2 = ([], (read x).2) := by
  have hall := h x []
  rw [List.append_nil, List.append_nil] at hall
  have htaken : (read x).1 = (read x).1 ++ (read (read x).2).1 := congrArg Prod.fst hall
  have hleft : (read x).2 = (read (read x).2).2 := by rw [← congrArg Prod.snd hall]
  exact Prod.ext (List.self_eq_append_right.1 htaken) hleft.symm

/-- **The pieces do not matter** to two readers in a row that may both be resumed. -/
theorem feedTwo_eq (h : Resumable read) (hnext : Resumable next) (rest : List α) (kept : List β)
    (hrest : read rest = ([], rest)) (hkept : next kept = ([], kept)) (pieces : List (List α)) :
    feedTwo read next rest kept pieces =
      ((next (kept ++ (read (rest ++ pieces.flatten)).1)).1, (read (rest ++ pieces.flatten)).2,
        (next (kept ++ (read (rest ++ pieces.flatten)).1)).2) := by
  induction pieces generalizing rest kept with
  | nil => rw [List.flatten_nil, List.append_nil, hrest, List.append_nil, hkept, feedTwo]
  | cons piece pieces ih =>
    rw [feedTwo, List.flatten_cons, ← List.append_assoc, h (rest ++ piece), ← List.append_assoc,
      hnext (kept ++ _)]
    dsimp only
    rw [ih _ _ (h.rest _) (hnext.rest _)]

end Resumable

end Resume
