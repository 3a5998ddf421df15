import Mathlib.Data.List.Infix

set_option autoImplicit false

/-!
# Texts that arrive in pieces

A text as a list of characters: what follows a prefix, and the lines of a text whose last one may still
be going on.

## Main definitions

* `Chars.stripPrefix` — what follows a prefix.
* `Chars.cutLines` — the lines that have ended, and what follows the last of them.

## Main results

* `Chars.cutLines_append` — a text that arrives in two pieces has the lines of the whole.
-/

namespace Chars

/-- The text without `start` if it starts so. -/
def stripPrefix (start text : List Char) : Option (List Char) :=
  if start <+: text then some (text.drop start.length) else none

/-- The lines of a text that a newline ends, and the text after the last newline. -/
def cutLines : List Char → List (List Char) × List Char
  | [] => ([], [])
  | c :: text =>
    let (lines, rest) := cutLines text
    if c = '\n' then ([] :: lines, rest)
    else
      match lines with
      | [] => ([], c :: rest)
      | line :: lines => ((c :: line) :: lines, rest)

/-- **Lines do not depend on the pieces that a text comes in**: the text after the last newline of the
first piece belongs to the second one. -/
theorem cutLines_append (a b : List Char) :
    cutLines (a ++ b) =
      ((cutLines a).1 ++ (cutLines ((cutLines a).2 ++ b)).1, (cutLines ((cutLines a).2 ++ b)).2) := by
  induction a with
  | nil => rfl
  | cons c a ih =>
    rw [List.cons_append, cutLines, cutLines, ih]
    by_cases hc : c = '\n'
    · simp [hc]
    · cases hlines : (cutLines a).1 with
      | nil => simp [hc, hlines, cutLines]
      | cons line lines => simp [hc, hlines]

end Chars
