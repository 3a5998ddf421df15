import Mathlib.Data.List.Basic
import Mathlib.Data.List.Count

set_option autoImplicit false

/-!
# Token accounting

To say that a system of queues, channels and tables neither loses nor duplicates what is put into
it, each item gets a number, and each value that the system moves around carries the numbers of the
items that went into it.  A state is accounted for when every number that was given out is exactly
once in the places of the state or among the numbers that were spent.

## Main definitions

* `Tokens.Tagged` — a value with the numbers that it carries.
* `Tokens.carried` — the numbers that the values of a list carry.
* `Tokens.Accounted` — each number given out is exactly once in a place or spent.

## Main results

* `Tokens.Accounted.move`, `Tokens.Accounted.issue` — the two rules for a step.
* `Tokens.Accounted.count_eq_one_iff` — a number is exactly once in the places exactly when it is
  not spent.
* `Tokens.count_flatMap_of_find?` — the numbers of a list, split at an element that is taken out.
-/

namespace Tokens

/-- A value, and the numbers of the items that went into it. -/
structure Tagged (α : Type*) where
  val : α
  carries : List Nat
  deriving DecidableEq

/-- The numbers that the values of a list carry. -/
def carried {α : Type*} (xs : List (Tagged α)) : List Nat := xs.flatMap Tagged.carries

/-- Every number below `next` is exactly once in the places or among the spent ones, and no other
number is anywhere. -/
def Accounted (places spent : List Nat) (next : Nat) : Prop :=
  ∀ n, places.count n + spent.count n = if n < next then 1 else 0

section

variable {α : Type*} {x : Tagged α} {xs ys : List (Tagged α)} {p : Tagged α → Bool}

@[simp] lemma carried_nil : carried ([] : List (Tagged α)) = [] := rfl

@[simp] lemma carried_cons : carried (x :: xs) = x.carries ++ carried xs := rfl

@[simp] lemma carried_append : carried (xs ++ ys) = carried xs ++ carried ys :=
  List.flatMap_append

lemma count_carried_filter (p : Tagged α → Bool) (xs : List (Tagged α)) (n : Nat) :
    (carried (xs.filter p)).count n + (carried (xs.filter fun x => !p x)).count n =
      (carried xs).count n := by
  induction xs with
  | nil => rfl
  | cons x xs ih =>
    by_cases hp : p x = true <;> simp [hp, List.count_append] <;> omega

lemma count_carried_take (k : Nat) (xs : List (Tagged α)) (n : Nat) :
    (carried (xs.take k)).count n + (carried (xs.drop k)).count n = (carried xs).count n := by
  rw [← List.count_append, ← carried_append, List.take_append_drop]

end

/-- An element that is found in a list and taken out accounts for the rest. -/
lemma count_flatMap_of_find? {α : Type*} {f : α → List Nat} {p : α → Bool} {l : List α} {a : α}
    (h : l.find? p = some a) (n : Nat) :
    (l.flatMap f).count n = (f a).count n + ((l.eraseP p).flatMap f).count n := by
  induction l with
  | nil => cases h
  | cons b l ih =>
    by_cases hp : p b = true
    · rw [List.find?_cons_of_pos hp, Option.some.injEq] at h
      rw [List.eraseP_cons_of_pos hp, List.flatMap_cons, List.count_append, h]
    · rw [List.find?_cons_of_neg hp] at h
      rw [List.eraseP_cons_of_neg hp, List.flatMap_cons, List.flatMap_cons, List.count_append,
        List.count_append, ih h]
      omega

namespace Accounted

variable {places spent places' spent' : List Nat} {next n : Nat}

/-- At the start each number is in its place. -/
lemma range (next : Nat) : Accounted (List.range next) [] next := by
  intro n
  rw [List.count_nil, Nat.add_zero]
  split_ifs with hlt
  · rw [List.nodup_range.count, if_pos (List.mem_range.2 hlt)]
  · exact List.count_eq_zero.2 fun hmem => hlt (List.mem_range.1 hmem)

/-- **Moving**: a step that keeps the total of each number keeps the account. -/
lemma move (h : Accounted places spent next)
    (heq : ∀ n, places'.count n + spent'.count n = places.count n + spent.count n) :
    Accounted places' spent' next := fun n => (heq n).trans (h n)

/-- **Issuing**: a step that adds the next number keeps the account. -/
lemma issue (h : Accounted places spent next)
    (heq : ∀ n, places'.count n + spent'.count n =
      places.count n + spent.count n + [next].count n) :
    Accounted places' spent' (next + 1) := by
  intro n
  rw [heq n, h n, List.count_singleton]
  by_cases hn : n = next
  · subst hn
    simp
  · have hne : ¬ next = n := Ne.symm hn
    have hiff : n < next + 1 ↔ n < next := by omega
    simp [hne, hiff]

/-- What is in a place was given out and is not spent, and it is in no second place. -/
lemma of_mem (h : Accounted places spent next) (hn : n ∈ places) :
    n < next ∧ n ∉ spent ∧ places.count n = 1 := by
  have hpos := List.count_pos_iff.2 hn
  have hcount := h n
  by_cases hlt : n < next
  · rw [if_pos hlt] at hcount
    exact ⟨hlt, List.count_eq_zero.1 (by omega), by omega⟩
  · rw [if_neg hlt] at hcount
    omega

/-- A spent number was given out. -/
lemma lt_of_mem_spent (h : Accounted places spent next) (hn : n ∈ spent) : n < next := by
  have hpos := List.count_pos_iff.2 hn
  have hcount := h n
  by_contra hlt
  rw [if_neg hlt] at hcount
  omega

/-- **Exactly once**: a number that was given out is exactly once in the places exactly when it is
not spent. -/
theorem count_eq_one_iff (h : Accounted places spent next) (hn : n < next) :
    places.count n = 1 ↔ n ∉ spent := by
  have hcount := h n
  rw [if_pos hn] at hcount
  rw [← List.count_eq_zero]
  omega

end Accounted

end Tokens
