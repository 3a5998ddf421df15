import Mathlib.Data.List.Basic
import Mathlib.Algebra.Order.Group.Nat

set_option autoImplicit false

/-!
# Fixed-window limits

A limiter that counts in windows of a fixed length: a window starts with an arrival and is over with
the first arrival more than its length later.  The bound it gives on windows of any other alignment
is twice its limit.

## Main definitions

* `FixedWindow.Inv` — what was admitted so far, against the present window.

## Main results

* `FixedWindow.Inv.restart`, `FixedWindow.Inv.accept` — a new window starts; an arrival is admitted.
* `FixedWindow.Inv.window` — no window of the length has more than twice the limit.
-/

namespace FixedWindow

/-- The times `A` that a limiter has admitted, when its window started at `s` and it has admitted `n`
arrivals since, at most. -/
structure Inv (limit length : ℕ) (A : List ℕ) (s n : ℕ) : Prop where
  current : A.countP (fun t => decide (s ≤ t)) ≤ n
  le_limit : n ≤ limit
  bound : ∀ t ∈ A, t ≤ s + length
  /-- Just before the present window there are only arrivals of the one before it. -/
  previous : ∀ a, s ≤ a + length → A.countP (fun t => decide (a ≤ t ∧ t < s)) ≤ limit
  window : ∀ a, A.countP (fun t => decide (a ≤ t ∧ t ≤ a + length)) ≤ 2 * limit

variable {limit length s n now : ℕ} {A : List ℕ}

lemma Inv.start (limit length s : ℕ) : Inv limit length [] s 0 :=
  ⟨Nat.le_refl _, Nat.zero_le _, nofun, fun _ _ => Nat.zero_le _, fun _ => Nat.zero_le _⟩

/-- The count may be larger than what was admitted. -/
lemma Inv.mono (h : Inv limit length A s n) {n' : ℕ} (hn : n ≤ n') (hlimit : n' ≤ limit) :
    Inv limit length A s n' :=
  ⟨Nat.le_trans h.current hn, hlimit, h.bound, h.previous, h.window⟩

/-- **A new window**: it starts with an arrival after the end of the present one. -/
lemma Inv.restart (h : Inv limit length A s n) (hnow : s + length < now) :
    Inv limit length A now 0 where
  current := by
    rw [Nat.le_zero, List.countP_eq_zero]
    intro t ht
    have hle := h.bound t ht
    simp only [decide_eq_true_eq]
    omega
  le_limit := Nat.zero_le _
  bound t ht := by
    have hle := h.bound t ht
    omega
  previous a ha := by
    -- what is close to the new window is in the present one
    refine Nat.le_trans (List.countP_mono_left fun t _ ht => ?_) (Nat.le_trans h.current h.le_limit)
    simp only [decide_eq_true_eq] at ht ⊢
    omega
  window := h.window

/-- **An arrival is admitted** in the present window. -/
lemma Inv.accept (h : Inv limit length A s n) (hlow : s ≤ now) (hhigh : now ≤ s + length)
    (hn : n < limit) : Inv limit length (A ++ [now]) s (n + 1) where
  current := by
    have hcurrent := h.current
    rw [List.countP_append, List.countP_singleton]
    split <;> omega
  le_limit := hn
  bound t ht := by
    rcases List.mem_append.1 ht with ht | ht
    · exact h.bound t ht
    · rw [List.mem_singleton.1 ht]
      exact hhigh
  previous a ha := by
    have hprevious := h.previous a ha
    rw [List.countP_append, List.countP_singleton, if_neg]
    · omega
    · simp only [decide_eq_true_eq]
      omega
  window a := by
    have hwindow := h.window a
    rw [List.countP_append, List.countP_singleton]
    split
    · rename_i hin
      simp only [decide_eq_true_eq] at hin
      -- the window ends in the present one: what it has is of the present one and of the one before
      have hsplit : A.countP (fun t => decide (a ≤ t ∧ t ≤ a + length))
          ≤ A.countP (fun t => decide (a ≤ t ∧ t < s)) + A.countP (fun t => decide (s ≤ t)) := by
        clear h hwindow
        induction A with
        | nil => exact Nat.zero_le _
        | cons t A ih =>
          simp only [List.countP_cons, decide_eq_true_eq]
          split <;> split <;> split <;> omega
      have hprevious := h.previous a (by omega)
      have hcurrent := h.current
      omega
    · exact hwindow

end FixedWindow
