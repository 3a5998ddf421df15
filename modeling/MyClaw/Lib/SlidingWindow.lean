import Mathlib.Data.List.TakeWhile
import Mathlib.Algebra.Order.Group.Nat

set_option autoImplicit false

/-!
# Sliding-window limits

A limiter that keeps the times of what it admitted, forgets from the front those that are further back
than the length of its window, and admits an arrival when fewer than its limit are left.

## Main definitions

* `SlidingWindow.check` — the verdict on an arrival, and the times kept after it.
* `SlidingWindow.Inv` — what was admitted so far, against what is kept.

## Main results

* `SlidingWindow.Inv.check` — an arrival keeps the invariant.
* `SlidingWindow.Inv.window` — no window of the length, wherever it starts, has more than the limit.
-/

namespace SlidingWindow

/-- The times that are in the window which ends now; the forgotten ones are at the front. -/
def expire (length now : ℕ) (times : List ℕ) : List ℕ :=
  times.dropWhile fun t => t + length < now

/-- The verdict on an arrival, and the times kept after it. -/
def check (limit length now : ℕ) (times : List ℕ) : Bool × List ℕ :=
  let win := expire length now times
  if limit ≤ win.length then (false, win) else (true, win ++ [now])

/-- The times `A` that a limiter has admitted until now, when it keeps the times `kept`. -/
structure Inv (limit length : ℕ) (A kept : List ℕ) (now : ℕ) : Prop where
  /-- What is not kept is out of every window that has a later arrival. -/
  split : ∃ gone, A = gone ++ kept ∧ ∀ t ∈ gone, t + length < now
  window : ∀ a, A.countP (fun t => decide (a ≤ t ∧ t ≤ a + length)) ≤ limit

variable {limit length now : ℕ} {A kept : List ℕ}

lemma Inv.start (limit length now : ℕ) : Inv limit length [] [] now :=
  ⟨⟨[], rfl, nofun⟩, fun _ => Nat.zero_le _⟩

/-- Time passes. -/
lemma Inv.later (h : Inv limit length A kept now) {now' : ℕ} (hnow : now ≤ now') :
    Inv limit length A kept now' where
  split := by
    obtain ⟨gone, hA, hgone⟩ := h.split
    exact ⟨gone, hA, fun t ht => Nat.lt_of_lt_of_le (hgone t ht) hnow⟩
  window := h.window

/-- Times leave the window. -/
lemma Inv.expire (h : Inv limit length A kept now) :
    Inv limit length A (expire length now kept) now where
  split := by
    obtain ⟨gone, hA, hgone⟩ := h.split
    refine ⟨gone ++ kept.takeWhile fun t => t + length < now, ?_, ?_⟩
    · rw [hA, List.append_assoc, SlidingWindow.expire, List.takeWhile_append_dropWhile]
    · intro t ht
      rcases List.mem_append.1 ht with ht | ht
      · exact hgone t ht
      · simpa using List.mem_takeWhile_imp ht
  window := h.window

/-- An arrival is admitted. -/
lemma Inv.admit (h : Inv limit length A kept now) (hkept : kept.length < limit) :
    Inv limit length (A ++ [now]) (kept ++ [now]) now where
  split := by
    obtain ⟨gone, hA, hgone⟩ := h.split
    exact ⟨gone, by rw [hA, List.append_assoc], hgone⟩
  window a := by
    rw [List.countP_append, List.countP_singleton]
    split
    · rename_i hin
      simp only [decide_eq_true_eq] at hin
      -- a window with the arrival has nothing of what is forgotten
      obtain ⟨gone, hA, hgone⟩ := h.split
      have hnone : gone.countP (fun t => decide (a ≤ t ∧ t ≤ a + length)) = 0 := by
        rw [List.countP_eq_zero]
        intro t ht
        have hlt := hgone t ht
        simp only [decide_eq_true_eq]
        omega
      rw [hA, List.countP_append, hnone, Nat.zero_add]
      exact Nat.lt_of_le_of_lt List.countP_le_length hkept
    · exact h.window a

/-- **An arrival** keeps the invariant, whatever the verdict. -/
theorem Inv.check (h : Inv limit length A kept now) :
    Inv limit length (if (check limit length now kept).1 then A ++ [now] else A)
      (check limit length now kept).2 now := by
  unfold SlidingWindow.check
  simp only
  split
  · simpa using h.expire
  · rename_i hlt
    simpa using h.expire.admit (Nat.lt_of_not_le hlt)

end SlidingWindow
