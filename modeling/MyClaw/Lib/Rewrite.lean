import Mathlib.Data.List.Basic
import Mathlib.Algebra.Order.Group.Nat

set_option autoImplicit false

/-!
# Passes that rewrite a text

A pass goes over a text piece by piece: in each of its states it reads the beginning of what is left and
writes something for it.  What it writes may be read by the pass once more; it is then kept, if every
piece that was written is read as pieces that are written as they are.

## Main definitions

* `Rewrite.Turn`, `Rewrite.pass` — one turn of a pass, and the pass.
* `Rewrite.Shrinks` — each turn reads something.
* `Rewrite.Keeps` — a piece is written as it is read, in one turn or in several.

## Main results

* `Rewrite.pass_cons` — a pass, turn by turn.
* `Rewrite.relates_pass` — what holds of a text and what is written for it.
* `Rewrite.pass_pass` — when a second pass changes nothing.
-/

namespace Rewrite

variable {σ α : Type*}

/-- What one turn writes, what it leaves to be read, and the state behind it. -/
structure Turn (σ α : Type*) where
  written : List α
  rest : List α
  next : σ

/-- The pass, for at most so many turns. -/
def run (turn : σ → List α → Turn σ α) : ℕ → σ → List α → List α
  | 0, _, _ => []
  | _ + 1, _, [] => []
  | fuel + 1, s, x :: xs =>
    (turn s (x :: xs)).written ++ run turn fuel (turn s (x :: xs)).next (turn s (x :: xs)).rest

/-- The pass over a text. -/
def pass (turn : σ → List α → Turn σ α) (s : σ) (text : List α) : List α :=
  run turn text.length s text

/-- Each turn reads something. -/
def Shrinks (turn : σ → List α → Turn σ α) : Prop :=
  ∀ s x xs, (turn s (x :: xs)).rest.length ≤ xs.length

/-- A piece before `rest` is written as it is read, from one state to another. -/
inductive Keeps (turn : σ → List α → Turn σ α) (rest : List α) : σ → List α → σ → Prop
  | nil (s : σ) : Keeps turn rest s [] s
  | turn {s s₁ s₂ : σ} {w₁ w₂ : List α} (hne : w₁ ≠ [])
      (h : turn s (w₁ ++ (w₂ ++ rest)) = ⟨w₁, w₂ ++ rest, s₁⟩) (hmore : Keeps turn rest s₁ w₂ s₂) :
      Keeps turn rest s (w₁ ++ w₂) s₂

section Pass

variable {turn : σ → List α → Turn σ α} (hturn : Shrinks turn)

@[simp] lemma pass_nil (s : σ) : pass turn s [] = [] := rfl

include hturn in
/-- More turns than characters do no more. -/
lemma run_eq_run {n m : ℕ} {s : σ} {text : List α} (hn : text.length ≤ n) (hm : text.length ≤ m) :
    run turn n s text = run turn m s text := by
  induction n generalizing s text m with
  | zero =>
    obtain rfl := List.length_eq_zero_iff.1 (Nat.le_zero.1 hn)
    cases m <;> rfl
  | succ n ih =>
    cases text with
    | nil => cases m <;> rfl
    | cons x xs =>
      obtain ⟨m, rfl⟩ : ∃ k, m = k + 1 := ⟨m - 1, by rw [List.length_cons] at hm; omega⟩
      have hrest := hturn s x xs
      rw [List.length_cons] at hn hm
      rw [run, run, ih (m := m) (by omega) (by omega)]

include hturn in
/-- **A pass, turn by turn**. -/
theorem pass_cons (s : σ) (x : α) (xs : List α) :
    pass turn s (x :: xs) =
      (turn s (x :: xs)).written ++ pass turn (turn s (x :: xs)).next (turn s (x :: xs)).rest := by
  rw [pass, List.length_cons, run, run_eq_run hturn (hturn s x xs) le_rfl, ← pass]

include hturn in
/-- A text that begins with a piece which is kept. -/
lemma Keeps.pass_append {s s' : σ} {w rest : List α} (h : Keeps turn rest s w s') :
    pass turn s (w ++ rest) = w ++ pass turn s' rest := by
  induction h with
  | nil s => rfl
  | @turn s s₁ s₂ w₁ w₂ hne hone _ ih =>
    obtain ⟨x, w₁, rfl⟩ := List.exists_cons_of_ne_nil hne
    rw [List.append_assoc, List.cons_append, pass_cons hturn, ← List.cons_append, hone, ih,
      ← List.append_assoc]

/-- A piece that one turn keeps. -/
lemma Keeps.single {s s' : σ} {w rest : List α} (hne : w ≠ [])
    (h : turn s (w ++ rest) = ⟨w, rest, s'⟩) : Keeps turn rest s w s' := by
  have hkeep : Keeps turn rest s (w ++ []) s' := .turn hne h (.nil s')
  rwa [List.append_nil] at hkeep

/-- Pieces that are kept one after the other. -/
lemma Keeps.trans {s s₁ s₂ : σ} {w₁ w₂ rest : List α} (h : Keeps turn (w₂ ++ rest) s w₁ s₁)
    (h' : Keeps turn rest s₁ w₂ s₂) : Keeps turn rest s (w₁ ++ w₂) s₂ := by
  induction h with
  | nil s => exact h'
  | @turn s s₁ s₂ v₁ v₂ hne hone _ ih =>
    rw [List.append_assoc]
    refine .turn hne ?_ (ih h')
    rw [List.append_assoc]
    exact hone

variable {W : List α → List α → Prop}

include hturn in
/-- **What holds of a text and what is written for it**, if each turn carries it from what it leaves to
what it reads. -/
theorem relates_pass (hnil : W [] [])
    (hcons : ∀ s x xs X, W (turn s (x :: xs)).rest X → W (x :: xs) ((turn s (x :: xs)).written ++ X))
    (s : σ) (text : List α) : W text (pass turn s text) := by
  obtain ⟨n, hn⟩ : ∃ n, text.length ≤ n := ⟨_, le_rfl⟩
  induction n generalizing s text with
  | zero =>
    obtain rfl := List.length_eq_zero_iff.1 (Nat.le_zero.1 hn)
    exact hnil
  | succ n ih =>
    cases text with
    | nil => exact hnil
    | cons x xs =>
      have hrest := hturn s x xs
      rw [List.length_cons] at hn
      rw [pass_cons hturn]
      exact hcons s x xs _ (ih _ _ (by omega))

include hturn in
/-- **When a second pass changes nothing**: the second pass may be in other states than the first, if
they agree on what is left; each piece that was written has to be kept, before everything that may be
written for the rest. -/
theorem pass_pass {Sim : σ → List α → σ → Prop} (hnil : W [] [])
    (hcons : ∀ s x xs X, W (turn s (x :: xs)).rest X → W (x :: xs) ((turn s (x :: xs)).written ++ X))
    (hkeeps : ∀ s x xs s₂ X, Sim s (x :: xs) s₂ → W (turn s (x :: xs)).rest X →
      ∃ s₂', Keeps turn X s₂ (turn s (x :: xs)).written s₂' ∧
        Sim (turn s (x :: xs)).next (turn s (x :: xs)).rest s₂')
    {s s₂ : σ} {text : List α} (hsim : Sim s text s₂) :
    pass turn s₂ (pass turn s text) = pass turn s text := by
  obtain ⟨n, hn⟩ : ∃ n, text.length ≤ n := ⟨_, le_rfl⟩
  induction n generalizing s s₂ text with
  | zero =>
    obtain rfl := List.length_eq_zero_iff.1 (Nat.le_zero.1 hn)
    rfl
  | succ n ih =>
    cases text with
    | nil => rfl
    | cons x xs =>
      have hrest := hturn s x xs
      rw [List.length_cons] at hn
      obtain ⟨s₂', hkeep, hsim'⟩ :=
        hkeeps s x xs s₂ _ hsim (relates_pass hturn hnil hcons (turn s (x :: xs)).next _)
      rw [pass_cons hturn, hkeep.pass_append hturn, ih hsim' (by omega)]

end Pass

end Rewrite
