import Mathlib.Data.List.Basic

set_option autoImplicit false

/-!
# What a program on fuel returns

A recursive program that need not end runs on fuel, and has no result when the fuel is used up.  It
returns a value if it has this value as its result on any fuel from some amount on.

## Main definitions

* `Fuel.Returns` — a program on fuel returns a value.
* `Fuel.Ends` — a program on fuel ends, and its value meets a condition unless it fails.
* `Fuel.andThen` — one program that may fail after another one.

## Main results

* `Fuel.Returns.unique` — a program returns at most one value.
* `Fuel.Returns.andThen`, `Fuel.Returns.andThen_map` — what a sequence of two programs returns.
-/

namespace Fuel

universe u

variable {α β ε : Type u}

/-- The program has the result `a` on enough fuel. -/
def Returns (p : ℕ → Option α) (a : α) : Prop := ∃ least, ∀ fuel, least ≤ fuel → p fuel = some a

/-- The program `k` after `p`, on what is left of the fuel; an error of `p` is one of both. -/
def andThen (p : Option (Except ε α)) (k : α → Option (Except ε β)) : Option (Except ε β) :=
  match p with
  | none => none
  | some (.error e) => some (.error e)
  | some (.ok a) => k a

namespace Returns

variable {p q : ℕ → Option α} {a b : α}

/-- **A program returns at most one value**. -/
theorem unique (h : Returns p a) (h' : Returns p b) : a = b := by
  obtain ⟨least, hleast⟩ := h
  obtain ⟨least', hleast'⟩ := h'
  have hboth := hleast (max least least') (Nat.le_max_left ..)
  rw [hleast' (max least least') (Nat.le_max_right ..)] at hboth
  exact (Option.some.inj hboth).symm

/-- A program that needs no fuel. -/
lemma pure (a : α) : Returns (fun _ => some a) a := ⟨0, fun _ _ => rfl⟩

/-- One turn of a program takes one unit of fuel. -/
lemma succ (hturn : ∀ fuel, p (fuel + 1) = q fuel) (h : Returns q a) : Returns p a := by
  obtain ⟨least, hleast⟩ := h
  refine ⟨least + 1, fun fuel hfuel => ?_⟩
  obtain ⟨fuel, rfl⟩ : ∃ n, fuel = n + 1 := ⟨fuel - 1, by omega⟩
  rw [hturn]
  exact hleast fuel (by omega)

variable {r : ℕ → Option (Except ε α)} {k : ℕ → α → Option (Except ε β)} {e : ε}
  {o : Except ε β}

/-- **A sequence** returns what the second program returns after the first. -/
theorem andThen (h : Returns r (.ok a)) (hk : Returns (fun fuel => k fuel a) o) :
    Returns (fun fuel => Fuel.andThen (r fuel) (k fuel)) o := by
  obtain ⟨least, hleast⟩ := h
  obtain ⟨least', hleast'⟩ := hk
  refine ⟨max least least', fun fuel hfuel => ?_⟩
  show Fuel.andThen (r fuel) (k fuel) = some o
  rw [hleast fuel (by omega)]
  exact hleast' fuel (by omega)

/-- A sequence fails as its first program fails. -/
lemma andThen_error (h : Returns r (.error e)) :
    Returns (fun fuel => Fuel.andThen (r fuel) (k fuel)) (.error e) := by
  obtain ⟨least, hleast⟩ := h
  refine ⟨least, fun fuel hfuel => ?_⟩
  show Fuel.andThen (r fuel) (k fuel) = some (.error e)
  rw [hleast fuel hfuel]
  rfl

/-- **A reader after a reader**: programs that return a value with what is left of their input. -/
theorem andThen_map {γ δ : Type u} {x : Except ε α} {f : α → Except ε γ} {mid rest : δ}
    {r : ℕ → Option (Except ε (α × δ))} {k : ℕ → α × δ → Option (Except ε (γ × δ))}
    (h : Returns r (x.map fun a => (a, mid)))
    (hk : ∀ a, x = .ok a → Returns (fun fuel => k fuel (a, mid)) ((f a).map fun c => (c, rest))) :
    Returns (fun fuel => Fuel.andThen (r fuel) (k fuel)) ((x >>= f).map fun c => (c, rest)) := by
  cases x with
  | error e => exact andThen_error h
  | ok a => exact andThen h (hk a rfl)

/-- A reader after a value that may be an error. -/
lemma andThen_some {γ δ : Type u} {x : Except ε α} {f : α → Except ε γ} {rest : δ}
    {k : ℕ → α → Option (Except ε (γ × δ))}
    (hk : ∀ a, x = .ok a → Returns (fun fuel => k fuel a) ((f a).map fun c => (c, rest))) :
    Returns (fun fuel => Fuel.andThen (some x) (k fuel)) ((x >>= f).map fun c => (c, rest)) := by
  cases x with
  | error e => exact pure _
  | ok a => exact hk a rfl

end Returns

/-- The program ends, and its value meets `Q` unless it fails. -/
def Ends (p : ℕ → Option (Except ε α)) (Q : α → Prop) : Prop :=
  ∃ r, Returns p r ∧ ∀ a, r = .ok a → Q a

namespace Ends

variable {p q : ℕ → Option (Except ε α)} {P Q : α → Prop} {R : β → Prop}
    {k : ℕ → α → Option (Except ε β)}

lemma ok {a : α} (h : Q a) : Ends (fun _ => some (.ok a : Except ε α)) Q :=
  ⟨.ok a, Returns.pure _, fun b hb => by
    cases hb
    exact h⟩

lemma error (e : ε) : Ends (fun _ => some (.error e : Except ε α)) Q :=
  ⟨.error e, Returns.pure _, nofun⟩

lemma succ (hturn : ∀ fuel, p (fuel + 1) = q fuel) (h : Ends q Q) : Ends p Q := by
  obtain ⟨r, hr, hQ⟩ := h
  exact ⟨r, hr.succ hturn, hQ⟩

lemma mono (h : Ends p P) (hle : ∀ a, P a → Q a) : Ends p Q := by
  obtain ⟨r, hr, hP⟩ := h
  exact ⟨r, hr, fun a ha => hle a (hP a ha)⟩

/-- **A sequence ends** if both programs do, the second one on what the first gives. -/
theorem andThen (h : Ends p P) (hk : ∀ a, P a → Ends (fun fuel => k fuel a) R) :
    Ends (fun fuel => Fuel.andThen (p fuel) (k fuel)) R := by
  obtain ⟨r, hr, hP⟩ := h
  cases r with
  | error e => exact ⟨.error e, hr.andThen_error, nofun⟩
  | ok a =>
    obtain ⟨r', hr', hR⟩ := hk a (hP a rfl)
    exact ⟨r', hr.andThen hr', hR⟩

/-- A program with two cases ends if it ends in both. -/
lemma ite {c : Prop} [Decidable c] (hp : c → Ends p Q) (hq : ¬c → Ends q Q) :
    Ends (fun fuel => if c then p fuel else q fuel) Q := by
  split_ifs with hc
  · exact hp hc
  · exact hq hc

end Ends

end Fuel

/-- The second of two programs that may fail runs on what the first one gives. -/
lemma Except.bind_eq_ok {ε : Type*} {α β : Type*} {x : Except ε α} {f : α → Except ε β} {b : β}
    (h : x.bind f = .ok b) : ∃ a, x = .ok a ∧ f a = .ok b := by
  cases x with
  | error e => cases h
  | ok a => exact ⟨a, rfl, h⟩
