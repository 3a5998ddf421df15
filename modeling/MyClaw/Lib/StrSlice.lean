import Mathlib.Data.List.Basic
import Mathlib.Algebra.Ring.Nat

set_option autoImplicit false

/-!
# Texts cut at byte positions

A text of Unicode characters that is cut by the byte offsets of its UTF-8 form.  A cut is possible only
within the text and between two characters; elsewhere the program stops with a panic.

## Main definitions

* `StrSlice.byteLen` — the length of a text in bytes.
* `StrSlice.splitAt?` — what is before a byte offset, and what is behind it.
* `Panic`, `NoPanic` — why a program stops, and that it does not.
* `StrSlice.sliceFrom`, `StrSlice.sliceTo`, `StrSlice.sliceBetween` — slices that panic.

## Main results

* `StrSlice.splitAt?_eq_some_iff` — a cut is possible where the parts of the text meet.
* `StrSlice.sliceFrom_append`, `StrSlice.sliceBetween_append` — slices at such places.
-/

/-- Why a program stops. -/
inductive Panic
  /-- A slice that is out of range, or not between two characters. -/
  | slice
  /-- An arithmetic overflow. -/
  | overflow
  /-- A lock that a panic has left poisoned. -/
  | poison
  deriving DecidableEq

/-- The program returns. -/
def NoPanic {α : Type*} (x : Except Panic α) : Prop := ∃ a, x = .ok a

section NoPanic

variable {α β : Type*}

@[simp] lemma noPanic_ok (a : α) : NoPanic (.ok a : Except Panic α) := ⟨a, rfl⟩

@[simp] lemma not_noPanic_error (e : Panic) : ¬ NoPanic (.error e : Except Panic α) := nofun

@[simp] lemma noPanic_map_iff {f : α → β} {x : Except Panic α} : NoPanic (x.map f) ↔ NoPanic x := by
  cases x with
  | ok a => exact iff_of_true (noPanic_ok (f a)) (noPanic_ok a)
  | error e => exact iff_of_false (not_noPanic_error e) (not_noPanic_error e)

/-- Two steps return if each of them does. -/
lemma noPanic_bind_iff {f : α → Except Panic β} {x : Except Panic α} :
    NoPanic (x.bind f) ↔ ∃ a, x = .ok a ∧ NoPanic (f a) := by
  cases x with
  | ok a =>
    refine ⟨fun h => ⟨a, rfl, h⟩, ?_⟩
    rintro ⟨b, hb, h⟩
    obtain rfl := Except.ok.inj hb
    exact h
  | error e => exact iff_of_false (not_noPanic_error e) (by rintro ⟨a, ha, -⟩; exact absurd ha nofun)

end NoPanic

namespace StrSlice

variable {s p t : List Char} {n : ℕ}

/-- The length of a text in bytes. -/
def byteLen (s : List Char) : ℕ := (s.map Char.utf8Size).sum

/-- What is before a byte offset and what is behind it, if the offset is between two characters. -/
def splitAt? : ℕ → List Char → Option (List Char × List Char)
  | 0, s => some ([], s)
  | _ + 1, [] => none
  | n + 1, c :: s =>
    if c.utf8Size ≤ n + 1 then (splitAt? (n + 1 - c.utf8Size) s).map fun (p, t) => (c :: p, t)
    else none

@[simp] lemma byteLen_nil : byteLen [] = 0 := rfl

@[simp] lemma byteLen_cons (c : Char) (s : List Char) : byteLen (c :: s) = c.utf8Size + byteLen s :=
  rfl

@[simp] lemma byteLen_append (s t : List Char) : byteLen (s ++ t) = byteLen s + byteLen t := by
  rw [byteLen, byteLen, byteLen, List.map_append, List.sum_append]

/-- A text without bytes is empty. -/
lemma byteLen_eq_zero_iff : byteLen s = 0 ↔ s = [] := by
  cases s with
  | nil => simp
  | cons c s =>
    have hc := Char.utf8Size_pos c
    simp
    omega

/-- **A cut is possible where the parts of the text meet.** -/
theorem splitAt?_eq_some_iff : splitAt? n s = some (p, t) ↔ s = p ++ t ∧ byteLen p = n := by
  induction s generalizing n p with
  | nil =>
    cases n with
    | zero =>
      rw [splitAt?, Option.some.injEq, Prod.mk.injEq, byteLen_eq_zero_iff]
      constructor
      · rintro ⟨rfl, rfl⟩
        exact ⟨rfl, rfl⟩
      · rintro ⟨h, rfl⟩
        exact ⟨rfl, h⟩
    | succ n =>
      refine ⟨fun h => absurd h nofun, fun ⟨h, hlen⟩ => ?_⟩
      rw [(List.append_eq_nil_iff.1 h.symm).1] at hlen
      exact absurd hlen nofun
  | cons c s ih =>
    have hc := Char.utf8Size_pos c
    cases n with
    | zero =>
      rw [splitAt?, Option.some.injEq, Prod.mk.injEq, byteLen_eq_zero_iff]
      constructor
      · rintro ⟨rfl, rfl⟩
        exact ⟨rfl, rfl⟩
      · rintro ⟨h, rfl⟩
        exact ⟨rfl, h⟩
    | succ n =>
      rw [splitAt?]
      constructor
      · intro h
        split_ifs at h with hle
        obtain ⟨⟨q, u⟩, hq, heq⟩ := Option.map_eq_some_iff.1 h
        obtain ⟨rfl, rfl⟩ := Prod.mk.inj heq
        obtain ⟨rfl, hlen⟩ := ih.1 hq
        exact ⟨rfl, by rw [byteLen_cons, hlen]; omega⟩
      · rintro ⟨h, hlen⟩
        cases p with
        | nil => exact absurd hlen nofun
        | cons d p =>
          obtain ⟨rfl, rfl⟩ := List.cons.inj h
          rw [byteLen_cons] at hlen
          rw [if_pos (by omega), ih.2 ⟨rfl, by omega⟩]
          rfl

/-- A text is cut where its parts meet. -/
lemma splitAt?_append (p t : List Char) : splitAt? (byteLen p) (p ++ t) = some (p, t) :=
  splitAt?_eq_some_iff.2 ⟨rfl, rfl⟩

/-! ## Slices -/

/-- `&s[n..]`. -/
def sliceFrom (s : List Char) (n : ℕ) : Except Panic (List Char) :=
  match splitAt? n s with
  | some (_, t) => .ok t
  | none => .error .slice

/-- `&s[..n]`. -/
def sliceTo (s : List Char) (n : ℕ) : Except Panic (List Char) :=
  match splitAt? n s with
  | some (p, _) => .ok p
  | none => .error .slice

/-- `&s[a..b]`. -/
def sliceBetween (s : List Char) (a b : ℕ) : Except Panic (List Char) :=
  if a ≤ b then (sliceTo s b).bind fun p => sliceFrom p a else .error .slice

@[simp] lemma sliceFrom_append (p t : List Char) : sliceFrom (p ++ t) (byteLen p) = .ok t := by
  rw [sliceFrom, splitAt?_append]

@[simp] lemma sliceTo_append (p t : List Char) : sliceTo (p ++ t) (byteLen p) = .ok p := by
  rw [sliceTo, splitAt?_append]

/-- The middle of a text in three parts. -/
lemma sliceBetween_append (p m t : List Char) :
    sliceBetween (p ++ m ++ t) (byteLen p) (byteLen p + byteLen m) = .ok m := by
  rw [sliceBetween, if_pos (Nat.le_add_right _ _), ← byteLen_append, sliceTo_append]
  exact sliceFrom_append p m

/-- A slice is what is behind a front of that many bytes. -/
lemma sliceFrom_eq_ok_iff : sliceFrom s n = .ok t ↔ ∃ p, s = p ++ t ∧ byteLen p = n := by
  rw [sliceFrom]
  constructor
  · intro h
    split at h
    · rename_i p u hsplit
      obtain rfl := Except.ok.inj h
      exact ⟨p, splitAt?_eq_some_iff.1 hsplit⟩
    · exact absurd h nofun
  · rintro ⟨p, h⟩
    rw [splitAt?_eq_some_iff.2 h]

end StrSlice
