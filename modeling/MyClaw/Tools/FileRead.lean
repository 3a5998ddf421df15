import MyClaw.Lib.StrSlice
import MyClaw.Memory.FileText

set_option autoImplicit false

/-!
# Reading a file in parts

`file_read` (`tools/file_ops.rs`) shows a file by lines or by bytes.  A range of bytes is shrunk to
whole characters on both sides, so a character that two ranges share is shown with neither of them.

## Main definitions

* `nextCharBoundary`, `prevCharBoundary` — how a range is shrunk.
* `readByteRange` — a range of bytes.

## Main results

* `pagedBytes_eq_iff` — when ranges side by side show the whole file.
* `readOn_eq_iff` — when reading on from where a range ended shows it.

## Implementation notes

The path is the one that `validate_path` has resolved and `is_path_protected` lets pass, and the content
is what the file has.  The outline and the lookup of a symbol are searches with regular expressions.
-/

namespace MyClaw

open StrSlice

/-! ## Whole characters -/

/-- `str::is_char_boundary`. -/
def isCharBoundary (s : List Char) (i : ℕ) : Bool := (splitAt? i s).isSome

/-- The loop of `next_char_boundary`. -/
def nextBoundaryFrom (s : List Char) : ℕ → ℕ → ℕ
  | 0, i => i
  | fuel + 1, i =>
    if i < byteLen s ∧ isCharBoundary s i = false then nextBoundaryFrom s fuel (i + 1) else i

/-- `next_char_boundary`. -/
def nextCharBoundary (s : List Char) (idx : ℕ) : ℕ :=
  nextBoundaryFrom s (byteLen s - min idx (byteLen s)) (min idx (byteLen s))

/-- The loop of `prev_char_boundary`. -/
def prevBoundaryFrom (s : List Char) : ℕ → ℕ
  | 0 => 0
  | i + 1 => if isCharBoundary s (i + 1) = false then prevBoundaryFrom s i else i + 1

/-- `prev_char_boundary`. -/
def prevCharBoundary (s : List Char) (idx : ℕ) : ℕ := prevBoundaryFrom s (min idx (byteLen s))

/-! ## Reading by bytes -/

/-- A range of bytes: what was asked for, what is shown, and its text. -/
structure ByteRange where
  requestedStart : ℕ
  requestedEnd : ℕ
  shownStart : ℕ
  shownEnd : ℕ
  snippet : List Char

/-- The byte range mode of `file_read`. -/
def readByteRange (content : List Char) (byteOffset byteLimit : ℕ) : Except Panic ByteRange :=
  let requestedStart := min byteOffset (byteLen content)
  let requestedEnd := min (requestedStart + byteLimit) (byteLen content)
  let start := nextCharBoundary content requestedStart
  let stop := prevCharBoundary content requestedEnd
  (if start ≤ stop then sliceBetween content start stop else .ok []).map fun snippet =>
    ⟨requestedStart, requestedEnd, start, stop, snippet⟩

/-- A number in decimal. -/
def decimal (n : ℕ) : List Char := (toString n).toList

/-! ## Reading by lines -/

/-! ## Shrinking -/

section Shrinking

variable {s p t : List Char} {i j : ℕ}

lemma isCharBoundary_iff : isCharBoundary s i = true ↔ ∃ p t, s = p ++ t ∧ byteLen p = i := by
  rw [isCharBoundary, Option.isSome_iff_exists]
  constructor
  · rintro ⟨⟨p, t⟩, h⟩
    exact ⟨p, t, splitAt?_eq_some_iff.1 h⟩
  · rintro ⟨p, t, h⟩
    exact ⟨(p, t), splitAt?_eq_some_iff.2 h⟩

lemma isCharBoundary_append (p t : List Char) : isCharBoundary (p ++ t) (byteLen p) = true :=
  isCharBoundary_iff.2 ⟨p, t, rfl, rfl⟩

lemma isCharBoundary_zero : isCharBoundary s 0 = true := isCharBoundary_append [] s

lemma isCharBoundary_byteLen : isCharBoundary s (byteLen s) = true := by
  have h := isCharBoundary_append s []
  rwa [List.append_nil] at h

/-- Two boundaries cut a text in three. -/
lemma exists_middle (hi : isCharBoundary s i = true) (hj : isCharBoundary s j = true) (h : i ≤ j) :
    ∃ p m t, s = p ++ m ++ t ∧ byteLen p = i ∧ byteLen p + byteLen m = j := by
  obtain ⟨p, rest, rfl, rfl⟩ := isCharBoundary_iff.1 hi
  obtain ⟨q, t, heq, rfl⟩ := isCharBoundary_iff.1 hj
  rcases List.append_eq_append_iff.1 heq with ⟨m, rfl, rfl⟩ | ⟨m, rfl, rfl⟩
  · exact ⟨p, m, t, (List.append_assoc _ _ _).symm, rfl, (byteLen_append _ _).symm⟩
  · rw [byteLen_append] at h
    have hnil : m = [] := byteLen_eq_zero_iff.1 (by omega)
    exact ⟨q ++ m, [], rest, by simp [hnil], rfl, by simp [hnil]⟩

/-- The loop stops at a boundary. -/
lemma nextBoundaryFrom_spec {fuel : ℕ} (hi : i ≤ byteLen s) (hfuel : byteLen s ≤ i + fuel) :
    isCharBoundary s (nextBoundaryFrom s fuel i) = true ∧ i ≤ nextBoundaryFrom s fuel i ∧
      (isCharBoundary s i = true → nextBoundaryFrom s fuel i = i) := by
  induction fuel generalizing i with
  | zero =>
    obtain rfl : i = byteLen s := by omega
    exact ⟨isCharBoundary_byteLen, le_rfl, fun _ => rfl⟩
  | succ fuel ih =>
    rw [nextBoundaryFrom]
    split_ifs with h
    · obtain ⟨hboundary, hle, -⟩ := @ih (i + 1) (by omega) (by omega)
      refine ⟨hboundary, by omega, fun hi => ?_⟩
      rw [hi] at h
      exact absurd h.2 nofun
    · refine ⟨?_, le_rfl, fun _ => rfl⟩
      rcases Nat.lt_or_ge i (byteLen s) with hlt | hge
      · by_contra hnot
        exact h ⟨hlt, Bool.eq_false_iff.2 hnot⟩
      · obtain rfl : i = byteLen s := by omega
        exact isCharBoundary_byteLen

/-- The beginning of what is shown: a boundary, and the one asked for if that is one. -/
lemma nextCharBoundary_spec (s : List Char) (idx : ℕ) :
    isCharBoundary s (nextCharBoundary s idx) = true ∧
      min idx (byteLen s) ≤ nextCharBoundary s idx ∧
        (isCharBoundary s (min idx (byteLen s)) = true →
          nextCharBoundary s idx = min idx (byteLen s)) :=
  nextBoundaryFrom_spec (Nat.min_le_right _ _) (by omega)

/-- The loop stops at the last boundary. -/
lemma prevBoundaryFrom_spec (s : List Char) (i : ℕ) :
    isCharBoundary s (prevBoundaryFrom s i) = true ∧ prevBoundaryFrom s i ≤ i ∧
      ∀ j ≤ i, isCharBoundary s j = true → j ≤ prevBoundaryFrom s i := by
  induction i with
  | zero => exact ⟨isCharBoundary_zero, le_rfl, fun j hj _ => hj⟩
  | succ i ih =>
    rw [prevBoundaryFrom]
    split_ifs with h
    · obtain ⟨hboundary, hle, hlast⟩ := ih
      refine ⟨hboundary, by omega, fun j hj hjb => hlast j ?_ hjb⟩
      have hne : j ≠ i + 1 := fun heq => by
        rw [heq, h] at hjb
        exact absurd hjb nofun
      omega
    · exact ⟨eq_true_of_ne_false h, le_rfl, fun j hj _ => hj⟩

/-- The end of what is shown: the last boundary. -/
lemma prevCharBoundary_spec (s : List Char) (idx : ℕ) :
    isCharBoundary s (prevCharBoundary s idx) = true ∧
      prevCharBoundary s idx ≤ min idx (byteLen s) ∧
        ∀ j ≤ min idx (byteLen s), isCharBoundary s j = true → j ≤ prevCharBoundary s idx :=
  prevBoundaryFrom_spec s _

end Shrinking

/-! ## What a range shows -/

section Ranges

variable {s : List Char} {o n : ℕ}

/-- The text that is shown. -/
def shownBytes (s : List Char) (o n : ℕ) : List Char :=
  match readByteRange s o n with
  | .ok r => r.snippet
  | .error _ => []

/-- A range is read without a panic. -/
lemma readByteRange_spec (s : List Char) (o n : ℕ) : ∃ r, readByteRange s o n = .ok r ∧
    r.shownStart = nextCharBoundary s (min o (byteLen s)) ∧
      r.shownEnd = prevCharBoundary s (min (min o (byteLen s) + n) (byteLen s)) ∧
        ((r.shownEnd < r.shownStart ∧ r.snippet = []) ∨
          ∃ p t, s = p ++ r.snippet ++ t ∧ byteLen p = r.shownStart ∧
            byteLen p + byteLen r.snippet = r.shownEnd) := by
  rw [readByteRange]
  generalize hstart : nextCharBoundary s (min o (byteLen s)) = start
  generalize hstop : prevCharBoundary s (min (min o (byteLen s) + n) (byteLen s)) = stop
  split_ifs with hle
  · have hi := (nextCharBoundary_spec s (min o (byteLen s))).1
    have hj := (prevCharBoundary_spec s (min (min o (byteLen s) + n) (byteLen s))).1
    rw [hstart] at hi
    rw [hstop] at hj
    obtain ⟨p, m, t, rfl, rfl, rfl⟩ := exists_middle hi hj hle
    rw [sliceBetween_append]
    exact ⟨_, rfl, rfl, rfl, .inr ⟨p, t, rfl, rfl, rfl⟩⟩
  · exact ⟨_, rfl, rfl, rfl, .inl ⟨Nat.lt_of_not_le hle, rfl⟩⟩

/-- Where the range `k` of `n` bytes begins, within the text. -/
def rangeStart (s : List Char) (n k : ℕ) : ℕ := min (k * n) (byteLen s)

lemma rangeStart_succ (s : List Char) (n k : ℕ) :
    rangeStart s n (k + 1) = min (rangeStart s n k + n) (byteLen s) := by
  rw [rangeStart, rangeStart, Nat.succ_mul]
  omega

/-- A range shows at most its bytes, and all of them only if it begins and ends at a boundary. -/
lemma shownBytes_le (hn : 0 < n) (k : ℕ) :
    rangeStart s n k + byteLen (shownBytes s (k * n) n) ≤ rangeStart s n (k + 1) ∧
      (rangeStart s n k + byteLen (shownBytes s (k * n) n) = rangeStart s n (k + 1) →
        isCharBoundary s (rangeStart s n k) = true ∧
          isCharBoundary s (rangeStart s n (k + 1)) = true) := by
  obtain ⟨r, hr, hstart, hend, hshown⟩ := readByteRange_spec s (k * n) n
  obtain ⟨hb, hle, -⟩ := nextCharBoundary_spec s (min (k * n) (byteLen s))
  obtain ⟨hb', hle', -⟩ := prevCharBoundary_spec s (min (min (k * n) (byteLen s) + n) (byteLen s))
  rw [← hstart] at hb hle
  rw [← hend] at hb' hle'
  rw [min_eq_left (Nat.min_le_right _ _)] at hle hle'
  have hsnippet : shownBytes s (k * n) n = r.snippet := by rw [shownBytes, hr]
  have hmono : rangeStart s n k ≤ rangeStart s n (k + 1) := by
    rw [rangeStart_succ, rangeStart]
    omega
  rw [hsnippet]
  change rangeStart s n k ≤ r.shownStart at hle
  change r.shownEnd ≤ min (rangeStart s n k + n) (byteLen s) at hle'
  rw [← rangeStart_succ] at hle'
  rcases hshown with ⟨hlt, hnil⟩ | ⟨p, t, -, hp, hlen⟩
  · rw [hnil, byteLen_nil, Nat.add_zero]
    refine ⟨hmono, fun heq => ?_⟩
    have hall : rangeStart s n k = byteLen s := by
      rw [rangeStart_succ] at heq
      have := Nat.min_le_right (k * n) (byteLen s)
      rw [rangeStart] at heq ⊢
      omega
    rw [← heq, hall]
    exact ⟨isCharBoundary_byteLen, isCharBoundary_byteLen⟩
  · refine ⟨by omega, fun heq => ?_⟩
    have hs : r.shownStart = rangeStart s n k := by omega
    have he : r.shownEnd = rangeStart s n (k + 1) := by omega
    exact ⟨hs ▸ hb, he ▸ hb'⟩

/-- A range between two boundaries is shown as it is. -/
lemma shownBytes_exact {k : ℕ} (h : isCharBoundary s (rangeStart s n k) = true)
    (h' : isCharBoundary s (rangeStart s n (k + 1)) = true) :
    ∃ p t, s = p ++ shownBytes s (k * n) n ++ t ∧ byteLen p = rangeStart s n k ∧
      byteLen p + byteLen (shownBytes s (k * n) n) = rangeStart s n (k + 1) := by
  obtain ⟨r, hr, hstart, hend, hshown⟩ := readByteRange_spec s (k * n) n
  have hsnippet : shownBytes s (k * n) n = r.snippet := by rw [shownBytes, hr]
  have hs : r.shownStart = rangeStart s n k := by
    have hmin : min (min (k * n) (byteLen s)) (byteLen s) = rangeStart s n k :=
      min_eq_left (Nat.min_le_right _ _)
    have hspec := (nextCharBoundary_spec s (min (k * n) (byteLen s))).2.2
    rw [hmin] at hspec
    rw [hstart, hspec h]
  have he : r.shownEnd = rangeStart s n (k + 1) := by
    have hmin : min (min (min (k * n) (byteLen s) + n) (byteLen s)) (byteLen s) =
        rangeStart s n (k + 1) := by
      rw [rangeStart_succ]
      exact min_eq_left (Nat.min_le_right _ _)
    obtain ⟨-, hle, hlast⟩ :=
      prevCharBoundary_spec s (min (min (k * n) (byteLen s) + n) (byteLen s))
    rw [hmin] at hle hlast
    rw [hend]
    exact le_antisymm hle (hlast _ le_rfl h')
  have hmono : rangeStart s n k ≤ rangeStart s n (k + 1) := by
    rw [rangeStart_succ, rangeStart]
    omega
  rw [hsnippet]
  rcases hshown with ⟨hlt, -⟩ | ⟨p, t, heq, hp, hlen⟩
  · omega
  · exact ⟨p, t, heq, hp.trans hs, hlen.trans he⟩

/-- The first `m` ranges of `n` bytes, one after the other. -/
def pagedBytes (s : List Char) (n m : ℕ) : List Char :=
  (List.range m).flatMap fun k => shownBytes s (k * n) n

lemma pagedBytes_succ (s : List Char) (n m : ℕ) :
    pagedBytes s n (m + 1) = pagedBytes s n m ++ shownBytes s (m * n) n := by
  rw [pagedBytes, List.range_succ, List.flatMap_append, List.flatMap_singleton, ← pagedBytes]

/-- So many ranges show at most their bytes, and all of them only between boundaries. -/
lemma pagedBytes_le (hn : 0 < n) (m : ℕ) :
    byteLen (pagedBytes s n m) ≤ rangeStart s n m ∧
      (byteLen (pagedBytes s n m) = rangeStart s n m →
        ∀ k ≤ m, isCharBoundary s (rangeStart s n k) = true) := by
  induction m with
  | zero =>
    refine ⟨Nat.zero_le _, fun _ k hk => ?_⟩
    obtain rfl := Nat.le_zero.1 hk
    rw [rangeStart, Nat.zero_mul, Nat.zero_min]
    exact isCharBoundary_zero
  | succ m ih =>
    obtain ⟨hle, hall⟩ := ih
    obtain ⟨hpage, hboth⟩ := shownBytes_le (s := s) hn m
    rw [pagedBytes_succ, byteLen_append]
    refine ⟨by omega, fun heq k hk => ?_⟩
    rcases Nat.lt_or_ge m k with hlt | hge
    · obtain rfl : k = m + 1 := by omega
      exact (hboth (by omega)).2
    · exact hall (by omega) k hge

/-- Ranges between boundaries show the beginning of the text. -/
lemma pagedBytes_exact {m : ℕ} (h : ∀ k ≤ m, isCharBoundary s (rangeStart s n k) = true) :
    ∃ t, s = pagedBytes s n m ++ t ∧ byteLen (pagedBytes s n m) = rangeStart s n m := by
  induction m with
  | zero => exact ⟨s, rfl, by rw [rangeStart, Nat.zero_mul, Nat.zero_min]; rfl⟩
  | succ m ih =>
    obtain ⟨t, heq, hlen⟩ := ih fun k hk => h k (Nat.le_succ_of_le hk)
    obtain ⟨p, t', heq', hp, hend⟩ := shownBytes_exact (h m (Nat.le_succ m)) (h (m + 1) le_rfl)
    have hsame : p = pagedBytes s n m := by
      have hcut := splitAt?_eq_some_iff.2 ⟨heq, hlen⟩
      rw [List.append_assoc] at heq'
      have hcut' := splitAt?_eq_some_iff.2 ⟨heq', hp⟩
      exact (Prod.mk.inj (Option.some.inj (hcut'.symm.trans hcut))).1
    refine ⟨t', ?_, ?_⟩
    · rw [pagedBytes_succ, ← hsame, ← heq']
    · rw [pagedBytes_succ, byteLen_append, ← hsame, hend]

/-- **When ranges side by side show the whole file**: exactly if every multiple of the limit is between
two characters; a character that two ranges share is shown with neither. -/
theorem pagedBytes_eq_iff {m : ℕ} (hn : 0 < n) (hm : byteLen s ≤ m * n) :
    pagedBytes s n m = s ↔ ∀ k, k * n ≤ byteLen s → isCharBoundary s (k * n) = true := by
  have hend : rangeStart s n m = byteLen s := min_eq_right hm
  constructor
  · intro heq k hk
    have hkm : k ≤ m := Nat.le_of_mul_le_mul_right (hk.trans hm) hn
    have hboundary := (pagedBytes_le (s := s) hn m).2 (by rw [heq, hend]) k hkm
    rwa [rangeStart, min_eq_left hk] at hboundary
  · intro h
    have hall : ∀ k ≤ m, isCharBoundary s (rangeStart s n k) = true := fun k _ => by
      rcases Nat.le_total (k * n) (byteLen s) with hk | hk
      · rw [rangeStart, min_eq_left hk]
        exact h k hk
      · rw [rangeStart, min_eq_right hk]
        exact isCharBoundary_byteLen
    obtain ⟨t, heq, hlen⟩ := pagedBytes_exact hall
    have hlen' := congrArg byteLen heq
    rw [byteLen_append] at hlen'
    obtain rfl : t = [] := byteLen_eq_zero_iff.1 (by omega)
    rw [List.append_nil] at heq
    exact heq.symm

/-- Ranges of two bytes each, where one that ends at a limit ends a letter of two bytes; a letter that
goes over the limit is lost. -/
theorem pagedBytes_letterAtEdge :
    pagedBytes ['a', 'b', 'é', 'c'] 2 3 = ['a', 'b', 'é', 'c'] ∧
      pagedBytes ['a', 'é', 'c'] 2 2 ≠ ['a', 'é', 'c'] := by
  constructor
  · refine (pagedBytes_eq_iff (by decide) (by decide)).2 fun k hk => ?_
    have hk' : k * 2 ≤ 5 := hk
    have hcases : k = 0 ∨ k = 1 ∨ k = 2 := by omega
    obtain rfl | rfl | rfl := hcases <;> rfl
  · intro h
    have hedge := (pagedBytes_eq_iff (by decide) (by decide)).1 h 1 (by decide)
    exact absurd hedge (by decide)

/-! ## Reading on -/

/-- What a caller collects who reads on from `shown_end` until nothing is shown. -/
def readOn (s : List Char) (n : ℕ) : ℕ → ℕ → List Char
  | 0, _ => []
  | fuel + 1, offset =>
    match readByteRange s offset n with
    | .error _ => []
    | .ok r => if r.snippet = [] then [] else r.snippet ++ readOn s n fuel r.shownEnd

/-- A range that begins at a boundary shows the longest beginning of the rest that fits. -/
lemma readByteRange_boundary (p rest : List Char) (n : ℕ) :
    ∃ r t, readByteRange (p ++ rest) (byteLen p) n = .ok r ∧ rest = r.snippet ++ t ∧
      r.shownEnd = byteLen (p ++ r.snippet) ∧ byteLen r.snippet ≤ n ∧
        ∀ a b, rest = a ++ b → byteLen a ≤ n → byteLen a ≤ byteLen r.snippet := by
  obtain ⟨r, hr, hstart, hend, hshown⟩ := readByteRange_spec (p ++ rest) (byteLen p) n
  have hlen := byteLen_append p rest
  have hmin : min (byteLen p) (byteLen (p ++ rest)) = byteLen p := by omega
  have hs : r.shownStart = byteLen p := by
    have hspec := (nextCharBoundary_spec (p ++ rest) (byteLen p)).2.2
    rw [hmin] at hstart hspec
    rw [hstart, hspec (isCharBoundary_append p rest)]
  obtain ⟨-, hle, hlast⟩ := prevCharBoundary_spec (p ++ rest)
    (min (min (byteLen p) (byteLen (p ++ rest)) + n) (byteLen (p ++ rest)))
  rw [← hend, hmin] at hle hlast
  have hreach : ∀ a b, rest = a ++ b → byteLen a ≤ n → byteLen p + byteLen a ≤ r.shownEnd := by
    rintro a b rfl ha
    have hlen' := byteLen_append a b
    have hboundary := isCharBoundary_append (p ++ a) b
    rw [List.append_assoc, byteLen_append] at hboundary
    exact hlast _ (by omega) hboundary
  rcases hshown with ⟨hlt, -⟩ | ⟨q, t, heq, hq, hqlen⟩
  · have hzero := hreach [] rest rfl (Nat.zero_le n)
    rw [byteLen_nil] at hzero
    omega
  · have hcut : splitAt? (byteLen p) (p ++ rest) = some (p, rest) :=
      splitAt?_eq_some_iff.2 ⟨rfl, rfl⟩
    rw [List.append_assoc] at heq
    have hcut' := splitAt?_eq_some_iff.2 ⟨heq, hq.trans hs⟩
    obtain ⟨rfl, rfl⟩ := Prod.mk.inj (Option.some.inj (hcut.symm.trans hcut'))
    refine ⟨r, t, hr, rfl, ?_, by omega, fun a b hab ha => ?_⟩
    · rw [byteLen_append, hqlen]
    · have := hreach a b hab ha
      omega

/-- What is collected from a boundary on is the rest exactly if each character of it fits. -/
lemma readOn_boundary {fuel : ℕ} {p rest : List Char} (hfuel : byteLen rest ≤ fuel) :
    readOn (p ++ rest) n fuel (byteLen p) = rest ↔ ∀ c ∈ rest, c.utf8Size ≤ n := by
  induction fuel generalizing p rest with
  | zero =>
    obtain rfl := byteLen_eq_zero_iff.1 (Nat.le_zero.1 hfuel)
    exact iff_of_true rfl nofun
  | succ fuel ih =>
    obtain ⟨r, t, hr, hrest, hend, hle, hlongest⟩ := readByteRange_boundary p rest n
    rw [readOn, hr]
    dsimp only
    split_ifs with hnil
    · rw [hnil] at hlongest
      cases rest with
      | nil => exact iff_of_true rfl nofun
      | cons c rest =>
        -- nothing is shown of a character that does not fit, now and whenever it is asked for again
        refine iff_of_false nofun fun h => ?_
        have hc := hlongest [c] rest rfl (h c List.mem_cons_self)
        have hpos := Char.utf8Size_pos c
        rw [byteLen_cons, byteLen_nil] at hc
        omega
    · have hpos : byteLen r.snippet ≠ 0 := mt byteLen_eq_zero_iff.1 hnil
      have hlen := congrArg byteLen hrest
      rw [byteLen_append] at hlen
      have hnext := @ih (p ++ r.snippet) t (by omega)
      rw [List.append_assoc, ← hrest, ← hend] at hnext
      have hfits : ∀ c ∈ r.snippet, c.utf8Size ≤ n := fun c hc => by
        obtain ⟨a, b, hab⟩ := List.append_of_mem hc
        rw [hab, byteLen_append, byteLen_cons] at hle
        omega
      calc r.snippet ++ readOn (p ++ rest) n fuel r.shownEnd = rest
          ↔ readOn (p ++ rest) n fuel r.shownEnd = t := by
            rw [eq_comm, hrest, List.append_cancel_left_eq, eq_comm]
        _ ↔ ∀ c ∈ t, c.utf8Size ≤ n := hnext
        _ ↔ ∀ c ∈ rest, c.utf8Size ≤ n := by
            rw [hrest, List.forall_mem_append]
            exact ⟨fun h => ⟨hfits, h⟩, And.right⟩

/-- **When reading on shows the whole file**: exactly if the limit is at least the size of every
character, wherever the ranges then end. -/
theorem readOn_eq_iff (s : List Char) (n : ℕ) :
    readOn s n (byteLen s) 0 = s ↔ ∀ c ∈ s, c.utf8Size ≤ n :=
  readOn_boundary (p := []) le_rfl

end Ranges

end MyClaw
