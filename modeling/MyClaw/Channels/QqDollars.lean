import MyClaw.Channels.FenceTables
import MyClaw.Lib.Holes
import MyClaw.Lib.Rewrite

set_option autoImplicit false

/-!
# Dollars in the messages of the QQ bot

`sanitize_qq_markdown_dollars` (`channels/qqbot/markdown_sanitize.rs`) escapes the dollars of a message
that are not of a formula, so that an amount of money does not begin one.  It leaves code and formulas
as they are.

## Main definitions

* `isCurrencyOnly`, `looksLikeMath` — what stands between two dollars.
* `dollarTurn`, `sanitizeDollars` — one turn of the pass, and the pass.
* `Escaped` — a text with backslashes before some of its dollars.

## Main results

* `sanitizeDollars_sanitizeDollars` — a second pass changes nothing.

## Implementation notes

The pass reads the text from the left, so a position is what is left of the text, and whether it is the
beginning of a line.
-/

namespace MyClaw

open Rewrite

/-! ## Formulas -/

/-- `MAX_INLINE_MATH_CHARS`. -/
def maxInlineMathChars : ℕ := 200

/-- `find_closing_display`, counted from where it starts. -/
def findClosingDisplay : List Char → Option ℕ
  | '\\' :: _ :: rest => (findClosingDisplay rest).map (· + 2)
  | '$' :: '$' :: _ => some 0
  | _ :: rest => (findClosingDisplay rest).map (· + 1)
  | [] => none

/-- `find_closing_inline_dollar`, counted from where it starts. -/
def findClosingInline : List Char → Option ℕ
  | '\n' :: _ => none
  | '\\' :: _ :: rest => (findClosingInline rest).map (· + 2)
  | '$' :: '$' :: _ => none
  | '$' :: _ => some 0
  | _ :: rest => (findClosingInline rest).map (· + 1)
  | [] => none

/-- The loop of `is_currency_only`: digits, then groups behind commas and one fraction. -/
def isCurrencyFrom : ℕ → Bool → Bool → List Char → Bool
  | _, sawDigit, _, [] => sawDigit
  | 0, _, _, _ => false
  | fuel + 1, sawDigit, sawDot, c :: rest =>
    let digits := rest.takeWhile Char.isDigit
    if c.isDigit then isCurrencyFrom fuel true sawDot rest
    else if c = ',' ∧ sawDigit then
      digits ≠ [] && isCurrencyFrom fuel sawDigit sawDot (rest.drop digits.length)
    else if c = '.' ∧ !sawDot ∧ sawDigit then
      digits ≠ [] && isCurrencyFrom fuel sawDigit true (rest.drop digits.length)
    else false

/-- `is_currency_only`. -/
def isCurrencyOnly (content : List Char) : Bool :=
  let t := trimChars content
  t ≠ [] && isCurrencyFrom t.length false false t

/-- The characters that `looks_like_math` takes for prose. -/
def isCjkProse (c : Char) : Bool :=
  ('\u4e00' ≤ c && c ≤ '\u9fff') || ('\u3400' ≤ c && c ≤ '\u4dbf') || ('\uf900' ≤ c && c ≤ '\ufaff')

/-- The longest run of letters. -/
def maxConsecutiveAlpha (content : List Char) : ℕ :=
  (content.foldl (fun (longest, current) c =>
    if c.isAlpha then (max longest (current + 1), current + 1) else (longest, 0)) (0, 0)).1

/-- A word at its first place, not within a longer one. -/
def hasWordFirst (word text : List Char) : Bool :=
  match Holes.cutFirst word text with
  | some (before, behind) => !(before.getLast?.any Char.isAlpha) && !(behind.head?.any Char.isAlpha)
  | none => false

/-- The words of `looks_like_math` that stand between two amounts. -/
def proseWords : List (List Char) :=
  ["and".toList, "the".toList, "for".toList, "but".toList, "not".toList, "with".toList, "than".toList,
    "costs".toList, "price".toList, "sale".toList]

/-- The strong tokens of `looks_like_math`. -/
def strongTokens : List Char :=
  ['^', '_', '=', '{', '}', '[', ']', '|', '·', '×', '÷', '±', '<', '>']

/-- `looks_like_math`. -/
def looksLikeMath (content : List Char) : Bool :=
  let hasAlpha := content.any Char.isAlpha
  let hasDigit := content.any Char.isDigit
  let hasWeakOp := content.any (['+', '/', '(', ')'].contains ·)
  let lower := content.map Char.toLower
  if content = [] ∨ isCurrencyOnly content then false
  else if content.any isCjkProse then false
  else if content.contains '\\' then true
  else if proseWords.any (hasWordFirst · lower) then false
  else if content.any (strongTokens.contains ·) then true
  else if 4 ≤ maxConsecutiveAlpha content then false
  else if hasWeakOp && (hasDigit || hasAlpha) then true
  else if content.contains ':' && content.all (fun c => c.isDigit || c = ':' || c = ' ') then true
  else hasAlpha && !content.contains ' '

/-! ## The pass -/

/-- `FenceLineAt`. -/
structure FenceLineAt where
  marker : Char
  len : ℕ
  isClosingCandidate : Bool

/-- `parse_fence_line_at`, for the line that the text begins with. -/
def parseFenceLineAt (text : List Char) : Option FenceLineAt :=
  (parseFenceLine (text.takeWhile (· ≠ '\n'))).map fun fl => ⟨fl.marker, fl.len, fl.isClosingCandidate⟩

/-- The fence that the pass is in, and whether it is at the beginning of a line. -/
structure DollarState where
  fence : Option (Char × ℕ)
  lineStart : Bool

/-- A fence line, with its newline, as it is. -/
def fenceLineTurn (fence : Option (Char × ℕ)) (text : List Char) : Rewrite.Turn DollarState Char :=
  let after := (text.takeWhile (· ≠ '\n')).length + 1
  ⟨text.take after, text.drop after, ⟨fence, true⟩⟩

/-- One character as it is. -/
def rawTurn (fence : Option (Char × ℕ)) : List Char → Rewrite.Turn DollarState Char
  | [] => ⟨[], [], ⟨fence, false⟩⟩
  | c :: rest => ⟨[c], rest, ⟨fence, c = '\n'⟩⟩

/-- The backticks that a text begins with. -/
def ticks (text : List Char) : List Char := text.takeWhile (· = '`')

/-- Inline code behind its opening backticks, with those that close it, and the text behind it. -/
def codeSpan (run : ℕ) : List Char → List Char × List Char
  | [] => ([], [])
  | c :: rest =>
    if c = '`' ∧ (ticks (c :: rest)).length = run then (ticks (c :: rest), (c :: rest).drop run)
    else (c :: (codeSpan run rest).1, (codeSpan run rest).2)

/-- The turn at a backtick. -/
def codeTurn (text : List Char) : Rewrite.Turn DollarState Char :=
  let run := (ticks text).length
  if 3 ≤ run then ⟨ticks text, text.drop run, ⟨none, false⟩⟩
  else
    let span := codeSpan run (text.drop run)
    ⟨ticks text ++ span.1, span.2, ⟨none, false⟩⟩

/-- The turn at a dollar with this text behind it. -/
def bareDollarTurn (rest : List Char) : Rewrite.Turn DollarState Char :=
  if rest.head? = some '$' then
    match findClosingDisplay rest.tail with
    | some close =>
      ⟨'$' :: '$' :: rest.tail.take (close + 2), rest.tail.drop (close + 2), ⟨none, false⟩⟩
    | none => ⟨['\\', '$', '\\', '$'], rest.tail, ⟨none, false⟩⟩
  else
    match findClosingInline rest with
    | some close =>
      if close ≤ maxInlineMathChars ∧ isCurrencyOnly (rest.take close) then
        ⟨'\\' :: '$' :: (rest.take close ++ ['\\', '$']), rest.drop (close + 1), ⟨none, false⟩⟩
      else if close ≤ maxInlineMathChars ∧ looksLikeMath (rest.take close) then
        ⟨'$' :: rest.take (close + 1), rest.drop (close + 1), ⟨none, false⟩⟩
      else ⟨['\\', '$'], rest, ⟨none, false⟩⟩
    | none => ⟨['\\', '$'], rest, ⟨none, false⟩⟩

/-- The turn outside of fences. -/
def plainTurn : List Char → Rewrite.Turn DollarState Char
  | [] => ⟨[], [], ⟨none, false⟩⟩
  | c :: rest =>
    if c = '`' then codeTurn (c :: rest)
    else if c = '\\' ∧ rest.head? = some '$' then ⟨['\\', '$'], rest.tail, ⟨none, false⟩⟩
    else if c = '$' then bareDollarTurn rest
    else rawTurn none (c :: rest)

/-- The turn at a fence line, or at no fence line. -/
def lineTurn (line : Option FenceLineAt) (fence : Option (Char × ℕ)) (text : List Char) :
    Rewrite.Turn DollarState Char :=
  match line, fence with
  | some fl, some (marker, len) =>
    if fl.isClosingCandidate ∧ fl.marker = marker ∧ len ≤ fl.len then fenceLineTurn none text
    else rawTurn fence text
  | some fl, none => fenceLineTurn (some (fl.marker, fl.len)) text
  | none, some _ => rawTurn fence text
  | none, none => plainTurn text

/-- One turn of `sanitize_qq_markdown_dollars`. -/
def dollarTurn (s : DollarState) (text : List Char) : Rewrite.Turn DollarState Char :=
  lineTurn (if s.lineStart then parseFenceLineAt text else none) s.fence text

/-- `sanitize_qq_markdown_dollars`. -/
def sanitizeDollars (input : List Char) : List Char := pass dollarTurn ⟨none, true⟩ input

example : sanitizeDollars "$x^2$, $5, `$`".toList = "$x^2$, \\$5, `$`".toList := by decide

/-! ## Escaping -/

/-- A text with backslashes before some of its dollars. -/
inductive Escaped : List Char → List Char → Prop
  | nil : Escaped [] []
  | keep (c : Char) {text out : List Char} (h : Escaped text out) : Escaped (c :: text) (c :: out)
  | escape {text out : List Char} (h : Escaped text out) : Escaped ('$' :: text) ('\\' :: '$' :: out)

namespace Escaped

variable {text out text' out' : List Char} {p : Char → Bool}

lemma refl (text : List Char) : Escaped text text := by
  induction text with
  | nil => exact .nil
  | cons c text ih => exact .keep c ih

lemma append (h : Escaped text out) (h' : Escaped text' out') :
    Escaped (text ++ text') (out ++ out') := by
  induction h with
  | nil => exact h'
  | keep c _ ih => exact .keep c ih
  | escape _ ih => exact .escape ih

/-- A text that is kept before one that is escaped. -/
lemma append_left (h : Escaped text out) (before : List Char) :
    Escaped (before ++ text) (before ++ out) :=
  (refl before).append h

lemma eq_nil (h : Escaped [] out) : out = [] := by
  cases h
  rfl

/-- The first character is the same, or a backslash before a dollar. -/
lemma head? (h : Escaped text out) :
    out.head? = text.head? ∨ text.head? = some '$' ∧ out.head? = some '\\' := by
  cases h with
  | nil => exact .inl rfl
  | keep c _ => exact .inl rfl
  | escape _ => exact .inr ⟨rfl, rfl⟩

/-- The text does not begin with another character than before. -/
lemma head?_ne {c : Char} (h : Escaped text out) (hc : c ≠ '\\') (hne : text.head? ≠ some c) :
    out.head? ≠ some c := by
  intro hout
  rcases h.head? with heq | ⟨-, hback⟩
  · exact hne (heq.symm.trans hout)
  · exact hc (Option.some.inj (hout.symm.trans hback))

/-- Dollars and backslashes that are not in a prefix leave it as it is. -/
lemma takeWhile_eq (h : Escaped text out) (hdollar : p '$' = false) (hback : p '\\' = false) :
    out.takeWhile p = text.takeWhile p ∧ Escaped (text.dropWhile p) (out.dropWhile p) := by
  induction h with
  | nil => exact ⟨rfl, .nil⟩
  | @keep c text out h ih =>
    rw [List.takeWhile_cons, List.takeWhile_cons, List.dropWhile_cons, List.dropWhile_cons]
    split_ifs with hc
    · exact ⟨by rw [ih.1], ih.2⟩
    · exact ⟨rfl, .keep c h⟩
  | @escape text out h _ =>
    have hdollar' : ¬ p '$' = true := by rw [hdollar]; nofun
    have hback' : ¬ p '\\' = true := by rw [hback]; nofun
    rw [List.takeWhile_cons_of_neg hback', List.takeWhile_cons_of_neg hdollar',
      List.dropWhile_cons_of_neg hback', List.dropWhile_cons_of_neg hdollar']
    exact ⟨rfl, .escape h⟩

/-- The beginning of an escaped text is escaped. -/
lemma takeWhile (h : Escaped text out) (hdollar : p '$' = true) (hback : p '\\' = true) :
    Escaped (text.takeWhile p) (out.takeWhile p) := by
  induction h with
  | nil => exact .nil
  | keep c _ ih =>
    rw [List.takeWhile_cons, List.takeWhile_cons]
    split_ifs
    · exact .keep c ih
    · exact .nil
  | escape _ ih =>
    rw [List.takeWhile_cons_of_pos hdollar, List.takeWhile_cons_of_pos hback,
      List.takeWhile_cons_of_pos hdollar]
    exact .escape ih

/-- Without dollars, nothing is escaped. -/
lemma all_eq (h : Escaped text out) (hdollar : p '$' = false) : out.all p = text.all p := by
  induction h with
  | nil => rfl
  | keep c _ ih => rw [List.all_cons, List.all_cons, ih]
  | escape _ ih =>
    rw [List.all_cons, List.all_cons, List.all_cons, hdollar, Bool.false_and, Bool.false_and,
      Bool.and_false]

/-- A character that is not a backslash is in the one text if it is in the other. -/
lemma contains_eq {c : Char} (h : Escaped text out) (hc : c ≠ '\\') :
    out.contains c = text.contains c := by
  induction h with
  | nil => rfl
  | keep d _ ih => rw [List.contains_cons, List.contains_cons, ih]
  | escape _ ih =>
    rw [List.contains_cons, List.contains_cons, List.contains_cons, ih,
      beq_eq_false_iff_ne.2 hc, Bool.false_or]

/-- Backslashes before dollars neither make nor break a fence line. -/
lemma parseFenceLineAt_eq (h : Escaped text out) : parseFenceLineAt out = parseFenceLineAt text := by
  have hline : Escaped (text.takeWhile (· ≠ '\n')) (out.takeWhile (· ≠ '\n')) :=
    h.takeWhile (by decide) (by decide)
  rw [parseFenceLineAt, parseFenceLineAt]
  generalize text.takeWhile (· ≠ '\n') = line at hline ⊢
  generalize out.takeWhile (· ≠ '\n') = line' at hline ⊢
  obtain ⟨hspaces, hrest⟩ :=
    hline.takeWhile_eq (p := fun c => decide (c = ' ')) (by decide) (by decide)
  have hdrop : Escaped (line.drop (min 3 (line.takeWhile (· = ' ')).length))
      (line'.drop (min 3 (line'.takeWhile (· = ' ')).length)) := by
    rw [hspaces]
    generalize hk : min 3 (line.takeWhile fun c => decide (c = ' ')).length = k
    have hle : k ≤ (line.takeWhile fun c => decide (c = ' ')).length := by omega
    have hline₁ := List.takeWhile_append_dropWhile (p := fun c => decide (c = ' ')) (l := line)
    have hline₂ := List.takeWhile_append_dropWhile (p := fun c => decide (c = ' ')) (l := line')
    rw [hspaces] at hline₂
    rw [← hline₁, ← hline₂, List.drop_append_of_le_length hle, List.drop_append_of_le_length hle]
    exact hrest.append_left _
  unfold parseFenceLine
  dsimp only
  generalize line.drop (min 3 (line.takeWhile (· = ' ')).length) = a at hdrop ⊢
  generalize line'.drop (min 3 (line'.takeWhile (· = ' ')).length) = b at hdrop ⊢
  cases hdrop with
  | nil => rfl
  | escape _ => rfl
  | @keep marker a b h =>
    dsimp only
    by_cases hmarker : marker ≠ '`' ∧ marker ≠ '~'
    · rw [if_pos hmarker, if_pos hmarker]
    · have hor : marker = '`' ∨ marker = '~' := by tauto
      have hfalse : ∀ c, c ≠ '`' → c ≠ '~' → decide (c = marker) = false := fun c h₁ h₂ => by
        rw [decide_eq_false_iff_not]
        rintro rfl
        exact hmarker ⟨h₁, h₂⟩
      obtain ⟨hticks, hbehind⟩ :=
        (Escaped.keep marker h).takeWhile_eq (p := fun c => decide (c = marker))
        (hfalse _ (by decide) (by decide)) (hfalse _ (by decide) (by decide))
      have hdrop (l : List Char) : l.drop (l.takeWhile fun c => decide (c = marker)).length =
          l.dropWhile fun c => decide (c = marker) := by
        have hsplit : (l.takeWhile (fun c => decide (c = marker)) ++
            l.dropWhile fun c => decide (c = marker)).drop
              (l.takeWhile fun c => decide (c = marker)).length =
                l.dropWhile fun c => decide (c = marker) :=
          List.drop_left
        rwa [List.takeWhile_append_dropWhile] at hsplit
      rw [if_neg hmarker, if_neg hmarker, hdrop, hdrop, hticks, hbehind.all_eq (by decide),
        hbehind.contains_eq (by decide)]
      split_ifs <;> rfl

end Escaped

/-! ## What a turn writes -/

section Turns

variable {text rest X : List Char} {run : ℕ} {p : Char → Bool}

/-- A prefix that is over stays as it is. -/
lemma takeWhile_append_of_head? (l : List Char) (h : ∀ c ∈ X.head?, p c = false) :
    (l ++ X).takeWhile p = l.takeWhile p := by
  induction l with
  | nil =>
    cases X with
    | nil => rfl
    | cons c X => exact List.takeWhile_cons_of_neg (by rw [h c rfl]; nofun)
  | cons c l ih =>
    rw [List.cons_append, List.takeWhile_cons, List.takeWhile_cons, ih]

/-- The backticks of a text before another one that has none at its beginning. -/
lemma ticks_append (l : List Char) (h : X.head? ≠ some '`') : ticks (l ++ X) = ticks l := by
  refine takeWhile_append_of_head? l fun c hc => decide_eq_false ?_
  rintro rfl
  exact h hc

/-- Behind its backticks a text begins with another character. -/
lemma head?_drop_ticks (text : List Char) : (text.drop (ticks text).length).head? ≠ some '`' := by
  induction text with
  | nil => nofun
  | cons c text ih =>
    rw [ticks, List.takeWhile_cons]
    split_ifs with hc
    · exact ih
    · rw [List.length_nil, List.drop_zero, List.head?_cons]
      intro heq
      exact hc (decide_eq_true (Option.some.inj heq))

lemma ticks_append_drop (text : List Char) : ticks text ++ text.drop (ticks text).length = text := by
  have hpre : ticks text <+: text := List.takeWhile_prefix _
  exact List.prefix_iff_eq_append.1 hpre

lemma ticks_ticks (text : List Char) : ticks (ticks text) = ticks text := by
  have h := ticks_append (ticks text) (head?_drop_ticks text)
  rw [ticks_append_drop] at h
  exact h.symm

/-- Inline code is a beginning of the text, and behind it there is no backtick. -/
lemma codeSpan_append (run : ℕ) (text : List Char) :
    (codeSpan run text).1 ++ (codeSpan run text).2 = text ∧
      (codeSpan run text).2.head? ≠ some '`' := by
  induction text with
  | nil => exact ⟨rfl, nofun⟩
  | cons c text ih =>
    rw [codeSpan]
    split_ifs with h
    · rw [← h.2]
      exact ⟨ticks_append_drop _, head?_drop_ticks _⟩
    · exact ⟨by rw [List.cons_append, ih.1], ih.2⟩

/-- Inline code before another text that does not begin with a backtick. -/
lemma codeSpan_append_of_head? (h : X.head? ≠ some '`')
    (hnil : (codeSpan run text).2 = [] → X = []) :
    codeSpan run ((codeSpan run text).1 ++ X) = ((codeSpan run text).1, X) := by
  induction text with
  | nil =>
    rw [hnil rfl]
    rfl
  | cons c text ih =>
    obtain ⟨happend, hhead⟩ := codeSpan_append run text
    rw [codeSpan] at hnil ⊢
    split_ifs at hnil ⊢ with hclose
    · have hticks : ticks (c :: text) = c :: ticks text :=
        List.takeWhile_cons_of_pos (decide_eq_true hclose.1)
      have hsame : ticks (ticks (c :: text) ++ X) = ticks (c :: text) := by
        rw [ticks_append _ h, ticks_ticks]
      rw [hticks, List.cons_append, codeSpan, ← List.cons_append, ← hticks, hsame,
        if_pos hclose, ← hclose.2, List.drop_left]
    · have hkeep : ¬ (c = '`' ∧ (ticks (c :: ((codeSpan run text).1 ++ X))).length = run) := by
        rintro ⟨hc, hlen⟩
        refine hclose ⟨hc, ?_⟩
        rw [← List.cons_append, ticks_append _ h] at hlen
        rw [← happend, ← List.cons_append, ticks_append _ hhead]
        exact hlen
      rw [List.cons_append, codeSpan, if_neg hkeep, ih hnil]

/-- A closing dollar is found again, whatever stands behind it. -/
lemma findClosingDisplay_take {close : ℕ} (h : findClosingDisplay text = some close) :
    close + 2 ≤ text.length ∧ findClosingDisplay (text.take (close + 2) ++ X) = some close := by
  induction text using findClosingDisplay.induct generalizing close with
  | case1 c rest ih =>
    rw [findClosingDisplay] at h
    obtain ⟨k, hk, rfl⟩ := Option.map_eq_some_iff.1 h
    obtain ⟨hlen, hfind⟩ := ih hk
    refine ⟨by rw [List.length_cons, List.length_cons]; omega, ?_⟩
    rw [List.take_succ_cons, List.take_succ_cons, List.cons_append, List.cons_append,
      findClosingDisplay, hfind]
    rfl
  | case2 rest =>
    obtain rfl := Option.some.inj h
    exact ⟨by rw [List.length_cons, List.length_cons]; omega, rfl⟩
  | case3 c rest hback hdollars ih =>
    rw [findClosingDisplay] at h
    · obtain ⟨k, hk, rfl⟩ := Option.map_eq_some_iff.1 h
      obtain ⟨hlen, hfind⟩ := ih hk
      refine ⟨by rw [List.length_cons]; omega, ?_⟩
      obtain ⟨d, rest, rfl⟩ : ∃ d rest', rest = d :: rest' :=
        List.exists_cons_of_length_pos (by omega)
      rw [List.take_succ_cons, List.cons_append, findClosingDisplay, hfind]
      · rfl
      · exact fun _ _ hc _ => hback d rest hc rfl
      · rintro r hc heq
        obtain ⟨rfl, -⟩ := List.cons.inj heq
        exact hdollars rest hc rfl
    · exact hback
    · exact hdollars
  | case4 => cases h

/-- A closing dollar of a formula in a line is found again, if no dollar stands behind it. -/
lemma findClosingInline_take {close : ℕ} (h : findClosingInline text = some close)
    (hX : X.head? ≠ some '$') :
    close + 1 ≤ text.length ∧ findClosingInline (text.take (close + 1) ++ X) = some close ∧
      text.drop close = '$' :: text.drop (close + 1) ∧ (text.drop (close + 1)).head? ≠ some '$' ∧
        ('\\' ∉ text.take close → '\n' ∉ text.take close) := by
  induction text using findClosingInline.induct generalizing close with
  | case1 => cases h
  | case2 c rest ih =>
    rw [findClosingInline] at h
    obtain ⟨k, hk, rfl⟩ := Option.map_eq_some_iff.1 h
    obtain ⟨hlen, hfind, hdrop, hhead, -⟩ := ih hk
    refine ⟨by rw [List.length_cons, List.length_cons]; omega, ?_, hdrop, hhead, fun hnot => ?_⟩
    · rw [List.take_succ_cons, List.take_succ_cons, List.cons_append, List.cons_append,
        findClosingInline, hfind]
      rfl
    · exact absurd (List.mem_cons_self (a := '\\')) hnot
  | case3 => cases h
  | case4 rest hnot =>
    obtain rfl : 0 = close := by
      rw [findClosingInline] at h
      · exact Option.some.inj h
      · exact hnot
    refine ⟨by rw [List.length_cons]; omega, ?_, rfl, fun hhead => ?_, fun _ => List.not_mem_nil⟩
    · rw [List.take_succ_cons, List.take_zero, List.singleton_append, findClosingInline]
      intro r hr
      rw [hr] at hX
      exact hX rfl
    · cases rest with
      | nil => cases hhead
      | cons d rest =>
        obtain rfl := Option.some.inj hhead
        exact hnot rest rfl
  | case5 c rest hnewline hback hdollars hdollar ih =>
    rw [findClosingInline] at h
    · obtain ⟨k, hk, rfl⟩ := Option.map_eq_some_iff.1 h
      obtain ⟨hlen, hfind, hdrop, hhead, hbody⟩ := ih hk
      refine ⟨by rw [List.length_cons]; omega, ?_, hdrop, hhead, fun hnot => ?_⟩
      · obtain ⟨d, rest, rfl⟩ : ∃ d rest', rest = d :: rest' :=
          List.exists_cons_of_length_pos (by omega)
        rw [List.take_succ_cons, List.cons_append, findClosingInline, hfind]
        · rfl
        · exact hnewline
        · exact fun _ _ hc _ => hback d rest hc rfl
        · exact fun _ hc _ => hdollar hc
        · exact hdollar
      · rw [List.take_succ_cons, List.mem_cons, not_or] at hnot ⊢
        exact ⟨fun hc => hnewline hc.symm, hbody hnot.2⟩
    · exact hnewline
    · exact hback
    · exact hdollars
    · exact hdollar
  | case6 => cases h

end Turns

/-! ## One turn -/

/-- A turn reads a beginning of the text, and writes it with backslashes before some of its dollars. -/
def Reads (text : List Char) (t : Rewrite.Turn DollarState Char) : Prop :=
  ∃ seg, seg ≠ [] ∧ text = seg ++ t.rest ∧ Escaped seg t.written

section OneTurn

variable {text rest X : List Char} {c : Char} {s : DollarState}

lemma reads_rawTurn (fence : Option (Char × ℕ)) (c : Char) (rest : List Char) :
    Reads (c :: rest) (rawTurn fence (c :: rest)) :=
  ⟨[c], List.cons_ne_nil _ _, rfl, .refl _⟩

lemma reads_fenceLineTurn (fence : Option (Char × ℕ)) (h : text ≠ []) :
    Reads text (fenceLineTurn fence text) := by
  obtain ⟨c, text, rfl⟩ := List.exists_cons_of_ne_nil h
  exact ⟨_, by rw [List.take_succ_cons]; exact List.cons_ne_nil _ _, (List.take_append_drop _ _).symm,
    .refl _⟩

lemma reads_codeTurn (rest : List Char) : Reads ('`' :: rest) (codeTurn ('`' :: rest)) := by
  have hticks : ticks ('`' :: rest) = '`' :: ticks rest := List.takeWhile_cons_of_pos rfl
  have happend := ticks_append_drop ('`' :: rest)
  rw [codeTurn]
  dsimp only
  split_ifs
  · exact ⟨_, by rw [hticks]; exact List.cons_ne_nil _ _, happend.symm, .refl _⟩
  · refine ⟨_, by rw [hticks]; exact List.cons_ne_nil _ _, ?_, .refl _⟩
    rw [List.append_assoc, (codeSpan_append _ _).1, happend]

lemma reads_bareDollarTurn (rest : List Char) : Reads ('$' :: rest) (bareDollarTurn rest) := by
  have hone : Reads ('$' :: rest) ⟨['\\', '$'], rest, ⟨none, false⟩⟩ :=
    ⟨['$'], List.cons_ne_nil _ _, rfl, .escape .nil⟩
  rw [bareDollarTurn]
  split_ifs with hhead
  · cases rest with
    | nil => cases hhead
    | cons d rest =>
      obtain rfl := Option.some.inj hhead
      rw [List.tail_cons]
      cases findClosingDisplay rest with
      | none => exact ⟨['$', '$'], List.cons_ne_nil _ _, rfl, .escape (.escape .nil)⟩
      | some close =>
        refine ⟨_, List.cons_ne_nil _ _, ?_, .refl _⟩
        rw [List.cons_append, List.cons_append, List.take_append_drop]
  · cases hclose : findClosingInline rest with
    | none => exact hone
    | some close =>
      obtain ⟨-, -, hdrop, -, -⟩ := findClosingInline_take (X := []) hclose nofun
      dsimp only
      split_ifs
      · refine ⟨'$' :: (rest.take close ++ ['$']), List.cons_ne_nil _ _, ?_,
          .escape (Escaped.append_left (.escape .nil) _)⟩
        rw [List.cons_append, List.append_assoc, List.singleton_append, ← hdrop, List.take_append_drop]
      · refine ⟨_, List.cons_ne_nil _ _, ?_, .refl _⟩
        rw [List.cons_append, List.take_append_drop]
      · exact hone

lemma reads_plainTurn (c : Char) (rest : List Char) : Reads (c :: rest) (plainTurn (c :: rest)) := by
  rw [plainTurn]
  split_ifs with htick hback hdollar
  · subst htick
    exact reads_codeTurn rest
  · obtain ⟨rfl, hhead⟩ := hback
    obtain ⟨rest, rfl⟩ := List.head?_eq_some_iff.1 hhead
    exact ⟨['\\', '$'], List.cons_ne_nil _ _, rfl, .refl _⟩
  · subst hdollar
    exact reads_bareDollarTurn rest
  · exact reads_rawTurn none c rest

/-- Each turn reads a beginning of the text. -/
lemma reads_dollarTurn (s : DollarState) (c : Char) (rest : List Char) :
    Reads (c :: rest) (dollarTurn s (c :: rest)) := by
  unfold dollarTurn lineTurn
  split
  · split_ifs
    · exact reads_fenceLineTurn _ (List.cons_ne_nil _ _)
    · exact reads_rawTurn _ c rest
  · exact reads_fenceLineTurn _ (List.cons_ne_nil _ _)
  · exact reads_rawTurn _ c rest
  · exact reads_plainTurn c rest

lemma shrinks_dollarTurn : Shrinks dollarTurn := by
  intro s c rest
  obtain ⟨seg, hseg, htext, -⟩ := reads_dollarTurn s c rest
  have hlen := congrArg List.length htext
  have hpos := List.length_pos_iff.2 hseg
  rw [List.length_cons, List.length_append] at hlen
  omega

lemma escaped_dollarTurn (h : Escaped (dollarTurn s (c :: rest)).rest X) :
    Escaped (c :: rest) ((dollarTurn s (c :: rest)).written ++ X) := by
  obtain ⟨seg, -, htext, hwritten⟩ := reads_dollarTurn s c rest
  have happend := hwritten.append h
  rwa [← htext] at happend

/-! ## A turn once more -/

/-- A fence line is read again. -/
lemma fenceLineTurn_append (fence : Option (Char × ℕ))
    (h : (fenceLineTurn fence text).rest = [] → X = []) :
    fenceLineTurn fence ((fenceLineTurn fence text).written ++ X) =
      ⟨(fenceLineTurn fence text).written, X, ⟨fence, true⟩⟩ := by
  by_cases hnewline : '\n' ∈ text
  · obtain ⟨line, rest, rfl, hline⟩ := List.eq_append_cons_of_mem hnewline
    have hwhile (more : List Char) : (line ++ '\n' :: more).takeWhile (· ≠ '\n') = line := by
      rw [List.takeWhile_append_of_pos, List.takeWhile_cons_of_neg (by decide), List.append_nil]
      exact fun c hc => decide_eq_true (ne_of_mem_of_not_mem hc hline)
    have hturn (more : List Char) :
        fenceLineTurn fence (line ++ '\n' :: more) = ⟨line ++ ['\n'], more, ⟨fence, true⟩⟩ := by
      rw [fenceLineTurn, hwhile, ← List.singleton_append, ← List.append_assoc,
        ← List.length_singleton (a := '\n'), ← List.length_append, List.take_left, List.drop_left]
    rw [hturn, List.append_assoc, List.singleton_append, hturn]
  · have hwhile : text.takeWhile (· ≠ '\n') = text := by
      have hall := @List.takeWhile_append_of_pos _ (fun c => decide (c ≠ '\n')) text []
        fun c hc => decide_eq_true (ne_of_mem_of_not_mem hc hnewline)
      rwa [List.append_nil, List.takeWhile_nil, List.append_nil] at hall
    have hturn : fenceLineTurn fence text = ⟨text, [], ⟨fence, true⟩⟩ := by
      rw [fenceLineTurn, hwhile, List.take_of_length_le (Nat.le_succ _),
        List.drop_of_length_le (Nat.le_succ _)]
    rw [hturn] at h ⊢
    rw [h rfl, List.append_nil, hturn]

lemma codeTurn_of_three_le (h : 3 ≤ (ticks text).length) :
    codeTurn text = ⟨ticks text, text.drop (ticks text).length, ⟨none, false⟩⟩ :=
  if_pos h

lemma codeTurn_of_lt {span : List Char × List Char} (h : ¬ 3 ≤ (ticks text).length)
    (hspan : codeSpan (ticks text).length (text.drop (ticks text).length) = span) :
    codeTurn text = ⟨ticks text ++ span.1, span.2, ⟨none, false⟩⟩ := by
  rw [← hspan]
  exact if_neg h

/-- Inline code begins with a backtick. -/
lemma exists_written_codeTurn (rest : List Char) :
    ∃ more, (codeTurn ('`' :: rest)).written = '`' :: more ∧
      (codeTurn ('`' :: rest)).next = ⟨none, false⟩ := by
  have hticks : ticks ('`' :: rest) = '`' :: ticks rest := List.takeWhile_cons_of_pos rfl
  by_cases hrun : 3 ≤ (ticks ('`' :: rest)).length
  · rw [codeTurn_of_three_le hrun, hticks]
    exact ⟨_, rfl, rfl⟩
  · rw [codeTurn_of_lt hrun rfl, hticks]
    exact ⟨_, rfl, rfl⟩

/-- Behind inline code there is no backtick. -/
lemma head?_codeTurn (text : List Char) : (codeTurn text).rest.head? ≠ some '`' := by
  by_cases hrun : 3 ≤ (ticks text).length
  · rw [codeTurn_of_three_le hrun]
    exact head?_drop_ticks text
  · rw [codeTurn_of_lt hrun rfl]
    exact (codeSpan_append _ _).2

/-- Inline code is read again. -/
lemma codeTurn_append (hX : X.head? ≠ some '`') (hnil : (codeTurn text).rest = [] → X = []) :
    codeTurn ((codeTurn text).written ++ X) = ⟨(codeTurn text).written, X, ⟨none, false⟩⟩ := by
  by_cases hrun : 3 ≤ (ticks text).length
  · have hticks : ticks (ticks text ++ X) = ticks text := by rw [ticks_append _ hX, ticks_ticks]
    rw [codeTurn_of_three_le hrun]
    dsimp only
    rw [codeTurn_of_three_le (by rwa [hticks]), hticks, List.drop_left]
  · generalize hspan : codeSpan (ticks text).length (text.drop (ticks text).length) = span
    rw [codeTurn_of_lt hrun hspan] at hnil ⊢
    obtain ⟨happend, -⟩ := codeSpan_append (ticks text).length (text.drop (ticks text).length)
    have hagain := @codeSpan_append_of_head? (text.drop (ticks text).length) X (ticks text).length hX
    rw [hspan] at happend hagain
    -- what stands behind the opening backticks is no backtick
    have hhead : (span.1 ++ X).head? ≠ some '`' := by
      have hfirst := head?_drop_ticks text
      rw [← happend] at hfirst
      cases hcode : span.1 with
      | nil => exact hX
      | cons c code =>
        rw [hcode] at hfirst
        exact hfirst
    have hticks : ticks (ticks text ++ (span.1 ++ X)) = ticks text := by
      rw [ticks_append _ hhead, ticks_ticks]
    dsimp only at hnil ⊢
    rw [List.append_assoc, @codeTurn_of_lt _ (span.1, X) (by rwa [hticks]), hticks]
    rw [hticks, List.drop_left, hagain hnil]

/-- What a currency amount consists of. -/
lemma mem_of_isCurrencyFrom {fuel : ℕ} {sawDigit sawDot : Bool}
    (h : isCurrencyFrom fuel sawDigit sawDot text = true) :
    ∀ c ∈ text, c.isDigit = true ∨ c = ',' ∨ c = '.' := by
  induction fuel generalizing text sawDigit sawDot with
  | zero =>
    cases text with
    | nil => exact nofun
    | cons c text => cases h
  | succ fuel ih =>
    cases text with
    | nil => exact nofun
    | cons c text =>
      -- behind a comma or a point there are digits, and then what the loop goes on with
      have hgroup {b b' : Bool} (hmore : isCurrencyFrom fuel b b'
          (text.drop (text.takeWhile Char.isDigit).length) = true) :
          ∀ d ∈ text, d.isDigit = true ∨ d = ',' ∨ d = '.' := fun d hd => by
        rw [← List.take_append_drop (text.takeWhile Char.isDigit).length text, List.mem_append] at hd
        rcases hd with hd | hd
        · have hpre : text.takeWhile Char.isDigit <+: text := List.takeWhile_prefix _
          rw [← List.prefix_iff_eq_take.1 hpre] at hd
          exact .inl (List.mem_takeWhile_imp hd)
        · exact ih hmore d hd
      rw [isCurrencyFrom] at h
      rw [List.forall_mem_cons]
      split_ifs at h with hdigit hcomma hdot
      · exact ⟨.inl hdigit, ih h⟩
      · exact ⟨.inr (.inl hcomma.1), hgroup (Bool.and_eq_true_iff.1 h).2⟩
      · exact ⟨.inr (.inr hdot.1), hgroup (Bool.and_eq_true_iff.1 h).2⟩

/-- What stands between the dollars of an amount. -/
lemma mem_of_isCurrencyOnly (h : isCurrencyOnly text = true) :
    ∀ c ∈ text, c ≠ '`' ∧ c ≠ '\\' ∧ c ≠ '$' := by
  intro c hc
  rw [isCurrencyOnly, Bool.and_eq_true_iff] at h
  rcases mem_trimChars_or hc with hc | hc
  · rcases mem_of_isCurrencyFrom h.2 c hc with hdigit | rfl | rfl
    · refine ⟨?_, ?_, ?_⟩ <;> rintro rfl <;> exact absurd hdigit (by decide)
    · decide
    · decide
  · refine ⟨?_, ?_, ?_⟩ <;> rintro rfl <;> exact absurd hc (by decide)

/-- Characters of no meaning are kept one by one. -/
lemma keeps_plain (body : List Char) (h : ∀ c ∈ body, c ≠ '`' ∧ c ≠ '\\' ∧ c ≠ '$' ∧ c ≠ '\n') :
    Keeps dollarTurn X ⟨none, false⟩ body ⟨none, false⟩ := by
  induction body with
  | nil => exact .nil _
  | cons c body ih =>
    obtain ⟨htick, hback, hdollar, hnewline⟩ := h c List.mem_cons_self
    have hturn : dollarTurn ⟨none, false⟩ (c :: (body ++ X)) = ⟨[c], body ++ X, ⟨none, false⟩⟩ := by
      change plainTurn (c :: (body ++ X)) = _
      rw [plainTurn, if_neg htick, if_neg fun h => hback h.1, if_neg hdollar, rawTurn,
        decide_eq_false hnewline]
    exact .turn (List.cons_ne_nil c []) hturn (ih fun d hd => h d (List.mem_cons_of_mem c hd))

end OneTurn

/-! ## A second pass -/

section Again

variable {text rest X : List Char} {c : Char} {s : DollarState}

/-- One escaped dollar is kept. -/
lemma keeps_escaped : Keeps dollarTurn X ⟨none, false⟩ ['\\', '$'] ⟨none, false⟩ :=
  .single (List.cons_ne_nil _ _) rfl

/-- Display math is read again. -/
lemma plainTurn_display {close : ℕ} (h : findClosingDisplay text = some close) :
    plainTurn ('$' :: '$' :: (text.take (close + 2) ++ X)) =
      ⟨'$' :: '$' :: text.take (close + 2), X, ⟨none, false⟩⟩ := by
  obtain ⟨hlen, hfind⟩ := findClosingDisplay_take (X := X) h
  have hclose : (text.take (close + 2)).length = close + 2 := List.length_take_of_le hlen
  rw [plainTurn, if_neg (by decide), if_neg (by rintro ⟨h, -⟩; exact absurd h (by decide)), if_pos rfl,
    bareDollarTurn, List.head?_cons, if_pos rfl, List.tail_cons, hfind]
  dsimp only
  rw [List.take_left' hclose, List.drop_left' hclose]

/-- Math in a line is read again. -/
lemma plainTurn_math {close : ℕ} (hhead : text.head? ≠ some '$')
    (h : findClosingInline text = some close)
    (hcurrency : ¬ (close ≤ maxInlineMathChars ∧ isCurrencyOnly (text.take close) = true))
    (hmath : close ≤ maxInlineMathChars ∧ looksLikeMath (text.take close) = true)
    (hX : Escaped (text.drop (close + 1)) X) :
    plainTurn ('$' :: (text.take (close + 1) ++ X)) =
      ⟨'$' :: text.take (close + 1), X, ⟨none, false⟩⟩ := by
  obtain ⟨-, -, -, hbehind, -⟩ := findClosingInline_take (X := []) h nofun
  obtain ⟨hlen, hfind, -, -, -⟩ := findClosingInline_take h (hX.head?_ne (by decide) hbehind)
  have hclose : (text.take (close + 1)).length = close + 1 := List.length_take_of_le hlen
  have hfirst : (text.take (close + 1) ++ X).head? ≠ some '$' := by
    obtain ⟨d, text, rfl⟩ :=
      List.exists_cons_of_length_pos (Nat.lt_of_lt_of_le (Nat.succ_pos close) hlen)
    exact hhead
  have hbody : (text.take (close + 1) ++ X).take close = text.take close := by
    rw [List.take_append_of_le_length (by omega), List.take_take, Nat.min_eq_left (Nat.le_succ close)]
  rw [plainTurn, if_neg (by decide), if_neg (by rintro ⟨h, -⟩; exact absurd h (by decide)), if_pos rfl,
    bareDollarTurn, if_neg hfirst, hfind]
  dsimp only
  rw [hbody, if_neg hcurrency, if_pos hmath, List.take_left' hclose, List.drop_left' hclose]

/-- What is written for a dollar is kept, if the turn that reads it is outside of fences. -/
lemma keeps_bareDollarTurn (hX : Escaped (bareDollarTurn rest).rest X)
    (hs : dollarTurn s ((bareDollarTurn rest).written ++ X) =
      plainTurn ((bareDollarTurn rest).written ++ X)) :
    Keeps dollarTurn X s (bareDollarTurn rest).written (bareDollarTurn rest).next := by
  have hescape {w : List Char} (hw : dollarTurn s ('\\' :: '$' :: (w ++ X)) =
      plainTurn ('\\' :: '$' :: (w ++ X))) (hmore : Keeps dollarTurn X ⟨none, false⟩ w ⟨none, false⟩) :
      Keeps dollarTurn X s ('\\' :: '$' :: w) ⟨none, false⟩ :=
    @Rewrite.Keeps.turn _ _ _ _ _ _ _ ['\\', '$'] _ (List.cons_ne_nil _ _) hw hmore
  have hone (hw : dollarTurn s ('\\' :: '$' :: X) = plainTurn ('\\' :: '$' :: X)) :
      Keeps dollarTurn X s ['\\', '$'] ⟨none, false⟩ :=
    hescape (w := []) hw (.nil _)
  unfold bareDollarTurn at hX hs ⊢
  split_ifs at hX hs ⊢ with hhead
  · cases hclose : findClosingDisplay rest.tail with
    | none =>
      rw [hclose] at hs
      exact hescape hs keeps_escaped
    | some close =>
      rw [hclose] at hs
      dsimp only at hs ⊢
      exact .single (List.cons_ne_nil _ _) (hs.trans (plainTurn_display hclose))
  · cases hclose : findClosingInline rest with
    | none =>
      rw [hclose] at hs
      exact hone hs
    | some close =>
      rw [hclose] at hs hX
      dsimp only at hs hX ⊢
      split_ifs at hX hs ⊢ with hcurrency hmath
      · obtain ⟨-, -, -, -, hline⟩ := findClosingInline_take (X := []) hclose nofun
        have hbody := mem_of_isCurrencyOnly hcurrency.2
        have hnewline := hline fun hback => (hbody _ hback).2.1 rfl
        have hplain := keeps_plain (X := ['\\', '$'] ++ X) (rest.take close) fun c hc =>
          ⟨(hbody c hc).1, (hbody c hc).2.1, (hbody c hc).2.2, ne_of_mem_of_not_mem hc hnewline⟩
        exact hescape hs (hplain.trans keeps_escaped)
      · exact .single (List.cons_ne_nil _ _) (hs.trans (plainTurn_math hhead hclose hcurrency hmath hX))
      · exact hone hs

/-- What is written outside of fences is kept. -/
lemma keeps_plainTurn (hX : Escaped (plainTurn (c :: rest)).rest X)
    (hs : dollarTurn s ((plainTurn (c :: rest)).written ++ X) =
      plainTurn ((plainTurn (c :: rest)).written ++ X)) :
    Keeps dollarTurn X s (plainTurn (c :: rest)).written (plainTurn (c :: rest)).next := by
  unfold plainTurn at hX
  rw [plainTurn] at hs ⊢
  dsimp only at hX
  split_ifs at hX hs ⊢ with htick hback hdollar
  · subst htick
    have hcode := codeTurn_append (hX.head?_ne (by decide) (head?_codeTurn _)) fun hnil => by
      rw [hnil] at hX
      exact hX.eq_nil
    obtain ⟨more, hmore, hnext⟩ := exists_written_codeTurn rest
    rw [hmore] at hs hcode ⊢
    rw [hnext]
    refine .single (List.cons_ne_nil _ _) (hs.trans ?_)
    rw [List.cons_append, plainTurn, if_pos rfl, ← List.cons_append, hcode]
  · exact .single (List.cons_ne_nil _ _) hs
  · exact keeps_bareDollarTurn hX hs
  · refine .single (List.cons_ne_nil _ _) (hs.trans ?_)
    change plainTurn (c :: X) = _
    have hback' : ¬ (c = '\\' ∧ X.head? = some '$') := fun h =>
      hX.head?_ne (by decide) (fun hhead => hback ⟨h.1, hhead⟩) h.2
    rw [plainTurn, if_neg htick, if_neg hback', if_neg hdollar]
    rfl

/-- What is written at a fence line, or at none, is kept. -/
lemma keeps_lineTurn {line : Option FenceLineAt} {fence : Option (Char × ℕ)}
    (hX : Escaped (lineTurn line fence (c :: rest)).rest X)
    (hs : dollarTurn s ((lineTurn line fence (c :: rest)).written ++ X) =
      lineTurn line fence ((lineTurn line fence (c :: rest)).written ++ X)) :
    Keeps dollarTurn X s (lineTurn line fence (c :: rest)).written
      (lineTurn line fence (c :: rest)).next := by
  have hfence {after : Option (Char × ℕ)} (hX : Escaped (fenceLineTurn after (c :: rest)).rest X)
      (hs : dollarTurn s ((fenceLineTurn after (c :: rest)).written ++ X) =
        fenceLineTurn after ((fenceLineTurn after (c :: rest)).written ++ X)) :
      Keeps dollarTurn X s (fenceLineTurn after (c :: rest)).written
        (fenceLineTurn after (c :: rest)).next :=
    .single (List.cons_ne_nil _ _) (hs.trans (fenceLineTurn_append after fun hnil => by
      rw [hnil] at hX
      exact hX.eq_nil))
  rcases line with _ | fl <;> rcases fence with _ | ⟨marker, len⟩
  · exact keeps_plainTurn hX hs
  · exact .single (List.cons_ne_nil _ _) hs
  · exact hfence hX hs
  · unfold lineTurn at hX hs ⊢
    dsimp only at hX hs ⊢
    split_ifs at hX hs ⊢
    · exact hfence hX hs
    · exact .single (List.cons_ne_nil _ _) hs

/-- What a turn has written is kept. -/
lemma keeps_dollarTurn (hX : Escaped (dollarTurn s (c :: rest)).rest X) :
    Keeps dollarTurn X s (dollarTurn s (c :: rest)).written (dollarTurn s (c :: rest)).next := by
  refine keeps_lineTurn hX ?_
  have hparse := (escaped_dollarTurn hX).parseFenceLineAt_eq
  rw [dollarTurn] at hparse
  rw [dollarTurn, hparse]

/-- **A second pass changes nothing**. -/
theorem sanitizeDollars_sanitizeDollars (input : List Char) :
    sanitizeDollars (sanitizeDollars input) = sanitizeDollars input :=
  @pass_pass _ _ _ shrinks_dollarTurn _ (fun s _ s₂ => s = s₂) .nil
    (fun _ _ _ _ => escaped_dollarTurn) (fun _ _ _ _ _ hs hX => ⟨_, hs ▸ keeps_dollarTurn hX, rfl⟩)
    _ _ _ rfl

end Again

end MyClaw
