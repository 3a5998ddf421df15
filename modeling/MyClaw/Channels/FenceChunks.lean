import MyClaw.Channels.FenceTables

set_option autoImplicit false

/-!
# The fences of a chunk

A chunk is put together from a part of the message and from what opens and closes blocks of code, tables
and inline markers around it (`split_message_chunk` in `channels/message/chunking.rs`).  This file has
what a scan for fences sees of such a text.

## Main definitions

* `EdgesRead` — the first and the last line of the part of the message are read in the chunk as
  they are in the message.

## Main results

* `after_chunk` — the block of code that is open at the end of a chunk.
* `after_closeSuffix` — the line that closes a block of code closes it.
* `inFence_chunk` — a position of the message is in a block of code in the chunk exactly when it
  is in one in the message.
-/

namespace MyClaw

open LineScan

/-- The first and the last line of the part `head` of a message are read in a chunk as they are in the
message, with `opened` open before them and `last` after them; the chunk has `reopen` in front of the
part, and `close` behind it. -/
structure EdgesRead (opened : Option FenceCarry) (reopen head close : List Char)
    (last : Option FenceCarry) : Prop where
  first : '\n' ∈ head → fenceStep opened (reopen ++ firstLine head) = fenceStep opened (firstLine head)
  last : fenceStep (before fenceStep opened head)
    ((if '\n' ∈ head then [] else reopen) ++ (lastLine head ++ close)) = last

variable {opened last : Option FenceCarry} {start reopen head close suffix rest : List Char} {k : ℕ}

/-- The block of code that is open at the end of a chunk, before a line that closes it is added. -/
theorem after_chunk (hstart : before fenceStep none start = opened) (hline : lastLine start = [])
    (hreopen : '\n' ∉ reopen) (hclose : '\n' ∉ close) (h : EdgesRead opened reopen head close last) :
    after fenceStep none (start ++ (reopen ++ (head ++ close))) = last := by
  have hbefore : before fenceStep opened reopen = opened := before_of_notMem hreopen
  rw [after_append hstart (by rw [hline, List.nil_append])]
  by_cases hhead : '\n' ∈ head
  · have hfirst := h.first hhead
    have hlast := h.last
    rw [if_pos hhead, List.nil_append] at hlast
    rw [after_append hbefore, after, before_append_of_notMem hclose, lastLine_append hclose, hlast]
    rw [lastLine_of_notMem hreopen, firstLine_append_of_mem hhead, hfirst]
  · have hlast := h.last
    have hall : '\n' ∉ reopen ++ (head ++ close) := by
      simp only [List.mem_append, not_or]
      exact ⟨hreopen, hhead, hclose⟩
    rw [if_neg hhead, before_of_notMem hhead, lastLine_of_notMem hhead] at hlast
    rw [after, before_of_notMem hall, lastLine_of_notMem hall, hlast]

/-- The line that closes a block of code is read as closing it. -/
lemma closedBy_replicate {fc : FenceCarry} (h : fc.Valid) :
    fc.closedBy (List.replicate fc.len fc.marker) = true := by
  have hhead : ([] : List Char).head? ≠ some fc.marker := by simp
  have hparse := parseFenceLine_of_form (Nat.zero_le 3) h.1 h.2 hhead (by simp)
  rw [List.replicate_zero, List.nil_append, List.append_nil] at hparse
  rw [FenceCarry.closedBy, hparse]
  simp

/-- **The line that closes a block of code closes it**. -/
theorem after_closeSuffix {text : List Char} {fc : FenceCarry} (h : after fenceStep none text = some fc)
    (hvalid : fc.Valid) : after fenceStep none (text ++ fc.closeSuffix) = none := by
  have hmarkers : '\n' ∉ List.replicate fc.len fc.marker := by
    intro hmem
    have hmarker := hvalid.1
    rw [← List.eq_of_mem_replicate hmem] at hmarker
    exact absurd hmarker (by decide)
  have hstate : before fenceStep none (text ++ fc.closeSuffix) = some fc := by
    have hafter : before fenceStep none (text ++ ([] ++ '\n' :: List.replicate fc.len fc.marker)) =
        before fenceStep (after fenceStep none text) (List.replicate fc.len fc.marker) := by
      rw [before_append_newline List.not_mem_nil, List.append_nil]
      rfl
    rw [h, before_of_notMem hmarkers] at hafter
    exact hafter
  have hlast : lastLine (text ++ fc.closeSuffix) = List.replicate fc.len fc.marker := by
    have hline : lastLine (text ++ ([] ++ '\n' :: List.replicate fc.len fc.marker)) =
        lastLine (List.replicate fc.len fc.marker) := lastLine_append_newline List.not_mem_nil
    rw [lastLine_of_notMem hmarkers] at hline
    exact hline
  rw [after, hstate, hlast, fenceStep, if_pos (closedBy_replicate hvalid)]

/-- The first line of what is behind the part of the message in a chunk. -/
lemma firstLine_close (hclose : '\n' ∉ close) (hsuffix : suffix = [] ∨ ∃ line, suffix = '\n' :: line) :
    firstLine (close ++ suffix) = close := by
  rcases hsuffix with rfl | ⟨line, rfl⟩
  · rw [List.append_nil, firstLine_of_notMem hclose]
  · exact firstLine_append_newline hclose

/-- **A position of the message is in a block of code in the chunk exactly when it is in one in the
message**, if the first and last line of its part are read as in the message.

**Proof sketch.** If the part has several lines, what is in front matters to the first line only, and
what is behind to the last line only.  A part of one line is read with both. -/
theorem inFence_chunk (hstart : before fenceStep none start = opened) (hline : lastLine start = [])
    (hreopen : '\n' ∉ reopen) (hclose : '\n' ∉ close)
    (hsuffix : suffix = [] ∨ ∃ line, suffix = '\n' :: line)
    (h : EdgesRead opened reopen head close last)
    (hmessage : lastLine head ≠ [] →
      fenceStep (before fenceStep opened head) (lastLine head ++ firstLine rest) = last)
    (hk : k < head.length) :
    inFence none (start ++ (reopen ++ (head ++ (close ++ suffix))))
      (start.length + (reopen.length + k)) =
      inFence opened (head ++ rest) k := by
  have hfirst := firstLine_close hclose hsuffix
  have hbefore : before fenceStep opened reopen = opened := before_of_notMem hreopen
  unfold inFence
  rw [seenAt_append hstart (by rw [hline, List.nil_append])]
  by_cases hhead : '\n' ∈ head
  · have hlast := h.last
    rw [if_pos hhead, List.nil_append] at hlast
    rw [seenAt_append hbefore]
    · refine seenAt_append_congr hk fun hne => ?_
      rw [hfirst, hlast, hmessage hne]
    · rw [lastLine_of_notMem hreopen, firstLine_append_of_mem hhead, h.first hhead]
  · have hlast := h.last
    rw [if_neg hhead, before_of_notMem hhead, lastLine_of_notMem hhead] at hlast
    have hne : head ≠ [] := by
      rintro rfl
      cases hk
    rw [before_of_notMem hhead, lastLine_of_notMem hhead] at hmessage
    have hpart (text : List Char) : '\n' ∉ (head ++ text).take k := by
      rw [List.take_append_of_le_length hk.le]
      exact fun hmem => hhead (List.mem_of_mem_take hmem)
    have hself : seenAt fenceStep fenceView opened (head ++ rest) k = fenceView opened last := by
      have hseen : seenAt fenceStep fenceView opened ([] ++ (head ++ rest))
          (([] : List Char).length + k) =
          fenceView (before fenceStep opened []) (fenceStep (before fenceStep opened [])
            (lastLine [] ++ firstLine (head ++ rest))) := seenAt_append_of_notMem (hpart rest)
      rw [List.nil_append, List.length_nil, Nat.zero_add] at hseen
      rw [hseen, firstLine_append_of_notMem hhead]
      have hnil : before fenceStep opened [] = opened := rfl
      have hnilLine : lastLine [] = [] := rfl
      rw [hnil, hnilLine, List.nil_append, hmessage hne]
    rw [hself, seenAt_append_of_notMem (hpart _), hbefore, lastLine_of_notMem hreopen,
      firstLine_append_of_notMem hhead, hfirst, hlast]

/-! ## White space that is trimmed -/

variable {white : List Char}

/-- Lines of white space do nothing. -/
lemma before_of_isWhiteSpace (h : ∀ c ∈ white, isWhiteSpace c = true) :
    before fenceStep opened white = opened :=
  before_eq_self (fun _ hline => fenceStep_of_isWhiteSpace hline opened) h

/-- What is trimmed off the end of a text is white space. -/
lemma trimEnd_append (text : List Char) :
    ∃ white, text = trimEnd text ++ white ∧ ∀ c ∈ white, isWhiteSpace c = true := by
  refine ⟨(text.reverse.takeWhile isWhiteSpace).reverse, ?_, fun c hc => ?_⟩
  · rw [trimEnd, ← List.reverse_append, List.takeWhile_append_dropWhile, List.reverse_reverse]
  · exact List.mem_takeWhile_imp (List.mem_reverse.1 hc)

/-- A last line of white space does nothing. -/
lemma after_eq_before (h : ∀ c ∈ white, isWhiteSpace c = true) (hmem : '\n' ∈ white) :
    after fenceStep opened (head ++ white) = before fenceStep opened (head ++ white) := by
  obtain ⟨line, later, rfl, hnone⟩ := List.eq_append_cons_of_mem hmem
  rw [after, lastLine_append_newline hnone]
  refine fenceStep_of_isWhiteSpace (fun c hc => h c ?_) _
  exact List.mem_append_right _ (List.mem_cons_of_mem _ ((lastLine_isSuffix later).subset hc))

/-- The last line of a part of the message, from which white space is trimmed, is read in the message as
the line is that the part ends in. -/
lemma step_lastLine_trimmed (h : ∀ c ∈ white, isWhiteSpace c = true)
    (hline : lastLine (head ++ white) ≠ [] →
      fenceStep (before fenceStep opened (head ++ white)) (lastLine (head ++ white) ++ firstLine rest) =
        last)
    (hbefore : '\n' ∈ white → before fenceStep opened (head ++ white) = last)
    (hne : lastLine head ≠ []) :
    fenceStep (before fenceStep opened head) (lastLine head ++ firstLine (white ++ rest)) = last := by
  by_cases hwhite : '\n' ∈ white
  · obtain ⟨line, later, rfl, hnone⟩ := List.eq_append_cons_of_mem hwhite
    have hlater : ∀ c ∈ later, isWhiteSpace c = true := fun c hc =>
      h c (List.mem_append_right _ (List.mem_cons_of_mem _ hc))
    have hlast := hbefore hwhite
    rw [before_append_newline hnone, before_of_isWhiteSpace hlater] at hlast
    rw [List.append_assoc, List.cons_append, firstLine_append_newline hnone, hlast]
  · rw [lastLine_append hwhite, before_append_of_notMem hwhite, List.append_assoc] at hline
    rw [firstLine_append_of_notMem hwhite]
    exact hline (List.append_ne_nil_of_left_ne_nil hne _)

end MyClaw
