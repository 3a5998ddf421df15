import MyClaw.Channels.TurnStream
import MyClaw.Lib.Split
import Mathlib.Data.Nat.Digits.Defs

set_option autoImplicit false

/-!
# What a stream claims and what the user sees

A stream that reports `FinalDelivered` keeps its caller from sending the answer, so the answer should be
what Telegram showed last.  The stream reports it after the last flush whatever became of that
flush: where neither the edit nor the message that replaces it is taken, where the edit is refused
with a status that is no error of the request, and where the answer has no text, the user is left
without it.  What a stream hands over is within the limit of Telegram in every case.

## Main definitions

* `lastShown`, `Measured` — what the user saw last, and the limit on every text.
* `Truthful` — what a stream promises to its caller.
* `AnswerShown` — the answer that a call reports is shown.

## Main results

* `length_previewText` — every preview is within the limit.
* `noClaim_streamStep` — a call that reports no answer claims nothing.
* `StreamInv.step` — what every call keeps.
* `truthful_iff` — a stream is truthful exactly when the answers it reports are shown.
* `not_truthful_unreachable` — an answer that was never sent is reported as delivered.

## Implementation notes

An edit that changes nothing leaves a message that has the text, so it counts as shown.
-/

namespace MyClaw

/-! ## Calls -/

/-- The text of an edit or of a message. -/
def TelegramCall.text : TelegramCall → Option (List Char)
  | .edit _ text _ => some text
  | .send text _ => some text
  | .delete _ => none

/-- The text that the call has shown. -/
def TelegramCall.shown : TelegramCall → Option (List Char)
  | .edit _ text reply => if reply.shows then some text else none
  | .send text reply => if reply.shows then some text else none
  | .delete _ => none

/-- The text of the last edit or message that was shown. -/
def lastShown (calls : List TelegramCall) : Option (List Char) :=
  (calls.filterMap TelegramCall.shown).getLast?

/-- Every text that is handed to Telegram has 4096 codepoints at most. -/
def Measured (calls : List TelegramCall) : Prop :=
  ∀ text ∈ calls.filterMap TelegramCall.text, text.length ≤ 4096

variable {calls : List TelegramCall} {call : TelegramCall}

lemma lastShown_append : lastShown (calls ++ [call]) = call.shown.or (lastShown calls) := by
  rw [lastShown, List.filterMap_append, List.getLast?_append]
  congr 1
  cases hshown : call.shown with
  | none => rw [List.filterMap_cons_none hshown]; rfl
  | some text => rw [List.filterMap_cons_some hshown]; rfl

lemma Measured.append (h : Measured calls)
    (hcall : ∀ text, call.text = some text → text.length ≤ 4096) :
    Measured (calls ++ [call]) := by
  intro text htext
  rw [List.filterMap_append, List.mem_append] at htext
  rcases htext with htext | htext
  · exact h text htext
  · obtain ⟨c, hc, heq⟩ := List.mem_filterMap.1 htext
    obtain rfl := List.mem_singleton.1 hc
    exact hcall text heq

/-! ## Lengths -/

lemma length_counterText (n : UInt64) : (counterText n).length ≤ 20 := by
  have hn : n.toNat < 10 ^ 20 := lt_trans n.toNat_lt (by decide)
  exact Nat.repr_length n.toNat 20 (by decide) hn

lemma length_trimEnd_le (s : List Char) : (trimEnd s).length ≤ s.length := by
  simpa using (trimEnd_isPrefix s).length_le

lemma length_clipDetail (s : List Char) : (clipDetail s).length ≤ 300 := by
  rw [clipDetail]
  split_ifs with hs
  · exact hs
  · have htrim := length_trimEnd_le (s.take 299)
    rw [List.length_take] at htrim
    rw [List.length_append, List.length_singleton]
    omega

lemma length_commentaryLine (s : List Char) : (commentaryLine s).length ≤ 302 := by
  have hclip := length_clipDetail s
  have hmark : "💬 ".toList.length ≤ 2 := by decide
  unfold commentaryLine
  rw [List.length_append]
  exact Nat.add_le_add hmark hclip

lemma length_thinkingLine (tokens : UInt64) : (thinkingLine tokens).length ≤ 42 := by
  have hcount := length_counterText tokens
  have hmark : "🧠 Thinking… (~".toList.length ≤ 14 := by decide
  have hunit : " tokens)".toList.length ≤ 8 := by decide
  unfold thinkingLine
  rw [List.length_append, List.length_append]
  exact Nat.add_le_add (Nat.add_le_add hmark hcount) hunit

lemma length_skipMarker (skip : ℕ) : (TelegramTurnStream.skipMarker skip).length ≤ 30 := by
  have hcount := length_counterText (UInt64.ofNat skip)
  have hmark : "… ".toList.length ≤ 2 := by decide
  have hword : " earlier".toList.length ≤ 8 := by decide
  unfold TelegramTurnStream.skipMarker
  rw [List.length_append, List.length_append]
  exact Nat.add_le_add (Nat.add_le_add hmark hcount) hword

lemma length_previewTail (s : TelegramTurnStream) : (joinParagraphs s.previewTail).length ≤ 346 := by
  have hcommentary : (joinParagraphs (if !s.commentary.isEmpty && !s.toolLines.isEmpty then
      [commentaryLine s.commentary] else [])).length ≤ 302 := by
    split_ifs
    · rw [joinParagraphs, List.intercalate_singleton]
      exact length_commentaryLine _
    · exact Nat.zero_le _
  have hthinking : (joinParagraphs (if s.thinkingActive && 0 < s.thinkingTokens then
      [thinkingLine s.thinkingTokens] else [])).length ≤ 42 := by
    split_ifs
    · rw [joinParagraphs, List.intercalate_singleton]
      exact length_thinkingLine _
    · exact Nat.zero_le _
  exact (Split.length_intercalate_append_le ..).trans
    (Nat.add_le_add (Nat.add_le_add_right hcommentary 2) hthinking)

/-- The marker is within what the limit leaves, and where all lines are dropped only the tail
remains. -/
lemma length_progressText (s : TelegramTurnStream) : s.progressText.length ≤ 4096 := by
  rw [TelegramTurnStream.progressText]
  set all := s.previewBody ++ s.toolLines with hall
  rw [TelegramTurnStream.skippedLines]
  cases hfind : (List.range all.length).find? fun k =>
      (joinParagraphs (all.drop k ++ s.previewTail)).length ≤ streamPreviewLimit with
  | none =>
    rw [Option.getD_none, if_neg fun h => Nat.lt_irrefl _ h.2, List.drop_length, List.nil_append]
    exact (length_previewTail s).trans (by decide)
  | some skip =>
    have hfits : (joinParagraphs (all.drop skip ++ s.previewTail)).length ≤ streamPreviewLimit := by
      simpa using List.find?_some hfind
    have hmarker : (joinParagraphs (if 0 < skip ∧ skip < all.length then
        [TelegramTurnStream.skipMarker skip] else [])).length ≤ 30 := by
      split_ifs
      · rw [joinParagraphs, List.intercalate_singleton]
        exact length_skipMarker skip
      · exact Nat.zero_le _
    rw [Option.getD_some, List.append_assoc]
    exact (Split.length_intercalate_append_le ..).trans
      ((Nat.add_le_add (Nat.add_le_add_right hmarker 2) hfits).trans (by decide))

/-- **A preview is within the limit of Telegram.** -/
theorem length_previewText (s : TelegramTurnStream) : s.previewText.length ≤ 4096 := by
  rw [TelegramTurnStream.previewText]
  split_ifs
  · exact length_progressText s
  · exact (List.length_take_le _ _).trans (by decide)

lemma length_summaryPart (emoji : String) (n : UInt64) (one many : String)
    (hemoji : emoji.toList.length ≤ 3) (hone : one.toList.length ≤ 10)
    (hmany : many.toList.length ≤ 10) :
    (" · ".toList.intercalate (TelegramTurnStream.summaryPart emoji n one many)).length ≤ 34 := by
  have hcount := length_counterText n
  have hword : (if n = 1 then one.toList else many.toList).length ≤ 10 := by
    split_ifs
    · exact hone
    · exact hmany
  rw [TelegramTurnStream.summaryPart]
  by_cases hn : 0 < n
  · rw [if_pos hn, List.intercalate_singleton, List.length_append, List.length_append,
      List.length_append, List.length_singleton]
    exact Nat.add_le_add (Nat.add_le_add_right (Nat.add_le_add hemoji hcount) 1) hword
  · rw [if_neg hn]
    exact Nat.zero_le _

lemma length_collapseSummary (s : TelegramTurnStream) (now : ℤ) :
    (s.collapseSummary now).length ≤ 4096 := by
  have hthoughts := length_summaryPart "🧠 " s.thinkingSteps "thought" "thoughts" (by decide)
    (by decide) (by decide)
  have hnotes := length_summaryPart "💬 " s.commentaryNotes "note" "notes" (by decide) (by decide)
    (by decide)
  have htools := length_summaryPart "🛠️ " s.toolCount "tool call" "tool calls" (by decide)
    (by decide) (by decide)
  have htime (elapsed : UInt64) :
      (" · ".toList.intercalate ["⏱️ ".toList ++ counterText elapsed ++ ['s']]).length ≤ 24 := by
    have hmark : "⏱️ ".toList.length ≤ 3 := by decide
    rw [List.intercalate_singleton, List.length_append, List.length_append]
    exact Nat.add_le_add_right (Nat.add_le_add hmark (length_counterText elapsed)) 1
  have hdots : " · ".toList.length ≤ 3 := by decide
  unfold TelegramTurnStream.collapseSummary
  refine ((Split.length_intercalate_append_le ..).trans (Nat.add_le_add (Nat.add_le_add
    ((Split.length_intercalate_append_le ..).trans (Nat.add_le_add (Nat.add_le_add
      ((Split.length_intercalate_append_le ..).trans
        (Nat.add_le_add (Nat.add_le_add hthoughts hdots) hnotes)) hdots) htools)) hdots)
    (htime _))).trans ?_
  decide

/-! ## Calls that claim nothing -/

/-- The stream does not claim that the answer is delivered when it has not before, and hands over no
text that is too long. -/
structure NoClaim (s t : TelegramTurnStream) : Prop where
  delivery : t.delivery = s.delivery ∨ t.delivery = .visible
  measured : Measured s.calls → Measured t.calls

namespace NoClaim

variable {s t u : TelegramTurnStream} {r : CallReplies}

lemma refl (s : TelegramTurnStream) : NoClaim s s := ⟨.inl rfl, id⟩

/-- Only the delivery and the calls count. -/
lemma congr (h : NoClaim s t) (hdelivery : u.delivery = t.delivery) (hcalls : u.calls = t.calls) :
    NoClaim s u :=
  ⟨h.delivery.imp hdelivery.trans hdelivery.trans, fun hs => hcalls ▸ h.measured hs⟩

lemma finished (h : NoClaim s t) : NoClaim s { t with finished := true } := h.congr rfl rfl

lemma record (h : NoClaim s t) (call : TelegramCall)
    (hcall : ∀ text, call.text = some text → text.length ≤ 4096) : NoClaim s (t.record call) :=
  ⟨h.delivery, fun hs => (h.measured hs).append hcall⟩

/-- What is visible is not claimed. -/
lemma seen (h : NoClaim s t) (hdelivery : u.delivery = .visible) (hcalls : u.calls = t.calls) :
    NoClaim s u :=
  ⟨.inr hdelivery, fun hs => hcalls ▸ h.measured hs⟩

lemma deletePreview (h : NoClaim s t) : NoClaim s t.deletePreview := by
  rw [TelegramTurnStream.deletePreview]
  split
  · exact (h.record (.delete _) fun text htext => absurd htext nofun).congr rfl rfl
  · exact h

lemma sendPreview {preview : List Char} (h : NoClaim s t) (hpreview : preview.length ≤ 4096) :
    NoClaim s (t.sendPreview preview r) := by
  have hrecord : NoClaim s (t.record (.send preview r.send)) :=
    h.record _ fun text htext => Option.some.inj htext ▸ hpreview
  rw [TelegramTurnStream.sendPreview]
  split
  · exact hrecord.seen rfl rfl
  · exact hrecord

lemma showPreview {preview : List Char} (h : NoClaim s t) (hpreview : preview.length ≤ 4096) :
    NoClaim s (t.showPreview preview r) := by
  rw [TelegramTurnStream.showPreview]
  split
  · rename_i msgId hid
    have hrecord : NoClaim s (t.record (.edit msgId preview r.edit)) :=
      h.record _ fun text htext => Option.some.inj htext ▸ hpreview
    split
    · exact hrecord.seen rfl rfl
    · dsimp only
      exact sendPreview (hrecord.congr rfl rfl) hpreview
  · exact h.sendPreview hpreview

lemma flushPreview (h : NoClaim s t) : NoClaim s (t.flushPreview r) := by
  rw [TelegramTurnStream.flushPreview]
  split_ifs
  · exact h
  · exact (h.showPreview (length_previewText t)).congr rfl rfl

lemma flushIfDue (h : NoClaim s t) : NoClaim s (t.flushIfDue r) := by
  rw [TelegramTurnStream.flushIfDue]
  split_ifs
  · exact h.flushPreview
  · exact h

lemma collapseToSummary (h : NoClaim s t) : NoClaim s (t.collapseToSummary r) := by
  rw [TelegramTurnStream.collapseToSummary]
  split
  · rename_i msgId hid
    have hrecord : NoClaim s (t.record (.edit msgId (t.collapseSummary r.now) r.edit)) :=
      h.record _ fun text htext => Option.some.inj htext ▸ length_collapseSummary t r.now
    split
    · exact hrecord
    · exact hrecord.deletePreview
  · exact h.deletePreview

lemma flushCompletedThinking (h : NoClaim s t) : NoClaim s t.flushCompletedThinking := by
  unfold TelegramTurnStream.flushCompletedThinking
  split
  · exact h.congr rfl rfl
  · exact h

lemma flushCommentary (h : NoClaim s t) : NoClaim s t.flushCommentary := by
  unfold TelegramTurnStream.flushCommentary
  split
  · exact h
  · exact h.congr rfl rfl

lemma doneNote (h : NoClaim s t) (text : List Char) : NoClaim s (t.doneNote text).2 := by
  unfold TelegramTurnStream.doneNote
  split
  · exact h
  · exact h.congr rfl rfl

lemma deferDone {text : List Char} (h : NoClaim s t) : NoClaim s (t.deferDone text r) := by
  have hnote := h.doneNote text
  unfold TelegramTurnStream.deferDone
  generalize t.doneNote text = noted at hnote ⊢
  obtain ⟨note, u⟩ := noted
  dsimp only at hnote ⊢
  split
  · exact finished hnote.flushPreview
  · exact finished (flushPreview (hnote.congr rfl rfl))

/-- **In progress mode nothing is claimed.** -/
lemma pushProgress (h : NoClaim s t) (event : TurnEvent) : NoClaim s (t.pushProgress r event) := by
  cases event with
  | chunk delta =>
    unfold TelegramTurnStream.pushProgress
    dsimp only
    exact flushIfDue (h.flushCompletedThinking.congr rfl rfl)
  | thinking delta =>
    unfold TelegramTurnStream.pushProgress
    dsimp only
    split
    · exact flushIfDue (h.congr rfl rfl)
    · exact flushIfDue (h.flushCommentary.congr rfl rfl)
  | toolCall name args =>
    unfold TelegramTurnStream.pushProgress
    dsimp only
    exact flushIfDue (h.flushCompletedThinking.flushCommentary.congr rfl rfl)
  | toolResult name isError =>
    unfold TelegramTurnStream.pushProgress
    dsimp only
    split
    · exact h.congr rfl rfl
    · exact h
  | done text =>
    unfold TelegramTurnStream.pushProgress
    dsimp only
    split
    · exact deferDone (h.congr rfl rfl)
    · split
      · exact finished (collapseToSummary (h.congr rfl rfl))
      · exact finished (collapseToSummary (h.congr rfl rfl))
  | cancelled partialText => exact finished h.deletePreview
  | emptyResponse => exact finished h.deletePreview
  | error => exact finished h.deletePreview

end NoClaim

/-! ## What a flush shows -/

section Flush

variable {s : TelegramTurnStream} {r : CallReplies} {preview : List Char}

/-- Telegram takes a text: the edit of the message there is, or a new message where there is none or the
edit is an error. -/
def TelegramTurnStream.takes (s : TelegramTurnStream) (r : CallReplies) : Bool :=
  match s.msgId with
  | some _ => r.edit.shows || (r.edit = .failed && r.send.shows)
  | none => r.send.shows

lemma lastShown_sendPreview : lastShown (s.sendPreview preview r).calls =
    if r.send.shows then some preview else lastShown s.calls := by
  have hrecord : lastShown (s.record (.send preview r.send)).calls =
      if r.send.shows then some preview else lastShown s.calls := by
    refine lastShown_append.trans ?_
    rw [TelegramCall.shown]
    split_ifs
    · rfl
    · rfl
  rw [TelegramTurnStream.sendPreview]
  split
  · exact hrecord
  · exact hrecord

lemma lastShown_showPreview : lastShown (s.showPreview preview r).calls =
    if s.takes r then some preview else lastShown s.calls := by
  rw [TelegramTurnStream.showPreview, TelegramTurnStream.takes]
  cases s.msgId with
  | none => exact lastShown_sendPreview
  | some msgId =>
    dsimp only
    cases hedit : r.edit with
    | edited => exact lastShown_append
    | unchanged => exact lastShown_append
    | refused => exact lastShown_append
    | failed =>
      refine lastShown_sendPreview.trans ?_
      rw [show lastShown (s.record (.edit msgId preview .failed)).calls = lastShown s.calls from
        lastShown_append]
      rfl

/-- **What a flush shows.** -/
lemma lastShown_flushPreview : lastShown (s.flushPreview r).calls =
    if s.previewText ≠ [] ∧ s.takes r = true then some s.previewText else lastShown s.calls := by
  rw [TelegramTurnStream.flushPreview]
  by_cases hempty : s.previewText = []
  · rw [if_pos (List.isEmpty_iff.2 hempty), if_neg fun h => h.1 hempty]
  · rw [if_neg fun h => hempty (List.isEmpty_iff.1 h)]
    refine lastShown_showPreview.trans ?_
    by_cases htakes : s.takes r = true
    · rw [if_pos htakes, if_pos ⟨hempty, htakes⟩]
    · rw [if_neg htakes, if_neg fun h => htakes h.2]

lemma sendPreview_answer : (s.sendPreview preview r).answer = s.answer := by
  rw [TelegramTurnStream.sendPreview]
  split
  · rfl
  · rfl

lemma sendPreview_finished : (s.sendPreview preview r).finished = s.finished := by
  rw [TelegramTurnStream.sendPreview]
  split
  · rfl
  · rfl

/-- A flush keeps the answer, and whether the turn has ended. -/
lemma flushPreview_kept : (s.flushPreview r).answer = s.answer ∧
    (s.flushPreview r).finished = s.finished := by
  rw [TelegramTurnStream.flushPreview]
  split_ifs
  · exact ⟨rfl, rfl⟩
  · dsimp only
    rw [TelegramTurnStream.showPreview]
    split
    · split
      · exact ⟨rfl, rfl⟩
      · exact ⟨sendPreview_answer, sendPreview_finished⟩
    · exact ⟨sendPreview_answer, sendPreview_finished⟩

end Flush

/-! ## What a stream reports as delivered -/

/-- The answer that the call reports as delivered, with the replies it meets. -/
def claimedAnswer (s : TelegramTurnStream) : StreamOp → Option (List Char × CallReplies)
  | .push (.done text) r =>
    if !s.finished && !s.isProgress && !s.deferCollapse && text.length ≤ streamPreviewLimit then
      some (text, r)
    else none
  | _ => none

/-- What the call reports as delivered is a text, and Telegram takes it; or it was shown last. -/
def AnswerShown (s : TelegramTurnStream) (op : StreamOp) : Prop :=
  ∀ text r, claimedAnswer s op = some (text, r) →
    (text ≠ [] ∧ s.takes r = true) ∨ lastShown s.calls = some text

/-- A stream that reports `FinalDelivered` has shown the text of `Done` last. -/
def ClaimsShown (s : TelegramTurnStream) : Prop :=
  s.delivery = .finalDelivered → ∃ text, s.answer = some text ∧ lastShown s.calls = some text

/-- What a stream promises to its caller. -/
structure Truthful (s : TelegramTurnStream) : Prop where
  claimed : ClaimsShown s
  measured : Measured s.calls

/-- What every call of the stream keeps. -/
structure StreamInv (s : TelegramTurnStream) : Prop where
  finished : s.delivery = .finalDelivered → s.finished = true
  measured : Measured s.calls

variable {s : TelegramTurnStream}

lemma NoClaim.claimsShown {t : TelegramTurnStream} (h : NoClaim s t)
    (hs : s.delivery ≠ .finalDelivered) :
    ClaimsShown t := by
  intro ht
  rcases h.delivery with hdelivery | hdelivery
  · exact absurd (hdelivery.symm.trans ht) hs
  · exact absurd (hdelivery.symm.trans ht) nofun

/-- **A call that reports no answer claims nothing.** -/
lemma noClaim_streamStep {op : StreamOp} (h : claimedAnswer s op = none) :
    NoClaim s (streamStep s op) := by
  cases op with
  | deferCollapse => exact (NoClaim.refl s).congr rfl rfl
  | finalTakeover => exact (NoClaim.refl s).congr rfl rfl
  | push event r =>
    rw [streamStep, TelegramTurnStream.push]
    split_ifs with hfinished hprogress
    · exact NoClaim.refl s
    · exact (NoClaim.refl s).pushProgress event
    · cases event with
      | done text =>
        rw [TelegramTurnStream.pushPartial]
        dsimp only
        split_ifs with hdefer hlong
        · exact NoClaim.flushPreview ((NoClaim.refl s).congr rfl rfl)
        · exact NoClaim.deletePreview ((NoClaim.refl s).congr rfl rfl)
        · rw [claimedAnswer, if_pos (by simp_all)] at h
          exact absurd h nofun
      | chunk delta => exact NoClaim.flushIfDue ((NoClaim.refl s).congr rfl rfl)
      | cancelled partialText => exact NoClaim.flushPreview ((NoClaim.refl s).congr rfl rfl)
      | error => exact (NoClaim.refl s).finished
      | emptyResponse => exact (NoClaim.refl s).finished
      | thinking delta => exact NoClaim.refl s
      | toolCall name args => exact NoClaim.refl s
      | toolResult name isError => exact NoClaim.refl s

/-- What the stream is before the last flush of an answer. -/
def TelegramTurnStream.answered (s : TelegramTurnStream) (text : List Char) : TelegramTurnStream :=
  { s with answer := some text, accumulated := text, finished := true }

lemma streamStep_of_claimed {op : StreamOp} {text : List Char} {r : CallReplies}
    (h : claimedAnswer s op = some (text, r)) :
    streamStep s op = { (s.answered text).flushPreview r with delivery := .finalDelivered } ∧
      (s.answered text).previewText = text := by
  unfold claimedAnswer at h
  split at h
  · rename_i text' r'
    split_ifs at h with hclaim
    obtain ⟨rfl, rfl⟩ := Prod.mk.inj (Option.some.inj h)
    simp only [Bool.and_eq_true, Bool.not_eq_true', decide_eq_true_eq] at hclaim
    obtain ⟨⟨⟨hfinished, hprogress⟩, hdefer⟩, hlength⟩ := hclaim
    constructor
    · rw [streamStep, TelegramTurnStream.push, hfinished, hprogress, if_neg Bool.false_ne_true,
        if_neg Bool.false_ne_true, TelegramTurnStream.pushPartial]
      dsimp only
      rw [if_neg (Bool.eq_false_iff.1 hdefer), if_neg (Nat.not_lt.2 hlength)]
      rfl
    · have hmode : (s.answered text').isProgress = false := hprogress
      rw [TelegramTurnStream.previewText, hmode, if_neg Bool.false_ne_true]
      exact List.take_of_length_le hlength
  · exact absurd h nofun

namespace StreamInv

lemma newStream (now : ℤ) (nowUnix : ℕ) (mode : StreamMode) (fold : Option FoldCandidate) :
    StreamInv (.newStream now nowUnix mode fold) :=
  ⟨nofun, nofun⟩

/-- A stream that has ended stays as it is. -/
lemma streamStep_finished (h : s.finished = true) (op : StreamOp) :
    (streamStep s op).finished = true ∧ (streamStep s op).delivery = s.delivery ∧
      (streamStep s op).calls = s.calls ∧ (streamStep s op).answer = s.answer := by
  cases op with
  | push event r =>
    rw [streamStep, TelegramTurnStream.push, if_pos h]
    exact ⟨h, rfl, rfl, rfl⟩
  | deferCollapse => exact ⟨h, rfl, rfl, rfl⟩
  | finalTakeover => exact ⟨h, rfl, rfl, rfl⟩

/-- **Every call keeps the invariant.** -/
theorem step (h : StreamInv s) (op : StreamOp) : StreamInv (streamStep s op) := by
  cases hclaim : claimedAnswer s op with
  | none =>
    have hnone := noClaim_streamStep hclaim
    refine ⟨fun hfinal => ?_, hnone.measured h.measured⟩
    rcases hnone.delivery with hdelivery | hdelivery
    · exact (streamStep_finished (h.finished (hdelivery.symm.trans hfinal)) op).1
    · exact absurd (hdelivery.symm.trans hfinal) nofun
  | some answer =>
    obtain ⟨text, r⟩ := answer
    have hnone : NoClaim s ((s.answered text).flushPreview r) :=
      NoClaim.flushPreview ((NoClaim.refl s).congr rfl rfl)
    rw [(streamStep_of_claimed hclaim).1]
    exact ⟨fun _ => flushPreview_kept.2, hnone.measured h.measured⟩

/-- A call keeps the claims true if it shows the answer that it reports, and only then. -/
lemma claimsShown_step (h : StreamInv s) (hs : ClaimsShown s) (op : StreamOp) :
    ClaimsShown (streamStep s op) ↔ AnswerShown s op := by
  cases hclaim : claimedAnswer s op with
  | none =>
    refine iff_of_true ?_ fun text r heq => absurd (hclaim.symm.trans heq) nofun
    by_cases hfinished : s.finished = true
    · obtain ⟨-, hdelivery, hcalls, hanswer⟩ := streamStep_finished hfinished op
      intro hfinal
      rw [hcalls, hanswer]
      exact hs (hdelivery.symm.trans hfinal)
    · exact (noClaim_streamStep hclaim).claimsShown fun hfinal => hfinished (h.finished hfinal)
  | some answer =>
    obtain ⟨text, r⟩ := answer
    obtain ⟨hstep, hpreview⟩ := streamStep_of_claimed hclaim
    have hanswer : ((s.answered text).flushPreview r).answer = some text := flushPreview_kept.1
    have hshown : lastShown ((s.answered text).flushPreview r).calls =
        if text ≠ [] ∧ s.takes r = true then some text else lastShown s.calls := by
      rw [lastShown_flushPreview, hpreview]
      rfl
    have hcond : AnswerShown s op ↔
        (text ≠ [] ∧ s.takes r = true) ∨ lastShown s.calls = some text := by
      refine ⟨fun hop => hop text r hclaim, fun hop text' r' heq => ?_⟩
      obtain ⟨rfl, rfl⟩ := Prod.mk.inj (Option.some.inj (hclaim.symm.trans heq))
      exact hop
    rw [hcond, hstep]
    constructor
    · intro hclaims
      obtain ⟨text', htext', hlast⟩ := hclaims rfl
      obtain rfl : text = text' := Option.some.inj (hanswer.symm.trans htext')
      rw [hshown] at hlast
      split_ifs at hlast with htaken
      · exact .inl htaken
      · exact .inr hlast
    · intro htaken _
      refine ⟨text, hanswer, hshown.trans ?_⟩
      split_ifs with hnow
      · rfl
      · exact htaken.resolve_left hnow

/-- A claim that is false stays false. -/
lemma claimsShown_of_step (h : StreamInv s) {op : StreamOp} (hs : ClaimsShown (streamStep s op)) :
    ClaimsShown s := by
  intro hfinal
  obtain ⟨-, hdelivery, hcalls, hanswer⟩ := streamStep_finished (h.finished hfinal) op
  rw [← hcalls, ← hanswer]
  exact hs (hdelivery.trans hfinal)

/-- The end of a stream claims nothing more. -/
lemma truthful_finish (h : StreamInv s) (r : CallReplies) :
    Truthful (s.finish r) ↔ ClaimsShown s := by
  rw [TelegramTurnStream.finish]
  split_ifs with hflush
  · have hrunning : s.finished = false := by
      simp only [Bool.and_eq_true, Bool.not_eq_true'] at hflush
      exact hflush.1
    have hnone : NoClaim s (s.flushPreview r) := (NoClaim.refl s).flushPreview
    have hfinal : s.delivery ≠ .finalDelivered := fun hfinal =>
      absurd ((h.finished hfinal).symm.trans hrunning) (Ne.symm Bool.false_ne_true)
    exact iff_of_true ⟨hnone.claimsShown hfinal, hnone.measured h.measured⟩
      fun hdelivery => absurd hdelivery hfinal
  · exact ⟨Truthful.claimed, fun hs => ⟨hs, h.measured⟩⟩

end StreamInv

/-- **A stream is truthful exactly when Telegram takes the answers it reports**: for every mode, every
message that is taken over and every run of calls, whatever Telegram replies. -/
theorem truthful_iff (now : ℤ) (nowUnix : ℕ) (mode : StreamMode) (fold : Option FoldCandidate)
    (ops : List StreamOp) (r : CallReplies) :
    Truthful ((Run.exec streamStep (.newStream now nowUnix mode fold) ops).finish r) ↔
      Run.EachStep streamStep AnswerShown (.newStream now nowUnix mode fold) ops := by
  have hnew := StreamInv.newStream now nowUnix mode fold
  have hend : StreamInv (Run.exec streamStep (.newStream now nowUnix mode fold) ops) :=
    Run.exec_of_step (fun _ op h => h.step op) hnew ops
  rw [hend.truthful_finish,
    ← Run.always_iff_last (fun _ op h => StreamInv.step h op) (fun _ _ h => h.claimsShown_of_step) hnew]
  exact Run.always_iff_eachStep (fun _ op h => h.step op) (fun _ op h hs => h.claimsShown_step hs op)
    hnew nofun

/-- Telegram cannot be reached. -/
def unreachable : CallReplies := ⟨0, 0, .failed, .failed⟩

/-- **An answer that was never sent is reported as delivered.** -/
theorem not_truthful_unreachable :
    ¬∀ (now : ℤ) (nowUnix : ℕ) (mode : StreamMode) (fold : Option FoldCandidate)
      (ops : List StreamOp) (r : CallReplies),
      Truthful ((Run.exec streamStep (.newStream now nowUnix mode fold) ops).finish r) := by
  intro h
  obtain ⟨text, -, hlast⟩ :=
    (h 0 0 .partialText none [.push (.done ['h', 'i']) unreachable] unreachable).claimed rfl
  exact absurd hlast nofun

end MyClaw
