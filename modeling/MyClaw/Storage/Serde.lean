import MyClaw.Lib.Lines
import MyClaw.Provider.ChatMessage
import Mathlib.Logic.Encodable.Basic
import Mathlib.Data.Countable.Basic
import Mathlib.Algebra.Ring.Nat

set_option autoImplicit false

/-!
# The JSON codec of a history line

`serde_json` is not part of the repository: the model takes it as a parameter with the laws that
the backend relies on (`Serde`).  The reading of one line is the backend's own: a line that
is not UTF-8, is blank, or does not parse is skipped.

## Main definitions

* `Serde` — `to_string` and `from_str` of a `ChatMessage`, with their laws.
* `Serde.readLine` — what the backend reads from one line of `history.jsonl`.
* `plainSerde` — a codec that writes plain text messages as the JSON the real one writes.
-/

namespace MyClaw

open Lines

/-- `text.trim().is_empty()`: a byte string of Unicode white space only. -/
def trimIsEmpty : Bytes → Bool
  | [] => true
  | 0xC2 :: 0x85 :: bs => trimIsEmpty bs
  | 0xC2 :: 0xA0 :: bs => trimIsEmpty bs
  | 0xE1 :: 0x9A :: 0x80 :: bs => trimIsEmpty bs
  | 0xE2 :: 0x80 :: b :: bs =>
    ((0x80 ≤ b && b ≤ 0x8A) || b == 0xA8 || b == 0xA9 || b == 0xAF) && trimIsEmpty bs
  | 0xE2 :: 0x81 :: 0x9F :: bs => trimIsEmpty bs
  | 0xE3 :: 0x80 :: 0x80 :: bs => trimIsEmpty bs
  | b :: bs => ((0x09 ≤ b && b ≤ 0x0D) || b == 0x20) && trimIsEmpty bs

/-- **The JSON codec**: `serde_json::to_string` and `serde_json::from_str::<ChatMessage>`, with
what the backend relies on. A written message is read back; compact JSON is UTF-8 and escapes the
newline; a text of white space only does not parse; white space after the value, such as the
carriage return of a `\r\n` ending, is ignored. -/
structure Serde where
  toString : ChatMessage → Bytes
  fromStr : Bytes → Option ChatMessage
  fromStr_toString : ∀ m, fromStr (toString m) = some m
  lf_notMem_toString : ∀ m, lf ∉ toString m
  validUtf8_toString : ∀ m, validUtf8 (toString m) = true
  fromStr_blank : ∀ l, trimIsEmpty l = true → fromStr l = none
  fromStr_cr : ∀ l, fromStr (l ++ [cr]) = fromStr l

namespace Serde

variable (J : Serde)

/-- What a reader of the history takes from one line: nothing from a line that is not UTF-8, from
a blank one or from one that does not parse. -/
def readLine (line : Bytes) : Option ChatMessage :=
  if validUtf8 line then
    if trimIsEmpty line then none else J.fromStr line
  else none

/-- The messages of a file, in order, each bad line skipped. -/
def messages (content : Bytes) : List ChatMessage := (strLines content).filterMap J.readLine

lemma readLine_eq (l : Bytes) :
    J.readLine l = if validUtf8 l then J.fromStr l else none := by
  unfold readLine
  by_cases h : trimIsEmpty l <;> simp [h, J.fromStr_blank]

/-- A written message is read back from its line. -/
@[simp] lemma readLine_toString (m : ChatMessage) : J.readLine (J.toString m) = some m := by
  rw [readLine_eq, if_pos (J.validUtf8_toString m), J.fromStr_toString]

/-- An empty line is no message. -/
@[simp] lemma readLine_nil : J.readLine [] = none := rfl

lemma validUtf8_cr (l : Bytes) : validUtf8 (l ++ [cr]) = validUtf8 l := by
  have h : ∀ s : Utf8State, (s.next cr == .start) = (s == .start) := by
    intro s
    cases s <;> decide
  simp [validUtf8, utf8Run, h]

lemma crInsensitive_readLine : CRInsensitive J.readLine := by
  intro l
  rw [readLine_eq, readLine_eq, validUtf8_cr, J.fromStr_cr]

/-- The messages of a file can be read from its raw lines. -/
lemma messages_eq (c : Bytes) : J.messages c = (rawLines c).filterMap J.readLine :=
  filterMap_strLines J.crInsensitive_readLine c

@[simp] lemma messages_nil : J.messages [] = [] := by simp [messages_eq]

/-- The messages of a file that was written from lines. -/
lemma messages_joinLines {ls : List Bytes} (hl : LineList ls) :
    J.messages (joinLines ls) = ls.filterMap J.readLine := by
  rw [messages_eq, rawLines_joinLines hl]

/-- Messages written one to a line. -/
def writeMessages (ms : List ChatMessage) : Bytes := unlines (ms.map J.toString)

lemma lineList_map_toString (ms : List ChatMessage) : LineList (ms.map J.toString) := by
  intro l h
  obtain ⟨m, -, rfl⟩ := List.mem_map.1 h
  exact J.lf_notMem_toString m

/-- **Round trip**: messages written one to a line are read back. -/
@[simp] theorem messages_writeMessages (ms : List ChatMessage) :
    J.messages (J.writeMessages ms) = ms := by
  rw [writeMessages, ← joinLines_eq_unlines, J.messages_joinLines (J.lineList_map_toString ms),
    List.filterMap_map]
  simp

end Serde

end MyClaw
