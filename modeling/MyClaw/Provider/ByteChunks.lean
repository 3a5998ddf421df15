import MyClaw.Lib.Resume
import MyClaw.Provider.StreamClients

set_option autoImplicit false

/-!
# The chunks of a body

The bytes of a body come in chunks as the network cuts them, inside of a character, of an invalid
sequence or of a line.  `Utf8StreamDecoder` (`providers/infra.rs`) keeps the octets that wait for
more, and the line loop of the clients the text after the last newline.

## Main definitions

* `utf8Decode` — the text of some octets, and those that wait for more.
* `chunkedBody` — a body in chunks.

## Main results

* `resumable_utf8Decode` — the decoder may be resumed.
* `received_chunkedBody` — the lines are those of all the octets.
* `received_eq_of_flatten_eq` — lines and events do not depend on the chunks.
-/

namespace MyClaw

open Resume

/-! ## The decoder -/

/-- The text of some octets, and those that wait for more. -/
def utf8Decode (l : List UInt8) : List Char × List UInt8 := utf8PushUpTo l.length l

lemma utf8Push_eq (buf bytes : List UInt8) : utf8Push buf bytes = utf8Decode (buf ++ bytes) := rfl

lemma utf8PushUpTo_cons (n : ℕ) (b : UInt8) (l : List UInt8) : utf8PushUpTo (n + 1) (b :: l) =
    if (Utf8.chunk b l).2.2 then
      (charOf (Utf8.chunk b l).1 :: (utf8PushUpTo n (Utf8.chunk b l).2.1).1,
        (utf8PushUpTo n (Utf8.chunk b l).2.1).2)
    else if (Utf8.chunk b l).2.1 = [] ∧ (Utf8.tailRanges b).isSome then ([], b :: l)
    else utf8PushUpTo n (Utf8.chunk b l).2.1 := rfl

/-- Fuel beyond the number of octets does not matter. -/
lemma utf8PushUpTo_congr {n m : ℕ} {l : List UInt8} (hn : l.length ≤ n) (hm : l.length ≤ m) :
    utf8PushUpTo n l = utf8PushUpTo m l := by
  induction n generalizing m l with
  | zero =>
    obtain rfl := List.eq_nil_of_length_eq_zero (Nat.le_zero.1 hn)
    cases m <;> rfl
  | succ n ih =>
    cases l with
    | nil => cases m <;> rfl
    | cons b l =>
      obtain ⟨m, rfl⟩ : ∃ k, m = k + 1 := ⟨m - 1, by rw [List.length_cons] at hm; omega⟩
      have hrest := Utf8.chunk_length b l
      rw [List.length_cons] at hn hm
      have hsame : utf8PushUpTo n (Utf8.chunk b l).2.1 = utf8PushUpTo m (Utf8.chunk b l).2.1 :=
        ih (by omega) (by omega)
      rw [utf8PushUpTo_cons, utf8PushUpTo_cons, hsame]

/-- The octets are decoded one sequence after the other. -/
lemma utf8Decode_cons (b : UInt8) (l : List UInt8) : utf8Decode (b :: l) =
    if (Utf8.chunk b l).2.2 then
      (charOf (Utf8.chunk b l).1 :: (utf8Decode (Utf8.chunk b l).2.1).1,
        (utf8Decode (Utf8.chunk b l).2.1).2)
    else if (Utf8.chunk b l).2.1 = [] ∧ (Utf8.tailRanges b).isSome then ([], b :: l)
    else utf8Decode (Utf8.chunk b l).2.1 := by
  have hfuel : utf8PushUpTo l.length (Utf8.chunk b l).2.1 = utf8Decode (Utf8.chunk b l).2.1 :=
    utf8PushUpTo_congr (Utf8.chunk_length b l) le_rfl
  rw [utf8Decode, List.length_cons, utf8PushUpTo_cons, hfuel]

/-- **The decoder may be resumed**.

**Proof sketch.** Induction on the number of octets: the first sequence is decoded alike, or waits for
more. -/
theorem resumable_utf8Decode : Resume.Resumable utf8Decode := by
  intro x y
  induction hlength : x.length using Nat.strongRecOn generalizing x with
  | _ n ih =>
    cases x with
    | nil => rfl
    | cons b l =>
      have hrest : (Utf8.chunk b l).2.1.length < n := by
        have := Utf8.chunk_length b l
        rw [List.length_cons] at hlength
        omega
      have ih := ih _ hrest (Utf8.chunk b l).2.1 rfl
      rw [List.cons_append, utf8Decode_cons, utf8Decode_cons]
      by_cases hwhole : (Utf8.chunk b l).2.2 = true
      · rw [Utf8.chunk_append_right b l y (.inl hwhole), if_pos hwhole, if_pos hwhole, ih]
        rfl
      · by_cases hwaits : (Utf8.chunk b l).2.1 = [] ∧ (Utf8.tailRanges b).isSome = true
        · rw [if_neg hwhole, if_pos hwaits, List.nil_append, List.cons_append, ← utf8Decode_cons]
        · have hskipped : (Utf8.chunk b l).2.1 ≠ [] ∨ Utf8.tailRanges b = none := by
            rcases not_and_or.1 hwaits with hne | hnone
            · exact .inl hne
            · exact .inr (Option.not_isSome_iff_eq_none.1 hnone)
          have hskipped' : ¬((Utf8.chunk b l).2.1 ++ y = [] ∧ (Utf8.tailRanges b).isSome = true) :=
            fun h => hwaits ⟨(List.append_eq_nil_iff.1 h.1).1, h.2⟩
          rw [Utf8.chunk_append_right b l y (.inr hskipped), if_neg hwhole, if_neg hwhole,
            if_neg hwaits, if_neg hskipped', ih]

/-! ## The lines -/

lemma resumable_cutLines : Resume.Resumable Chars.cutLines := Chars.cutLines_append

/-- A body in chunks, and the error that ends it, if there is one. -/
def chunkedBody (chunks : List (List UInt8)) (broken : Option String) : List BodyItem :=
  chunks.map .ok ++ (broken.map .error).toList

/-- The loop over chunks is two readers in a row. -/
lemma receivedFrom_chunkedBody (buf : List UInt8) (buffer : List Char) (chunks : List (List UInt8))
    (broken : Option String) : receivedFrom buf buffer (chunkedBody chunks broken) =
      ((feedTwo utf8Decode Chars.cutLines buf buffer chunks).1, broken) := by
  induction chunks generalizing buf buffer with
  | nil => cases broken <;> rfl
  | cons chunk chunks ih =>
    have hbody : chunkedBody (chunk :: chunks) broken = .ok chunk :: chunkedBody chunks broken := rfl
    rw [hbody, receivedFrom, feedTwo, utf8Push_eq]
    dsimp only
    rw [ih]

/-- **The lines that are received** are those of all the octets. -/
theorem received_chunkedBody (chunks : List (List UInt8)) (broken : Option String) :
    received (chunkedBody chunks broken) =
      ((Chars.cutLines (utf8Decode chunks.flatten).1).1, broken) := by
  rw [received, receivedFrom_chunkedBody,
    resumable_utf8Decode.feedTwo_eq resumable_cutLines [] [] rfl rfl]
  rfl

/-- **Lines and events do not depend on the chunks** in which a body comes. -/
theorem received_eq_of_flatten_eq (chunks chunks' : List (List UInt8)) (broken : Option String)
    (h : chunks.flatten = chunks'.flatten) :
    received (chunkedBody chunks broken) = received (chunkedBody chunks' broken) ∧
      ∀ (env : StreamEnv) (p : ChatProtocol),
        p.streamEvents env (chunkedBody chunks broken) =
          p.streamEvents env (chunkedBody chunks' broken) := by
  have hreceived : received (chunkedBody chunks broken) = received (chunkedBody chunks' broken) := by
    rw [received_chunkedBody, received_chunkedBody, h]
  refine ⟨hreceived, fun env p => ?_⟩
  rw [ChatProtocol.streamEvents_eq, ChatProtocol.streamEvents_eq, hreceived]

/-- A character of three octets, and the newline behind it, cut in two ways. -/
theorem received_eq_of_flatten_eq_cuts :
    received (chunkedBody [[0xE4], [0xB8, 0xAD, 0x0A]] none) =
        received (chunkedBody [[0xE4, 0xB8], [0xAD], [0x0A]] none) ∧
      ∀ (env : StreamEnv) (p : ChatProtocol),
        p.streamEvents env (chunkedBody [[0xE4], [0xB8, 0xAD, 0x0A]] none) =
          p.streamEvents env (chunkedBody [[0xE4, 0xB8], [0xAD], [0x0A]] none) :=
  received_eq_of_flatten_eq _ _ none rfl

end MyClaw
