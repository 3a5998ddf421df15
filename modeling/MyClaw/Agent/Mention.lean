import MyClaw.Lib.Holes
import MyClaw.Lib.Chars
import MyClaw.Identity.UserRegistry
import MyClaw.Provider.ChatStream
import MyClaw.Compaction.WorkUnits

set_option autoImplicit false

/-!
# Mentions in a streamed answer

An answer of the model names a user by a tag with the id, which is shown as the username
(`agents/mention.rs`).  `render_refs` renders a text; `RefRenderer` renders a text that comes in deltas,
and holds back an open tag at the end of what it has.  `collect_stream`
(`agents/agent/stream_collect.rs`) shows the deltas through the one and returns its text through the
other.

## Main definitions

* `Mentions.nameFor`, `renderRefs` — the name for an id, and the rendering of a text.
* `splitPending`, `push`, `streamed` — the rendering of deltas.
* `collectDisplayed` — the loop of `collect_stream` with a registry.
* `refPieces` — the text with its rendered tags as holes.
* `SameTags`, `EndsInOpenTag` — the tags of the text are those of its pieces, and the text
  ends in a tag that is held back.

## Main results

* `renderRefs_append` — a text without a closing angle bracket at the end stays as it is.
* `streamed_eq_iff` — when the rendering of deltas is the one of their text.
* `collectDisplayed_text_iff` — when the returned text is.

## Implementation notes

A text is a list of characters.  The thinking that is shown and the timeouts of the loop are left out.
-/

namespace MyClaw

open Holes

/-! ## The rendering of a text -/

/-- The text that a tag starts with. -/
def refOpen : List Char := "<ref id=\"".toList

/-- The text that a tag ends with, after the quote. -/
def refClose : List Char := "/>".toList

/-- A tag. -/
def refTag (id : List Char) : List Char := refOpen ++ (id ++ '"' :: refClose)

/-- The registry of the users of an instance. -/
structure Mentions where
  ns : List Char
  registry : UserRegistry

namespace Mentions

/-- What the ids of the users start with. -/
def userPrefix (m : Mentions) : List Char := m.ns ++ "/u/".toList

/-- `uid_of`: an id with the prefix twice is the one after the first. -/
def uidOf (m : Mentions) (id : List Char) : Option (List Char) :=
  (Chars.stripPrefix m.userPrefix id).map fun rest => if m.userPrefix <+: rest then rest else id

/-- `username_of`. -/
def usernameOf (m : Mentions) (id : List Char) : Option (List Char) :=
  ((m.uidOf id).bind fun uid => m.registry.users (String.ofList uid)).bind fun user =>
    user.usernameField.map String.toList

/-- The username for an id of this instance. -/
def nameFor (m : Mentions) (id : List Char) : Option (List Char) :=
  if m.userPrefix <+: id then m.usernameOf id else none

end Mentions

variable (m : Mentions)

/-- `render_one_ref`. -/
def renderOneRef (id : List Char) : List Char :=
  if ¬ m.userPrefix <+: id then refTag id
  else
    match m.usernameOf id with
    | some username => '@' :: username
    | none => refTag id

/-- `render_refs`: from the first tag that is broken on, the text stays as it is. -/
def renderRefs (rest : List Char) : List Char :=
  match _hopen : findText refOpen rest with
  | none => rest
  | some o =>
    let after := rest.drop (o + refOpen.length)
    match findText ['"'] after with
    | none => rest.take o ++ rest.drop o
    | some closeQuote =>
      let id := after.take closeQuote
      let tail := after.drop (closeQuote + 1)
      if refClose <+: tail then
        rest.take o ++ (renderOneRef m id ++ renderRefs (tail.drop refClose.length))
      else rest.take o ++ rest.drop o
termination_by rest.length
decreasing_by
  have hle := (findText_spec _hopen).1.length_le
  have hpos : 0 < refOpen.length := by decide
  simp only [List.length_drop] at hle ⊢
  omega

/-! ## The rendering of deltas -/

/-- The characters that a tag must start with to be held back. -/
def refStart : List Char := "<ref".toList

/-- The text before an open tag at the end, and the open tag. -/
def splitPending (buffer : List Char) : List Char × List Char :=
  match rposition (· = '<') buffer with
  | some lt =>
    let tail := buffer.drop lt
    if '>' ∉ tail ∧ refStart <+: tail then (buffer.take lt, tail) else (buffer, [])
  | none => (buffer, [])

/-- `RefRenderer::push`: what is shown, and what is held back. -/
def push (pending delta : List Char) : List Char × List Char :=
  let (head, tail) := splitPending (pending ++ delta)
  (renderRefs m head, tail)

/-- What is shown for a list of deltas, and what is held back at the end. -/
def pushAll : List Char → List (List Char) → List Char × List Char
  | pending, [] => ([], pending)
  | pending, delta :: deltas =>
    let r := push m pending delta
    let rest := pushAll r.2 deltas
    (r.1 ++ rest.1, rest.2)

/-- What is shown for a list of deltas with a flush at the end. -/
def streamed (deltas : List (List Char)) : List Char :=
  let r := pushAll m [] deltas
  r.1 ++ r.2

/-- What the loop of `collect_stream` has collected, holds back, and has shown. -/
structure Displayed where
  collected : Collected := {}
  pending : List Char := []
  chunks : List (List Char) := []

/-- What the loop does with an event that does not end it. -/
def Displayed.absorb (m? : Option Mentions) (s : Displayed) (e : StreamEvent) : Displayed :=
  match e with
  | .delta text =>
    match m? with
    | some m =>
      let r := push m s.pending text.toList
      { collected := s.collected.absorb e, pending := r.2, chunks := s.chunks ++ [r.1] }
    | none => { s with collected := s.collected.absorb e, chunks := s.chunks ++ [text.toList] }
  | _ => { s with collected := s.collected.absorb e }

/-- The loop of `collect_stream`. -/
def displayLoop (m? : Option Mentions) (s : Displayed) :
    List StreamEvent → Except CollectError (Displayed × StopReason)
  | [] => .error .truncated
  | .done reason :: _ => .ok (s, reason)
  | .error message :: _ => .error (.stream message)
  | .httpError status message :: _ => .error (.http status message)
  | e :: es => displayLoop m? (s.absorb m? e) es

/-- The response after the loop: the text is rendered with what is held back after it. -/
def Displayed.response (m? : Option Mentions) (s : Displayed) : Collected :=
  match m? with
  | some m =>
    { s.collected with
      text := String.ofList (renderRefs m (s.collected.text.toList ++ s.pending)) }
  | none => s.collected

/-- `collect_stream`. -/
def collectDisplayed (m? : Option Mentions) (events : List StreamEvent) :
    Except CollectError (Collected × StopReason) :=
  (displayLoop m? {} events).map fun r => (r.1.response m?, r.2)

/-- The deltas that the loop reads. -/
def readDeltas : List StreamEvent → List (List Char)
  | [] | .done _ :: _ | .error _ :: _ | .httpError .. :: _ => []
  | .delta text :: es => text.toList :: readDeltas es
  | _ :: es => readDeltas es

/-! ## One tag after the other -/

/-- The text before the first tag, its id, and the text after it; nothing if there is no tag or the
first one is broken. -/
def firstRef (text : List Char) : Option (List Char × List Char × List Char) :=
  (findText refOpen text).bind fun o =>
    let after := text.drop (o + refOpen.length)
    (findText ['"'] after).bind fun closeQuote =>
      let tail := after.drop (closeQuote + 1)
      if refClose <+: tail then
        some (text.take o, after.take closeQuote, tail.drop refClose.length)
      else none

variable {m : Mentions} {text before id after : List Char}

/-- The loop ends where there is no tag to render. -/
lemma renderRefs_of_none (h : firstRef text = none) : renderRefs m text = text := by
  rw [renderRefs]
  unfold firstRef at h
  split
  · rfl
  · rename_i o hopen
    rw [hopen, Option.bind_some] at h
    simp only at h ⊢
    split
    · exact List.take_append_drop o text
    · rename_i closeQuote hquote
      rw [hquote, Option.bind_some] at h
      split
      · rename_i hclose
        exact absurd ((if_pos hclose).symm.trans h) (Option.some_ne_none _)
      · exact List.take_append_drop o text

/-- The loop renders a tag and goes on after it. -/
lemma renderRefs_of_some (h : firstRef text = some (before, id, after)) :
    renderRefs m text = before ++ (renderOneRef m id ++ renderRefs m after) := by
  rw [renderRefs]
  unfold firstRef at h
  split
  · rename_i hopen
    simp [hopen] at h
  · rename_i o hopen
    rw [hopen, Option.bind_some] at h
    simp only at h ⊢
    split
    · rename_i hquote
      simp [hquote] at h
    · rename_i closeQuote hquote
      rw [hquote, Option.bind_some] at h
      split
      · rename_i hclose
        simp only [if_pos hclose, Option.some.injEq, Prod.mk.injEq] at h
        obtain ⟨rfl, rfl, rfl⟩ := h
        rfl
      · rename_i hclose
        exact absurd ((if_neg hclose).symm.trans h) (Option.some_ne_none _).symm

/-- What the first tag is. -/
lemma firstRef_eq_some_iff :
    firstRef text = some (before, id, after) ↔
      text = before ++ (refTag id ++ after) ∧ '"' ∉ id ∧
        findText refOpen text = some before.length := by
  constructor
  · intro h
    unfold firstRef at h
    obtain ⟨o, hopen, h⟩ := Option.bind_eq_some_iff.1 h
    obtain ⟨closeQuote, hquote, h⟩ := Option.bind_eq_some_iff.1 h
    obtain ⟨rest, hrest⟩ := (findText_spec hopen).1
    have hdrop : text.drop (o + refOpen.length) = rest := by
      rw [← List.drop_drop, ← hrest, List.drop_left]
    rw [hdrop] at h hquote
    obtain ⟨name, tail, rfl, hname, rfl⟩ := findText_singleton_iff.1 hquote
    have htail : (name ++ '"' :: tail).drop (name.length + 1) = tail := by
      rw [← List.drop_drop, List.drop_left]
      rfl
    simp only [htail, List.take_left] at h
    split at h
    · rename_i hclose
      obtain ⟨after', rfl⟩ := hclose
      simp only [List.drop_left, Option.some.injEq, Prod.mk.injEq] at h
      obtain ⟨rfl, rfl, rfl⟩ := h
      have ho : o ≤ text.length := by
        have hlen := congrArg List.length hrest
        simp only [List.length_append, List.length_cons, List.length_drop] at hlen
        omega
      refine ⟨?_, hname, by rw [List.length_take, Nat.min_eq_left ho, hopen]⟩
      calc text = text.take o ++ text.drop o := (List.take_append_drop o text).symm
        _ = text.take o ++ (refTag name ++ after') := by
          rw [← hrest, refTag, List.append_assoc, List.append_assoc, List.cons_append]
    · exact absurd h (Option.some_ne_none _).symm
  · rintro ⟨htext, hid, hopen⟩
    have hafter : text.drop (before.length + refOpen.length) = id ++ '"' :: (refClose ++ after) := by
      rw [htext, ← List.drop_drop, List.drop_left, refTag, List.append_assoc, List.drop_left,
        List.append_assoc, List.cons_append]
    have hquote : findText ['"'] (id ++ '"' :: (refClose ++ after)) = some id.length :=
      findText_singleton_iff.2 ⟨id, _, rfl, hid, rfl⟩
    have htail : (id ++ '"' :: (refClose ++ after)).drop (id.length + 1) = refClose ++ after := by
      rw [← List.drop_drop, List.drop_left]
      rfl
    have htake : text.take before.length = before := by rw [htext, List.take_left]
    unfold firstRef
    simp only [hopen, Option.bind_some, hafter, hquote, htail, List.take_left, List.drop_left,
      List.prefix_append, if_true, htake]

@[simp] lemma length_refTag : (refTag id).length = refOpen.length + id.length + 3 := by
  simp [refTag, refClose, Nat.add_assoc]

/-- A tag that is in a text that goes on without a closing angle bracket is in the text itself. -/
lemma prefix_of_append_eq {rest : List Char} (h : '>' ∉ rest)
    (heq : text ++ rest = before ++ (refTag id ++ after)) : before ++ refTag id <+: text := by
  obtain ⟨inner, hlast⟩ : ∃ inner, before ++ refTag id = inner ++ ['>'] :=
    ⟨before ++ (refOpen ++ (id ++ ['"', '/'])), by simp [refTag, refClose]⟩
  have hpre : before ++ refTag id <+: text ++ rest :=
    ⟨after, by rw [heq, List.append_assoc]⟩
  rcases Nat.lt_or_ge text.length (before ++ refTag id).length with hlt | hle
  · rw [hlast] at hlt hpre
    rw [List.length_append, List.length_singleton] at hlt
    obtain ⟨z, rfl⟩ := List.prefix_of_prefix_length_le (List.prefix_append text rest)
      ((List.prefix_append inner ['>']).trans hpre) (Nat.le_of_lt_succ hlt)
    rw [List.append_assoc, List.prefix_append_right_inj] at hpre
    exact absurd (hpre.subset (by simp)) h
  · exact List.prefix_of_prefix_length_le hpre (List.prefix_append text rest) hle

/-- The text after the first tag is shorter. -/
lemma length_after_lt (h : firstRef text = some (before, id, after)) :
    before.length + refOpen.length ≤ text.length ∧ after.length < text.length := by
  have hlen := congrArg List.length (firstRef_eq_some_iff.1 h).1
  simp only [List.length_append, length_refTag] at hlen
  omega

/-- The first tag of a text that goes on without a closing angle bracket. -/
lemma firstRef_append {rest : List Char} (h : '>' ∉ rest) :
    firstRef (text ++ rest) =
      (firstRef text).map fun r => (r.1, r.2.1, r.2.2 ++ rest) := by
  have hpat : refOpen ≠ [] := List.cons_ne_nil _ _
  cases hfirst : firstRef text with
  | some r =>
    obtain ⟨before, id, after⟩ := r
    obtain ⟨htext, hid, hopen⟩ := firstRef_eq_some_iff.1 hfirst
    refine firstRef_eq_some_iff.2 ⟨?_, hid, ?_⟩
    · rw [htext, List.append_assoc, List.append_assoc]
    · exact (findText_append_iff hpat (length_after_lt hfirst).1).2 hopen
  | none =>
    refine Option.eq_none_iff_forall_ne_some.2 fun r hr => ?_
    obtain ⟨before, id, after⟩ := r
    obtain ⟨htext, hid, hopen⟩ := firstRef_eq_some_iff.1 hr
    obtain ⟨after', hafter⟩ := prefix_of_append_eq h htext
    have hsome : firstRef text = some (before, id, after') := by
      refine firstRef_eq_some_iff.2 ⟨?_, hid, ?_⟩
      · rw [← hafter, List.append_assoc]
      · refine (findText_append_iff hpat ?_).1 hopen
        rw [← hafter, List.length_append, List.length_append, length_refTag]
        omega
    exact absurd (hfirst.symm.trans hsome) (Option.some_ne_none _).symm

/-- **A rest without a closing angle bracket** stays as it is: no tag can end in it. -/
theorem renderRefs_append {rest : List Char} (h : '>' ∉ rest) :
    renderRefs m (text ++ rest) = renderRefs m text ++ rest := by
  induction hlen : text.length using Nat.strong_induction_on generalizing text with
  | _ n ih =>
    have happend : firstRef (text ++ rest) = _ := firstRef_append h
    cases hfirst : firstRef text with
    | none =>
      rw [hfirst] at happend
      rw [renderRefs_of_none happend, renderRefs_of_none hfirst]
    | some r =>
      obtain ⟨before, id, after⟩ := r
      rw [hfirst] at happend
      have hlt : after.length < n := hlen ▸ (length_after_lt hfirst).2
      rw [renderRefs_of_some happend, renderRefs_of_some hfirst, ih _ hlt rfl, List.append_assoc,
        List.append_assoc]

/-! ## The tags that are rendered -/

variable (m) in
/-- The text with its rendered tags as holes. -/
def refPieces (text : List Char) : List (Piece Char (List Char)) :=
  match _hfirst : firstRef text with
  | none => text.map .char
  | some (before, id, after) =>
    before.map .char ++
      ((if (m.nameFor id).isSome then [.hole id] else (refTag id).map .char) ++ refPieces after)
termination_by text.length
decreasing_by exact (length_after_lt _hfirst).2

variable (m) in
/-- What a rendered tag is shown as. -/
def shownName (id : List Char) : List Char := '@' :: (m.nameFor id).getD []

/-- A tag is shown by its name if there is one. -/
lemma renderOneRef_eq :
    renderOneRef m id = if (m.nameFor id).isSome then shownName m id else refTag id := by
  unfold renderOneRef shownName Mentions.nameFor
  by_cases hns : m.userPrefix <+: id
  · cases m.usernameOf id <;> simp [hns]
  · simp [hns]

/-- With the tags put back, the text is as it was. -/
lemma fill_refTag_refPieces : fill refTag (refPieces m text) = text := by
  induction hlen : text.length using Nat.strong_induction_on generalizing text with
  | _ n ih =>
    rw [refPieces]
    split
    · rw [fill_map_char]
    · rename_i before id after hfirst
      have hlt : after.length < n := hlen ▸ (length_after_lt hfirst).2
      have htag : fill refTag (if (m.nameFor id).isSome then [.hole id] else (refTag id).map .char) =
          refTag id := by
        split
        · exact List.append_nil _
        · rw [fill_map_char]
      rw [fill_append, fill_append, fill_map_char, htag, ih _ hlt rfl]
      exact (firstRef_eq_some_iff.1 hfirst).1.symm

/-- With the names in the tags, the text is the rendered one. -/
lemma fill_shownName_refPieces : fill (shownName m) (refPieces m text) = renderRefs m text := by
  induction hlen : text.length using Nat.strong_induction_on generalizing text with
  | _ n ih =>
    rw [refPieces]
    split
    · rename_i hfirst
      rw [fill_map_char, renderRefs_of_none hfirst]
    · rename_i before id after hfirst
      have hlt : after.length < n := hlen ▸ (length_after_lt hfirst).2
      rw [fill_append, fill_append, fill_map_char, ih _ hlt rfl, renderRefs_of_some hfirst,
        renderOneRef_eq]
      split
      · rw [fill, fill, List.append_nil]
      · rw [fill_map_char]

/-- The id of a rendered tag has no quote. -/
lemma quote_notMem_of_mem_names : ∀ id ∈ names (refPieces m text), '"' ∉ id := by
  induction hlen : text.length using Nat.strong_induction_on generalizing text with
  | _ n ih =>
    rw [refPieces]
    split
    · rw [names_map_char]
      nofun
    · rename_i before id after hfirst
      have hlt : after.length < n := hlen ▸ (length_after_lt hfirst).2
      intro other hother
      rw [names_append, names_append, names_map_char, List.nil_append, List.mem_append] at hother
      rcases hother with hother | hother
      · split at hother
        · rw [names, names, List.mem_singleton] at hother
          exact hother ▸ (firstRef_eq_some_iff.1 hfirst).2.1
        · rw [names_map_char] at hother
          exact absurd hother List.not_mem_nil
      · exact ih _ hlt rfl other hother

/-- The id of a tag can be read off. -/
lemma eq_of_refTag_append {id' s t : List Char} (hid : '"' ∉ id) (hid' : '"' ∉ id')
    (h : refTag id ++ s = refTag id' ++ t) : id = id' := by
  simp only [refTag, List.append_assoc, List.append_cancel_left_eq, List.cons_append] at h
  have hfirst := findText_singleton_iff.2 ⟨id, refClose ++ s, rfl, hid, rfl⟩
  have hfirst' := findText_singleton_iff.2 ⟨id', refClose ++ t, rfl, hid', rfl⟩
  rw [h, hfirst'] at hfirst
  exact (List.append_inj h (Option.some.inj hfirst).symm).1

/-! ## What is let go and what is held back -/

/-- The pieces of the text that are let go. -/
def letGo : List Char → List (List Char) → List (List Char)
  | _, [] => []
  | pending, delta :: deltas =>
    let r := splitPending (pending ++ delta)
    r.1 :: letGo r.2 deltas

/-- What is held back at the end. -/
def heldBack : List Char → List (List Char) → List Char
  | pending, [] => pending
  | pending, delta :: deltas => heldBack (splitPending (pending ++ delta)).2 deltas

/-- The text has no angle bracket. -/
def NoAngle (text : List Char) : Prop := '<' ∉ text ∧ '>' ∉ text

@[simp] lemma noAngle_append {a b : List Char} : NoAngle (a ++ b) ↔ NoAngle a ∧ NoAngle b := by
  simp only [NoAngle, List.mem_append, not_or]
  exact and_and_and_comm

/-- Nothing, or an open tag. -/
def HeldTag (pending : List Char) : Prop :=
  pending = [] ∨ ∃ v, pending = refStart ++ v ∧ NoAngle v

/-- The text ends in an open tag whose first four characters came in one delta. -/
def EndsInOpenTag (deltas : List (List Char)) : Prop :=
  ∃ earlier u v later, deltas = earlier ++ (u ++ (refStart ++ v)) :: later ∧
    NoAngle (v ++ later.flatten)

variable {pending buffer u v : List Char} {deltas : List (List Char)}

/-- The last place of what does not occur later. -/
lemma rposition_append_cons {α : Type*} {p : α → Bool} {xs ys : List α} {a : α} (ha : p a = true)
    (hys : ∀ y ∈ ys, p y = false) : rposition p (xs ++ a :: ys) = some xs.length := by
  induction xs with
  | nil =>
    have hnone : rposition p ys = none := by
      cases hpos : rposition p ys with
      | none => rfl
      | some i =>
        obtain ⟨⟨y, hy, hp⟩, -⟩ := rposition_eq_some hpos
        exact absurd hp (by simp [hys y (List.mem_of_getElem? hy)])
    simp [rposition, hnone, ha]
  | cons x xs ih => simp [rposition, ih]

/-- An open tag at the end is split off. -/
lemma splitPending_append (hv : NoAngle v) :
    splitPending (u ++ (refStart ++ v)) = (u, refStart ++ v) := by
  have hpos : rposition (· = '<') (u ++ (refStart ++ v)) = some u.length :=
    rposition_append_cons (by decide) fun c hc => by
      rw [decide_eq_false_iff_not]
      rintro rfl
      rcases List.mem_append.1 hc with hc | hc
      · exact absurd hc (by decide)
      · exact hv.1 hc
  have hgt : '>' ∉ refStart ++ v := by
    rw [List.mem_append, not_or]
    exact ⟨by decide, hv.2⟩
  simp only [splitPending, hpos, List.drop_left, List.take_left]
  exact if_pos ⟨hgt, List.prefix_append _ _⟩

/-- Nothing else is split off. -/
lemma splitPending_cases (buffer : List Char) :
    splitPending buffer = (buffer, []) ∨
      ∃ u v, buffer = u ++ (refStart ++ v) ∧ NoAngle v ∧ splitPending buffer = (u, refStart ++ v) := by
  unfold splitPending
  split
  · rename_i lt hlt
    simp only
    split
    · rename_i h
      obtain ⟨hgt, v, hv⟩ := h
      rw [← hv, List.mem_append, not_or] at hgt
      refine Or.inr ⟨buffer.take lt, v, ?_, ⟨fun hmem => ?_, hgt.2⟩, by rw [hv]⟩
      · rw [hv, List.take_append_drop]
      · obtain ⟨j, hj⟩ := List.mem_iff_getElem?.1 hmem
        have hlater : buffer[lt + (refStart.length + j)]? = some '<' := by
          rw [← List.getElem?_drop, ← hv, List.getElem?_append_right (Nat.le_add_right _ _),
            Nat.add_sub_cancel_left, hj]
        have hlt' : lt < lt + (refStart.length + j) :=
          Nat.lt_add_of_pos_right (Nat.add_pos_left (by decide) j)
        have hne := (rposition_eq_some hlt).2 _ '<' hlt' hlater
        exact absurd hne (by decide)
    · exact Or.inl rfl
  · exact Or.inl rfl

/-- What is split off is the end of the text. -/
lemma splitPending_flatten (buffer : List Char) :
    (splitPending buffer).1 ++ (splitPending buffer).2 = buffer := by
  rcases splitPending_cases buffer with h | ⟨u, v, rfl, -, h⟩
  · rw [h, List.append_nil]
  · rw [h]

/-- What is split off is nothing, or an open tag. -/
lemma heldTag_splitPending (buffer : List Char) : HeldTag (splitPending buffer).2 := by
  rcases splitPending_cases buffer with h | ⟨u, v, -, hv, h⟩
  · exact Or.inl (by rw [h])
  · exact Or.inr ⟨v, by rw [h], hv⟩

/-- The pieces that are let go and what is held back are the text. -/
lemma flatten_letGo :
    (letGo pending deltas).flatten ++ heldBack pending deltas = pending ++ deltas.flatten := by
  induction deltas generalizing pending with
  | nil => exact (List.append_nil pending).symm
  | cons delta deltas ih =>
    rw [letGo, heldBack, List.flatten_cons, List.append_assoc, ih, ← List.append_assoc,
      splitPending_flatten, List.flatten_cons, List.append_assoc]

/-- What is shown is the pieces, each rendered by itself. -/
lemma pushAll_eq :
    pushAll m pending deltas =
      ((letGo pending deltas).flatMap (renderRefs m), heldBack pending deltas) := by
  induction deltas generalizing pending with
  | nil => rfl
  | cons delta deltas ih => simp only [pushAll, push, ih, letGo, heldBack, List.flatMap_cons]

variable (m) in
/-- The tags that are rendered in the whole text are, place by place, those that are rendered in the
pieces that are let go. -/
def SameTags (deltas : List (List Char)) : Prop :=
  refPieces m deltas.flatten =
    (letGo [] deltas).flatMap (refPieces m) ++ (heldBack [] deltas).map .char

/-- **The rendering of deltas is the rendering of their text** exactly when the same tags are rendered:
another tag, or a tag at another place, is always seen. -/
theorem streamed_eq_iff :
    streamed m deltas = renderRefs m deltas.flatten ↔ SameTags m deltas := by
  have hpieces :
      fill refTag ((letGo [] deltas).flatMap (refPieces m) ++ (heldBack [] deltas).map .char) =
        deltas.flatten := by
    simp only [fill_append, fill_flatMap, fill_map_char, fill_refTag_refPieces, List.flatMap_id']
    exact flatten_letGo
  have hshown :
      fill (shownName m) ((letGo [] deltas).flatMap (refPieces m) ++ (heldBack [] deltas).map .char) =
        streamed m deltas := by
    simp only [fill_append, fill_flatMap, fill_map_char, fill_shownName_refPieces, streamed, pushAll_eq]
  rw [← hshown, ← fill_shownName_refPieces]
  refine ⟨fun h => ?_, fun h => by rw [h]⟩
  refine eq_of_fill_eq (by decide : ('<' : Char) ≠ '@') (fun id => rfl) (fun id => rfl) ?_
    (fill_refTag_refPieces.trans hpieces.symm) h.symm
  intro id hid id' hid' s t heq
  refine eq_of_refTag_append (quote_notMem_of_mem_names id hid) ?_ heq
  rw [names_append, names_map_char, List.append_nil, mem_names_flatMap] at hid'
  obtain ⟨piece, -, hid'⟩ := hid'
  exact quote_notMem_of_mem_names id' hid'

/-! ## What is held back at the end -/

/-- An open tag at the end is that of the text before, or begins in the delta. -/
lemma splitPending_ne_nil_iff {delta : List Char} (hheld : HeldTag pending) :
    (splitPending (pending ++ delta)).2 ≠ [] ↔
      pending ≠ [] ∧ NoAngle delta ∨ ∃ u v, delta = u ++ (refStart ++ v) ∧ NoAngle v := by
  constructor
  · intro h
    rcases splitPending_cases (pending ++ delta) with hs | ⟨u, v, heq, hv, -⟩
    · exact absurd (by rw [hs]) h
    · rcases List.append_eq_append_iff.1 heq with ⟨rest, rfl, hdelta⟩ | ⟨start, rfl, hstart⟩
      · exact Or.inr ⟨rest, v, hdelta, hv⟩
      · cases start with
        | nil => exact Or.inr ⟨[], v, hstart.symm, hv⟩
        | cons c start =>
          -- The bracket of the tag is in the text before; after it there is no other one.
          have htail : "ref".toList ++ v = start ++ delta := (List.cons.inj hstart).2
          have hnone : NoAngle ("ref".toList ++ v) := noAngle_append.2 ⟨⟨by decide, by decide⟩, hv⟩
          rw [htail, noAngle_append] at hnone
          exact Or.inl ⟨by simp, hnone.2⟩
  · rintro (⟨hpending, hdelta⟩ | ⟨u, v, rfl, hv⟩)
    · obtain rfl | ⟨v, rfl, hv⟩ := hheld
      · exact absurd rfl hpending
      · have hsplit : splitPending ([] ++ (refStart ++ (v ++ delta))) = _ :=
          splitPending_append (noAngle_append.2 ⟨hv, hdelta⟩)
        rw [List.nil_append] at hsplit
        rw [List.append_assoc, hsplit]
        exact List.cons_ne_nil _ _
    · rw [← List.append_assoc, splitPending_append hv]
      exact List.cons_ne_nil _ _

/-- The end of deltas, from the first one. -/
lemma endsInOpenTag_cons {delta : List Char} :
    EndsInOpenTag (delta :: deltas) ↔
      EndsInOpenTag deltas ∨ ∃ u v, delta = u ++ (refStart ++ v) ∧ NoAngle (v ++ deltas.flatten) := by
  constructor
  · rintro ⟨earlier, u, v, later, heq, hv⟩
    cases earlier with
    | nil =>
      obtain ⟨rfl, rfl⟩ := List.cons.inj heq
      exact Or.inr ⟨u, v, rfl, hv⟩
    | cons first earlier => exact Or.inl ⟨earlier, u, v, later, (List.cons.inj heq).2, hv⟩
  · rintro (⟨earlier, u, v, later, rfl, hv⟩ | ⟨u, v, rfl, hv⟩)
    · exact ⟨delta :: earlier, u, v, later, rfl, hv⟩
    · exact ⟨[], u, v, deltas, rfl, hv⟩

/-- What is held back at the end: the open tag from before, or one that the deltas end in. -/
lemma heldBack_ne_nil_iff (hheld : HeldTag pending) :
    heldBack pending deltas ≠ [] ↔
      pending ≠ [] ∧ NoAngle deltas.flatten ∨ EndsInOpenTag deltas := by
  induction deltas generalizing pending with
  | nil =>
    have hnil : ¬ EndsInOpenTag [] := by
      rintro ⟨earlier, u, v, later, heq, -⟩
      exact absurd heq.symm (List.append_ne_nil_of_right_ne_nil _ (List.cons_ne_nil _ _))
    simp [heldBack, hnil, NoAngle]
  | cons delta deltas ih =>
    rw [heldBack, ih (heldTag_splitPending _), splitPending_ne_nil_iff hheld, endsInOpenTag_cons,
      List.flatten_cons, noAngle_append]
    simp only [noAngle_append]
    grind

/-- What is held back is an open tag, or nothing. -/
lemma heldTag_heldBack (hheld : HeldTag pending) : HeldTag (heldBack pending deltas) := by
  induction deltas generalizing pending with
  | nil => exact hheld
  | cons delta deltas ih => exact ih (heldTag_splitPending _)

/-- What is held back has no closing angle bracket. -/
lemma gt_notMem_heldBack (hheld : HeldTag pending) : '>' ∉ heldBack pending deltas := by
  have htag : HeldTag (heldBack pending deltas) := heldTag_heldBack hheld
  rcases htag with hnil | ⟨v, hv, hangle⟩
  · rw [hnil]
    exact List.not_mem_nil
  · rw [hv, List.mem_append, not_or]
    exact ⟨by decide, hangle.2⟩

/-! ## The returned text -/

/-- The loop collects as without a display. -/
lemma collected_absorb (m? : Option Mentions) (s : Displayed) (e : StreamEvent) :
    (s.absorb m? e).collected = s.collected.absorb e := by
  cases e with
  | delta text => cases m? <;> rfl
  | _ => rfl

/-- What the loop has collected and holds back at its end. -/
lemma displayLoop_ok {s s' : Displayed} {reason : StopReason} {events : List StreamEvent}
    (h : displayLoop (some m) s events = .ok (s', reason)) :
    s'.collected.text.toList = s.collected.text.toList ++ (readDeltas events).flatten ∧
      s'.pending = heldBack s.pending (readDeltas events) := by
  induction events generalizing s with
  | nil => cases h
  | cons e events ih =>
    cases e with
    | delta text =>
      obtain ⟨htext, hpending⟩ := ih h
      rw [collected_absorb, text_absorb, String.toList_append, List.append_assoc] at htext
      exact ⟨htext, hpending⟩
    | done r =>
      cases h
      exact ⟨(List.append_nil _).symm, rfl⟩
    | error message => cases h
    | httpError status message => cases h
    | _ =>
      obtain ⟨htext, hpending⟩ := ih h
      rw [collected_absorb, text_absorb, String.toList_append, List.append_assoc] at htext
      exact ⟨htext, hpending⟩

/-- **The returned text is the rendering of the deltas** exactly when they do not end in an open tag
that is held back: otherwise the open tag is there twice. -/
theorem collectDisplayed_text_iff {events : List StreamEvent} {c : Collected} {reason : StopReason}
    (h : collectDisplayed (some m) events = .ok (c, reason)) :
    c.text.toList = renderRefs m (readDeltas events).flatten ↔
      ¬ EndsInOpenTag (readDeltas events) := by
  have hheld : HeldTag [] := Or.inl rfl
  cases hloop : displayLoop (some m) {} events with
  | error e => simp [collectDisplayed, hloop, Except.map] at h
  | ok r =>
    obtain ⟨s, reason'⟩ := r
    simp only [collectDisplayed, hloop, Except.map, Except.ok.injEq, Prod.mk.injEq] at h
    obtain ⟨rfl, -⟩ := h
    obtain ⟨htext, hpending⟩ := displayLoop_ok hloop
    have hgt : '>' ∉ heldBack [] (readDeltas events) := gt_notMem_heldBack hheld
    have hresponse : (s.response (some m)).text.toList =
        renderRefs m (readDeltas events).flatten ++ heldBack [] (readDeltas events) := by
      rw [← renderRefs_append hgt, ← hpending]
      simp only [Displayed.response, String.toList_ofList, htext]
      rfl
    rw [hresponse, List.append_right_eq_self, ← not_iff_not, not_not, ← Ne,
      heldBack_ne_nil_iff hheld]
    simp

end MyClaw
