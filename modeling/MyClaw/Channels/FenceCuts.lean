import MyClaw.Channels.FenceScan
import MyClaw.Channels.SplitPoint

set_option autoImplicit false

/-!
# Cuts and the fences that are open at them

The search for a cut (`find_split_point` in `channels/message/chunking.rs`) says which block of code is
open at the cut that it finds.  In a text whose blocks of code are all closed, this is the one that is
open before the line of the cut, unless the cut is in a line that opens or closes a block.

## Main definitions

* `FenceCarry.Valid` — a marker of fences, at least three times.

## Main results

* `parseFenceLine_eq_some` — the form of a fence line.
* `firstCut_spec` — where the first cut is that the search tries.
* `settledSplit_fenceCarry` — the block of code that a search takes for open is open.
-/

namespace MyClaw

open LineScan

/-! ## Fence lines -/

/-- The marker of a fence, at least three times. -/
def FenceCarry.Valid (fc : FenceCarry) : Prop := (fc.marker = '`' ∨ fc.marker = '~') ∧ 3 ≤ fc.len

/-- The characters in front that are one character. -/
lemma takeWhile_eq_replicate (c : Char) (text : List Char) :
    text.takeWhile (· = c) = List.replicate (text.takeWhile (· = c)).length c :=
  List.eq_replicate_iff.2 ⟨rfl, fun _ hx => by simpa using List.mem_takeWhile_imp hx⟩

/-- What a marker that is repeated is followed by does not begin with it. -/
lemma head?_drop_takeWhile_ne (c : Char) (text : List Char) :
    (text.drop (text.takeWhile (· = c)).length).head? ≠ some c := by
  induction text with
  | nil => simp
  | cons d text ih =>
    by_cases hd : d = c
    · simpa [hd] using ih
    · simp [hd]

/-- **The form of a fence line**: blanks, a marker, and what follows. -/
lemma parseFenceLine_eq_some {line : List Char} {fl : FenceLine} (h : parseFenceLine line = some fl) :
    fl.carry.Valid ∧ fl.isClosingCandidate = fl.rest.all isBlankChar ∧ fl.rest.head? ≠ some fl.marker ∧
      (fl.marker = '`' → '`' ∉ fl.rest) ∧ ∃ n ≤ 3,
        line = List.replicate n ' ' ++ (List.replicate fl.len fl.marker ++ fl.rest) := by
  have hblanks : ∃ n ≤ 3,
      line.take (min 3 (line.takeWhile (· = ' ')).length) = List.replicate n ' ' := by
    have hpre : line.take (line.takeWhile (· = ' ')).length = line.takeWhile (· = ' ') :=
      (List.prefix_iff_eq_take.1 (List.takeWhile_prefix _)).symm
    refine ⟨min 3 (line.takeWhile (· = ' ')).length, Nat.min_le_left _ _, ?_⟩
    rw [← List.take_take, hpre, takeWhile_eq_replicate, List.take_replicate, List.length_replicate]
  obtain ⟨n, hle, hn⟩ := hblanks
  have hline := (List.take_append_drop (min 3 (line.takeWhile (· = ' ')).length) line).symm
  rw [hn] at hline
  unfold parseFenceLine at h
  dsimp only at h
  generalize line.drop (min 3 (line.takeWhile (· = ' ')).length) = text at h hline
  cases text with
  | nil => cases h
  | cons marker text =>
    dsimp only at h
    split_ifs at h with hmarker hlen hinfo
    obtain rfl := Option.some.inj h
    rw [not_and_or, not_not, not_not] at hmarker
    refine ⟨⟨hmarker, Nat.not_lt.1 hlen⟩, rfl, head?_drop_takeWhile_ne marker _, fun hback => ?_,
      n, hle, ?_⟩
    · dsimp only at hback ⊢
      intro hmem
      have hblank : isBlankChar '`' = true := by
        by_contra hnot
        refine hinfo ⟨hback, by simpa using hmem, ?_⟩
        rw [Bool.not_eq_true', List.all_eq_false]
        exact ⟨'`', hmem, hnot⟩
      exact absurd hblank (by decide)
    · dsimp only
      rw [← takeWhile_eq_replicate, hline]
      congr 1
      exact (List.prefix_iff_eq_append.1 (List.takeWhile_prefix _)).symm

/-- A line of this form is a fence line. -/
lemma parseFenceLine_of_form {marker : Char} {n len : ℕ} {rest : List Char} (hn : n ≤ 3)
    (hmarker : marker = '`' ∨ marker = '~') (hlen : 3 ≤ len) (hhead : rest.head? ≠ some marker)
    (hinfo : marker = '`' → '`' ∉ rest) :
    parseFenceLine (List.replicate n ' ' ++ (List.replicate len marker ++ rest)) =
      some ⟨marker, len, rest, rest.all isBlankChar⟩ := by
  have hne : marker ≠ ' ' := by rcases hmarker with rfl | rfl <;> decide
  obtain ⟨k, rfl⟩ : ∃ k, len = k + 1 := ⟨len - 1, by omega⟩
  have hblanks : ((List.replicate n ' ' ++ (List.replicate (k + 1) marker ++ rest)).takeWhile
      (· = ' ')).length = n := by
    rw [List.takeWhile_append_of_pos (by simp)]
    simp [List.replicate_succ, hne]
  have hrun : ((List.replicate (k + 1) marker ++ rest).takeWhile (· = marker)).length = k + 1 := by
    rw [List.takeWhile_append_of_pos (by simp)]
    cases rest with
    | nil => simp
    | cons c rest =>
      have hc : c ≠ marker := fun hc => hhead (by rw [hc]; rfl)
      simp [hc]
  have hdrop : (List.replicate n ' ' ++ (List.replicate (k + 1) marker ++ rest)).drop (min 3 n) =
      List.replicate (k + 1) marker ++ rest := by
    rw [Nat.min_eq_right hn]
    exact List.drop_left' (List.length_replicate)
  unfold parseFenceLine
  dsimp only
  rw [hblanks, hdrop, List.replicate_succ, List.cons_append]
  dsimp only
  rw [← List.cons_append, ← List.replicate_succ, hrun]
  rw [if_neg (by tauto), if_neg (by omega), List.drop_left' List.length_replicate]
  rw [if_neg]
  rintro ⟨hback, hcontains, -⟩
  exact hinfo hback (by simpa using hcontains)

/-- A fence line has a marker in it. -/
lemma marker_mem_of_parseFenceLine {line : List Char} {fl : FenceLine}
    (h : parseFenceLine line = some fl) : fl.marker ∈ line ∧ 3 ≤ line.length := by
  obtain ⟨⟨-, hlen⟩, -, -, -, n, -, rfl⟩ := parseFenceLine_eq_some h
  have hpos : fl.len ≠ 0 := by
    have hlen : 3 ≤ fl.len := hlen
    omega
  refine ⟨?_, ?_⟩
  · simp [hpos]
  · have hlen : 3 ≤ fl.len := hlen
    simp only [List.length_append, List.length_replicate]
    omega

/-- A line that closes a block of code has three characters. -/
lemma length_of_closedBy {fc : FenceCarry} {line : List Char} (h : fc.closedBy line = true) :
    3 ≤ line.length := by
  unfold FenceCarry.closedBy at h
  split at h
  · exact (marker_mem_of_parseFenceLine ‹_›).2
  · cases h

/-- What is open after lines is a marker of fences, at least three times, if this is so before. -/
lemma valid_of_foldl {lines : List (List Char)} {opened : Option FenceCarry} {fc : FenceCarry}
    (hopened : ∀ fc, opened = some fc → fc.Valid) (h : lines.foldl fenceStep opened = some fc) :
    fc.Valid := by
  induction lines generalizing opened with
  | nil => exact hopened fc h
  | cons line lines ih =>
    refine ih (fun fc hfc => ?_) h
    cases opened with
    | none =>
      obtain ⟨fl, hfl, rfl⟩ := Option.map_eq_some_iff.1 hfc
      exact (parseFenceLine_eq_some hfl).1
    | some carry =>
      rw [fenceStep] at hfc
      split at hfc
      · cases hfc
      · exact hopened fc hfc

/-! ## The regions of a text -/

section Regions

variable {i : ℕ} {opened : Option (ℕ × ℕ × FenceCarry)} {lines : List (List Char × Bool)}
  {r : FenceRegion}

/-- The end of a region lies in the text, and a region that is closed has its last line in it. -/
lemma end_of_mem_scanLines (hopened : ∀ o, opened = some o → o.2.1 ≤ i) :
    ∀ r ∈ scanLines i opened lines,
      r.end_ ≤ i + linesLength lines ∧ (r.closed = true → r.bodyStart + 3 ≤ r.end_) := by
  induction lines generalizing i opened with
  | nil =>
    cases opened with
    | none => nofun
    | some o =>
      intro r hr
      obtain rfl := List.mem_singleton.1 hr
      exact ⟨Nat.le_add_right _ _, nofun⟩
  | cons line lines ih =>
    obtain ⟨line, ended⟩ := line
    rw [linesLength_cons, ← Nat.add_assoc, ← Nat.add_assoc]
    cases opened with
    | none =>
      refine ih fun o ho => ?_
      obtain ⟨fl, hfl, rfl⟩ := Option.map_eq_some_iff.1 ho
      exact le_rfl
    | some o =>
      obtain ⟨start, bodyStart, carry⟩ := o
      have hbody := hopened _ rfl
      unfold scanLines
      dsimp only at hbody ⊢
      split
      · rename_i hclosed
        have hline := length_of_closedBy hclosed
        intro r hr
        rcases List.mem_cons.1 hr with rfl | hr
        · exact ⟨Nat.le_add_right _ _, fun _ => by dsimp only; omega⟩
        · exact ih (fun _ ho => absurd ho (by simp)) r hr
      · refine ih fun o ho => ?_
        cases ho
        dsimp only
        omega

/-- In a scan that ends outside, all regions are closed. -/
lemma closed_of_mem_scanLines
    (hend : (lines.map (·.1)).foldl fenceStep (opened.map (·.2.2)) = none) :
    ∀ r ∈ scanLines i opened lines, r.closed = true := by
  induction lines generalizing i opened with
  | nil =>
    cases opened with
    | none => nofun
    | some o => cases hend
  | cons line lines ih =>
    obtain ⟨line, ended⟩ := line
    rw [List.map_cons, List.foldl_cons] at hend
    cases opened with
    | none =>
      refine ih ?_
      rw [Option.map_map]
      exact hend
    | some o =>
      obtain ⟨start, bodyStart, carry⟩ := o
      unfold scanLines
      rw [Option.map_some, fenceStep] at hend
      dsimp only at hend ⊢
      split at hend
      · rename_i hclosed
        have hrest : ∀ r ∈ scanLines (i + line.length + ended.toNat) none lines, r.closed = true :=
          ih hend
        rw [if_pos hclosed]
        intro r hr
        rcases List.mem_cons.1 hr with rfl | hr
        · rfl
        · exact hrest r hr
      · rename_i hclosed
        rw [if_neg hclosed]
        exact ih hend

end Regions

/-- The regions of a text in which no block of code is open at the end. -/
lemma mem_scanFenceRegions {text : List Char} {startCarry : Option FenceCarry} {r : FenceRegion}
    (hend : after fenceStep startCarry text = none) (hr : r ∈ scanFenceRegions text startCarry) :
    r.closed = true ∧ r.bodyStart + 3 ≤ r.end_ ∧ r.end_ ≤ text.length := by
  have hclosed : r.closed = true := by
    refine closed_of_mem_scanLines ?_ r hr
    rw [foldl_fenceLines]
    cases startCarry <;> exact hend
  have hbounds := end_of_mem_scanLines (fun o ho => by
    obtain ⟨fc, -, rfl⟩ := Option.map_eq_some_iff.1 ho
    exact le_rfl) r hr
  rw [linesLength_fenceLines, Nat.zero_add] at hbounds
  exact ⟨hclosed, hbounds.2 hclosed, hbounds.1⟩

/-! ## The state at the ends of regions -/

variable {chars : List Char} {startCarry : Option FenceCarry} {r r' : FenceRegion} {pos : ℕ}

/-- Two regions that have a common position are one. -/
lemma eq_of_mem_of_mem (hr : r ∈ scanFenceRegions chars startCarry)
    (hr' : r' ∈ scanFenceRegions chars startCarry) (hin : r.start ≤ pos ∧ pos < r.end_)
    (hin' : r'.start ≤ pos ∧ pos < r'.end_) : r = r' := by
  by_contra hne
  have horder := scanFenceRegions_pairwise chars startCarry
  obtain ⟨i, hi, rfl⟩ := List.getElem_of_mem hr
  obtain ⟨j, hj, rfl⟩ := List.getElem_of_mem hr'
  have hij : i ≠ j := by
    rintro rfl
    exact hne rfl
  rcases Nat.lt_or_gt_of_ne hij with hlt | hgt
  · have hle := List.pairwise_iff_getElem.1 horder i j hi hj hlt
    omega
  · have hle := List.pairwise_iff_getElem.1 horder j i hj hi hgt
    omega

/-- What `region_containing` finds. -/
lemma regionContaining_eq_some {regions : List FenceRegion}
    (h : regionContaining regions pos = some r) : r ∈ regions ∧ r.start ≤ pos ∧ pos < r.end_ := by
  have hin := List.find?_some h
  simp only [decide_eq_true_eq] at hin
  exact ⟨List.mem_of_find?_eq_some h, hin⟩

/-- Nothing is open before a position that lies in no region. -/
lemma before_eq_none_of_outside (hpos : pos < chars.length)
    (h : regionContaining (scanFenceRegions chars startCarry) pos = none) :
    before fenceStep startCarry (chars.take pos) = none := by
  by_contra hopen
  obtain ⟨fc, hfc⟩ := Option.ne_none_iff_exists'.1 hopen
  obtain ⟨r, hr, -⟩ := (lineRegion startCarry hpos).isOpen fc hfc
  rw [h] at hr
  cases hr

/-- Nothing is open before the first line of a region. -/
lemma before_eq_none_of_start (hr : r ∈ scanFenceRegions chars startCarry) (hpos : 0 < r.start)
    (hlt : r.start < r.end_) (hin : r.start < chars.length) :
    before fenceStep startCarry (chars.take r.start) = none := by
  by_contra hopen
  obtain ⟨fc, hfc⟩ := Option.ne_none_iff_exists'.1 hopen
  obtain ⟨r', hr', -, hstart⟩ := (lineRegion startCarry hin).isOpen fc hfc
  obtain ⟨hmem, hin'⟩ := regionContaining_eq_some hr'
  obtain rfl := eq_of_mem_of_mem hr hmem ⟨le_rfl, hlt⟩ hin'
  rcases hstart with hbefore | ⟨o, ho, hzero⟩
  · omega
  · obtain ⟨fc', -, rfl⟩ := Option.map_eq_some_iff.1 ho
    dsimp only at hzero
    omega

/-- Nothing is open after the last line of a region. -/
lemma before_eq_none_of_end (hr : r ∈ scanFenceRegions chars startCarry) (hlt : r.start < r.end_)
    (hin : r.end_ < chars.length) : before fenceStep startCarry (chars.take r.end_) = none := by
  by_contra hopen
  obtain ⟨fc, hfc⟩ := Option.ne_none_iff_exists'.1 hopen
  obtain ⟨r', hr', -, hstart⟩ := (lineRegion startCarry hin).isOpen fc hfc
  obtain ⟨hmem, hin'⟩ := regionContaining_eq_some hr'
  -- the region at the end begins before it, and so has the last position of the region that ends
  have hearlier : r'.start ≤ r.end_ - 1 := by
    rcases hstart with hbefore | ⟨o, ho, hzero⟩
    · omega
    · obtain ⟨fc', -, rfl⟩ := Option.map_eq_some_iff.1 ho
      dsimp only at hzero
      omega
  have hlast : r.start ≤ r.end_ - 1 ∧ r.end_ - 1 < r.end_ := by omega
  have heq := eq_of_mem_of_mem hr hmem hlast ⟨hearlier, by omega⟩
  rw [← heq] at hin'
  omega

/-! ## Where the first cut is -/

variable {unit : LenUnit} {limit cut : ℕ}

/-- A cut in a block of code that is closed and does not fit is before the end of the block. -/
lemma cutInBody_lt {fc : FenceCarry} (hclosed : r.bodyStart + 3 ≤ r.end_)
    (hfits : limit < costOf unit chars r.end_)
    (h : cutInBody unit chars r limit = (cut, some fc)) : cut < r.end_ ∧ fc = r.carry := by
  have hcap : capFor unit chars (limit - measure r.carry.closeSuffix unit) < r.end_ :=
    capFor_lt (by omega)
  have hlimit := bodyLimitIdx_le chars r
  have hcut : bodyCut chars r (bodyLimitIdx chars r) (min
      (capFor unit chars (limit - measure r.carry.closeSuffix unit))
        (bodyLimitIdx chars r)) < r.end_ := by
    have hlocal := (boundaryWithin_bounds chars (min
      (capFor unit chars (limit - measure r.carry.closeSuffix unit)) (bodyLimitIdx chars r))).1
    have hlocal' := (boundaryWithin_bounds chars (max (min (r.bodyStart + 1)
      (bodyLimitIdx chars r)) 1)).1
    unfold bodyCut
    dsimp only
    split_ifs <;> omega
  unfold cutInBody at h
  dsimp only at h
  split_ifs at h with h1 h2 h3 h4 h5 <;> cases h <;> exact ⟨by omega, rfl⟩

/-- A cut that is moved out of a block of code is before it. -/
lemma cutInBody_eq_start (h : cutInBody unit chars r limit = (cut, none)) :
    cut = r.start ∧ 0 < r.start := by
  have hbounds := bodyCut_bounds chars r (bodyLimitIdx chars r) (min
    (capFor unit chars (limit - measure r.carry.closeSuffix unit)) (bodyLimitIdx chars r))
  unfold cutInBody at h
  dsimp only at h
  split_ifs at h with h1 h2 h3 h4 h5 <;> cases h <;> exact ⟨by omega, by omega⟩

/-- The position that the search starts from is in the text, and within the limit unless it is right
behind the first character. -/
lemma startIndex_spec (hchars : chars ≠ []) :
    let hardCap := min (max (capFor unit chars limit) 1) chars.length
    let index := boundaryWithin chars hardCap
    let index := if index = 0 then hardCap else index
    1 ≤ index ∧ index ≤ chars.length ∧ (costOf unit chars index ≤ limit ∨ index ≤ 1) := by
  have hlength := List.length_pos_iff.2 hchars
  have hbound := boundaryWithin_bounds chars (min (max (capFor unit chars limit) 1) chars.length)
  have hcost : costOf unit chars (capFor unit chars limit) ≤ limit := costOf_capFor_le chars limit
  dsimp only
  generalize hindex : (if boundaryWithin chars (min (max (capFor unit chars limit) 1) chars.length) = 0
    then min (max (capFor unit chars limit) 1) chars.length
    else boundaryWithin chars (min (max (capFor unit chars limit) 1) chars.length)) = index
  have hle : index ≤ min (max (capFor unit chars limit) 1) chars.length := by
    rw [← hindex]
    split <;> omega
  have hpos : 1 ≤ index := by
    rw [← hindex]
    split <;> omega
  refine ⟨hpos, by omega, ?_⟩
  rcases Nat.lt_or_ge 1 index with hlt | hone
  · exact Or.inl ((costOf_mono unit chars (by omega)).trans hcost)
  · exact Or.inr hone

/-- A text of one character in which nothing is open at the end has nothing open before. -/
lemma before_singleton {c : Char} (hend : after fenceStep startCarry [c] = none) :
    before fenceStep startCarry [c] = none := by
  cases startCarry with
  | none =>
    by_cases hc : c = '\n'
    · subst hc
      rfl
    · rw [before_of_notMem (by simpa using Ne.symm hc)]
  | some fc =>
    have hopen (line : List Char) (hline : line.length ≤ 1) : fenceStep (some fc) line = some fc := by
      rw [fenceStep, if_neg]
      intro hclosed
      have hlength := length_of_closedBy hclosed
      omega
    by_cases hc : c = '\n'
    · subst hc
      have hstate : after fenceStep (some fc) ['\n'] =
          fenceStep (fenceStep (some fc) []) [] := rfl
      rw [hstate, hopen [] (by simp), hopen [] (by simp)] at hend
      cases hend
    · have hline : '\n' ∉ [c] := by simpa using Ne.symm hc
      rw [after, before_of_notMem hline, lastLine_of_notMem hline, hopen [c] le_rfl] at hend
      cases hend

/-- **Where the first cut is**, in a text that does not fit and ends outside blocks of code: in the
block of code that the text begins with, or where no block of code is open. -/
theorem firstCut_spec {carry : Option FenceCarry} (hchars : chars ≠ [])
    (hend : after fenceStep startCarry chars = none) (hcost : limit < measure chars unit)
    (h : firstCut unit chars (scanFenceRegions chars startCarry) limit = (cut, carry)) :
    1 ≤ cut ∧ cut ≤ chars.length ∧
      (∀ fc, carry = some fc → ∃ r, regionContaining (scanFenceRegions chars startCarry) cut = some r ∧
        r.start = 0 ∧ r.carry = fc ∧ cut < chars.length) ∧
      (carry = none → before fenceStep startCarry (chars.take cut) = none ∧
        (costOf unit chars cut ≤ limit ∨ cut ≤ 1)) := by
  have hwhole : ∀ n, costOf unit chars n ≤ limit → n < chars.length := by
    intro n hn
    by_contra hge
    rw [costOf, List.take_of_length_le (Nat.not_lt.1 hge)] at hn
    omega
  obtain ⟨hpos, hle, hindex⟩ := @startIndex_spec chars unit limit hchars
  unfold firstCut at h
  dsimp only at h hpos hle hindex
  generalize (if boundaryWithin chars (min (max (capFor unit chars limit) 1) chars.length) = 0
    then min (max (capFor unit chars limit) 1) chars.length
    else boundaryWithin chars (min (max (capFor unit chars limit) 1) chars.length)) = index
    at h hpos hle hindex
  unfold adjustForFences at h
  dsimp only at h
  rw [if_neg (by omega)] at h
  split at h
  · rename_i hregion
    cases h
    refine ⟨hpos, hle, by rintro _ ⟨⟩, fun _ => ⟨?_, hindex⟩⟩
    rcases Nat.lt_or_ge cut chars.length with hlt | hge
    · exact before_eq_none_of_outside hlt hregion
    · -- a cut at the end is right behind the only character
      have hone : chars.length = 1 := by
        rcases hindex with hlow | hlow
        · have hlt := hwhole cut hlow
          omega
        · omega
      obtain ⟨c, rfl⟩ := List.length_eq_one_iff.1 hone
      rw [List.take_of_length_le hge]
      exact before_singleton hend
  · rename_i r hregion
    obtain ⟨hmem, hin⟩ := regionContaining_eq_some hregion
    obtain ⟨hclosed, hbody, hlength⟩ := mem_scanFenceRegions hend hmem
    by_cases hfits : costOf unit chars r.end_ ≤ limit
    · have hlt := hwhole r.end_ hfits
      rw [if_pos hfits] at h
      cases h
      have hmin : min (max r.end_ 1) chars.length = r.end_ := by omega
      rw [hmin]
      exact ⟨by omega, hlt.le, by rintro _ ⟨⟩, fun _ =>
        ⟨before_eq_none_of_end hmem (by omega) hlt, Or.inl hfits⟩⟩
    rw [if_neg hfits] at h
    by_cases hbefore : 0 < r.start ∧ costOf unit chars r.start ≤ limit
    · have hlt := hwhole r.start hbefore.2
      rw [if_pos hbefore] at h
      cases h
      exact ⟨hbefore.1, hlt.le, by rintro _ ⟨⟩, fun _ =>
        ⟨before_eq_none_of_start hmem hbefore.1 (by omega) hlt, Or.inl hbefore.2⟩⟩
    rw [if_neg hbefore] at h
    cases carry with
    | some fc =>
      obtain ⟨hstart, hcut, -⟩ := cutInBody_some (start_le_bodyStart hmem) hbefore h
      obtain ⟨hlt, rfl⟩ := cutInBody_lt hbody (Nat.not_le.1 hfits) h
      refine ⟨hcut, by omega, fun fc hfc => ?_, by rintro ⟨⟩⟩
      exact ⟨r, regionContaining_of_start_eq_zero hmem hstart hlt, hstart, Option.some.inj hfc,
        by omega⟩
    | none =>
      obtain ⟨rfl, hstart⟩ := cutInBody_eq_start h
      have hone : index ≤ 1 := hindex.resolve_left fun hlow =>
        hbefore ⟨hstart, (costOf_mono unit chars hin.1).trans hlow⟩
      exact ⟨hstart, by omega, by rintro _ ⟨⟩, fun _ =>
        ⟨before_eq_none_of_start hmem hstart (by omega) (by omega), Or.inr (by omega)⟩⟩

/-! ## The cut that is found -/

/-- The characters in front that meet a test have no newline if the test fails for it. -/
lemma newline_notMem_takeWhile {p : Char → Bool} (hp : p '\n' = false) (text : List Char) :
    '\n' ∉ text.takeWhile p := fun h => by
  simpa [hp] using List.mem_takeWhile_imp h

/-- A link does not span lines. -/
lemma newline_notMem_link {start stop index : ℕ} (hstart : chars[start]? = some '[')
    (h : parseLinkEnd chars start = some stop) (hindex : index < stop) :
    '\n' ∉ (chars.take index).drop start := by
  obtain ⟨hlt, hbracket⟩ := List.getElem?_eq_some_iff.1 hstart
  have hdrop : chars.drop start = '[' :: chars.drop (start + 1) := by
    rw [List.drop_eq_getElem_cons hlt, hbracket]
  unfold parseLinkEnd at h
  dsimp only at h
  generalize chars.drop (start + 1) = text at h hdrop
  have hlabel : '\n' ∉ text.takeWhile fun c => c ≠ ']' && c ≠ '\n' :=
    newline_notMem_takeWhile (by decide) text
  have htext : (text.takeWhile fun c => c ≠ ']' && c ≠ '\n') ++
      text.drop (text.takeWhile fun c => c ≠ ']' && c ≠ '\n').length = text :=
    List.prefix_iff_eq_append.1 (List.takeWhile_prefix _)
  generalize (text.takeWhile fun c => c ≠ ']' && c ≠ '\n') = label at h hlabel htext
  split at h
  · rename_i rest hrest
    have hurl : '\n' ∉ rest.takeWhile fun c => c ≠ ')' && c ≠ '\n' :=
      newline_notMem_takeWhile (by decide) rest
    have hresttext : (rest.takeWhile fun c => c ≠ ')' && c ≠ '\n') ++
        rest.drop (rest.takeWhile fun c => c ≠ ')' && c ≠ '\n').length = rest :=
      List.prefix_iff_eq_append.1 (List.takeWhile_prefix _)
    generalize (rest.takeWhile fun c => c ≠ ')' && c ≠ '\n') = url at h hurl hresttext
    split at h
    · rename_i later hlater
      cases h
      have hlink : chars.drop start = ('[' :: (label ++ [']', '('] ++ url ++ [')'])) ++ later := by
        rw [hdrop, ← htext, hrest, ← hresttext, hlater]
        simp
      rw [List.drop_take, hlink, List.take_append_of_le_length (by simp; omega)]
      intro hmem
      have hall := List.mem_of_mem_take hmem
      simp [hlabel, hurl] at hall
    · cases h
  · cases h

/-- The link that a position lies in begins on the line of the position. -/
lemma newline_notMem_of_linkStartBefore {index a : ℕ} (h : linkStartBefore chars index = some a) :
    '\n' ∉ (chars.take index).drop a := by
  unfold linkStartBefore at h
  generalize index - linkScanWindow = lo at h
  generalize min index chars.length = p at h
  induction p with
  | zero => cases h
  | succ p ih =>
    unfold linkStartFrom at h
    split_ifs at h with hlo hlink
    · cases h
      obtain ⟨hbracket, hstop⟩ := hlink
      obtain ⟨stop, hstop, hlt⟩ := (Option.any_eq_true _ _).1 hstop
      simp only [Bool.and_eq_true, decide_eq_true_eq] at hlt
      exact newline_notMem_link hbracket hstop hlt.2
    · exact ih h

/-- A cut that keeps a link whole is on the same line. -/
lemma before_cutBeforeLink (index : ℕ) :
    before fenceStep startCarry (chars.take (cutBeforeLink chars index)) =
      before fenceStep startCarry (chars.take index) := by
  unfold cutBeforeLink
  split
  · rename_i a ha
    split
    · have hlt := linkStartBefore_lt ha
      have hsplit : chars.take a ++ (chars.take index).drop a = chars.take index := by
        rw [← Nat.min_eq_left hlt.le, ← List.take_take, Nat.min_eq_left hlt.le, List.take_append_drop]
      rw [← hsplit, before_append_of_notMem (newline_notMem_of_linkStartBefore ha)]
    · rfl
  · rfl

/-- **The block of code that a search takes for open at its cut is open before the line of the cut**, in
a text that does not fit and ends outside blocks of code, unless the cut is in a line that opens or
closes one. -/
theorem settledSplit_fenceCarry {startMarkers : List Marker} {split : SplitPoint}
    (hchars : chars ≠ []) (hend : after fenceStep startCarry chars = none)
    (hcost : limit < measure chars unit)
    (h : settledSplit chars limit unit startCarry startMarkers = split)
    (hline : lastLine (chars.take split.index) ≠ [] →
      fenceStep (before fenceStep startCarry (chars.take split.index))
          (lastLine (chars.take split.index) ++ firstLine (chars.drop split.index)) =
        before fenceStep startCarry (chars.take split.index)) :
    split.fenceCarry = before fenceStep startCarry (chars.take split.index) := by
  rcases hfirst : firstCut unit chars (scanFenceRegions chars startCarry) limit with ⟨cut, carry⟩
  obtain ⟨hpos, hle, hsome, hnone⟩ := firstCut_spec hchars hend hcost hfirst
  have hmin : min (if cut = 0 then min 1 chars.length else cut) chars.length = cut := by
    rw [if_neg (by omega), Nat.min_eq_left hle]
  cases carry with
  | none =>
    obtain ⟨hstate, hlow⟩ := hnone rfl
    have hshrink : shrinkCut unit chars limit cut cut = cut := by
      cases cut with
      | zero => rfl
      | succ cut =>
        rw [shrinkCut, if_neg]
        omega
    have hsplit : split = SplitPoint.ofCut chars (scanFenceRegions chars startCarry) startMarkers
        (cut, none) := by
      rw [← h, settledSplit, settledCut, hfirst]
      dsimp only
      rw [hshrink]
    rw [hsplit]
    simp only [SplitPoint.ofCut, hmin]
    rw [before_cutBeforeLink, hstate]
  | some fc =>
    have hsplit : split = ⟨cut, some fc, []⟩ := by
      rw [← h, settledSplit, settledCut, hfirst]
      simp only [SplitPoint.ofCut, hmin]
    rw [hsplit] at hline ⊢
    dsimp only at hline ⊢
    obtain ⟨r, hr, hstart, rfl, hlt⟩ := hsome fc rfl
    have hregion := lineRegion startCarry hlt
    have hlength := linesLength_cutLines (chars.take cut)
    rw [List.length_take, Nat.min_eq_left hle] at hlength
    cases hstate : before fenceStep startCarry (chars.take cut) with
    | some fc =>
      obtain ⟨r', hr', hcarry, -⟩ := hregion.isOpen fc hstate
      rw [hr] at hr'
      rw [Option.some.inj hr', hcarry]
    | none =>
      rw [hstate] at hline
      cases hnext : fenceStep none (lastLine (chars.take cut) ++ firstLine (chars.drop cut)) with
      | some fc =>
        -- the block of code would begin on the line of the cut, which is the first one
        obtain ⟨r', hr', -, hlineStart⟩ := hregion.opens fc hstate (by rw [hstate]; exact hnext)
        rw [hr] at hr'
        obtain rfl := Option.some.inj hr'
        have hne : lastLine (chars.take cut) ≠ [] := by
          rw [← List.length_pos_iff]
          omega
        rw [hnext] at hline
        exact absurd (hline hne) (Option.some_ne_none fc)
      | none =>
        have hout := hregion.outside hstate (by rw [hstate]; exact hnext)
        rw [hr] at hout
        cases hout

end MyClaw
