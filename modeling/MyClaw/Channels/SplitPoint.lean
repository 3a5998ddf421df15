import MyClaw.Channels.Markup

set_option autoImplicit false

/-!
# Where a long message is cut

The search for the position at which the next chunk of a message ends
(`find_split_point` in `channels/message/chunking.rs`).

## Main definitions

* `findSplitPoint` — the position of the cut, with what is open there.
* `Roomy` — the first cut that is tried in a block of code fits with the line that closes it.

## Main results

* `settledSplit_spec` — a cut is past the first character, and within the budget unless it
  is right behind that character.

## Implementation notes

The loop that looks for a cheaper cut in a block of code need not end, so it runs on fuel, and a
search without fuel has no result. The loop that shrinks a cut outside blocks of code moves back each
time; its fuel is the position that it starts from.
-/

namespace MyClaw

/-- `cap_for`, with what is left of the budget. -/
def capFor (unit : LenUnit) : List Char → ℕ → ℕ
  | [], _ => 0
  | c :: chars, budget =>
    if budget < charCost unit c then 0 else capFor unit chars (budget - charCost unit c) + 1

/-- `trim_to_unit_budget`. -/
def trimToUnitBudget (s : List Char) (budget : ℕ) (unit : LenUnit) : List Char :=
  if measure s unit ≤ budget then s else s.take (capFor unit s budget)

/-- `cost_of`. -/
def costOf (unit : LenUnit) (chars : List Char) (upto : ℕ) : ℕ := measure (chars.take upto) unit

/-- `find_last_pattern`. -/
def findLastPattern (chars pattern : List Char) : Option ℕ :=
  if pattern = [] ∨ chars.length < pattern.length then none
  else
    (List.range (chars.length - pattern.length + 1)).reverse.find? fun i =>
      (chars.drop i).take pattern.length = pattern

/-- `find_last_char`. -/
def findLastChar (chars : List Char) (target : Char) : Option ℕ :=
  (List.range chars.length).reverse.find? fun i => chars[i]? = some target

/-- `boundary_within`. -/
def boundaryWithin (chars : List Char) (cap : ℕ) : ℕ :=
  let cap := min cap chars.length
  if cap = 0 then 0
  else
    match findLastPattern (chars.take cap) ['\n', '\n'] with
    | some pos => pos + 2
    | none =>
      match findLastChar (chars.take cap) '\n' with
      | some pos => pos + 1
      | none =>
        match findLastChar (chars.take cap) ' ' with
        | some pos => pos + 1
        | none => min (max cap 1) chars.length

/-- The loop that walks from a position back to the beginning of its line, `lo` at the lowest. -/
def lineStartFrom (chars : List Char) (lo : ℕ) : ℕ → ℕ
  | 0 => 0
  | p + 1 => if lo < p + 1 ∧ chars[p]? ≠ some '\n' then lineStartFrom chars lo p else p + 1

/-- `body_limit_idx`: the end of the body of a region, before the line that closes it. -/
def bodyLimitIdx (chars : List Char) (reg : FenceRegion) : ℕ :=
  if reg.closed then
    let lineStart := lineStartFrom chars reg.bodyStart reg.end_
    let lastLine := ((chars.take reg.end_).drop lineStart).takeWhile (· ≠ '\n')
    if reg.carry.closedBy lastLine then lineStart else reg.end_
  else reg.end_

/-- The cut in the body of a region that is best for its lines, with the cap that the budget gives. -/
def bodyCut (chars : List Char) (reg : FenceRegion) (bodyLimit bodyCap : ℕ) : ℕ :=
  let bodyCap :=
    if bodyCap < reg.bodyStart then max (min (reg.bodyStart + 1) bodyLimit) 1 else bodyCap
  let cut :=
    if reg.bodyStart < bodyCap then
      let local_ := boundaryWithin chars bodyCap
      if reg.bodyStart < local_ then local_
      else max bodyCap (reg.bodyStart + min 1 (bodyLimit - reg.bodyStart))
    else max (min (reg.bodyStart + 1) bodyLimit) 1
  max (min cut bodyLimit) 1

/-- The cut in a region that does not fit, with what is needed to close the region there. -/
def cutInBody (unit : LenUnit) (chars : List Char) (reg : FenceRegion) (budget : ℕ) :
    ℕ × Option FenceCarry :=
  let bodyBudget := budget - measure reg.carry.closeSuffix unit
  let bodyLimit := bodyLimitIdx chars reg
  let bodyCap := min (capFor unit chars bodyBudget) bodyLimit
  let cut := bodyCut chars reg bodyLimit bodyCap
  if bodyCap < reg.bodyStart ∧ 0 < reg.start then (reg.start, none)
  else if cut ≤ reg.start then (max reg.start 1, none)
  else if cut < reg.bodyStart ∧ 0 < reg.start then (reg.start, none)
  else
    let cut := if cut < reg.bodyStart then max (min reg.bodyStart bodyLimit) 1 else cut
    if cut ≤ reg.bodyStart ∧ 0 < reg.start then (reg.start, none) else (cut, some reg.carry)

/-- `adjust_for_fences`. -/
def adjustForFences (unit : LenUnit) (chars : List Char) (regions : List FenceRegion)
    (index budget : ℕ) : ℕ × Option FenceCarry :=
  let index := if index = 0 then min 1 chars.length else index
  match regionContaining regions index with
  | none => (index, none)
  | some reg =>
    if costOf unit chars reg.end_ ≤ budget then (min (max reg.end_ 1) chars.length, none)
    else if 0 < reg.start ∧ costOf unit chars reg.start ≤ budget then (reg.start, none)
    else cutInBody unit chars reg budget

/-- The loop that looks for a cheaper cut as long as the cut costs too much with the line that closes
the block of code. -/
def revalidate (unit : LenUnit) (chars : List Char) (regions : List FenceRegion)
    (limit closeCost : ℕ) : ℕ → ℕ × FenceCarry → Option (ℕ × Option FenceCarry)
  | 0, _ => none
  | fuel + 1, (index, carry) =>
    if 0 < index ∧ limit < costOf unit chars index + closeCost then
      match adjustForFences unit chars regions (max (boundaryWithin chars (index - 1)) 1) limit with
      | (index, none) => some (index, none)
      | (index, some carry) => revalidate unit chars regions limit closeCost fuel (index, carry)
    else some (index, some carry)

/-- The final clamp of a cut in a block of code. -/
def clampCut (unit : LenUnit) (chars : List Char) (limit closeCost : ℕ) : ℕ → ℕ
  | 0 => 0
  | index + 1 =>
    if 1 < index + 1 ∧ limit < costOf unit chars (index + 1) + closeCost then
      clampCut unit chars limit closeCost index
    else index + 1

/-- The loop that shrinks a cut outside blocks of code. -/
def shrinkCut (unit : LenUnit) (chars : List Char) (limit : ℕ) : ℕ → ℕ → ℕ
  | 0, index => index
  | fuel + 1, index =>
    if 1 < index ∧ limit < costOf unit chars index then
      shrinkCut unit chars limit fuel (max (boundaryWithin chars (index - 1)) 1)
    else index

/-- `SplitPoint`. -/
structure SplitPoint where
  index : ℕ
  fenceCarry : Option FenceCarry
  markers : List Marker

/-- The first cut that the search tries. -/
def firstCut (unit : LenUnit) (chars : List Char) (regions : List FenceRegion) (limit : ℕ) :
    ℕ × Option FenceCarry :=
  let hardCap := min (max (capFor unit chars limit) 1) chars.length
  let index := boundaryWithin chars hardCap
  adjustForFences unit chars regions (if index = 0 then hardCap else index) limit

/-- The cut of the search before it keeps links whole. -/
def searchCut (fuel : ℕ) (unit : LenUnit) (chars : List Char) (regions : List FenceRegion)
    (limit : ℕ) : Option (ℕ × Option FenceCarry) :=
  match firstCut unit chars regions limit with
  | (index, some fc) =>
    (revalidate unit chars regions limit (measure fc.closeSuffix unit) fuel (index, fc)).map
      fun (index, carry) =>
        match carry with
        | some fc => (clampCut unit chars limit (measure fc.closeSuffix unit) index, some fc)
        | none => (index, none)
  | (index, none) => some (shrinkCut unit chars limit index index, none)

/-- The cut before the link that a position lies in, if the link is not at the beginning. -/
def cutBeforeLink (chars : List Char) (index : ℕ) : ℕ :=
  match linkStartBefore chars index with
  | some a => if 0 < a then a else index
  | none => index

/-- The end of the search: a cut in the text that keeps links whole, with what is open there. -/
def SplitPoint.ofCut (chars : List Char) (regions : List FenceRegion) (startMarkers : List Marker)
    (cut : ℕ × Option FenceCarry) : SplitPoint :=
  let index := min (if cut.1 = 0 then min 1 chars.length else cut.1) chars.length
  match cut.2 with
  | some fc => { index, fenceCarry := some fc, markers := [] }
  | none =>
    let index := cutBeforeLink chars index
    { index, fenceCarry := none, markers := openInlineMarkers chars index startMarkers regions }

/-- `find_split_point`. -/
def findSplitPoint (fuel : ℕ) (text : List Char) (limit : ℕ) (unit : LenUnit)
    (startCarry : Option FenceCarry) (startMarkers : List Marker) : Option SplitPoint :=
  let regions := scanFenceRegions text startCarry
  (searchCut fuel unit text regions limit).map (SplitPoint.ofCut text regions startMarkers)

/-! ## Costs and boundaries -/

variable {unit : LenUnit} {chars : List Char}

lemma costOf_mono (unit : LenUnit) (chars : List Char) {i j : ℕ} (h : i ≤ j) :
    costOf unit chars i ≤ costOf unit chars j :=
  measure_le_of_sublist (List.take_sublist_take_left h) unit

lemma costOf_capFor_le (chars : List Char) (budget : ℕ) :
    costOf unit chars (capFor unit chars budget) ≤ budget := by
  induction chars generalizing budget with
  | nil => exact Nat.zero_le _
  | cons c chars ih =>
    unfold capFor
    split
    · exact Nat.zero_le _
    · have hrest := ih (budget - charCost unit c)
      rw [costOf, List.take_succ_cons, measure_cons]
      rw [costOf] at hrest
      omega

lemma capFor_lt {budget n : ℕ} (h : budget < costOf unit chars n) : capFor unit chars budget < n := by
  induction chars generalizing budget n with
  | nil => simp [costOf] at h
  | cons c chars ih =>
    cases n with
    | zero => simp [costOf] at h
    | succ n =>
      rw [costOf, List.take_succ_cons, measure_cons] at h
      unfold capFor
      split
      · exact Nat.succ_pos n
      · have hrest : budget - charCost unit c < costOf unit chars n := by
          rw [costOf]
          omega
        exact Nat.succ_lt_succ (ih hrest)

lemma measure_trimToUnitBudget_le (s : List Char) (budget : ℕ) :
    measure (trimToUnitBudget s budget unit) unit ≤ budget := by
  unfold trimToUnitBudget
  split
  · assumption
  · exact costOf_capFor_le s budget

lemma trimToUnitBudget_isPrefix (s : List Char) (budget : ℕ) :
    trimToUnitBudget s budget unit <+: s := by
  unfold trimToUnitBudget
  split
  · exact List.prefix_refl s
  · exact List.take_prefix _ s

lemma findLastChar_lt {target : Char} {pos : ℕ} (h : findLastChar chars target = some pos) :
    pos < chars.length := by
  simpa using List.mem_of_find?_eq_some h

lemma findLastPattern_lt {pattern : List Char} {pos : ℕ}
    (h : findLastPattern chars pattern = some pos) : pos + pattern.length ≤ chars.length := by
  unfold findLastPattern at h
  split at h
  · cases h
  · next hshort =>
    have hmem := List.mem_of_find?_eq_some h
    simp only [List.mem_reverse, List.mem_range] at hmem
    omega

/-- A boundary is within the cap, and past the first character. -/
lemma boundaryWithin_bounds (chars : List Char) (cap : ℕ) :
    boundaryWithin chars cap ≤ min cap chars.length ∧
      (0 < min cap chars.length → 0 < boundaryWithin chars cap) := by
  have hlength : (chars.take (min cap chars.length)).length = min cap chars.length := by simp
  unfold boundaryWithin
  dsimp only
  split
  · omega
  · split
    · next hpos =>
      have hle := findLastPattern_lt hpos
      rw [hlength] at hle
      exact ⟨hle, fun _ => Nat.succ_pos _⟩
    · split
      · next hpos =>
        have hlt := findLastChar_lt hpos
        rw [hlength] at hlt
        exact ⟨hlt, fun _ => Nat.succ_pos _⟩
      · split
        · next hpos =>
          have hlt := findLastChar_lt hpos
          rw [hlength] at hlt
          exact ⟨hlt, fun _ => Nat.succ_pos _⟩
        · omega

lemma lineStartFrom_le (chars : List Char) (lo p : ℕ) : lineStartFrom chars lo p ≤ p := by
  induction p with
  | zero => exact Nat.le_refl 0
  | succ p ih =>
    unfold lineStartFrom
    split
    · exact ih.trans (Nat.le_succ p)
    · exact Nat.le_refl _

lemma bodyLimitIdx_le (chars : List Char) (reg : FenceRegion) :
    bodyLimitIdx chars reg ≤ reg.end_ := by
  unfold bodyLimitIdx
  split
  · dsimp only
    split
    · exact lineStartFrom_le ..
    · exact Nat.le_refl _
  · exact Nat.le_refl _

/-! ## Cuts in blocks of code -/

lemma bodyCut_bounds (chars : List Char) (reg : FenceRegion) (bodyLimit bodyCap : ℕ) :
    1 ≤ bodyCut chars reg bodyLimit bodyCap ∧
      bodyCut chars reg bodyLimit bodyCap ≤ max bodyLimit 1 := by
  unfold bodyCut
  dsimp only
  omega

/-- A cut in a block of code is in the body of a block that begins with the text. -/
lemma cutInBody_some {reg : FenceRegion} {budget cut : ℕ} {fc : FenceCarry}
    (hbody : reg.start ≤ reg.bodyStart)
    (hbegins : ¬(0 < reg.start ∧ costOf unit chars reg.start ≤ budget))
    (h : cutInBody unit chars reg budget = (cut, some fc)) :
    reg.start = 0 ∧ 1 ≤ cut ∧ cut ≤ max (bodyLimitIdx chars reg) 1 := by
  have hstart : reg.start = 0 := by
    by_contra hne
    have hpos : 0 < reg.start := Nat.pos_of_ne_zero hne
    have hcost : budget < costOf unit chars reg.start := by
      by_contra hle
      exact hbegins ⟨hpos, Nat.not_lt.1 hle⟩
    have hcap : capFor unit chars (budget - measure reg.carry.closeSuffix unit) < reg.start :=
      capFor_lt (by omega)
    rw [cutInBody, if_pos ⟨by omega, hpos⟩] at h
    cases h
  have hzero : ¬0 < reg.start := by omega
  simp only [cutInBody, hzero, and_false, if_false] at h
  have hbounds := bodyCut_bounds chars reg (bodyLimitIdx chars reg) (min
    (capFor unit chars (budget - measure reg.carry.closeSuffix unit)) (bodyLimitIdx chars reg))
  generalize bodyCut chars reg _ _ = found at h hbounds
  split at h
  · cases h
  · obtain ⟨rfl, -⟩ := Prod.mk.inj h
    refine ⟨hstart, ?_, ?_⟩
    · split <;> omega
    · split <;> omega

/-- A cut before or behind a block of code is past the first character. -/
lemma cutInBody_none {reg : FenceRegion} {budget cut : ℕ}
    (h : cutInBody unit chars reg budget = (cut, none)) : 1 ≤ cut := by
  unfold cutInBody at h
  dsimp only at h
  split_ifs at h <;> cases h <;> omega

/-- A cut that is outside blocks of code after the adjustment is past the first character. -/
lemma adjustForFences_none {regions : List FenceRegion} {index budget cut : ℕ} (hchars : chars ≠ [])
    (h : adjustForFences unit chars regions index budget = (cut, none)) : 1 ≤ cut := by
  have hlength := List.length_pos_iff.2 hchars
  unfold adjustForFences at h
  dsimp only at h
  split at h
  · cases h
    split <;> omega
  · split_ifs at h with hfits hbefore
    · cases h
      omega
    · cases h
      exact hbefore.1
    · exact cutInBody_none h

/-- **A cut in a block of code does not depend on where the search has been**: from each position in
the block, the adjustment has the same result. -/
lemma adjustForFences_some {startCarry : Option FenceCarry} {index budget cut : ℕ} {fc : FenceCarry}
    (hindex : 1 ≤ index)
    (h : adjustForFences unit chars (scanFenceRegions chars startCarry) index budget =
      (cut, some fc)) :
    1 ≤ cut ∧ adjustForFences unit chars (scanFenceRegions chars startCarry)
      (max (boundaryWithin chars (cut - 1)) 1) budget = (cut, some fc) := by
  have hne : ∀ i : ℕ, 1 ≤ i → (if i = 0 then min 1 chars.length else i) = i := by
    intro i hi
    rw [if_neg (by omega)]
  unfold adjustForFences at h ⊢
  dsimp only at h ⊢
  rw [hne index hindex] at h
  split at h
  · cases h
  · next reg hreg =>
    by_cases hfits : costOf unit chars reg.end_ ≤ budget
    · rw [if_pos hfits] at h
      cases h
    by_cases hbefore : 0 < reg.start ∧ costOf unit chars reg.start ≤ budget
    · rw [if_neg hfits, if_pos hbefore] at h
      cases h
    rw [if_neg hfits, if_neg hbefore] at h
    have hmem := List.mem_of_find?_eq_some hreg
    have hin := List.find?_some hreg
    simp only [decide_eq_true_eq] at hin
    obtain ⟨hstart, hcut, hle⟩ := cutInBody_some (start_le_bodyStart hmem) hbefore h
    -- the next position tried is in the same region
    have hbound := (boundaryWithin_bounds chars (cut - 1)).1
    have hend := bodyLimitIdx_le chars reg
    have hnext : max (boundaryWithin chars (cut - 1)) 1 < reg.end_ := by omega
    rw [hne _ (Nat.le_max_right _ _), regionContaining_of_start_eq_zero hmem hstart hnext]
    dsimp only
    rw [if_neg hfits, if_neg hbefore]
    exact ⟨hcut, h⟩

/-! ## The search -/

/-- The first cut that the search tries, if it is in a block of code, fits with the line that closes
the block. -/
def Roomy (unit : LenUnit) (chars : List Char) (startCarry : Option FenceCarry) (limit : ℕ) : Prop :=
  ∀ cut fc, firstCut unit chars (scanFenceRegions chars startCarry) limit = (cut, some fc) →
    costOf unit chars cut + measure fc.closeSuffix unit ≤ limit

/-- The cut of a search that ends. -/
def settledCut (unit : LenUnit) (chars : List Char) (regions : List FenceRegion) (limit : ℕ) :
    ℕ × Option FenceCarry :=
  match firstCut unit chars regions limit with
  | (cut, some fc) => (cut, some fc)
  | (cut, none) => (shrinkCut unit chars limit cut cut, none)

lemma clampCut_eq {limit closeCost cut : ℕ} (h : costOf unit chars cut + closeCost ≤ limit) :
    clampCut unit chars limit closeCost cut = cut := by
  cases cut with
  | zero => rfl
  | succ cut => rw [clampCut, if_neg (by omega)]

/-- The loop that shrinks a cut keeps it past the first character, and comes within the limit unless
it gets there. -/
lemma shrinkCut_spec (unit : LenUnit) (chars : List Char) {limit fuel cut : ℕ} (hcut : 1 ≤ cut)
    (hfuel : cut ≤ fuel) :
    1 ≤ shrinkCut unit chars limit fuel cut ∧
      (costOf unit chars (shrinkCut unit chars limit fuel cut) ≤ limit ∨
        shrinkCut unit chars limit fuel cut = 1) := by
  induction fuel generalizing cut with
  | zero => omega
  | succ fuel ih =>
    unfold shrinkCut
    split
    · have hbound := (boundaryWithin_bounds chars (cut - 1)).1
      exact ih (Nat.le_max_right _ _) (by omega)
    · exact ⟨hcut, by omega⟩

lemma firstCut_pos_index (hchars : chars ≠ []) (limit : ℕ) :
    1 ≤ if boundaryWithin chars (min (max (capFor unit chars limit) 1) chars.length) = 0 then
      min (max (capFor unit chars limit) 1) chars.length
    else boundaryWithin chars (min (max (capFor unit chars limit) 1) chars.length) := by
  have hlength := List.length_pos_iff.2 hchars
  split <;> omega

/-- A loop that looks for a cheaper cut in a block of code has found one before it starts, or never
ends. -/
lemma revalidate_eq_some {startCarry : Option FenceCarry} {limit fuel cut : ℕ} {fc : FenceCarry}
    {found : ℕ × Option FenceCarry} (hcut : 1 ≤ cut)
    (hstays : adjustForFences unit chars (scanFenceRegions chars startCarry)
      (max (boundaryWithin chars (cut - 1)) 1) limit = (cut, some fc))
    (h : revalidate unit chars (scanFenceRegions chars startCarry) limit
      (measure fc.closeSuffix unit) fuel (cut, fc) = some found) :
    costOf unit chars cut + measure fc.closeSuffix unit ≤ limit ∧ found = (cut, some fc) := by
  induction fuel with
  | zero => cases h
  | succ fuel ih =>
    rw [revalidate] at h
    split at h
    · rw [hstays] at h
      exact ih h
    · cases h
      exact ⟨by omega, rfl⟩

/-- **The search ends with its first cut**, which is roomy. -/
lemma searchCut_eq_some {startCarry : Option FenceCarry} {limit fuel : ℕ}
    {cut : ℕ × Option FenceCarry} (hchars : chars ≠ [])
    (h : searchCut fuel unit chars (scanFenceRegions chars startCarry) limit = some cut) :
    Roomy unit chars startCarry limit ∧
      cut = settledCut unit chars (scanFenceRegions chars startCarry) limit := by
  unfold searchCut at h
  rcases hfirst : firstCut unit chars (scanFenceRegions chars startCarry) limit with ⟨index, _ | fc⟩
  · rw [hfirst] at h
    cases h
    refine ⟨fun cut fc hcut => ?_, by rw [settledCut, hfirst]⟩
    rw [hfirst] at hcut
    cases hcut
  · obtain ⟨hpos, hstays⟩ := adjustForFences_some (firstCut_pos_index hchars limit) hfirst
    rw [hfirst] at h
    obtain ⟨found, hfound, rfl⟩ := Option.map_eq_some_iff.1 h
    obtain ⟨hroom, rfl⟩ := revalidate_eq_some hpos hstays hfound
    refine ⟨fun cut fc' hcut => ?_, ?_⟩
    · rw [hfirst] at hcut
      cases hcut
      exact hroom
    · rw [settledCut, hfirst]
      dsimp only
      rw [clampCut_eq hroom]

/-- A search whose first cut is roomy ends. -/
lemma searchCut_of_roomy {startCarry : Option FenceCarry} {limit : ℕ}
    (h : Roomy unit chars startCarry limit) (fuel : ℕ) :
    searchCut (fuel + 1) unit chars (scanFenceRegions chars startCarry) limit =
      some (settledCut unit chars (scanFenceRegions chars startCarry) limit) := by
  unfold searchCut settledCut
  rcases hfirst : firstCut unit chars (scanFenceRegions chars startCarry) limit with ⟨index, _ | fc⟩
  · rfl
  · have hroom := h index fc hfirst
    dsimp only
    rw [revalidate, if_neg (by omega)]
    simp only [Option.map_some, clampCut_eq hroom]

/-- The result of a search that ends. -/
def settledSplit (text : List Char) (limit : ℕ) (unit : LenUnit) (startCarry : Option FenceCarry)
    (startMarkers : List Marker) : SplitPoint :=
  SplitPoint.ofCut text (scanFenceRegions text startCarry) startMarkers
    (settledCut unit text (scanFenceRegions text startCarry) limit)

lemma findSplitPoint_eq_some {text : List Char} {limit fuel : ℕ} {startCarry : Option FenceCarry}
    {startMarkers : List Marker} {split : SplitPoint} (htext : text ≠ [])
    (h : findSplitPoint fuel text limit unit startCarry startMarkers = some split) :
    Roomy unit text startCarry limit ∧
      split = settledSplit text limit unit startCarry startMarkers := by
  obtain ⟨cut, hcut, rfl⟩ := Option.map_eq_some_iff.1 h
  obtain ⟨hroom, rfl⟩ := searchCut_eq_some htext hcut
  exact ⟨hroom, rfl⟩

lemma findSplitPoint_of_roomy {text : List Char} {limit : ℕ} {startCarry : Option FenceCarry}
    (h : Roomy unit text startCarry limit) (startMarkers : List Marker) (fuel : ℕ) :
    findSplitPoint (fuel + 1) text limit unit startCarry startMarkers =
      some (settledSplit text limit unit startCarry startMarkers) := by
  rw [findSplitPoint, searchCut_of_roomy h]
  rfl

/-! ## The cut that is found -/

lemma cutBeforeLink_bounds (chars : List Char) (index : ℕ) :
    cutBeforeLink chars index ≤ index ∧ (1 ≤ index → 1 ≤ cutBeforeLink chars index) := by
  unfold cutBeforeLink
  split
  · next a ha =>
    have hlt := linkStartBefore_lt ha
    split <;> omega
  · exact ⟨Nat.le_refl _, id⟩

/-- The cut of a search is past the first character, and within the limit unless it is right behind
that character. -/
lemma settledCut_spec {startCarry : Option FenceCarry} {limit : ℕ} (hchars : chars ≠ [])
    (hroom : Roomy unit chars startCarry limit) {cut : ℕ × Option FenceCarry}
    (h : settledCut unit chars (scanFenceRegions chars startCarry) limit = cut) :
    1 ≤ cut.1 ∧
      (∀ fc, cut.2 = some fc → costOf unit chars cut.1 + measure fc.closeSuffix unit ≤ limit) ∧
      (cut.2 = none → costOf unit chars cut.1 ≤ limit ∨ cut.1 = 1) := by
  unfold settledCut at h
  rcases hfirst : firstCut unit chars (scanFenceRegions chars startCarry) limit with ⟨index, _ | fc⟩
  · rw [hfirst] at h
    cases h
    have hpos : 1 ≤ index := adjustForFences_none hchars hfirst
    obtain ⟨hshrunk, hcost⟩ := shrinkCut_spec unit chars hpos (Nat.le_refl index)
    exact ⟨hshrunk, nofun, fun _ => hcost⟩
  · rw [hfirst] at h
    cases h
    have hpos := (adjustForFences_some (firstCut_pos_index hchars limit) hfirst).1
    refine ⟨hpos, fun fc' hfc => ?_, nofun⟩
    cases hfc
    exact hroom index fc hfirst

/-- **The cut that is found**: it is past the first character. In a block of code, it fits with the
line that closes the block; outside, it is within the limit unless it is right behind the first
character, and no marker is open twice. -/
theorem settledSplit_spec {text : List Char} {limit : ℕ} {startCarry : Option FenceCarry}
    {startMarkers : List Marker} (htext : text ≠ []) (hroom : Roomy unit text startCarry limit)
    (hmarkers : MarkersPlaced startMarkers) {split : SplitPoint}
    (h : settledSplit text limit unit startCarry startMarkers = split) :
    1 ≤ split.index ∧
      (∀ fc, split.fenceCarry = some fc →
        costOf unit text split.index + measure fc.closeSuffix unit ≤ limit) ∧
      (split.fenceCarry = none → costOf unit text split.index ≤ limit ∨ split.index = 1) ∧
      MarkersPlaced split.markers := by
  have hlength := List.length_pos_iff.2 htext
  obtain ⟨hpos, hfence, hplain⟩ := settledCut_spec htext hroom rfl
  unfold settledSplit at h
  generalize settledCut unit text (scanFenceRegions text startCarry) limit = cut at *
  obtain ⟨cut, _ | fc⟩ := cut
  · unfold SplitPoint.ofCut at h
    dsimp only at h hpos hplain
    rw [if_neg (by omega)] at h
    subst h
    -- a link that the cut lies in moves the cut back
    have hlink := cutBeforeLink_bounds text (min cut text.length)
    have hcost := costOf_mono unit text (hlink.1.trans (Nat.min_le_left _ _))
    refine ⟨hlink.2 (by omega), nofun, fun _ => ?_, hmarkers.openInlineMarkers ..⟩
    have hplain := hplain rfl
    have hback := hlink.2 (by omega)
    dsimp only
    omega
  · unfold SplitPoint.ofCut at h
    dsimp only at h hpos hfence
    rw [if_neg (by omega)] at h
    subst h
    have hcost := costOf_mono unit text (Nat.min_le_left cut text.length)
    refine ⟨by dsimp only; omega, fun fc' hfc => ?_, nofun, MarkersPlaced.nil⟩
    cases hfc
    have hfence := hfence fc rfl
    dsimp only
    omega

end MyClaw
