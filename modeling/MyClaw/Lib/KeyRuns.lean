import Mathlib.Data.List.SplitBy
import Mathlib.Data.List.TakeWhile

set_option autoImplicit false

/-!
# Runs of one key

A list whose items have keys, its runs (the longest stretches of one key), the program that folds
neighbours of one key into one item, and the keys of the runs in which some item counts.

## Main definitions

* `KeyRuns.runs` — the runs of a list.
* `KeyRuns.mergeStep` — an item is folded into the last one of an output if they have one key.
* `KeyRuns.keptKeys` — the keys of the runs that have an item that counts.

## Main results

* `KeyRuns.foldl_mergeStep` — folding neighbours is folding the runs.
* `KeyRuns.exists_run_of_infix` — a stretch of one key is within a run.
* `KeyRuns.isChain_keptKeys_iff` — when the keys of the runs that count alternate.

## Implementation notes

The runs are `List.splitBy` at the equality of keys.
-/

namespace KeyRuns

universe u v

variable {α : Type u} {κ : Type v} [DecidableEq κ] (key : α → κ)

/-- The longest stretches of one key. -/
def runs (l : List α) : List (List α) := l.splitBy fun a b => key a = key b

@[simp] lemma runs_nil : runs key [] = [] := rfl

/-- The first run goes on as long as the key of the first item does. -/
lemma runs_cons (a : α) (l : List α) :
    runs key (a :: l) =
      (a :: l.takeWhile fun b => key b = key a) :: runs key (l.dropWhile fun b => key b = key a) := by
  have hfirst : ∀ b ∈ a :: l.takeWhile fun b => key b = key a, key b = key a := by
    intro b hb
    rcases List.mem_cons.1 hb with rfl | hb
    · rfl
    · simpa using List.mem_takeWhile_imp hb
  have hchain : (a :: l.takeWhile fun b => key b = key a).IsChain
      fun b c => (decide (key b = key c) : Bool) := by
    refine List.Pairwise.isChain (List.pairwise_of_forall_mem_list fun b hb c hc => ?_)
    exact decide_eq_true ((hfirst b hb).trans (hfirst c hc).symm)
  have happ : a :: l = (a :: l.takeWhile fun b => key b = key a) ++
      l.dropWhile fun b => key b = key a := by
    rw [List.cons_append, List.takeWhile_append_dropWhile]
  rw [runs, happ, List.splitBy_append, List.splitBy_of_isChain (List.cons_ne_nil _ _) hchain]
  · rfl
  · intro b hb c hc
    have hhead := List.head?_dropWhile_not (fun b => decide (key b = key a)) l
    rw [Option.mem_def.1 hc] at hhead
    have hb' := hfirst b (List.mem_of_mem_getLast? hb)
    have hc' : key c ≠ key a := of_decide_eq_false hhead
    exact decide_eq_false fun h => hc' (h.symm.trans hb')

/-- The runs make up the list. -/
lemma flatten_runs (l : List α) : (runs key l).flatten = l := List.flatten_splitBy _ l

/-- No run is empty. -/
lemma ne_nil_of_mem_runs {l g : List α} (h : g ∈ runs key l) : g ≠ [] :=
  List.ne_nil_of_mem_splitBy h

/-- A run is a stretch of the list. -/
lemma isInfix_of_mem_runs {l g : List α} (h : g ∈ runs key l) : g <:+: l := by
  rw [← flatten_runs key l]
  obtain ⟨front, back, hruns⟩ := List.append_of_mem h
  exact ⟨front.flatten, back.flatten, by rw [hruns, List.flatten_append, List.flatten_cons,
    List.append_assoc]⟩

/-- The items of a run have one key. -/
lemma key_eq_of_mem_runs {l g : List α} (h : g ∈ runs key l) {a b : α} (ha : a ∈ g) (hb : b ∈ g) :
    key a = key b := by
  have hchain : g.IsChain fun a b => key a = key b :=
    (List.isChain_of_mem_splitBy h).imp fun _ _ hab => of_decide_eq_true hab
  have htrans : IsTrans α fun a b => key a = key b := ⟨fun _ _ _ => Eq.trans⟩
  have hsymm : Std.Symm fun a b : α => key a = key b := ⟨fun _ _ => Eq.symm⟩
  have hpairwise : g.Pairwise fun a b => key a = key b := List.isChain_iff_pairwise.1 hchain
  exact List.Pairwise.forall_of_forall (R := fun a b => key a = key b) (fun _ _ => rfl) hpairwise ha hb

/-- An item in front only makes the first run longer. -/
lemma exists_run_cons {l g : List α} (a : α) (h : g ∈ runs key l) :
    ∃ g' ∈ runs key (a :: l), g <:+: g' := by
  cases l with
  | nil => exact absurd h List.not_mem_nil
  | cons b l =>
    by_cases hb : key b = key a
    · rw [runs_cons, List.takeWhile_cons_of_pos (by simp [hb]),
        List.dropWhile_cons_of_pos (by simp [hb])]
      rw [runs_cons, hb] at h
      rcases List.mem_cons.1 h with rfl | h
      · exact ⟨_, List.mem_cons_self, (List.suffix_cons _ _).isInfix⟩
      · exact ⟨g, List.mem_cons_of_mem _ h, List.infix_rfl⟩
    · rw [runs_cons, List.takeWhile_cons_of_neg (by simp [hb]),
        List.dropWhile_cons_of_neg (by simp [hb])]
      exact ⟨g, List.mem_cons_of_mem _ h, List.infix_rfl⟩

/-- **A stretch of one key is within a run.** -/
theorem exists_run_of_infix {l s : List α} (h : s <:+: l) (hne : s ≠ [])
    (hkey : ∀ a ∈ s, ∀ b ∈ s, key a = key b) : ∃ g ∈ runs key l, s <:+: g := by
  obtain ⟨front, back, rfl⟩ := h
  induction front with
  | nil =>
    cases s with
    | nil => exact absurd rfl hne
    | cons b s =>
      refine ⟨_, by rw [List.nil_append, List.cons_append, runs_cons]; exact List.mem_cons_self, ?_⟩
      rw [List.takeWhile_append_of_pos fun c hc =>
        decide_eq_true (hkey c (List.mem_cons_of_mem b hc) b List.mem_cons_self)]
      exact (List.prefix_append (b :: s) _).isInfix
  | cons a front ih =>
    obtain ⟨g, hg, hs⟩ := ih
    obtain ⟨g', hg', hgg'⟩ := exists_run_cons key a hg
    exact ⟨g', hg', hs.trans hgg'⟩

/-- An item that is not the first follows another one. -/
lemma exists_pair_of_mem_tail {l : List α} {b : α} (h : b ∈ l.tail) : ∃ a, [a, b] <:+: l := by
  obtain ⟨front, back, htail⟩ := List.append_of_mem h
  cases l with
  | nil => exact absurd h List.not_mem_nil
  | cons a l =>
    rw [List.tail_cons] at htail
    subst htail
    rcases List.eq_nil_or_concat front with rfl | ⟨front, c, rfl⟩
    · exact ⟨a, [], back, rfl⟩
    · exact ⟨c, a :: front, back, by simp⟩

/-- What holds of any two items in order holds of the ends of any stretch. -/
lemma pairwise_iff_infix {R : α → α → Prop} {l : List α} :
    l.Pairwise R ↔ ∀ a between b, a :: between ++ [b] <:+: l → R a b := by
  rw [List.pairwise_iff_forall_sublist]
  constructor
  · intro h a between b hin
    refine h (List.Sublist.trans ?_ hin.sublist)
    exact List.Sublist.cons_cons a (List.sublist_append_right between [b])
  · intro h a b hsub
    obtain ⟨left, right, rfl, ha, hb⟩ := List.cons_sublist_iff.1 hsub
    obtain ⟨front, before, rfl⟩ := List.append_of_mem ha
    obtain ⟨behind, back, rfl⟩ := List.append_of_mem (List.singleton_sublist.1 hb)
    exact h a (before ++ behind) b ⟨front, back, by simp⟩

/-- The runs of the items that stand for others. -/
lemma runs_map {β : Type*} (f : β → α) (l : List β) :
    runs key (l.map f) = (runs (fun b => key (f b)) l).map (List.map f) := by
  induction hlen : l.length using Nat.strong_induction_on generalizing l with
  | _ n ih =>
    subst hlen
    cases l with
    | nil => rfl
    | cons b l =>
      rw [List.map_cons, runs_cons, runs_cons, List.takeWhile_map, List.dropWhile_map, List.map_cons,
        List.map_cons]
      congr 1
      exact ih _ (Nat.lt_succ_of_le (List.length_dropWhile_le _ l)) _ rfl

/-! ## Folding neighbours -/

section Merge

variable (join : α → α → α)

/-- An item is folded into the last one if they have one key. -/
def mergeStep (acc : List α) (a : α) : List α :=
  match acc.getLast? with
  | none => acc ++ [a]
  | some last => if key last = key a then acc.dropLast ++ [join last a] else acc ++ [a]

/-- A run as one item. -/
def joinRun : List α → Option α
  | [] => none
  | a :: rest => some (rest.foldl join a)

/-- The last item of an output and what follows it make up its runs. -/
lemma foldl_mergeStep_append (hjoin : ∀ a b, key (join a b) = key a) (acc : List α) (last : α)
    (l : List α) :
    l.foldl (mergeStep key join) (acc ++ [last]) =
      acc ++ (runs key (last :: l)).filterMap (joinRun join) := by
  induction l generalizing acc last with
  | nil => rw [runs_cons]; simp [joinRun]
  | cons b l ih =>
    rw [List.foldl_cons, mergeStep, List.getLast?_concat]
    dsimp only
    by_cases hb : key last = key b
    · rw [if_pos hb, List.dropLast_concat, ih]
      rw [runs_cons, runs_cons, hjoin, List.takeWhile_cons_of_pos (by simp [hb]),
        List.dropWhile_cons_of_pos (by simp [hb])]
      rfl
    · have hb' : ¬ key b = key last := fun h => hb h.symm
      rw [if_neg hb, ih, runs_cons key last, List.takeWhile_cons_of_neg (by simp [hb']),
        List.dropWhile_cons_of_neg (by simp [hb']), List.filterMap_cons_some (by rfl),
        List.append_assoc]
      rfl

/-- **Folding neighbours of one key is folding the runs.** -/
theorem foldl_mergeStep (hjoin : ∀ a b, key (join a b) = key a) (l : List α) :
    l.foldl (mergeStep key join) [] = (runs key l).filterMap (joinRun join) := by
  cases l with
  | nil => rfl
  | cons a l => exact foldl_mergeStep_append key join hjoin [] a l

end Merge

/-! ## The runs that count -/

section Kept

variable (shown : α → Bool)

/-- The key of a run in which some item counts. -/
def keptKey (g : List α) : Option κ := if g.any shown then g.head?.map key else none

/-- The keys of the runs in which some item counts. -/
def keptKeys (l : List α) : List κ := (runs key l).filterMap (keptKey key shown)

/-- What counts at the front, and the rest of the runs. -/
lemma keptKeys_span (k : κ) (l : List α) :
    keptKeys key shown l =
      (if (l.takeWhile fun b => key b = k).any shown then [k] else []) ++
        keptKeys key shown (l.dropWhile fun b => key b = k) := by
  cases l with
  | nil => rfl
  | cons b l =>
    by_cases hb : key b = k
    · subst hb
      rw [List.takeWhile_cons_of_pos (by simp), List.dropWhile_cons_of_pos (by simp), keptKeys,
        runs_cons]
      by_cases hany : (b :: l.takeWhile fun c => key c = key b).any shown
      · rw [if_pos hany, List.filterMap_cons_some (by rw [keptKey, if_pos hany]; rfl)]
        rfl
      · rw [if_neg hany, List.filterMap_cons_none (by rw [keptKey, if_neg hany])]
        rfl
    · rw [List.takeWhile_cons_of_neg (by simp [hb]), List.dropWhile_cons_of_neg (by simp [hb])]
      rfl

/-- An item that counts adds its key unless its run has another such item behind it. -/
lemma keptKeys_cons (a : α) (l : List α) :
    keptKeys key shown (a :: l) =
      if shown a ∧ ¬ (l.takeWhile fun b => key b = key a).any shown then
        key a :: keptKeys key shown l
      else keptKeys key shown l := by
  rw [keptKeys_span key shown (key a) (a :: l), keptKeys_span key shown (key a) l,
    List.takeWhile_cons_of_pos (by simp), List.dropWhile_cons_of_pos (by simp), List.any_cons]
  cases shown a <;> cases (l.takeWhile fun b => key b = key a).any shown <;> simp

/-- The first item that counts may be among those in front that meet a condition. -/
lemma find?_of_any_takeWhile {shown p : α → Bool} {l : List α} (h : (l.takeWhile p).any shown) :
    ∃ b, l.find? shown = some b ∧ p b := by
  obtain ⟨b, hb⟩ := Option.isSome_iff_exists.1 (List.find?_isSome.2 (List.any_eq_true.1 h))
  refine ⟨b, ?_, List.mem_takeWhile_imp (List.mem_of_find?_eq_some hb)⟩
  rw [← List.takeWhile_append_dropWhile (p := p) (l := l), List.find?_append, hb]
  rfl

/-- The first run that counts is the one of the first item that counts. -/
lemma head?_keptKeys (l : List α) : (keptKeys key shown l).head? = (l.find? shown).map key := by
  induction l with
  | nil => rfl
  | cons a l ih =>
    rw [keptKeys_cons]
    cases ha : shown a with
    | false => simp [ha, ih]
    | true =>
      rw [List.find?_cons_of_pos ha]
      by_cases hmore : (l.takeWhile fun b => key b = key a).any shown
      · rw [if_neg (by simp [hmore]), ih]
        obtain ⟨b, hfind, hb⟩ := find?_of_any_takeWhile hmore
        rw [hfind]
        exact congrArg some (of_decide_eq_true hb)
      · rw [if_pos ⟨rfl, hmore⟩]
        rfl

/-- Two items of one key that count, with nothing between them that counts, are in one run. -/
def NothingHidden (l : List α) : Prop :=
  ∀ a between b, a :: between ++ [b] <:+: l → shown a → shown b → key b = key a →
    (∀ c ∈ between, ¬ shown c) → ∀ c ∈ between, key c = key a

omit [DecidableEq κ] in
/-- Nothing is hidden in a list and between its first item and the next that counts. -/
lemma nothingHidden_cons (a : α) (l : List α) :
    NothingHidden key shown (a :: l) ↔ NothingHidden key shown l ∧
      (shown a → ∀ between b, between ++ [b] <+: l → shown b → key b = key a →
        (∀ c ∈ between, ¬ shown c) → ∀ c ∈ between, key c = key a) := by
  constructor
  · intro h
    refine ⟨fun x between b hin => h x between b (hin.trans (List.suffix_cons a l).isInfix), ?_⟩
    intro ha between b hin
    exact h a between b ((List.prefix_cons_inj a).2 hin).isInfix ha
  · rintro ⟨h, hfirst⟩ x between b hin
    rcases List.infix_cons_iff.1 hin with hin | hin
    · rw [List.cons_append, List.cons_prefix_cons] at hin
      obtain ⟨rfl, hin'⟩ := hin
      exact fun hx => hfirst hx between b hin'
    · exact h x between b hin

/-- What is in front of the first item that counts. -/
lemma find?_of_isPrefix {between l : List α} {b : α} (hb : shown b)
    (hbetween : ∀ c ∈ between, ¬ shown c) (h : between ++ [b] <+: l) : l.find? shown = some b := by
  obtain ⟨rest, rfl⟩ := h
  rw [List.append_assoc, List.find?_append, List.find?_eq_none.2 hbetween]
  exact List.find?_cons_of_pos hb

/-- **When the keys of the runs that count alternate**: no run without an item that counts stands
between two runs of one key. -/
theorem isChain_keptKeys_iff (l : List α) :
    (keptKeys key shown l).IsChain (· ≠ ·) ↔ NothingHidden key shown l := by
  induction l with
  | nil =>
    refine ⟨fun _ a between b h => ?_, fun _ => List.isChain_nil⟩
    simp at h
  | cons a l ih =>
    rw [nothingHidden_cons, ← ih, keptKeys_cons]
    split_ifs with h
    · rw [List.isChain_cons, and_comm, head?_keptKeys]
      refine and_congr_right fun _ => ⟨fun hhead _ between b hin hb hkey hbetween => ?_, ?_⟩
      · rw [find?_of_isPrefix shown hb hbetween hin] at hhead
        exact absurd hkey.symm (hhead _ rfl)
      · -- the first item behind that counts would be in the run of `a`
        intro hrun k hk hka
        obtain ⟨b, hfind, rfl⟩ := Option.map_eq_some_iff.1 (Option.mem_def.1 hk)
        obtain ⟨hb, between, rest, rfl, hbetween⟩ := List.find?_eq_some_iff_append.1 hfind
        have hkeys := hrun h.1 between b ⟨rest, by simp⟩ hb hka.symm (by simpa using hbetween)
        refine h.2 (List.any_eq_true.2 ⟨b, ?_, hb⟩)
        rw [List.takeWhile_append_of_pos fun c hc => decide_eq_true (hkeys c hc),
          List.takeWhile_cons_of_pos (by simp [hka])]
        exact List.mem_append_right _ List.mem_cons_self
    · refine (and_iff_left_of_imp fun _ ha between b hin hb _ hbetween c hc => ?_).symm
      have hany : (l.takeWhile fun b => key b = key a).any shown := by_contra fun hany => h ⟨ha, hany⟩
      have hkey : ∀ c ∈ l.takeWhile (fun b => key b = key a), key c = key a := fun c hc => by
        simpa using List.mem_takeWhile_imp hc
      rcases List.prefix_or_prefix_of_prefix hin (List.takeWhile_prefix fun b => key b = key a) with
        hle | hle
      · exact hkey c (hle.subset (List.mem_append_left _ hc))
      · rcases List.prefix_concat_iff.1 hle with heq | hle
        · exact hkey c (heq ▸ List.mem_append_left _ hc)
        · obtain ⟨d, hd, hshown⟩ := List.any_eq_true.1 hany
          exact absurd hshown (hbetween d (hle.subset hd))

end Kept

end KeyRuns
