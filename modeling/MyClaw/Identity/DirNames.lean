import Mathlib.Data.List.Chain
import MyClaw.Identity.Ids

set_option autoImplicit false

/-!
# Directory names of identifiers

`dir_name` (`ids/mod.rs`) writes an identifier as one segment of a path: an underscore is doubled and
a slash becomes an underscore.  `id_from_dir` is to be its inverse.

## Main definitions

* `idFromDir` — `id_from_dir`.
* `SlashesApart` — no slash of the identifier has a slash or an underscore behind it.

## Main results

* `dirNames_oneToOne_iff` — the names of some identifiers correspond to them one to one exactly
  when the slashes of each of them are apart.
-/

namespace MyClaw

/-- The loop of `id_from_dir`. -/
def idFromDirChars : List Char → List Char
  | [] => []
  | '_' :: '_' :: name => '_' :: idFromDirChars name
  | c :: name => (if c = '_' then '/' else c) :: idFromDirChars name

/-- `id_from_dir`. -/
def idFromDir (name : String) : String := String.ofList (idFromDirChars name.toList)

/-- The characters of `dir_name`. -/
def dirChars (id : List Char) : List Char :=
  id.flatMap fun c => if c = '_' then ['_', '_'] else if c = '/' then ['_'] else [c]

/-- **No slash is followed** by a slash or an underscore. -/
def SlashesApart (id : String) : Prop :=
  id.toList.IsChain fun a b => a = '/' → b ≠ '/' ∧ b ≠ '_'

/-! ## Writing a name -/

section

variable {c : Char} {id name : List Char}

lemma dirName_eq (id : String) : dirName id = String.ofList (dirChars id.toList) := rfl

lemma idFromDir_dirName (id : String) :
    idFromDir (dirName id) = String.ofList (idFromDirChars (dirChars id.toList)) := by
  rw [idFromDir, dirName_eq, String.toList_ofList]

@[simp] lemma dirChars_underscore : dirChars ('_' :: id) = '_' :: '_' :: dirChars id := rfl

@[simp] lemma dirChars_slash : dirChars ('/' :: id) = '_' :: dirChars id := rfl

lemma dirChars_cons (hunder : c ≠ '_') (hslash : c ≠ '/') : dirChars (c :: id) = c :: dirChars id := by
  simp [dirChars, hunder, hslash]

/-- A name begins with an underscore only where the identifier begins with an underscore or a slash. -/
lemma head_dirChars (h : ∀ c ∈ id.head?, c ≠ '/' ∧ c ≠ '_') : ∀ c ∈ (dirChars id).head?, c ≠ '_' := by
  cases id with
  | nil => nofun
  | cons c id =>
    obtain ⟨hslash, hunder⟩ := h c rfl
    rw [dirChars_cons hunder hslash]
    rintro _ ⟨⟩
    exact hunder

/-! ## Reading a name -/

lemma idFromDirChars_underscore :
    idFromDirChars ('_' :: '_' :: name) = '_' :: idFromDirChars name := by
  rw [idFromDirChars]

lemma idFromDirChars_slash (h : ∀ c ∈ name.head?, c ≠ '_') :
    idFromDirChars ('_' :: name) = '/' :: idFromDirChars name := by
  rw [idFromDirChars]
  · rw [if_pos rfl]
  · rintro rest - rfl
    exact h '_' rfl rfl

lemma idFromDirChars_cons (h : c ≠ '_') :
    idFromDirChars (c :: name) = c :: idFromDirChars name := by
  rw [idFromDirChars]
  · rw [if_neg h]
  · rintro rest rfl
    exact absurd rfl h

/-- What is read begins with a slash or an underscore only where the name begins with an underscore. -/
lemma head_idFromDirChars (h : ∀ c ∈ name.head?, c ≠ '_') (hslash : ∀ c ∈ name.head?, c ≠ '/') :
    ∀ c ∈ (idFromDirChars name).head?, c ≠ '/' ∧ c ≠ '_' := by
  cases name with
  | nil =>
    rw [idFromDirChars]
    nofun
  | cons c name =>
    rw [idFromDirChars_cons (h c rfl)]
    rintro _ ⟨⟩
    exact ⟨hslash c rfl, h c rfl⟩

/-- **What is read has its slashes apart**: a slash is read only where no second underscore follows. -/
lemma isChain_idFromDirChars (h : '/' ∉ name) :
    (idFromDirChars name).IsChain fun a b => a = '/' → b ≠ '/' ∧ b ≠ '_' := by
  induction name using idFromDirChars.induct with
  | case1 => exact .nil
  | case2 name ih =>
    rw [idFromDirChars_underscore, List.isChain_cons]
    refine ⟨fun b _ hslash => ?_, ih fun hmem => h (by simp [hmem])⟩
    exact absurd hslash (by decide)
  | case3 c name hpair ih =>
    have hname : '/' ∉ name := fun hmem => h (List.mem_cons_of_mem _ hmem)
    by_cases hc : c = '_'
    · subst hc
      have hnext : ∀ d ∈ name.head?, d ≠ '_' := by
        rintro d hd rfl
        obtain ⟨rest, rfl⟩ := List.head?_eq_some_iff.1 hd
        exact hpair rest rfl rfl
      have hslash : ∀ d ∈ name.head?, d ≠ '/' := by
        rintro d hd rfl
        exact hname (List.mem_of_head? hd)
      rw [idFromDirChars_slash hnext, List.isChain_cons]
      exact ⟨fun b hb _ => head_idFromDirChars hnext hslash b hb, ih hname⟩
    · rw [idFromDirChars_cons hc, List.isChain_cons]
      exact ⟨fun b _ hslash => absurd (hslash ▸ List.mem_cons_self) h, ih hname⟩

/-- A name has no slash. -/
lemma slash_notMem_dirChars (id : List Char) : '/' ∉ dirChars id := by
  unfold dirChars
  rw [List.mem_flatMap]
  rintro ⟨c, -, hc⟩
  split_ifs at hc with hunder hslash
  · simp at hc
  · simp at hc
  · exact hslash (List.mem_singleton.1 hc).symm

/-- An identifier whose slashes are apart is read back. -/
lemma idFromDirChars_dirChars (h : id.IsChain fun a b => a = '/' → b ≠ '/' ∧ b ≠ '_') :
    idFromDirChars (dirChars id) = id := by
  induction id with
  | nil => rfl
  | cons c id ih =>
    obtain ⟨hnext, hrest⟩ := List.isChain_cons.1 h
    by_cases hunder : c = '_'
    · rw [hunder, dirChars_underscore, idFromDirChars_underscore, ih hrest]
    · by_cases hslash : c = '/'
      · rw [hslash, dirChars_slash, idFromDirChars_slash, ih hrest]
        exact head_dirChars fun d hd => hnext d hd hslash
      · rw [dirChars_cons hunder hslash, idFromDirChars_cons hunder, ih hrest]

/-- **An identifier is read back** exactly when its slashes are apart. -/
lemma idFromDir_dirName_eq_iff {id : String} : idFromDir (dirName id) = id ↔ SlashesApart id := by
  constructor
  · intro h
    rw [← h, idFromDir_dirName, SlashesApart, String.toList_ofList]
    exact isChain_idFromDirChars (slash_notMem_dirChars _)
  · intro h
    rw [idFromDir_dirName, idFromDirChars_dirChars h, String.ofList_toList]

end

/-! ## Identifiers and names -/

/-- **Identifiers and directory names** correspond one to one, among any identifiers, exactly when no
slash of one of them is followed by a slash or an underscore. -/
theorem dirNames_oneToOne_iff (ids : Set String) :
    ((∀ a ∈ ids, ∀ b ∈ ids, dirName a = dirName b → a = b) ∧
        ∀ a ∈ ids, idFromDir (dirName a) = a) ↔
      ∀ a ∈ ids, SlashesApart a := by
  constructor
  · exact fun h a ha => idFromDir_dirName_eq_iff.1 (h.2 a ha)
  · intro h
    have hread : ∀ a ∈ ids, idFromDir (dirName a) = a := fun a ha =>
      idFromDir_dirName_eq_iff.2 (h a ha)
    refine ⟨fun a ha b hb hname => ?_, hread⟩
    rw [← hread a ha, ← hread b hb, hname]

/-- **Two identifiers, one directory**: an underscore before a slash is written as one behind it is. -/
theorem not_dirNames_oneToOne : ¬ ∀ a b, (dirName a = dirName b → a = b) ∧
    idFromDir (dirName a) = a := by
  intro h
  have hname : dirName "web:a_/b" = dirName "web:a/_b" := by decide
  exact absurd ((h "web:a_/b" "web:a/_b").1 hname) (by decide)

end MyClaw
