import MyClaw.Channels.Markup
import MyClaw.Identity.Ids
import MyClaw.Lib.Keyed
import Mathlib.Data.List.Sort

set_option autoImplicit false

/-!
# The layers of the memory directories

`memory/mod.rs` keeps the entries of the agent layer in the memory root and those of a user in a
directory of their own.  Entries from before the split are still in the root, with the frontmatter
`scope: user`; they belong to the layer of the user that they name.

## Main definitions

* `MemoryFields`, `MemoryFile` — what is read in a memory file, and where it is.
* `MemoryStore` — the memory directories.
* `scanAgentLayer`, `scanUserLayer` — what each layer reports.

## Main results

* `mem_scanAgentLayer`, `mem_scanUserLayer` — the entries that a layer reports.

## Implementation notes

A file is what `parse_memory_file` reads in it, or nothing where it reads no entry; the links of an
entry are those of its content.  The ids of users are identifiers or routing keys, so that the name of
a user's directory is not one of the steps `.` and `..` of a path.
-/

namespace MyClaw

/-! ## Files -/

/-- A directory of memory files. -/
inductive MemoryDir
  /-- The memory root. -/
  | root
  /-- `users/{name}/memory`. -/
  | user (name : String)
  deriving DecidableEq

/-- What `parse_memory_file` reads in a file. -/
structure MemoryFields where
  name : String
  scope : Option String
  userId : Option String
  memType : String
  inject : String
  description : String
  tags : List String
  createdAt : String
  updatedAt : Option String
  content : String
  deriving DecidableEq

/-- `MemoryFile`. -/
structure MemoryFile extends MemoryFields where
  path : MemoryDir × String
  deriving DecidableEq

/-- The files with the extension `md` of each directory, in the order of `read_dir`. -/
structure MemoryStore where
  files : MemoryDir → List (String × Option MemoryFields)
  nodup : ∀ d, ((files d).map (·.1)).Nodup

namespace MemoryStore

/-- The store after a file has been written. -/
def write (s : MemoryStore) (path : MemoryDir × String) (fields : MemoryFields) : MemoryStore where
  files := Function.update s.files path.1
    ((path.2, some fields) :: (s.files path.1).filter (·.1 ≠ path.2))
  nodup d := by
    by_cases hd : d = path.1
    · subst hd
      rw [Function.update_self]
      exact Keyed.nodup_cons_filter_ne (s.nodup _)
    · rw [Function.update_of_ne hd]
      exact s.nodup d

/-- The store after a file has been removed. -/
def erase (s : MemoryStore) (path : MemoryDir × String) : MemoryStore where
  files := Function.update s.files path.1 ((s.files path.1).filter (·.1 ≠ path.2))
  nodup d := by
    by_cases hd : d = path.1
    · subst hd
      rw [Function.update_self]
      exact (s.nodup _).sublist (List.filter_sublist.map _)
    · rw [Function.update_of_ne hd]
      exact s.nodup d

end MemoryStore

/-! ## Scans -/

/-- The order of a scan: by type, then by name. -/
def MemoryFile.ScanLe (f g : MemoryFile) : Prop :=
  f.memType < g.memType ∨ f.memType = g.memType ∧ f.name ≤ g.name

instance : DecidableRel MemoryFile.ScanLe := fun f g =>
  inferInstanceAs (Decidable (f.memType < g.memType ∨ f.memType = g.memType ∧ f.name ≤ g.name))

/-- `scan_memory_files`. -/
def scanMemoryFiles (s : MemoryStore) (d : MemoryDir) : List MemoryFile :=
  ((s.files d).filterMap fun file =>
    file.2.map fun fields => (⟨fields, (d, file.1)⟩ : MemoryFile)).insertionSort MemoryFile.ScanLe

/-- `normalize_ownership`. -/
def normalizeOwnership (fromAgentDir : Bool) (dirOwner : Option String) (f : MemoryFile) :
    MemoryFile :=
  if fromAgentDir = false then
    { f with scope := some "user", userId := some (dirOwner.getD "unknown") }
  else if f.scope ≠ some "user" then { f with scope := some "agent" }
  else f

/-- `filter_invalid_memory`. -/
def filterInvalidMemory (f : MemoryFile) : Bool :=
  if isBlank f.name || isBlank f.memType then false
  else if f.scope = some "agent" then true
  else if f.scope = some "user" then f.userId.any fun u => !isBlank u
  else false

/-- `scan_agent_layer`. -/
def scanAgentLayer (s : MemoryStore) : List MemoryFile :=
  ((scanMemoryFiles s .root).map (normalizeOwnership true none)).filter fun f =>
    filterInvalidMemory f && f.scope ≠ some "user"

/-- `user_memory_dir`. -/
def userMemoryDir (parseUuid : String → Option String) (userId : String) : MemoryDir :=
  .user (bareDirNameOf parseUuid userId)

/-- `scan_user_layer`. -/
def scanUserLayer (parseUuid : String → Option String) (s : MemoryStore) (userId : String) :
    List MemoryFile :=
  let files := ((scanMemoryFiles s (userMemoryDir parseUuid userId)).map
    (normalizeOwnership false (some userId))).filter filterInvalidMemory
  let present := files.map (·.name)
  -- entries from before the split whose name is not in the user's own directory
  let fallback := (scanMemoryFiles s .root).filter fun f =>
    f.scope = some "user" && f.userId = some userId && f.name ∉ present
  files ++ (fallback.map (normalizeOwnership true none)).filter filterInvalidMemory

/-! ## What is reported -/

section

variable {parseUuid : String → Option String} {s : MemoryStore} {d : MemoryDir} {f : MemoryFile}
  {path : MemoryDir × String} {fields : MemoryFields} {u : String}

lemma mem_scanMemoryFiles :
    f ∈ scanMemoryFiles s d ↔ f.path.1 = d ∧ (f.path.2, some f.toMemoryFields) ∈ s.files d := by
  unfold scanMemoryFiles
  rw [List.mem_insertionSort, List.mem_filterMap]
  constructor
  · rintro ⟨⟨name, read⟩, hmem, hf⟩
    obtain ⟨fields, rfl, rfl⟩ := Option.map_eq_some_iff.1 hf
    exact ⟨rfl, hmem⟩
  · rintro ⟨rfl, hmem⟩
    exact ⟨_, hmem, rfl⟩

/-- After a write, a scan finds the new file and the files at the other paths. -/
lemma mem_scanMemoryFiles_write :
    f ∈ scanMemoryFiles (s.write path fields) d ↔
      (f = ⟨fields, path⟩ ∧ d = path.1) ∨ (f ∈ scanMemoryFiles s d ∧ f.path ≠ path) := by
  obtain ⟨dir, file⟩ := path
  obtain ⟨read, dir', file'⟩ := f
  rw [mem_scanMemoryFiles, mem_scanMemoryFiles, MemoryStore.write]
  dsimp only
  by_cases hd : d = dir
  · subst hd
    rw [Function.update_self, List.mem_cons, List.mem_filter]
    simp only [Prod.mk.injEq, Option.some.injEq, MemoryFile.mk.injEq, ne_eq, decide_not,
      Bool.not_eq_true', decide_eq_false_iff_not]
    grind
  · rw [Function.update_of_ne hd]
    simp only [MemoryFile.mk.injEq, Prod.mk.injEq, ne_eq]
    grind

/-- After a removal, a scan finds the files at the other paths. -/
lemma mem_scanMemoryFiles_erase :
    f ∈ scanMemoryFiles (s.erase path) d ↔ f ∈ scanMemoryFiles s d ∧ f.path ≠ path := by
  obtain ⟨dir, file⟩ := path
  obtain ⟨read, dir', file'⟩ := f
  rw [mem_scanMemoryFiles, mem_scanMemoryFiles, MemoryStore.erase]
  dsimp only
  by_cases hd : d = dir
  · subst hd
    rw [Function.update_self, List.mem_filter]
    simp only [Prod.mk.injEq, ne_eq, decide_not, Bool.not_eq_true', decide_eq_false_iff_not]
    grind
  · rw [Function.update_of_ne hd]
    simp only [Prod.mk.injEq, ne_eq]
    grind

@[simp] lemma path_normalizeOwnership (b : Bool) (owner : Option String) :
    (normalizeOwnership b owner f).path = f.path := by
  unfold normalizeOwnership
  split_ifs <;> rfl

@[simp] lemma name_normalizeOwnership (b : Bool) (owner : Option String) :
    (normalizeOwnership b owner f).name = f.name := by
  unfold normalizeOwnership
  split_ifs <;> rfl

/-- An entry from before the split keeps its owner. -/
lemma normalizeOwnership_of_user (h : f.scope = some "user") :
    normalizeOwnership true none f = f := by
  simp [normalizeOwnership, h]

/-- **The agent layer** reports the valid files of the root that are of no user. -/
lemma mem_scanAgentLayer :
    f ∈ scanAgentLayer s ↔ ∃ g ∈ scanMemoryFiles s .root, normalizeOwnership true none g = f ∧
      filterInvalidMemory f = true ∧ f.scope ≠ some "user" := by
  unfold scanAgentLayer
  rw [List.mem_filter, List.mem_map, Bool.and_eq_true, decide_eq_true_eq]
  constructor
  · rintro ⟨⟨g, hg, rfl⟩, hvalid, hscope⟩
    exact ⟨g, hg, rfl, hvalid, hscope⟩
  · rintro ⟨g, hg, rfl, hvalid, hscope⟩
    exact ⟨⟨g, hg, rfl⟩, hvalid, hscope⟩

/-- The entries of the user's own directory. -/
def IsOwn (parseUuid : String → Option String) (s : MemoryStore) (userId : String)
    (f : MemoryFile) : Prop :=
  ∃ g ∈ scanMemoryFiles s (userMemoryDir parseUuid userId),
    normalizeOwnership false (some userId) g = f ∧ filterInvalidMemory f = true

/-- The entries of the user from before the split. -/
def IsFallback (s : MemoryStore) (userId : String) (f : MemoryFile) : Prop :=
  f ∈ scanMemoryFiles s .root ∧ f.scope = some "user" ∧ f.userId = some userId ∧
    filterInvalidMemory f = true

/-- **A user layer** reports the user's own entries, and those from before the split that have
another name. -/
lemma mem_scanUserLayer :
    f ∈ scanUserLayer parseUuid s u ↔ IsOwn parseUuid s u f ∨
      IsFallback s u f ∧ ∀ g, IsOwn parseUuid s u g → g.name ≠ f.name := by
  have hown : ∀ g, g ∈ ((scanMemoryFiles s (userMemoryDir parseUuid u)).map
      (normalizeOwnership false (some u))).filter filterInvalidMemory ↔ IsOwn parseUuid s u g := by
    intro g
    rw [List.mem_filter, List.mem_map, IsOwn]
    exact ⟨fun ⟨⟨x, hx, heq⟩, hvalid⟩ => ⟨x, hx, heq, hvalid⟩,
      fun ⟨x, hx, heq, hvalid⟩ => ⟨⟨x, hx, heq⟩, hvalid⟩⟩
  unfold scanUserLayer
  dsimp only
  rw [List.mem_append, hown]
  refine or_congr Iff.rfl ?_
  rw [List.mem_filter, List.mem_map]
  simp only [List.mem_filter, Bool.and_eq_true, decide_eq_true_eq]
  constructor
  · rintro ⟨⟨g, ⟨hg, ⟨hscope, huser⟩, hname⟩, rfl⟩, hvalid⟩
    rw [normalizeOwnership_of_user hscope] at hvalid ⊢
    refine ⟨⟨hg, hscope, huser, hvalid⟩, fun x hx heq => hname ?_⟩
    exact heq ▸ List.mem_map_of_mem ((hown x).2 hx)
  · rintro ⟨⟨hg, hscope, huser, hvalid⟩, hname⟩
    refine ⟨⟨f, ⟨hg, ⟨hscope, huser⟩, fun hmem => ?_⟩, normalizeOwnership_of_user hscope⟩, hvalid⟩
    obtain ⟨x, hx, heq⟩ := List.mem_map.1 hmem
    exact hname x ((hown x).1 hx) heq

end

end MyClaw
