import MyClaw.Memory.Manage

set_option autoImplicit false

/-!
# What `memory_manage` leaves alone

An action changes one file.  A replacement and a removal change the file of the entry that they have
found, and nothing else that a layer reports changes.  An addition writes the file that bears the name
of the new entry, although it has looked for the name among the entries only: the file may hold an
entry of another name, or of another layer.

## Main definitions

* `TouchesOnlyAddressed` — the other entries are reported as before.
* `AddKeepsOthers` — the condition of an addition.

## Main results

* `memoryManage_touchesOnlyAddressed_iff` — an action touches only the addressed entry exactly
  when it is no addition that passes its checks without the condition.
* `not_touchesOnlyAddressed_sharedFile` — the memory of another user is overwritten.
-/

namespace MyClaw

/-! ## The property -/

/-- Who reads the memory: the agent layer, or the layer of a user. -/
inductive MemoryViewer
  | agent
  | user (id : String)

/-- What a viewer is reported. -/
def reported (env : MemoryEnv) (s : MemoryStore) : MemoryViewer → List MemoryFile
  | .agent => scanAgentLayer s
  | .user id => scanUserLayer env.parseUuid s id

/-- The file of the entry that the name and the scope address. -/
def addressed (env : MemoryEnv) (s : MemoryStore) (name : String) (scope : MemoryScope)
    (userId : String) : Option (MemoryDir × String) :=
  ((scanScope env s scope userId).find? (·.name = name)).map (·.path)

/-- **Only the addressed entry is touched**: every other entry that some layer reported is reported
unchanged, and an action that fails leaves the memory as it was. -/
structure TouchesOnlyAddressed (env : MemoryEnv) (s : MemoryStore) (name : String)
    (scope : MemoryScope) (userId : String) (r : Except String String × MemoryStore) : Prop where
  frame : ∀ viewer, ∀ f ∈ reported env s viewer,
    addressed env s name scope userId ≠ some f.path → f ∈ reported env r.2 viewer
  failed : ∀ err, r.1 = .error err → r.2 = s

/-- **The condition of an addition**: no layer reports an entry of the file that it writes, and no user
whose directory it writes to is reported an entry of the name from before the split. -/
def AddKeepsOthers (env : MemoryEnv) (s : MemoryStore) (name : String) (scope : MemoryScope)
    (userId : String) : Prop :=
  (∀ viewer, ∀ f ∈ reported env s viewer, f.path ≠ addTarget env scope userId name) ∧
    (scope = .user → ∀ v, userMemoryDir env.parseUuid v = userMemoryDir env.parseUuid userId →
      ∀ f ∈ scanUserLayer env.parseUuid s v, f.path.1 = .root → f.name ≠ name)

/-! ## Stores that differ in one file -/

section

variable {env : MemoryEnv} {io : MemoryIo} {parseUuid : String → Option String}
  {s s' : MemoryStore} {path : MemoryDir × String} {fields : MemoryFields} {f g : MemoryFile}
  {u v name : String} {args : JsonValue}

/-- The stores have the same files at the other paths. -/
def AgreeOff (path : MemoryDir × String) (s s' : MemoryStore) : Prop :=
  ∀ d f, f.path ≠ path → (f ∈ scanMemoryFiles s' d ↔ f ∈ scanMemoryFiles s d)

lemma agreeOff_write : AgreeOff path s (s.write path fields) := by
  intro d f hne
  rw [mem_scanMemoryFiles_write]
  constructor
  · rintro (⟨rfl, -⟩ | ⟨hmem, -⟩)
    · exact absurd rfl hne
    · exact hmem
  · exact fun hmem => .inr ⟨hmem, hne⟩

lemma agreeOff_erase : AgreeOff path s (s.erase path) := by
  intro d f hne
  rw [mem_scanMemoryFiles_erase]
  exact ⟨And.left, fun hmem => ⟨hmem, hne⟩⟩

lemma IsOwn.path_dir (h : IsOwn parseUuid s u f) : f.path.1 = userMemoryDir parseUuid u := by
  obtain ⟨g, hg, rfl, -⟩ := h
  rw [path_normalizeOwnership]
  exact (mem_scanMemoryFiles.1 hg).1

lemma IsFallback.path_dir (h : IsFallback s u f) : f.path.1 = .root := (mem_scanMemoryFiles.1 h.1).1

/-- The user of an entry from before the split is not blank. -/
lemma IsFallback.user_not_blank (h : IsFallback s u f) : isBlank u = false := by
  obtain ⟨-, hscope, huser, hvalid⟩ := h
  have hblank : (isBlank f.name = false ∧ isBlank f.memType = false) ∧ isBlank u = false := by
    simpa [filterInvalidMemory, hscope, huser] using hvalid
  exact hblank.2

/-- Validity of an own entry, by its user, its name and its type. -/
lemma filterInvalidMemory_own :
    filterInvalidMemory (normalizeOwnership false (some u) g) =
      (!isBlank g.name && !isBlank g.memType && !isBlank u) := by
  unfold filterInvalidMemory normalizeOwnership
  cases hname : isBlank g.name <;> cases htype : isBlank g.memType <;> simp [hname, htype]

/-- The user of an own entry is not blank. -/
lemma IsOwn.user_not_blank (h : IsOwn parseUuid s u f) : isBlank u = false := by
  obtain ⟨g, -, rfl, hvalid⟩ := h
  rw [filterInvalidMemory_own, Bool.and_eq_true, Bool.not_eq_true'] at hvalid
  exact hvalid.2

/-- Users that share a directory have entries of the same names in it. -/
lemma IsOwn.of_same_dir (h : IsOwn parseUuid s u f)
    (hdir : userMemoryDir parseUuid v = userMemoryDir parseUuid u) (hv : isBlank v = false) :
    ∃ g, IsOwn parseUuid s v g ∧ g.name = f.name ∧ g.path = f.path := by
  obtain ⟨x, hx, rfl, hvalid⟩ := h
  refine ⟨normalizeOwnership false (some v) x, ⟨x, hdir ▸ hx, rfl, ?_⟩, ?_, ?_⟩
  · rw [filterInvalidMemory_own, Bool.and_eq_true] at hvalid ⊢
    exact ⟨hvalid.1, by rw [hv]; rfl⟩
  · rw [name_normalizeOwnership, name_normalizeOwnership]
  · rw [path_normalizeOwnership, path_normalizeOwnership]

lemma IsOwn.of_agreeOff (h : IsOwn parseUuid s u f) (hagree : AgreeOff path s s')
    (hne : f.path ≠ path) : IsOwn parseUuid s' u f := by
  obtain ⟨g, hg, rfl, hvalid⟩ := h
  rw [path_normalizeOwnership] at hne
  exact ⟨g, (hagree _ g hne).2 hg, rfl, hvalid⟩

lemma AgreeOff.symm (h : AgreeOff path s s') : AgreeOff path s' s := fun d f hne =>
  (h d f hne).symm

/-- **The agent layer** reports the entries of the other files as before. -/
lemma mem_scanAgentLayer_of_agreeOff (hagree : AgreeOff path s s') (hne : f.path ≠ path)
    (h : f ∈ scanAgentLayer s) : f ∈ scanAgentLayer s' := by
  obtain ⟨g, hg, rfl, hvalid⟩ := mem_scanAgentLayer.1 h
  rw [path_normalizeOwnership] at hne
  exact mem_scanAgentLayer.2 ⟨g, (hagree _ g hne).2 hg, rfl, hvalid⟩

/-- **A user layer** reports the entries of the other files as before, unless the changed file hides
one from before the split. -/
lemma mem_scanUserLayer_of_agreeOff (hagree : AgreeOff path s s') (hne : f.path ≠ path)
    (hhide : f.path.1 = .root → ∀ g, IsOwn parseUuid s' u g → g.path = path → g.name ≠ f.name)
    (h : f ∈ scanUserLayer parseUuid s u) : f ∈ scanUserLayer parseUuid s' u := by
  rw [mem_scanUserLayer] at h ⊢
  rcases h with hown | ⟨hfallback, hnames⟩
  · exact .inl (hown.of_agreeOff hagree hne)
  · refine .inr ⟨⟨(hagree _ f hne).2 hfallback.1, hfallback.2⟩, fun g hg => ?_⟩
    by_cases hpath : g.path = path
    · exact hhide hfallback.path_dir g hg hpath
    · exact hnames g (hg.of_agreeOff hagree.symm hpath)

/-! ## The entry that is found -/

lemma findEntry_eq_ok {scope : MemoryScope} {e : MemoryFile}
    (h : findEntry env io s name scope u = .ok e) :
    e ∈ scanScope env s scope u ∧ e.name = name ∧
      addressed env s name scope u = some e.path := by
  unfold findEntry at h
  split_ifs at h
  all_goals
    cases hfind : (scanScope env s scope u).find? (·.name = name) with
    | none =>
      rw [hfind] at h
      cases h
    | some existing =>
      rw [hfind] at h
      obtain rfl := Except.ok.inj h
      refine ⟨List.mem_of_find?_eq_some hfind, ?_, by rw [addressed, hfind]; rfl⟩
      simpa using List.find?_some hfind

/-- The directory of an entry of a user that is in a user directory is the user's. -/
lemma own_of_mem_scanUserLayer (h : f ∈ scanUserLayer parseUuid s u) (hdir : f.path.1 ≠ .root) :
    IsOwn parseUuid s u f := by
  rcases mem_scanUserLayer.1 h with hown | ⟨hfallback, -⟩
  · exact hown
  · exact absurd hfallback.path_dir hdir

/-- **A replacement hides nothing**: the file had the name before. -/
lemma replace_hides_nothing {scope : MemoryScope} {e : MemoryFile} (he : e ∈ scanScope env s scope u)
    (hname : fields.name = e.name) (hf : f ∈ scanUserLayer env.parseUuid s v)
    (hroot : f.path.1 = .root) (hg : IsOwn env.parseUuid (s.write e.path fields) v g)
    (hpath : g.path = e.path) : g.name ≠ f.name := by
  have hdir : e.path.1 = userMemoryDir env.parseUuid v := hpath ▸ hg.path_dir
  have hnew : g.name = e.name := by
    obtain ⟨x, hx, rfl, -⟩ := hg
    rw [path_normalizeOwnership] at hpath
    rcases mem_scanMemoryFiles_write.1 hx with ⟨rfl, -⟩ | ⟨-, hne⟩
    · rw [name_normalizeOwnership]
      exact hname
    · exact absurd hpath hne
  have hown : IsOwn env.parseUuid s u e := by
    cases scope with
    | agent =>
      obtain ⟨x, hx, rfl, -⟩ := mem_scanAgentLayer.1 he
      rw [path_normalizeOwnership, (mem_scanMemoryFiles.1 hx).1] at hdir
      cases hdir
    | user => exact own_of_mem_scanUserLayer he (by rw [hdir]; exact fun hno => by cases hno)
  obtain ⟨e', he', hname', -⟩ :=
    hown.of_same_dir (hdir.symm.trans hown.path_dir) hg.user_not_blank
  rcases mem_scanUserLayer.1 hf with hfown | ⟨-, hnames⟩
  · rw [hfown.path_dir] at hroot
    cases hroot
  · rw [hnew, ← hname']
    exact hnames e' he'

/-! ## The three actions -/

/-- **A replacement** touches only the entry that it has found. -/
lemma touchesOnlyAddressed_replace :
    TouchesOnlyAddressed env s name (resolveScope args) u
      (actionReplace env io s name args u) := by
  unfold actionReplace
  cases hchecks : replaceChecks env io s name args u with
  | error err => exact ⟨fun _ _ hf _ => hf, fun _ _ => rfl⟩
  | ok r =>
    obtain ⟨hvalid, hfind, hname⟩ := replaceChecks_eq_ok hchecks
    obtain ⟨he, hename, haddressed⟩ := findEntry_eq_ok hfind
    rw [reread_name hvalid, ← hename] at hname
    refine ⟨fun viewer f hf hne => ?_, fun err herr => by cases herr⟩
    have hpath : f.path ≠ r.1.path := fun heq => hne (by rw [haddressed, heq])
    cases viewer with
    | agent => exact mem_scanAgentLayer_of_agreeOff agreeOff_write hpath hf
    | user v =>
      exact mem_scanUserLayer_of_agreeOff agreeOff_write hpath
        (fun hroot g hg hgpath => replace_hides_nothing he hname hf hroot hg hgpath) hf

/-- **A removal** touches only the entry that it has found. -/
lemma touchesOnlyAddressed_remove :
    TouchesOnlyAddressed env s name (resolveScope args) u
      (actionRemove env io s name args u) := by
  unfold actionRemove
  cases hchecks : removeChecks env io s name args u with
  | error err => exact ⟨fun _ _ hf _ => hf, fun _ _ => rfl⟩
  | ok e =>
    obtain ⟨-, -, haddressed⟩ := findEntry_eq_ok (removeChecks_eq_ok hchecks)
    refine ⟨fun viewer f hf hne => ?_, fun err herr => by cases herr⟩
    have hpath : f.path ≠ e.path := fun heq => hne (by rw [haddressed, heq])
    cases viewer with
    | agent => exact mem_scanAgentLayer_of_agreeOff agreeOff_erase hpath hf
    | user v =>
      refine mem_scanUserLayer_of_agreeOff agreeOff_erase hpath (fun _ g hg hgpath => ?_) hf
      obtain ⟨x, hx, rfl, -⟩ := hg
      rw [path_normalizeOwnership] at hgpath
      exact absurd hgpath (mem_scanMemoryFiles_erase.1 hx).2

/-- The new entry of an addition, where a layer reports its file. -/
lemma eq_of_mem_write (hf : f ∈ scanMemoryFiles (s.write path fields) path.1)
    (hpath : f.path = path) : f = ⟨fields, path⟩ := by
  rcases mem_scanMemoryFiles_write.1 hf with ⟨hnew, -⟩ | ⟨-, hne⟩
  · exact hnew
  · exact absurd hpath hne

section

variable {scope : MemoryScope} {description memType inject createdAt content : String}
  {tags : List String}

/-- The scope of an addition is the one of its directory. -/
lemma scope_of_addTarget_root (h : (addTarget env scope u name).1 = .root) : scope = .agent := by
  cases scope with
  | agent => rfl
  | user => cases h

lemma scope_of_addTarget_user (h : (addTarget env scope u name).1 = userMemoryDir env.parseUuid v) :
    scope = .user ∧ userMemoryDir env.parseUuid v = userMemoryDir env.parseUuid u := by
  cases scope with
  | agent => cases h
  | user => exact ⟨rfl, h.symm⟩

/-- **An addition under the condition** keeps what was reported. -/
lemma frame_of_addKeepsOthers (hname : fields.name = name)
    (hkeeps : AddKeepsOthers env s name scope u) (viewer : MemoryViewer)
    (hf : f ∈ reported env s viewer) :
    f ∈ reported env (s.write (addTarget env scope u name) fields) viewer := by
  have hpath := hkeeps.1 viewer f hf
  cases viewer with
  | agent => exact mem_scanAgentLayer_of_agreeOff agreeOff_write hpath hf
  | user v =>
    refine mem_scanUserLayer_of_agreeOff agreeOff_write hpath (fun hroot g hg hgpath => ?_) hf
    have hdir : (addTarget env scope u name).1 = userMemoryDir env.parseUuid v :=
      hgpath ▸ hg.path_dir
    obtain ⟨hscope, hsame⟩ := scope_of_addTarget_user hdir
    have hnew : g.name = name := by
      obtain ⟨x, hx, rfl, -⟩ := hg
      rw [path_normalizeOwnership] at hgpath
      rw [← hdir] at hx
      rw [name_normalizeOwnership, eq_of_mem_write hx hgpath]
      exact hname
    rw [hnew]
    exact (hkeeps.2 hscope v hsame f hf hroot).symm

/-- An entry of the file of an addition is lost, since its name was free in the layer. -/
lemma path_ne_addTarget (hname : fields.name = name) (hscope : fields.scope = some scope.text)
    (hblank : scope = .user → isBlank u = false)
    (hfree : ∀ f ∈ scanScope env s scope u, f.name ≠ name) (viewer : MemoryViewer)
    (hf : f ∈ reported env s viewer)
    (hnext : f ∈ reported env (s.write (addTarget env scope u name) fields) viewer) :
    f.path ≠ addTarget env scope u name := by
  intro hpath
  cases viewer with
  | agent =>
    obtain ⟨x, hx, rfl, -⟩ := mem_scanAgentLayer.1 hnext
    rw [path_normalizeOwnership] at hpath
    have hroot : (addTarget env scope u name).1 = .root := by
      rw [← hpath]
      exact (mem_scanMemoryFiles.1 hx).1
    obtain rfl := scope_of_addTarget_root hroot
    rw [← hroot] at hx
    refine hfree _ hf ?_
    rw [name_normalizeOwnership, eq_of_mem_write hx hpath]
    exact hname
  | user v =>
    rcases mem_scanUserLayer.1 hnext with hown | ⟨hfallback, -⟩
    · have hdir : (addTarget env scope u name).1 = userMemoryDir env.parseUuid v :=
        hpath ▸ hown.path_dir
      obtain ⟨rfl, hsame⟩ := scope_of_addTarget_user hdir
      have hnew : f.name = name := by
        obtain ⟨x, hx, rfl, -⟩ := hown
        rw [path_normalizeOwnership] at hpath
        rw [← hdir] at hx
        rw [name_normalizeOwnership, eq_of_mem_write hx hpath]
        exact hname
      have hold : IsOwn env.parseUuid s v f :=
        own_of_mem_scanUserLayer hf (by rw [hown.path_dir]; exact fun hno => by cases hno)
      obtain ⟨g, hg, hgname, -⟩ := hold.of_same_dir hsame.symm (hblank rfl)
      exact hfree g (mem_scanUserLayer.2 (.inl hg)) (hgname.trans hnew)
    · have hroot : (addTarget env scope u name).1 = .root := hpath ▸ hfallback.path_dir
      obtain rfl := scope_of_addTarget_root hroot
      have hmem := hfallback.1
      rw [← hroot] at hmem
      have hagent : f.scope = some "agent" := by
        rw [eq_of_mem_write hmem hpath]
        exact hscope
      rw [hfallback.2.1] at hagent
      exact absurd (Option.some.inj hagent) (by decide)

/-- An entry from before the split that bears the name of an addition is hidden by it. -/
lemma name_ne_of_frame (hname : fields.name = name) (hnameBlank : isBlank name = false)
    (htype : isBlank fields.memType = false)
    (hsame : userMemoryDir env.parseUuid v = userMemoryDir env.parseUuid u)
    (hroot : f.path.1 = .root)
    (hnext : f ∈ scanUserLayer env.parseUuid (s.write (addTarget env .user u name) fields) v) :
    f.name ≠ name := by
  intro heq
  rcases mem_scanUserLayer.1 hnext with hown | ⟨hfallback, hnames⟩
  · rw [hown.path_dir] at hroot
    cases hroot
  · have hv := hfallback.user_not_blank
    refine hnames (normalizeOwnership false (some v)
      ⟨fields, addTarget env .user u name⟩) ⟨_, ?_, rfl, ?_⟩ ?_
    · rw [hsame]
      exact mem_scanMemoryFiles_write.2 (.inl ⟨rfl, rfl⟩)
    · rw [filterInvalidMemory_own, hname, hnameBlank, htype, hv]
      rfl
    · rw [name_normalizeOwnership, heq]
      exact hname

end

/-- **An addition** touches only the addressed entry exactly under the condition. -/
lemma touchesOnlyAddressed_add_iff :
    TouchesOnlyAddressed env s name (resolveScope args) u (actionAdd env io s name args u) ↔
      ∀ content, addChecks env io s name args u = .ok content →
        AddKeepsOthers env s name (resolveScope args) u := by
  unfold actionAdd
  cases hchecks : addChecks env io s name args u with
  | error err =>
    exact ⟨fun _ content hok => (by cases hok), fun _ => ⟨fun _ _ hf _ => hf, fun _ _ => rfl⟩⟩
  | ok content =>
    obtain ⟨hvalid, hblank, hfree⟩ := addChecks_eq_ok hchecks
    have hnone : addressed env s name (resolveScope args) u = none := by
      rw [addressed, Option.map_eq_none_iff, List.find?_eq_none]
      exact fun f hf heq => hfree f hf (of_decide_eq_true heq)
    have hname : (writtenFields name (resolveDescription args content) (resolveTags args)
        (resolveType env args) (resolveInject args) env.today none (resolveScope args) u
        content).name = name := reread_name hvalid
    constructor
    · rintro hkept _ -
      have hframe := fun viewer f hf => hkept.frame viewer f hf (by rw [hnone]; simp)
      refine ⟨fun viewer f hf =>
        path_ne_addTarget hname rfl hblank hfree viewer hf (hframe viewer f hf), ?_⟩
      intro hscope v hsame f hf hroot
      have hnext := hframe (.user v) f hf
      rw [hscope] at hnext
      refine name_ne_of_frame ?_ (isBlank_name hvalid) ?_ hsame hroot hnext
      · exact reread_name hvalid
      · refine Bool.eq_false_iff.2 fun htype => ?_
        have hno := isBlank_of_reread htype
        rw [resolveType_not_blank] at hno
        cases hno
    · intro hkeeps
      exact ⟨fun viewer f hf _ => frame_of_addKeepsOthers hname (hkeeps content rfl) viewer hf,
        fun err herr => by cases herr⟩

end

/-- **Only the addressed entry is touched** by an action exactly when it is no addition that passes
its checks although the file it writes holds an entry that is reported, or hides one. -/
theorem memoryManage_touchesOnlyAddressed_iff (env : MemoryEnv) (io : MemoryIo) (s : MemoryStore)
    (action : MemoryAction) (name : String) (args : JsonValue) (userId : String) :
    TouchesOnlyAddressed env s name (resolveScope args) userId
        (memoryManage env io s action name args userId) ↔
      (action = .add → ∀ content, addChecks env io s name args userId = .ok content →
        AddKeepsOthers env s name (resolveScope args) userId) := by
  cases action with
  | add => exact touchesOnlyAddressed_add_iff.trans ⟨fun h _ => h, fun h => h rfl⟩
  | replace => exact ⟨fun _ hno => (by cases hno), fun _ => touchesOnlyAddressed_replace⟩
  | remove => exact ⟨fun _ hno => (by cases hno), fun _ => touchesOnlyAddressed_remove⟩

/-! ## A file of another user -/

/-- The entry of ben from before the split. -/
def benPlan : MemoryFields where
  name := "plan"
  scope := some "user"
  userId := some "ben"
  memType := "project"
  inject := "search"
  description := "the plan"
  tags := []
  createdAt := "2026-05-07"
  updatedAt := none
  content := "Move in June."

/-- The memory root holds the entry of ben. -/
def sharedRoot : MemoryStore where
  files d := if d = .root then [("plan.md", some benPlan)] else []
  nodup d := by split_ifs <;> simp

/-- Nothing outside the tool gets in the way. -/
def plainMemoryEnv : MemoryEnv where
  parseUuid _ := none
  toLowercase s := s
  toLowercase_blank _ h := h
  contentError _ _ := none
  today := "2026-07-01"

/-- Anna adds an entry of the agent layer. -/
def annaPlan : JsonValue :=
  .obj [("scope", .str "agent"), ("content", .str "Ship on Friday.")]

/-- **The memory of another user is overwritten**: anna's entry has the name of ben's file. -/
theorem not_touchesOnlyAddressed_sharedFile :
    ¬ TouchesOnlyAddressed plainMemoryEnv sharedRoot "plan" (resolveScope annaPlan) "anna"
      (memoryManage plainMemoryEnv ⟨true, true, true, true, ""⟩ sharedRoot .add "plan" annaPlan
        "anna") := by
  intro h
  have hbefore : (⟨benPlan, (.root, "plan.md")⟩ : MemoryFile) ∈
      reported plainMemoryEnv sharedRoot (.user "ben") := by decide
  have hafter := h.frame (.user "ben") _ hbefore (by decide)
  revert hafter
  decide

end MyClaw
