import MyClaw.Lib.Fuel
import MyClaw.Lib.Json
import MyClaw.Memory.Layers

set_option autoImplicit false

/-!
# The tool `memory_manage`

The actions `add`, `replace` and `remove` (`tools/memory_tool/writer.rs`).  An addition looks for the
name among the entries of the layer and writes the file of that name; the other two act on the file
of the entry that they have found.

## Main definitions

* `MemoryEnv`, `MemoryIo` — the parts outside, and what the file system allows.
* `writtenFields` — what is read in a file that the tool has written.
* `actionAdd`, `actionReplace`, `actionRemove` — the actions.

## Implementation notes

The warnings of an addition, the archive of old versions in `.versions` and the audit log are no
memory files and are left out.
-/

namespace MyClaw

/-- The parts that the tool calls. -/
structure MemoryEnv where
  /-- A uuid in its standard form. -/
  parseUuid : String → Option String
  /-- `str::to_lowercase`. -/
  toLowercase : String → String
  toLowercase_blank : ∀ s, isBlank (toLowercase s) = true → isBlank s = true
  /-- The error of a content in the agent scope or not, by `validate_body_only`,
  `scan_memory_content_opt` and `scan_agent_pii_opt`. -/
  contentError : Bool → String → Option String
  /-- The date of today. -/
  today : String

/-- What the file system allows during an action. -/
structure MemoryIo where
  scanAgent : Bool
  scanUser : Bool
  scanMerged : Bool
  writes : Bool
  /-- The text of the error where it fails. -/
  error : String

/-! ## Arguments -/

/-- A scope that an action is asked for. -/
inductive MemoryScope
  | user
  | agent
  deriving DecidableEq

/-- The scope as a text. -/
def MemoryScope.text : MemoryScope → String
  | .user => "user"
  | .agent => "agent"

/-- `resolve_scope`. -/
def resolveScope (args : JsonValue) : MemoryScope :=
  if args.strAt "scope" = some "agent" then .agent else .user

/-- A character of a memory name. -/
def isNameChar (c : Char) : Bool := c.isAlphanum || c = '_' || c = '-'

/-- `validate_name`. -/
def validateName (name : String) : Except String Unit :=
  if name = "" then .error "Name cannot be empty."
  else if name.utf8ByteSize > 64 then .error "Name too long (max 64 chars)."
  else if !name.toList.all isNameChar then
    .error ("Invalid name '" ++ name ++ "'. Use only a-z, 0-9, _, -")
  else if ['.', '.'] <:+: name.toList then .error "'..' not allowed in name."
  else .ok ()

/-- `normalize_optional_filter`. -/
def normalizeOptionalFilter (env : MemoryEnv) (value : Option String) : Option String :=
  ((value.map fun s => String.ofList (trimChars s.toList)).filter (· ≠ "")).map env.toLowercase

/-- `resolve_type`. -/
def resolveType (env : MemoryEnv) (args : JsonValue) : String :=
  (normalizeOptionalFilter env (args.strAt "memory_type")).getD "project"

/-- `resolve_inject`. -/
def resolveInject (args : JsonValue) : String :=
  if args.strAt "inject" = some "always" then "always" else "search"

/-- `resolve_description`. -/
def resolveDescription (args : JsonValue) (content : String) : String :=
  let given := ((args.strAt "description").or (args.strAt "summary")).map fun s =>
    trimChars s.toList
  match given.filter (· ≠ []) with
  | some text => String.ofList (text.take 500)
  | none =>
    let line := (textLines content.toList).find? fun l => trimChars l ≠ []
    String.ofList ((line.getD content.toList).take 200)

/-- `resolve_tags`. -/
def resolveTags (args : JsonValue) : List String :=
  (((((args.get "tags").bind JsonValue.asArray).getD []).filterMap JsonValue.asStr).map fun s =>
    String.ofList (trimChars s.toList)).filter (· ≠ "")

/-- The content of an action, if it passes the checks. -/
def checkedContent (env : MemoryEnv) (scope : MemoryScope) (args : JsonValue) (action : String) :
    Except String String :=
  match args.strAt "content" with
  | none => .error ("'content' is required for " ++ action ++ ".")
  | some content =>
    if isBlank content then .error "Content cannot be empty."
    else if content.length > 10000 then .error "Content exceeds 10000 character limit."
    else
      match env.contentError (scope = .agent) content with
      | some err => .error err
      | none => .ok content

/-! ## What is written -/

/-- A character in a JSON text. -/
def escapeChar (c : Char) : List Char :=
  if c = '"' then ['\\', '"']
  else if c = '\\' then ['\\', '\\']
  else if c = '\n' then ['\\', 'n']
  else if c = '\r' then ['\\', 'r']
  else if c = '\t' then ['\\', 't']
  else if c.toNat = 8 then ['\\', 'b']
  else if c.toNat = 12 then ['\\', 'f']
  else if c.toNat < 32 then
    ['\\', 'u', '0', '0'] ++ [Nat.digitChar (c.toNat / 16), Nat.digitChar (c.toNat % 16)]
  else [c]

/-- `yaml_scalar`. -/
def yamlScalar (value : String) : List Char :=
  '"' :: value.toList.flatMap escapeChar ++ ['"']

/-- `strip_yaml_quotes`. -/
def stripYamlQuotes (s : List Char) : List Char :=
  if 2 ≤ s.length ∧ s.head? = some '"' ∧ s.getLast? = some '"' then s.tail.dropLast else s

/-- `parse_tags`. -/
def parseTags (value : List Char) : List String :=
  let value := trimChars value
  let inner :=
    if value.head? = some '[' ∧ value.getLast? = some ']' then value.tail.dropLast else value
  ((inner.splitOn ',').map fun t => String.ofList (stripYamlQuotes (trimChars t))).filter (· ≠ "")

/-- A value that `yaml_scalar` has written, as it is read. -/
def reread (value : String) : String := String.ofList (stripYamlQuotes (yamlScalar value))

/-- `build_frontmatter`, with the content after it: what `parse_memory_file` reads in the file. -/
def writtenFields (name description : String) (tags : List String)
    (memType inject createdAt : String) (updatedAt : Option String) (scope : MemoryScope)
    (userId content : String) : MemoryFields where
  name := reread name
  scope := some scope.text
  userId := if scope = .user then some (reread userId) else none
  memType := reread memType
  inject := String.ofList (stripYamlQuotes (trimChars inject.toList))
  description := reread description
  tags :=
    if tags = [] then []
    else parseTags ('[' :: [',', ' '].intercalate (tags.map yamlScalar) ++ [']'])
  createdAt := reread createdAt
  updatedAt := updatedAt.map reread
  content := String.ofList (trimChars content.toList)

/-! ## Actions -/

/-- `scope_memory_dir`. -/
def scopeMemoryDir (env : MemoryEnv) (scope : MemoryScope) (userId : String) : MemoryDir :=
  match scope with
  | .agent => .root
  | .user => userMemoryDir env.parseUuid userId

/-- `scan_scope`. -/
def scanScope (env : MemoryEnv) (s : MemoryStore) (scope : MemoryScope) (userId : String) :
    List MemoryFile :=
  match scope with
  | .agent => scanAgentLayer s
  | .user => scanUserLayer env.parseUuid s userId

/-- The file of an addition. -/
def addTarget (env : MemoryEnv) (scope : MemoryScope) (userId name : String) : MemoryDir × String :=
  (scopeMemoryDir env scope userId, name ++ ".md")

/-- The checks of `action_add`, and the content that passes them. -/
def addChecks (env : MemoryEnv) (io : MemoryIo) (s : MemoryStore) (name : String) (args : JsonValue)
    (userId : String) : Except String String := do
  validateName name
  let scope := resolveScope args
  if scope = .user ∧ isBlank userId then
    throw "User scope requires a resolvable user_id."
  if scope = .user ∧ Fqid.parse env.parseUuid userId defaultNamespace = none then
    throw ("User scope rejected: channel identity '" ++ userId ++ "' is not a registered FQID. " ++
      "This channel identity must be registered first (run /link) before " ++
      "writing user-scope memories.")
  let content ← checkedContent env scope args "add"
  if io.scanAgent = false then throw ("agent layer scan failed: " ++ io.error)
  if io.scanUser = false then throw ("user layer scan failed: " ++ io.error)
  if (scanScope env s scope userId).any (·.name = name) then
    throw ("Memory '" ++ name ++ "' already exists in the " ++ scope.text ++
      " scope. Use 'replace' to update it.")
  if io.scanMerged = false then throw ("memory scan failed: " ++ io.error)
  if io.writes = false then throw ("Failed to write memory file: " ++ io.error)
  return content

/-- `action_add`. -/
def actionAdd (env : MemoryEnv) (io : MemoryIo) (s : MemoryStore) (name : String) (args : JsonValue)
    (userId : String) : Except String String × MemoryStore :=
  match addChecks env io s name args userId with
  | .error err => (.error err, s)
  | .ok content =>
    let scope := resolveScope args
    let fields := writtenFields name (resolveDescription args content) (resolveTags args)
      (resolveType env args) (resolveInject args) env.today none scope userId content
    (.ok ("Memory '" ++ name ++ "' added."), s.write (addTarget env scope userId name) fields)

/-- `not_found_error`. -/
def notFoundError (io : MemoryIo) (s : MemoryStore) (name : String) (scope : MemoryScope) : String :=
  if scope ≠ .agent ∧ io.scanAgent ∧ (scanAgentLayer s).any (·.name = name) then
    "Memory '" ++ name ++ "' not found in the " ++ scope.text ++
      " scope; it exists in the agent layer — pass scope='agent' explicitly to modify it."
  else "Memory '" ++ name ++ "' not found in the " ++ scope.text ++ " scope."

/-- The entry that an action finds. -/
def findEntry (env : MemoryEnv) (io : MemoryIo) (s : MemoryStore) (name : String)
    (scope : MemoryScope) (userId : String) : Except String MemoryFile :=
  if (if scope = .agent then io.scanAgent else io.scanUser) = false then
    .error ("memory layer scan failed: " ++ io.error)
  else
    match (scanScope env s scope userId).find? (·.name = name) with
    | none => .error (notFoundError io s name scope)
    | some existing => .ok existing

/-- The checks of `action_replace`, with the entry that is found and its new fields. -/
def replaceChecks (env : MemoryEnv) (io : MemoryIo) (s : MemoryStore) (name : String)
    (args : JsonValue) (userId : String) : Except String (MemoryFile × MemoryFields) := do
  validateName name
  let scope := resolveScope args
  let existing ← findEntry env io s name scope userId
  let content ← checkedContent env scope args "replace"
  if io.writes = false then throw ("Failed to write memory file: " ++ io.error)
  let inject :=
    match args.strAt "inject" with
    | some "always" => "always"
    | some "search" => "search"
    | _ => existing.inject
  let description :=
    if (args.strAt "description").isSome ∨ (args.strAt "summary").isSome then
      resolveDescription args content
    else existing.description
  let tags :=
    if ((args.get "tags").bind JsonValue.asArray).isSome then resolveTags args else existing.tags
  let memType := (normalizeOptionalFilter env (args.strAt "memory_type")).getD existing.memType
  return (existing, writtenFields name description tags memType inject existing.createdAt
    (some env.today) scope userId content)

/-- `action_replace`. -/
def actionReplace (env : MemoryEnv) (io : MemoryIo) (s : MemoryStore) (name : String)
    (args : JsonValue) (userId : String) : Except String String × MemoryStore :=
  match replaceChecks env io s name args userId with
  | .error err => (.error err, s)
  | .ok (existing, fields) =>
    (.ok ("Memory '" ++ name ++ "' updated."), s.write existing.path fields)

/-- The checks of `action_remove`, and the entry that is found. -/
def removeChecks (env : MemoryEnv) (io : MemoryIo) (s : MemoryStore) (name : String)
    (args : JsonValue) (userId : String) : Except String MemoryFile := do
  validateName name
  if (args.get "confirm").bind JsonValue.asBool ≠ some true then
    throw "Removing memory requires confirm=true after explicit user confirmation."
  let existing ← findEntry env io s name (resolveScope args) userId
  if io.writes = false then throw ("Failed to remove memory file: " ++ io.error)
  return existing

/-- `action_remove`. -/
def actionRemove (env : MemoryEnv) (io : MemoryIo) (s : MemoryStore) (name : String)
    (args : JsonValue) (userId : String) : Except String String × MemoryStore :=
  match removeChecks env io s name args userId with
  | .error err => (.error err, s)
  | .ok existing => (.ok ("Memory '" ++ name ++ "' removed."), s.erase existing.path)

/-- An action of the tool. -/
inductive MemoryAction
  | add
  | replace
  | remove

/-- `MemoryManageTool::execute`, of a known action. -/
def memoryManage (env : MemoryEnv) (io : MemoryIo) (s : MemoryStore) (action : MemoryAction)
    (name : String) (args : JsonValue) (userId : String) : Except String String × MemoryStore :=
  match action with
  | .add => actionAdd env io s name args userId
  | .replace => actionReplace env io s name args userId
  | .remove => actionRemove env io s name args userId

/-! ## What is read again -/

lemma stripYamlQuotes_quoted (inner : List Char) :
    stripYamlQuotes ('"' :: inner ++ ['"']) = inner := by
  unfold stripYamlQuotes
  have hlast : ('"' :: inner ++ ['"']).getLast? = some '"' := List.getLast?_concat
  rw [if_pos ⟨by simp, rfl, hlast⟩]
  simp

/-- What is read of a value is its text as JSON writes it. -/
lemma reread_eq (value : String) : reread value = String.ofList (value.toList.flatMap escapeChar) := by
  rw [reread, yamlScalar, stripYamlQuotes_quoted]

lemma toNat_of_isNameChar {c : Char} (h : isNameChar c = true) : 33 ≤ c.toNat ∧ c.toNat ≤ 122 := by
  have h : (decide ('A'.val ≤ c.val ∧ c.val ≤ 'Z'.val) ||
      decide ('a'.val ≤ c.val) && decide (c.val ≤ 'z'.val) ||
        decide ('0'.val ≤ c.val) && decide (c.val ≤ '9'.val) || c = '_' || c = '-') = true := h
  simp only [Bool.or_eq_true, Bool.and_eq_true, decide_eq_true_eq, UInt32.le_iff_toNat_le] at h
  rcases h with (((⟨h, h'⟩ | ⟨h, h'⟩) | ⟨h, h'⟩) | rfl) | rfl
  · exact ⟨le_trans (by decide) h, le_trans h' (by decide)⟩
  · exact ⟨le_trans (by decide) h, le_trans h' (by decide)⟩
  · exact ⟨le_trans (by decide) h, le_trans h' (by decide)⟩
  · decide
  · decide

lemma escapeChar_of_isNameChar {c : Char} (h : isNameChar c = true) : escapeChar c = [c] := by
  have hne : ∀ d, isNameChar d = false → c ≠ d := fun d hd heq => by
    rw [heq, hd] at h
    cases h
  have hle := (toNat_of_isNameChar h).1
  unfold escapeChar
  rw [if_neg (hne '"' (by decide)), if_neg (hne '\\' (by decide)), if_neg (hne '\n' (by decide)),
    if_neg (hne '\r' (by decide)), if_neg (hne '\t' (by decide)), if_neg (by omega),
    if_neg (by omega), if_neg (by omega)]

lemma isNameChar_of_validateName {name : String} (h : validateName name = .ok ()) :
    name ≠ "" ∧ ∀ c ∈ name.toList, isNameChar c = true := by
  unfold validateName at h
  split_ifs at h with hempty _ hchars
  rw [Bool.not_eq_true', Bool.not_eq_false, List.all_eq_true] at hchars
  exact ⟨hempty, hchars⟩

/-- **A valid name** is read as it was written. -/
lemma reread_name {name : String} (h : validateName name = .ok ()) : reread name = name := by
  rw [reread_eq]
  have hself : name.toList.flatMap escapeChar = name.toList := by
    rw [List.flatMap_congr fun c hc =>
      escapeChar_of_isNameChar ((isNameChar_of_validateName h).2 c hc)]
    simp
  rw [hself, String.ofList_toList]

/-- A valid name is not blank. -/
lemma isBlank_name {name : String} (h : validateName name = .ok ()) : isBlank name = false := by
  obtain ⟨hempty, hchars⟩ := isNameChar_of_validateName h
  by_contra hblank
  rw [Bool.not_eq_false, isBlank, List.all_eq_true] at hblank
  obtain ⟨c, hc⟩ := List.exists_mem_of_ne_nil name.toList fun hnil =>
    hempty (String.toList_inj.1 hnil)
  have hbounds := toNat_of_isNameChar (hchars c hc)
  have hwhite := hblank c hc
  simp only [isWhiteSpace, Bool.or_eq_true, Bool.and_eq_true, decide_eq_true_eq, beq_iff_eq] at hwhite
  omega

/-- A text that is not blank is not read as a blank one. -/
lemma isBlank_of_reread {value : String} (h : isBlank (reread value) = true) :
    isBlank value = true := by
  rw [reread_eq, isBlank, String.toList_ofList, List.all_eq_true] at h
  rw [isBlank, List.all_eq_true]
  intro c hc
  have hescape : ∀ d ∈ escapeChar c, isWhiteSpace d = true := fun d hd =>
    h d (List.mem_flatMap.2 ⟨c, hc, hd⟩)
  unfold escapeChar at hescape
  have hslash : isWhiteSpace '\\' = false := by decide
  split_ifs at hescape
  all_goals first
    | exact hescape c (List.mem_singleton_self c)
    | exact absurd (hescape '\\' List.mem_cons_self) (by rw [hslash]; exact Bool.false_ne_true)

/-- A trimmed text that is white space is empty. -/
lemma trimChars_eq_nil {text : List Char} (h : (trimChars text).all isWhiteSpace = true) :
    trimChars text = [] := by
  unfold trimChars at h ⊢
  rw [List.all_reverse] at h
  rw [List.reverse_eq_nil_iff]
  by_contra hne
  have hhead := List.head_dropWhile_not isWhiteSpace hne
  rw [List.all_eq_true] at h
  rw [h _ (List.head_mem hne)] at hhead
  cases hhead

/-- The type of an addition is not blank. -/
lemma resolveType_not_blank (env : MemoryEnv) (args : JsonValue) :
    isBlank (resolveType env args) = false := by
  have hdefault : isBlank "project" = false := by decide
  unfold resolveType normalizeOptionalFilter
  cases args.strAt "memory_type" with
  | none => exact hdefault
  | some value =>
    rw [Option.map_some]
    by_cases hempty : String.ofList (trimChars value.toList) = ""
    · rw [Option.filter_some, if_neg (by simpa using hempty)]
      exact hdefault
    · rw [Option.filter_some, if_pos (decide_eq_true hempty), Option.map_some, Option.getD_some]
      by_contra hblank
      rw [Bool.not_eq_false] at hblank
      have htrim := env.toLowercase_blank _ hblank
      rw [isBlank, String.toList_ofList] at htrim
      exact hempty (by rw [trimChars_eq_nil htrim])

/-! ## What passes the checks -/

section

variable {ε : Type*} {β : Type} {b : β}

/-- A check that throws is passed. -/
lemma check_eq_ok {c : Prop} [Decidable c] {e : ε} {f : PUnit → Except ε β} {rest : Except ε β}
    (h : (if c then (throw e : Except ε PUnit) >>= f else rest) = .ok b) : ¬ c ∧ rest = .ok b := by
  split_ifs at h with hc
  · cases h
  · exact ⟨hc, h⟩

end

section

variable {env : MemoryEnv} {io : MemoryIo} {s : MemoryStore} {userId name : String}
  {args : JsonValue}

/-- **An addition passes its checks** only for a valid name that is free in the layer. -/
lemma addChecks_eq_ok {content : String} (h : addChecks env io s name args userId = .ok content) :
    validateName name = .ok () ∧ (resolveScope args = .user → isBlank userId = false) ∧
      ∀ f ∈ scanScope env s (resolveScope args) userId, f.name ≠ name := by
  unfold addChecks at h
  obtain ⟨⟨⟩, hvalid, h⟩ := Except.bind_eq_ok h
  obtain ⟨huser, h⟩ := check_eq_ok h
  obtain ⟨-, h⟩ := check_eq_ok h
  obtain ⟨_, -, h⟩ := Except.bind_eq_ok h
  obtain ⟨-, h⟩ := check_eq_ok h
  obtain ⟨-, h⟩ := check_eq_ok h
  obtain ⟨hfree, -⟩ := check_eq_ok h
  refine ⟨hvalid, fun hscope => ?_, fun f hf heq => hfree ?_⟩
  · exact Bool.eq_false_iff.2 fun hblank => huser ⟨hscope, hblank⟩
  · exact List.any_eq_true.2 ⟨f, hf, decide_eq_true heq⟩

/-- **A replacement passes its checks** with the entry of the name, and keeps the name. -/
lemma replaceChecks_eq_ok {e : MemoryFile} {fields : MemoryFields}
    (h : replaceChecks env io s name args userId = .ok (e, fields)) :
    validateName name = .ok () ∧ findEntry env io s name (resolveScope args) userId = .ok e ∧
      fields.name = reread name := by
  unfold replaceChecks at h
  obtain ⟨⟨⟩, hvalid, h⟩ := Except.bind_eq_ok h
  obtain ⟨existing, hfind, h⟩ := Except.bind_eq_ok h
  obtain ⟨_, -, h⟩ := Except.bind_eq_ok h
  obtain ⟨-, h⟩ := check_eq_ok h
  obtain ⟨rfl, rfl⟩ := Prod.mk.inj (Except.ok.inj h)
  exact ⟨hvalid, hfind, rfl⟩

/-- **A removal passes its checks** with the entry of the name. -/
lemma removeChecks_eq_ok {e : MemoryFile}
    (h : removeChecks env io s name args userId = .ok e) :
    findEntry env io s name (resolveScope args) userId = .ok e := by
  unfold removeChecks at h
  obtain ⟨⟨⟩, -, h⟩ := Except.bind_eq_ok h
  obtain ⟨-, h⟩ := check_eq_ok h
  obtain ⟨existing, hfind, h⟩ := Except.bind_eq_ok h
  obtain ⟨-, h⟩ := check_eq_ok h
  obtain rfl := Except.ok.inj h
  exact hfind

end

end MyClaw
