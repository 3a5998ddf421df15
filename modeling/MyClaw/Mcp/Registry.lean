import MyClaw.Lib.Entry
import MyClaw.Lib.Holes
import MyClaw.Lib.Json
import MyClaw.Session.Types

set_option autoImplicit false

/-!
# The registry of the MCP servers

`McpRegistry` (`mcp/client.rs`) and the deferred tools (`mcp/deferred.rs`, `mcp/tool.rs`): the tools
of all servers that connect stand in one index, under names that are made of the name of the server,
a separator and the name of the tool.  A conversation activates some of them; a call may leave the
name of the server out.

## Main definitions

* `McpRegistry.connectAll`, `McpRegistry.callTool` — the index, and a call by it.
* `DeferredMcpToolSet.fromRegistry` — the tools that can be activated.
* `ActivatedToolSet.getResolved` — the activated tool that a name stands for.

## Implementation notes

Names are lists of characters.  A hash map is a table of distinct keys; nothing depends on the order in
which it is gone through.  How a server connects and what it answers is a parameter; so is the
printing of its answers. -/

namespace MyClaw

open Entry (Table)

/-- `McpServerConfig`, as far as the registry reads it. -/
structure McpServerConfig where
  name : List Char

/-- `McpToolDef`. -/
structure McpToolDef where
  name : List Char
  description : Option (List Char)
  inputSchema : JsonValue

/-- `McpServer`: a server that has connected, with its tools and what it answers to a call. -/
structure McpServer where
  tools : List McpToolDef
  callTool : List Char → JsonValue → Except String JsonValue

/-- The separator of the names. -/
def separator : List Char := ['_', '_']

/-- `format!("{}__{}", config.name, tool.name)`. -/
def prefixedName (server tool : List Char) : List Char := server ++ separator ++ tool

/-- `McpRegistry`. -/
structure McpRegistry where
  servers : List McpServer
  toolIndex : Table (List Char) (ℕ × List Char)

namespace McpRegistry

/-- The tools of a server are put into the index. -/
def indexTools (serverIdx : ℕ) (config : McpServerConfig) (tools : List McpToolDef)
    (index : Table (List Char) (ℕ × List Char)) : Table (List Char) (ℕ × List Char) :=
  tools.foldl (fun index tool =>
    index.insert (prefixedName config.name tool.name) (serverIdx, tool.name)) index

/-- The next server is connected, or skipped. -/
def connectNext (connect : McpServerConfig → Option McpServer) (registry : McpRegistry)
    (config : McpServerConfig) : McpRegistry :=
  match connect config with
  | some server =>
    { servers := registry.servers ++ [server]
      toolIndex := indexTools registry.servers.length config server.tools registry.toolIndex }
  | none => registry

/-- `connect_all`. -/
def connectAll (connect : McpServerConfig → Option McpServer) (configs : List McpServerConfig) :
    McpRegistry :=
  configs.foldl (connectNext connect) ⟨[], ∅⟩

/-- `tool_names`. -/
def toolNames (registry : McpRegistry) : List (List Char) := registry.toolIndex.keys

/-- The server and the tool that a name stands for in the index. -/
def route (registry : McpRegistry) (prefixed : List Char) : Option (ℕ × List Char) :=
  registry.toolIndex.lookup prefixed

/-- `get_tool_def`. -/
def getToolDef (registry : McpRegistry) (prefixed : List Char) : Option McpToolDef :=
  (registry.route prefixed).bind fun (serverIdx, originalName) =>
    registry.servers[serverIdx]?.bind fun server =>
      server.tools.find? fun tool => tool.name = originalName

/-- `call_tool`; an index that has no server would be a panic. -/
def callTool (toStringPretty : JsonValue → String) (registry : McpRegistry) (prefixed : List Char)
    (arguments : JsonValue) : Except String String :=
  match registry.route prefixed with
  | none => .error ("unknown MCP tool `" ++ String.ofList prefixed ++ "`")
  | some (serverIdx, originalName) =>
    match registry.servers[serverIdx]? with
    | some server => (server.callTool originalName arguments).map toStringPretty
    | none => .error "index out of bounds"

end McpRegistry

/-! ## Deferred tools -/

/-- The description of a tool; one that is missing or blank is replaced. -/
def toolDescription (description : Option (List Char)) : List Char :=
  (description.filter fun s => !(trimChars s).isEmpty).getD "MCP tool".toList

/-- `McpToolWrapper`, with the name by which it calls the registry. -/
structure McpToolWrapper where
  prefixedName : List Char
  description : List Char
  inputSchema : JsonValue

/-- `McpToolWrapper::new`. -/
def McpToolWrapper.new (prefixed : List Char) (toolDef : McpToolDef) : McpToolWrapper :=
  ⟨prefixed, toolDescription toolDef.description, toolDef.inputSchema⟩

/-- `DeferredMcpToolStub`. -/
structure DeferredMcpToolStub where
  prefixedName : List Char
  description : List Char
  toolDef : McpToolDef

/-- `DeferredMcpToolStub::new`. -/
def DeferredMcpToolStub.new (prefixed : List Char) (toolDef : McpToolDef) : DeferredMcpToolStub :=
  ⟨prefixed, toolDescription toolDef.description, toolDef⟩

/-- `DeferredMcpToolStub::activate`. -/
def DeferredMcpToolStub.activate (stub : DeferredMcpToolStub) : McpToolWrapper :=
  .new stub.prefixedName stub.toolDef

/-- `DeferredMcpToolSet`, of a registry. -/
structure DeferredMcpToolSet where
  stubs : List DeferredMcpToolStub

namespace DeferredMcpToolSet

/-- `from_registry`. -/
def fromRegistry (registry : McpRegistry) : DeferredMcpToolSet :=
  ⟨registry.toolNames.filterMap fun name => (registry.getToolDef name).map (.new name)⟩

/-- `get_by_name`. -/
def getByName (deferred : DeferredMcpToolSet) (name : List Char) : Option DeferredMcpToolStub :=
  deferred.stubs.find? fun stub => stub.prefixedName = name

/-- `activate`. -/
def activate (deferred : DeferredMcpToolSet) (name : List Char) : Option McpToolWrapper :=
  (deferred.getByName name).map (·.activate)

end DeferredMcpToolSet

/-! ## Activated tools -/

/-- `ActivatedToolSet`. -/
structure ActivatedToolSet where
  tools : Table (List Char) McpToolWrapper

namespace ActivatedToolSet

/-- `new`. -/
def new : ActivatedToolSet := ⟨∅⟩

/-- `activate`. -/
def activate (set : ActivatedToolSet) (name : List Char) (tool : McpToolWrapper) : ActivatedToolSet :=
  ⟨set.tools.insert name tool⟩

/-- `is_activated`. -/
def isActivated (set : ActivatedToolSet) (name : List Char) : Bool := name ∈ set.tools

/-- `get`. -/
def get (set : ActivatedToolSet) (name : List Char) : Option McpToolWrapper := set.tools.lookup name

/-- `split_once("__")` behind the separator. -/
def suffix (name : List Char) : Option (List Char) := (Holes.cutFirst separator name).map (·.2)

/-- The loop of `get_resolved`, with the tool that is found so far. -/
def resolveSuffix (name : List Char) :
    Option McpToolWrapper → List (List Char × McpToolWrapper) → Option McpToolWrapper
  | resolved, [] => resolved
  | resolved, (toolName, tool) :: rest =>
    if suffix toolName ≠ some name then resolveSuffix name resolved rest
    else if resolved.isSome then none
    else resolveSuffix name (some tool) rest

/-- `get_resolved`. -/
def getResolved (set : ActivatedToolSet) (name : List Char) : Option McpToolWrapper :=
  match set.get name with
  | some tool => some tool
  | none =>
    if separator <:+: name then none
    else resolveSuffix name none (Entry.toList set.tools)

/-- The tools that a conversation has activated, in the order of the names. -/
def activateAll (deferred : DeferredMcpToolSet) (names : List (List Char)) : ActivatedToolSet :=
  names.foldl (fun set name =>
    match deferred.activate name with
    | some tool => set.activate name tool
    | none => set) new

end ActivatedToolSet

end MyClaw
