import CorexManager.Gateway.Names

/-!
# Discovery

`discovery.rs`: which servers of a team are listed, and the tools with which a client explores
the catalogs of those that are.
-/

namespace CorexManager.Gateway

open Data (Dict.set Json Text)
open Rust (UnicodeTables)

/-! ### Servers and catalogs -/

/-- `ServerConfig`. -/
structure ServerConfig where
  id : Int
  teamId : Int
  name : Text
  serverNamespace : Text
  displayName : Option Text
  description : Option Text
  enabled : Bool
  transportType : Text
  expose : Option Bool
  deriving DecidableEq

/-- `Catalog`. -/
structure Catalog where
  tools : List Json
  resources : List Json
  prompts : List Json

/-- `DiscoveryMode`. -/
inductive DiscoveryMode where
  | passthrough | metaTools | hybrid
  deriving DecidableEq, Repr

/-- `DiscoveryMode::parse`. -/
def DiscoveryMode.parse (s : Text) : DiscoveryMode :=
  if s = "meta-tools".toList then .metaTools
  else if s = "hybrid".toList then .hybrid
  else .passthrough

/-- `visible_servers`. -/
def visibleServers (servers : List ServerConfig) (mode : DiscoveryMode) : List ServerConfig :=
  (servers.filter ServerConfig.enabled).filter fun s =>
    if mode = .hybrid then s.expose.getD true else true

/-! ### The tools of the gateway -/

/-- The tools of the gateway itself. -/
inductive MetaTool where
  | listServers | listTools | searchTools | describeTool | refreshTools
  deriving DecidableEq, Repr

namespace MetaTool

/-- All of them, in the order in which they are defined. -/
def all : List MetaTool := [.listServers, .listTools, .searchTools, .describeTool, .refreshTools]

/-- Their names. -/
def name : MetaTool → Text
  | .listServers => "gateway__list_servers".toList
  | .listTools => "gateway__list_tools".toList
  | .searchTools => "gateway__search_tools".toList
  | .describeTool => "gateway__describe_tool".toList
  | .refreshTools => "gateway__refresh_tools".toList

/-- Their descriptions. -/
def description : MetaTool → Text
  | .listServers => "List all available MCP servers for this team.".toList
  | .listTools => "List all tools across all servers (with namespace prefix).".toList
  | .searchTools => "Search tools by name or description substring.".toList
  | .describeTool => "Get the full schema for a specific tool.".toList
  | .refreshTools => "Trigger a catalog refresh for all servers.".toList

/-- The argument a tool needs, and what it is. -/
def argument : MetaTool → Option (Text × Text)
  | .searchTools => some ("query".toList, "Search query".toList)
  | .describeTool => some ("name".toList, "Full tool name (namespace__tool)".toList)
  | _ => none

/-- The tool of a name. -/
def ofName (name : Text) : Option MetaTool := all.find? fun t => t.name == name

/-- The definition of a tool. -/
def definition (t : MetaTool) : Json :=
  .obj [("name".toList, .str t.name), ("description".toList, .str t.description),
    ("inputSchema".toList, .obj [("type".toList, .str "object".toList),
      ("properties".toList, .obj (t.argument.toList.map fun a =>
        (a.1, .obj [("type".toList, .str "string".toList), ("description".toList, .str a.2)]))),
      ("required".toList, .arr (t.argument.toList.map fun a => .str a.1))]),
    ("_meta".toList, .obj [("mcp_server".toList, .str "gateway".toList),
      ("mcp_meta_tool".toList, .bool true)])]

end MetaTool

/-- `is_meta_tool`. -/
def isMetaTool (name : Text) : Bool := (MetaTool.ofName name).isSome

/-- `meta_tool_definitions`. -/
def metaToolDefinitions : List Json := MetaTool.all.map MetaTool.definition

/-- An optional text as JSON. -/
def optionalText (t : Option Text) : Json := t.elim .null .str

/-- The entry of a server. -/
def serverEntry (s : ServerConfig) : Json :=
  .obj [("namespace".toList, .str s.serverNamespace), ("name".toList, .str s.name),
    ("display_name".toList, optionalText s.displayName),
    ("description".toList, optionalText s.description),
    ("transport_type".toList, .str s.transportType)]

/-- `value[key] = v`: null becomes an object, and any other value that is not one panics. -/
def indexMut (key : Text) (v : Json) : Json → Option Json
  | .obj fields => some (.obj (Dict.set fields key v))
  | .null => some (.obj [(key, v)])
  | _ => none

/-- The tools of the catalogs, each with the namespace of the first server that has the id of
the catalog. -/
def namespacedTools (servers : List ServerConfig) (catalogs : List (Int × Catalog)) :
    List (Text × Json) :=
  catalogs.flatMap fun c =>
    match servers.find? fun s => s.id == c.1 with
    | some s => c.2.tools.map fun tool => (s.serverNamespace, tool)
    | none => []

/-- A tool under its prefixed name, if it has a name. -/
def prefixedTool (ns : Text) (tool : Json) : Json :=
  match (tool.get "name".toList).bind Json.asStr with
  | some name => setField "name".toList (.str (prefixName ns name)) tool
  | none => tool

/-- A text of a tool. -/
def toolText (key : String) (tool : Json) : Text :=
  ((tool.get key.toList).bind Json.asStr).getD []

/-- The test of a search. -/
def matchesQuery (U : UnicodeTables) (query : Text) (tool : Json) : Bool :=
  Rust.contains (U.toLowercase (toolText "name" tool)) query ||
    Rust.contains (U.toLowercase (toolText "description" tool)) query

/-- The first tool of a name, in the catalogs of the servers of a namespace. -/
def describedTool (servers : List ServerConfig) (catalogs : List (Int × Catalog))
    (ns original : Text) : Option Json :=
  catalogs.findSome? fun c =>
    if servers.any fun s => s.serverNamespace == ns && s.id == c.1 then
      c.2.tools.find? fun tool => (tool.get "name".toList).bind Json.asStr == some original
    else none

/-- `execute_meta_tool`. -/
def executeMetaTool (U : UnicodeTables) (toolName : Text) (args : Json)
    (servers : List ServerConfig) (catalogs : List (Int × Catalog)) : Option Json :=
  match MetaTool.ofName toolName with
  | some .listServers =>
      some (.obj [("servers".toList, .arr ((servers.filter ServerConfig.enabled).map serverEntry))])
  | some .listTools =>
      some (.obj [("tools".toList,
        .arr ((namespacedTools servers catalogs).map fun t => prefixedTool t.1 t.2))])
  | some .searchTools => do
      let query := U.toLowercase (toolText "query" args)
      let found ← ((namespacedTools servers catalogs).filter fun t => matchesQuery U query t.2).mapM
        fun t => indexMut "name".toList (.str (prefixName t.1 (toolText "name" t.2))) t.2
      some (.obj [("tools".toList, .arr found)])
  | some .describeTool =>
      let target := toolText "name" args
      match (Rust.splitOncePair '_' target).bind fun r => describedTool servers catalogs r.1 r.2 with
      | some tool =>
          some (.obj [("tool".toList, setField "name".toList (.str target) tool)])
      | none => some (.obj [("error".toList, .str "Tool not found".toList)])
  | some .refreshTools => some (.obj [("status".toList, .str "refresh_triggered".toList)])
  | none => some (.obj [("error".toList, .str "Unknown meta-tool".toList)])

end CorexManager.Gateway
