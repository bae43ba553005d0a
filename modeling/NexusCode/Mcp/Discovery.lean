/-
  The tools of the MCP servers (`mcp/src/client.ts`, `mcp/src/bridge.ts`, `cli/src/mcp.ts`).

  Every server that answered is asked for its tools, and what it names is registered under a name
  made of both.  Three things are lost: the pages of a list behind the first one, all tools when one
  server cannot list its own, and a tool whose name is taken, which is counted nonetheless.

    1. `discoverTools`, `registerMcpTools`, `attachMcpTools`.
    2. **`registered_apart`** — no name is bound twice; `counted_iff` — a count is right for every
       server just when no name is taken twice.
    3. **`attached_iff`**   — so this is when no tool is lost; `second_page`, a tool that is.
-/
import Mathlib.Data.List.Nodup
import Mathlib.Tactic.Common

namespace NexusCode.Mcp

open List

/-- An enabled server: what connecting throws, and the pages of its tool list, or what listing
    throws.  A tool is its name here. -/
structure Server where
  name : String
  transport : String
  connectError : Option String := none
  pages : Except String (List (List String))

/-- `DiscoveredTool`: the server and the name of the tool. -/
abbrev DiscoveredTool := String × String

/-- What a registered tool runs: its own code, or a tool of a server. -/
inductive Target where
  | builtin
  | mcp (tool : DiscoveredTool)
deriving DecidableEq

/-- `ToolRegistry`: names and what they run. -/
abbrev ToolRegistry := List (String × Target)

/-- `McpServerReport`. -/
structure McpServerReport where
  name : String
  transport : String
  connected : Bool
  toolCount : Nat
  error : Option String

/-- `bridgedToolName(server, toolName)`. -/
def bridgedToolName (tool : DiscoveredTool) : String := tool.1 ++ "__" ++ tool.2

/-- `McpClient.listTools()`: the first page. -/
def Server.listTools (s : Server) : Except String (List String) := s.pages.map (·.headD [])

/-- `discoverTools()`. -/
def discoverTools : List Server → Except String (List DiscoveredTool)
  | [] => .ok []
  | s :: rest =>
    if s.connectError.isSome then discoverTools rest
    else s.listTools.bind fun tools =>
      (discoverTools rest).map fun later => tools.map (s.name, ·) ++ later

/-- `registry.has(name)`. -/
def ToolRegistry.has (registry : ToolRegistry) (name : String) : Bool :=
  registry.any (·.1 = name)

/-- `registerMcpTools(registry, tools)`: the tools that are registered. -/
def registerMcpTools (registry : ToolRegistry) : List DiscoveredTool → List DiscoveredTool
  | [] => []
  | tool :: rest =>
    if registry.has (bridgedToolName tool) then registerMcpTools registry rest
    else tool :: registerMcpTools (registry ++ [(bridgedToolName tool, .mcp tool)]) rest

/-- The reports of a session. -/
def reportsOf (servers : List Server) (tools : List DiscoveredTool) : List McpServerReport :=
  servers.map fun s =>
    { name := s.name, transport := s.transport, connected := s.connectError.isNone
      toolCount := tools.countP (·.1 = s.name), error := s.connectError }

/-- `attachMcpTools(registry, config, secrets)`: the reports and the tools that are registered. -/
def attachMcpTools (registry : ToolRegistry) (servers : List Server) :
    Except String (List McpServerReport × List DiscoveredTool) :=
  (discoverTools servers).map fun tools =>
    (reportsOf servers tools, registerMcpTools registry tools)

/-! ## What is lost -/

/-- The tools of a server that connected and listed. -/
def Server.Offers (s : Server) (tool : DiscoveredTool) : Prop :=
  s.connectError = none ∧ tool.1 = s.name ∧ ∃ pages, s.pages = .ok pages ∧ tool.2 ∈ pages.flatten

/-- **No tool is lost**: everything a server offers is registered, unless its name was there before,
    and counted. -/
def Complete (registry : ToolRegistry) (servers : List Server) : Prop :=
  ∃ reports added, attachMcpTools registry servers = .ok (reports, added) ∧
    (∀ s ∈ servers, ∀ tool, s.Offers tool → registry.has (bridgedToolName tool) = false →
      tool ∈ added) ∧
    ∀ report ∈ reports, report.toolCount = added.countP (·.1 = report.name)

/-- The tools on the first pages of the servers that connected. -/
def firstPages (servers : List Server) : List DiscoveredTool :=
  (servers.filter (·.connectError.isNone)).flatMap fun s =>
    match s.listTools with
    | .ok tools => tools.map (s.name, ·)
    | .error _ => []

variable {registry : ToolRegistry} {servers : List Server} {tools : List DiscoveredTool}

theorem discoverTools_eq : ∀ {servers : List Server},
    (∀ s ∈ servers, s.connectError = none → ∃ pages, s.pages = .ok pages) →
    discoverTools servers = .ok (firstPages servers)
  | [], _ => rfl
  | s :: rest, h => by
    obtain ⟨hs, hrest⟩ := forall_mem_cons.mp h
    have ih := discoverTools_eq hrest
    unfold discoverTools firstPages
    cases herror : s.connectError with
    | some error =>
      rw [if_pos Option.isSome_some, filter_cons_of_neg (by simp [herror])]
      exact ih
    | none =>
      obtain ⟨pages, hpages⟩ := hs herror
      rw [if_neg (by simp), filter_cons_of_pos (by simp [herror]), flatMap_cons, ih]
      unfold Server.listTools
      rw [hpages]
      rfl

theorem lists_of_discovered : ∀ {servers : List Server} {tools : List DiscoveredTool},
    discoverTools servers = .ok tools →
    ∀ s ∈ servers, s.connectError = none → ∃ pages, s.pages = .ok pages
  | [], _, _ => nofun
  | s :: rest, tools, h => by
    unfold discoverTools at h
    cases herror : s.connectError with
    | some error =>
      rw [herror, if_pos Option.isSome_some] at h
      exact forall_mem_cons.mpr ⟨fun hnone => (nomatch herror.symm.trans hnone),
        lists_of_discovered h⟩
    | none =>
      rw [herror, if_neg (by simp)] at h
      unfold Server.listTools at h
      cases hpages : s.pages with
      | error message =>
        rw [hpages] at h
        nomatch h
      | ok pages =>
        rw [hpages] at h
        cases hlater : discoverTools rest with
        | error message =>
          rw [hlater] at h
          nomatch h
        | ok later => exact forall_mem_cons.mpr ⟨fun _ => ⟨pages, hpages⟩, lists_of_discovered hlater⟩

theorem countP_registered_le (p : DiscoveredTool → Bool) : ∀ (tools : List DiscoveredTool)
    (registry : ToolRegistry), (registerMcpTools registry tools).countP p ≤ tools.countP p
  | [], _ => Nat.le_refl _
  | tool :: rest, registry => by
    unfold registerMcpTools
    split
    · exact Nat.le_trans (countP_registered_le p rest registry) (by simp [countP_cons])
    · rw [countP_cons, countP_cons]
      exact Nat.add_le_add_right (countP_registered_le p rest _) _

/-- No name is taken: none is registered before, and none twice. -/
def Free (registry : ToolRegistry) (tools : List DiscoveredTool) : Prop :=
  (tools.map bridgedToolName).Nodup ∧ ∀ tool ∈ tools, registry.has (bridgedToolName tool) = false

theorem free_cons {tool : DiscoveredTool} (h : registry.has (bridgedToolName tool) = false) :
    Free registry (tool :: tools) ↔ Free (registry ++ [(bridgedToolName tool, .mcp tool)]) tools := by
  unfold Free ToolRegistry.has at *
  simp only [map_cons, nodup_cons, mem_map, any_append, any_cons, any_nil, Bool.or_false,
    Bool.or_eq_false_iff, decide_eq_false_iff_not, forall_mem_cons, h]
  constructor
  · rintro ⟨⟨hnew, hnodup⟩, -, hfree⟩
    exact ⟨hnodup, fun other hother => ⟨hfree other hother, fun heq => hnew ⟨other, hother, heq.symm⟩⟩⟩
  · rintro ⟨hnodup, hfree⟩
    refine ⟨⟨?_, hnodup⟩, trivial, fun other hother => (hfree other hother).1⟩
    rintro ⟨other, hother, heq⟩
    exact (hfree other hother).2 heq.symm

/-- **No name is bound twice**: what is registered has names of its own, and free ones. -/
theorem registered_apart : ∀ (tools : List DiscoveredTool) (registry : ToolRegistry),
    Free registry (registerMcpTools registry tools)
  | [], _ => ⟨.nil, fun _ h => absurd h not_mem_nil⟩
  | tool :: rest, registry => by
    unfold registerMcpTools
    cases hhas : registry.has (bridgedToolName tool) with
    | true =>
      rw [if_pos rfl]
      exact registered_apart rest registry
    | false =>
      rw [if_neg Bool.false_ne_true]
      exact (free_cons hhas).mpr (registered_apart rest _)

theorem registered_of_free : ∀ {tools : List DiscoveredTool} {registry : ToolRegistry},
    Free registry tools → registerMcpTools registry tools = tools
  | [], _, _ => rfl
  | tool :: rest, registry, h => by
    have hfree := h.2 tool mem_cons_self
    unfold registerMcpTools
    rw [if_neg (by simp [hfree]), registered_of_free ((free_cons hfree).mp h)]

/-- **The counts are right** for all servers just when no name is taken. -/
theorem counted_iff : ∀ {tools : List DiscoveredTool} {registry : ToolRegistry},
    (∀ server, (registerMcpTools registry tools).countP (·.1 = server) =
      tools.countP (·.1 = server)) ↔ Free registry tools
  | [], _ => iff_of_true (fun _ => rfl) ⟨.nil, nofun⟩
  | tool :: rest, registry => by
    cases hhas : registry.has (bridgedToolName tool) with
    | true =>
      refine iff_of_false (fun h => ?_) fun h => nomatch hhas.symm.trans (h.2 tool mem_cons_self)
      have hle := countP_registered_le (fun t => decide (t.1 = tool.1)) rest registry
      have heq := h tool.1
      unfold registerMcpTools at heq
      rw [if_pos hhas, countP_cons_of_pos (by simp)] at heq
      omega
    | false =>
      rw [free_cons hhas, ← counted_iff, registerMcpTools, if_neg (by simp [hhas])]
      simp only [countP_cons, Nat.add_right_cancel_iff]

theorem mem_firstPages {tool : DiscoveredTool} (h : tool ∈ firstPages servers) :
    ∃ s ∈ servers, tool.1 = s.name := by
  obtain ⟨s, hs, htool⟩ := mem_flatMap.mp h
  refine ⟨s, (mem_filter.mp hs).1, ?_⟩
  split at htool
  · obtain ⟨name, -, rfl⟩ := mem_map.mp htool
    rfl
  · nomatch htool

/-- **No tool is lost** just when every server that connects can list its tools, no name on a first page
    is taken, and a tool behind the first page has a name that was there before, or is on it too. -/
theorem attached_iff (registry : ToolRegistry) (servers : List Server) :
    Complete registry servers ↔
      (∀ s ∈ servers, s.connectError = none → ∃ pages, s.pages = .ok pages) ∧
      Free registry (firstPages servers) ∧
      ∀ s ∈ servers, ∀ tool, s.Offers tool → registry.has (bridgedToolName tool) = false →
        tool ∈ firstPages servers := by
  have hall : ∀ added, (∀ report ∈ reportsOf servers (firstPages servers),
        report.toolCount = added.countP (·.1 = report.name)) →
      added = registerMcpTools registry (firstPages servers) → Free registry (firstPages servers) := by
    rintro _ hcounts rfl
    refine counted_iff.mp fun server => ?_
    by_cases hserver : ∃ s ∈ servers, s.name = server
    · obtain ⟨s, hs, rfl⟩ := hserver
      exact (hcounts _ (mem_map_of_mem hs)).symm
    · have hnone : (firstPages servers).countP (·.1 = server) = 0 := by
        refine countP_eq_zero.mpr fun tool htool heq => ?_
        obtain ⟨s, hs, hname⟩ := mem_firstPages htool
        exact hserver ⟨s, hs, hname.symm.trans (of_decide_eq_true heq)⟩
      have hle := countP_registered_le (·.1 = server) (firstPages servers) registry
      omega
  unfold Complete attachMcpTools
  constructor
  · rintro ⟨reports, added, hok, hadded, hcounts⟩
    cases htools : discoverTools servers with
    | error message =>
      rw [htools] at hok
      nomatch hok
    | ok tools =>
      have hlists := lists_of_discovered htools
      rw [discoverTools_eq hlists] at hok
      obtain ⟨rfl, rfl⟩ := Prod.mk.inj (Except.ok.inj hok)
      have hfree := hall _ hcounts rfl
      rw [registered_of_free hfree] at hadded
      exact ⟨hlists, hfree, hadded⟩
  · rintro ⟨hlists, hfree, hfirst⟩
    rw [discoverTools_eq hlists]
    refine ⟨_, _, rfl, ?_, fun report hreport => ?_⟩
    · rw [registered_of_free hfree]
      exact hfirst
    · obtain ⟨s, -, rfl⟩ := mem_map.mp hreport
      rw [registered_of_free hfree]

/-- **A tool on the second page** is lost. -/
theorem second_page : ¬ ∀ (registry : ToolRegistry) (servers : List Server),
    (servers.map (·.name)).Nodup → Complete registry servers := by
  intro h
  obtain ⟨reports, added, hok, hadded, -⟩ :=
    h [] [{ name := "s", transport := "stdio", pages := .ok [["a"], ["b"]] }] (by simp)
  obtain ⟨-, rfl⟩ := Prod.mk.inj (Except.ok.inj hok)
  have hlost := hadded _ mem_cons_self ("s", "b") ⟨rfl, rfl, _, rfl, by decide⟩ rfl
  exact absurd hlost (by decide)

end NexusCode.Mcp
