/-
  Agents that delegate to agents, and the tools they run.

  A run filters the tools by its role, derives its gate from its delegator's, and hands that gate on
  to the runs it delegates to.  What a run does otherwise is up to the model and to the policies: it
  asks for tools and delegates, in any order, any number of times and to any depth.

    1. `filterTools`, `run`          — the tools and the gate of a run, and what is executed in it.
    2. `mem_filterTools`             — a role has the tools it names.
    3. **`delegation_never_widens`** — whatever is executed, the root gate would allow, too.
-/
import NexusCode.Access.PermissionGate

namespace NexusCode.Agent.Delegation

open Lib Shared Access List Option

/-! ## The tools of a role -/

/-- `AgentDefinition`, the part that gives powers. -/
structure AgentDefinition where
  role : String
  allowedTools : List String
  permissionMode : Option PermissionMode := none

/-- The tools with the given names, each once. -/
def pickTools (all : List Tool) : List String → List String → List Tool
  | _, [] => []
  | seen, name :: allowed =>
    if name ∈ seen then pickTools all seen allowed
    else
      match all.find? fun tool => tool.name = name with
      | some tool => tool :: pickTools all (name :: seen) allowed
      | none => pickTools all (name :: seen) allowed

/-- `filterTools(all, allowed)`, on the tools in the order they were registered in. -/
def filterTools (all : List Tool) (allowed : List String) : List Tool :=
  if "*" ∈ allowed then all else pickTools all [] allowed

/-- A registry of tools, by name. -/
def registryOf (tools : List Tool) : ToolRegistry where
  get name := tools.find? fun tool => tool.name = name

theorem mem_pickTools {all : List Tool} {tool : Tool} : ∀ {allowed seen : List String},
    tool ∈ pickTools all seen allowed → tool.name ∈ allowed := by
  intro allowed
  induction allowed with
  | nil => exact nofun
  | cons name allowed ih =>
    intro seen h
    unfold pickTools at h
    split at h
    · exact mem_cons_of_mem name (ih h)
    · split at h
      · rename_i found hfound
        rcases mem_cons.mp h with rfl | h
        · have hname := List.find?_some hfound
          rw [of_decide_eq_true hname]
          exact mem_cons_self
        · exact mem_cons_of_mem name (ih h)
      · exact mem_cons_of_mem name (ih h)

/-- **A role has the tools it names**, or all of them. -/
theorem mem_filterTools {all : List Tool} {allowed : List String} {tool : Tool}
    (h : tool ∈ filterTools all allowed) : tool.name ∈ allowed ∨ "*" ∈ allowed := by
  unfold filterTools at h
  split at h
  · rename_i hall
    exact .inr hall
  · exact .inl (mem_pickTools h)

/-! ## Runs -/

/-- A tool call of a run, with what the interceptor and the handoff guard are at that time. -/
structure AskedCall where
  call : PendingToolCall
  toolInterceptor : Option ToolInterceptor := none
  actionGuard : Option (PendingToolCall → Unknown → ToolPermission → Option GuardDecision) := none

mutual

/-- A run of an agent: its role, and what it does. -/
inductive AgentRun where
  | run (definition : AgentDefinition) (activity : Activity)

/-- What a run does: the model asks for tools, the policies delegate. -/
inductive Activity where
  | done
  | call (asked : AskedCall) (rest : Activity)
  | delegate (child : AgentRun) (rest : Activity)

end

/-- A tool that was run: by which role, and with which input. -/
structure Execution where
  definition : AgentDefinition
  tool : Tool
  input : Unknown

section

variable (redactArgs : Unknown → Unknown) (all : List Tool)

/-- The tool loop of a step. -/
def loopOf (definition : AgentDefinition) (gate : PermissionGate) (asked : AskedCall) :
    ToolLoop where
  tools := registryOf (filterTools all definition.allowedTools)
  toolInterceptor := asked.toolInterceptor
  actionGuard := asked.actionGuard
  check tool input := (gate.check redactArgs tool input).map (·.toPermissionDecision)

/-- The tool a call runs, if it runs one. -/
def executionOf (definition : AgentDefinition) (gate : PermissionGate) (asked : AskedCall) :
    Option Execution := do
  let input ← ((loopOf redactArgs all definition gate asked).executeToolCall asked.call).ran
  let tool ← (loopOf redactArgs all definition gate asked).tools.get asked.call.name
  some { definition, tool, input }

mutual

/-- The tools executed in a run and in the runs below it, given the gate of its delegator. -/
def AgentRun.executed (parentGate : PermissionGate) : AgentRun → List Execution
  | .run definition activity =>
    activity.executed definition (parentGate.deriveChild definition.permissionMode)

/-- The tools executed by what a run does, given its own gate. -/
def Activity.executed (definition : AgentDefinition) (gate : PermissionGate) :
    Activity → List Execution
  | .done => []
  | .call asked rest =>
    (executionOf redactArgs all definition gate asked).toList ++ rest.executed definition gate
  | .delegate child rest => child.executed gate ++ rest.executed definition gate

end

/-! ## Privilege -/

/-- What the claim promises of an execution under a root gate. -/
structure Within (root : PermissionGate) (e : Execution) : Prop where
  allowed : root.Allows redactArgs e.tool e.input
  notDenied : matchesAny root.denylist e.tool.name = some false
  named : e.tool.name ∈ e.definition.allowedTools ∨ "*" ∈ e.definition.allowedTools

variable {redactArgs all}

/-- A tool that is run went through the gate with the input it is run with, whatever the
    interceptor made of it. -/
theorem executeToolCall_ran {loop : ToolLoop} {call : PendingToolCall} {tool : Tool}
    {input : Unknown} (htool : loop.tools.get call.name = some tool)
    (h : (loop.executeToolCall call).ran = some input) :
    ∃ decision, loop.check tool input = some decision ∧ decision.allowed = true := by
  have hgo : ∀ {passed : Unknown}, (loop.proceed call tool passed).ran = some input →
      ∃ decision, loop.check tool input = some decision ∧ decision.allowed = true := by
    intro passed hran
    obtain ⟨rfl, hdecision⟩ := proceed_ran_input hran
    exact hdecision
  unfold ToolLoop.executeToolCall at h
  rw [htool] at h
  dsimp only at h
  split at h
  · exact hgo h
  · split at h
    · exact hgo h
    · split at h
      · exact nomatch h
      · exact hgo h

theorem executionOf_within {root gate : PermissionGate} {definition : AgentDefinition}
    {asked : AskedCall} {e : Execution} (hnarrow : gate.Narrower root)
    (hanswers : root.AnswersByNameAndInput)
    (h : executionOf redactArgs all definition gate asked = some e) : Within redactArgs root e := by
  obtain ⟨input, hran, h⟩ := bind_eq_some_iff.mp h
  obtain ⟨tool, htool, h⟩ := bind_eq_some_iff.mp h
  obtain rfl := some.inj h
  have hallows : gate.Allows redactArgs tool input := by
    obtain ⟨decision, hdecision, hallowed⟩ := executeToolCall_ran htool hran
    obtain ⟨checked, hchecked, rfl⟩ := map_eq_some_iff.mp hdecision
    exact ⟨checked, hchecked, hallowed⟩
  have hroot := PermissionGate.allowed_of_narrower redactArgs hnarrow hanswers hallows
  exact ⟨hroot, ((PermissionGate.allows_iff redactArgs).mp hroot).1,
    mem_filterTools (mem_of_find?_eq_some htool)⟩

mutual

theorem AgentRun.executed_within {root gate : PermissionGate} (hnarrow : gate.Narrower root)
    (hanswers : root.AnswersByNameAndInput) :
    ∀ run : AgentRun, ∀ e ∈ run.executed redactArgs all gate, Within redactArgs root e
  | .run definition activity => by
    unfold AgentRun.executed
    -- one more hop
    exact activity.executed_within
      ((PermissionGate.deriveChild_narrower gate definition.permissionMode).trans hnarrow) hanswers
      definition

theorem Activity.executed_within {root gate : PermissionGate} (hnarrow : gate.Narrower root)
    (hanswers : root.AnswersByNameAndInput) (definition : AgentDefinition) :
    ∀ activity : Activity, ∀ e ∈ activity.executed redactArgs all definition gate,
      Within redactArgs root e
  | .done => fun _ => nofun
  | .call asked rest => by
    intro e h
    unfold Activity.executed at h
    rcases mem_append.mp h with h | h
    · exact executionOf_within hnarrow hanswers (mem_toList.mp h)
    · exact rest.executed_within hnarrow hanswers definition e h
  | .delegate child rest => by
    intro e h
    unfold Activity.executed at h
    rcases mem_append.mp h with h | h
    · exact child.executed_within hnarrow hanswers e h
    · exact rest.executed_within hnarrow hanswers definition e h

end

end

/-- **Delegation never widens privilege**: whatever tree of agents runs under a gate whose approver
    answers by name and redacted input, each tool it executes would be allowed by that gate with
    the same input, is not on its denylist, and is named by the role that executes it. -/
theorem delegation_never_widens (redactArgs : Unknown → Unknown) (all : List Tool)
    (root : PermissionGate) (hanswers : root.AnswersByNameAndInput) (run : AgentRun) :
    ∀ e ∈ run.executed redactArgs all root, Within redactArgs root e :=
  run.executed_within (PermissionGate.Narrower.refl root) hanswers

/-- A tool that writes. -/
def writer : Tool where
  name := "fs_write"
  permission := .write
  run _ := .ok { ok := true, content := [] }

/-- An operator who lets writers write. -/
def operator : PermissionGate where
  mode := .ask
  approve := some fun req => some { granted := req.toolName = "fs_write" }

/-- Two of the shipped roles, the second with more power than the first may hand on. -/
def coordinator : AgentDefinition where
  role := "coordinator"
  allowedTools := ["*"]
  permissionMode := some .workspaceWrite

def coder : AgentDefinition where
  role := "coder"
  allowedTools := ["fs_read", "fs_write"]
  permissionMode := some .fullAccess

/-- A coordinator that delegates to a coder, which writes. -/
def delegatedWrite : AgentRun :=
  .run coordinator (.delegate (.run coder
    (.call { call := { id := "1", name := "fs_write", input := none } } .done)) .done)

theorem delegation_never_widens_delegatedWrite :
    delegatedWrite.executed id [writer] operator = [⟨coder, writer, none⟩] ∧
      Within id operator ⟨coder, writer, none⟩ := by
  have hanswers : operator.AnswersByNameAndInput := by
    rintro approve ⟨⟩ req req' hname -
    dsimp only [map_some]
    rw [hname]
  have hexecuted : delegatedWrite.executed id [writer] operator = [⟨coder, writer, none⟩] := by
    rfl
  refine ⟨hexecuted, delegation_never_widens id [writer] operator hanswers delegatedWrite _ ?_⟩
  rw [hexecuted]
  exact mem_singleton_self _

end NexusCode.Agent.Delegation
