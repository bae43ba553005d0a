/-
  The permission gate in front of every tool call, and the gates derived from it.

  A gate decides by its denylist, its allowlist, the policy of its mode for the permission class of
  the call, and its approver.  A delegated agent gets a gate that is derived from its delegator's.

    1. `check`                  — the decision.
    2. `deriveChild`            — the gate of a delegate.
    3. `policy_mono`            — a mode further down the ladder never decides more freely.
    4. **`allowed_of_narrower`** — what a derived gate allows, the gate it comes from allows, too.
-/
import NexusCode.Access.ToolLoop

namespace NexusCode.Access

open Lib Shared

/-! ## Modes -/

/-- `PermissionMode`, from the least to the most privileged. -/
inductive PermissionMode where
  | plan
  | readOnly
  | ask
  | workspaceWrite
  | fullAccess
deriving DecidableEq

/-- The name of a mode. -/
def PermissionMode.text : PermissionMode → String
  | .plan => "plan"
  | .readOnly => "read-only"
  | .ask => "ask"
  | .workspaceWrite => "workspace-write"
  | .fullAccess => "full-access"

/-- The name of a permission class. -/
def ToolPermission.text : ToolPermission → String
  | .read => "read"
  | .write => "write"
  | .exec => "exec"
  | .network => "network"

/-- `Outcome`. -/
inductive Outcome where
  | allow
  | deny
  | ask
deriving DecidableEq

/-- `MODE_POLICY`. -/
def modePolicy : PermissionMode → ToolPermission → Outcome
  | .plan, .read => .allow
  | .plan, _ => .deny
  | .readOnly, .read => .allow
  | .readOnly, .network => .ask
  | .readOnly, _ => .deny
  | .ask, .read => .allow
  | .ask, _ => .ask
  | .workspaceWrite, .read => .allow
  | .workspaceWrite, .write => .allow
  | .workspaceWrite, _ => .ask
  | .fullAccess, _ => .allow

/-- `MODE_RANK`. -/
def modeRank : PermissionMode → Nat
  | .plan => 0
  | .readOnly => 1
  | .ask => 2
  | .workspaceWrite => 3
  | .fullAccess => 4

/-! ## The gate -/

/-- `ApprovalRequest`; `input` is redacted. -/
structure ApprovalRequest where
  toolName : String
  permission : ToolPermission
  mode : PermissionMode
  input : Unknown
  reason : String

/-- `ApproveOutcome`; a plain answer has no note. -/
structure ApproveOutcome where
  granted : Bool
  note : Option String := none

/-- `PermissionGate`; an approver that throws answers `none`. -/
structure PermissionGate where
  mode : PermissionMode
  approve : Option (ApprovalRequest → Option ApproveOutcome) := none
  allowlist : List String := []
  denylist : List String := []

/-- `PermissionDecision`, with what the loop does not read. -/
structure GateDecision extends PermissionDecision where
  toolName : String
  permission : ToolPermission
  mode : PermissionMode
  viaApproval : Bool
  loggedInput : Unknown

namespace PermissionGate

variable (redactArgs : Unknown → Unknown)

/-- `gate.check(tool, input)`; a pattern that does not compile throws. -/
def check (gate : PermissionGate) (tool : Tool) (input : Unknown) : Option GateDecision := do
  let loggedInput := redactArgs input
  let permission := tool.permissionOf input
  let decide (allowed viaApproval : Bool) (reason : String) : GateDecision :=
    { allowed, reason, toolName := tool.name, permission, mode := gate.mode, viaApproval,
      loggedInput }
  if ← matchesAny gate.denylist tool.name then some (decide false false "denied by denylist")
  else if ← matchesAny gate.allowlist tool.name then
    some (decide true false "allowed by allowlist")
  else
    match modePolicy gate.mode permission with
    | .allow =>
      some (decide true false (permission.text ++ " permitted in " ++ gate.mode.text ++ " mode"))
    | .deny =>
      some (decide false false
        (permission.text ++ " not permitted in " ++ gate.mode.text ++ " mode"))
    | .ask =>
      match gate.approve with
      | none => some (decide false false (permission.text ++ " requires approval in " ++
          gate.mode.text ++ " mode, but no approver is configured"))
      | some approve =>
        let reason := permission.text ++ " requires approval in " ++ gate.mode.text ++ " mode"
        let outcome ← approve
          { toolName := tool.name, permission, mode := gate.mode, input := loggedInput, reason }
        let verdict := if outcome.granted then "approved" else "denied"
        some (decide outcome.granted true (reason ++ ": " ++ verdict ++
          match outcome.note.filter (· ≠ "") with
          | some note => " (" ++ note ++ ")"
          | none => ""))

/-- `gate.deriveChild(childMode)`. -/
def deriveChild (gate : PermissionGate) (childMode : Option PermissionMode) : PermissionGate :=
  { gate with
    mode := match childMode with
      | some childMode => if modeRank childMode < modeRank gate.mode then childMode else gate.mode
      | none => gate.mode }

/-- The gate lets the call through. -/
def Allows (gate : PermissionGate) (tool : Tool) (input : Unknown) : Prop :=
  ∃ decision, gate.check redactArgs tool input = some decision ∧ decision.allowed = true

/-! ## Narrower gates -/

/-- A gate that differs from another one in its mode only, which is not further up the ladder. -/
structure Narrower (child gate : PermissionGate) : Prop where
  mode : modeRank child.mode ≤ modeRank gate.mode
  approve : child.approve = gate.approve
  allowlist : child.allowlist = gate.allowlist
  denylist : child.denylist = gate.denylist

theorem Narrower.refl (gate : PermissionGate) : Narrower gate gate :=
  ⟨Nat.le_refl _, rfl, rfl, rfl⟩

theorem Narrower.trans {a b c : PermissionGate} (hab : Narrower a b) (hbc : Narrower b c) :
    Narrower a c :=
  ⟨hab.mode.trans hbc.mode, hab.approve.trans hbc.approve, hab.allowlist.trans hbc.allowlist,
    hab.denylist.trans hbc.denylist⟩

theorem deriveChild_narrower (gate : PermissionGate) (childMode : Option PermissionMode) :
    Narrower (gate.deriveChild childMode) gate := by
  refine ⟨?_, rfl, rfl, rfl⟩
  unfold deriveChild
  cases childMode with
  | none => exact Nat.le_refl _
  | some childMode =>
    dsimp only
    split
    · rename_i hlt
      exact hlt.le
    · omega

/-- An approver that looks at the tool's name and the redacted input only. -/
def AnswersByNameAndInput (gate : PermissionGate) : Prop :=
  ∀ approve, gate.approve = some approve → ∀ req req' : ApprovalRequest,
    req.toolName = req'.toolName → req.input = req'.input →
    (approve req).map (·.granted) = (approve req').map (·.granted)

/-- **The policy is monotone along the ladder**: it goes from `deny` to `ask` to `allow`. -/
theorem policy_mono {low high : PermissionMode} (h : modeRank low ≤ modeRank high)
    (permission : ToolPermission) :
    (modePolicy low permission = .allow → modePolicy high permission = .allow) ∧
    (modePolicy low permission = .ask → modePolicy high permission ≠ .deny) := by
  revert h
  cases low <;> cases high <;> cases permission <;> decide

/-- The request an approver is shown. -/
def asks (gate : PermissionGate) (tool : Tool) (input : Unknown) : ApprovalRequest where
  toolName := tool.name
  permission := tool.permissionOf input
  mode := gate.mode
  input := redactArgs input
  reason := (tool.permissionOf input).text ++ " requires approval in " ++ gate.mode.text ++ " mode"

/-- The policy of the mode, and the approver behind it, let the call through. -/
def Passes (gate : PermissionGate) (tool : Tool) (input : Unknown) : Prop :=
  modePolicy gate.mode (tool.permissionOf input) = .allow ∨
    modePolicy gate.mode (tool.permissionOf input) = .ask ∧
    ∃ approve outcome, gate.approve = some approve ∧
      approve (gate.asks redactArgs tool input) = some outcome ∧ outcome.granted = true

/-- **When a gate lets a call through.** -/
theorem allows_iff {gate : PermissionGate} {tool : Tool} {input : Unknown} :
    gate.Allows redactArgs tool input ↔
      matchesAny gate.denylist tool.name = some false ∧
      ∃ listed, matchesAny gate.allowlist tool.name = some listed ∧
        (listed = true ∨ gate.Passes redactArgs tool input) := by
  unfold Allows check Passes asks
  cases hdeny : matchesAny gate.denylist tool.name with
  | none => exact ⟨fun ⟨_, h, _⟩ => (nomatch h), fun ⟨h, _⟩ => nomatch h⟩
  | some denied =>
    cases denied with
    | true =>
      refine ⟨?_, fun ⟨h, _⟩ => nomatch h⟩
      rintro ⟨_, ⟨⟩, h⟩
      exact nomatch h
    | false =>
      cases hallow : matchesAny gate.allowlist tool.name with
      | none => exact ⟨fun ⟨_, h, _⟩ => (nomatch h), fun ⟨_, _, h, _⟩ => nomatch h⟩
      | some listed =>
        cases listed with
        | true => exact ⟨fun _ => ⟨rfl, true, rfl, .inl rfl⟩, fun _ => ⟨_, rfl, rfl⟩⟩
        | false =>
          have hpasses : ∀ P : Prop, (some false = some false ∧
              ∃ listed, some false = some listed ∧ (listed = true ∨ P)) ↔ P := by
            refine fun P => ⟨?_, fun h => ⟨rfl, false, rfl, .inr h⟩⟩
            rintro ⟨-, _, ⟨⟩, h | h⟩
            · exact nomatch h
            · exact h
          rw [hpasses]
          dsimp only [Option.bind_eq_bind, Option.bind_some, Bool.false_eq_true, if_false]
          cases hpolicy : modePolicy gate.mode (tool.permissionOf input) with
          | allow => exact ⟨fun _ => .inl rfl, fun _ => ⟨_, rfl, rfl⟩⟩
          | deny =>
            constructor
            · rintro ⟨_, ⟨⟩, h⟩
              exact nomatch h
            · rintro (h | ⟨h, -⟩)
              · exact nomatch h
              · exact nomatch h
          | ask =>
            cases happrove : gate.approve with
            | none =>
              constructor
              · rintro ⟨_, ⟨⟩, h⟩
                exact nomatch h
              · rintro (h | ⟨-, _, _, h, -⟩)
                · exact nomatch h
                · exact nomatch h
            | some approve =>
              constructor
              · rintro ⟨decision, hdecision, hallowed⟩
                obtain ⟨outcome, houtcome, heq⟩ := Option.bind_eq_some_iff.mp hdecision
                obtain rfl := Option.some.inj heq
                exact .inr ⟨rfl, approve, outcome, rfl, houtcome, hallowed⟩
              · rintro (h | ⟨-, _, outcome, ⟨⟩, houtcome, hgranted⟩)
                · exact nomatch h
                · refine ⟨_, Option.bind_eq_some_iff.mpr ⟨outcome, houtcome, rfl⟩, hgranted⟩

/-- **What a derived gate allows, the gate it comes from allows, too**, if the approver does not
    look at the mode. -/
theorem allowed_of_narrower {child gate : PermissionGate} (hnarrow : Narrower child gate)
    (hanswers : gate.AnswersByNameAndInput) {tool : Tool} {input : Unknown}
    (h : child.Allows redactArgs tool input) : gate.Allows redactArgs tool input := by
  rw [allows_iff] at h ⊢
  obtain ⟨hdeny, listed, hallow, h⟩ := h
  rw [hnarrow.denylist] at hdeny
  rw [hnarrow.allowlist] at hallow
  refine ⟨hdeny, listed, hallow, h.imp id fun hpasses => ?_⟩
  obtain ⟨hofAllow, hofAsk⟩ := policy_mono hnarrow.mode (tool.permissionOf input)
  rcases hpasses with hpolicy | ⟨hpolicy, approve, outcome, happrove, houtcome, hgranted⟩
  · exact .inl (hofAllow hpolicy)
  · cases hgate : modePolicy gate.mode (tool.permissionOf input) with
    | allow => exact .inl hgate
    | deny => exact absurd hgate (hofAsk hpolicy)
    | ask =>
      rw [hnarrow.approve] at happrove
      have hsame := hanswers approve happrove (gate.asks redactArgs tool input)
        (child.asks redactArgs tool input) rfl rfl
      rw [houtcome] at hsame
      obtain ⟨outcome', houtcome', hgranted'⟩ := Option.map_eq_some_iff.mp hsame
      exact .inr ⟨hgate, approve, outcome', happrove, houtcome', hgranted'.trans hgranted⟩

end PermissionGate

end NexusCode.Access
