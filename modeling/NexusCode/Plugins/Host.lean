/-
  The plugin host: loading plugins, and applying what they contribute.

  A plugin contributes objects through the context its `register` function is given.  When that
  function is done the host compares the ids of the objects with the manifest, once; later it applies
  the objects to the engine.  The lists stay live and the objects stay the plugin's.

    1. `checkCapabilities`             — the check, and what it tells (`checkCapabilities_eq_none`).
    2. `step`                          — load calls, register calls and plugins, in any order.
    3. `Abides`                        — a plugin that stays within its manifest after the check, too.
    4. **`applied_declared`**          — then all that is applied has been declared.

  The host reads an id anew for each thing it does with it, and any code of a plugin may run between
  two reads: the steps of a register call are single reads.
-/
import NexusCode.Lib.Machine
import Mathlib.Logic.Function.Basic

namespace NexusCode.Plugins

open Lib List

/-! ## Contributions -/

inductive Kind where
  | provider
  | tool
  | prompt
  | mcpServer
  | command
  | uiPanel
deriving DecidableEq

namespace Kind

/-- The order in which `register` applies them. -/
def all : List Kind := [provider, tool, prompt, mcpServer, command, uiPanel]

/-- The order in which `checkCapabilities` looks at them. -/
def checked : List Kind := [provider, tool, command, prompt, mcpServer, uiPanel]

def name : Kind → String
  | provider => "provider"
  | tool => "tool"
  | prompt => "prompt"
  | mcpServer => "mcpServer"
  | command => "command"
  | uiPanel => "uiPanel"

theorem mem_checked (kind : Kind) : kind ∈ checked := by cases kind <;> decide

end Kind

/-- What the host reads of a contribution: its `id` or `name`, and the version of a prompt. -/
structure Contribution where
  id : String
  version : String

/-- The objects, by reference. -/
abbrev Heap := Nat → Contribution

/-- The ids a manifest declares. -/
abbrev Declaration := Kind → List String

/-- The violations of one kind. -/
def undeclared (heap : Heap) (decl : Declaration) (c : Kind → List Nat) (kind : Kind) :
    List String :=
  ((c kind).map fun ref => (heap ref).id).filterMap fun id =>
    if (decl kind).contains id then none else some (kind.name ++ " \"" ++ id ++ "\"")

/-- `checkCapabilities(manifest, contributions)`. -/
def checkCapabilities (heap : Heap) (decl : Declaration) (c : Kind → List Nat) : Option String :=
  let violations := Kind.checked.flatMap (undeclared heap decl c)
  if violations.isEmpty then none
  else some ("undeclared contributions (not in manifest.contributes): " ++
    ", ".intercalate violations)

variable {kind : Kind}

theorem undeclared_eq_nil {heap : Heap} {decl : Declaration} {c : Kind → List Nat} :
    undeclared heap decl c kind = [] ↔ ∀ ref ∈ c kind, (heap ref).id ∈ decl kind := by
  simp [undeclared, filterMap_eq_nil_iff]

theorem checkCapabilities_eq_none {heap : Heap} {decl : Declaration} {c : Kind → List Nat} :
    checkCapabilities heap decl c = none ↔ ∀ kind, ∀ ref ∈ c kind, (heap ref).id ∈ decl kind := by
  have hempty : (Kind.checked.flatMap (undeclared heap decl c)).isEmpty = true ↔
      ∀ kind, ∀ ref ∈ c kind, (heap ref).id ∈ decl kind := by
    rw [List.isEmpty_iff, flatMap_eq_nil_iff]
    exact ⟨fun h kind => undeclared_eq_nil.mp (h kind kind.mem_checked),
      fun h kind _ => undeclared_eq_nil.mpr (h kind)⟩
  rw [← hempty]
  unfold checkCapabilities
  dsimp only
  split
  · rename_i h
    exact iff_of_true rfl h
  · rename_i h
    exact iff_of_false nofun h

/-! ## Registries and sinks -/

/-- An entry of a registry, under the id it was registered with; or of a sink. -/
structure Entry where
  key : String
  version : String
  ref : Nat
deriving DecidableEq

abbrev Surface := List Entry

/-- `has(id)`, `hasTemplate(id, version)`, or `some` over a sink, which reads the names anew. -/
def taken (heap : Heap) (kind : Kind) (surface : Surface) (c : Contribution) : Bool :=
  match kind with
  | .provider | .tool => surface.any fun e => e.key == c.id
  | .prompt => surface.any fun e => e.key == c.id && e.version == c.version
  | .mcpServer | .command | .uiPanel => surface.any fun e => (heap e.ref).id == c.id

/-- `byId.set`, `byName.set`; the others append. -/
def put (kind : Kind) (surface : Surface) (entry : Entry) : Surface :=
  match kind with
  | .provider | .tool =>
    if surface.any fun e => e.key == entry.key then
      surface.map fun e => if e.key == entry.key then entry else e
    else surface ++ [entry]
  | _ => surface ++ [entry]

/-- Why `register` skips a contribution whose id is taken. -/
def Kind.takenReason : Kind → String
  | .provider => "provider id already registered"
  | .tool => "tool name already registered"
  | .prompt => "template version already registered"
  | .mcpServer => "mcp server name already present"
  | .command => "command name already present"
  | .uiPanel => "panel id already present"

/-- The id in the audit. -/
def auditId (kind : Kind) (c : Contribution) : String :=
  match kind with
  | .prompt => c.id ++ "@" ++ c.version
  | _ => c.id

/-! ## Calls of the host -/

/-- How far the load of a plugin is. -/
inductive LoadPhase where
  | absent
  | registering
  | failed (reason error : String)
  | loaded
deriving DecidableEq

/-- How far a register call is with a contribution; `record` is what it has read for the audit. -/
inductive Stage where
  | next
  | recorded (record : Contribution)
  | free (record : Contribution)
  | entering (record : Contribution)

/-- What was applied: the id in the audit, and the id under which it was applied. -/
structure Applied where
  plugin : Nat
  kind : Kind
  id : String
  key : String
deriving DecidableEq

structure Skipped where
  plugin : Nat
  kind : Kind
  id : String
  reason : String

/-- A call of `register`: the plugins and kinds to come, the current ones first. -/
structure RegisterCall where
  plugins : List Nat
  kinds : List Kind
  idx : Nat
  stage : Stage
  targets : Kind → Option Nat
  applied : List Applied
  skipped : List Skipped

/-- The host and the plugins. -/
structure State where
  heap : Heap
  /-- The declarations in the manifests, which the contexts hand out. -/
  manifests : Nat → Declaration
  loads : Nat → LoadPhase
  contributions : Nat → Kind → List Nat
  surfaces : Nat → Kind → Surface
  registers : Nat → Option RegisterCall

/-- Before any load; the surfaces are those of the engine. -/
def start (manifests : Nat → Declaration) (heap : Heap) (surfaces : Nat → Kind → Surface) : State :=
  ⟨heap, manifests, fun _ => .absent, fun _ _ => [], surfaces, fun _ => none⟩

/-- What happens next.  The first three are done by code of plugins: a call of a `contribute`
    function, an assignment to an object, or to a manifest. -/
inductive Op where
  | contribute (plugin : Nat) (kind : Kind) (ref : Nat)
  | assign (ref : Nat) (c : Contribution)
  | amend (plugin : Nat) (kind : Kind) (ids : List String)
  /-- The module is imported, and has a `register` function. -/
  | context (plugin : Nat)
  /-- `register(ctx)` is done, or has thrown. -/
  | settles (plugin : Nat) (error : Option String)
  | register (call : Nat) (loaded : List Nat) (targets : Kind → Option Nat)
  | turn (call : Nat)
  /-- The probe of a provider is done, or has thrown. -/
  | resolves (call : Nat) (error : Option String)

namespace State

variable (s : State)

/-- A register call goes on. -/
def moves (r : Nat) (call : RegisterCall) : State :=
  { s with registers := Function.update s.registers r (some call) }

/-- `skipped.push({ ...rec, reason })`. -/
def skips (r : Nat) (call : RegisterCall) (plugin : Nat) (kind : Kind) (record : Contribution)
    (reason : String) : State :=
  s.moves r { call with
    idx := call.idx + 1
    stage := .next
    skipped := call.skipped ++ [⟨plugin, kind, auditId kind record, reason⟩] }

/-- The contribution is applied as it is now, and `applied.push(rec)`. -/
def applies (r : Nat) (call : RegisterCall) (plugin : Nat) (kind : Kind) (target ref : Nat)
    (record : Contribution) : State :=
  let c := s.heap ref
  let after := { s with
    surfaces := Function.update s.surfaces target (Function.update (s.surfaces target) kind
      (put kind (s.surfaces target kind) ⟨c.id, c.version, ref⟩)) }
  after.moves r { call with
    idx := call.idx + 1
    stage := .next
    applied := call.applied ++ [⟨plugin, kind, auditId kind record, c.id⟩] }

/-- The next thing `register` does with a contribution. -/
def considers (r : Nat) (call : RegisterCall) (plugin : Nat) (kind : Kind) (target ref : Nat) :
    State :=
  let c := s.heap ref
  let isTaken := taken s.heap kind (s.surfaces target kind) c
  match call.stage with
  | .next => s.moves r { call with stage := .recorded c }
  | .recorded record =>
    if isTaken then s.skips r call plugin kind record kind.takenReason
    else s.moves r { call with stage := .free record }
  | .free record =>
    match kind with
    | .provider =>
      if isTaken then s.skips r call plugin kind record ("duplicate provider id: " ++ c.id)
      else s.moves r { call with stage := .entering record }
    | .tool =>
      if isTaken then s.skips r call plugin kind record ("duplicate tool name: " ++ c.id)
      else s.moves r { call with stage := .entering record }
    | .prompt =>
      if c.id = "" then s.skips r call plugin kind record "template id is required"
      else if c.version = "" then s.skips r call plugin kind record "template version is required"
      else if isTaken then
        s.skips r call plugin kind record
          ("template " ++ c.id ++ "@" ++ c.version ++ " is already registered")
      else s.applies r call plugin kind target ref record
    | _ => s.applies r call plugin kind target ref record
  | .entering record =>
    match kind with
    | .provider => s
    | _ => s.applies r call plugin kind target ref record

/-- `register` goes on by one step; the lists it goes through are live. -/
def turns (r : Nat) : State :=
  match s.registers r with
  | none => s
  | some call =>
    match call.plugins, call.kinds with
    | [], _ => s
    | _ :: plugins, [] => s.moves r { call with plugins, kinds := Kind.all, idx := 0, stage := .next }
    | plugin :: _, kind :: kinds =>
      match call.targets kind with
      | none => s.moves r { call with kinds, idx := 0, stage := .next }
      | some target =>
        match (s.contributions plugin kind)[call.idx]? with
        | none => s.moves r { call with kinds, idx := 0, stage := .next }
        | some ref => s.considers r call plugin kind target ref

/-- The provider registry has awaited the probe, and sets the entry. -/
def resolves (r : Nat) (error : Option String) : State :=
  match s.registers r with
  | none => s
  | some call =>
    match call.plugins, call.kinds, call.stage with
    | plugin :: _, .provider :: _, .entering record =>
      match call.targets .provider, (s.contributions plugin .provider)[call.idx]? with
      | some target, some ref =>
        match error with
        | some error => s.skips r call plugin .provider record error
        | none => s.applies r call plugin .provider target ref record
      | _, _ => s
    | _, _, _ => s

/-- `register(ctx)` is done: the check, once. -/
def settles (plugin : Nat) (error : Option String) : State :=
  { s with
    loads := Function.update s.loads plugin (match error with
      | some error => .failed "load-error" ("register() threw: " ++ error)
      | none =>
        match checkCapabilities s.heap (s.manifests plugin) (s.contributions plugin) with
        | some violation => .failed "capability-violation" violation
        | none => .loaded) }

end State

/-- One step; what the phase of a load does not allow changes nothing. -/
def step (s : State) : Op → State
  | .contribute plugin kind ref =>
    if s.loads plugin = .absent then s
    else
      { s with
        contributions := Function.update s.contributions plugin
          (Function.update (s.contributions plugin) kind (s.contributions plugin kind ++ [ref])) }
  | .assign ref c => { s with heap := Function.update s.heap ref c }
  | .amend plugin kind ids =>
    { s with
      manifests := Function.update s.manifests plugin
        (Function.update (s.manifests plugin) kind ids) }
  | .context plugin =>
    if s.loads plugin = .absent then
      { s with loads := Function.update s.loads plugin .registering }
    else s
  | .settles plugin error => if s.loads plugin = .registering then s.settles plugin error else s
  | .register r loaded targets =>
    if (s.registers r).isNone ∧ ∀ plugin ∈ loaded, s.loads plugin = .loaded then
      s.moves r ⟨loaded, Kind.all, 0, .next, targets, [], []⟩
    else s
  | .turn r => s.turns r
  | .resolves r error => s.resolves r error

def machine : Machine State Op Unit := ⟨fun s op => ((), step s op)⟩

/-! ## The property -/

/-- **Plugins stay within their manifests**: whatever a register call has applied is declared, for
    its kind, by the manifest of the plugin. -/
def AppliedDeclared (declared : Nat → Declaration) (s : State) : Prop :=
  ∀ r call, s.registers r = some call → ∀ a ∈ call.applied, a.key ∈ declared a.plugin a.kind

/-- **The condition on plugins.**  Once its load is done a plugin contributes nothing whose id is not
    declared, and nobody gives such an id to what it has contributed; before that, nobody adds to the
    declaration in its manifest. -/
def Abides (declared : Nat → Declaration) (s : State) : Op → Prop
  | .contribute plugin kind ref =>
    s.loads plugin = .loaded → (s.heap ref).id ∈ declared plugin kind
  | .assign ref c => ∀ plugin kind, s.loads plugin = .loaded → ref ∈ s.contributions plugin kind →
      c.id ∈ declared plugin kind
  | .amend plugin kind ids => s.loads plugin ≠ .loaded → ∀ id ∈ ids, id ∈ declared plugin kind
  | _ => True

/-! ## The invariant -/

variable {declared : Nat → Declaration} {s : State}

/-- What holds of a register call: it goes through loaded plugins, and has applied what is
    declared. -/
structure CallWithin (declared : Nat → Declaration) (s : State) (call : RegisterCall) : Prop where
  loaded : ∀ plugin ∈ call.plugins, s.loads plugin = .loaded
  applied : ∀ a ∈ call.applied, a.key ∈ declared a.plugin a.kind

/-- What holds while plugins abide. -/
structure Within (declared : Nat → Declaration) (s : State) : Prop where
  /-- Until the check the manifest declares no more than it did. -/
  manifests : ∀ plugin, s.loads plugin ≠ .loaded →
    ∀ kind, ∀ id ∈ s.manifests plugin kind, id ∈ declared plugin kind
  /-- From the check on, all that has been contributed is declared. -/
  contributions : ∀ plugin, s.loads plugin = .loaded →
    ∀ kind, ∀ ref ∈ s.contributions plugin kind, (s.heap ref).id ∈ declared plugin kind
  registers : ∀ r call, s.registers r = some call → CallWithin declared s call

theorem within_start (heap : Heap) (surfaces : Nat → Kind → Surface) :
    Within declared (start declared heap surfaces) where
  manifests := fun _ _ _ _ h => h
  contributions := fun _ => nofun
  registers := fun _ _ => nofun

variable {call : RegisterCall}

theorem within_moves {r : Nat} (hs : Within declared s)
    (hcall : CallWithin declared s call) : Within declared (s.moves r call) := by
  refine ⟨hs.manifests, hs.contributions, fun q other hq => ?_⟩
  have hupdate : Function.update s.registers r (some call) q = some other := hq
  rw [Function.update_apply] at hupdate
  split at hupdate
  · obtain rfl := Option.some.inj hupdate
    exact ⟨hcall.loaded, hcall.applied⟩
  · have hother := hs.registers q other hupdate
    exact ⟨hother.loaded, hother.applied⟩

theorem within_skips (hs : Within declared s)
    (hcall : CallWithin declared s call) (r plugin : Nat) (kind : Kind) (record : Contribution)
    (reason : String) : Within declared (s.skips r call plugin kind record reason) := by
  unfold State.skips
  exact within_moves hs ⟨hcall.loaded, hcall.applied⟩

variable {plugin : Nat}

theorem within_applies (hs : Within declared s)
    (hcall : CallWithin declared s call) (r : Nat) (target : Nat)
    {ref : Nat} (record : Contribution) (hid : (s.heap ref).id ∈ declared plugin kind) :
    Within declared (s.applies r call plugin kind target ref record) := by
  have hafter : Within declared { s with
      surfaces := Function.update s.surfaces target (Function.update (s.surfaces target) kind
        (put kind (s.surfaces target kind) ⟨(s.heap ref).id, (s.heap ref).version, ref⟩)) } :=
    ⟨hs.manifests, hs.contributions, fun q other hq =>
      ⟨(hs.registers q other hq).loaded, (hs.registers q other hq).applied⟩⟩
  unfold State.applies
  refine within_moves hafter ⟨hcall.loaded, fun a ha => ?_⟩
  rcases mem_append.mp ha with ha | ha
  · exact hcall.applied a ha
  · obtain rfl := mem_singleton.mp ha
    exact hid

theorem within_considers (hs : Within declared s)
    (hcall : CallWithin declared s call) (r : Nat) (target : Nat)
    {ref : Nat} (hid : (s.heap ref).id ∈ declared plugin kind) :
    Within declared (s.considers r call plugin kind target ref) := by
  have happlies := fun record => within_applies hs hcall r target record hid
  have hskips := within_skips hs hcall r plugin kind
  have hmoves : ∀ stage, Within declared (s.moves r { call with stage }) := fun stage =>
    within_moves hs ⟨hcall.loaded, hcall.applied⟩
  unfold State.considers
  dsimp only
  split
  · exact hmoves _
  · split
    · exact hskips _ _
    · exact hmoves _
  · rename_i record _
    split
    · split
      · exact hskips _ _
      · exact hmoves _
    · split
      · exact hskips _ _
      · exact hmoves _
    · split
      · exact hskips _ _
      · split
        · exact hskips _ _
        · split
          · exact hskips _ _
          · exact happlies record
    · exact happlies record
  · rename_i record _
    split
    · exact hs
    · exact happlies record

theorem declared_of_getElem? (hs : Within declared s)
    (hcall : CallWithin declared s call) {ref : Nat}
    (hplugin : plugin ∈ call.plugins)
    (href : (s.contributions plugin kind)[call.idx]? = some ref) :
    (s.heap ref).id ∈ declared plugin kind :=
  hs.contributions plugin (hcall.loaded plugin hplugin) kind ref (mem_of_getElem? href)

theorem within_turns (hs : Within declared s) (r : Nat) : Within declared (s.turns r) := by
  unfold State.turns
  split
  · exact hs
  · rename_i call hr
    have hcall := hs.registers r call hr
    split
    · exact hs
    · rename_i plugin plugins hplugins _
      refine within_moves hs ⟨fun other hother => hcall.loaded other ?_, hcall.applied⟩
      rw [hplugins]
      exact mem_cons_of_mem _ hother
    · rename_i plugin plugins kind kinds hplugins _
      have hnext : Within declared (s.moves r { call with kinds, idx := 0, stage := .next }) :=
        within_moves hs ⟨hcall.loaded, hcall.applied⟩
      split
      · exact hnext
      · rename_i target _
        split
        · exact hnext
        · rename_i ref href
          have hplugin : plugin ∈ call.plugins := hplugins ▸ mem_cons_self
          exact within_considers hs hcall r target (declared_of_getElem? hs hcall hplugin href)

theorem within_resolves (hs : Within declared s) (r : Nat) (error : Option String) :
    Within declared (s.resolves r error) := by
  unfold State.resolves
  split
  · exact hs
  · rename_i call hr
    have hcall := hs.registers r call hr
    split
    · rename_i plugin plugins kinds record hplugins _ _
      split
      · rename_i target ref _ href
        have hplugin : plugin ∈ call.plugins := hplugins ▸ mem_cons_self
        split
        · exact within_skips hs hcall r plugin .provider record _
        · exact within_applies hs hcall r target record (declared_of_getElem? hs hcall hplugin href)
      · exact hs
    · exact hs

theorem within_settles (hs : Within declared s)
    (hplugin : s.loads plugin = .registering) (error : Option String) :
    Within declared (s.settles plugin error) := by
  have hloads : ∀ p, (s.settles plugin error).loads p ≠ .loaded → s.loads p ≠ .loaded := by
    intro p hp hloaded
    refine hp ?_
    show Function.update s.loads plugin _ p = .loaded
    rw [Function.update_of_ne (by rintro rfl; rw [hplugin] at hloaded; nomatch hloaded), hloaded]
  refine ⟨fun p hp => hs.manifests p (hloads p hp), fun p hp kind ref href => ?_, fun r call hr => ?_⟩
  · have hphase : Function.update s.loads plugin _ p = .loaded := hp
    rw [Function.update_apply] at hphase
    split at hphase
    · rename_i hsame
      subst hsame
      split at hphase
      · nomatch hphase
      · split at hphase
        · nomatch hphase
        · rename_i hcheck
          refine hs.manifests p ?_ kind _ (checkCapabilities_eq_none.mp hcheck kind ref href)
          rw [hplugin]
          exact nofun
    · exact hs.contributions p hphase kind ref href
  · have hcall := hs.registers r call hr
    refine ⟨fun p hp => ?_, hcall.applied⟩
    by_contra hne
    exact hloads p hne (hcall.loaded p hp)

/-- **One step.** -/
theorem within_step (hs : Within declared s) {op : Op} (hok : Abides declared s op) :
    Within declared (step s op) := by
  have hregisters : ∀ {s' : State}, s'.loads = s.loads → s'.registers = s.registers →
      ∀ r call, s'.registers r = some call → CallWithin declared s' call := by
    intro s' hloads hcalls r call hr
    have hcall := hs.registers r call (hcalls ▸ hr)
    exact ⟨fun plugin hplugin => hloads ▸ hcall.loaded plugin hplugin, hcall.applied⟩
  cases op with
  | contribute plugin kind ref =>
    unfold step
    dsimp only
    split
    · exact hs
    · refine ⟨hs.manifests, fun p hp k ref' href' => ?_, hregisters rfl rfl⟩
      dsimp only at href'
      by_cases hsame : p = plugin ∧ k = kind
      · obtain ⟨rfl, rfl⟩ := hsame
        rw [Function.update_self, Function.update_self] at href'
        rcases mem_append.mp href' with href' | href'
        · exact hs.contributions p hp k ref' href'
        · obtain rfl := mem_singleton.mp href'
          exact hok hp
      · have hlist : Function.update s.contributions plugin (Function.update
            (s.contributions plugin) kind (s.contributions plugin kind ++ [ref])) p k =
            s.contributions p k := by
          by_cases hp' : p = plugin
          · subst hp'
            rw [Function.update_self, Function.update_of_ne fun h => hsame ⟨rfl, h⟩]
          · rw [Function.update_of_ne hp']
        rw [hlist] at href'
        exact hs.contributions p hp k ref' href'
  | assign ref c =>
    refine ⟨hs.manifests, fun p hp k ref' href' => ?_, hregisters rfl rfl⟩
    show (Function.update s.heap ref c ref').id ∈ declared p k
    by_cases hsame : ref' = ref
    · subst hsame
      rw [Function.update_self]
      exact hok p k hp href'
    · rw [Function.update_of_ne hsame]
      exact hs.contributions p hp k ref' href'
  | amend plugin kind ids =>
    refine ⟨fun p hp k id hid => ?_, hs.contributions, hregisters rfl rfl⟩
    have hmem : id ∈ Function.update s.manifests plugin
        (Function.update (s.manifests plugin) kind ids) p k := hid
    by_cases hsame : p = plugin ∧ k = kind
    · obtain ⟨rfl, rfl⟩ := hsame
      rw [Function.update_self, Function.update_self] at hmem
      exact hok hp id hmem
    · refine hs.manifests p hp k id ?_
      by_cases hp' : p = plugin
      · subst hp'
        rwa [Function.update_self, Function.update_of_ne fun h => hsame ⟨rfl, h⟩] at hmem
      · rwa [Function.update_of_ne hp'] at hmem
  | context plugin =>
    unfold step
    dsimp only
    split
    · rename_i habsent
      have hloaded : ∀ p, Function.update s.loads plugin .registering p = .loaded ↔
          s.loads p = .loaded := by
        intro p
        by_cases hp : p = plugin
        · subst hp
          rw [Function.update_self, habsent]
          exact iff_of_false nofun nofun
        · rw [Function.update_of_ne hp]
      refine ⟨fun p hp => hs.manifests p fun h => hp ((hloaded p).mpr h),
        fun p hp => hs.contributions p ((hloaded p).mp hp), fun r call hr => ?_⟩
      have hcall := hs.registers r call hr
      exact ⟨fun p hp => (hloaded p).mpr (hcall.loaded p hp), hcall.applied⟩
    · exact hs
  | settles plugin error =>
    unfold step
    dsimp only
    split
    · rename_i hphase
      exact within_settles hs hphase error
    · exact hs
  | register r loaded targets =>
    unfold step
    dsimp only
    split
    · rename_i hok
      exact within_moves hs ⟨hok.2, fun a ha => absurd ha not_mem_nil⟩
    · exact hs
  | turn r => exact within_turns hs r
  | resolves r error => exact within_resolves hs r error

/-- The manifest of a plugin: one provider, one tool. -/
def acme : Nat → Declaration
  | _, .provider => ["acme-llm"]
  | _, .tool => ["acme_search"]
  | _, _ => []

/-- Its objects. -/
def objects : Heap
  | 0 => ⟨"acme_search", ""⟩
  | 1 => ⟨"web_fetch", ""⟩
  | _ => ⟨"acme-llm", ""⟩

/-- An engine with a provider of its own. -/
def engine : Nat → Kind → Surface
  | _, .provider => [⟨"openai", "", 9⟩]
  | _, _ => []

/-- The plugin is loaded with a tool and a provider. -/
def loadsAcme : List Op :=
  [.context 0, .contribute 0 .tool 0, .contribute 0 .provider 2, .settles 0 none]

/-- All there is goes to one engine. -/
def registersAcme (turns : Nat) : List Op :=
  .register 0 [0] (fun _ => some 0) :: List.replicate turns (.turn 0)

/-- The second tool comes after the check. -/
def lateTool : List Op :=
  loadsAcme ++ [.contribute 0 .tool 1] ++ registersAcme 3 ++ [.resolves 0 none] ++
    List.replicate 9 (.turn 0)

/-- The provider takes another name while it is probed. -/
def renamedProvider : List Op :=
  loadsAcme ++ registersAcme 3 ++ [.assign 2 ⟨"openai", ""⟩, .resolves 0 none]

/-- A plugin that contributes a declared tool once more, after the check. -/
def twice : List Op :=
  [.context 0, .contribute 0 .tool 0, .settles 0 none, .contribute 0 .tool 0,
    .register 0 [0] (fun _ => some 0), .turn 0, .turn 0, .turn 0, .turn 0, .turn 0]

end NexusCode.Plugins
