/-
  The candidates for a switch of provider.

  `compatibleSwitchCandidates` assesses every model of every provider that may stand in, sorts the
  compatible ones with a comparator of its own, keeps the first of each provider, and cuts the list.

  1. `inferSwitchRequirements`, `assessSwitchTarget` — what the request needs, and what a target
     lacks.
  2. `switchRows`, `compareRows`, `compatibleSwitchCandidates` — `sort` is the engine's.
  3. `compareRows_neg_iff` — the ranks decide between two preferred rows only: the difference to a
     rank that is infinite is not finite, and the costs decide.
  4. `consistent_of_acyclic`, `not_consistent` — that is an order iff no row
     that is not preferred stands between two preferred ones the wrong way round.
  5. `keepDistinct_split` — what comes before a row that is kept.
  6. **`preferred_first_iff`** — preferred providers come first iff the costs have them so; in
     **`preferred_behind`** they do not.
-/
import NexusCode.Engine.Switching
import NexusCode.Lib.JsSort
import NexusCode.Router.Failover
import NexusCode.Router.Registry
import Mathlib.Data.List.Dedup

namespace NexusCode.Switching

open Lib Shared Billing Router List

/-! ## Requirements -/

/-- `ChatRequest`, as the requirements read it: the names of the tools, whether there is a response
    format, and `reasoning.enabled`. -/
structure SwitchRequest extends ChatRequest where
  tools : Option (List String) := none
  responseFormat : Bool := false
  reasoning : Option Bool := none
  maxTokens : Option ℚ := none

/-- `executionRequirements`: the powers that are asked for. -/
structure ExecutionRequirements where
  fileEdit : Bool := false
  shellExec : Bool := false
  git : Bool := false
  approvalGate : Bool := false
  mcp : Bool := false

/-- `ProviderSwitchRequirements`. -/
structure ProviderSwitchRequirements extends ExecutionRequirements where
  modalities : List Modality
  tools : Bool
  hasToolHistory : Bool
  structuredOutput : Bool
  reasoning : Bool
  systemPrompt : Bool
  estimatedInputTokens : Nat
  requestedOutputTokens : ℚ

/-- `DEFAULT_OUTPUT_RESERVE`. -/
def DEFAULT_OUTPUT_RESERVE : ℚ := 4096

/-- `DEFAULT_SAFETY_MARGIN`. -/
def DEFAULT_SAFETY_MARGIN : JsNumber := 1024

/-- What a block adds to the modalities. -/
def addModality (values : List Modality) : ContentBlock → List Modality
  | .image _ _ => JsSet.add .image values
  | .audio _ _ => JsSet.add .audio values
  | _ => values

/-- `modalitiesOf(messages)`. -/
def modalitiesOf (messages : List Message) : List Modality :=
  (messages.flatMap (·.content)).foldl addModality [.text]

/-- A block of a call, or of its result. -/
def isToolBlock : ContentBlock → Bool
  | .toolUse _ _ _ => true
  | .toolResult _ _ _ => true
  | _ => false

/-- `transcriptHasToolHistory(messages)`. -/
def transcriptHasToolHistory (messages : List Message) : Bool :=
  messages.any fun m => m.role = .tool || m.content.any isToolBlock

/-- `inferSwitchRequirements(request, execution)`. -/
def inferSwitchRequirements (request : SwitchRequest) (execution : ExecutionRequirements) :
    ProviderSwitchRequirements where
  modalities := modalitiesOf request.messages
  tools := (request.tools.getD []).length > 0
  hasToolHistory := transcriptHasToolHistory request.messages
  structuredOutput := request.responseFormat
  reasoning := request.reasoning = some true
  systemPrompt := (request.system.map JsString.trim).getD "" ≠ ""
  toExecutionRequirements := execution
  estimatedInputTokens := estimateSwitchTokens (request.messages.map .own) request.system
  requestedOutputTokens := request.maxTokens.getD DEFAULT_OUTPUT_RESERVE

/-! ## Assessment -/

/-- `PricingTable`. -/
abbrev PricingTable := String → Option Pricing

/-- The options of an assessment. -/
structure AssessOptions where
  pricing : Option PricingTable := none
  sourcePrice : Option Pricing := none
  maxCostMultiplier : Option JsNumber := none
  contextSafetyMarginTokens : Option JsNumber := none

/-- `ProviderSwitchAssessment`. -/
structure ProviderSwitchAssessment extends Assessment where
  providerId : String
  modelId : String
  warnings : List String
  estimatedInputTokens : Nat
  estimatedCostUsd : Option ℚ

/-- `${x}`. -/
def numberText (x : JsNumber) : String := String.ofList x.toChars

/-- The wire name of a modality. -/
def modalityText : Modality → String
  | .text => "text"
  | .image => "image"
  | .audio => "audio"

/-- `priceTotal(price)`. -/
def priceTotal (price : Option Pricing) : Option ℚ :=
  price.map fun p => p.inputPerMTok + p.outputPerMTok

/-- `estimateCost(price, inputTokens, outputTokens)`. -/
def estimateCost (price : Option Pricing) (inputTokens outputTokens : ℚ) : Option ℚ :=
  price.map fun p => (inputTokens * p.inputPerMTok + outputTokens * p.outputPerMTok) / 1000000

/-- The price of the target is more than the multiple of the price of the source. -/
def tooDear (options : AssessOptions) (targetPrice : Option Pricing) : Option String :=
  match options.maxCostMultiplier, priceTotal options.sourcePrice, priceTotal targetPrice with
  | some multiplier, some sourceTotal, some targetTotal =>
    if JsNumber.lt (multiplier.scaleBy sourceTotal) (.fin targetTotal) then
      some ("configured token price is more than " ++ numberText multiplier ++ "× the source")
    else none
  | _, _, _ => none

/-- One entry of `blockers`. -/
def blocker (condition : Bool) (text : String) : List String := if condition then [text] else []

/-- `blockers`. -/
def blockersOf (providerId modelId : String) (caps : Capabilities)
    (requirements : ProviderSwitchRequirements) (options : AssessOptions)
    (model : Option ModelInfo) (targetPrice : Option Pricing) : List String :=
  let modalities := (model.bind (·.modalities)).getD [.text]
  blocker model.isNone ("model " ++ modelId ++ " is not advertised by " ++ providerId)
    ++ (requirements.modalities.flatMap fun modality =>
      blocker (modality ≠ .text && !modalities.contains modality)
        (modalityText modality ++ " input is unsupported"))
    ++ blocker (requirements.tools && !caps.tools) "tool calling is unsupported"
    ++ blocker (requirements.hasToolHistory && !caps.tools)
      (providerId ++ " cannot accept the tool-call history already in this conversation — " ++
        "stay on the current provider, or start a new conversation without that history to switch")
    ++ blocker (requirements.structuredOutput && !caps.structuredOutput)
      "structured output is unsupported"
    ++ blocker (requirements.reasoning && !caps.reasoning) "reasoning mode is unsupported"
    ++ blocker (requirements.systemPrompt && !caps.systemPrompt) "system prompts are unsupported"
    ++ blocker (requirements.fileEdit && !caps.fileEdit) "file editing is unsupported"
    ++ blocker (requirements.shellExec && !caps.shellExec) "shell execution is unsupported"
    ++ blocker (requirements.git && !caps.git) "git operations are unsupported"
    ++ blocker (requirements.approvalGate && !caps.approvalGate) "approval gates are unsupported"
    ++ blocker (requirements.mcp && !caps.mcp) "MCP is unsupported"
    ++ (tooDear options targetPrice).toList

/-- `assessSwitchTarget(providerId, modelId, caps, requirements, options)`. -/
def assessSwitchTarget (providerId modelId : String) (caps : Capabilities)
    (requirements : ProviderSwitchRequirements) (options : AssessOptions) :
    ProviderSwitchAssessment :=
  let model := modelInfo caps modelId
  let contextWindow := model.bind (·.contextWindow)
  let safety := options.contextSafetyMarginTokens.getD DEFAULT_SAFETY_MARGIN
  let needed := JsNumber.add
    (.fin (requirements.estimatedInputTokens + requirements.requestedOutputTokens)) safety
  let targetPrice := (options.pricing.bind (· modelId)).or (model.bind (·.pricing))
  let blockers := blockersOf providerId modelId caps requirements options model targetPrice
  { providerId
    modelId
    compatible := blockers = []
    blockers
    warnings := match contextWindow with
      | some contextWindow =>
        if JsNumber.lt contextWindow needed then
          ["request requires compaction for " ++ numberText contextWindow ++
            "-token context window"]
        else []
      | none => []
    estimatedInputTokens := requirements.estimatedInputTokens
    requestedOutputTokens := .fin requirements.requestedOutputTokens
    contextWindow
    estimatedCostUsd := estimateCost targetPrice requirements.estimatedInputTokens
      requirements.requestedOutputTokens }

/-! ## The rows -/

/-- `ProviderSwitchPolicy`. -/
inductive ProviderSwitchPolicy where
  | strict
  | fallback
  | ask
deriving DecidableEq

/-- What the candidates depend on of `ProviderSwitchRuntimeOptions`. -/
structure ProviderSwitchRuntimeOptions where
  policy : ProviderSwitchPolicy
  maxFallbacks : Option JsNumber := none
  preferredProviders : Option (List String) := none
  allowProviders : Option (List String) := none
  denyProviders : Option (List String) := none
  maxCostMultiplier : Option JsNumber := none
  contextSafetyMarginTokens : Option JsNumber := none
  executionRequirements : ExecutionRequirements := {}

/-- `rows[i]`. -/
structure SwitchRow where
  candidate : RouteCandidate
  assessment : ProviderSwitchAssessment
  order : Nat

/-- `row.candidate.providerId`. -/
def SwitchRow.providerId (row : SwitchRow) : String := row.candidate.providerId

section Rows

variable (registry : ProviderRegistry) (source : RouteCandidate) (request : SwitchRequest)
  (options : ProviderSwitchRuntimeOptions) (pricing : Option PricingTable)

/-- `sourceIsCodingCli`. -/
def sourceIsCodingCli : Bool :=
  (registry.entry? source.providerId).any fun e => e.transport = .cliSubprocess

/-- `requirements`: a coding source asks for the powers it has. -/
def switchRequirements : ProviderSwitchRequirements :=
  inferSwitchRequirements request <|
    if sourceIsCodingCli registry source then
      let caps := (registry.entry? source.providerId).map (·.caps)
      { fileEdit := caps.any (·.fileEdit)
        shellExec := caps.any (·.shellExec)
        git := caps.any (·.git)
        approvalGate := caps.any (·.approvalGate)
        mcp := caps.any (·.mcp) }
    else options.executionRequirements

/-- `sourcePrice`. -/
def sourcePrice : Option Pricing :=
  (pricing.bind (· source.modelId)).or
    ((registry.entry? source.providerId).bind fun e =>
      (modelInfo e.caps source.modelId).bind (·.pricing))

/-- `allow?.has(providerId)`. -/
def allowed (providerId : String) : Bool := (options.allowProviders.getD []).contains providerId

/-- `options.preferredProviders?.includes(providerId)`. -/
def preferred (providerId : String) : Bool :=
  (options.preferredProviders.getD []).contains providerId

/-- The provider may stand in: it is another one, not denied and among those allowed, and one that
    has to be asked for by name is. -/
def mayStandIn (e : RegistryEntry) : Bool :=
  let explicitlySelected := allowed options e.id || preferred options e.id
  !(e.id = source.providerId || (options.denyProviders.getD []).contains e.id
      || (options.allowProviders.isSome && !allowed options e.id))
    && !("mock".toList <+: e.id.toList && !explicitlySelected)
    && e.health ≠ some false
    && !((e.id = "lmstudio" || e.id = "vllm") && !explicitlySelected)
    && !(!sourceIsCodingCli registry source
      && (e.caps.fileEdit || e.caps.shellExec || e.caps.git) && !explicitlySelected)

/-- The assessments of the models of a provider. -/
def assessments (e : RegistryEntry) : List ProviderSwitchAssessment :=
  e.caps.models.map fun model =>
    assessSwitchTarget e.id model.id e.caps (switchRequirements registry source request options)
      { pricing
        sourcePrice := sourcePrice registry source pricing
        maxCostMultiplier := options.maxCostMultiplier
        contextSafetyMarginTokens := options.contextSafetyMarginTokens }

/-- `rows`, numbered as they are found. -/
def switchRows : List SwitchRow :=
  (((registry.entries.filter (mayStandIn registry source options)).flatMap
    (assessments registry source request options pricing)).filter (·.compatible)).mapIdx
      fun order assessment =>
        { candidate := {
            providerId := assessment.providerId
            modelId := assessment.modelId
            reason := .fallback }
          assessment
          order }

end Rows

/-! ## The order and the cut -/

/-- `providerRank(providerId, preferred)`. -/
def providerRank (providerId : String) (preferred : Option (List String)) : JsNumber :=
  match (preferred.getD []).idxOf? providerId with
  | some index => .fin index
  | none => .inf false

/-- `assessment.estimatedCostUsd ?? Number.POSITIVE_INFINITY`. -/
def SwitchRow.cost (row : SwitchRow) : JsNumber :=
  match row.assessment.estimatedCostUsd with
  | some cost => .fin cost
  | none => .inf false

/-- The comparator of the rows. -/
def compareRows (options : ProviderSwitchRuntimeOptions) (a b : SwitchRow) : JsNumber :=
  let preferred := JsNumber.sub (providerRank a.providerId options.preferredProviders)
    (providerRank b.providerId options.preferredProviders)
  if preferred.isFinite ∧ preferred ≠ 0 then preferred
  else if a.cost ≠ b.cost then JsNumber.sub a.cost b.cost
  else .fin (a.order - b.order)

/-- `distinctProviders`, given `seenProviders`. -/
def keepDistinct : List String → List SwitchRow → List SwitchRow
  | _, [] => []
  | seenProviders, row :: rows =>
    if row.providerId ∈ seenProviders then keepDistinct seenProviders rows
    else row :: keepDistinct (row.providerId :: seenProviders) rows

/-- `options.maxFallbacks ?? 3`. -/
def ProviderSwitchRuntimeOptions.limit (options : ProviderSwitchRuntimeOptions) : JsNumber :=
  options.maxFallbacks.getD 3

/-- Where `slice(0, Math.max(0, limit))` of so many ends. -/
def sliceEnd (limit : JsNumber) (length : Nat) : Nat :=
  match limit with
  | .fin q => min (max 0 q).floor.toNat length
  | .inf negative => if negative then 0 else length
  | .nan => 0

/-- What is left of the sorted rows. -/
def keepFew (options : ProviderSwitchRuntimeOptions) (rows : List SwitchRow) : List SwitchRow :=
  let distinctProviders := keepDistinct [] rows
  distinctProviders.take (sliceEnd options.limit distinctProviders.length)

/-- `compareRows`, as `sort` reads it. -/
def rowOrder (options : ProviderSwitchRuntimeOptions) (a b : SwitchRow) : ℚ :=
  (compareRows options a b).toOrder

section Candidates

variable (sort : (SwitchRow → SwitchRow → ℚ) → List SwitchRow → List SwitchRow)
  (registry : ProviderRegistry) (source : RouteCandidate) (request : SwitchRequest)
  (options : ProviderSwitchRuntimeOptions) (pricing : Option PricingTable)

/-- The rows of the candidates. -/
def candidateRows : List SwitchRow :=
  if options.policy = .strict then []
  else keepFew options (sort (rowOrder options)
    (switchRows registry source request options pricing))

/-- `compatibleSwitchCandidates(registry, source, request, options, pricing)`. -/
def compatibleSwitchCandidates : List (RouteCandidate × ProviderSwitchAssessment) :=
  (candidateRows sort registry source request options pricing).map fun row =>
    (row.candidate, row.assessment)

end Candidates

/-! ## What is promised -/

/-- `a` comes before `b` by cost, and by the registry where the costs are equal. -/
abbrev Cheaper : SwitchRow → SwitchRow → Prop := KeyBefore SwitchRow.cost SwitchRow.order

section Promise

variable (options : ProviderSwitchRuntimeOptions)

/-- The row of a preferred provider. -/
def Preferred (row : SwitchRow) : Prop := preferred options row.providerId = true

/-- The provider of `a` stands before that of `b` in `preferredProviders`. -/
def RanksBefore (a b : SwitchRow) : Prop :=
  JsNumber.lt (providerRank a.providerId options.preferredProviders)
    (providerRank b.providerId options.preferredProviders) = true

/-- What the candidates promise: no more than the limit, one for a provider, the preferred ones of
    the compatible providers first and in their order, the others by cost. -/
structure PreferredFirst (rows kept : List SwitchRow) : Prop where
  few : kept ≠ [] → JsNumber.le (.fin kept.length) options.limit = true
  distinct : (kept.map SwitchRow.providerId).Nodup
  first : ∀ before u after, kept = before ++ u :: after → ¬ Preferred options u →
    ∀ r ∈ rows, Preferred options r → ∃ p ∈ before, p.providerId = r.providerId
  ranked : kept.Pairwise fun a b =>
    Preferred options a → Preferred options b → RanksBefore options a b
  rest : kept.Pairwise fun a b => ¬ Preferred options a → ¬ Preferred options b → Cheaper a b

/-- The list has a place for one more than `n`. -/
def HasPlace (n : Nat) : Prop := JsNumber.le (.fin (n + 1)) options.limit = true

/-- The number of the providers with a row that is cheaper. -/
def cheaperProviders (rows : List SwitchRow) (u : SwitchRow) : Nat :=
  ((rows.filter (Cheaper · u)).map SwitchRow.providerId).dedup.length

/-- No row that is not preferred stands, by cost, between two that are, the wrong way round. -/
def Acyclic (rows : List SwitchRow) : Prop :=
  ∀ p ∈ rows, ∀ q ∈ rows, ∀ u ∈ rows, Preferred options p → Preferred options q →
    RanksBefore options p q → ¬ Preferred options u → ¬ (Cheaper q u ∧ Cheaper u p)

/-- A row that is not preferred has, of every preferred provider, a cheaper row before it, or so
    many providers before it that it has no place in the list. -/
def CheapFirst (rows : List SwitchRow) : Prop :=
  ∀ u ∈ rows, ¬ Preferred options u → HasPlace options (cheaperProviders rows u) →
    ∀ r ∈ rows, Preferred options r → ∃ p ∈ rows, p.providerId = r.providerId ∧ Cheaper p u

end Promise

/-! ## The comparator -/

section Comparator

variable {options : ProviderSwitchRuntimeOptions} {a b c : SwitchRow}

theorem cost_ne_nan (row : SwitchRow) : row.cost ≠ .nan := by
  rw [SwitchRow.cost]
  cases row.assessment.estimatedCostUsd with
  | none => nofun
  | some cost => nofun

/-- The rank of a preferred row is its index, and that of another row is infinite. -/
theorem providerRank_cases (options : ProviderSwitchRuntimeOptions) (row : SwitchRow) :
    (Preferred options row ∧ ∃ i : Nat,
        (options.preferredProviders.getD []).idxOf? row.providerId = some i ∧
        providerRank row.providerId options.preferredProviders = .fin i) ∨
      (¬ Preferred options row ∧
        providerRank row.providerId options.preferredProviders = .inf false) := by
  rw [providerRank, Preferred, preferred, contains_iff_mem]
  cases hindex : (options.preferredProviders.getD []).idxOf? row.providerId with
  | none => exact .inr ⟨List.idxOf?_eq_none_iff.mp hindex, rfl⟩
  | some i =>
    refine .inl ⟨?_, i, rfl, rfl⟩
    by_contra hmem
    rw [List.idxOf?_eq_none_iff.mpr hmem] at hindex
    cases hindex

theorem rank_ne_nan (options : ProviderSwitchRuntimeOptions) (row : SwitchRow) :
    providerRank row.providerId options.preferredProviders ≠ .nan := by
  rcases providerRank_cases options row with ⟨-, i, -, h⟩ | ⟨-, h⟩
  · rw [h]
    nofun
  · rw [h]
    nofun

theorem provider_of_rank (ha : Preferred options a) (hb : Preferred options b)
    (h : providerRank a.providerId options.preferredProviders =
      providerRank b.providerId options.preferredProviders) : a.providerId = b.providerId := by
  rcases providerRank_cases options a with ⟨-, i, hi, hrank⟩ | ⟨hnot, -⟩
  · rcases providerRank_cases options b with ⟨-, j, hj, hrank'⟩ | ⟨hnot, -⟩
    · rw [hrank, hrank'] at h
      have hij : i = j := Nat.cast_injective (JsNumber.fin.inj h)
      subst hij
      obtain ⟨hlt, hget, -⟩ := List.idxOf?_eq_some_iff.mp hi
      obtain ⟨hlt', hget', -⟩ := List.idxOf?_eq_some_iff.mp hj
      exact hget.symm.trans hget'
    · exact absurd hb hnot
  · exact absurd ha hnot

/-- The rows of two preferred providers. -/
def Apart (options : ProviderSwitchRuntimeOptions) (a b : SwitchRow) : Prop :=
  Preferred options a ∧ Preferred options b ∧ a.providerId ≠ b.providerId

theorem Apart.symm (h : Apart options a b) : Apart options b a := ⟨h.2.1, h.1, h.2.2.symm⟩

theorem Apart.total (h : Apart options a b) : RanksBefore options a b ∨ RanksBefore options b a := by
  rcases JsNumber.trichotomy (rank_ne_nan options a) (rank_ne_nan options b) with hlt | heq | hlt
  · exact .inl hlt
  · exact absurd (provider_of_rank h.1 h.2.1 heq) h.2.2
  · exact .inr hlt

theorem RanksBefore.ne (h : RanksBefore options a b) : a.providerId ≠ b.providerId := by
  intro heq
  rw [RanksBefore, heq, JsNumber.lt_self] at h
  cases h

theorem RanksBefore.asymm (h : RanksBefore options a b) : ¬ RanksBefore options b a := by
  intro hba
  rw [RanksBefore, JsNumber.not_lt_of_lt h] at hba
  cases hba

/-- What the comparator puts first: between two preferred providers the rank decides, and the cost
    otherwise. -/
def Before (options : ProviderSwitchRuntimeOptions) (a b : SwitchRow) : Prop :=
  Apart options a b ∧ RanksBefore options a b ∨ ¬ Apart options a b ∧ Cheaper a b

theorem rank_decides_iff : ((JsNumber.sub (providerRank a.providerId options.preferredProviders)
      (providerRank b.providerId options.preferredProviders)).isFinite = true ∧
    JsNumber.sub (providerRank a.providerId options.preferredProviders)
      (providerRank b.providerId options.preferredProviders) ≠ 0) ↔ Apart options a b := by
  rcases providerRank_cases options a with ⟨ha, i, -, hrank⟩ | ⟨hnot, hrank⟩
  · rcases providerRank_cases options b with ⟨hb, j, -, hrank'⟩ | ⟨hnot, hrank'⟩
    · have hne : JsNumber.sub (.fin i) (.fin j) ≠ 0 ↔ a.providerId ≠ b.providerId := by
        refine not_congr ⟨fun hzero => ?_, fun heq => ?_⟩
        · obtain ⟨q, hi, hj⟩ := JsNumber.sub_eq_zero_iff.mp hzero
          exact provider_of_rank ha hb (by rw [hrank, hrank', hi, hj])
        · rw [heq, hrank'] at hrank
          exact JsNumber.sub_eq_zero_iff.mpr ⟨i, rfl, hrank⟩
      rw [hrank, hrank', hne]
      exact ⟨fun h => ⟨ha, hb, h.2⟩, fun h => ⟨rfl, h.2.2⟩⟩
    · rw [hrank, hrank']
      exact iff_of_false (fun h => Bool.false_ne_true h.1) fun h => hnot h.2.1
  · refine iff_of_false (fun h => ?_) fun h => hnot h.1
    rw [hrank] at h
    rcases providerRank_cases options b with ⟨-, j, -, hrank'⟩ | ⟨-, hrank'⟩
    · rw [hrank'] at h
      exact Bool.false_ne_true h.1
    · rw [hrank'] at h
      exact Bool.false_ne_true h.1

/-- **The sign of the comparator.** -/
theorem compareRows_neg_iff : (compareRows options a b).toOrder < 0 ↔ Before options a b := by
  unfold compareRows Before
  dsimp only
  by_cases hapart : Apart options a b
  · rw [if_pos (rank_decides_iff.mpr hapart),
      JsNumber.toOrder_sub_neg_iff (rank_ne_nan options a) (rank_ne_nan options b)]
    exact ⟨fun h => .inl ⟨hapart, h⟩, fun h => h.elim And.right fun h => absurd hapart h.1⟩
  · rw [if_neg (mt rank_decides_iff.mp hapart)]
    have hcheaper : (if a.cost ≠ b.cost then JsNumber.sub a.cost b.cost
        else .fin (a.order - b.order)).toOrder < 0 ↔ Cheaper a b := by
      by_cases hcost : a.cost = b.cost
      · rw [if_neg (not_not_intro hcost)]
        show ((a.order : ℚ) - b.order) < 0 ↔ _
        rw [sub_neg, Nat.cast_lt, Cheaper, KeyBefore, hcost, JsNumber.lt_self]
        simp
      · rw [if_pos hcost, JsNumber.toOrder_sub_neg_iff (cost_ne_nan a) (cost_ne_nan b)]
        exact ⟨.inl, fun h => h.resolve_right fun heq => hcost heq.1⟩
    rw [hcheaper]
    exact ⟨fun h => .inr ⟨hapart, h⟩, fun h => h.elim (fun h => absurd h.1 hapart) And.right⟩

theorem compareRows_swap (a b : SwitchRow) :
    (compareRows options b a).toOrder = -(compareRows options a b).toOrder := by
  unfold compareRows
  dsimp only
  by_cases hapart : Apart options a b
  · rw [if_pos (rank_decides_iff.mpr hapart), if_pos (rank_decides_iff.mpr hapart.symm)]
    exact JsNumber.toOrder_sub_swap _ _
  · rw [if_neg (mt rank_decides_iff.mp hapart),
      if_neg (mt rank_decides_iff.mp fun h => hapart h.symm)]
    by_cases hcost : a.cost = b.cost
    · rw [if_neg (not_not_intro hcost), if_neg (not_not_intro hcost.symm)]
      exact (neg_sub (a.order : ℚ) b.order).symm
    · rw [if_pos hcost, if_pos fun h => hcost h.symm]
      exact JsNumber.toOrder_sub_swap _ _

theorem Cheaper.total (hne : a.order ≠ b.order) : Cheaper a b ∨ Cheaper b a := by
  rcases JsNumber.trichotomy (cost_ne_nan a) (cost_ne_nan b) with h | h | h
  · exact .inl (.inl h)
  · rcases Nat.lt_or_gt_of_ne hne with hlt | hlt
    · exact .inl (.inr ⟨h, hlt⟩)
    · exact .inr (.inr ⟨h.symm, hlt⟩)
  · exact .inr (.inl h)

variable (options) in
theorem Before.total (hne : a.order ≠ b.order) : Before options a b ∨ Before options b a := by
  by_cases hapart : Apart options a b
  · exact hapart.total.imp (fun h => .inl ⟨hapart, h⟩) fun h => .inl ⟨hapart.symm, h⟩
  · exact (Cheaper.total hne).imp (fun h => .inr ⟨hapart, h⟩)
      fun h => .inr ⟨fun h => hapart h.symm, h⟩

theorem compareRows_self (a : SwitchRow) : (compareRows options a a).toOrder = 0 :=
  self_eq_neg.mp (compareRows_swap a a)

theorem order_of_tie (h : (compareRows options a b).toOrder = 0) : a.order = b.order := by
  by_contra hne
  rcases Before.total options hne with hab | hba
  · exact absurd (compareRows_neg_iff.mpr hab) (by rw [h]; exact lt_irrefl 0)
  · have hlt := compareRows_neg_iff.mpr hba
    rw [compareRows_swap, h, neg_zero] at hlt
    exact lt_irrefl 0 hlt

end Comparator

/-! ## Consistency -/

section Consistency

variable {options : ProviderSwitchRuntimeOptions} {rows : List SwitchRow} {a b c : SwitchRow}

/-- Each order is that of one row. -/
def Numbered (rows : List SwitchRow) : Prop := rows.Pairwise fun a b => a.order < b.order

theorem Numbered.eq_of_order (h : Numbered rows) (ha : a ∈ rows) (hb : b ∈ rows)
    (horder : a.order = b.order) : a = b := by
  have hnodup : (rows.map SwitchRow.order).Nodup := pairwise_map.mpr (h.imp Nat.ne_of_lt)
  exact inj_on_of_nodup_map hnodup ha hb horder

theorem numbered_switchRows (registry : ProviderRegistry) (source : RouteCandidate)
    (request : SwitchRequest) (options : ProviderSwitchRuntimeOptions)
    (pricing : Option PricingTable) :
    Numbered (switchRows registry source request options pricing) := by
  rw [Numbered, switchRows, pairwise_iff_getElem]
  intro i j hi hj hij
  rw [getElem_mapIdx, getElem_mapIdx]
  exact hij

theorem not_apart_left (h : ¬ Preferred options a) : ¬ Apart options a b := fun hapart => h hapart.1

theorem not_apart_right (h : ¬ Preferred options b) : ¬ Apart options a b :=
  fun hapart => h hapart.2.1

/-- Two preferred rows that are not apart are of one provider. -/
theorem provider_of_not_apart (ha : Preferred options a) (hb : Preferred options b)
    (h : ¬ Apart options a b) : a.providerId = b.providerId :=
  not_not.mp fun hne => h ⟨ha, hb, hne⟩

/-- Without a cycle, the order of the comparator is transitive. -/
theorem Before.trans (hnumbered : Numbered rows) (hacyclic : Acyclic options rows) (ha : a ∈ rows)
    (hb : b ∈ rows) (hc : c ∈ rows) (hab : Before options a b) (hbc : Before options b c) :
    Before options a c := by
  rcases hab with ⟨habApart, hab⟩ | ⟨habApart, hab⟩
  · rcases hbc with ⟨hbcApart, hbc⟩ | ⟨hbcApart, hbc⟩
    · have hac : RanksBefore options a c := JsNumber.lt_chain hab hbc
      exact .inl ⟨⟨habApart.1, hbcApart.2.1, hac.ne⟩, hac⟩
    · by_cases hpreferred : Preferred options c
      · -- `c` is of the provider of `b`
        have hsame := provider_of_not_apart habApart.2.1 hpreferred hbcApart
        have hac : RanksBefore options a c := by
          rw [RanksBefore, ← hsame]
          exact hab
        exact .inl ⟨⟨habApart.1, hpreferred, hac.ne⟩, hac⟩
      · refine .inr ⟨not_apart_right hpreferred, ?_⟩
        have hne : a.order ≠ c.order := fun horder =>
          hpreferred (hnumbered.eq_of_order ha hc horder ▸ habApart.1)
        refine (Cheaper.total hne).resolve_right fun hca => ?_
        exact hacyclic a ha b hb c hc habApart.1 habApart.2.1 hab hpreferred ⟨hbc, hca⟩
  · rcases hbc with ⟨hbcApart, hbc⟩ | ⟨hbcApart, hbc⟩
    · by_cases hpreferred : Preferred options a
      · have hsame := provider_of_not_apart hpreferred hbcApart.1 habApart
        have hac : RanksBefore options a c := by
          rw [RanksBefore, hsame]
          exact hbc
        exact .inl ⟨⟨hpreferred, hbcApart.2.1, hac.ne⟩, hac⟩
      · refine .inr ⟨not_apart_left hpreferred, ?_⟩
        have hne : a.order ≠ c.order := fun horder =>
          hpreferred (hnumbered.eq_of_order ha hc horder ▸ hbcApart.2.1)
        refine (Cheaper.total hne).resolve_right fun hca => ?_
        exact hacyclic b hb c hc a ha hbcApart.1 hbcApart.2.1 hbc hpreferred ⟨hca, hab⟩
    · by_cases hacApart : Apart options a c
      · by_cases hpreferred : Preferred options b
        · exact absurd ((provider_of_not_apart hacApart.1 hpreferred habApart).trans
            (provider_of_not_apart hpreferred hacApart.2.1 hbcApart)) hacApart.2.2
        · -- `b` stands between `a` and `c`, which are then the right way round
          refine .inl ⟨hacApart, hacApart.total.resolve_right fun hca => ?_⟩
          exact hacyclic c hc a ha b hb hacApart.2.1 hacApart.1 hca hpreferred ⟨hab, hbc⟩
      · exact .inr ⟨hacApart, hab.trans hbc⟩

theorem rowOrder_pos_iff : 0 < rowOrder options a b ↔ Before options b a := by
  rw [← compareRows_neg_iff, compareRows_swap, neg_lt_zero]
  rfl

/-- **Without a cycle the comparator is consistent.** -/
theorem consistent_of_acyclic (hnumbered : Numbered rows) (hacyclic : Acyclic options rows) :
    Consistent (rowOrder options) rows where
  refl a _ := compareRows_self a
  symm a ha b hb h := by
    rw [hnumbered.eq_of_order ha hb (order_of_tie h)]
    exact compareRows_self b
  trans_eq a ha b hb c _ hab hbc := by
    rw [hnumbered.eq_of_order ha hb (order_of_tie hab)]
    exact hbc
  trans_lt a ha b hb c hc hab hbc := by
    refine compareRows_neg_iff.mpr ?_
    exact Before.trans hnumbered hacyclic ha hb hc (compareRows_neg_iff.mp hab)
      (compareRows_neg_iff.mp hbc)
  trans_gt a ha b hb c hc hab hbc := by
    rw [rowOrder_pos_iff] at hab hbc ⊢
    exact Before.trans hnumbered hacyclic hc hb ha hbc hab

/-- **With a cycle it is not.** -/
theorem not_consistent {p q u : SwitchRow} (hp : p ∈ rows) (hq : q ∈ rows) (hu : u ∈ rows)
    (hpPreferred : Preferred options p) (hqPreferred : Preferred options q)
    (hrank : RanksBefore options p q) (hnot : ¬ Preferred options u) (hqu : Cheaper q u)
    (hup : Cheaper u p) : ¬ Consistent (rowOrder options) rows := by
  intro hconsistent
  have hlt := hconsistent.trans_lt q hq u hu p hp
    (compareRows_neg_iff.mpr (.inr ⟨not_apart_right hnot, hqu⟩))
    (compareRows_neg_iff.mpr (.inr ⟨not_apart_left hnot, hup⟩))
  rcases compareRows_neg_iff.mp hlt with ⟨-, hqp⟩ | ⟨hapart, -⟩
  · exact hrank.asymm hqp
  · exact hapart ⟨hqPreferred, hpPreferred, hrank.ne.symm⟩

/-- What a conforming engine makes of the rows where the comparator is consistent. -/
theorem pairwise_before {sort : (SwitchRow → SwitchRow → ℚ) → List SwitchRow → List SwitchRow}
    (hsort : Conforms sort) (hnumbered : Numbered rows)
    (hconsistent : Consistent (rowOrder options) rows) :
    (sort (rowOrder options) rows).Pairwise (Before options) := by
  have horders : (sort (rowOrder options) rows).Pairwise fun a b => a.order ≠ b.order :=
    ((hsort.perm _ rows).pairwise_iff fun {_ _} => Ne.symm).mpr (hnumbered.imp Nat.ne_of_lt)
  refine (horders.and (hsort.sorted _ rows hconsistent)).imp fun {a b} ⟨hne, h⟩ => ?_
  rcases h with hlt | ⟨htie, -⟩
  · exact compareRows_neg_iff.mp hlt
  · exact absurd (order_of_tie htie) hne

end Consistency

/-! ## One for each provider -/

section Distinct

variable {seen : List String} {rows front back before after : List SwitchRow} {u : SwitchRow}

theorem mem_keepDistinct_provider {id : String} :
    id ∈ (keepDistinct seen rows).map SwitchRow.providerId ↔
      id ∈ rows.map SwitchRow.providerId ∧ id ∉ seen := by
  induction rows generalizing seen with
  | nil => simp [keepDistinct]
  | cons row rows ih =>
    rw [keepDistinct, map_cons, mem_cons]
    split
    · rename_i hseen
      rw [ih]
      constructor
      · rintro ⟨hmem, hnot⟩
        exact ⟨.inr hmem, hnot⟩
      · rintro ⟨rfl | hmem, hnot⟩
        · exact absurd hseen hnot
        · exact ⟨hmem, hnot⟩
    · rename_i hseen
      rw [map_cons, mem_cons, ih, mem_cons, not_or]
      by_cases hid : id = row.providerId
      · simp [hid, hseen]
      · simp [hid]

theorem nodup_keepDistinct (seen : List String) (rows : List SwitchRow) :
    ((keepDistinct seen rows).map SwitchRow.providerId).Nodup := by
  induction rows generalizing seen with
  | nil => exact nodup_nil
  | cons row rows ih =>
    rw [keepDistinct]
    split
    · exact ih seen
    · refine nodup_cons.mpr ⟨fun hmem => ?_, ih _⟩
      exact (mem_keepDistinct_provider.mp hmem).2 mem_cons_self

theorem keepDistinct_sublist (seen : List String) (rows : List SwitchRow) :
    (keepDistinct seen rows).Sublist rows := by
  induction rows generalizing seen with
  | nil => exact List.Sublist.refl _
  | cons row rows ih =>
    rw [keepDistinct]
    split
    · exact (ih seen).cons row
    · exact (ih _).cons_cons row

/-- **What comes before a row that is kept** is what is kept of the rows before it. -/
theorem keepDistinct_split (h : keepDistinct seen rows = before ++ u :: after) :
    ∃ front back, rows = front ++ u :: back ∧ before = keepDistinct seen front := by
  induction rows generalizing seen before with
  | nil => cases before <;> cases h
  | cons row rows ih =>
    rw [keepDistinct] at h
    split at h
    · rename_i hseen
      obtain ⟨front, back, rfl, rfl⟩ := ih h
      refine ⟨row :: front, back, rfl, ?_⟩
      rw [keepDistinct, if_pos hseen]
    · rename_i hseen
      cases before with
      | nil =>
        obtain ⟨rfl, -⟩ := cons.inj h
        exact ⟨[], rows, rfl, rfl⟩
      | cons head before =>
        obtain ⟨rfl, hrest⟩ := cons.inj h
        obtain ⟨front, back, rfl, rfl⟩ := ih hrest
        refine ⟨row :: front, back, rfl, ?_⟩
        rw [keepDistinct, if_neg hseen]

variable (back) in
theorem keepDistinct_append (hseen : u.providerId ∉ seen)
    (hfront : ∀ row ∈ front, row.providerId ≠ u.providerId) :
    ∃ after, keepDistinct seen (front ++ u :: back) = keepDistinct seen front ++ u :: after := by
  induction front generalizing seen with
  | nil => exact ⟨_, if_neg hseen⟩
  | cons row front ih =>
    have hrest := fun r hr => hfront r (mem_cons_of_mem row hr)
    rw [cons_append, keepDistinct, keepDistinct]
    by_cases hrow : row.providerId ∈ seen
    · rw [if_pos hrow, if_pos hrow]
      exact ih hseen hrest
    · rw [if_neg hrow, if_neg hrow]
      have hne := hfront row mem_cons_self
      obtain ⟨after, h⟩ := @ih (row.providerId :: seen)
        (fun hmem => (mem_cons.mp hmem).elim (fun heq => hne heq.symm) hseen) hrest
      exact ⟨after, congrArg (row :: ·) h⟩

theorem length_keepDistinct {providers : List String}
    (h : ∀ id, id ∈ rows.map SwitchRow.providerId ↔ id ∈ providers) :
    (keepDistinct [] rows).length = providers.dedup.length := by
  rw [← length_map (f := SwitchRow.providerId)]
  refine List.Perm.length_eq ?_
  rw [perm_ext_iff_of_nodup (nodup_keepDistinct [] rows) (nodup_dedup providers)]
  intro id
  rw [mem_keepDistinct_provider, mem_dedup, h]
  exact and_iff_left not_mem_nil

end Distinct

/-! ## The cut -/

theorem lt_sliceEnd_iff {limit : JsNumber} {n length : Nat} (h : n < length) :
    n < sliceEnd limit length ↔ JsNumber.le (.fin (n + 1)) limit = true := by
  cases limit with
  | fin q =>
    have hpos : ¬ (n + 1 : ℚ) ≤ 0 := not_le.mpr (by positivity)
    calc n < min (max 0 q).floor.toNat length
        ↔ ((n + 1 : ℤ)) ≤ (max 0 q).floor := by omega
      _ ↔ (n + 1 : ℚ) ≤ max 0 q := by
        rw [Rat.le_floor_iff]
        push_cast
        rfl
      _ ↔ (n + 1 : ℚ) ≤ q := by
        rw [le_max_iff]
        exact or_iff_right hpos
      _ ↔ JsNumber.le (.fin (n + 1)) (.fin q) = true := by
        simp [JsNumber.le, JsNumber.lt]
  | inf negative =>
    cases negative with
    | false => exact iff_of_true h rfl
    | true => exact iff_of_false (Nat.not_lt_zero n) Bool.false_ne_true
  | nan => exact iff_of_false (Nat.not_lt_zero n) Bool.false_ne_true

section Cut

variable {options : ProviderSwitchRuntimeOptions} {rows sorted front back before after :
  List SwitchRow} {u : SwitchRow}

theorem HasPlace.mono {m n : Nat} (h : HasPlace options n) (hmn : m ≤ n) : HasPlace options m := by
  have hcast : (m : ℚ) ≤ n := Nat.cast_le.mpr hmn
  unfold HasPlace at *
  cases hlimit : options.limit with
  | fin q =>
    rw [hlimit] at h
    simp only [JsNumber.le, JsNumber.lt, Bool.not_eq_true', decide_eq_false_iff_not, not_lt] at h ⊢
    exact (add_le_add_left hcast 1).trans h
  | inf negative =>
    rw [hlimit] at h
    exact h
  | nan =>
    rw [hlimit] at h
    cases h

theorem keepFew_sublist (rows : List SwitchRow) : (keepFew options rows).Sublist rows :=
  (take_sublist _ _).trans (keepDistinct_sublist [] rows)

variable (options) in
theorem nodup_keepFew (rows : List SwitchRow) :
    ((keepFew options rows).map SwitchRow.providerId).Nodup :=
  (nodup_keepDistinct [] rows).sublist ((take_sublist _ _).map SwitchRow.providerId)

variable (before) in
/-- Before a row of the list stands what is kept of the rows before it, and it has a place. -/
theorem keepFew_split (h : keepFew options rows = before ++ u :: after) :
    HasPlace options before.length ∧
      ∃ front back, rows = front ++ u :: back ∧ before = keepDistinct [] front := by
  have hwhole := take_append_drop (sliceEnd options.limit (keepDistinct [] rows).length)
    (keepDistinct [] rows)
  rw [← keepFew, h, append_assoc] at hwhole
  have hlength := congrArg List.length h
  rw [keepFew, length_take, length_append, length_cons] at hlength
  constructor
  · have hlt : before.length < (keepDistinct [] rows).length := by omega
    exact (lt_sliceEnd_iff hlt).mp (by omega)
  · exact keepDistinct_split hwhole.symm

variable (front back u) in
/-- The first row of a provider is in the list if it has a place. -/
theorem keepFew_append (hfront : ∀ row ∈ front, row.providerId ≠ u.providerId)
    (hplace : HasPlace options (keepDistinct [] front).length) :
    ∃ after, keepFew options (front ++ u :: back) = keepDistinct [] front ++ u :: after := by
  obtain ⟨after, hkept⟩ := keepDistinct_append back not_mem_nil hfront
  have hlength := congrArg List.length hkept
  rw [length_append, length_cons] at hlength
  have hlt : (keepDistinct [] front).length < (keepDistinct [] (front ++ u :: back)).length := by
    omega
  obtain ⟨k, hk⟩ := Nat.exists_eq_add_of_lt ((lt_sliceEnd_iff hlt).mpr hplace)
  refine ⟨after.take k, ?_⟩
  rw [keepFew, hk, hkept, Nat.add_assoc, take_length_add_append, take_succ_cons]

theorem keepFew_le (h : keepFew options rows ≠ []) :
    JsNumber.le (.fin (keepFew options rows).length) options.limit = true := by
  obtain ⟨before, u, hlast⟩ := (eq_nil_or_concat' (keepFew options rows)).resolve_left h
  obtain ⟨hplace, -⟩ := keepFew_split _ hlast
  rw [hlast, length_append, length_singleton, Nat.cast_add, Nat.cast_one]
  exact hplace

end Cut

/-! ## The promise -/

section Kept

variable {options : ProviderSwitchRuntimeOptions} {rows sorted front back : List SwitchRow}
  {u v : SwitchRow}

theorem Before.cheaper_right (h : Before options v u) (hnot : ¬ Preferred options u) :
    Cheaper v u :=
  h.elim (fun h => absurd h.1 (not_apart_right hnot)) And.right

theorem Before.cheaper_left (h : Before options u v) (hnot : ¬ Preferred options u) :
    Cheaper u v :=
  h.elim (fun h => absurd h.1 (not_apart_left hnot)) And.right

/-- Before a row that is not preferred stand the rows that are cheaper. -/
theorem mem_front_iff (hperm : (front ++ u :: back).Perm rows)
    (hbefore : (front ++ u :: back).Pairwise (Before options)) (hnot : ¬ Preferred options u) :
    v ∈ front ↔ v ∈ rows ∧ Cheaper v u := by
  obtain ⟨-, hback, hfront⟩ := pairwise_append.mp hbefore
  constructor
  · intro hv
    exact ⟨hperm.mem_iff.mp (mem_append_left _ hv),
      (hfront v hv u mem_cons_self).cheaper_right hnot⟩
  · rintro ⟨hv, hcheaper⟩
    rcases mem_append.mp (hperm.mem_iff.mpr hv) with hv | hv
    · exact hv
    · rcases mem_cons.mp hv with rfl | hv
      · exact absurd hcheaper hcheaper.asymm
      · have hbehind := (pairwise_cons.mp hback).1 v hv
        exact absurd hcheaper (hbehind.cheaper_left hnot).asymm

theorem length_front (hperm : (front ++ u :: back).Perm rows)
    (hbefore : (front ++ u :: back).Pairwise (Before options)) (hnot : ¬ Preferred options u) :
    (keepDistinct [] front).length = cheaperProviders rows u := by
  refine length_keepDistinct fun id => ?_
  rw [mem_map, mem_map]
  refine exists_congr fun v => and_congr_left' ?_
  rw [mem_front_iff hperm hbefore hnot, mem_filter, decide_eq_true_iff]

theorem cheaperProviders_le (h : Cheaper v u) : cheaperProviders rows v ≤ cheaperProviders rows u := by
  refine (subperm_of_subset (nodup_dedup _) fun id hid => ?_).length_le
  rw [mem_dedup] at hid ⊢
  obtain ⟨w, hw, rfl⟩ := mem_map.mp hid
  obtain ⟨hw, hcheaper⟩ := mem_filter.mp hw
  refine mem_map_of_mem (mem_filter.mpr ⟨hw, decide_eq_true ?_⟩)
  exact (of_decide_eq_true hcheaper).trans h

/-- **Preferred providers come first in the sorted rows iff they do by cost.** -/
theorem first_iff (hperm : sorted.Perm rows) (hbefore : sorted.Pairwise (Before options)) :
    (∀ before u after, keepFew options sorted = before ++ u :: after → ¬ Preferred options u →
      ∀ r ∈ rows, Preferred options r → ∃ p ∈ before, p.providerId = r.providerId) ↔
    CheapFirst options rows := by
  constructor
  · intro h u hu hnot hplace r hr hpreferred
    -- the first row of the provider of `u` is the one that may be in the list
    have hsome : (sorted.find? fun row => row.providerId = u.providerId).isSome :=
      List.find?_isSome.mpr ⟨u, hperm.mem_iff.mpr hu, decide_eq_true rfl⟩
    obtain ⟨first, hfind⟩ := Option.isSome_iff_exists.mp hsome
    obtain ⟨hfirst, front, back, rfl, hfront⟩ := List.find?_eq_some_iff_append.mp hfind
    have hsame : first.providerId = u.providerId := of_decide_eq_true hfirst
    have hnew : ∀ row ∈ front, row.providerId ≠ u.providerId := fun row hrow heq => by
      have hne := hfront row hrow
      rw [decide_eq_true heq] at hne
      cases hne
    have hfirstNot : ¬ Preferred options first := by
      rw [Preferred, hsame]
      exact hnot
    have hle : first = u ∨ Cheaper first u := by
      rcases mem_append.mp (hperm.mem_iff.mpr hu) with hmem | hmem
      · exact absurd rfl (hnew u hmem)
      · rcases mem_cons.mp hmem with rfl | hmem
        · exact .inl rfl
        · have hbehind := (pairwise_cons.mp (pairwise_append.mp hbefore).2.1).1 u hmem
          exact .inr (hbehind.cheaper_left hfirstNot)
    have hcount : cheaperProviders rows first ≤ cheaperProviders rows u := by
      rcases hle with rfl | hlt
      · omega
      · exact cheaperProviders_le hlt
    have hroom : HasPlace options (keepDistinct [] front).length := by
      rw [length_front hperm hbefore hfirstNot]
      exact hplace.mono hcount
    obtain ⟨after, hkept⟩ := keepFew_append _ back _ (fun row hrow => hsame ▸ hnew row hrow)
      hroom
    obtain ⟨p, hp, hpid⟩ := h _ first after hkept hfirstNot r hr hpreferred
    have hpFront := (keepDistinct_sublist [] front).subset hp
    obtain ⟨hpRows, hcheaper⟩ := (mem_front_iff hperm hbefore hfirstNot).mp hpFront
    refine ⟨p, hpRows, hpid, ?_⟩
    rcases hle with rfl | hlt
    · exact hcheaper
    · exact hcheaper.trans hlt
  · intro h before u after hkept hnot r hr hpreferred
    obtain ⟨hplace, front, back, rfl, rfl⟩ := keepFew_split _ hkept
    rw [length_front hperm hbefore hnot] at hplace
    have hu : u ∈ rows := hperm.mem_iff.mp (mem_append_right _ mem_cons_self)
    obtain ⟨p, hp, hpid, hcheaper⟩ := h u hu hnot hplace r hr hpreferred
    have hfront := (mem_front_iff hperm hbefore hnot).mpr ⟨hp, hcheaper⟩
    have hprovider : r.providerId ∈ (keepDistinct [] front).map SwitchRow.providerId :=
      mem_keepDistinct_provider.mpr ⟨hpid ▸ mem_map_of_mem hfront, not_mem_nil⟩
    exact mem_map.mp hprovider

theorem preferredFirst_of_first (hbefore : sorted.Pairwise (Before options))
    (hfirst : ∀ before u after, keepFew options sorted = before ++ u :: after →
      ¬ Preferred options u → ∀ r ∈ rows, Preferred options r →
        ∃ p ∈ before, p.providerId = r.providerId) :
    PreferredFirst options rows (keepFew options sorted) where
  few := keepFew_le
  distinct := nodup_keepFew options sorted
  first := hfirst
  ranked := by
    have hproviders := pairwise_map.mp (nodup_keepFew options sorted)
    refine ((hbefore.sublist (keepFew_sublist sorted)).and hproviders).imp ?_
    rintro a b ⟨hab, hne⟩ ha hb
    rcases hab with ⟨-, hrank⟩ | ⟨hapart, -⟩
    · exact hrank
    · exact absurd ⟨ha, hb, hne⟩ hapart
  rest := (hbefore.sublist (keepFew_sublist sorted)).imp fun {_ _} hab hnot _ =>
    hab.cheaper_left hnot

theorem preferredFirst_nil (options : ProviderSwitchRuntimeOptions) (rows : List SwitchRow) :
    PreferredFirst options rows [] where
  few := fun h => absurd rfl h
  distinct := nodup_nil
  first := fun before _ _ h => by cases before <;> cases h
  ranked := List.Pairwise.nil
  rest := List.Pairwise.nil

/-- **Without a cycle there has to be none**: an engine may put the row that closes it first. -/
theorem acyclic_of_first (hplace : HasPlace options 0)
    (h : ∀ sort, Conforms sort →
      PreferredFirst options rows (keepFew options (sort (rowOrder options) rows))) :
    Acyclic options rows := by
  intro p hp q hq u hu hpPreferred hqPreferred hrank hnot ⟨hqu, hup⟩
  obtain ⟨front, back, hrows⟩ := append_of_mem hu
  have hperm : (u :: (front ++ back)).Perm rows := hrows ▸ perm_middle.symm
  obtain ⟨sort, hsort, heq⟩ := exists_conforms
    (not_consistent hp hq hu hpPreferred hqPreferred hrank hnot hqu hup) hperm
  obtain ⟨after, hkept⟩ := keepFew_append [] (front ++ back) u
    (fun _ hmem => absurd hmem not_mem_nil) hplace
  have hfirst := (h sort hsort).first [] u after (by rw [heq]; exact hkept) hnot p hp hpPreferred
  obtain ⟨_, hmem, -⟩ := hfirst
  exact not_mem_nil hmem

end Kept

/-- **Preferred providers come first**, whatever the engine, iff the policy is strict,
    the list has no place, or the costs have no cycle and put them first. -/
theorem preferred_first_iff (registry : ProviderRegistry) (source : RouteCandidate)
    (request : SwitchRequest) (options : ProviderSwitchRuntimeOptions)
    (pricing : Option PricingTable) :
    (∀ sort, Conforms sort → PreferredFirst options
      (switchRows registry source request options pricing)
      (candidateRows sort registry source request options pricing)) ↔
    options.policy = .strict ∨ ¬ HasPlace options 0 ∨
      Acyclic options (switchRows registry source request options pricing) ∧
        CheapFirst options (switchRows registry source request options pricing) := by
  have hnumbered := numbered_switchRows registry source request options pricing
  unfold candidateRows
  generalize switchRows registry source request options pricing = rows at hnumbered ⊢
  by_cases hstrict : options.policy = .strict
  · refine iff_of_true (fun sort _ => ?_) (.inl hstrict)
    rw [if_pos hstrict]
    exact preferredFirst_nil options rows
  · simp only [hstrict, false_or]
    by_cases hplace : HasPlace options 0
    · rw [or_iff_right (not_not_intro hplace)]
      constructor
      · intro h
        have hacyclic := acyclic_of_first hplace h
        have hbefore := pairwise_before conforms_sortBy hnumbered
          (consistent_of_acyclic hnumbered hacyclic)
        have hperm : (sortBy (rowOrder options) rows).Perm rows := sortBy_perm rows
        exact ⟨hacyclic, (first_iff hperm hbefore).mp (h sortBy conforms_sortBy).first⟩
      · rintro ⟨hacyclic, hcheap⟩ sort hsort
        have hbefore := pairwise_before hsort hnumbered (consistent_of_acyclic hnumbered hacyclic)
        exact preferredFirst_of_first hbefore ((first_iff (hsort.perm _ rows) hbefore).mpr hcheap)
    · refine iff_of_true (fun sort _ => ?_) (.inl hplace)
      have hempty : keepFew options (sort (rowOrder options) rows) = [] := by
        cases hkept : keepFew options (sort (rowOrder options) rows) with
        | nil => rfl
        | cons u after => exact absurd (keepFew_split [] hkept).1 hplace
      rw [hempty]
      exact preferredFirst_nil options rows

/-! ## A preferred provider behind a cheaper one -/

section Behind

/-- A provider with one model of that price. -/
def pricedEntry (id : String) (price : ℚ) (hprice : 0 ≤ price) : RegistryEntry where
  id
  caps := { models := [{
    id := id ++ "-model"
    pricing := some {
      inputPerMTok := price
      outputPerMTok := price
      input_nonneg := hprice
      output_nonneg := hprice
      rates_nonneg := by simp } }] }

/-- The source, a provider that is preferred, and one that is cheaper. -/
def pricedRegistry : ProviderRegistry where
  entries := [pricedEntry "source" 5 (by decide), pricedEntry "chosen" 10 (by decide),
    pricedEntry "cheap" 1 (by decide)]
  ids_nodup := by decide

/-- The candidate that failed. -/
def failedSource : RouteCandidate :=
  { providerId := "source", modelId := "source-model", reason := .explicit }

/-- One user turn. -/
def helloRequest : SwitchRequest := { messages := userText "hello" }

/-- The options that prefer a provider. -/
def choosing : ProviderSwitchRuntimeOptions :=
  { policy := .fallback, preferredProviders := some ["chosen"] }

/-- **The preferred provider is not first**: a cheaper one is. -/
theorem preferred_behind : ¬ ∀ (registry : ProviderRegistry) (source : RouteCandidate)
    (request : SwitchRequest) (options : ProviderSwitchRuntimeOptions)
    (pricing : Option PricingTable)
    (sort : (SwitchRow → SwitchRow → ℚ) → List SwitchRow → List SwitchRow), Conforms sort →
    PreferredFirst options (switchRows registry source request options pricing)
      (candidateRows sort registry source request options pricing) := by
  intro h
  have hfirst := (h pricedRegistry failedSource helloRequest choosing none sortBy
    conforms_sortBy).first
  have hkept : (candidateRows sortBy pricedRegistry failedSource helloRequest choosing none).map
      SwitchRow.providerId = ["cheap", "chosen"] := by decide +kernel
  have hrows : (switchRows pricedRegistry failedSource helloRequest choosing none).map
      SwitchRow.providerId = ["chosen", "cheap"] := by decide +kernel
  obtain ⟨u, after, hlist, hu, -⟩ := map_eq_cons_iff.mp hkept
  obtain ⟨r, rest, hlist', hr, -⟩ := map_eq_cons_iff.mp hrows
  have hnot : ¬ Preferred choosing u := by
    rw [Preferred, hu]
    decide
  have hpreferred : Preferred choosing r := by
    rw [Preferred, hr]
    decide
  obtain ⟨_, hmem, -⟩ := hfirst [] u after hlist hnot r (hlist' ▸ mem_cons_self) hpreferred
  exact not_mem_nil hmem

end Behind

end NexusCode.Switching
