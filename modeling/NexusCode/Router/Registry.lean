/-
  The provider registry, as the router and the switch planner read it.

  A registry is the map of `ProviderRegistry`: the entries in the order of their registration, one
  for each id.
-/
import NexusCode.Billing.Cost
import NexusCode.Lib.JsNumber

namespace NexusCode.Router

open Lib Billing

/-- A kind of content a model takes. -/
inductive Modality where
  | text
  | image
  | audio
deriving DecidableEq

/-- `ModelInfo`. -/
structure ModelInfo where
  id : String
  aliases : Option (List String) := none
  contextWindow : Option JsNumber := none
  maxOutput : Option JsNumber := none
  pricing : Option Pricing := none
  modalities : Option (List Modality) := none

/-- `Capabilities`, without the way a run is cancelled. -/
structure Capabilities where
  models : List ModelInfo
  streaming : Bool := false
  tools : Bool := false
  parallelToolCalls : Bool := false
  vision : Bool := false
  audio : Bool := false
  embeddings : Bool := false
  structuredOutput : Bool := false
  reasoning : Bool := false
  systemPrompt : Bool := false
  fileEdit : Bool := false
  shellExec : Bool := false
  git : Bool := false
  approvalGate : Bool := false
  mcp : Bool := false

/-- `TransportKind`. -/
inductive TransportKind where
  | httpSdk
  | httpOpenaiCompat
  | cliSubprocess
deriving DecidableEq

/-- `RegistryEntry`, with the id and the transport of its adapter and the `ok` of its health. -/
structure RegistryEntry where
  id : String
  transport : TransportKind := .httpSdk
  caps : Capabilities
  health : Option Bool := none

/-- `ProviderRegistry`: registering an id twice is an error. -/
structure ProviderRegistry where
  entries : List RegistryEntry
  ids_nodup : (entries.map (·.id)).Nodup

/-- `byId.get(id)`. -/
def ProviderRegistry.entry? (registry : ProviderRegistry) (id : String) : Option RegistryEntry :=
  registry.entries.find? fun e => e.id = id

/-- `const m = caps.models.find(…)`: a model by its id or an alias. -/
def modelInfo (caps : Capabilities) (modelId : String) : Option ModelInfo :=
  caps.models.find? fun model => model.id = modelId ∨ modelId ∈ model.aliases.getD []

/-- Every provider advertises distinct model ids. -/
def ProviderRegistry.DistinctModels (registry : ProviderRegistry) : Prop :=
  ∀ e ∈ registry.entries, (e.caps.models.map (·.id)).Nodup

end NexusCode.Router
