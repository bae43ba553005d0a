/-
  Loading the configuration: the layers, and what is removed from the project's.

  `stripUntrustedSpawnFields` deletes launch recipes from fixed places of the project document.  In
  the end it changes five of its top-level values and nothing else (`strip_eq`).
-/
import NexusCode.Config.Merge

namespace NexusCode.Config

open Lib JsObject List Option

/-! ## Launch recipes in the project -/

/-- `isPlainObject(e) && typeof e["command"] === "string"`. -/
def hasCommand (e : Json) : Bool :=
  match e.get? "command" with
  | some (.str _) => true
  | _ => false

/-- The deletion of a field of a top-level object, where it is set. -/
def dropField (section_ field : String) (project : Layer) : Layer × List String :=
  match Json.field? section_ project with
  | some (.obj fields) =>
    if (Json.field? field fields).isSome then
      (Json.setField section_ (.obj (fields.filter fun f => f.1 ≠ field)) project,
        [section_ ++ "." ++ field])
    else (project, [])
  | _ => (project, [])

/-- The removal of the entries with a command from a top-level array. -/
def dropCommands (section_ label : String) (project : Layer) : Layer × List String :=
  match Json.field? section_ project with
  | some (.arr items) =>
    let kept := items.filter fun e => !hasCommand e
    if kept.length ≠ items.length then (Json.setField section_ (.arr kept) project, [label])
    else (project, [])
  | _ => (project, [])

/-- `plugins["scanNodeModules"] = false`, where it is set. -/
def forceScanOff (project : Layer) : Layer × List String :=
  match Json.field? "plugins" project with
  | some (.obj fields) =>
    if (Json.field? "scanNodeModules" fields).isSome then
      (Json.setField "plugins" (.obj (Json.setField "scanNodeModules" (.bool false) fields))
        project, ["plugins.scanNodeModules"])
    else (project, [])
  | _ => (project, [])

/-- One step after others, with the labels of what was dropped. -/
def andThen (step : Layer → Layer × List String) (before : Layer × List String) :
    Layer × List String :=
  ((step before.1).1, before.2 ++ (step before.1).2)

/-- `stripUntrustedSpawnFields(project)`: the project after it, and the names dropped. -/
def stripUntrustedSpawnFields (project : Layer) : Layer × List String :=
  andThen forceScanOff <|
  andThen (dropField "plugins" "dirs") <|
  andThen (dropField "hooks" "hooks") <|
  andThen (dropCommands "providers" "providers[command]") <|
  andThen (dropCommands "mcp" "mcp[stdio]") <|
  dropField "lsp" "servers" project

/-! ## The layers -/

/-- `ConfigLayer`. -/
inductive ConfigLayer where
  | defaults
  | user
  | project
  | env
  | flags
deriving DecidableEq

/-- A variable that is set and not empty. -/
def truthy (value : Option String) : Option String := value.filter fun v => v ≠ ""

/-- `envOverrides(env)`. -/
def envOverrides (env : String → Option String) : Layer :=
  let provider := (truthy (env "NEXUS_DEFAULT_PROVIDER")).map fun v => ("defaultProvider", Json.str v)
  let model := (truthy (env "NEXUS_DEFAULT_MODEL")).map fun v => ("defaultModel", Json.str v)
  let effort := ((env "NEXUS_DEFAULT_EFFORT").filter fun v => !JsString.isBlank v).map fun v =>
    ("defaultEffort", Json.str (JsString.trim v))
  let approval := ((env "NEXUS_APPROVAL").filter fun v =>
    v = "auto" || v = "confirm" || v = "dry-run").map fun v => ("approval", Json.str v)
  let dbPath := (truthy (env "NEXUS_HISTORY_DB")).map fun v => ("dbPath", Json.str v)
  let off := ((env "NEXUS_HISTORY_DISABLED").filter fun v => v = "1" || v = "true").map fun _ =>
    ("enabled", Json.bool false)
  let history := dbPath.toList ++ off.toList
  provider.toList ++ model.toList ++ effort.toList ++ approval.toList ++
    if history.isEmpty then [] else [("history", .obj history)]

/-- What the layers of one call are: the documents found, the environment and the flags; no flags
    when `opts.flags` has no keys. -/
structure Sources where
  user : Option Layer
  project : Option Layer
  env : String → Option String
  flags : Option Layer

/-- `{}`. -/
def emptyConfig : JsObject := built [] objectPrototype

/-- A layer merged in, if it is there. -/
def withLayer (merged : JsObject) : Option Layer → JsObject
  | some layer => deepMerge merged layer
  | none => merged

/-- The environment as a layer, if it sets anything. -/
def envLayer (env : String → Option String) : Option Layer :=
  if (envOverrides env).isEmpty then none else some (envOverrides env)

/-- What the user's document alone configures. -/
def userConfig (s : Sources) : JsObject := withLayer emptyConfig s.user

/-- With the project's document. -/
def projectConfig (s : Sources) : JsObject :=
  withLayer (userConfig s) (s.project.map fun p => (stripUntrustedSpawnFields p).1)

/-- `merged`: what `loadConfig` hands to the validator first. -/
def mergedConfig (s : Sources) : JsObject :=
  withLayer (withLayer (projectConfig s) (envLayer s.env)) s.flags

/-- `layers`. -/
def contributing (s : Sources) : List ConfigLayer :=
  [.defaults] ++ (s.user.map fun _ => .user).toList ++ (s.project.map fun _ => .project).toList ++
    ((envLayer s.env).map fun _ => .env).toList ++ (s.flags.map fun _ => .flags).toList

/-! ## What is removed -/

/-- One top-level value changed. -/
def mapAt (k : String) (g : Json → Json) (layer : Layer) : Layer :=
  layer.map fun f => (f.1, if f.1 = k then g f.2 else f.2)

/-- A field deleted from an object. -/
def without (field : String) : Json → Json
  | .obj fields => .obj (fields.filter fun f => f.1 ≠ field)
  | v => v

/-- The entries with a command removed from an array. -/
def withoutCommands : Json → Json
  | .arr items => .arr (items.filter fun e => !hasCommand e)
  | v => v

/-- `scanNodeModules` off where it is set. -/
def scanOff : Json → Json
  | .obj fields => .obj (mapAt "scanNodeModules" (fun _ => .bool false) fields)
  | v => v

theorem keys_mapAt (k : String) (g : Json → Json) (layer : Layer) :
    (mapAt k g layer).map Prod.fst = layer.map Prod.fst := by
  unfold mapAt
  rw [List.map_map]
  rfl

theorem field?_mapAt (k : String) (g : Json → Json) (k' : String) : ∀ layer : Layer,
    Json.field? k' (mapAt k g layer) =
      if k' = k then (Json.field? k' layer).map g else Json.field? k' layer
  | [] => by
    unfold mapAt
    split <;> rfl
  | (k₁, v) :: rest => by
    show (if k₁ = k' then some (if k₁ = k then g v else v) else Json.field? k' (mapAt k g rest)) = _
    rw [field?_mapAt k g k' rest, field?_cons]
    by_cases h₁ : k₁ = k'
    · subst h₁
      simp only [if_true]
      split <;> rfl
    · simp only [if_neg h₁]

theorem mapAt_of_absent {k : String} (g : Json → Json) {layer : Layer}
    (h : k ∉ layer.map Prod.fst) : mapAt k g layer = layer := by
  unfold mapAt
  refine (map_congr_left fun f hf => ?_).trans (List.map_id layer)
  have hne : f.1 ≠ k := fun heq => h (heq ▸ mem_map_of_mem hf)
  rw [if_neg hne]
  rfl

/-- Setting a property that is there changes its value in place. -/
theorem setField_eq_mapAt {k : String} {v w : Json} : ∀ {layer : Layer},
    (layer.map Prod.fst).Nodup → Json.field? k layer = some v → ∀ {g : Json → Json}, g v = w →
      Json.setField k w layer = mapAt k g layer
  | [], _, h, _, _ => nomatch h
  | (k₁, v₁) :: rest, hnodup, h, g, hg => by
    rw [map_cons, nodup_cons] at hnodup
    rw [field?_cons] at h
    show (if k₁ = k then (k, w) :: rest else (k₁, v₁) :: Json.setField k w rest) =
      (k₁, if k₁ = k then g v₁ else v₁) :: mapAt k g rest
    by_cases hk : k₁ = k
    · subst hk
      rw [if_pos rfl] at h
      obtain rfl := some.inj h
      rw [if_pos rfl, if_pos rfl, hg, mapAt_of_absent g hnodup.1]
    · rw [if_neg hk] at h
      rw [if_neg hk, if_neg hk, setField_eq_mapAt hnodup.2 h hg]

theorem mapAt_of_fixed {k : String} {g : Json → Json} {layer : Layer}
    (hnodup : (layer.map Prod.fst).Nodup) (h : ∀ v, Json.field? k layer = some v → g v = v) :
    mapAt k g layer = layer := by
  unfold mapAt
  refine (map_congr_left fun f hf => ?_).trans (List.map_id layer)
  obtain ⟨k', v⟩ := f
  by_cases hk : k' = k
  · subst hk
    rw [if_pos rfl, h v ((Json.field?_eq_some hnodup).mpr hf)]
    rfl
  · rw [if_neg hk]
    rfl

theorem filter_of_absent {field : String} {fields : Layer} (h : Json.field? field fields = none) :
    fields.filter (fun f => f.1 ≠ field) = fields := by
  refine filter_eq_self.mpr fun f hf => decide_eq_true fun heq => ?_
  exact Json.field?_eq_none.mp h (heq ▸ mem_map_of_mem hf)

section Strip

variable {project : Layer} (hnodup : (project.map Prod.fst).Nodup)

include hnodup

theorem dropField_eq (section_ field : String) :
    (dropField section_ field project).1 = mapAt section_ (without field) project := by
  unfold dropField
  split
  · rename_i fields hfields
    split
    · exact setField_eq_mapAt hnodup hfields rfl
    · rename_i hnone
      refine (mapAt_of_fixed hnodup fun v hv => ?_).symm
      obtain rfl := some.inj (hfields.symm.trans hv)
      exact congrArg Json.obj (filter_of_absent (not_isSome_iff_eq_none.mp hnone))
  · rename_i hother
    refine (mapAt_of_fixed hnodup fun v hv => ?_).symm
    cases v with
    | obj fields => exact absurd hv (hother fields)
    | null => rfl
    | bool b => rfl
    | num x => rfl
    | str s => rfl
    | arr items => rfl

theorem dropCommands_eq (section_ label : String) :
    (dropCommands section_ label project).1 = mapAt section_ withoutCommands project := by
  unfold dropCommands
  split
  · rename_i items hitems
    dsimp only
    split
    · exact setField_eq_mapAt hnodup hitems rfl
    · rename_i hsame
      refine (mapAt_of_fixed hnodup fun v hv => ?_).symm
      obtain rfl := some.inj (hitems.symm.trans hv)
      exact congrArg Json.arr
        (List.filter_sublist.eq_of_length (not_not.mp hsame))
  · rename_i hother
    refine (mapAt_of_fixed hnodup fun v hv => ?_).symm
    cases v with
    | arr items => exact absurd hv (hother items)
    | null => rfl
    | bool b => rfl
    | num x => rfl
    | str s => rfl
    | obj fields => rfl

theorem forceScanOff_eq
    (hplugins : ∀ fields, Json.field? "plugins" project = some (.obj fields) →
      (fields.map Prod.fst).Nodup) :
    (forceScanOff project).1 = mapAt "plugins" scanOff project := by
  unfold forceScanOff
  split
  · rename_i fields hfields
    split
    · rename_i hset
      obtain ⟨v, hv⟩ := isSome_iff_exists.mp hset
      refine setField_eq_mapAt hnodup hfields (congrArg Json.obj ?_)
      exact (setField_eq_mapAt (hplugins fields hfields) hv rfl).symm
    · rename_i hnone
      refine (mapAt_of_fixed hnodup fun v hv => ?_).symm
      obtain rfl := some.inj (hfields.symm.trans hv)
      refine congrArg Json.obj (mapAt_of_absent _ ?_)
      exact Json.field?_eq_none.mp (not_isSome_iff_eq_none.mp hnone)
  · rename_i hother
    refine (mapAt_of_fixed hnodup fun v hv => ?_).symm
    cases v with
    | obj fields => exact absurd hv (hother fields)
    | null => rfl
    | bool b => rfl
    | num x => rfl
    | str s => rfl
    | arr items => rfl

end Strip

/-- **What is stripped.**  Five top-level values change, each by its own function. -/
theorem strip_eq {project : Layer} (hvalue : Json.IsValue (.obj project)) :
    (stripUntrustedSpawnFields project).1 =
      mapAt "plugins" scanOff (mapAt "plugins" (without "dirs") (mapAt "hooks" (without "hooks")
        (mapAt "providers" withoutCommands (mapAt "mcp" withoutCommands
          (mapAt "lsp" (without "servers") project))))) := by
  have hnodup : (project.map Prod.fst).Nodup := hvalue.1
  have h₁ := dropField_eq hnodup "lsp" "servers"
  have h₂ := @dropCommands_eq _ (by rw [keys_mapAt]; exact hnodup :
    ((mapAt "lsp" (without "servers") project).map Prod.fst).Nodup) "mcp" "mcp[stdio]"
  have h₃ := @dropCommands_eq _ (by rw [keys_mapAt, keys_mapAt]; exact hnodup :
    ((mapAt "mcp" withoutCommands (mapAt "lsp" (without "servers") project)).map
      Prod.fst).Nodup) "providers" "providers[command]"
  have h₄ := @dropField_eq _ (by rw [keys_mapAt, keys_mapAt, keys_mapAt]; exact hnodup :
    ((mapAt "providers" withoutCommands (mapAt "mcp" withoutCommands
      (mapAt "lsp" (without "servers") project))).map Prod.fst).Nodup) "hooks" "hooks"
  have h₅ := @dropField_eq _ (by rw [keys_mapAt, keys_mapAt, keys_mapAt, keys_mapAt]; exact hnodup :
    ((mapAt "hooks" (without "hooks") (mapAt "providers" withoutCommands
      (mapAt "mcp" withoutCommands (mapAt "lsp" (without "servers") project)))).map
        Prod.fst).Nodup) "plugins" "dirs"
  have h₆ := @forceScanOff_eq (mapAt "plugins" (without "dirs") (mapAt "hooks" (without "hooks")
    (mapAt "providers" withoutCommands (mapAt "mcp" withoutCommands
      (mapAt "lsp" (without "servers") project)))))
    (by rw [keys_mapAt, keys_mapAt, keys_mapAt, keys_mapAt, keys_mapAt]; exact hnodup) ?_
  · unfold stripUntrustedSpawnFields andThen
    dsimp only
    rw [h₁, h₂, h₃, h₄, h₅, h₆]
  · intro fields hfields
    simp only [field?_mapAt, if_true, show ("plugins" : String) ≠ "hooks" by decide,
      show ("plugins" : String) ≠ "providers" by decide, show ("plugins" : String) ≠ "mcp" by decide,
      show ("plugins" : String) ≠ "lsp" by decide, if_false] at hfields
    obtain ⟨v, hv, hvw⟩ := map_eq_some_iff.mp hfields
    cases v with
    | obj inner =>
      obtain rfl := Json.obj.inj hvw
      have hinner := Json.isValue_of_get? hvalue (show (Json.obj project).get? "plugins" = _ from hv)
      exact hinner.1.sublist (List.filter_sublist.map _)
    | null => nomatch hvw
    | bool b => nomatch hvw
    | num x => nomatch hvw
    | str s => nomatch hvw
    | arr items => nomatch hvw

end NexusCode.Config
