/-
  Roles, grants and their glob patterns.

  A pattern is compiled to a regular expression that leaves `?` as it is, so `a?` also matches the
  empty text and a pattern that starts with `?` is no expression at all: compiling it raises a
  `SyntaxError`, which nothing catches.  A check is `none` where that happens.  The compiled
  expressions work on code units.

    1. `matchesPattern`, `matchesAny` — patterns.
    2. `RoleStore.resolveRoleNames`   — the roles of a principal, with what they inherit.
    3. `RoleStore.explain`            — the decision.
    4. **`explain_of_perm`**          — the order of a principal's roles does not matter for the
       answer, unless a check raises an error for some order.

  The directory of principals is left out: no decision reads it.
-/
import NexusCode.Lib.JsMap
import NexusCode.Lib.JsString
import NexusCode.Lib.Worklist

namespace NexusCode.Access

open Lib List Option

/-! ## Patterns -/

/-- A part of a compiled pattern. -/
inductive Item where
  | unit (u : Nat)
  | optional (u : Nat)
  /-- `.*`, greedy or not. -/
  | run

/-- `new RegExp` of the escaped pattern; `none` is the `SyntaxError` of a `?` with nothing to
    repeat. -/
def compile : List Nat → Option (List Item)
  | [] => some []
  | 63 :: _ => none
  | 42 :: 63 :: 63 :: _ => none
  | 42 :: 63 :: rest => (compile rest).map (.run :: ·)
  | 42 :: rest => (compile rest).map (.run :: ·)
  | u :: 63 :: 63 :: rest => (compile rest).map (.optional u :: ·)
  | u :: 63 :: rest => (compile rest).map (.optional u :: ·)
  | u :: rest => (compile rest).map (.unit u :: ·)

/-- `.` does not match line terminators. -/
def isTerminator (u : Nat) : Bool := u = 10 || u = 13 || u = 0x2028 || u = 0x2029

/-- Do the items match the whole text? -/
def matchItems : List Item → List Nat → Bool
  | [], s => s.isEmpty
  | .unit u :: items, s => s.head? == some u && matchItems items s.tail
  | .optional u :: items, s =>
    matchItems items s || s.head? == some u && matchItems items s.tail
  | .run :: items, s => (List.range (s.length + 1)).any fun n =>
    (s.take n).all (fun u => !isTerminator u) && matchItems items (s.drop n)

/-- `matchesPattern(pattern, value)`. -/
def matchesPattern (pattern value : String) : Option Bool :=
  (compile (JsString.units pattern)).map fun items => matchItems items (JsString.units value)

/-- `matchesAny(patterns, value)`. -/
def matchesAny (patterns : List String) (value : String) : Option Bool :=
  match patterns with
  | [] => some false
  | pattern :: rest => do
    if ← matchesPattern pattern value then some true else matchesAny rest value

/-- `list.includes("*") || matchesAny(list, value)`. -/
def includesOrMatches (patterns : List String) (value : String) : Option Bool :=
  if "*" ∈ patterns then some true else matchesAny patterns value

example : matchesPattern "tool:*" "tool:fs_write" = some true := by decide +kernel
example : matchesPattern "ab?" "a" = some true := by decide +kernel
example : matchesPattern "?" "a" = none := by decide +kernel

/-! ## Roles -/

/-- `Grant`. -/
structure Grant where
  actions : List String
  resources : List String

/-- `Role`. -/
structure Role where
  name : String
  grants : List Grant
  inherits : Option (List String) := none

/-- `Principal`. -/
structure Principal where
  id : String
  roles : List String

/-- `RbacDecision`. -/
structure RbacDecision where
  allowed : Bool
  reason : String
  role : Option String := none
  grant : Option Grant := none

/-- `RESOURCE_TYPES`. -/
def resourceTypes : List String := ["provider", "model", "tool", "command", "agent-role"]

/-- `parseResource(resource)`. -/
def parseResource (resource : String) : Option (String × String) :=
  let type := resource.toList.takeWhile (· ≠ ':')
  match resource.toList.dropWhile (· ≠ ':') with
  | [] => none
  | _ :: id =>
    if type.isEmpty || id.isEmpty then none
    else if String.ofList type ∈ resourceTypes then some (String.ofList type, String.ofList id)
    else none

/-- `grantMatches(grant, action, resource)`. -/
def grantMatches (grant : Grant) (action resource : String) : Option Bool := do
  if ← includesOrMatches grant.actions action then includesOrMatches grant.resources resource
  else some false

/-- `RoleStore`. -/
structure RoleStore where
  roles : JsMap String Role
  defaultRole : String

namespace RoleStore

variable (store : RoleStore)

/-- The parents of a role, for a role of the store. -/
def parents (name : String) : Option (List String) :=
  (store.roles.get? name).map fun role => role.inherits.getD []

/-- The roles and what they inherit, as a graph. -/
def graph : Worklist.Graph String where
  nodes := store.roles.entries.map Prod.fst
  successors := store.parents
  mem_nodes name ws h _ := by
    obtain ⟨role, hrole, -⟩ := map_eq_some_iff.mp h
    exact List.mem_map_of_mem (f := Prod.fst) ((store.roles.mem_entries name role).mpr hrole)

/-- The roles the search starts from. -/
def startRoles (roles : List String) : List String :=
  let seed := roles.filter fun name => (store.roles.get? name).isSome
  if seed.isEmpty then [store.defaultRole] else seed

/-- `resolveRoleNames(principal)`. -/
def resolveRoleNames (principal : Principal) : List String :=
  let start := (store.startRoles principal.roles).reverse
  (Worklist.search
    (fun seen name => (store.parents name).map fun inherits => inherits.filter (· ∉ seen))
    (fun _ => false) (store.graph.budget start []) start []).2

/-- The first grant of a role that matches. -/
def firstGrant (action resource : String) : List Grant → Option (Option Grant)
  | [] => some none
  | grant :: rest => do
    if ← grantMatches grant action resource then some (some grant)
    else firstGrant action resource rest

/-- The loop over the roles. -/
def firstRole (action resource : String) : List String → Option (Option (String × Grant))
  | [] => some none
  | name :: rest => do
    match ← firstGrant action resource (((store.roles.get? name).map (·.grants)).getD []) with
    | some grant => some (some (name, grant))
    | none => firstRole action resource rest

/-- `explain(principal, action, resource)`. -/
def explain (principal : Principal) (action resource : String) : Option RbacDecision :=
  if (parseResource resource).isNone then
    some { allowed := false
           reason := "malformed resource \"" ++ resource ++ "\" (expected type:id) — denied" }
  else do
    match ← store.firstRole action resource (store.resolveRoleNames principal) with
    | some (name, grant) =>
      some { allowed := true
             reason := "role \"" ++ name ++ "\" grants " ++ action ++ " on " ++ resource
             role := some name
             grant := some grant }
    | none =>
      some { allowed := false
             reason := "no role of principal \"" ++ principal.id ++ "\" grants " ++ action ++
               " on " ++ resource ++ " — denied (fail closed)" }

/-! ## The order of roles -/

theorem expands : store.graph.Expands fun seen name =>
    (store.parents name).map fun inherits => inherits.filter (· ∉ seen) where
  none _ name h := by
    show (store.parents name).map _ = none
    rw [show store.parents name = none from h]
    rfl
  some seen name ws h := by
    refine ⟨ws.filter (· ∉ seen), ?_, length_filter_le _ _, filter_subset_self _, ?_⟩
    · show (store.parents name).map _ = _
      rw [show store.parents name = some ws from h]
      rfl
    · intro w hw
      by_cases hseen : w ∈ seen
      · exact .inr hseen
      · exact .inl (mem_filter.mpr ⟨hw, decide_eq_true hseen⟩)

/-- **The roles of a principal** are those of the store that can be reached. -/
theorem mem_resolveRoleNames (principal : Principal) (name : String) :
    name ∈ store.resolveRoleNames principal ↔
      store.parents name ≠ none ∧ store.graph.Reaches (store.startRoles principal.roles) name := by
  refine (Worklist.mem_search store.expands le_rfl name).trans (and_congr_right fun _ => ?_)
  exact exists_congr fun s => and_congr_left fun _ => mem_reverse

theorem mem_resolveRoleNames_of_perm {principal : Principal} {roles : List String}
    (h : roles.Perm principal.roles) (name : String) :
    name ∈ store.resolveRoleNames { principal with roles } ↔
      name ∈ store.resolveRoleNames principal := by
  have hseed : (roles.filter fun name => (store.roles.get? name).isSome).Perm
      (principal.roles.filter fun name => (store.roles.get? name).isSome) := h.filter _
  have hstart : ∀ s, s ∈ store.startRoles roles ↔ s ∈ store.startRoles principal.roles := by
    intro s
    unfold startRoles
    dsimp only
    rw [hseed.isEmpty_eq]
    split
    · exact Iff.rfl
    · exact hseed.mem_iff
  rw [mem_resolveRoleNames, mem_resolveRoleNames]
  exact and_congr_right fun _ => exists_congr fun s => and_congr_left fun _ => hstart s

/-- A grant of a role matches. -/
def Grants (action resource name : String) : Prop :=
  ∃ grant, firstGrant action resource (((store.roles.get? name).map (·.grants)).getD []) =
    some (some grant)

/-- Where no check raises an error, some role grants, or none does. -/
theorem firstRole_spec {action resource : String} : ∀ {names : List String}
    {found : Option (String × Grant)}, store.firstRole action resource names = some found →
    (found.isSome ↔ ∃ name ∈ names, store.Grants action resource name)
  | [], _, h => by
    obtain rfl := some.inj h
    exact ⟨nofun, fun ⟨_, h, _⟩ => nomatch h⟩
  | name :: rest, found, h => by
    rw [firstRole] at h
    obtain ⟨first, hfirst, h⟩ := bind_eq_some_iff.mp h
    cases first with
    | some grant =>
      obtain rfl := some.inj h
      exact ⟨fun _ => ⟨name, mem_cons_self, grant, hfirst⟩, fun _ => rfl⟩
    | none =>
      rw [firstRole_spec h]
      constructor
      · rintro ⟨name', hname', hgrants⟩
        exact ⟨name', mem_cons_of_mem name hname', hgrants⟩
      · rintro ⟨name', hname', grant, hgrants⟩
        rcases mem_cons.mp hname' with rfl | hname'
        · rw [hfirst] at hgrants
          nomatch hgrants
        · exact ⟨name', hname', grant, hgrants⟩

theorem explain_spec {principal : Principal} {action resource : String} {decision : RbacDecision}
    (h : store.explain principal action resource = some decision) :
    decision.allowed = true ↔ parseResource resource ≠ none ∧
      ∃ name ∈ store.resolveRoleNames principal, store.Grants action resource name := by
  unfold explain at h
  split at h
  · rename_i hmalformed
    rw [← some.inj h]
    refine ⟨nofun, fun h => absurd ?_ h.1⟩
    exact isNone_iff_eq_none.mp hmalformed
  · rename_i hparsed
    rw [isNone_iff_eq_none] at hparsed
    obtain ⟨found, hfound, h⟩ := bind_eq_some_iff.mp h
    rw [← store.firstRole_spec hfound]
    cases found with
    | some role =>
      rw [← some.inj h]
      exact ⟨fun _ => ⟨hparsed, rfl⟩, fun _ => rfl⟩
    | none =>
      rw [← some.inj h]
      exact ⟨nofun, fun h => nomatch h.2⟩

/-- **The answer does not depend on the order of a principal's roles.** -/
theorem explain_of_perm {principal : Principal} {roles : List String} {action resource : String}
    {decision decision' : RbacDecision} (hperm : roles.Perm principal.roles)
    (h : store.explain principal action resource = some decision)
    (h' : store.explain { principal with roles } action resource = some decision') :
    decision'.allowed = decision.allowed := by
  rw [Bool.eq_iff_iff, store.explain_spec h, store.explain_spec h']
  refine and_congr_right fun _ => exists_congr fun name => and_congr_left fun _ => ?_
  exact store.mem_resolveRoleNames_of_perm hperm name

end RoleStore

end NexusCode.Access
