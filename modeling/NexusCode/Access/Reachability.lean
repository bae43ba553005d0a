/-
  A role check is reachability.

  A principal holds the roles of the store that it names, or the default role if it names none of
  them, and what these inherit, over roles of the store.  `can` should be true exactly if the
  resource is well formed and a held role has a grant that matches both the action and the resource.
  It is, unless a pattern that does not compile is reached before such a grant.

  1. `Held`                   — the roles of a principal, by rules.
  2. `grantMatches_spec`      — what a grant matches.
  3. `iterate_round_nil`      — the search ends (in the library).
  4. **`can_iff_reachable`**  — when `can` is reachability.
-/
import NexusCode.Access.Roles

namespace NexusCode.Access

open Lib List Option

/-! ## Grants -/

/-- A pattern of the list matches; `*` matches anything. -/
def Listed (patterns : List String) (value : String) : Prop :=
  ∃ pattern ∈ patterns, pattern = "*" ∨ matchesPattern pattern value = some true

/-- The grant matches the action and the resource. -/
def GrantMatches (grant : Grant) (action resource : String) : Prop :=
  Listed grant.actions action ∧ Listed grant.resources resource

theorem matchesAny_spec {value : String} : ∀ {patterns : List String} {matched : Bool},
    matchesAny patterns value = some matched →
      (matched = true ↔ ∃ pattern ∈ patterns, matchesPattern pattern value = some true)
  | [], _, h => by
    obtain rfl := some.inj h
    exact ⟨nofun, fun ⟨_, h, _⟩ => (nomatch h)⟩
  | pattern :: rest, matched, h => by
    rw [matchesAny] at h
    obtain ⟨first, hfirst, h⟩ := bind_eq_some_iff.mp h
    cases first with
    | true =>
      obtain rfl := some.inj h
      exact ⟨fun _ => ⟨pattern, .head _, hfirst⟩, fun _ => rfl⟩
    | false =>
      rw [matchesAny_spec h]
      constructor
      · exact fun ⟨p, hp, hmatch⟩ => ⟨p, .tail _ hp, hmatch⟩
      · rintro ⟨p, hp, hmatch⟩
        rcases mem_cons.mp hp with rfl | hp
        · rw [hfirst] at hmatch
          nomatch hmatch
        · exact ⟨p, hp, hmatch⟩

theorem includesOrMatches_spec {patterns : List String} {value : String} {matched : Bool}
    (h : includesOrMatches patterns value = some matched) :
    matched = true ↔ Listed patterns value := by
  unfold includesOrMatches at h
  split at h
  · rename_i hstar
    obtain rfl := some.inj h
    exact ⟨fun _ => ⟨"*", hstar, .inl rfl⟩, fun _ => rfl⟩
  · rename_i hstar
    rw [matchesAny_spec h]
    refine exists_congr fun pattern => and_congr_right fun hpattern => ?_
    exact ⟨.inr, fun h => h.resolve_left fun heq => hstar (heq ▸ hpattern)⟩

/-- **A check of a grant that raises no error** says whether it matches. -/
theorem grantMatches_spec {grant : Grant} {action resource : String} {matched : Bool}
    (h : grantMatches grant action resource = some matched) :
    matched = true ↔ GrantMatches grant action resource := by
  obtain ⟨first, hfirst, h⟩ := bind_eq_some_iff.mp h
  have hactions := includesOrMatches_spec hfirst
  unfold GrantMatches
  rw [← hactions]
  cases first with
  | true => exact (includesOrMatches_spec h).trans ⟨fun h => ⟨rfl, h⟩, And.right⟩
  | false =>
    obtain rfl := some.inj h
    exact ⟨nofun, fun h => (nomatch h.1)⟩

namespace RoleStore

variable {store : RoleStore} {principal : Principal} {action resource : String}

/-! ## Held roles -/

/-- The role is one of the store. -/
def Known (store : RoleStore) (name : String) : Prop := store.roles.get? name ≠ none

/-- The principal holds the role. -/
inductive Held (store : RoleStore) (principal : Principal) : String → Prop
  | named {name : String} (hname : name ∈ principal.roles) (hknown : store.Known name) :
      Held store principal name
  | fallback (hnone : ∀ name ∈ principal.roles, ¬ store.Known name)
      (hknown : store.Known store.defaultRole) : Held store principal store.defaultRole
  | inherited {name parent : String} {role : Role} (hheld : Held store principal name)
      (hrole : store.roles.get? name = some role) (hparent : parent ∈ role.inherits.getD [])
      (hknown : store.Known parent) : Held store principal parent

theorem parents_ne_none {name : String} : store.parents name ≠ none ↔ store.Known name := by
  unfold parents Known
  rw [Ne, map_eq_none_iff]

theorem mem_startRoles {roles : List String} {name : String} : name ∈ store.startRoles roles ↔
    (name ∈ roles ∧ store.Known name) ∨
      ((∀ r ∈ roles, ¬ store.Known r) ∧ name = store.defaultRole) := by
  have hknown : ∀ r, (store.roles.get? r).isSome = true ↔ store.Known r :=
    fun r => isSome_iff_ne_none
  unfold startRoles
  dsimp only
  split
  · rename_i hempty
    have hnone : ∀ r ∈ roles, ¬ store.Known r := fun r hr hk => by
      have hmem : r ∈ roles.filter fun name => (store.roles.get? name).isSome :=
        mem_filter.mpr ⟨hr, (hknown r).mpr hk⟩
      rw [List.isEmpty_iff.mp hempty] at hmem
      nomatch hmem
    rw [mem_singleton]
    exact ⟨fun h => .inr ⟨hnone, h⟩, fun h => h.elim (fun h => absurd h.2 (hnone _ h.1)) And.right⟩
  · rename_i hsome
    rw [mem_filter, hknown]
    refine ⟨.inl, fun h => h.resolve_right fun ⟨hnone, _⟩ => hsome ?_⟩
    rw [List.isEmpty_iff, filter_eq_nil_iff]
    exact fun r hr hk => hnone r hr ((hknown r).mp hk)

/-- **The roles the search finds are the held ones.** -/
theorem mem_resolveRoleNames_iff {name : String} :
    name ∈ store.resolveRoleNames principal ↔ Held store principal name := by
  rw [mem_resolveRoleNames, parents_ne_none]
  constructor
  · rintro ⟨hknown, s, hs, hreach⟩
    induction hreach with
    | refl =>
      rcases mem_startRoles.mp hs with ⟨hname, hknown⟩ | ⟨hnone, rfl⟩
      · exact .named hname hknown
      · exact .fallback hnone hknown
    | tail _ hedge ih =>
      obtain ⟨ws, hws, hw⟩ := hedge
      obtain ⟨role, hrole, rfl⟩ := map_eq_some_iff.mp hws
      refine .inherited (ih ?_) hrole hw hknown
      rw [Known, hrole]
      exact some_ne_none role
  · intro h
    induction h with
    | @named name hname hknown =>
      exact ⟨hknown, name, mem_startRoles.mpr (.inl ⟨hname, hknown⟩), .refl⟩
    | fallback hnone hknown =>
      exact ⟨hknown, _, mem_startRoles.mpr (.inr ⟨hnone, rfl⟩), .refl⟩
    | @inherited name parent role _ hrole hparent hknown ih =>
      obtain ⟨-, s, hs, hreach⟩ := ih
      refine ⟨hknown, s, hs, hreach.tail ⟨role.inherits.getD [], ?_, hparent⟩⟩
      show store.parents name = _
      rw [parents, hrole]
      rfl

/-! ## The search ends -/

/-- One round of the loop of `resolveRoleNames`. -/
def round (store : RoleStore) : List String × List String → List String × List String :=
  Worklist.round fun seen name =>
    (store.parents name).map fun inherits => inherits.filter (· ∉ seen)

/-- **The search ends**: after some rounds nothing is stacked, and the roles are found. -/
theorem exists_rounds (store : RoleStore) (principal : Principal) :
    ∃ n, store.round^[n] ((store.startRoles principal.roles).reverse, []) =
      ([], store.resolveRoleNames principal) := by
  refine ⟨store.graph.budget (store.startRoles principal.roles).reverse [], Prod.ext ?_ ?_⟩
  · exact Worklist.iterate_round_nil store.expands _ _ _ le_rfl
  · exact (Worklist.search_eq_iterate _ _ _).symm

/-! ## The check -/

/-- The grants that are checked, in order. -/
def grantsOf (store : RoleStore) (names : List String) : List Grant :=
  names.flatMap fun name => ((store.roles.get? name).map (·.grants)).getD []

/-- A grant whose check raises an error stands behind one that matches. -/
def Clear (action resource : String) (grants : List Grant) : Prop :=
  ∀ front grant rest, grants = front ++ grant :: rest →
    grantMatches grant action resource = none →
      ∃ g ∈ front, grantMatches g action resource = some true

theorem clear_nil : Clear action resource [] := fun front grant rest h _ => by
  cases front <;> nomatch h

theorem clear_cons_iff {grant : Grant} {rest : List Grant} :
    Clear action resource (grant :: rest) ↔ grantMatches grant action resource = some true ∨
      (grantMatches grant action resource = some false ∧ Clear action resource rest) := by
  constructor
  · intro h
    cases hfirst : grantMatches grant action resource with
    | none =>
      obtain ⟨_, hg, _⟩ := h [] grant rest rfl hfirst
      nomatch hg
    | some matched =>
      cases matched with
      | true => exact .inl rfl
      | false =>
        refine .inr ⟨rfl, fun front g rest' heq herror => ?_⟩
        obtain ⟨g', hg', hmatch⟩ := h (grant :: front) g rest' (by rw [heq]; rfl) herror
        rcases mem_cons.mp hg' with rfl | hg'
        · rw [hfirst] at hmatch
          nomatch hmatch
        · exact ⟨g', hg', hmatch⟩
  · rintro h front g rest' heq herror
    cases front with
    | nil =>
      obtain ⟨rfl, -⟩ := cons.inj heq
      rcases h with h | ⟨h, -⟩
      · rw [herror] at h
        nomatch h
      · rw [herror] at h
        nomatch h
    | cons first front =>
      obtain ⟨rfl, hrest⟩ := cons.inj heq
      rcases h with h | ⟨-, h⟩
      · exact ⟨_, .head _, h⟩
      · obtain ⟨g', hg', hmatch⟩ := h front g rest' hrest herror
        exact ⟨g', .tail _ hg', hmatch⟩

/-- The checks of a list of grants end in an error, or in the first one that matches. -/
theorem firstGrant_append {grants : List Grant} {found : Option Grant}
    (h : firstGrant action resource grants = some found) {rest : List Grant} :
    Clear action resource (grants ++ rest) ↔ found.isSome ∨ Clear action resource rest := by
  induction grants with
  | nil =>
    obtain rfl := some.inj h
    exact ⟨.inr, fun h => h.resolve_left nofun⟩
  | cons grant grants ih =>
    rw [firstGrant] at h
    obtain ⟨matched, hmatched, h⟩ := bind_eq_some_iff.mp h
    rw [cons_append, clear_cons_iff, hmatched]
    cases matched with
    | true =>
      obtain rfl := some.inj h
      exact ⟨fun _ => .inl rfl, fun _ => .inl rfl⟩
    | false =>
      rw [← ih h]
      exact ⟨fun h => h.elim nofun And.right, fun h => .inr ⟨rfl, h⟩⟩

theorem firstGrant_eq_none {grants : List Grant}
    (h : firstGrant action resource grants = none) (rest : List Grant) :
    ¬ Clear action resource (grants ++ rest) := by
  induction grants with
  | nil => nomatch h
  | cons grant grants ih =>
    rw [firstGrant] at h
    rw [cons_append, clear_cons_iff]
    cases hmatched : grantMatches grant action resource with
    | none => exact fun h => h.elim nofun fun h => (nomatch h.1)
    | some matched =>
      rw [hmatched] at h
      cases matched with
      | true => nomatch h
      | false => exact fun hclear => ih h (hclear.elim nofun And.right)

/-- **The check of the roles ends in an error exactly if one is not behind a match.** -/
theorem firstRole_ne_none_iff (names : List String) :
    store.firstRole action resource names ≠ none ↔
      Clear action resource (store.grantsOf names) := by
  induction names with
  | nil => exact iff_of_true (some_ne_none _) clear_nil
  | cons name names ih =>
    rw [firstRole, grantsOf, flatMap_cons, ← grantsOf]
    cases hfirst : firstGrant action resource (((store.roles.get? name).map (·.grants)).getD []) with
    | none => exact iff_of_false (fun h => h rfl) (firstGrant_eq_none hfirst _)
    | some found =>
      rw [firstGrant_append hfirst, ← ih]
      cases found with
      | none => exact ⟨.inr, fun h => h.resolve_left Bool.false_ne_true⟩
      | some grant => exact iff_of_true (some_ne_none _) (.inl rfl)

theorem mem_grantsOf {names : List String} {grant : Grant} : grant ∈ store.grantsOf names ↔
    ∃ name ∈ names, ∃ role, store.roles.get? name = some role ∧ grant ∈ role.grants := by
  unfold grantsOf
  rw [mem_flatMap]
  refine exists_congr fun name => and_congr_right fun _ => ?_
  cases store.roles.get? name with
  | none => exact ⟨nofun, fun ⟨_, h, _⟩ => (nomatch h)⟩
  | some role =>
    constructor
    · exact fun h => ⟨role, rfl, h⟩
    · rintro ⟨role', heq, h⟩
      obtain rfl := some.inj heq
      exact h

theorem firstGrant_spec {found : Option Grant} : ∀ {grants : List Grant},
    firstGrant action resource grants = some found →
      (found.isSome ↔ ∃ grant ∈ grants, GrantMatches grant action resource)
  | [], h => by
    obtain rfl := some.inj h
    exact ⟨nofun, fun ⟨_, h, _⟩ => (nomatch h)⟩
  | grant :: rest, h => by
    rw [firstGrant] at h
    obtain ⟨matched, hmatched, h⟩ := bind_eq_some_iff.mp h
    have hspec := grantMatches_spec hmatched
    cases matched with
    | true =>
      obtain rfl := some.inj h
      exact ⟨fun _ => ⟨grant, .head _, hspec.mp rfl⟩, fun _ => rfl⟩
    | false =>
      rw [firstGrant_spec h]
      constructor
      · exact fun ⟨g, hg, hmatch⟩ => ⟨g, .tail _ hg, hmatch⟩
      · rintro ⟨g, hg, hmatch⟩
        rcases mem_cons.mp hg with rfl | hg
        · exact absurd (hspec.mpr hmatch) Bool.false_ne_true
        · exact ⟨g, hg, hmatch⟩

/-- A check without an error finds a grant exactly if some grant matches. -/
theorem firstRole_grants {found : Option (String × Grant)} : ∀ {names : List String},
    store.firstRole action resource names = some found →
      (found.isSome ↔ ∃ grant ∈ store.grantsOf names, GrantMatches grant action resource)
  | [], h => by
    obtain rfl := some.inj h
    exact iff_of_false Bool.false_ne_true (by simp [grantsOf])
  | name :: rest, h => by
    rw [firstRole] at h
    obtain ⟨first, hfirst, h⟩ := bind_eq_some_iff.mp h
    have hspec := firstGrant_spec hfirst
    rw [grantsOf, flatMap_cons, ← grantsOf]
    simp only [mem_append, or_and_right, exists_or]
    rw [← hspec]
    cases first with
    | some grant =>
      obtain rfl := some.inj h
      exact ⟨fun _ => .inl rfl, fun _ => rfl⟩
    | none =>
      rw [firstRole_grants h]
      exact ⟨.inr, fun h => h.resolve_left Bool.false_ne_true⟩

/-- `can(principal, action, resource)`. -/
def can (store : RoleStore) (principal : Principal) (action resource : String) : Option Bool :=
  (store.explain principal action resource).map (·.allowed)

/-- The resource is well formed, and a held role has a grant that matches the action and the
    resource. -/
def Reachable (store : RoleStore) (principal : Principal) (action resource : String) : Prop :=
  parseResource resource ≠ none ∧ ∃ name role grant, Held store principal name ∧
    store.roles.get? name = some role ∧ grant ∈ role.grants ∧ GrantMatches grant action resource

/-- **`can` is reachability**, its search ends, and its answer is the one by the rules exactly if no
    check raises an error before a grant matches. -/
theorem can_iff_reachable (store : RoleStore) (principal : Principal) (action resource : String) :
    (∃ n, store.round^[n] ((store.startRoles principal.roles).reverse, []) =
      ([], store.resolveRoleNames principal)) ∧
    ((∃ allowed, store.can principal action resource = some allowed ∧
        (allowed = true ↔ Reachable store principal action resource)) ↔
      (parseResource resource ≠ none →
        Clear action resource (store.grantsOf (store.resolveRoleNames principal)))) := by
  refine ⟨store.exists_rounds principal, ?_⟩
  have hheld : (∃ grant ∈ store.grantsOf (store.resolveRoleNames principal),
      GrantMatches grant action resource) ↔ ∃ name role grant, Held store principal name ∧
        store.roles.get? name = some role ∧ grant ∈ role.grants ∧
        GrantMatches grant action resource := by
    constructor
    · rintro ⟨grant, hgrant, hmatch⟩
      obtain ⟨name, hname, role, hrole, hgrant⟩ := mem_grantsOf.mp hgrant
      exact ⟨name, role, grant, mem_resolveRoleNames_iff.mp hname, hrole, hgrant, hmatch⟩
    · rintro ⟨name, role, grant, hname, hrole, hgrant, hmatch⟩
      exact ⟨grant, mem_grantsOf.mpr ⟨name, mem_resolveRoleNames_iff.mpr hname, role, hrole, hgrant⟩,
        hmatch⟩
  unfold can explain Reachable
  cases hparse : parseResource resource with
  | none =>
    refine iff_of_true ⟨false, rfl, ?_⟩ fun h => absurd rfl h
    exact ⟨nofun, fun h => absurd rfl h.1⟩
  | some parsed =>
    rw [if_neg (by exact nofun), ← hheld, ← firstRole_ne_none_iff]
    cases hfound : store.firstRole action resource (store.resolveRoleNames principal) with
    | none =>
      constructor
      · rintro ⟨_, h, _⟩
        nomatch h
      · exact fun h => absurd rfl (h (some_ne_none parsed))
    | some found =>
      refine iff_of_true ?_ fun _ => some_ne_none found
      have hspec := firstRole_grants hfound
      cases found with
      | none =>
        exact ⟨false, rfl, nofun, fun h => absurd (hspec.mpr h.2) Bool.false_ne_true⟩
      | some grant =>
        exact ⟨true, rfl, fun _ => ⟨some_ne_none parsed, hspec.mp rfl⟩, fun _ => rfl⟩

/-! ## A pattern that does not compile -/

/-- A role with such a pattern before a grant of its own. -/
def brokenStore : RoleStore where
  roles := (JsMap.empty : JsMap String Role).set "developer" {
    name := "developer"
    grants := [
      { actions := ["?"], resources := ["*"] },
      { actions := ["read"], resources := ["*"] }] }
  defaultRole := "default"

/-- The role grants reading, and the check of it raises an error. -/
theorem broken_grant_raises :
    brokenStore.can { id := "u", roles := ["developer"] } "read" "tool:x" = none ∧
    Reachable brokenStore { id := "u", roles := ["developer"] } "read" "tool:x" := by
  have hread : matchesPattern "read" "read" = some true := by decide +kernel
  refine ⟨by decide +kernel, by decide +kernel, "developer", _, _, .named (.head _) ?_, rfl,
    .tail _ (.head _), ⟨"read", .head _, .inr hread⟩, "*", .head _, .inl rfl⟩
  exact nofun

end RoleStore

end NexusCode.Access
