/-
  Withholding context never gains access, and the order of rules and roles does not matter.

  A request with less context satisfies fewer allow rules and escapes fewer deny rules, so what it
  may do, the full request may.  That holds whatever the patterns are.  The answer itself is the
  same for every order of the rules and roles, unless compiling a pattern raises an error: then it
  depends on whether the pattern is reached before a rule decides.

    1. `Fires`, `Permits`      — a rule decides.
    2. `answer_cases`          — where a decision comes from; so **`granted_iff`**.
    3. `authorize_withheld`    — less context, less access.
    4. **`authorize_stable_iff`**; `order_decides` is a rule set where the order matters.
-/
import NexusCode.Access.Policy

namespace NexusCode.Access

open Lib List Option

variable (time : HostTime) (req : AuthorizationRequest)

/-! ## Rules that decide -/

/-- The rule is a deny that applies. -/
def Fires (rule : PolicyRule) : Prop :=
  structuralMatch rule req = some true ∧ rule.effect = .deny ∧
    evaluateConditions time rule.conditions req ≠ .unsatisfied

/-- The rule is an allow that applies. -/
def Permits (rule : PolicyRule) : Prop :=
  structuralMatch rule req = some true ∧ rule.effect = .allow ∧
    evaluateConditions time rule.conditions req = .satisfied

/-- What the rules come to: a deny that fires decides; otherwise all of them are checked without an
    error, and an allow decides, or none does. -/
def Decided (time : HostTime) (req : AuthorizationRequest) (firstAllow : Option PolicyRule)
    (rules : List PolicyRule) (decision : PolicyDecision) : Prop :=
  (∃ rule ∈ rules, Fires time req rule) ∧ decision.matchedRule.map (·.effect) = some .deny ∨
  (∀ rule ∈ rules, structuralMatch rule req ≠ none ∧ ¬ Fires time req rule) ∧
    (decision.allowed = true ∧ decision.matchedRule.map (·.effect) = some .allow ∧
        (firstAllow.isSome ∨ ∃ rule ∈ rules, Permits time req rule) ∨
      decision.matchedRule = none ∧ firstAllow = none ∧ ∀ rule ∈ rules, ¬ Permits time req rule)

variable {time req}

variable {rule : PolicyRule}

theorem Decided.skip {firstAllow : Option PolicyRule} {rest : List PolicyRule}
    {decision : PolicyDecision} (hmatch : structuralMatch rule req ≠ none)
    (hfires : ¬ Fires time req rule) (hpermits : ¬ Permits time req rule)
    (h : Decided time req firstAllow rest decision) :
    Decided time req firstAllow (rule :: rest) decision := by
  rcases h with ⟨⟨r, hr, hr'⟩, heffect⟩ | ⟨hrest, hdecides⟩
  · exact Or.inl ⟨⟨r, mem_cons_of_mem rule hr, hr'⟩, heffect⟩
  · refine Or.inr ⟨forall_mem_cons.mpr ⟨⟨hmatch, hfires⟩, hrest⟩, ?_⟩
    rcases hdecides with ⟨hallowed, heffect, hfound⟩ | ⟨hnone, hfirst, hnot⟩
    · exact Or.inl ⟨hallowed, heffect, hfound.imp_right fun ⟨r, hr, hr'⟩ =>
        ⟨r, mem_cons_of_mem rule hr, hr'⟩⟩
    · exact Or.inr ⟨hnone, hfirst, forall_mem_cons.mpr ⟨hpermits, hnot⟩⟩

/-- **The loop over the rules comes to that.** -/
theorem evaluateFrom_decided : ∀ {rules : List PolicyRule} {firstAllow : Option PolicyRule}
    {decision : PolicyDecision}, (∀ rule ∈ firstAllow, rule.effect = .allow) →
    evaluateFrom time req firstAllow rules = some decision →
    Decided time req firstAllow rules decision
  | [], firstAllow, decision, hallow, h => by
    obtain rfl := some.inj h
    refine Or.inr ⟨fun _ => nofun, ?_⟩
    cases firstAllow with
    | none => exact Or.inr ⟨rfl, rfl, fun _ => nofun⟩
    | some rule => exact Or.inl ⟨rfl, congrArg some (hallow rule rfl), Or.inl rfl⟩
  | rule :: rest, firstAllow, decision, hallow, h => by
    rw [evaluateFrom] at h
    obtain ⟨isMatch, hmatch, h⟩ := bind_eq_some_iff.mp h
    have hchecked : structuralMatch rule req ≠ none := by
      rw [hmatch]
      exact some_ne_none isMatch
    cases isMatch with
    | false =>
      have hno : ¬ structuralMatch rule req = some true := by
        rw [hmatch]
        exact fun h => nomatch h
      exact (evaluateFrom_decided hallow h).skip hchecked (fun hf => hno hf.1) fun hp => hno hp.1
    | true =>
      dsimp only at h
      cases heffect : rule.effect with
      | deny =>
        rw [if_pos rfl, heffect] at h
        dsimp only at h
        split at h
        · rename_i hunsat
          refine (evaluateFrom_decided hallow h).skip hchecked (fun hf => hf.2.2 hunsat) fun hp => ?_
          have := hp.2.1
          rw [heffect] at this
          nomatch this
        · rename_i happlies
          obtain rfl := some.inj h
          exact Or.inl ⟨⟨rule, mem_cons_self, hmatch, heffect, happlies⟩,
            congrArg some heffect⟩
      | allow =>
        rw [if_pos rfl, heffect] at h
        dsimp only at h
        have hfires : ¬ Fires time req rule := fun hf => by
          have := hf.2.1
          rw [heffect] at this
          nomatch this
        split at h
        · rename_i hsat
          have hpermits : Permits time req rule := ⟨hmatch, heffect, hsat⟩
          have hallow' : ∀ r ∈ (firstAllow <|> some rule), r.effect = .allow := by
            intro r hr
            cases firstAllow with
            | none => rw [← some.inj hr, heffect]
            | some first => exact hallow r hr
          rcases evaluateFrom_decided hallow' h with ⟨⟨r, hr, hr'⟩, hdeny⟩ | ⟨hrest, hdecides⟩
          · exact Or.inl ⟨⟨r, mem_cons_of_mem rule hr, hr'⟩, hdeny⟩
          · refine Or.inr ⟨forall_mem_cons.mpr
              ⟨⟨hchecked, hfires⟩, hrest⟩, Or.inl ?_⟩
            rcases hdecides with ⟨hallowed, hmatched, -⟩ | ⟨-, hfirst, -⟩
            · exact ⟨hallowed, hmatched, Or.inr ⟨rule, mem_cons_self, hpermits⟩⟩
            · cases firstAllow <;> nomatch hfirst
        · rename_i hunsat
          exact (evaluateFrom_decided hallow h).skip hchecked hfires fun hp => hunsat hp.2.2

/-- Where every rule is checked without an error, there is a decision. -/
theorem evaluateFrom_isSome : ∀ {rules : List PolicyRule} (firstAllow : Option PolicyRule),
    (∀ rule ∈ rules, structuralMatch rule req ≠ none) →
    ∃ decision, evaluateFrom time req firstAllow rules = some decision
  | [], _, _ => ⟨_, rfl⟩
  | rule :: rest, firstAllow, h => by
    obtain ⟨hrule, hrest⟩ := forall_mem_cons.mp h
    obtain ⟨isMatch, hmatch⟩ := ne_none_iff_exists'.mp hrule
    rw [evaluateFrom, hmatch]
    cases isMatch with
    | false => exact evaluateFrom_isSome firstAllow hrest
    | true =>
      dsimp only
      cases rule.effect with
      | deny =>
        dsimp only
        split
        · exact evaluateFrom_isSome firstAllow hrest
        · exact ⟨_, rfl⟩
      | allow =>
        dsimp only
        split
        · exact evaluateFrom_isSome _ hrest
        · exact evaluateFrom_isSome firstAllow hrest

theorem noneYet : ∀ rule ∈ (none : Option PolicyRule), rule.effect = .allow :=
  fun _ => nofun

/-! ## Decisions -/

/-- The allowed / denied answer; `none` is an error. -/
def Authorizer.answer (authorizer : Authorizer) (time : HostTime) (req : AuthorizationRequest) :
    Option Bool := (authorizer.authorize time req).map (·.allowed)

variable {authorizer : Authorizer}

/-- No rule of the authorizer raises an error, and no deny fires. -/
def Authorizer.Undenied (authorizer : Authorizer) (time : HostTime) (req : AuthorizationRequest) :
    Prop :=
  ∀ rule ∈ authorizer.evaluator.rules, structuralMatch rule req ≠ none ∧ ¬ Fires time req rule

/-- **Where an answer comes from**: a deny that fires, an allow, or the roles. -/
theorem answer_cases {allowed : Bool} (h : authorizer.answer time req = some allowed) :
    (∃ rule ∈ authorizer.evaluator.rules, Fires time req rule) ∧ allowed = false ∨
    authorizer.Undenied time req ∧
      ((∃ rule ∈ authorizer.evaluator.rules, Permits time req rule) ∧ allowed = true ∨
        (∀ rule ∈ authorizer.evaluator.rules, ¬ Permits time req rule) ∧
          ∃ rbac, authorizer.roleStore.explain req.principal req.action req.resource = some rbac ∧
            allowed = rbac.allowed) := by
  obtain ⟨decision, hdecision, rfl⟩ := map_eq_some_iff.mp h
  obtain ⟨policy, hpolicy, hsettle⟩ := bind_eq_some_iff.mp hdecision
  unfold Authorizer.settle at hsettle
  dsimp only at hsettle
  rcases evaluateFrom_decided noneYet hpolicy with
    ⟨hfires, heffect⟩ | ⟨hquiet, ⟨hallowed, heffect, hfound⟩ | ⟨hnone, -, hpermits⟩⟩
  · rw [if_pos heffect] at hsettle
    exact Or.inl ⟨hfires, by rw [← some.inj hsettle]⟩
  · rw [heffect, hallowed] at hsettle
    refine Or.inr ⟨hquiet, Or.inl ⟨?_, by rw [← some.inj hsettle]⟩⟩
    exact hfound.resolve_left fun h => nomatch h
  · rw [hnone] at hsettle
    obtain ⟨rbac, hrbac, rfl⟩ := map_eq_some_iff.mp hsettle
    exact Or.inr ⟨hquiet, Or.inr ⟨hpermits, rbac, hrbac, rfl⟩⟩

theorem answer_isSome
    (hrules : ∀ rule ∈ authorizer.evaluator.rules, structuralMatch rule req ≠ none)
    (hroles : (∀ rule ∈ authorizer.evaluator.rules, ¬ Fires time req rule ∧ ¬ Permits time req rule) →
      authorizer.roleStore.explain req.principal req.action req.resource ≠ none) :
    ∃ allowed, authorizer.answer time req = some allowed := by
  obtain ⟨policy, hpolicy⟩ := evaluateFrom_isSome none hrules
  obtain ⟨decision, hsettle⟩ : ∃ decision, authorizer.settle req policy = some decision := by
    unfold Authorizer.settle
    dsimp only
    rcases evaluateFrom_decided noneYet hpolicy with
      ⟨-, heffect⟩ | ⟨hquiet, ⟨hallowed, heffect, -⟩ | ⟨hnone, -, hpermits⟩⟩
    · exact ⟨_, if_pos heffect⟩
    · rw [heffect, hallowed]
      exact ⟨_, rfl⟩
    · rw [hnone]
      obtain ⟨rbac, hrbac⟩ := ne_none_iff_exists'.mp
        (hroles fun rule hrule => ⟨(hquiet rule hrule).2, hpermits rule hrule⟩)
      rw [hrbac]
      exact ⟨_, rfl⟩
  refine ⟨decision.allowed, ?_⟩
  unfold Authorizer.answer Authorizer.authorize PolicyEvaluator.evaluate
  rw [hpolicy, bind_some, hsettle]
  rfl

/-- **Who gets access**: exactly a request that no rule denies or fails on, and that a rule permits
    or the roles allow. -/
theorem granted_iff (authorizer : Authorizer) (time : HostTime) (req : AuthorizationRequest) :
    authorizer.answer time req = some true ↔ authorizer.Undenied time req ∧
      ((∃ rule ∈ authorizer.evaluator.rules, Permits time req rule) ∨
        ∃ rbac, authorizer.roleStore.explain req.principal req.action req.resource = some rbac ∧
          rbac.allowed = true) := by
  constructor
  · intro h
    rcases answer_cases h with ⟨-, hfalse⟩ | ⟨hquiet, ⟨hpermits, -⟩ | ⟨-, rbac, hrbac, hallowed⟩⟩
    · cases hfalse
    · exact ⟨hquiet, .inl hpermits⟩
    · exact ⟨hquiet, .inr ⟨rbac, hrbac, hallowed.symm⟩⟩
  · rintro ⟨hquiet, hgrants⟩
    obtain ⟨allowed, hanswer⟩ := answer_isSome (fun rule hrule => (hquiet rule hrule).1)
      fun hnone hrbac => by
        rcases hgrants with ⟨rule, hrule, hpermits⟩ | ⟨rbac, hsome, -⟩
        · exact (hnone rule hrule).2 hpermits
        · exact some_ne_none rbac (hsome.symm.trans hrbac)
    rw [hanswer]
    rcases answer_cases hanswer with
      ⟨⟨rule, hrule, hfires⟩, -⟩ | ⟨-, ⟨-, rfl⟩ | ⟨hnot, rbac, hrbac, rfl⟩⟩
    · exact absurd hfires (hquiet rule hrule).2
    · rfl
    · rcases hgrants with ⟨rule, hrule, hpermits⟩ | ⟨rbac', hrbac', hallowed⟩
      · exact absurd hpermits (hnot rule hrule)
      · rw [some.inj (hrbac.symm.trans hrbac'), hallowed]

/-! ## Less context -/

/-- The request without the cost, the data class, or both. -/
def AuthorizationRequest.withhold (cost dataClass : Bool) (req : AuthorizationRequest) :
    AuthorizationRequest :=
  { req with
    context := req.context.map fun ctx =>
      { ctx with
        costUsd := if cost then none else ctx.costUsd
        dataClass := if dataClass then none else ctx.dataClass } }

/-- **A condition that is decided without the context is decided the same with it.** -/
theorem evaluateConditions_withhold (conditions : Option PolicyConditions) (cost dataClass : Bool)
    (h : evaluateConditions time conditions (req.withhold cost dataClass) ≠ .unknown) :
    evaluateConditions time conditions req =
      evaluateConditions time conditions (req.withhold cost dataClass) := by
  cases conditions with
  | none => rfl
  | some conditions =>
    obtain ⟨principal, action, resource, context⟩ := req
    cases context with
    | none => rfl
    | some ctx =>
      obtain ⟨cap, win, classes⟩ := conditions
      obtain ⟨spent, now, given⟩ := ctx
      unfold evaluateConditions AuthorizationRequest.withhold at *
      dsimp only [map_some, getD_some] at h ⊢
      cases cost with
      | false =>
        cases dataClass with
        | false => rfl
        | true => cases classes <;> cases given <;> grind
      | true =>
        cases dataClass with
        | false => cases cap <;> cases spent <;> grind
        | true => cases classes <;> cases given <;> cases cap <;> cases spent <;> grind

theorem fires_withhold {cost dataClass : Bool} (h : Fires time req rule) :
    Fires time (req.withhold cost dataClass) rule := by
  refine ⟨h.1, h.2.1, fun hunsat => h.2.2 ?_⟩
  rw [evaluateConditions_withhold _ cost dataClass (by rw [hunsat]; decide), hunsat]

theorem permits_of_withhold {cost dataClass : Bool}
    (h : Permits time (req.withhold cost dataClass) rule) : Permits time req rule := by
  refine ⟨h.1, h.2.1, ?_⟩
  rw [evaluateConditions_withhold _ cost dataClass (by rw [h.2.2]; decide), h.2.2]

/-- **Withholding context never gains access**, whatever the patterns are. -/
theorem authorize_withheld (authorizer : Authorizer) (time : HostTime) (req : AuthorizationRequest)
    (cost dataClass : Bool)
    (h : authorizer.answer time (req.withhold cost dataClass) = some true) :
    authorizer.answer time req = some true := by
  rcases answer_cases h with ⟨-, hfalse⟩ | ⟨hquiet, hdecides⟩
  · nomatch hfalse
  have hquiet' : authorizer.Undenied time req := fun rule hrule =>
    ⟨(hquiet rule hrule).1, fun hfires => (hquiet rule hrule).2 (fires_withhold hfires)⟩
  have hroles : (∀ rule ∈ authorizer.evaluator.rules, ¬ Permits time req rule) →
      ∃ rbac, authorizer.roleStore.explain req.principal req.action req.resource = some rbac ∧
        true = rbac.allowed := by
    intro hnot
    rcases hdecides with ⟨⟨rule, hrule, hpermits⟩, -⟩ | ⟨-, hrbac⟩
    · exact absurd (permits_of_withhold hpermits) (hnot rule hrule)
    · exact hrbac
  obtain ⟨allowed, hanswer⟩ := answer_isSome 
    (fun rule hrule => (hquiet' rule hrule).1) fun hnone => by
      obtain ⟨rbac, hrbac, -⟩ := hroles fun rule hrule => (hnone rule hrule).2
      rw [hrbac]
      exact some_ne_none rbac
  rw [hanswer]
  rcases answer_cases hanswer with ⟨⟨rule, hrule, hfires⟩, -⟩ | ⟨-, ⟨-, rfl⟩ | ⟨hnot, rbac, hrbac, rfl⟩⟩
  · exact absurd hfires (hquiet' rule hrule).2
  · rfl
  · obtain ⟨rbac', hrbac', hallowed⟩ := hroles hnot
    rw [some.inj (hrbac.symm.trans hrbac'), hallowed]

/-! ## The order of rules and roles -/

/-- The rules that match the request, or raise an error. -/
def relevant (req : AuthorizationRequest) (rules : List PolicyRule) : List PolicyRule :=
  rules.filter fun rule => structuralMatch rule req ≠ some false

/-- The request with the principal's roles in another order. -/
def AuthorizationRequest.withRoles (req : AuthorizationRequest) (roles : List String) :
    AuthorizationRequest := { req with principal := { req.principal with roles } }

/-- The authorizer with other rules. -/
def Authorizer.withRules (authorizer : Authorizer) (rules : List PolicyRule) : Authorizer :=
  { authorizer with evaluator := { rules } }

/-- There is an answer, and it stays the same when the rules and the roles are reordered and rules
    that do not match are added or dropped. -/
def Authorizer.OrderIrrelevant (authorizer : Authorizer) (time : HostTime)
    (req : AuthorizationRequest) : Prop :=
  ∃ allowed, ∀ rules roles,
    (relevant req rules).Perm (relevant req authorizer.evaluator.rules) →
    roles.Perm req.principal.roles →
    (authorizer.withRules rules).answer time (req.withRoles roles) = some allowed

/-- The patterns of the rules compile, as far as the request meets them, and where no rule has an
    opinion those of the roles do, in whatever order the roles are searched. -/
structure Authorizer.PatternsCompile (authorizer : Authorizer) (time : HostTime)
    (req : AuthorizationRequest) : Prop where
  rules : ∀ rule ∈ authorizer.evaluator.rules, structuralMatch rule req ≠ none
  roles : (∀ rule ∈ authorizer.evaluator.rules, ¬ Fires time req rule ∧ ¬ Permits time req rule) →
    ∀ roles, roles.Perm req.principal.roles →
      authorizer.roleStore.explain { req.principal with roles } req.action req.resource ≠ none

variable {roles : List String}

theorem structuralMatch_withRoles (h : roles.Perm req.principal.roles)
    (rule : PolicyRule) : structuralMatch rule (req.withRoles roles) = structuralMatch rule req := by
  have hsubject : subjectMatches rule (req.withRoles roles) = subjectMatches rule req := by
    unfold subjectMatches AuthorizationRequest.withRoles
    dsimp only
    rw [h.any_eq]
  unfold structuralMatch
  rw [hsubject]
  rfl

theorem fires_withRoles (h : roles.Perm req.principal.roles)
    (rule : PolicyRule) : Fires time (req.withRoles roles) rule ↔ Fires time req rule := by
  unfold Fires
  rw [structuralMatch_withRoles h]
  exact Iff.rfl

theorem permits_withRoles (h : roles.Perm req.principal.roles)
    (rule : PolicyRule) : Permits time (req.withRoles roles) rule ↔ Permits time req rule := by
  unfold Permits
  rw [structuralMatch_withRoles h]
  exact Iff.rfl

/-- A rule that is not passed over is in every list of rules with the same relevant ones. -/
theorem mem_of_relevant {rules rules' : List PolicyRule}
    (h : (relevant req rules).Perm (relevant req rules')) (hrule : rule ∈ rules)
    (hmatch : structuralMatch rule req ≠ some false) : rule ∈ rules' :=
  (mem_filter.mp (h.mem_iff.mp (mem_filter.mpr ⟨hrule, decide_eq_true hmatch⟩))).1

section Reordered

variable {rules : List PolicyRule} {roles : List String}
  (hrules : (relevant req rules).Perm (relevant req authorizer.evaluator.rules))
  (hroles : roles.Perm req.principal.roles)

include hrules hroles

theorem fires_reordered : (∃ rule ∈ rules, Fires time (req.withRoles roles) rule) ↔
    ∃ rule ∈ authorizer.evaluator.rules, Fires time req rule := by
  constructor
  · rintro ⟨rule, hrule, hfires⟩
    rw [fires_withRoles hroles] at hfires
    exact ⟨rule, mem_of_relevant hrules hrule (by rw [hfires.1]; decide), hfires⟩
  · rintro ⟨rule, hrule, hfires⟩
    exact ⟨rule, mem_of_relevant hrules.symm hrule (by rw [hfires.1]; decide),
      (fires_withRoles hroles rule).mpr hfires⟩

theorem permits_reordered : (∃ rule ∈ rules, Permits time (req.withRoles roles) rule) ↔
    ∃ rule ∈ authorizer.evaluator.rules, Permits time req rule := by
  constructor
  · rintro ⟨rule, hrule, hpermits⟩
    rw [permits_withRoles hroles] at hpermits
    exact ⟨rule, mem_of_relevant hrules hrule (by rw [hpermits.1]; decide), hpermits⟩
  · rintro ⟨rule, hrule, hpermits⟩
    exact ⟨rule, mem_of_relevant hrules.symm hrule (by rw [hpermits.1]; decide),
      (permits_withRoles hroles rule).mpr hpermits⟩

theorem answer_reordered (h : authorizer.PatternsCompile time req) :
    ∃ allowed, (authorizer.withRules rules).answer time (req.withRoles roles) = some allowed := by
  refine answer_isSome (fun rule hrule hnone => ?_) fun hquiet => ?_
  · rw [structuralMatch_withRoles hroles] at hnone
    refine h.rules rule (mem_of_relevant hrules hrule ?_) hnone
    rw [hnone]
    exact fun h => nomatch h
  · refine h.roles (fun rule hrule => ⟨fun hfires => ?_, fun hpermits => ?_⟩) roles hroles
    · obtain ⟨rule', hrule', hfires'⟩ :=
        (fires_reordered hrules hroles).mpr ⟨rule, hrule, hfires⟩
      exact (hquiet rule' hrule').1 hfires'
    · obtain ⟨rule', hrule', hpermits'⟩ :=
        (permits_reordered hrules hroles).mpr ⟨rule, hrule, hpermits⟩
      exact (hquiet rule' hrule').2 hpermits'

/-- **The answers are the same.** -/
theorem answer_eq_reordered {allowed allowed' : Bool}
    (h : authorizer.answer time req = some allowed)
    (h' : (authorizer.withRules rules).answer time (req.withRoles roles) = some allowed') :
    allowed' = allowed := by
  have hfires : (∃ rule ∈ rules, Fires time (req.withRoles roles) rule) ↔ _ :=
    fires_reordered hrules hroles
  have hpermits : (∃ rule ∈ rules, Permits time (req.withRoles roles) rule) ↔ _ :=
    permits_reordered hrules hroles
  rcases answer_cases h with ⟨hdeny, rfl⟩ | ⟨hquiet, hdecides⟩
  · rcases answer_cases h' with ⟨-, rfl⟩ | ⟨hquiet', -⟩
    · rfl
    · obtain ⟨rule, hrule, hf⟩ := hfires.mpr hdeny
      exact absurd hf (hquiet' rule hrule).2
  · rcases answer_cases h' with ⟨hdeny', -⟩ | ⟨-, hdecides'⟩
    · obtain ⟨rule, hrule, hf⟩ := hfires.mp hdeny'
      exact absurd hf (hquiet rule hrule).2
    rcases hdecides with ⟨hallow, rfl⟩ | ⟨hnot, rbac, hrbac, rfl⟩
    · rcases hdecides' with ⟨-, rfl⟩ | ⟨hnot', -⟩
      · rfl
      · obtain ⟨rule, hrule, hp⟩ := hpermits.mpr hallow
        exact absurd hp (hnot' rule hrule)
    · rcases hdecides' with ⟨hallow', -⟩ | ⟨-, rbac', hrbac', rfl⟩
      · obtain ⟨rule, hrule, hp⟩ := hpermits.mp hallow'
        exact absurd hp (hnot rule hrule)
      · exact authorizer.roleStore.explain_of_perm hroles hrbac hrbac'

end Reordered

theorem answer_of_error {rest : List PolicyRule}
    (h : structuralMatch rule req = none) :
    (authorizer.withRules (rule :: rest)).answer time req = none := by
  have hevaluate : evaluateFrom time req none (rule :: rest) = none := by
    rw [evaluateFrom, h]
    rfl
  show ((evaluateFrom time req none (rule :: rest)).bind _).map _ = none
  rw [hevaluate]
  rfl

/-- **Less context gains no access, and there is one answer for every order, exactly if the
    patterns compile.** -/
theorem authorize_stable_iff (authorizer : Authorizer) (time : HostTime)
    (req : AuthorizationRequest) :
    ((∀ cost dataClass, authorizer.answer time (req.withhold cost dataClass) = some true →
        authorizer.answer time req = some true) ∧ authorizer.OrderIrrelevant time req) ↔
      authorizer.PatternsCompile time req := by
  constructor
  · rintro ⟨-, allowed, hanswer⟩
    refine ⟨fun rule hrule hnone => ?_, fun hquiet roles hroles hnone => ?_⟩
    · obtain ⟨front, rest, heq⟩ := append_of_mem hrule
      have hperm : (relevant req (rule :: (front ++ rest))).Perm
          (relevant req authorizer.evaluator.rules) := by
        rw [heq]
        exact perm_middle.symm.filter _
      have herror : (authorizer.withRules (rule :: (front ++ rest))).answer time req = none :=
        answer_of_error hnone
      have hsame := hanswer _ _ hperm (List.Perm.refl _)
      rw [show req.withRoles req.principal.roles = req from rfl, herror] at hsame
      nomatch hsame
    · have hsame := hanswer authorizer.evaluator.rules roles (List.Perm.refl _) hroles
      rcases answer_cases hsame with ⟨⟨rule, hrule, hf⟩, -⟩ | ⟨-, ⟨⟨rule, hrule, hp⟩, -⟩ | ⟨-, rbac, hrbac, -⟩⟩
      · exact (hquiet rule hrule).1 ((fires_withRoles hroles rule).mp hf)
      · exact (hquiet rule hrule).2 ((permits_withRoles hroles rule).mp hp)
      · exact absurd (hrbac.symm.trans hnone) (some_ne_none rbac)
  · intro h
    refine ⟨authorize_withheld authorizer time req, ?_⟩
    obtain ⟨allowed, hallowed⟩ := answer_reordered (List.Perm.refl _) (List.Perm.refl _) h
    refine ⟨allowed, fun rules roles hrules hroles => ?_⟩
    obtain ⟨allowed', hallowed'⟩ := answer_reordered hrules hroles h
    rw [hallowed', answer_eq_reordered hrules hroles hallowed hallowed']

/-! ## A rule set where the order matters -/

namespace Unescaped

/-- A deny of everything, and an allow for resources of one character. -/
def denyAll : PolicyRule := { effect := .deny }
def allowOne : PolicyRule := { effect := .allow, resources := some ["?"] }

def store : RoleStore := { roles := .empty, defaultRole := "default" }

def midnight : HostTime := { now := 0, minutesOfDay := fun _ => some 0 }

def request : AuthorizationRequest :=
  { principal := { id := "u-dev", roles := ["developer"] }, action := "write"
    resource := "tool:fs_write" }

end Unescaped

open Unescaped in
/-- **The order decides**: behind the deny, the pattern is not reached; before it, the request is
    not denied but ends in an error. -/
theorem order_decides :
    ¬ ∀ (authorizer : Authorizer) (time : HostTime) (req : AuthorizationRequest)
      (rules : List PolicyRule), rules.Perm authorizer.evaluator.rules →
        (authorizer.withRules rules).answer time req = authorizer.answer time req := by
  intro h
  have horder := h { roleStore := store, evaluator := { rules := [denyAll, allowOne] } } midnight request
    [allowOne, denyAll] (List.Perm.swap _ _ _)
  have hfirst : (Authorizer.withRules
      { roleStore := store, evaluator := { rules := [denyAll, allowOne] } }
      [allowOne, denyAll]).answer midnight request = none := by decide +kernel
  have hbehind : Authorizer.answer
      { roleStore := store, evaluator := { rules := [denyAll, allowOne] } } midnight request =
      some false := by decide +kernel
  rw [hfirst, hbehind] at horder
  nomatch horder

end NexusCode.Access
