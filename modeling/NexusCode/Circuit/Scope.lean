/-
  Circuit scopes: what a record of the provider circuit breaker is about.

  A target names a provider and optionally an account and a model; leaving a segment out makes a
  broader scope.  A failure is recorded on the scope its reason affects (`failureScope`), and a
  request is checked against every scope that applies to it (`appliesTo`).

  Records are stored under the text `providerCircuitKey`.  The file proves that the text is as
  good as the target itself: on normalized targets two scopes with one key are one scope
  (`keyOf_inj`), and storing a normalized target loses nothing
  (`normalizeTarget_normalized`).
-/
import NexusCode.Lib.JsString

namespace NexusCode.Circuit

open Lib List

/-! ## Targets -/

/-- `ProviderCircuitTarget`. -/
structure Target where
  providerId : String
  accountId : Option String := none
  modelId : Option String := none
deriving DecidableEq

/-- `ProviderCircuitReason`. -/
inductive Reason where
  | quota
  | auth
  | modelUnavailable
  | transient
deriving DecidableEq

/-- An optional segment without its surrounding white space; a blank one is absent. -/
def cleanSegment (value : Option String) : Option String :=
  match value with
  | none => none
  | some v => if JsString.trim v = "" then none else some (JsString.trim v)

/-- Clean every segment; a target without a provider is a `TypeError` (`none`). -/
def normalizeTarget (target : Target) : Option Target :=
  match cleanSegment (some target.providerId) with
  | none => none
  | some providerId =>
    some ⟨providerId, cleanSegment target.accountId, cleanSegment target.modelId⟩

/-- The targets the breaker works with: those `normalizeTarget` leaves alone. -/
def Target.Normalized (t : Target) : Prop := normalizeTarget t = some t

@[simp] theorem cleanSegment_idem (v : Option String) :
    cleanSegment (cleanSegment v) = cleanSegment v := by
  cases v with
  | none => rfl
  | some s =>
    unfold cleanSegment
    by_cases h : JsString.trim s = ""
    · simp only [h, if_true]
    · simp only [h, if_false, JsString.trim_idem]

theorem normalizeTarget_normalized {t t' : Target} (h : normalizeTarget t = some t') :
    t'.Normalized := by
  unfold normalizeTarget at h
  split at h
  · nomatch h
  · rename_i p hp
    obtain rfl : _ = t' := Option.some.inj h
    have hp' : cleanSegment (some p) = some p := by rw [← hp, cleanSegment_idem]
    simp only [Target.Normalized, normalizeTarget, hp', cleanSegment_idem]

/-! ## Keys -/

/-- The optional part of a key: a tag and the encoded segment. -/
def keyPart (tag : String) (segment : Option String) : String :=
  match segment with
  | none => ""
  | some v => tag ++ JsString.encodeURIComponent v

/-- The key of a normalized target. -/
def keyOf (t : Target) : String :=
  "p:" ++ JsString.encodeURIComponent t.providerId ++ keyPart "|a:" t.accountId
    ++ keyPart "|m:" t.modelId

/-- `providerCircuitKey(target)`; `none` is the `TypeError` of `normalizeTarget`. -/
def providerCircuitKey (target : Target) : Option String := (normalizeTarget target).map keyOf

/-- Two texts that go on with nothing or with a `|` are equal when the parts before are free of
    `|`: the separator cuts both at the same place. -/
theorem cut_at_bar {a b r r' : List Char} (ha : '|' ∉ a) (hb : '|' ∉ b)
    (hr : r = [] ∨ ∃ t, r = '|' :: t) (hr' : r' = [] ∨ ∃ t, r' = '|' :: t)
    (h : a ++ r = b ++ r') : a = b ∧ r = r' := by
  induction a generalizing b with
  | nil =>
    cases b with
    | nil => exact ⟨rfl, h⟩
    | cons c b =>
      rcases hr with rfl | ⟨t, rfl⟩
      · nomatch h
      · injection h with hc _
        exact absurd (hc ▸ mem_cons_self) hb
  | cons c a ih =>
    cases b with
    | nil =>
      rcases hr' with rfl | ⟨t, rfl⟩
      · nomatch h
      · injection h with hc _
        exact absurd (hc ▸ mem_cons_self) ha
    | cons d b =>
      injection h with hc h
      obtain ⟨hab, hrr⟩ := ih (fun hm => ha (mem_cons_of_mem _ hm))
        (fun hm => hb (mem_cons_of_mem _ hm)) h
      exact ⟨by rw [hc, hab], hrr⟩

theorem keyPart_toList (tag : String) (v : Option String) :
    (keyPart tag v).toList = match v with
      | none => []
      | some s => tag.toList ++ (JsString.encodeURIComponent s).toList := by
  cases v with
  | none => rfl
  | some s => exact String.toList_append

/-- The model part of a key is empty or starts with the separator. -/
theorem modelPart_starts (v : Option String) :
    (keyPart "|m:" v).toList = [] ∨ ∃ t, (keyPart "|m:" v).toList = '|' :: t := by
  cases v with
  | none => exact .inl rfl
  | some s => exact .inr ⟨_, by rw [keyPart_toList]; rfl⟩

theorem keyPart_inj {c : Char} {tag : String} {v w : Option String} {r r' : List Char}
    (htag : tag.toList = ['|', c, ':']) (hr : ∀ d t, r ≠ '|' :: d :: t ∨ d ≠ c)
    (hr' : ∀ d t, r' ≠ '|' :: d :: t ∨ d ≠ c)
    (hs : r = [] ∨ ∃ t, r = '|' :: t) (hs' : r' = [] ∨ ∃ t, r' = '|' :: t)
    (h : (keyPart tag v).toList ++ r = (keyPart tag w).toList ++ r') : v = w ∧ r = r' := by
  rw [keyPart_toList, keyPart_toList, htag] at h
  cases v with
  | none =>
    cases w with
    | none => exact ⟨rfl, h⟩
    | some w => exact absurd rfl ((hr c _).resolve_left fun hn => hn h)
  | some v =>
    cases w with
    | none => exact absurd rfl ((hr' c _).resolve_left fun hn => hn h.symm)
    | some w =>
      simp only [cons_append, nil_append, cons.injEq, true_and] at h
      obtain ⟨hvw, hrr⟩ := cut_at_bar (JsString.bar_notMem_encodeURIComponent v)
        (JsString.bar_notMem_encodeURIComponent w) hs hs' h
      exact ⟨congrArg some (JsString.encodeURIComponent_inj (String.toList_injective hvw)), hrr⟩

theorem keyOf_inj {t t' : Target} (h : keyOf t = keyOf t') : t = t' := by
  have hl := congrArg String.toList h
  simp only [keyOf, String.toList_append, append_assoc] at hl
  have hl' := append_cancel_left hl
  have astarts : ∀ u : Target, (keyPart "|a:" u.accountId).toList ++ (keyPart "|m:" u.modelId).toList = []
      ∨ ∃ l, (keyPart "|a:" u.accountId).toList ++ (keyPart "|m:" u.modelId).toList = '|' :: l := by
    intro u
    cases ha : u.accountId with
    | none => exact modelPart_starts u.modelId
    | some s => exact .inr ⟨_, by rw [keyPart_toList]; rfl⟩
  obtain ⟨hp, hrest⟩ := cut_at_bar (JsString.bar_notMem_encodeURIComponent _)
    (JsString.bar_notMem_encodeURIComponent _) (astarts t) (astarts t') hl'
  have notA : ∀ v d l, (keyPart "|m:" v).toList ≠ '|' :: d :: l ∨ d ≠ 'a' := by
    intro v d l
    by_cases hd : d = 'a'
    · refine .inl fun hm => ?_
      subst hd
      cases v with
      | none => nomatch hm
      | some s =>
        rw [keyPart_toList] at hm
        exact absurd (cons.inj (cons.inj hm).2).1 (by decide)
    · exact .inr hd
  obtain ⟨ha, hm⟩ := keyPart_inj (c := 'a') rfl (notA t.modelId) (notA t'.modelId)
    (modelPart_starts _) (modelPart_starts _) hrest
  have hm' : t.modelId = t'.modelId :=
    (keyPart_inj (c := 'm') (r := []) rfl (fun _ _ => .inl (by simp))
      (fun _ _ => .inl (by simp)) (.inl rfl) (.inl rfl)
      (by simpa only [append_nil] using hm)).1
  cases t
  cases t'
  simp only [Target.mk.injEq]
  exact ⟨JsString.encodeURIComponent_inj (String.toList_injective hp), ha, hm'⟩

/-! ## Scopes -/

/-- `appliesTo(scope, request)`: does a record of `scope` concern the request? -/
def appliesTo (scope request : Target) : Bool :=
  scope.providerId == request.providerId &&
    (scope.accountId == none || scope.accountId == request.accountId) &&
    (scope.modelId == none || scope.modelId == request.modelId)

/-- `isDescendant(scope, candidate)`: the same comparison, read from the scope being reset. -/
def isDescendant (scope candidate : Target) : Bool :=
  scope.providerId == candidate.providerId &&
    (scope.accountId == none || scope.accountId == candidate.accountId) &&
    (scope.modelId == none || scope.modelId == candidate.modelId)

/-- `specificity(target)`: the number of segments. -/
def specificity (target : Target) : Nat :=
  1 + (if target.accountId = none then 0 else 1) + (if target.modelId = none then 0 else 1)

/-- `failureScope(target, reason)`: quota and auth failures concern the account, model failures
    the model, transient ones the exact route. -/
def failureScope (target : Target) (reason : Reason) : Target :=
  match reason with
  | .quota => { providerId := target.providerId, accountId := target.accountId }
  | .auth => { providerId := target.providerId, accountId := target.accountId }
  | .modelUnavailable => ⟨target.providerId, target.accountId, target.modelId⟩
  | .transient => target

@[simp] theorem appliesTo_refl (t : Target) : appliesTo t t = true := by
  simp [appliesTo]

/-- The scope a failure is recorded on applies to the request that failed. -/
@[simp] theorem appliesTo_failureScope (t : Target) (r : Reason) :
    appliesTo (failureScope t r) t = true := by
  cases r <;> simp [failureScope, appliesTo]

theorem failureScope_normalized {t : Target} (h : t.Normalized) (r : Reason) :
    (failureScope t r).Normalized := by
  have hp : cleanSegment (some t.providerId) = some t.providerId ∧
      cleanSegment t.accountId = t.accountId := by
    unfold Target.Normalized normalizeTarget at h
    split at h
    · nomatch h
    · rename_i p hp
      have ht := Option.some.inj h
      rw [hp]
      exact ⟨by rw [← ht], by rw [← ht]; exact cleanSegment_idem _⟩
  cases r
  · simp only [Target.Normalized, normalizeTarget, failureScope, hp.1, hp.2]; rfl
  · simp only [Target.Normalized, normalizeTarget, failureScope, hp.1, hp.2]; rfl
  · exact h
  · exact h

end NexusCode.Circuit
