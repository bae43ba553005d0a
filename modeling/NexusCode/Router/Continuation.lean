/-
  What an attempt that continues another one knows.

  1. A tracker is safe (`SafeTracker`) when something was said and every action it holds is
     recoverable; that is when its plan is safe.  The end of a provider keeps it safe: what is
     still in flight only reads.
  2. `primeTracker_get?` — the tracker of a continuation starts with the records of the checkpoint
     it was given, and with its text: it is as safe as the one the plan was made from.
  3. `Tracker.Holds` — no event ever removes a record, and an event about an action leaves one.
-/
import NexusCode.Router.Streams

namespace NexusCode.Router

open Lib Shared Recovery List Option

/-! ## Safe trackers -/

/-- Something was said, and every action is recoverable. -/
structure SafeTracker (approvedIds : List String) (t : Tracker) : Prop where
  said : ¬ (t.assistantText = "" ∧ t.reasoning = "")
  recoverable : ∀ id record, t.actions.get? id = some record →
    RecoverableAction approvedIds (publicAction id record)

section Safe

variable {rt : Runtime} {options : TrackerOptions} {approvedIds : List String} {t : Tracker}
  {c : StreamChunk}

theorem observe_preamble (h : isPreambleChunk c = true) : t.observe rt options c = t := by
  obtain ⟨runId, body, raw⟩ := c
  cases body <;> first | rfl | nomatch h

theorem SafeTracker.abort (h : SafeTracker approvedIds t) :
    SafeTracker approvedIds t.abortOpenActions where
  said := h.said
  recoverable := by
    intro id record hget
    have hmap : (t.actions.mapValues TrackedAction.abort).get? id = some record := hget
    rw [JsMap.get?_mapValues, map_eq_some_iff] at hmap
    obtain ⟨before, hbefore, rfl⟩ := hmap
    obtain ⟨hamb, hknown, hmut⟩ := h.recoverable id before hbefore
    unfold TrackedAction.abort
    split
    · rename_i hs
      refine ⟨nofun, hknown, fun hm => ?_⟩
      have hc : before.status = .completed := (hmut hm).1
      rw [hs] at hc
      nomatch hc
    · exact ⟨hamb, hknown, hmut⟩

theorem SafeTracker.observe_terminal (h : SafeTracker approvedIds t)
    (hc : c.isTerminal = true) : SafeTracker approvedIds (t.observe rt options c) := by
  obtain ⟨runId, body, raw⟩ := c
  cases body with
  | runEnd _ => exact h
  | error _ _ => exact h.abort
  | _ => nomatch hc

theorem SafeTracker.observe_text (h : SafeTracker approvedIds t) {text : String}
    {channel : Option Channel} (hc : c.body = .textDelta text channel) :
    SafeTracker approvedIds (t.observe rt options c) := by
  obtain ⟨runId, body, raw⟩ := c
  obtain rfl : body = .textDelta text channel := hc
  show SafeTracker approvedIds (if channel = some .reasoning then _ else _)
  have happ : ∀ a b : String, a ++ b = "" → a = "" := by
    intro a b hab
    have := congrArg String.toList hab
    rw [String.toList_append] at this
    exact String.toList_inj.mp (append_eq_nil_iff.mp this).1
  split
  · exact ⟨fun hs => h.said ⟨hs.1, happ _ _ hs.2⟩, h.recoverable⟩
  · exact ⟨fun hs => h.said ⟨happ _ _ hs.1, hs.2⟩, h.recoverable⟩

end Safe

/-! ## Records are never removed -/

/-- The tracker has a record of the action. -/
def Tracker.Holds (t : Tracker) (k : String) : Prop := (t.actions.get? k).isSome = true

/-- The action a chunk is about, for the chunks that name one. -/
def actionKey? (c : StreamChunk) : Option String :=
  match c.body with
  | .toolCallStart id _ => some id
  | .toolCallEnd id _ => some id
  | .toolResult id _ _ => some id
  | .approvalRequest approvalId _ _ => some ("approval:" ++ approvalId)
  | .fileEdit edit => (truthy edit.approvalId).map ("file-edit:" ++ ·)
  | _ => none

section Holds

open Tracker

variable {rt : Runtime} {options : TrackerOptions} {t t' : Tracker} {k id : String}

theorem holds_congr (h : t.actions = t'.actions) : Holds t k ↔ Holds t' k := by
  unfold Holds
  rw [h]

theorem holds_setAction (a : TrackedAction) : Holds (t.setAction id a) k ↔ id = k ∨ Holds t k := by
  show ((t.actions.set id a).get? k).isSome = true ↔ _
  rw [JsMap.get?_set]
  split
  · rename_i h
    exact ⟨fun _ => .inl h, fun _ => rfl⟩
  · rename_i h
    exact ⟨.inr, fun hk => hk.resolve_left h⟩

theorem holds_startAction (name : String) (risk : RecoveryActionRisk) :
    Holds (t.startAction id name risk) k ↔ id = k ∨ Holds t k := by
  unfold Tracker.startAction
  split
  · exact holds_setAction _
  · exact holds_setAction _

theorem holds_endAction (input : Unknown) :
    Holds (t.endAction rt options id input) k ↔ id = k ∨ Holds t k := by
  unfold Tracker.endAction
  simp only
  split
  · exact holds_setAction _
  · rw [holds_setAction]
    split <;> exact Iff.rfl

theorem holds_completeAction : Holds (t.completeAction id) k ↔ id = k ∨ Holds t k := by
  unfold Tracker.completeAction
  split
  · exact holds_setAction _
  · rw [holds_setAction]
    split <;> exact Iff.rfl

theorem holds_abort : Holds t.abortOpenActions k ↔ Holds t k := by
  show ((t.actions.mapValues TrackedAction.abort).get? k).isSome = true ↔ _
  rw [JsMap.get?_mapValues, isSome_map]
  exact Iff.rfl

theorem holds_resolveApproval {edit : FileEdit} (h : Holds t k) :
    Holds (t.resolveApproval edit) k := by
  unfold Tracker.resolveApproval
  split
  · exact h
  · split
    · split
      · exact (holds_setAction _).mpr (Or.inr h)
      · exact h
    · exact h

theorem holds_observeFileEdit {runId : String} {edit : FileEdit}
    (h : t.editId runId edit = k ∨ Holds t k) : Holds (t.observeFileEdit runId edit) k := by
  have hopen : (t.openEdit runId edit).actions = t.actions := by
    unfold Tracker.openEdit
    split <;> rfl
  have hset : ∀ a, Holds ((t.openEdit runId edit).setAction (t.editId runId edit) a) k := by
    intro a
    rw [holds_setAction, holds_congr hopen]
    exact h
  have hclose : ∀ (t' : Tracker) (b : Bool), Holds t' k →
      Holds ((if b then t'.closeEdit runId edit else t').resolveApproval edit) k := by
    intro t' b ht'
    cases b with
    | false => exact holds_resolveApproval ht'
    | true => exact holds_resolveApproval (t := t'.closeEdit runId edit) ht'
  unfold Tracker.observeFileEdit
  simp only
  split
  · split
    · exact hset _
    · exact hset _
  · split
    · split
      · exact hset _
      · exact hclose _ _ (hset _)
    · exact hclose _ _ (hset _)

/-- **No event removes a record, and an event about an action leaves one.** -/
theorem holds_observe {c : StreamChunk} (h : actionKey? c = some k ∨ Holds t k) :
    Holds (t.observe rt options c) k := by
  obtain ⟨runId, body, raw⟩ := c
  cases body with
  | textDelta text channel =>
    show Holds (if channel = some .reasoning then _ else _) k
    have hk := h.resolve_left nofun
    split <;> exact hk
  | toolCallStart id name =>
    exact (holds_startAction _ _).mpr (h.imp (fun h => some.inj h) (fun h => h))
  | toolCallEnd id input =>
    exact (holds_endAction _).mpr (h.imp (fun h => some.inj h) (fun h => h))
  | toolResult id content isError =>
    exact holds_completeAction.mpr (h.imp (fun h => some.inj h) (fun h => h))
  | approvalRequest approvalId kind detail =>
    exact (holds_startAction _ .mutating).mpr (h.imp (fun h => some.inj h) (fun h => h))
  | error e retryable => exact holds_abort.mpr (h.resolve_left nofun)
  | fileEdit edit =>
    refine holds_observeFileEdit (h.imp (fun h => ?_) (fun h => h))
    obtain ⟨approvalId, happ, rfl⟩ := map_eq_some_iff.mp h
    unfold Tracker.editId
    rw [happ]
  | runStart _ _ _ => exact h.resolve_left nofun
  | sessionInit _ _ _ _ => exact h.resolve_left nofun
  | reasoningDelta _ => exact h.resolve_left nofun
  | toolCallDelta _ _ => exact h.resolve_left nofun
  | usage _ => exact h.resolve_left nofun
  | runEnd _ => exact h.resolve_left nofun

end Holds

/-! ## The tracker of a continuation -/

section Prime

variable {env : Env} {turn : Turn} {t : Tracker} {plan : PartialRecoveryPlan}

/-- Recording actions with ids of their own: each is held as given, nothing else changes. -/
theorem recordAll (l : List RecoveryAction) : ∀ t : Tracker, (l.map (·.id)).Nodup →
    (∀ a ∈ l, t.actions.get? a.id = none) →
    (∀ a ∈ l, ∃ record, (l.foldl (fun t a => t.recordAction a) t).actions.get? a.id = some record ∧
      publicAction a.id record = a) ∧
    (∀ k, k ∉ l.map (·.id) →
      (l.foldl (fun t a => t.recordAction a) t).actions.get? k = t.actions.get? k) ∧
    (l.foldl (fun t a => t.recordAction a) t).assistantText = t.assistantText ∧
    (l.foldl (fun t a => t.recordAction a) t).reasoning = t.reasoning := by
  induction l with
  | nil =>
    intro t _ _
    exact ⟨fun a ha => absurd ha not_mem_nil, fun k _ => rfl, rfl, rfl⟩
  | cons a l ih =>
    intro t hnd hnone
    rw [map_cons, nodup_cons] at hnd
    let fresh : TrackedAction :=
      { name := a.name, risk := a.risk, status := a.status, ended := a.status ≠ .inFlight }
    have hrec : t.recordAction a = t.setAction a.id fresh := by
      unfold Tracker.recordAction
      rw [hnone a mem_cons_self]
    have hget : ∀ k, (t.recordAction a).actions.get? k
        = if a.id = k then some fresh else t.actions.get? k := by
      intro k
      rw [hrec]
      exact JsMap.get?_set _ _ _ _
    have hl : ∀ b ∈ l, (t.recordAction a).actions.get? b.id = none := by
      intro b hb
      rw [hget, if_neg]
      · exact hnone b (mem_cons_of_mem a hb)
      · intro heq
        exact hnd.1 (heq ▸ mem_map_of_mem hb)
    have htexts : (t.recordAction a).assistantText = t.assistantText ∧
        (t.recordAction a).reasoning = t.reasoning := by
      rw [hrec]
      exact ⟨rfl, rfl⟩
    obtain ⟨h1, h2, h3, h4⟩ := ih (t.recordAction a) hnd.2 hl
    rw [foldl_cons]
    refine ⟨?_, ?_, h3.trans htexts.1, h4.trans htexts.2⟩
    · intro b hb
      rcases mem_cons.mp hb with rfl | hb
      · refine ⟨fresh, ?_, rfl⟩
        rw [h2 _ hnd.1, hget, if_pos rfl]
      · exact h1 b hb
    · intro k hk
      rw [map_cons, mem_cons, not_or] at hk
      rw [h2 k hk.2, hget, if_neg fun h => hk.1 h.symm]

theorem nodup_checkpoint (rt : Runtime) (t : Tracker) :
    ((t.checkpoint rt).actions.map (·.id)).Nodup := by
  have hperm := (perm_insertionSort (fun a b => rt.localeLe a.id b.id)
    (t.actions.entries.map fun e => publicAction e.1 e.2)).map (·.id)
  refine hperm.nodup_iff.mpr ?_
  rw [List.map_map]
  exact t.actions.nodup

/-- **A continuation starts with what the plan was made from**: the same text, and for every
    action the same public record. -/
theorem primeTracker_eq (hr : turn.recovery = some plan)
    (hc : plan.checkpoint = t.checkpoint env.rt) :
    (primeTracker env turn).assistantText = t.assistantText ∧
    (primeTracker env turn).reasoning = t.reasoning ∧
    ∀ k, ((primeTracker env turn).actions.get? k).map (publicAction k)
      = (t.actions.get? k).map (publicAction k) := by
  have htext : plan.checkpoint.assistantText = t.assistantText := by rw [hc]; rfl
  have hreason : plan.checkpoint.reasoning = t.reasoning := by rw [hc]; rfl
  have hcat : ∀ s : String, "" ++ s = s := fun s => String.empty_append
  -- the two text chunks leave the empty tracker with the two texts and no action
  obtain ⟨t₀, hprime, ha, htx, hrs⟩ : ∃ t₀ : Tracker, primeTracker env turn
      = plan.checkpoint.actions.foldl (fun t a => t.recordAction a) t₀ ∧ t₀.actions = .empty ∧
      t₀.assistantText = plan.checkpoint.assistantText ∧
      t₀.reasoning = plan.checkpoint.reasoning := by
    unfold primeTracker
    rw [hr]
    refine ⟨_, rfl, ?_, ?_, ?_⟩
    · by_cases h1 : plan.checkpoint.assistantText = "" <;>
        by_cases h2 : plan.checkpoint.reasoning = "" <;> simp only [h1, h2, if_true, if_false] <;> rfl
    · by_cases h1 : plan.checkpoint.assistantText = "" <;>
        by_cases h2 : plan.checkpoint.reasoning = "" <;> simp only [h1, h2, if_true, if_false]
      · rfl
      · exact hcat _
      · exact hcat _
    · by_cases h1 : plan.checkpoint.assistantText = "" <;>
        by_cases h2 : plan.checkpoint.reasoning = "" <;> simp only [h1, h2, if_true, if_false]
      · exact hcat _
      · rfl
      · exact hcat _
  have hnd : (plan.checkpoint.actions.map (·.id)).Nodup := by
    rw [hc]
    exact nodup_checkpoint env.rt t
  obtain ⟨h1, h2, h3, h4⟩ := recordAll plan.checkpoint.actions t₀ hnd (by rw [ha]; intro a _; rfl)
  rw [hprime]
  refine ⟨by rw [h3, htx, htext], by rw [h4, hrs, hreason], ?_⟩
  intro k
  by_cases hk : k ∈ plan.checkpoint.actions.map (·.id)
  · obtain ⟨a, hmem, rfl⟩ := mem_map.mp hk
    obtain ⟨record, hget, hpub⟩ := h1 a hmem
    rw [hc] at hmem
    obtain ⟨record', hget', hpub'⟩ := mem_checkpoint_actions.mp hmem
    rw [hget, hget', map_some, map_some, hpub, ← hpub']
  · rw [h2 k hk, ha]
    cases hget : t.actions.get? k with
    | none => rfl
    | some record =>
      refine absurd (List.mem_map.mpr ⟨publicAction k record, ?_, rfl⟩) hk
      rw [hc]
      exact mem_checkpoint_actions.mpr ⟨record, hget, rfl⟩

theorem primeTracker_safe (hr : turn.recovery = some plan)
    (hc : plan.checkpoint = t.checkpoint env.rt) {approvedIds : List String}
    (h : SafeTracker approvedIds t) : SafeTracker approvedIds (primeTracker env turn) := by
  obtain ⟨htext, hreason, hget⟩ := primeTracker_eq hr hc
  refine ⟨by rw [htext, hreason]; exact h.said, ?_⟩
  intro id record hrec
  have hmap := hget id
  rw [hrec, map_some] at hmap
  obtain ⟨record', hrec', hpub⟩ := map_eq_some_iff.mp hmap.symm
  rw [← hpub]
  exact h.recoverable id record' hrec'

theorem primeTracker_holds (hr : turn.recovery = some plan)
    (hc : plan.checkpoint = t.checkpoint env.rt) {k : String} :
    Tracker.Holds (primeTracker env turn) k ↔ Tracker.Holds t k := by
  have hget := congrArg isSome ((primeTracker_eq hr hc).2.2 k)
  rw [isSome_map, isSome_map] at hget
  unfold Tracker.Holds
  rw [hget]

/-! ## The plan of a hand-off -/

/-- The plan was made from a safe tracker, and says so. -/
structure PlanFrom (env : Env) (t : Tracker) (plan : PartialRecoveryPlan) : Prop where
  decision : plan.decision = .safe
  request : plan.request.isSome = true
  checkpoint : plan.checkpoint = t.checkpoint env.rt
  safe : SafeTracker env.approvedIds t

/-- Partial recovery is on. -/
def Env.Recovers (env : Env) : Prop := ∃ options, env.options.partialRecovery = some options ∧
  options.enabled = true

theorem approvedIds_planInput {options : RecoveryOptions} {next : RouteCandidate}
    (h : env.options.partialRecovery = some options) :
    (planInput turn options next).approvedIds = env.approvedIds := by
  rw [Env.approvedIds, h]
  rfl

/-- A hand-off after visible output needs a plan made from a safe tracker. -/
theorem createRecoveryPlan_some (h : createRecoveryPlan env turn t = some plan) :
    PlanFrom env t plan := by
  unfold createRecoveryPlan at h
  split at h
  · rename_i options next hoptions hnext
    split at h
    · nomatch h
    · dsimp only at h
      split at h
      · rename_i hsafe
        obtain rfl := some.inj h
        obtain ⟨-, hsaid, hrec⟩ := createPlan_safe_iff.mp hsafe.1
        rw [approvedIds_planInput hoptions] at hrec
        exact ⟨hsafe.1, hsafe.2, rfl, hsaid, hrec⟩
      · nomatch h
  · nomatch h

theorem createRecoveryPlan_of_safe (hon : env.Recovers) (hnext : turn.next.isSome = true)
    (hsafe : SafeTracker env.approvedIds t) :
    ∃ plan, createRecoveryPlan env turn t = some plan := by
  obtain ⟨options, hoptions, henabled⟩ := hon
  obtain ⟨next, hnext⟩ := isSome_iff_exists.mp hnext
  have hdec : (t.createPlan env.rt options.toTrackerOptions
      (planInput turn options next)).decision = .safe := by
    refine createPlan_safe_iff.mpr ⟨henabled, hsafe.said, ?_⟩
    rw [approvedIds_planInput hoptions]
    exact hsafe.recoverable
  unfold createRecoveryPlan
  rw [hoptions, hnext]
  simp only
  rw [if_neg (by rw [henabled]; decide),
    if_pos (And.intro hdec (createPlan_request_isSome.mpr hdec))]
  exact ⟨_, rfl⟩

end Prime

end NexusCode.Router
