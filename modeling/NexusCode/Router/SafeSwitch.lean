/-
  A switch after visible output is always backed by a safe plan.

  One code path hands over without looking at the plan it made: a continuation that fails before
  it has extended the answer.  It is safe all the same, and the invariant that shows it runs
  through the whole chain (`Ready`): while a continuation has not committed, its tracker is as safe
  as the one its plan was made from, so the new plan exists.

  1. `attempt_handOff` — an attempt hands over with a plan made from a safe tracker, which holds
     every action shown so far; or, without a recovery, before it has shown anything.
  2. **`started_safely`** — in every run, whenever a candidate is started after something was
     shown, its recovery is safe.
-/
import NexusCode.Router.Steps

namespace NexusCode.Router

open Lib Shared Recovery List

/-! ## One attempt hands over -/

section HandOff

variable {env : Env} {turn : Turn}

/-- The action was shown, by an earlier candidate or in the emissions `out`. -/
def ShownAction (turn : Turn) (out : List Emission) (k : String) : Prop :=
  (∃ plan, turn.recovery = some plan ∧ ∃ a ∈ plan.checkpoint.actions, a.id = k) ∨
    ∃ e ∈ out, actionKey? e.chunk = some k

variable {out : List Emission}

theorem shownAction_append {out' : List Emission} {k : String} :
    ShownAction turn (out ++ out') k ↔
      ShownAction turn out k ∨ ∃ e ∈ out', actionKey? e.chunk = some k := by
  unfold ShownAction
  simp only [mem_append, or_and_right, exists_or, or_assoc]

/-- What an attempt knows while it runs. -/
structure AttemptInv (env : Env) (turn : Turn) (a : Attempt) (out : List Emission) : Prop where
  proper : a.Proper turn
  flushed : a.Flushed
  preamble : ∀ p ∈ a.preamble, isPreambleChunk p = true
  quiet : a.committed = false → out = []
  safe : a.committed = false → turn.recovery.isSome = true →
    SafeTracker env.approvedIds a.tracker
  held : ∀ k, ShownAction turn out k → Tracker.Holds a.tracker k

/-- An attempt that hands over has a plan made from a safe tracker, or has shown nothing. -/
def HandedOver (env : Env) (turn : Turn) (out : List Emission)
    (plan : Option PartialRecoveryPlan) : Prop :=
  (plan = none ∧ turn.recovery = none ∧ out = []) ∨
    ∃ p t, plan = some p ∧ PlanFrom env t p ∧ ∀ k, ShownAction turn out k → Tracker.Holds t k

variable {c : StreamChunk}

theorem actionKey?_of_preamble (h : isPreambleChunk c = true) :
    actionKey? c = none := by
  obtain ⟨runId, body, raw⟩ := c
  cases body <;> first | rfl | nomatch h

theorem mem_flushPreamble {l : List StreamChunk}
    (h : c ∈ flushPreamble turn l) : ∃ p ∈ l, c = stampFailover turn.trail p := by
  obtain ⟨p, hp, rfl⟩ := mem_map.mp h
  exact ⟨p, (mem_filter.mp hp).1, rfl⟩

theorem stampFailover_isPreamble (trail : List FailoverTrailEntry) (c : StreamChunk) :
    isPreambleChunk (stampFailover trail c) = isPreambleChunk c := by
  unfold isPreambleChunk
  rw [stampFailover_body]

theorem isPreamble_of_mem_flush {l : List StreamChunk} (hl : ∀ p ∈ l, isPreambleChunk p = true)
    (h : c ∈ flushPreamble turn l) : isPreambleChunk c = true := by
  obtain ⟨p, hp, rfl⟩ := mem_flushPreamble h
  rw [stampFailover_isPreamble]
  exact hl p hp

/-- What a terminal chunk brings out names no action, and keeps a tracker's records. -/
theorem Withheld.keeps {a : Attempt} {pre : List StreamChunk} {t : Tracker}
    (h : Withheld env turn a pre t) :
    (∀ c ∈ pre, actionKey? c = none) ∧ (∀ k, Tracker.Holds a.tracker k → Tracker.Holds t k) ∧
      (SafeTracker env.approvedIds a.tracker → SafeTracker env.approvedIds t) ∧
      (turn.recovery = none → pre = []) := by
  cases h with
  | nothing => exact ⟨fun c hc => absurd hc not_mem_nil, fun k hk => hk, id, fun _ => rfl⟩
  | text isText continuing =>
    refine ⟨?_, fun k hk => holds_observe (Or.inr hk), ?_, ?_⟩
    · intro c hc
      rw [mem_singleton.mp hc]
      exact isText.actionKey?
    · intro hsafe
      obtain ⟨text, channel, hbody⟩ := isText
      exact hsafe.observe_text hbody
    · intro hnone
      rw [hnone] at continuing
      nomatch continuing

/-- A hand-off with the tracker `t`, which knows everything shown: before the commit the plan
    exists because the tracker is safe, after it because it was checked. -/
theorem handedOver_of_planned {a : Attempt} {t : Tracker}
    {error : AdapterError} {plan : Option PartialRecoveryPlan} (hon : env.Recovers)
    (hmay : mayHandOff env turn error = true)
    (hquiet : a.committed = false → turn.recovery = none → out = [])
    (hsafe : a.committed = false → turn.recovery.isSome = true → SafeTracker env.approvedIds t)
    (hheld : ∀ k, ShownAction turn out k → Tracker.Holds t k)
    (hplan : HandOffPlan env turn a t plan) : HandedOver env turn out plan := by
  unfold HandOffPlan at hplan
  by_cases hc : a.committed = true
  · rw [if_pos hc] at hplan
    obtain ⟨p, rfl, hp⟩ := hplan
    exact .inr ⟨p, t, rfl, createRecoveryPlan_some hp, hheld⟩
  · have hc' : a.committed = false := by simpa using hc
    rw [if_neg hc] at hplan
    cases hr : turn.recovery with
    | none =>
      rw [hr] at hplan
      exact .inl ⟨hplan, hr, hquiet hc' hr⟩
    | some r =>
      have hsome : turn.recovery.isSome = true := by rw [hr]; rfl
      rw [if_pos hsome] at hplan
      have hnext : turn.next.isSome = true := (Bool.and_eq_true _ _ ▸ hmay).1
      obtain ⟨p, hp⟩ := createRecoveryPlan_of_safe hon hnext (hsafe hc' hsome)
      exact .inr ⟨p, t, hplan.trans hp, createRecoveryPlan_some hp, hheld⟩

theorem AttemptInv.step {a a' : Attempt}
    {es : List StreamChunk} (h : AttemptInv env turn a out)
    (hstep : ChunkStep env turn a c es (.inl a')) :
    AttemptInv env turn a' (out ++ es.map (Emission.mk (some turn.i))) := by
  have hnone : ∀ {l : List StreamChunk} {k}, (∀ c ∈ l, actionKey? c = none) →
      ¬ ∃ e ∈ l.map (Emission.mk (some turn.i)), actionKey? e.chunk = some k := by
    rintro l k hl ⟨e, he, hk⟩
    obtain ⟨c, hc, rfl⟩ := mem_map.mp he
    rw [show actionKey? c = none from hl c hc] at hk
    nomatch hk
  cases hstep with
  | swallow isText continuing committed preamble tracker proper =>
    rw [map_nil, append_nil]
    exact {
      proper
      flushed := fun hc => by rw [preamble]; exact h.flushed (committed ▸ hc)
      preamble := by rw [preamble]; exact h.preamble
      quiet := fun hc => h.quiet (committed ▸ hc)
      safe := fun hc hr => by rw [tracker]; exact h.safe (committed ▸ hc) hr
      held := by rw [tracker]; exact h.held }
  | buffer isPreamble open_ committed preamble tracker proper =>
    rw [map_nil, append_nil]
    exact {
      proper
      flushed := fun hc => by rw [committed] at hc; nomatch hc
      preamble := by
        intro p hp
        rw [preamble] at hp
        rcases mem_append.mp hp with hp | hp
        · exact h.preamble p hp
        · rw [mem_singleton.mp hp]
          exact isPreamble
      quiet := fun _ => h.quiet open_
      safe := fun _ hr => by rw [tracker]; exact h.safe open_ hr
      held := by rw [tracker]; exact h.held }
  | commit shown open_ notPreamble notTerminal committed preamble tracker proper =>
    exact {
      proper
      flushed := fun _ => preamble
      preamble := by rw [preamble]; exact fun p hp => absurd hp not_mem_nil
      quiet := fun hc => by rw [committed] at hc; nomatch hc
      safe := fun hc => by rw [committed] at hc; nomatch hc
      held := by
        intro k hk
        rw [tracker]
        rcases shownAction_append.mp hk with hk | ⟨e, he, hek⟩
        · exact holds_observe (Or.inr (h.held k hk))
        · rw [map_append] at he
          rcases mem_append.mp he with he | he
          · refine absurd ⟨e, he, hek⟩ (hnone fun c hc => ?_)
            exact actionKey?_of_preamble (isPreamble_of_mem_flush h.preamble hc)
          · rw [map_singleton, mem_singleton] at he
            exact holds_observe (Or.inl (by rw [he] at hek; exact hek)) }
  | forward shown done notTerminal committed preamble tracker proper =>
    exact {
      proper
      flushed := fun _ => by rw [preamble]; exact h.flushed done
      preamble := by rw [preamble]; exact h.preamble
      quiet := fun hc => by rw [committed] at hc; nomatch hc
      safe := fun hc => by rw [committed] at hc; nomatch hc
      held := by
        intro k hk
        rw [tracker]
        rcases shownAction_append.mp hk with hk | ⟨e, he, hek⟩
        · exact holds_observe (Or.inr (h.held k hk))
        · rw [map_singleton, mem_singleton] at he
          exact holds_observe (Or.inl (by rw [he] at hek; exact hek)) }

theorem AttemptInv.start
    (hr : ∀ plan, turn.recovery = some plan → ∃ t, PlanFrom env t plan) :
    AttemptInv env turn (startAttempt env turn) [] where
  proper := by
    show (turn.recovery.map _).isSome = _
    rw [Option.isSome_map]
  flushed := nofun
  preamble := fun p hp => absurd hp not_mem_nil
  quiet := fun _ => rfl
  safe := by
    intro _ hsome
    obtain ⟨plan, hplan⟩ := Option.isSome_iff_exists.mp hsome
    obtain ⟨t, ht⟩ := hr plan hplan
    exact primeTracker_safe hplan ht.checkpoint ht.safe
  held := by
    rintro k (⟨plan, hplan, a, ha, rfl⟩ | ⟨e, he, -⟩)
    · obtain ⟨t, ht⟩ := hr plan hplan
      rw [ht.checkpoint] at ha
      obtain ⟨record, hget, -⟩ := mem_checkpoint_actions.mp ha
      refine (primeTracker_holds hplan ht.checkpoint).mpr ?_
      show ((t.actions.get? a.id)).isSome = true
      rw [hget]
      rfl
    · exact absurd he not_mem_nil

/-- **How an attempt hands over.** -/
theorem attempt_handOff (hon : env.Recovers)
    (hr : ∀ plan, turn.recovery = some plan → ∃ t, PlanFrom env t plan) (s : Source)
    {error : AdapterError} {plan : Option PartialRecoveryPlan}
    (h : (runAttempt env turn s).2 = .handOff error plan) :
    mayHandOff env turn error = true ∧ HandedOver env turn (runAttempt env turn s).1 plan := by
  have key := (attemptLoop env turn s.thrown).rule
    (I := fun a out _ => AttemptInv env turn a out)
    (Q := fun out o => ∀ error plan, o = .handOff error plan →
      mayHandOff env turn error = true ∧ HandedOver env turn out plan)
    (startAttempt env turn) [] s.chunks ?_ ?_ ?_ (AttemptInv.start hr)
  · exact key error plan h
  · intro a out c cs a' es hI hstep
    injection hstep with hes ha'
    rw [← hes]
    exact hI.step (ha' ▸ onChunk_step env turn hI.proper c)
  · intro a out c cs o es hI hstep error plan ho
    injection hstep with hes ho'
    have hcs := onChunk_step env turn hI.proper c
    rw [← hes]
    rw [ho', ho] at hcs
    generalize (onChunk env turn a c).1 = shown at hcs ⊢
    cases hcs with
    | @handOff pre t error' plan' isError may withheld planned =>
      obtain ⟨hkeys, hholds, hsafe, hpre⟩ := withheld.keeps
      refine ⟨may, handedOver_of_planned hon may ?_ ?_ ?_ planned⟩
      · intro hc hnone
        rw [hI.quiet hc, hpre hnone]
        rfl
      · intro hc hsome
        exact (hsafe (hI.safe hc hsome)).observe_terminal (isTerminal_of_error isError)
      · intro k hk
        rcases shownAction_append.mp hk with hk | ⟨e, he, hek⟩
        · exact holds_observe (Or.inr (hholds k (hI.held k hk)))
        · obtain ⟨d, hd, rfl⟩ := mem_map.mp he
          rw [show actionKey? d = none from hkeys d hd] at hek
          nomatch hek
  · intro a out hI error plan ho
    cases hth : s.thrown with
    | none =>
      rw [hth] at ho
      nomatch ho
    | some thrown =>
      rw [hth] at ho
      have hes := onThrow_step env turn hI.flushed thrown
      show mayHandOff env turn error = true ∧
        HandedOver env turn (out ++ (onThrow env turn thrown a).1) plan
      rw [show (onThrow env turn thrown a).2 = .handOff error plan from ho] at hes
      generalize hout : (onThrow env turn thrown a).1 = es at hes
      cases hes with
      | handOff may planned =>
        rw [append_nil]
        refine ⟨may, handedOver_of_planned hon may (fun hc _ => hI.quiet hc) ?_ ?_ planned⟩
        · exact fun hc hsome => (hI.safe hc hsome).abort
        · exact fun k hk => holds_abort.mpr (hI.held k hk)

end HandOff

/-! ## The whole chain -/

section Chain

variable {env : Env}

/-- The recovery a candidate is started with, after `seen` was emitted: its plan is safe and has a
    request, and in the plan's checkpoint every action is recoverable and every action that was
    shown is recorded. -/
def SafeStart (env : Env) (seen : List StreamChunk) (recovery : Option PartialRecoveryPlan) :
    Prop :=
  ∃ plan, recovery = some plan ∧ plan.decision = .safe ∧ plan.request.isSome = true ∧
    (∀ a ∈ plan.checkpoint.actions, RecoverableAction env.approvedIds a) ∧
    ∀ c ∈ seen, ∀ k, actionKey? c = some k → ∃ a ∈ plan.checkpoint.actions, a.id = k

/-- What holds between two attempts: nothing was shown yet, or the next one has a plan made from a
    safe tracker that holds every action that was shown. -/
def Ready (env : Env) (seen : List StreamChunk) (recovery : Option PartialRecoveryPlan) : Prop :=
  (recovery = none ∧ seen = []) ∨
    ∃ plan t, recovery = some plan ∧ PlanFrom env t plan ∧
      ∀ c ∈ seen, ∀ k, actionKey? c = some k → Tracker.Holds t k

theorem exists_of_holds {rt : Runtime} {t : Tracker} {k : String} (h : Tracker.Holds t k) :
    ∃ a ∈ (t.checkpoint rt).actions, a.id = k := by
  obtain ⟨record, hget⟩ := Option.isSome_iff_exists.mp h
  exact ⟨publicAction k record, mem_checkpoint_actions.mpr ⟨record, hget, rfl⟩, rfl⟩

variable {seen : List StreamChunk}

theorem Ready.safeStart {recovery : Option PartialRecoveryPlan}
    (h : Ready env seen recovery) (hseen : seen ≠ []) : SafeStart env seen recovery := by
  rcases h with ⟨-, hnil⟩ | ⟨plan, t, hplan, hfrom, hheld⟩
  · exact absurd hnil hseen
  · refine ⟨plan, hplan, hfrom.decision, hfrom.request, ?_, ?_⟩
    · intro a ha
      rw [hfrom.checkpoint] at ha
      obtain ⟨record, hget, ha⟩ := mem_checkpoint_actions.mp ha
      rw [ha]
      exact hfrom.safe.recoverable a.id record hget
    · intro c hc k hk
      rw [hfrom.checkpoint]
      exact exists_of_holds (hheld c hc k hk)

theorem Ready.planFrom {recovery : Option PartialRecoveryPlan}
    (h : Ready env seen recovery) : ∀ plan, recovery = some plan → ∃ t, PlanFrom env t plan := by
  intro plan hplan
  rcases h with ⟨hnone, -⟩ | ⟨plan', t, hplan', hfrom, -⟩
  · rw [hnone] at hplan
    nomatch hplan
  · rw [hplan'] at hplan
    exact ⟨t, Option.some.inj hplan ▸ hfrom⟩

/-- An attempt that hands over leaves the run ready for the next one. -/
theorem Ready.next (hon : env.Recovers) {turn : Turn}
    (h : Ready env seen turn.recovery) (s : Source) {error : AdapterError}
    {plan : Option PartialRecoveryPlan} (ho : (runAttempt env turn s).2 = .handOff error plan) :
    Ready env (seen ++ (runAttempt env turn s).1.map (·.chunk)) plan := by
  obtain ⟨-, hover⟩ := attempt_handOff hon h.planFrom s ho
  rcases hover with ⟨hplan, hnone, hout⟩ | ⟨p, t, hplan, hfrom, hheld⟩
  · rw [hout]
    rcases h with ⟨-, hseen⟩ | ⟨plan', -, hplan', -⟩
    · exact .inl ⟨hplan, by rw [hseen]; rfl⟩
    · rw [hnone] at hplan'
      nomatch hplan'
  · refine .inr ⟨p, t, hplan, hfrom, ?_⟩
    intro c hc k hk
    refine hheld k ?_
    rcases mem_append.mp hc with hc | hc
    · rcases h with ⟨-, hseen⟩ | ⟨plan', t', hplan', hfrom', hheld'⟩
      · rw [hseen] at hc
        exact absurd hc not_mem_nil
      · refine .inl ⟨plan', hplan', ?_⟩
        rw [hfrom'.checkpoint]
        exact exists_of_holds (hheld' c hc k hk)
    · obtain ⟨e, he, rfl⟩ := mem_map.mp hc
      exact .inr ⟨e, he, hk⟩

@[simp] theorem output_started {i : Nat} {r : Option PartialRecoveryPlan} {trace : List Event} :
    output (.started i r :: trace) = output trace := rfl

@[simp] theorem output_handedOff {event : FailoverEvent} {trace : List Event} :
    output (.handedOff event :: trace) = output trace := rfl

theorem output_emitted_append (out : List Emission) (trace : List Event) :
    output (out.map .emitted ++ trace) = out.map (·.chunk) ++ output trace := by
  induction out with
  | nil => rfl
  | cons e out ih =>
    show e.chunk :: output (out.map .emitted ++ trace) = _
    rw [ih]
    rfl

theorem split_emitted {i : Nat} {r : Option PartialRecoveryPlan} {trace before after : List Event} :
    ∀ out : List Emission, out.map .emitted ++ trace = before ++ .started i r :: after →
      ∃ before', before = out.map .emitted ++ before' ∧ trace = before' ++ .started i r :: after := by
  intro out
  induction out generalizing before with
  | nil => exact fun h => ⟨before, rfl, h⟩
  | cons e out ih =>
    intro h
    rcases cons_eq_append_iff.mp h with ⟨-, hhead⟩ | ⟨before', rfl, htail⟩
    · injection hhead with he
      nomatch he
    · obtain ⟨b, rfl, hb⟩ := ih htail
      exact ⟨b, rfl, hb⟩

theorem runChain_started_safely (hon : env.Recovers) : ∀ (chain : List RouteCandidate)
    (p : Progress) (seen : List StreamChunk), Ready env seen p.pendingRecovery →
    ∀ before after i r, runChain env chain p = before ++ .started i r :: after →
      seen ++ output before ≠ [] → SafeStart env (seen ++ output before) r := by
  have lone : ∀ {e : Emission} {before after i r},
      [Event.emitted e] ≠ before ++ .started i r :: after := by
    intro e before after i r h
    obtain ⟨b, -, hb⟩ := @split_emitted _ _ [] _ _ [_] h
    have := congrArg List.length hb
    simp at this
  intro chain
  induction chain with
  | nil =>
    intro p seen _ before after i r h
    exact absurd h lone
  | cons c rest ih =>
    intro p seen hready before after i r h hne
    have hstep := runChain_step env c rest p
    rw [h] at hstep
    have hself : before = [] → .started i r = Event.started p.i p.pendingRecovery →
        SafeStart env (seen ++ output before) r := by
      rintro rfl hhead
      injection hhead with _ hr
      rw [hr]
      refine Ready.safeStart ?_ hne
      rw [show output [] = [] from rfl, append_nil]
      exact hready
    generalize htrace : before ++ .started i r :: after = trace at hstep
    have hsplit : ∀ {out : List Emission} {tail : List Event},
        before ++ .started i r :: after
          = .started p.i p.pendingRecovery :: (out.map .emitted ++ tail) →
        (before = [] ∧ .started i r = Event.started p.i p.pendingRecovery) ∨
          ∃ b, before = .started p.i p.pendingRecovery :: (out.map .emitted ++ b) ∧
            tail = b ++ .started i r :: after := by
      intro out tail heq
      rcases cons_eq_append_iff.mp heq.symm with ⟨rfl, hhead⟩ | ⟨before', rfl, htail⟩
      · injection hhead with hs
        exact .inl ⟨rfl, hs⟩
      · obtain ⟨b, rfl, hb⟩ := split_emitted out htail
        exact .inr ⟨b, rfl, hb⟩
    cases hstep with
    | aborted => exact absurd htrace.symm lone
    | @last out o attempt stop =>
      rw [← append_nil (out.map Event.emitted)] at htrace
      rcases hsplit htrace with ⟨hb, hs⟩ | ⟨b, -, hb⟩
      · exact hself hb hs
      · exact absurd hb.symm (append_ne_nil_of_right_ne_nil b (cons_ne_nil _ _))
    | declined attempt =>
      rcases hsplit htrace with ⟨hb, hs⟩ | ⟨b, -, hb⟩
      · exact hself hb hs
      · exact absurd hb lone
    | @next out error plan event attempt more =>
      rcases hsplit htrace with ⟨hb, hs⟩ | ⟨b, rfl, hb⟩
      · exact hself hb hs
      · have hnext := Ready.next hon hready (env.source p c)
          (congrArg Prod.snd attempt)
        rw [attempt] at hnext
        rcases cons_eq_append_iff.mp hb with ⟨-, hhead⟩ | ⟨b', rfl, htail⟩
        · injection hhead with hs
          nomatch hs
        · rw [output_started, output_emitted_append, ← append_assoc, output_handedOff] at hne ⊢
          exact ih (p.advance event plan) _ hnext b' after i r htail hne

/-- **After visible output a candidate is only started with a safe plan.** -/
theorem started_safely (hon : env.Recovers) (candidates : List RouteCandidate)
    {before after : List Event} {i : Nat} {r : Option PartialRecoveryPlan}
    (h : runWithFailover env candidates = before ++ .started i r :: after)
    (hne : output before ≠ []) : SafeStart env (output before) r := by
  unfold runWithFailover at h
  split at h
  · obtain ⟨b, -, hb⟩ := @split_emitted _ _ [] _ _ [_] h
    have := congrArg List.length hb
    simp at this
  · exact runChain_started_safely hon _ {} [] (Or.inl ⟨rfl, rfl⟩) before after i r h hne

end Chain

end NexusCode.Router
