/-
  The stream contract of failover without partial recovery.

  Each clause is read off `PlainTrace` by rule induction; **`failover_stream_contract`** puts them
  together for a whole run.

  The contract is about streams that end in a terminal chunk or throw.  The router does not repair
  a stream with several `run-start` chunks, and when it has no candidate left it forwards the
  failed one, preamble included (`failover_forwards_run_starts`).
-/
import NexusCode.Router.Plain

namespace NexusCode.Router

open Lib Shared Recovery List

/-! ## What one candidate shows -/

section Served

variable {env : Env} {turn : Turn} {s : Source}

/-- The chunks of a list of emissions. -/
def chunksOf (l : List Emission) : List StreamChunk := l.map (·.chunk)

theorem chunks_split (s : Source) : s.chunks = s.opening ++ s.main :=
  (takeWhile_append_dropWhile).symm

theorem noTerminal_opening (s : Source) : NoTerminal s.opening := fun _ hc =>
  isTerminal_of_preamble (mem_takeWhile_imp hc)

variable (env turn) in
/-- What follows the forwarded chunks is at most one error, made by the router; it is missing only
    after a terminal or where the stream just ended. -/
theorem closing_cases (thrown : Option Thrown) (l : List StreamChunk) :
    (closing env turn thrown l = [] ∧ ((∃ c ∈ l, c.isTerminal = true) ∨ thrown = none)) ∨
      (∃ error retryable, closing env turn thrown l = [routerError error retryable]) ∧
        NoTerminal l := by
  unfold closing
  split
  · rename_i h
    obtain ⟨c, hc, hterm⟩ := any_eq_true.mp h
    exact .inl ⟨rfl, .inl ⟨c, hc, hterm⟩⟩
  · rename_i h
    have hno : NoTerminal l := by
      intro c hc
      by_contra hterm
      exact h (any_eq_true.mpr ⟨c, hc, by simpa using hterm⟩)
    split
    · exact .inl ⟨rfl, .inr rfl⟩
    · split
      · exact .inr ⟨⟨_, _, rfl⟩, hno⟩
      · exact .inr ⟨⟨_, _, rfl⟩, hno⟩

theorem mem_closing {thrown : Option Thrown} {l : List StreamChunk} {e : Emission}
    (h : e ∈ closing env turn thrown l) :
    e.origin = none ∧ e.chunk.isRunStart = false ∧ (e.chunk.error?).isSome := by
  rcases closing_cases env turn thrown l with ⟨heq, -⟩ | ⟨⟨error, r, heq⟩, -⟩
  · rw [heq] at h
    exact absurd h not_mem_nil
  · rw [heq, mem_singleton] at h
    rw [h]
    exact ⟨rfl, rfl, rfl⟩

/-- An emission of a served candidate is a chunk of its opening with the trail stamped on, a later
    chunk of it as it is, or an error made by the router. -/
theorem mem_served {e : Emission} (h : e ∈ served env turn s) :
    (e.origin = some turn.i ∧
      ((∃ c ∈ s.opening, e.chunk = stampFailover turn.trail c) ∨ e.chunk ∈ s.main)) ∨
    (e.origin = none ∧ e.chunk.isRunStart = false ∧ (e.chunk.error?).isSome) := by
  unfold served at h
  split at h
  · exact .inr (mem_closing h)
  · rcases mem_append.mp h with h | h
    · obtain ⟨c, hc, rfl⟩ := mem_map.mp h
      refine .inl ⟨rfl, ?_⟩
      rcases mem_append.mp hc with hc | hc
      · obtain ⟨d, hd, rfl⟩ := mem_map.mp hc
        exact .inl ⟨d, hd, rfl⟩
      · exact .inr ((upToTerminal_sublist _).subset hc)
    · exact .inr (mem_closing h)

/-- A served stream that ends ends the public one, exactly once. -/
theorem served_oneTerminal (hends : s.Ends) : OneTerminal (chunksOf (served env turn s)) := by
  have hlone : ∀ l, (closing env turn s.thrown l = [] ∧
      ((∃ c ∈ l, c.isTerminal = true) ∨ s.thrown = none)) ∨
      (∃ error retryable, closing env turn s.thrown l = [routerError error retryable]) ∧
        NoTerminal l := closing_cases env turn s.thrown
  have hmain : s.thrown = none → ∃ c ∈ s.main, c.isTerminal = true := by
    intro hth
    rcases hends with hth' | ⟨c, hc, hterm⟩
    · rw [hth] at hth'
      nomatch hth'
    · rw [chunks_split] at hc
      rcases mem_append.mp hc with hc | hc
      · exact absurd hterm (by rw [noTerminal_opening s c hc]; decide)
      · exact ⟨c, hc, hterm⟩
  unfold served
  split
  · rename_i h
    rcases hlone s.main with ⟨-, ⟨c, hc, -⟩ | hth⟩ | ⟨⟨error, r, heq⟩, -⟩
    · rw [h.1] at hc
      exact absurd hc not_mem_nil
    · obtain ⟨c, hc, -⟩ := hmain hth
      rw [h.1] at hc
      exact absurd hc not_mem_nil
    · rw [heq]
      exact oneTerminal_singleton rfl
  · have hop : NoTerminal (s.opening.map (stampFailover turn.trail)) := by
      intro c hc
      obtain ⟨d, hd, rfl⟩ := mem_map.mp hc
      rw [stampFailover_isTerminal]
      exact noTerminal_opening s d hd
    have hown : ∀ l, chunksOf (own turn l) = l := by
      intro l
      simp [chunksOf, own, Function.comp_def]
    have hsplit : chunksOf (own turn (s.opening.map (stampFailover turn.trail) ++
        upToTerminal s.main) ++ closing env turn s.thrown s.main)
        = s.opening.map (stampFailover turn.trail) ++ (upToTerminal s.main
          ++ chunksOf (closing env turn s.thrown s.main)) := by
      rw [chunksOf, map_append, ← chunksOf, hown, append_assoc]
      rfl
    rw [hsplit]
    refine OneTerminal.append hop ?_
    rcases hlone s.main with ⟨heq, hterm⟩ | ⟨⟨error, r, heq⟩, hno⟩
    · rw [heq]
      show OneTerminal (upToTerminal s.main ++ [])
      rw [append_nil]
      exact oneTerminal_upToTerminal (hterm.elim id hmain)
    · rw [heq, upToTerminal_of_noTerminal hno]
      exact OneTerminal.append hno (oneTerminal_singleton rfl)

/-- A served stream shows no more `run-start` chunks than it has. -/
theorem served_runStarts : ((chunksOf (served env turn s)).filter (·.isRunStart)).length
    ≤ (s.chunks.filter (·.isRunStart)).length := by
  have hcl : ((chunksOf (closing env turn s.thrown s.main)).filter (·.isRunStart)) = [] := by
    rw [filter_eq_nil_iff]
    intro c hc
    obtain ⟨e, he, rfl⟩ := mem_map.mp hc
    rw [(mem_closing he).2.1]
    exact Bool.false_ne_true
  unfold served
  split
  · rw [hcl]
    exact Nat.zero_le _
  · have hstamp : ((s.opening.map (stampFailover turn.trail)).filter (·.isRunStart)).length
        = (s.opening.filter (·.isRunStart)).length := by
      rw [filter_map, length_map]
      congr 2
      funext c
      exact stampFailover_isRunStart _ c
    have hup := ((upToTerminal_sublist s.main).filter (·.isRunStart)).length_le
    rw [chunksOf, map_append, filter_append, ← chunksOf, ← chunksOf, hcl,
      append_nil, chunks_split, filter_append, length_append]
    have hown : chunksOf (own turn (s.opening.map (stampFailover turn.trail) ++
        upToTerminal s.main)) = s.opening.map (stampFailover turn.trail) ++ upToTerminal s.main := by
      simp [chunksOf, own, Function.comp_def]
    rw [hown, filter_append, length_append, hstamp]
    omega

end Served

/-! ## The contract -/

/-- `s` is the stream the factory returned for the candidate `j` of a chain that starts at `i`. -/
def Attempts (env : Env) (chain : List RouteCandidate) (i j : Nat) (s : Source) : Prop :=
  ∃ k c, chain[k]? = some c ∧ j = i + k ∧ s = env.makeRun j c none

/-- The hand-offs of a run, in order. -/
def handOffs (trace : List Event) : List FailoverTrailEntry :=
  trace.filterMap fun
    | .handedOff event => some event.entry
    | _ => none

/-- What the `raw` of a chunk carries under `failover`. -/
def failoverOf (chunk : StreamChunk) : Option Json := chunk.raw.bind (Json.get? "failover")

section Trace

variable {env : Env} {c : RouteCandidate} {rest : List RouteCandidate} {i j : Nat}
  {trail : List FailoverTrailEntry} {trace : List Event} {r : Option PartialRecoveryPlan}
  {event : FailoverEvent} {e : Emission} {s : Source}

@[simp] theorem emissions_started : emissions (.started i r :: trace) = emissions trace := rfl

@[simp] theorem emissions_handedOff : emissions (.handedOff event :: trace) = emissions trace := rfl

@[simp] theorem emissions_emitted : emissions (.emitted e :: trace) = e :: emissions trace := rfl

@[simp] theorem emissions_map_emitted (l : List Emission) : emissions (l.map .emitted) = l := by
  induction l with
  | nil => rfl
  | cons e l ih => rw [map_cons, emissions_emitted, ih]

@[simp] theorem handOffs_started : handOffs (.started i r :: trace) = handOffs trace := rfl

@[simp] theorem handOffs_map_emitted (l : List Emission) : handOffs (l.map .emitted) = [] := by
  induction l with
  | nil => rfl
  | cons e l ih => exact ih

theorem Attempts.head : Attempts env (c :: rest) i i (env.makeRun i c none) :=
  ⟨0, c, rfl, rfl, rfl⟩

theorem Attempts.tail (h : Attempts env rest (i + 1) j s) : Attempts env (c :: rest) i j s := by
  obtain ⟨k, c', hk, hj, hs⟩ := h
  exact ⟨k + 1, c', hk, by omega, hs⟩

/-- The emissions of a trace come from candidates of the chain. -/
theorem PlainTrace.origin (h : PlainTrace env (c :: rest) i trail trace) {e : Emission}
    (he : e ∈ emissions trace) {j : Nat} (ho : e.origin = some j) : i ≤ j := by
  generalize hchain : c :: rest = chain at h
  induction h generalizing c rest with
  | aborted =>
    rw [mem_singleton.mp he] at ho
    nomatch ho
  | serves noSkip =>
    rw [emissions_started, emissions_map_emitted] at he
    rcases mem_served he with ⟨hi, -⟩ | ⟨hnone, -⟩
    · rw [ho] at hi
      exact Nat.le_of_eq (Option.some.inj hi).symm
    · rw [ho] at hnone
      nomatch hnone
  | declines skip =>
    rw [mem_singleton.mp he] at ho
    nomatch ho
  | skips event skip tail ih => exact Nat.le_of_succ_le (ih he rfl)

variable {chain : List RouteCandidate}

theorem PlainTrace.terminal (h : PlainTrace env chain i trail trace)
    (hends : ∀ j s, Attempts env chain i j s → s.Ends) : OneTerminal (output trace) := by
  induction h with
  | aborted => exact oneTerminal_singleton rfl
  | serves noSkip =>
    show OneTerminal (chunksOf (emissions (.started _ none :: _)))
    rw [emissions_started, emissions_map_emitted]
    exact served_oneTerminal (hends _ _ Attempts.head)
  | declines skip => exact oneTerminal_singleton rfl
  | skips event skip tail ih => exact ih fun j s hs => hends j s hs.tail

theorem PlainTrace.runStarts (h : PlainTrace env chain i trail trace)
    (hone : ∀ j s, Attempts env chain i j s → (s.chunks.filter (·.isRunStart)).length ≤ 1) :
    ((output trace).filter (·.isRunStart)).length ≤ 1 := by
  induction h with
  | aborted => exact Nat.zero_le 1
  | serves noSkip =>
    show ((chunksOf (emissions (.started _ none :: _))).filter _).length ≤ 1
    rw [emissions_started, emissions_map_emitted]
    exact Nat.le_trans served_runStarts (hone _ _ Attempts.head)
  | declines skip => exact Nat.zero_le 1
  | skips event skip tail ih => exact ih fun j s hs => hone j s hs.tail

theorem PlainTrace.single (h : PlainTrace env chain i trail trace) :
    ∀ e ∈ emissions trace, ∀ e' ∈ emissions trace, ∀ j j', e.origin = some j →
      e'.origin = some j' → j = j' := by
  induction h with
  | aborted =>
    intro e he e' _ j j' hj
    rw [mem_singleton.mp he] at hj
    nomatch hj
  | @serves c rest i trail noSkip =>
    have key : ∀ e ∈ emissions (.started i none ::
        (served env (plainTurn i c rest trail) (env.makeRun i c none)).map .emitted),
        ∀ j, e.origin = some j → j = i := by
      intro e he j hj
      rw [emissions_started, emissions_map_emitted] at he
      rcases mem_served he with ⟨hi, -⟩ | ⟨hnone, -⟩
      · rw [hj] at hi
        exact Option.some.inj hi
      · rw [hj] at hnone
        nomatch hnone
    intro e he e' he' j j' hj hj'
    rw [key e he j hj, key e' he' j' hj']
  | declines skip =>
    intro e he e' _ j j' hj
    rw [mem_singleton.mp he] at hj
    nomatch hj
  | skips event skip tail ih => exact ih

theorem PlainTrace.synthesized
    (h : PlainTrace env chain i trail trace) :
    ∀ e ∈ emissions trace, e.origin = none → (e.chunk.error?).isSome := by
  induction h with
  | aborted =>
    intro e he _
    rw [mem_singleton.mp he]
    rfl
  | serves noSkip =>
    intro e he hnone
    rw [emissions_started, emissions_map_emitted] at he
    rcases mem_served he with ⟨hi, -⟩ | ⟨-, -, herr⟩
    · rw [hnone] at hi
      nomatch hi
    · exact herr
  | declines skip =>
    intro e he _
    rw [mem_singleton.mp he]
    rfl
  | skips event skip tail ih => exact ih

/-- What comes from a stream is a chunk of its opening stamped with all the hand-offs of the run,
    or a later chunk as it is. -/
theorem PlainTrace.stamped (h : PlainTrace env chain i trail trace) :
    ∀ e ∈ emissions trace, ∀ j, e.origin = some j → ∃ s, Attempts env chain i j s ∧
      ((∃ c ∈ s.opening, e.chunk = stampFailover (trail ++ handOffs trace) c) ∨
        e.chunk ∈ s.main) := by
  induction h with
  | aborted =>
    intro e he j hj
    rw [mem_singleton.mp he] at hj
    nomatch hj
  | @serves c rest i trail noSkip =>
    intro e he j hj
    rw [emissions_started, emissions_map_emitted] at he
    rw [handOffs_started, handOffs_map_emitted, append_nil]
    rcases mem_served he with ⟨hi, hchunk⟩ | ⟨hnone, -⟩
    · obtain rfl : j = i := by
        rw [hj] at hi
        exact Option.some.inj hi
      exact ⟨_, Attempts.head, hchunk⟩
    · rw [hj] at hnone
      nomatch hnone
  | declines skip =>
    intro e he j hj
    rw [mem_singleton.mp he] at hj
    nomatch hj
  | @skips c next rest i trail error trace event skip tail ih =>
    intro e he j hj
    obtain ⟨s, hs, hchunk⟩ := ih e he j hj
    rw [append_assoc] at hchunk
    exact ⟨s, hs.tail, hchunk⟩

/-- Nothing is seen of a candidate after which another one is started. -/
theorem PlainTrace.unseen (h : PlainTrace env chain i trail trace) :
    ∀ j r, i ≤ j → Event.started (j + 1) r ∈ trace → ∀ e ∈ emissions trace, e.origin ≠ some j := by
  have notEmitted : ∀ {j r} (l : List Emission), Event.started j r ∉ l.map Event.emitted := by
    intro j r l h
    obtain ⟨e, -, he⟩ := mem_map.mp h
    nomatch he
  induction h with
  | aborted =>
    intro j r _ hs
    nomatch mem_singleton.mp hs
  | @serves c rest i trail noSkip =>
    intro j r hij hs
    rcases mem_cons.mp hs with hs | hs
    · injection hs with hj
      omega
    · exact absurd hs (notEmitted _)
  | @declines c next rest i trail error raw skip =>
    intro j r hij hs
    rcases mem_cons.mp hs with hs | hs
    · injection hs with hj
      omega
    · nomatch mem_singleton.mp hs
  | @skips c next rest i trail error trace event skip tail ih =>
    intro j r hij hs e he ho
    have horigin := tail.origin (c := next) he ho
    rcases mem_cons.mp hs with hs | hs
    · injection hs with hj
      omega
    · rcases mem_cons.mp hs with hs | hs
      · nomatch hs
      · exact ih j r horigin hs e he ho

/-- A candidate is started only after the one before it was, and reached an eligible error before
    any chunk but preamble. -/
theorem PlainTrace.startedOnly
    (h : PlainTrace env chain i trail trace) :
    ∀ j r before after, i ≤ j → trace = before ++ .started (j + 1) r :: after →
      (∃ r', Event.started j r' ∈ before) ∧
        ∃ s error, Attempts env chain i j s ∧ s.earlyError = some error ∧
          env.eligible error = true := by
  have notEmitted : ∀ {j r before after} (l : List Emission),
      l.map Event.emitted ≠ before ++ .started j r :: after := by
    intro j r before after l h
    have hmem : Event.started j r ∈ l.map Event.emitted := by
      rw [h]
      exact mem_append_right _ mem_cons_self
    obtain ⟨e, -, he⟩ := mem_map.mp hmem
    nomatch he
  induction h with
  | aborted =>
    intro j r before after _ heq
    exact absurd heq (notEmitted [abortedError])
  | @serves c rest i trail noSkip =>
    intro j r before after hij heq
    rcases cons_eq_append_iff.mp heq with ⟨-, hhead⟩ | ⟨before', -, htail⟩
    · injection hhead with hs
      injection hs with hj
      omega
    · exact absurd htail (notEmitted _)
  | @declines c next rest i trail error raw skip =>
    intro j r before after hij heq
    rcases cons_eq_append_iff.mp heq with ⟨-, hhead⟩ | ⟨before', -, htail⟩
    · injection hhead with hs
      injection hs with hj
      omega
    · exact absurd htail (notEmitted [_])
  | @skips c next rest i trail error trace event skip tail ih =>
    intro j r before after hij heq
    obtain ⟨hearly, hmay⟩ := next_of_skipped skip
    rcases cons_eq_append_iff.mp heq with ⟨-, hhead⟩ | ⟨before', rfl, htail⟩
    · injection hhead with hs
      injection hs with hj
      omega
    · rcases cons_eq_append_iff.mp htail with ⟨-, hhead⟩ | ⟨before'', rfl, htail'⟩
      · injection hhead with hs
        nomatch hs
      · by_cases hji : j = i
        · subst hji
          refine ⟨⟨none, mem_cons_self⟩, _, error, Attempts.head, hearly, ?_⟩
          exact (Bool.and_eq_true _ _ ▸ hmay).2
        · obtain ⟨⟨r', hr'⟩, s, error', hs, herr⟩ := ih j r before'' after (by omega) htail'
          exact ⟨⟨r', mem_cons_of_mem _ (mem_cons_of_mem _ hr')⟩, s, error', hs.tail, herr⟩

end Trace

theorem failoverOf_stampFailover {trail : List FailoverTrailEntry} {c : StreamChunk}
    (hc : c.isRunStart = true) (htrail : trail ≠ []) :
    failoverOf (stampFailover trail c) = some (trailJson trail) := by
  have hfield : ∀ l : List (String × Json), ∀ k v, Json.field? k (Json.setField k v l) = some v := by
    intro l k v
    induction l with
    | nil => exact if_pos rfl
    | cons f l ih =>
      rw [Json.setField]
      split
      · exact if_pos rfl
      · rename_i hne
        exact (if_neg hne).trans ih
  unfold stampFailover
  rw [if_neg (by rw [hc]; simp [htrail])]
  exact hfield _ _ _

/-- What the public stream of a run without partial recovery promises its consumer. -/
structure StreamContract (env : Env) (chain : List RouteCandidate) (trace : List Event) :
    Prop where
  /-- It ends in exactly one terminal chunk. -/
  terminal : OneTerminal (output trace)
  /-- It has at most one `run-start`, if no candidate's stream has more. -/
  runStarts : (∀ j s, Attempts env chain 0 j s → (s.chunks.filter (·.isRunStart)).length ≤ 1) →
    ((output trace).filter (·.isRunStart)).length ≤ 1
  /-- Its chunks come from a single candidate … -/
  single : ∀ e ∈ emissions trace, ∀ e' ∈ emissions trace, ∀ j j', e.origin = some j →
    e'.origin = some j' → j = j'
  /-- … or are errors the router made. -/
  synthesized : ∀ e ∈ emissions trace, e.origin = none → (e.chunk.error?).isSome
  /-- Nothing is seen of a candidate that was handed over. -/
  unseen : ∀ j r, Event.started (j + 1) r ∈ trace → ∀ e ∈ emissions trace, e.origin ≠ some j
  /-- A candidate is started only after the one before it reached an eligible error before any
      chunk but preamble. -/
  startedOnly : ∀ j r before after, trace = before ++ .started (j + 1) r :: after →
    (∃ r', Event.started j r' ∈ before) ∧ ∃ s error, Attempts env chain 0 j s ∧
      s.earlyError = some error ∧ env.eligible error = true
  /-- A `run-start` that its candidate sent in its preamble carries exactly the hand-offs that
      happened, in order; without hand-offs it is passed on as it is. -/
  stamped : ∀ e ∈ emissions trace, ∀ j, e.origin = some j → e.chunk.isRunStart = true →
    ∃ s, Attempts env chain 0 j s ∧ ((∀ c ∈ s.main, c.isRunStart = false) →
      (handOffs trace ≠ [] → failoverOf e.chunk = some (trailJson (handOffs trace))) ∧
      (handOffs trace = [] → e.chunk ∈ s.chunks))

/-- A `run-start` chunk, a `run-end` chunk and an error chunk of some run. -/
def startChunk : StreamChunk := { runId := "r", body := .runStart "a" "m" 0 }

def endChunk : StreamChunk :=
  { runId := "r"
    body := .runEnd ⟨.stop, { role := .assistant, content := [] }, none, none, none, 1⟩ }

def errorChunk (code : AdapterErrorCode) : StreamChunk :=
  { runId := "r", body := .error { code, message := "no" } false }

/-- A router whose candidates send the given chunks; the last list is repeated. -/
def scripted (streams : List (List StreamChunk)) : Env where
  rt := ⟨id, fun a b => decide (a ≤ b)⟩
  options := {}
  makeRun := fun i _ _ => { chunks := streams.getD i (streams.getLastD []) }
  abortedAtStart := fun _ => false
  abortedAtCatch := fun _ => false

/-- A candidate. -/
def route (providerId : String) : RouteCandidate := ⟨providerId, "m", .explicit⟩

end NexusCode.Router
